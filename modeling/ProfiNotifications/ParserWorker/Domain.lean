import ProfiNotifications.Foundations.Json

/-! # Orders of the parser worker

The parser worker reads orders from the board and publishes them in batches. The
serialised form of a record is the object of its fields in declared order; an absent
value is written as `null`.
-/

namespace ProfiNotifications.ParserWorker

structure Price where
  prefix_ : String
  value : String
  suffix : String
  deriving DecidableEq, Repr

structure Coordinates where
  lat : ℚ
  lon : ℚ
  deriving DecidableEq, Repr

structure Client where
  name : String
  tags : List String
  deriving DecidableEq, Repr

structure Badge where
  id : String
  imageKey : String
  label : String
  deriving DecidableEq, Repr

structure GeoPlace where
  prefix_ : String
  suffix : String
  address : Option String
  deriving DecidableEq, Repr

structure Geo where
  remote : Option GeoPlace
  orderLocation : Option GeoPlace
  clientMayCome : Option GeoPlace
  deriving DecidableEq, Repr

structure Order where
  id : String
  title : String
  description : String
  price : Option Price
  geo : Geo
  client : Client
  badges : List Badge
  schedule : Option String
  lastUpdate : Int64
  score : ℚ
  isFresh : Bool
  isViewed : Bool
  coordinates : Option Coordinates
  deriving DecidableEq, Repr

structure ParseResult where
  requestId : String
  fetchedAt : Int64
  totalCount : UInt32
  nextCursor : Option String
  orders : List Order
  deriving DecidableEq, Repr

inductive SortOrder where
  | default | date
  deriving DecidableEq, Repr

structure BoardFilter where
  searchQuery : String := ""
  pageSize : UInt32 := 10
  sort : SortOrder := .default
  allVerticals : Bool := true
  useSavedFilter : Bool := true
  rawFilter : Json := .null
  deriving DecidableEq, Repr

structure ParseRequest where
  requestId : String
  filter : BoardFilter := {}
  maxPages : Option UInt32 := none
  deriving DecidableEq, Repr

/-- The value of the `Cookie` header, and the status of the session. -/
structure AuthCookies where
  header : String
  status : String
  deriving DecidableEq, Repr

structure BoardPage where
  orders : List Order
  nextCursor : Option String
  totalCount : UInt32
  serverTs : Int64
  deriving DecidableEq, Repr

inductive ParserError where
  | invalidRequest (message : String)
  | auth (message : String)
  | board (message : String)
  | publish (message : String)
  | queue (message : String)
  | decode (message : String)
  deriving DecidableEq, Repr

def Price.serialize (p : Price) : Json :=
  .obj [("prefix", .str p.prefix_), ("value", .str p.value), ("suffix", .str p.suffix)]

def Coordinates.serialize (c : Coordinates) : Json :=
  .obj [("lat", .float c.lat), ("lon", .float c.lon)]

def Client.serialize (c : Client) : Json :=
  .obj [("name", .str c.name), ("tags", .arr (c.tags.map .str))]

def Badge.serialize (b : Badge) : Json :=
  .obj [("id", .str b.id), ("image_key", .str b.imageKey), ("label", .str b.label)]

def GeoPlace.serialize (g : GeoPlace) : Json :=
  .obj [("prefix", .str g.prefix_), ("suffix", .str g.suffix),
    ("address", .ofOption .str g.address)]

def Geo.serialize (g : Geo) : Json :=
  .obj [("remote", .ofOption GeoPlace.serialize g.remote),
    ("order_location", .ofOption GeoPlace.serialize g.orderLocation),
    ("client_may_come", .ofOption GeoPlace.serialize g.clientMayCome)]

def Order.serialize (o : Order) : Json :=
  .obj [("id", .str o.id), ("title", .str o.title), ("description", .str o.description),
    ("price", .ofOption Price.serialize o.price), ("geo", o.geo.serialize),
    ("client", o.client.serialize), ("badges", .arr (o.badges.map Badge.serialize)),
    ("schedule", .ofOption .str o.schedule), ("last_update", .int o.lastUpdate.toInt),
    ("score", .float o.score), ("is_fresh", .bool o.isFresh), ("is_viewed", .bool o.isViewed),
    ("coordinates", .ofOption Coordinates.serialize o.coordinates)]

def encodeResult (r : ParseResult) : Json :=
  .obj [("request_id", .str r.requestId), ("fetched_at", .int r.fetchedAt.toInt),
    ("total_count", .int r.totalCount.toNat), ("next_cursor", .ofOption .str r.nextCursor),
    ("orders", .arr (r.orders.map Order.serialize))]

end ProfiNotifications.ParserWorker
