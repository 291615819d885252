import ProfiNotifications.OrderCore.Domain

/-! # Wire schemas of order-core-service

`parse.results` and `assess.requests` carry `ParseResultMessage` in the field names of
the parser; `assess.results` carries `AssessmentResultMessage` with a notification in
camelCase. Validation reads a raw object and collects every rejected field; a dump
writes the fields in their declared order.
-/

namespace ProfiNotifications.OrderCore.Schemas

open Lax

structure Price where
  prefix_ : String := ""
  value : String := ""
  suffix : String := ""
  deriving DecidableEq, Repr

structure Coordinates where
  lat : Double
  lon : Double
  deriving DecidableEq, Repr

structure GeoPlace where
  prefix_ : String := ""
  suffix : String := ""
  address : Option String := none
  deriving DecidableEq, Repr

structure Geo where
  remote : Option GeoPlace := none
  orderLocation : Option GeoPlace := none
  clientMayCome : Option GeoPlace := none
  deriving DecidableEq, Repr

structure Client where
  name : String := ""
  tags : List String := []
  deriving DecidableEq, Repr

structure Badge where
  id : String := ""
  imageKey : String := ""
  label : String := ""
  deriving DecidableEq, Repr

structure Order where
  id : String
  title : String := ""
  description : String := ""
  price : Option Price := none
  geo : Geo := {}
  client : Client := {}
  badges : List Badge := []
  schedule : Option String := none
  lastUpdate : ℤ := 0
  score : Double := .finite 0
  isFresh : Bool := false
  isViewed : Bool := false
  coordinates : Option Coordinates := none
  deriving DecidableEq, Repr

structure ParseResultMessage where
  requestId : String
  fetchedAt : ℤ := 0
  totalCount : ℤ := 0
  nextCursor : Option String := none
  orders : List Order := []
  deriving DecidableEq, Repr

structure NotificationMessage where
  text : String
  parseMode : Option ParseMode := none
  disableNotification : Option Bool := none
  disableWebPagePreview : Option Bool := none
  messageThreadId : Option ℤ := none
  deriving DecidableEq, Repr

structure AssessmentResultMessage where
  orderId : String
  suitabilityScore : ℤ
  notification : NotificationMessage
  deriving DecidableEq, Repr

section Validate

variable (lax : Lax)

def Price.validate : Json → Validated Price :=
  model fun ms => Price.mk
    <$> default ms "prefix" "" str
    <*> default ms "value" "" str
    <*> default ms "suffix" "" str

def Coordinates.validate : Json → Validated Coordinates :=
  model fun ms => Coordinates.mk
    <$> required ms "lat" lax.float
    <*> required ms "lon" lax.float

def GeoPlace.validate : Json → Validated GeoPlace :=
  model fun ms => GeoPlace.mk
    <$> default ms "prefix" "" str
    <*> default ms "suffix" "" str
    <*> default ms "address" none (optional str)

def Geo.validate : Json → Validated Geo :=
  model fun ms => Geo.mk
    <$> default ms "remote" none (optional GeoPlace.validate)
    <*> default ms "order_location" none (optional GeoPlace.validate)
    <*> default ms "client_may_come" none (optional GeoPlace.validate)

def Client.validate : Json → Validated Client :=
  model fun ms => Client.mk
    <$> default ms "name" "" str
    <*> default ms "tags" [] (list str)

def Badge.validate : Json → Validated Badge :=
  model fun ms => Badge.mk
    <$> default ms "id" "" str
    <*> default ms "image_key" "" str
    <*> default ms "label" "" str

def Order.validate : Json → Validated Order :=
  model fun ms => Order.mk
    <$> required ms "id" str
    <*> default ms "title" "" str
    <*> default ms "description" "" str
    <*> default ms "price" none (optional Price.validate)
    <*> default ms "geo" {} Geo.validate
    <*> default ms "client" {} Client.validate
    <*> default ms "badges" [] (list Badge.validate)
    <*> default ms "schedule" none (optional str)
    <*> default ms "last_update" 0 lax.int
    <*> default ms "score" (.finite 0) lax.float
    <*> default ms "is_fresh" false lax.bool
    <*> default ms "is_viewed" false lax.bool
    <*> default ms "coordinates" none (optional (Coordinates.validate lax))

def ParseResultMessage.validate : Json → Validated ParseResultMessage :=
  model fun ms => ParseResultMessage.mk
    <$> required ms "request_id" str
    <*> default ms "fetched_at" 0 lax.int
    <*> default ms "total_count" 0 lax.int
    <*> default ms "next_cursor" none (optional str)
    <*> default ms "orders" [] (list (Order.validate lax))

/-- One of the literals of `ParseMode`. -/
def ParseMode.validate : Json → Validated ParseMode
  | .str "HTML" => .ok .html
  | .str "MarkdownV2" => .ok .markdownV2
  | .str "Markdown" => .ok .markdown
  | _ => .errors [[]]

def NotificationMessage.validate : Json → Validated NotificationMessage :=
  model fun ms => NotificationMessage.mk
    <$> required ms "text" str
    <*> aliased ms "parseMode" "parse_mode" none (optional ParseMode.validate)
    <*> aliased ms "disableNotification" "disable_notification" none (optional lax.bool)
    <*> aliased ms "disableWebPagePreview" "disable_web_page_preview" none (optional lax.bool)
    <*> aliased ms "messageThreadId" "message_thread_id" none (optional lax.int)

def AssessmentResultMessage.validate : Json → Validated AssessmentResultMessage :=
  model fun ms => AssessmentResultMessage.mk
    <$> required ms "order_id" str
    <*> required ms "suitability_score" lax.int
    <*> required ms "notification" (NotificationMessage.validate lax)

end Validate

def Price.dump (p : Price) : Json :=
  .obj [("prefix", .str p.prefix_), ("value", .str p.value), ("suffix", .str p.suffix)]

def Coordinates.dump (c : Coordinates) : Json := 
  .obj [("lat", .ofDouble c.lat), ("lon", .ofDouble c.lon)]

def GeoPlace.dump (g : GeoPlace) : Json :=
  .obj [("prefix", .str g.prefix_), ("suffix", .str g.suffix),
    ("address", .ofOption .str g.address)]

def Geo.dump (g : Geo) : Json :=
  .obj [("remote", .ofOption GeoPlace.dump g.remote),
    ("order_location", .ofOption GeoPlace.dump g.orderLocation),
    ("client_may_come", .ofOption GeoPlace.dump g.clientMayCome)]

def Client.dump (c : Client) : Json :=
  .obj [("name", .str c.name), ("tags", .arr (c.tags.map .str))]

def Badge.dump (b : Badge) : Json :=
  .obj [("id", .str b.id), ("image_key", .str b.imageKey), ("label", .str b.label)]

def Order.dump (o : Order) : Json :=
  .obj [("id", .str o.id), ("title", .str o.title), ("description", .str o.description),
    ("price", .ofOption Price.dump o.price), ("geo", o.geo.dump), ("client", o.client.dump),
    ("badges", .arr (o.badges.map Badge.dump)), ("schedule", .ofOption .str o.schedule),
    ("last_update", .int o.lastUpdate), ("score", .ofDouble o.score), ("is_fresh", .bool o.isFresh),
    ("is_viewed", .bool o.isViewed), ("coordinates", .ofOption Coordinates.dump o.coordinates)]

def ParseResultMessage.dump (m : ParseResultMessage) : Json :=
  .obj [("request_id", .str m.requestId), ("fetched_at", .int m.fetchedAt),
    ("total_count", .int m.totalCount), ("next_cursor", .ofOption .str m.nextCursor),
    ("orders", .arr (m.orders.map Order.dump))]

/-- The members of the dump by alias, without absent fields. -/
def NotificationMessage.members (n : NotificationMessage) : List (String × Json) :=
  [("text", .str n.text)] ++ Json.present "parseMode" (fun m => .str m.value) n.parseMode
    ++ Json.present "disableNotification" .bool n.disableNotification
    ++ Json.present "disableWebPagePreview" .bool n.disableWebPagePreview
    ++ Json.present "messageThreadId" .int n.messageThreadId

def NotificationMessage.dump (n : NotificationMessage) : Json := .obj n.members

section RoundTrip

variable {lax : Lax}

theorem Price.validate_dump (p : Price) : Price.validate p.dump = .ok p := by
  simp [validate, dump, Lax.default]

theorem Coordinates.validate_dump (c : Coordinates) : Coordinates.validate lax c.dump = .ok c := by
  simp [validate, dump, Lax.required]

theorem GeoPlace.validate_dump (g : GeoPlace) : GeoPlace.validate g.dump = .ok g := by
  have h := optional_ofOption str_str (by simp) g.address
  simp [validate, dump, Lax.default, h]

theorem Geo.validate_dump (g : Geo) : Geo.validate g.dump = .ok g := by
  have h := optional_ofOption GeoPlace.validate_dump (by simp [GeoPlace.dump])
  simp [validate, dump, Lax.default, h]

theorem Client.validate_dump (c : Client) : Client.validate c.dump = .ok c := by
  have h := list_map str_str c.tags
  simp [validate, dump, Lax.default, h]

theorem Badge.validate_dump (b : Badge) : Badge.validate b.dump = .ok b := by
  simp [validate, dump, Lax.default]

/-- A dumped order is accepted, and every field is the same. -/
theorem Order.validate_dump (o : Order) : Order.validate lax o.dump = .ok o := by
  have hprice := optional_ofOption Price.validate_dump (by simp [Price.dump]) o.price
  have hbadges := list_map Badge.validate_dump o.badges
  have hschedule := optional_ofOption str_str (by simp) o.schedule
  have hread : ∀ c, Coordinates.validate lax c.dump = .ok c := Coordinates.validate_dump
  have hcoordinates := optional_ofOption hread (by simp [Coordinates.dump]) o.coordinates
  simp [validate, dump, Lax.default, Lax.required, hprice, hbadges, hschedule, hcoordinates,
    Geo.validate_dump, Client.validate_dump]

theorem ParseResultMessage.validate_dump (m : ParseResultMessage) :
    ParseResultMessage.validate lax m.dump = .ok m := by
  have hcursor := optional_ofOption str_str (by simp) m.nextCursor
  have hread : ∀ o, Order.validate lax o.dump = .ok o := Order.validate_dump
  have horders := list_map hread m.orders
  simp [validate, dump, Lax.default, Lax.required, hcursor, horders]

theorem ParseMode.validate_value (m : ParseMode) : ParseMode.validate (.str m.value) = .ok m := by
  cases m <;> rfl

section Members

variable (n : NotificationMessage)

open Json

theorem NotificationMessage.get_text : get n.members "text" = some (.str n.text) := by
  simp [members]

theorem NotificationMessage.get_parseMode :
    get n.members "parseMode" = n.parseMode.map fun m => .str m.value := by
  simp [members, get_append, get_present_of_ne]

theorem NotificationMessage.get_disableNotification :
    get n.members "disableNotification" = n.disableNotification.map .bool := by
  simp [members, get_append, get_present_of_ne]

theorem NotificationMessage.get_disableWebPagePreview :
    get n.members "disableWebPagePreview" = n.disableWebPagePreview.map .bool := by
  simp [members, get_append, get_present_of_ne]

theorem NotificationMessage.get_messageThreadId :
    get n.members "messageThreadId" = n.messageThreadId.map .int := by
  simp [members, get_append, get_present_of_ne]

theorem NotificationMessage.get_none {name : String} (h : name ∉ ["text", "parseMode",
    "disableNotification", "disableWebPagePreview", "messageThreadId"]) :
    get n.members name = none := by
  simp only [List.mem_cons, List.not_mem_nil, or_false, not_or] at h
  obtain ⟨h₁, h₂, h₃, h₄, h₅⟩ := h
  simp [members, get_append, get_present_of_ne, Ne.symm h₁, Ne.symm h₂, Ne.symm h₃, Ne.symm h₄,
    Ne.symm h₅]

end Members

theorem NotificationMessage.validate_dump (n : NotificationMessage) :
    NotificationMessage.validate lax n.dump = .ok n := by
  have htext := required_of_get n.get_text (str_str n.text)
  have hmode := aliased_of_get n.get_parseMode (n.get_none (by decide : "parse_mode" ∉ _))
    ParseMode.validate_value (by simp)
  have hsilent := aliased_of_get n.get_disableNotification
    (n.get_none (by decide : "disable_notification" ∉ _)) (bool_bool lax) (by simp)
  have hpreview := aliased_of_get n.get_disableWebPagePreview
    (n.get_none (by decide : "disable_web_page_preview" ∉ _)) (bool_bool lax) (by simp)
  have hthread := aliased_of_get n.get_messageThreadId
    (n.get_none (by decide : "message_thread_id" ∉ _)) (int_int lax) (by simp)
  simp only [validate, dump, model_obj, htext, hmode, hsilent, hpreview, hthread,
    Validated.map_ok, Validated.seq_ok]

end RoundTrip

end ProfiNotifications.OrderCore.Schemas
