import ProfiNotifications.Foundations.Serde
import ProfiNotifications.ParserWorker.Domain

/-! # The board of orders

A page of the board is asked for with a GraphQL query, and the answer is decoded and
mapped to the orders of the page.
-/

namespace ProfiNotifications.ParserWorker

def SortOrder.asApi : SortOrder → String
  | .default => "DEFAULT"
  | .date => "DATE"

def buildVariables (filter : BoardFilter) (cursor : Option String) : Json :=
  .obj
    ([("allVerticals", .bool filter.allVerticals), ("searchQuery", .str filter.searchQuery),
      ("searchEntities", .arr []), ("pageSize", .int filter.pageSize.toNat),
      ("useSavedFilter", .bool filter.useSavedFilter), ("sort", .str filter.sort.asApi),
      ("filter", if filter.rawFilter = .null then .obj [] else filter.rawFilter)] ++
      Json.present "nextCursor" .str cursor)

def buildBody (boardQuery : String) (filter : BoardFilter) (cursor : Option String) : Json :=
  .obj [("query", .str boardQuery), ("variables", buildVariables filter cursor)]

structure GraphqlError where
  message : String
  deriving DecidableEq, Repr

structure PriceDto where
  prefix_ : Option String
  suffix : Option String
  value : Option String
  deriving DecidableEq, Repr

structure GeoPlaceDto where
  prefix_ : Option String
  suffix : Option String
  address : Option String
  deriving DecidableEq, Repr

structure GeoDto where
  remote : Option GeoPlaceDto
  orderLocation : Option GeoPlaceDto
  clientMayCome : Option GeoPlaceDto
  deriving DecidableEq, Repr

structure ClientInfoDto where
  name : Option String
  deriving DecidableEq, Repr

structure ClientTagDto where
  value : Option String
  deriving DecidableEq, Repr

structure BadgeDto where
  id : Option String
  imageKey : Option String
  label : Option String
  deriving DecidableEq, Repr

structure CoordinatesDto where
  lat : ℚ
  lon : ℚ
  deriving DecidableEq, Repr

structure Item where
  itemType : Option String
  id : Option String
  title : Option String
  description : Option String
  score : Option ℚ
  lastUpdateDate : Option Int64
  isFresh : Option Bool
  isViewed : Option Bool
  schedule : Option String
  price : Option PriceDto
  geo : Option GeoDto
  clientInfo : Option ClientInfoDto
  clientTags : List ClientTagDto
  badges : List BadgeDto
  coordinates : Option CoordinatesDto
  deriving DecidableEq, Repr

structure BoardItems where
  nextCursor : Option String
  serverTs : Int64
  totalCount : UInt32
  items : List Item
  deriving DecidableEq, Repr

structure ResponseData where
  board : BoardItems
  deriving DecidableEq, Repr

structure GraphqlResponse where
  data : Option ResponseData
  errors : List GraphqlError
  deriving DecidableEq, Repr

section Deserialize

open Serde

def GraphqlError.deserialize : Json → Option GraphqlError := struct fun j => do
  return ⟨← required string j "message"⟩

def PriceDto.deserialize : Json → Option PriceDto := struct fun j => do
  return ⟨← optional string j "prefix", ← optional string j "suffix", ← optional string j "value"⟩

def GeoPlaceDto.deserialize : Json → Option GeoPlaceDto := struct fun j => do
  return ⟨← optional string j "prefix", ← optional string j "suffix",
    ← optional string j "address"⟩

def GeoDto.deserialize : Json → Option GeoDto := struct fun j => do
  return ⟨← optional GeoPlaceDto.deserialize j "remote",
    ← optional GeoPlaceDto.deserialize j "orderLocation",
    ← optional GeoPlaceDto.deserialize j "clientMayCome"⟩

def ClientInfoDto.deserialize : Json → Option ClientInfoDto := struct fun j => do
  return ⟨← optional string j "name"⟩

def ClientTagDto.deserialize : Json → Option ClientTagDto := struct fun j => do
  return ⟨← optional string j "value"⟩

def BadgeDto.deserialize : Json → Option BadgeDto := struct fun j => do
  return ⟨← optional string j "id", ← optional string j "imageKey", ← optional string j "label"⟩

def CoordinatesDto.deserialize : Json → Option CoordinatesDto := struct fun j => do
  return ⟨← required float64 j "lat", ← required float64 j "lon"⟩

def Item.deserialize : Json → Option Item := struct fun j => do
  let itemType ← optional string j "type"
  let id ← optional string j "id"
  let title ← optional string j "title"
  let description ← optional string j "description"
  let score ← optional float64 j "score"
  let lastUpdateDate ← optional int64 j "lastUpdateDate"
  let isFresh ← optional bool j "isFresh"
  let isViewed ← optional bool j "isViewed"
  let schedule ← optional string j "schedule"
  let price ← optional PriceDto.deserialize j "price"
  let geo ← optional GeoDto.deserialize j "geo"
  let clientInfo ← optional ClientInfoDto.deserialize j "clientInfo"
  let clientTags ← default [] (seq ClientTagDto.deserialize) j "clientTags"
  let badges ← default [] (seq BadgeDto.deserialize) j "badges"
  let coordinates ← optional CoordinatesDto.deserialize j "coordinates"
  return ⟨itemType, id, title, description, score, lastUpdateDate, isFresh, isViewed, schedule,
    price, geo, clientInfo, clientTags, badges, coordinates⟩

def BoardItems.deserialize : Json → Option BoardItems := struct fun j => do
  let nextCursor ← optional string j "nextCursor"
  let serverTs ← default 0 int64 j "serverTs"
  let totalCount ← default 0 uint32 j "totalCount"
  let items ← default [] (seq Item.deserialize) j "items"
  return ⟨nextCursor, serverTs, totalCount, items⟩

def ResponseData.deserialize : Json → Option ResponseData := struct fun j => do
  return ⟨← required BoardItems.deserialize j "boSearchBoardItems"⟩

def GraphqlResponse.deserialize : Json → Option GraphqlResponse := struct fun j => do
  let data ← optional ResponseData.deserialize j "data"
  let errors ← default [] (seq GraphqlError.deserialize) j "errors"
  return ⟨data, errors⟩

end Deserialize

def SNIPPET : String := "SNIPPET"

def toPrice (price : PriceDto) : Option Price :=
  price.value.map fun value =>
    { prefix_ := price.prefix_.getD "", value := value, suffix := price.suffix.getD "" }

def toGeoPlace (place : GeoPlaceDto) : Option GeoPlace :=
  (place.prefix_.filter fun value => value ≠ "").map fun value =>
    { prefix_ := value, suffix := place.suffix.getD "", address := place.address }

def toGeo (geo : GeoDto) : Geo where
  remote := geo.remote.bind toGeoPlace
  orderLocation := geo.orderLocation.bind toGeoPlace
  clientMayCome := geo.clientMayCome.bind toGeoPlace

def toBadge (badge : BadgeDto) : Option Badge :=
  badge.id.map fun id =>
    { id := id, imageKey := badge.imageKey.getD "", label := badge.label.getD "" }

def toOrder (item : Item) : Option Order :=
  if item.itemType ≠ some SNIPPET then none
  else item.id.map fun id =>
    { id := id
      title := item.title.getD ""
      description := item.description.getD ""
      price := item.price.bind toPrice
      geo := (item.geo.map toGeo).getD ⟨none, none, none⟩
      client :=
        { name := (item.clientInfo.bind ClientInfoDto.name).getD ""
          tags := item.clientTags.filterMap ClientTagDto.value }
      badges := item.badges.filterMap toBadge
      schedule := item.schedule.filter fun value => value ≠ ""
      lastUpdate := item.lastUpdateDate.getD 0
      score := item.score.getD 0
      isFresh := item.isFresh.getD false
      isViewed := item.isViewed.getD false
      coordinates := item.coordinates.map fun c => ⟨c.lat, c.lon⟩ }

def toBoardPage (board : BoardItems) : BoardPage where
  orders := board.items.filterMap toOrder
  nextCursor := board.nextCursor
  totalCount := board.totalCount
  serverTs := board.serverTs

def USER_AGENT : String :=
  "Mozilla/5.0 (Windows NT 10.0; Win64; x64) AppleWebKit/537.36 (KHTML, like Gecko) " ++
    "Chrome/150.0.0.0 Safari/537.36"

def HEADERS : List (String × String) :=
  [("accept", "application/json"), ("user-agent", USER_AGENT), ("origin", "https://profi.ru"),
    ("referer", "https://profi.ru/backoffice/n.php"), ("x-app-id", "BO"),
    ("x-new-auth-compatible", "1"), ("x-requested-with", "XMLHttpRequest"),
    ("x-warp-ui-app", "WEBBO"), ("x-warp-ui-type", "WEB"), ("x-warp-ui-ver", "1.0")]

structure HttpResponse where
  status : ℕ
  statusLine : String
  text : String

/-- The board behind HTTP: what a request with headers and a body is answered, the text of the
query, and the JSON of a text or the error of reading it. -/
structure ProfiBoardSource where
  post : List (String × String) → Json → Except String HttpResponse
  boardQuery : String
  parse : String → Except String Json
  typeError : Json → String

def GraphqlResponse.page (parsed : GraphqlResponse) : Except ParserError BoardPage :=
  if parsed.errors ≠ [] then
    .error (.board ("GraphQL ошибки: " ++
      "; ".intercalate (parsed.errors.map GraphqlError.message)))
  else
    match parsed.data with
    | none => .error (.board "ответ без поля data")
    | some data => .ok (toBoardPage data.board)

namespace ProfiBoardSource

variable (source : ProfiBoardSource)

def decode (text : String) : Except ParserError BoardPage :=
  match source.parse text with
  | .error cause => .error (.decode cause)
  | .ok json =>
    match GraphqlResponse.deserialize json with
    | none => .error (.decode (source.typeError json))
    | some parsed => parsed.page

def fetch (filter : BoardFilter) (cursor : Option String) (cookies : AuthCookies) :
    Except ParserError BoardPage :=
  let body := buildBody source.boardQuery filter cursor
  match source.post (("cookie", cookies.header) :: HEADERS) body with
  | .error cause => .error (.board cause)
  | .ok response =>
    if response.status = 401 ∨ response.status = 403 then
      .error (.auth ("profi.ru отклонил запрос: HTTP " ++ response.statusLine))
    else if ¬ (200 ≤ response.status ∧ response.status < 300) then
      .error (.board ("profi.ru вернул HTTP " ++ response.statusLine))
    else source.decode response.text

end ProfiBoardSource

end ProfiNotifications.ParserWorker
