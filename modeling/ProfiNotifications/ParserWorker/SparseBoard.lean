import Mathlib.Data.List.Basic
import ProfiNotifications.ParserWorker.Board

/-! # Sparse answers of the board

The board may leave out fields, or set them to `null`. A page with such items is mapped to
one order for every snippet with an id, with defaults for what is absent, if and only if
no field that has a default in the decoder is `null`: such a field loses the whole page,
while every other field may be `null`.
-/

namespace ProfiNotifications.ParserWorker

open Serde

def IsObject (j : Json) : Prop := ∃ ms, j = .obj ms

def IsString (j : Json) : Prop := ∃ s, j = .str s

def IsBool (j : Json) : Prop := ∃ b, j = .bool b

def IsInt64 (j : Json) : Prop :=
  ∃ n, j = .int n ∧ Int64.minValue.toInt ≤ n ∧ n ≤ Int64.maxValue.toInt

def IsUInt32 (j : Json) : Prop := ∃ n, j = .int n ∧ 0 ≤ n ∧ n < 2 ^ 32

def IsNumber (j : Json) : Prop := (∃ n, j = .int n) ∨ ∃ x, j = .float x

structure SparsePrice (j : Json) : Prop where
  object : IsObject j
  prefix_ : Sparse IsString j "prefix"
  suffix : Sparse IsString j "suffix"
  value : Sparse IsString j "value"

structure SparsePlace (j : Json) : Prop where
  object : IsObject j
  prefix_ : Sparse IsString j "prefix"
  suffix : Sparse IsString j "suffix"
  address : Sparse IsString j "address"

structure SparseGeo (j : Json) : Prop where
  object : IsObject j
  remote : Sparse SparsePlace j "remote"
  orderLocation : Sparse SparsePlace j "orderLocation"
  clientMayCome : Sparse SparsePlace j "clientMayCome"

structure SparseClientInfo (j : Json) : Prop where
  object : IsObject j
  name : Sparse IsString j "name"

structure SparseTag (j : Json) : Prop where
  object : IsObject j
  value : Sparse IsString j "value"

structure SparseBadge (j : Json) : Prop where
  object : IsObject j
  id : Sparse IsString j "id"
  imageKey : Sparse IsString j "imageKey"
  label : Sparse IsString j "label"

/-- Coordinates have no optional part. -/
structure FullCoordinates (j : Json) : Prop where
  object : IsObject j
  lat : ∃ v, members j "lat" = [v] ∧ IsNumber v
  lon : ∃ v, members j "lon" = [v] ∧ IsNumber v

structure SparseItem (j : Json) : Prop where
  object : IsObject j
  type : Sparse IsString j "type"
  id : Sparse IsString j "id"
  title : Sparse IsString j "title"
  description : Sparse IsString j "description"
  score : Sparse IsNumber j "score"
  lastUpdateDate : Sparse IsInt64 j "lastUpdateDate"
  isFresh : Sparse IsBool j "isFresh"
  isViewed : Sparse IsBool j "isViewed"
  schedule : Sparse IsString j "schedule"
  price : Sparse SparsePrice j "price"
  geo : Sparse SparseGeo j "geo"
  clientInfo : Sparse SparseClientInfo j "clientInfo"
  clientTags : Sparse (IsList SparseTag) j "clientTags"
  badges : Sparse (IsList SparseBadge) j "badges"
  coordinates : Sparse FullCoordinates j "coordinates"

structure SparseBoard (j : Json) : Prop where
  object : IsObject j
  nextCursor : Sparse IsString j "nextCursor"
  serverTs : Sparse IsInt64 j "serverTs"
  totalCount : Sparse IsUInt32 j "totalCount"
  items : Sparse (IsList SparseItem) j "items"

def boardOf (answer : Json) : Json :=
  ((value answer "data").bind fun data => value data "boSearchBoardItems").getD .null

/-- An answer with data and without errors. -/
structure SparseAnswer (j : Json) : Prop where
  object : IsObject j
  data : ∃ data board, members j "data" = [data] ∧ IsObject data ∧
    members data "boSearchBoardItems" = [board] ∧ SparseBoard board
  errors : Sparse (fun v => v = .arr []) j "errors"

def text : Json → String → Option String := get string

def priceOf (j : Json) : Option Price :=
  (text j "value").map fun value =>
    { prefix_ := (text j "prefix").getD "", value := value, suffix := (text j "suffix").getD "" }

/-- A place that has a prefix. -/
def placeOf (j : Json) : Option GeoPlace :=
  match text j "prefix" with
  | none | some "" => none
  | some value =>
    some { prefix_ := value, suffix := (text j "suffix").getD "", address := text j "address" }

def geoOf (j : Json) : Geo where
  remote := (value j "remote").bind placeOf
  orderLocation := (value j "orderLocation").bind placeOf
  clientMayCome := (value j "clientMayCome").bind placeOf

def badgeOf (j : Json) : Option Badge :=
  (text j "id").map fun id =>
    { id := id, imageKey := (text j "imageKey").getD "", label := (text j "label").getD "" }

/-- The order of a snippet with an id, with defaults for what is absent. -/
def orderOf (j : Json) : Option Order :=
  if text j "type" = some SNIPPET then
    (text j "id").map fun id =>
      { id := id
        title := (text j "title").getD ""
        description := (text j "description").getD ""
        price := (value j "price").bind priceOf
        geo := (value j "geo").elim ⟨none, none, none⟩ geoOf
        client :=
          { name := ((value j "clientInfo").bind fun info => text info "name").getD ""
            tags := (elements j "clientTags").filterMap fun tag => text tag "value" }
        badges := (elements j "badges").filterMap badgeOf
        schedule := (text j "schedule").filter fun schedule => schedule ≠ ""
        lastUpdate := (get int64 j "lastUpdateDate").getD 0
        score := (get float64 j "score").getD 0
        isFresh := (get bool j "isFresh").getD false
        isViewed := (get bool j "isViewed").getD false
        coordinates := (value j "coordinates").bind fun c =>
          (get float64 c "lat").bind fun lat => (get float64 c "lon").map fun lon => ⟨lat, lon⟩ }
  else none

def pageOf (answer : Json) : BoardPage where
  orders := (elements (boardOf answer) "items").filterMap orderOf
  nextCursor := text (boardOf answer) "nextCursor"
  totalCount := (get uint32 (boardOf answer) "totalCount").getD 0
  serverTs := (get int64 (boardOf answer) "serverTs").getD 0

/-- No field with a default is `null`. -/
structure NoNullDefaults (answer : Json) : Prop where
  errors : ¬ IsNull answer "errors"
  serverTs : ¬ IsNull (boardOf answer) "serverTs"
  totalCount : ¬ IsNull (boardOf answer) "totalCount"
  items : ¬ IsNull (boardOf answer) "items"
  clientTags : ∀ item ∈ elements (boardOf answer) "items", ¬ IsNull item "clientTags"
  badges : ∀ item ∈ elements (boardOf answer) "items", ¬ IsNull item "badges"

theorem struct_of_isObject {α : Type} {read : Json → Option α} {j : Json} (h : IsObject j) :
    struct read j = read j := by
  obtain ⟨ms, rfl⟩ := h
  rfl

section Values

variable {j v : Json} {name : String}

theorem isSome_string (v : Json) (h : IsString v) : (string v).isSome := by
  obtain ⟨s, rfl⟩ := h
  rfl

theorem isSome_bool (v : Json) (h : IsBool v) : (bool v).isSome := by
  obtain ⟨b, rfl⟩ := h
  rfl

theorem isSome_int64 (v : Json) (h : IsInt64 v) : (int64 v).isSome := by
  obtain ⟨n, rfl, hn⟩ := h
  rw [int64, if_pos hn]
  rfl

theorem isSome_uint32 (v : Json) (h : IsUInt32 v) : (uint32 v).isSome := by
  obtain ⟨n, rfl, hn⟩ := h
  rw [uint32, if_pos hn]
  rfl

theorem isSome_float64 (v : Json) (h : IsNumber v) : (float64 v).isSome := by
  rcases h with ⟨n, rfl⟩ | ⟨x, rfl⟩ <;> rfl

theorem optional_text (h : Sparse IsString j name) :
    optional string j name = some (text j name) :=
  optional_get h isSome_string

theorem required_float64 (h : ∃ v, members j name = [v] ∧ IsNumber v) :
    ∃ x, required float64 j name = some x ∧ get float64 j name = some x := by
  obtain ⟨v, hm, hv⟩ := h
  obtain ⟨x, hx⟩ := Option.isSome_iff_exists.mp (isSome_float64 v hv)
  have hne : v ≠ .null := by
    rintro rfl
    cases hx
  exact ⟨x, (required_of_members hm).trans hx, (get_of_members hm hne).trans hx⟩

end Values

section Records

variable {j : Json}

def PriceDto.lenient (j : Json) : PriceDto := ⟨text j "prefix", text j "suffix", text j "value"⟩

def GeoPlaceDto.lenient (j : Json) : GeoPlaceDto :=
  ⟨text j "prefix", text j "suffix", text j "address"⟩

def GeoDto.lenient (j : Json) : GeoDto :=
  ⟨(value j "remote").map GeoPlaceDto.lenient, (value j "orderLocation").map GeoPlaceDto.lenient,
    (value j "clientMayCome").map GeoPlaceDto.lenient⟩

def BadgeDto.lenient (j : Json) : BadgeDto := ⟨text j "id", text j "imageKey", text j "label"⟩

def CoordinatesDto.lenient (j : Json) : CoordinatesDto :=
  ⟨(get float64 j "lat").getD 0, (get float64 j "lon").getD 0⟩

/-- An item as it is read when missing and `null` fields are absent. -/
def Item.lenient (j : Json) : Item where
  itemType := text j "type"
  id := text j "id"
  title := text j "title"
  description := text j "description"
  score := get float64 j "score"
  lastUpdateDate := get int64 j "lastUpdateDate"
  isFresh := get bool j "isFresh"
  isViewed := get bool j "isViewed"
  schedule := text j "schedule"
  price := (value j "price").map PriceDto.lenient
  geo := (value j "geo").map GeoDto.lenient
  clientInfo := (value j "clientInfo").map fun info => ⟨text info "name"⟩
  clientTags := (elements j "clientTags").map fun tag => ⟨text tag "value"⟩
  badges := (elements j "badges").map BadgeDto.lenient
  coordinates := (value j "coordinates").map CoordinatesDto.lenient

def BoardItems.lenient (j : Json) : BoardItems where
  nextCursor := text j "nextCursor"
  serverTs := (get int64 j "serverTs").getD 0
  totalCount := (get uint32 j "totalCount").getD 0
  items := (elements j "items").map Item.lenient

theorem PriceDto.deserialize_eq (h : SparsePrice j) : deserialize j = some (lenient j) := by
  rw [deserialize, struct_of_isObject h.object, optional_text h.prefix_, optional_text h.suffix,
    optional_text h.value]
  rfl

theorem GeoPlaceDto.deserialize_eq (h : SparsePlace j) : deserialize j = some (lenient j) := by
  rw [deserialize, struct_of_isObject h.object, optional_text h.prefix_, optional_text h.suffix,
    optional_text h.address]
  rfl

theorem GeoDto.deserialize_eq (h : SparseGeo j) : deserialize j = some (lenient j) := by
  have hplace : ∀ v, SparsePlace v → GeoPlaceDto.deserialize v = some (.lenient v) :=
    fun _ hv => GeoPlaceDto.deserialize_eq hv
  rw [deserialize, struct_of_isObject h.object, optional_map h.remote hplace,
    optional_map h.orderLocation hplace, optional_map h.clientMayCome hplace]
  rfl

theorem ClientInfoDto.deserialize_eq (h : SparseClientInfo j) :
    deserialize j = some ⟨text j "name"⟩ := by
  rw [deserialize, struct_of_isObject h.object, optional_text h.name]
  rfl

theorem ClientTagDto.deserialize_eq (h : SparseTag j) :
    deserialize j = some ⟨text j "value"⟩ := by
  rw [deserialize, struct_of_isObject h.object, optional_text h.value]
  rfl

theorem BadgeDto.deserialize_eq (h : SparseBadge j) : deserialize j = some (lenient j) := by
  rw [deserialize, struct_of_isObject h.object, optional_text h.id, optional_text h.imageKey,
    optional_text h.label]
  rfl

theorem CoordinatesDto.deserialize_eq (h : FullCoordinates j) :
    deserialize j = some (lenient j) := by
  obtain ⟨x, hx, hx'⟩ := required_float64 h.lat
  obtain ⟨y, hy, hy'⟩ := required_float64 h.lon
  rw [deserialize, struct_of_isObject h.object, hx, hy, lenient, hx', hy']
  rfl

/-- An item is read unless one of its lists is `null`. -/
theorem Item.deserialize_eq (h : SparseItem j) : deserialize j =
    if IsNull j "clientTags" ∨ IsNull j "badges" then none else some (lenient j) := by
  have hprice : ∀ v, SparsePrice v → PriceDto.deserialize v = some (.lenient v) :=
    fun _ hv => PriceDto.deserialize_eq hv
  have hgeo : ∀ v, SparseGeo v → GeoDto.deserialize v = some (.lenient v) :=
    fun _ hv => GeoDto.deserialize_eq hv
  have hinfo : ∀ v, SparseClientInfo v → ClientInfoDto.deserialize v = some ⟨text v "name"⟩ :=
    fun _ hv => ClientInfoDto.deserialize_eq hv
  have htags : ∀ v ∈ elements j "clientTags", ClientTagDto.deserialize v = some ⟨text v "value"⟩ :=
    fun _ hv => ClientTagDto.deserialize_eq (mem_elements h.clientTags hv)
  have hbadges : ∀ v ∈ elements j "badges", BadgeDto.deserialize v = some (.lenient v) :=
    fun _ hv => BadgeDto.deserialize_eq (mem_elements h.badges hv)
  have hcoordinates : ∀ v, FullCoordinates v → CoordinatesDto.deserialize v = some (.lenient v) :=
    fun _ hv => CoordinatesDto.deserialize_eq hv
  rw [deserialize, struct_of_isObject h.object, optional_text h.type, optional_text h.id,
    optional_text h.title, optional_text h.description, optional_get h.score isSome_float64,
    optional_get h.lastUpdateDate isSome_int64, optional_get h.isFresh isSome_bool,
    optional_get h.isViewed isSome_bool, optional_text h.schedule, optional_map h.price hprice,
    optional_map h.geo hgeo, optional_map h.clientInfo hinfo, default_seq h.clientTags htags,
    default_seq h.badges hbadges, optional_map h.coordinates hcoordinates]
  by_cases ht : IsNull j "clientTags"
  · simp [ht]
  · by_cases hb : IsNull j "badges"
    · simp [ht, hb]
    · simp [ht, hb, lenient]

/-- The lists of the items of a board are not `null`. -/
def ListsPresent (j : Json) : Prop :=
  ∀ item ∈ elements j "items", ¬ IsNull item "clientTags" ∧ ¬ IsNull item "badges"

theorem BoardItems.deserialize_eq (h : SparseBoard j) (hts : ¬ IsNull j "serverTs")
    (htotal : ¬ IsNull j "totalCount") (hitems : ¬ IsNull j "items") (hl : ListsPresent j) :
    deserialize j = some (lenient j) := by
  have hread : ∀ item ∈ elements j "items", Item.deserialize item = some (.lenient item) := by
    rintro item hi
    rw [Item.deserialize_eq (mem_elements h.items hi),
      if_neg (not_or.mpr (hl item hi))]
  rw [deserialize, struct_of_isObject h.object, optional_text h.nextCursor,
    default_get h.serverTs rfl isSome_int64, default_get h.totalCount rfl isSome_uint32,
    default_seq h.items hread, if_neg hts, if_neg htotal, if_neg hitems]
  rfl

theorem items_eq_none (h : SparseBoard j) (hnull : IsNull j "items" ∨ ¬ ListsPresent j) :
    default [] (seq Item.deserialize) j "items" = none := by
  rcases hnull with hnull | hnull
  · rw [default_of_sparse h.items rfl, if_pos hnull]
  · simp only [ListsPresent, not_forall, ← not_or, not_not] at hnull
    obtain ⟨item, hi, hlist⟩ := hnull
    apply default_seq_eq_none h.items hi
    rw [Item.deserialize_eq (mem_elements h.items hi), if_pos hlist]

theorem BoardItems.deserialize_eq_none (h : SparseBoard j)
    (hnull : IsNull j "serverTs" ∨ IsNull j "totalCount" ∨ IsNull j "items" ∨ ¬ ListsPresent j) :
    deserialize j = none := by
  rw [deserialize, struct_of_isObject h.object, optional_text h.nextCursor,
    default_get h.serverTs rfl isSome_int64, default_get h.totalCount rfl isSome_uint32]
  by_cases hts : IsNull j "serverTs"
  · simp [hts]
  · by_cases htotal : IsNull j "totalCount"
    · simp [hts, htotal]
    · have hitems := (hnull.resolve_left hts).resolve_left htotal
      simp [hts, htotal, items_eq_none h hitems]

theorem toGeoPlace_lenient (j : Json) : toGeoPlace (.lenient j) = placeOf j := by
  unfold toGeoPlace placeOf GeoPlaceDto.lenient
  cases text j "prefix" with
  | none => rfl
  | some value =>
    by_cases h : value = ""
    · simp [h]
    · simp [h]

theorem bind_map_lenient {α β : Type} {f : α → Option β} {lenient : Json → α} {g : Json → Option β}
    (h : ∀ j, f (lenient j) = g j) (o : Option Json) : (o.map lenient).bind f = o.bind g := by
  cases o with
  | none => rfl
  | some j => exact h j

theorem toGeo_lenient (j : Json) : toGeo (.lenient j) = geoOf j := by
  simp only [toGeo, geoOf, GeoDto.lenient, bind_map_lenient toGeoPlace_lenient]

theorem coordinates_lenient (h : Sparse FullCoordinates j "coordinates") :
    ((value j "coordinates").map CoordinatesDto.lenient).map (fun c => ⟨c.lat, c.lon⟩) =
      (value j "coordinates").bind fun c =>
        (get float64 c "lat").bind fun lat =>
          (get float64 c "lon").map fun lon => (⟨lat, lon⟩ : Coordinates) := by
  cases hv : value j "coordinates" with
  | none => rfl
  | some c =>
    have hc := h.of_value hv
    obtain ⟨x, -, hx⟩ := required_float64 hc.lat
    obtain ⟨y, -, hy⟩ := required_float64 hc.lon
    simp [CoordinatesDto.lenient, hx, hy]

theorem toOrder_lenient (h : SparseItem j) : toOrder (.lenient j) = orderOf j := by
  have hprice : ((value j "price").map PriceDto.lenient).bind toPrice =
      (value j "price").bind priceOf := bind_map_lenient (fun _ => rfl) _
  have hgeo : (((value j "geo").map GeoDto.lenient).map toGeo).getD ⟨none, none, none⟩ =
      (value j "geo").elim ⟨none, none, none⟩ geoOf := by
    cases value j "geo" with
    | none => rfl
    | some v => exact toGeo_lenient v
  have hname : ((value j "clientInfo").map fun info => (⟨text info "name"⟩ : ClientInfoDto)).bind
      ClientInfoDto.name = (value j "clientInfo").bind fun info => text info "name" :=
    bind_map_lenient (fun _ => rfl) _
  have htags : ((elements j "clientTags").map
      fun tag => (⟨text tag "value"⟩ : ClientTagDto)).filterMap ClientTagDto.value =
        (elements j "clientTags").filterMap fun tag => text tag "value" := by
    rw [List.filterMap_map]
    rfl
  have hbadges : ((elements j "badges").map BadgeDto.lenient).filterMap toBadge =
      (elements j "badges").filterMap badgeOf := by
    rw [List.filterMap_map]
    rfl
  unfold toOrder orderOf Item.lenient
  simp only [hprice, hgeo, hname, htags, hbadges, coordinates_lenient h.coordinates, ne_eq,
    ite_not]

theorem toBoardPage_lenient (h : SparseBoard j) : toBoardPage (.lenient j) =
    { orders := (elements j "items").filterMap orderOf
      nextCursor := text j "nextCursor"
      totalCount := (get uint32 j "totalCount").getD 0
      serverTs := (get int64 j "serverTs").getD 0 } := by
  have horders : ((elements j "items").map Item.lenient).filterMap toOrder =
      (elements j "items").filterMap orderOf := by
    rw [List.filterMap_map]
    exact List.filterMap_congr fun item hi => toOrder_lenient (mem_elements h.items hi)
  simp only [toBoardPage, BoardItems.lenient, horders]

end Records

section Answers

variable {answer data board : Json}

theorem ne_null_of_isObject (h : IsObject data) : data ≠ .null := by
  obtain ⟨ms, rfl⟩ := h
  exact Json.noConfusion

theorem boardOf_eq (hd : members answer "data" = [data]) (hdata : IsObject data)
    (hb : members data "boSearchBoardItems" = [board]) (hboard : IsObject board) :
    boardOf answer = board := by
  rw [boardOf, value_of_members hd (ne_null_of_isObject hdata), Option.bind_some,
    value_of_members hb (ne_null_of_isObject hboard)]
  rfl

theorem SparseAnswer.sparseBoard (h : SparseAnswer answer) : SparseBoard (boardOf answer) := by
  obtain ⟨-, ⟨data, board, hd, hdata, hb, hboard⟩, -⟩ := h
  rwa [boardOf_eq hd hdata hb hboard.object]

theorem GraphqlResponse.deserialize_eq (h : SparseAnswer answer) : deserialize answer =
    if IsNull answer "errors" then none
    else (BoardItems.deserialize (boardOf answer)).map fun board => ⟨some ⟨board⟩, []⟩ := by
  obtain ⟨hobject, ⟨data, board, hd, hdata, hb, hboard⟩, herrors⟩ := h
  have hsparse : Sparse (fun v => v = data) answer "data" :=
    Or.inr (Or.inr ⟨data, hd, ne_null_of_isObject hdata, rfl⟩)
  have hempty : (value answer "errors").elim (some []) (seq GraphqlError.deserialize) =
      some [] := by
    cases hv : value answer "errors" with
    | none => rfl
    | some v =>
      rw [herrors.of_value hv]
      rfl
  rw [boardOf_eq hd hdata hb hboard.object, deserialize, struct_of_isObject hobject,
    optional_of_sparse hsparse, value_of_members hd (ne_null_of_isObject hdata),
    default_of_sparse herrors rfl, hempty, Option.elim_some, ResponseData.deserialize,
    struct_of_isObject hdata, required_of_members hb]
  cases BoardItems.deserialize board <;> by_cases hnull : IsNull answer "errors" <;> simp [hnull]

/-- Nothing but a `null` where there is a default keeps an answer from being read. -/
theorem deserialize_eq_none (h : SparseAnswer answer) (hn : ¬ NoNullDefaults answer) :
    GraphqlResponse.deserialize answer = none := by
  rw [GraphqlResponse.deserialize_eq h]
  split
  · rfl
  · rename_i herrors
    have hnull : IsNull (boardOf answer) "serverTs" ∨ IsNull (boardOf answer) "totalCount" ∨
        IsNull (boardOf answer) "items" ∨ ¬ ListsPresent (boardOf answer) := by
      by_contra hnot
      simp only [not_or, not_not] at hnot
      obtain ⟨hts, htotal, hitems, hlists⟩ := hnot
      exact hn ⟨herrors, hts, htotal, hitems, fun item hi => (hlists item hi).1,
        fun item hi => (hlists item hi).2⟩
    rw [BoardItems.deserialize_eq_none h.sparseBoard hnull]
    rfl

theorem deserialize_eq_some (h : SparseAnswer answer) (hn : NoNullDefaults answer) :
    GraphqlResponse.deserialize answer =
      some ⟨some ⟨.lenient (boardOf answer)⟩, []⟩ := by
  have hlists : ListsPresent (boardOf answer) :=
    fun item hi => ⟨hn.clientTags item hi, hn.badges item hi⟩
  rw [GraphqlResponse.deserialize_eq h, if_neg hn.errors,
    BoardItems.deserialize_eq h.sparseBoard hn.serverTs hn.totalCount hn.items hlists]
  rfl

theorem decode_eq_page_iff {source : ProfiBoardSource} {text : String}
    (hparse : source.parse text = .ok answer) (h : SparseAnswer answer) :
    source.decode text = .ok (pageOf answer) ↔ NoNullDefaults answer := by
  unfold ProfiBoardSource.decode
  rw [hparse]
  by_cases hn : NoNullDefaults answer
  · simp only [deserialize_eq_some h hn, hn, iff_true]
    exact congrArg Except.ok (toBoardPage_lenient h.sparseBoard)
  · simp only [deserialize_eq_none h hn, hn, iff_false]
    rintro ⟨⟩

end Answers

/--
The page of a sparse answer is fetched as it should be if and only if no field that has a
default in the decoder is `null`.
-/
theorem fetch_eq_page_iff {source : ProfiBoardSource} {filter : BoardFilter}
    {cursor : Option String} {cookies : AuthCookies} {response : HttpResponse} {answer : Json}
    (hpost : source.post (("cookie", cookies.header) :: HEADERS)
      (buildBody source.boardQuery filter cursor) = .ok response)
    (hstatus : 200 ≤ response.status ∧ response.status < 300)
    (hparse : source.parse response.text = .ok answer) (h : SparseAnswer answer) :
    source.fetch filter cursor cookies = .ok (pageOf answer) ↔ NoNullDefaults answer := by
  have hcode : ¬ (response.status = 401 ∨ response.status = 403) := by omega
  rw [← decode_eq_page_iff hparse h, ProfiBoardSource.fetch, hpost]
  simp only [if_neg hcode, hstatus, and_self, not_true_eq_false, if_false]

/-! A board with one snippet, whose list of tags may be `null`. -/

def snippetWith (tags : Json) : Json :=
  .obj [("id", .str "1"), ("type", .str "SNIPPET"), ("clientTags", tags)]

def answerWith (tags : Json) : Json :=
  .obj [("data", .obj [("boSearchBoardItems", .obj [("items", .arr [snippetWith tags])])])]

def exampleSource (answer : Json) : ProfiBoardSource where
  post _ _ := .ok ⟨200, "200 OK", "answer"⟩
  boardQuery := ""
  parse _ := .ok answer
  typeError _ := "invalid type: null, expected a sequence"

theorem sparseItem_snippetWith {tags : Json} (h : tags = .null ∨ tags = .arr []) :
    SparseItem (snippetWith tags) where
  object := ⟨_, rfl⟩
  type := Or.inr (Or.inr ⟨.str "SNIPPET", rfl, by simp, _, rfl⟩)
  id := Or.inr (Or.inr ⟨.str "1", rfl, by simp, _, rfl⟩)
  title := Or.inl rfl
  description := Or.inl rfl
  score := Or.inl rfl
  lastUpdateDate := Or.inl rfl
  isFresh := Or.inl rfl
  isViewed := Or.inl rfl
  schedule := Or.inl rfl
  price := Or.inl rfl
  geo := Or.inl rfl
  clientInfo := Or.inl rfl
  clientTags := by
    rcases h with rfl | rfl
    · exact Or.inr (Or.inl rfl)
    · exact Or.inr (Or.inr ⟨.arr [], rfl, by simp, [], rfl, by simp⟩)
  badges := Or.inl rfl
  coordinates := Or.inl rfl

theorem sparseAnswer_answerWith {tags : Json} (h : tags = .null ∨ tags = .arr []) :
    SparseAnswer (answerWith tags) where
  object := ⟨_, rfl⟩
  data := by
    refine ⟨_, _, rfl, ⟨_, rfl⟩, rfl, ⟨_, rfl⟩, Or.inl rfl, Or.inl rfl, Or.inl rfl, ?_⟩
    exact Or.inr (Or.inr ⟨.arr [snippetWith tags], rfl, by simp, _, rfl, by
      simpa using sparseItem_snippetWith h⟩)
  errors := Or.inl rfl

theorem fetch_eq_page_emptyTags :
    (exampleSource (answerWith (.arr []))).fetch {} none ⟨"", "ok"⟩ =
      .ok (pageOf (answerWith (.arr []))) := by
  have hnone : NoNullDefaults (answerWith (.arr [])) := by
    constructor <;> decide
  have hstatus : 200 ≤ 200 ∧ 200 < 300 := by decide
  exact (fetch_eq_page_iff rfl hstatus rfl (sparseAnswer_answerWith (Or.inr rfl))).mpr hnone

/-- A `null` list of tags loses the whole page. -/
theorem fetch_ne_page_nullTags : SparseAnswer (answerWith .null) ∧
    (pageOf (answerWith .null)).orders.map Order.id = ["1"] ∧
    (exampleSource (answerWith .null)).fetch {} none ⟨"", "ok"⟩ =
      .error (.decode "invalid type: null, expected a sequence") ∧
    (exampleSource (answerWith .null)).fetch {} none ⟨"", "ok"⟩ ≠
      .ok (pageOf (answerWith .null)) := by
  have hrun : (exampleSource (answerWith .null)).fetch {} none ⟨"", "ok"⟩ =
      .error (.decode "invalid type: null, expected a sequence") := rfl
  refine ⟨sparseAnswer_answerWith (Or.inl rfl), by decide, hrun, ?_⟩
  rw [hrun]
  rintro ⟨⟩

end ProfiNotifications.ParserWorker
