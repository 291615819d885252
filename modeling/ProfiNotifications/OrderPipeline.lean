import ProfiNotifications.Llm.Schemas
import ProfiNotifications.OrderCore.Mapping
import ProfiNotifications.ParserWorker.Domain

/-! # From a parsed order to the assessor

The parser worker serialises a batch of orders, core reads the batch and wraps every
order into an envelope of its own, and the llm service reads the envelope. Every order
arrives with all its fields.
-/

namespace ProfiNotifications

open OrderCore (toIncomingOrders assessRequestPayload)

structure SamePrice (p : ParserWorker.Price) (q : OrderCore.Schemas.Price) : Prop where
  prefix_ : q.prefix_ = p.prefix_
  value : q.value = p.value
  suffix : q.suffix = p.suffix

structure SameCoordinates (p : ParserWorker.Coordinates) (q : OrderCore.Schemas.Coordinates) :
    Prop where
  lat : q.lat = .finite p.lat
  lon : q.lon = .finite p.lon

structure SamePlace (p : ParserWorker.GeoPlace) (q : OrderCore.Schemas.GeoPlace) : Prop where
  prefix_ : q.prefix_ = p.prefix_
  suffix : q.suffix = p.suffix
  address : q.address = p.address

structure SameGeo (p : ParserWorker.Geo) (q : OrderCore.Schemas.Geo) : Prop where
  remote : Option.Rel SamePlace p.remote q.remote
  orderLocation : Option.Rel SamePlace p.orderLocation q.orderLocation
  clientMayCome : Option.Rel SamePlace p.clientMayCome q.clientMayCome

structure SameClient (p : ParserWorker.Client) (q : OrderCore.Schemas.Client) : Prop where
  name : q.name = p.name
  tags : q.tags = p.tags

structure SameBadge (p : ParserWorker.Badge) (q : OrderCore.Schemas.Badge) : Prop where
  id : q.id = p.id
  imageKey : q.imageKey = p.imageKey
  label : q.label = p.label

/-- An order of the parser worker and an order of the wire schema agree field by field. -/
structure SameOrder (p : ParserWorker.Order) (q : OrderCore.Schemas.Order) : Prop where
  id : q.id = p.id
  title : q.title = p.title
  description : q.description = p.description
  price : Option.Rel SamePrice p.price q.price
  geo : SameGeo p.geo q.geo
  client : SameClient p.client q.client
  badges : List.Forall₂ SameBadge p.badges q.badges
  schedule : q.schedule = p.schedule
  lastUpdate : q.lastUpdate = p.lastUpdate.toInt
  score : q.score = .finite p.score
  isFresh : q.isFresh = p.isFresh
  isViewed : q.isViewed = p.isViewed
  coordinates : Option.Rel SameCoordinates p.coordinates q.coordinates

namespace ParserWorker

def Price.wire (p : Price) : OrderCore.Schemas.Price := ⟨p.prefix_, p.value, p.suffix⟩

def Coordinates.wire (c : Coordinates) : OrderCore.Schemas.Coordinates := 
  ⟨.finite c.lat, .finite c.lon⟩

def GeoPlace.wire (g : GeoPlace) : OrderCore.Schemas.GeoPlace := ⟨g.prefix_, g.suffix, g.address⟩

def Geo.wire (g : Geo) : OrderCore.Schemas.Geo :=
  ⟨g.remote.map GeoPlace.wire, g.orderLocation.map GeoPlace.wire,
    g.clientMayCome.map GeoPlace.wire⟩

def Client.wire (c : Client) : OrderCore.Schemas.Client := ⟨c.name, c.tags⟩

def Badge.wire (b : Badge) : OrderCore.Schemas.Badge := ⟨b.id, b.imageKey, b.label⟩

def Order.wire (o : Order) : OrderCore.Schemas.Order where
  id := o.id
  title := o.title
  description := o.description
  price := o.price.map Price.wire
  geo := o.geo.wire
  client := o.client.wire
  badges := o.badges.map Badge.wire
  schedule := o.schedule
  lastUpdate := o.lastUpdate.toInt
  score := .finite o.score
  isFresh := o.isFresh
  isViewed := o.isViewed
  coordinates := o.coordinates.map Coordinates.wire

/-- The message that core reads from a batch. -/
def ParseResult.message (r : ParseResult) : OrderCore.Schemas.ParseResultMessage where
  requestId := r.requestId
  fetchedAt := r.fetchedAt.toInt
  totalCount := r.totalCount.toNat
  nextCursor := r.nextCursor
  orders := r.orders.map Order.wire

theorem Geo.dump_wire (g : Geo) : g.wire.dump = g.serialize := by
  simp only [OrderCore.Schemas.Geo.dump, Geo.wire, Json.ofOption_map]
  rfl

theorem Order.dump_wire (o : Order) : o.wire.dump = o.serialize := by
  simp only [OrderCore.Schemas.Order.dump, Order.wire, Json.ofOption_map, List.map_map,
    Geo.dump_wire]
  rfl

theorem ParseResult.dump_message (r : ParseResult) : r.message.dump = encodeResult r := by
  have ho : (r.orders.map Order.wire).map OrderCore.Schemas.Order.dump =
      r.orders.map Order.serialize := by
    rw [List.map_map]
    exact List.map_congr_left fun o _ => Order.dump_wire o
  simp only [OrderCore.Schemas.ParseResultMessage.dump, ParseResult.message, ho]
  rfl

theorem option_rel_map {α β : Type} {R : α → β → Prop} {f : α → β} (h : ∀ a, R a (f a))
    (o : Option α) : Option.Rel R o (o.map f) := by
  cases o with
  | none => exact .none
  | some a => exact .some (h a)

theorem sameOrder_wire (o : Order) : SameOrder o o.wire := by
  have hplace : ∀ g : GeoPlace, SamePlace g g.wire := fun g => ⟨rfl, rfl, rfl⟩
  constructor
  case price => exact option_rel_map (fun p => ⟨rfl, rfl, rfl⟩) o.price
  case geo =>
    constructor
    case remote => exact option_rel_map hplace o.geo.remote
    case orderLocation => exact option_rel_map hplace o.geo.orderLocation
    case clientMayCome => exact option_rel_map hplace o.geo.clientMayCome
  case client => exact ⟨rfl, rfl⟩
  case badges =>
    change List.Forall₂ SameBadge o.badges (o.badges.map Badge.wire)
    rw [List.forall₂_map_right_iff, List.forall₂_same]
    exact fun b _ => ⟨rfl, rfl, rfl⟩
  case coordinates => exact option_rel_map (fun c => ⟨rfl, rfl⟩) o.coordinates
  all_goals rfl

end ParserWorker

theorem envelope_accepted {llm : Lax} {order : ParserWorker.Order}
    {incoming : OrderCore.IncomingOrder} (h : incoming.payload = order.wire.dump) :
    ∃ envelope received,
      Llm.Schemas.ParseResultMessage.validate llm (assessRequestPayload incoming) =
        .ok envelope ∧
      envelope.orders = [received] ∧ SameOrder order received :=
  ⟨_, _, OrderCore.validate_assessRequestPayload h, rfl, ParserWorker.sameOrder_wire order⟩

/--
Core accepts every serialised batch and makes one incoming order of each order, in the same
sequence and under its id. The envelope of each of them is accepted by the llm service with
exactly one order, which agrees with the parsed order field by field.
-/
theorem orders_survive (core llm : Lax) (result : ParserWorker.ParseResult) :
    ∃ message,
      OrderCore.Schemas.ParseResultMessage.validate core (ParserWorker.encodeResult result) =
        .ok message ∧
      List.Forall₂ (fun order incoming => incoming.externalId = order.id ∧
          ∃ envelope received,
            Llm.Schemas.ParseResultMessage.validate llm (assessRequestPayload incoming) =
              .ok envelope ∧
            envelope.orders = [received] ∧ SameOrder order received)
        result.orders (toIncomingOrders message) := by
  refine ⟨result.message, ?_, ?_⟩
  · rw [← ParserWorker.ParseResult.dump_message]
    exact OrderCore.Schemas.ParseResultMessage.validate_dump _
  · rw [toIncomingOrders, ParserWorker.ParseResult.message, List.map_map,
      List.forall₂_map_right_iff, List.forall₂_same]
    intro order _
    exact ⟨rfl, envelope_accepted rfl⟩

end ProfiNotifications
