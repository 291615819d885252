import ProfiNotifications.Foundations.JsonAtoms
import ProfiNotifications.OrderCore.Handlers
import ProfiNotifications.OrderCore.Reliability

/-! # The columns of the database

The schema bounds the length of its text columns and the range of its numbers, and the
database takes neither a text with a NUL nor a JSON number that is not finite. The wire
schema has none of these limits, so a batch that it accepts is stored if and only if its
orders happen to keep them; a batch that does not fails on every delivery and is requeued.
-/

namespace ProfiNotifications.OrderCore

open Schemas

def OrderStatus.value : OrderStatus → String
  | .assessRequested => "assess_requested"
  | .notifyRequested => "notify_requested"
  | .noNotify => "no_notify"
  | .failed => "failed"

def NulFree (s : String) : Prop := s.toList.all (fun c => c.toNat ≠ 0) = true

instance (s : String) : Decidable (NulFree s) := inferInstanceAs (Decidable (_ = _))

/-- `String(limit)` -/
structure Varchar (limit : ℕ) (s : String) : Prop where
  length_le : s.length ≤ limit
  nulFree : NulFree s

/-- `BigInteger` -/
def BigInt (n : ℤ) : Prop := -2 ^ 63 ≤ n ∧ n < 2 ^ 63

/-- `Integer` -/
def Integer (n : ℤ) : Prop := -2 ^ 31 ≤ n ∧ n < 2 ^ 31

/-- JSON has no literal for an infinity or NaN, so none is taken. -/
def StorableAtom : Json.Atom → Prop
  | .text s => NulFree s
  | .nonFinite _ => False

/-- `JSONB` -/
abbrev Jsonb (j : Json) : Prop := j.AllAtoms StorableAtom

/-- The values of the statement of `insert_new` fit the table `orders`. -/
structure OrderRow.Fits (r : OrderRow) : Prop where
  source : Varchar 32 r.source.value
  externalId : Varchar 128 r.externalId
  status : Varchar 32 r.status.value
  payload : Jsonb r.payload
  requestId : ∀ s ∈ r.requestId, Varchar 128 s
  sourceFetchedAt : ∀ n ∈ r.sourceFetchedAt, BigInt n

/-- The values of the statement of `_add` fit the table `outbox`. -/
structure OutboxRow.Fits (r : OutboxRow) : Prop where
  destination : Varchar 32 r.destination
  dedupKey : Varchar 200 r.dedupKey
  payload : Jsonb r.payload

/-- The statements of `insert_new` and `add_assessment_request` for an order. -/
structure StatementsFit (order : IncomingOrder) : Prop where
  inserted : (newOrderRow order).Fits
  requested : ∀ now, (outboxRow now .assessRequest (assessKey order.key)
    (assessRequestPayload order)).Fits

/-- Every value that the program sends to the database fits, whatever it is answered. -/
def Prog.RowsFit : Prog → Prop
  | .ret => True
  | .raise _ => True
  | .insertNew order next => (newOrderRow order).Fits ∧ ∀ inserted, (next inserted).RowsFit
  -- a row is found only under an id that its column holds
  | .get _ externalId next => NulFree externalId ∧ (next none).RowsFit ∧
    (externalId.length ≤ 128 → ∀ order, (next (some order)).RowsFit)
  | .setStatus _ externalId status score next => NulFree externalId ∧ Varchar 32 status.value ∧
    (∀ n ∈ score, Integer n) ∧ ∀ updated, (next updated).RowsFit
  | .add destination dedupKey payload next =>
    (∀ now, (outboxRow now destination dedupKey payload).Fits) ∧ next.RowsFit
  | .claimPending _ next => ∀ events, (next events).RowsFit
  | .publish _ next => next.RowsFit
  | .markPublished _ next => next.RowsFit
  | .commit next => next.RowsFit

/--
Whatever the wire schema accepts, the database can store: the statements for each order
fit, and so does every row of the transaction for the whole batch.
-/
structure Storable (lax : Lax) (raw : List (String × Json)) : Prop where
  statements : ∀ message, ParseResultMessage.validate lax (.obj raw) = .ok message →
    ∀ order ∈ toIncomingOrders message, StatementsFit order
  batch : ∀ message, ParseResultMessage.validate lax (.obj raw) = .ok message →
    (IngestOrders.handle (toIncomingOrders message)).RowsFit

namespace Schemas

def Price.texts (p : Price) : List String := [p.prefix_, p.value, p.suffix]

def GeoPlace.texts (g : GeoPlace) : List String := [g.prefix_, g.suffix] ++ g.address.toList

def Geo.texts (g : Geo) : List String :=
  [g.remote, g.orderLocation, g.clientMayCome].flatMap fun place => place.elim [] GeoPlace.texts

def Badge.texts (b : Badge) : List String := [b.id, b.imageKey, b.label]

def Order.texts (o : Order) : List String :=
  [o.id, o.title, o.description] ++ o.price.elim [] Price.texts ++ o.geo.texts ++
    o.client.name :: o.client.tags ++ o.badges.flatMap Badge.texts ++ o.schedule.toList

def Coordinates.doubles (c : Coordinates) : List Double := [c.lat, c.lon]

def Order.doubles (o : Order) : List Double :=
  o.score :: o.coordinates.elim [] Coordinates.doubles

end Schemas

/-- An order keeps the limits of the database, as does what its message says of it. -/
structure WithinLimits (message : ParseResultMessage) (order : Schemas.Order) : Prop where
  id_length : order.id.length ≤ 128
  requestId_length : message.requestId.length ≤ 128
  fetchedAt : BigInt message.fetchedAt
  requestId_nulFree : NulFree message.requestId
  texts_nulFree : ∀ s ∈ order.texts, NulFree s
  doubles_finite : ∀ x ∈ order.doubles, x.IsFinite

section Payloads

@[simp] theorem storableAtom_text {s : String} : StorableAtom (.text s) ↔ NulFree s := Iff.rfl

theorem jsonb_double (x : Double) : Jsonb (.ofDouble x) ↔ x.IsFinite := by
  cases x with
  | finite x => simp
  | nonFinite x => simp [Json.ofDouble, StorableAtom]

theorem jsonb_price (p : Price) : Jsonb p.dump ↔ ∀ s ∈ p.texts, NulFree s := by
  simp +decide [Price.dump, Price.texts, Json.allAtoms_obj]

theorem jsonb_place (g : GeoPlace) : Jsonb g.dump ↔ ∀ s ∈ g.texts, NulFree s := by
  simp +decide [GeoPlace.dump, GeoPlace.texts, Json.allAtoms_obj]

theorem jsonb_badge (b : Badge) : Jsonb b.dump ↔ ∀ s ∈ b.texts, NulFree s := by
  simp +decide [Badge.dump, Badge.texts, Json.allAtoms_obj]

theorem jsonb_client (c : Client) : Jsonb c.dump ↔ ∀ s ∈ c.name :: c.tags, NulFree s := by
  simp +decide [Client.dump, Json.allAtoms_obj]

theorem jsonb_coordinates (c : Coordinates) : Jsonb c.dump ↔ ∀ x ∈ c.doubles, x.IsFinite := by
  simp +decide [Coordinates.dump, Coordinates.doubles, Json.allAtoms_obj, jsonb_double]

theorem jsonb_elim {α β : Type} {P : β → Prop} {dump : α → Json} {parts : α → List β}
    (h : ∀ a, Jsonb (dump a) ↔ ∀ b ∈ parts a, P b) (o : Option α) :
    (∀ a ∈ o, Jsonb (dump a)) ↔ ∀ b ∈ o.elim [] parts, P b := by
  cases o with
  | none => simp
  | some a => simpa using h a

theorem jsonb_geo (g : Geo) : Jsonb g.dump ↔ ∀ s ∈ g.texts, NulFree s := by
  have htexts : (∀ s ∈ g.texts, NulFree s) ↔ (∀ s ∈ g.remote.elim [] GeoPlace.texts, NulFree s) ∧
      (∀ s ∈ g.orderLocation.elim [] GeoPlace.texts, NulFree s) ∧
      ∀ s ∈ g.clientMayCome.elim [] GeoPlace.texts, NulFree s := by
    simp only [Geo.texts, List.flatMap_cons, List.flatMap_nil, List.append_nil,
      List.forall_mem_append]
  rw [htexts, ← jsonb_elim jsonb_place, ← jsonb_elim jsonb_place, ← jsonb_elim jsonb_place]
  simp +decide [Geo.dump, Json.allAtoms_obj]

theorem jsonb_order (o : Schemas.Order) :
    Jsonb o.dump ↔ (∀ s ∈ o.texts, NulFree s) ∧ ∀ x ∈ o.doubles, x.IsFinite := by
  have htexts : (∀ s ∈ o.texts, NulFree s) ↔ NulFree o.id ∧ NulFree o.title ∧
      NulFree o.description ∧ (∀ s ∈ o.price.elim [] Price.texts, NulFree s) ∧
      (∀ s ∈ o.geo.texts, NulFree s) ∧ (∀ s ∈ o.client.name :: o.client.tags, NulFree s) ∧
      (∀ b ∈ o.badges, ∀ s ∈ b.texts, NulFree s) ∧ ∀ s ∈ o.schedule, NulFree s := by
    simp only [Schemas.Order.texts, List.forall_mem_append, List.forall_mem_cons,
      List.forall_mem_flatMap, Option.mem_toList, Option.mem_def, and_assoc, List.not_mem_nil,
      false_imp_iff, implies_true, true_and]
  have hdoubles : (∀ x ∈ o.doubles, x.IsFinite) ↔
      Jsonb (.ofDouble o.score) ∧ ∀ c ∈ o.coordinates, Jsonb c.dump := by
    simp only [Schemas.Order.doubles, List.forall_mem_cons, jsonb_double,
      jsonb_elim jsonb_coordinates]
  simp only [htexts, hdoubles, ← jsonb_elim jsonb_price, ← jsonb_geo, ← jsonb_client,
    ← jsonb_badge]
  simp +decide [Schemas.Order.dump, Json.allAtoms_obj, and_assoc]

theorem jsonb_assessRequestPayload (order : IncomingOrder) :
    Jsonb (assessRequestPayload order) ↔
      NulFree (order.requestId.getD "") ∧ Jsonb order.payload := by
  simp +decide [assessRequestPayload, Json.allAtoms_obj]

end Payloads

theorem nulFree_append (s t : String) : NulFree (s ++ t) ↔ NulFree s ∧ NulFree t := by
  simp [NulFree]

theorem varchar_source (source : Source) : Varchar 32 source.value := by
  cases source
  constructor <;> decide

theorem varchar_status (status : OrderStatus) : Varchar 32 status.value := by
  cases status <;> constructor <;> decide

theorem varchar_destination (destination : OutboxDestination) :
    Varchar 32 destination.value := by
  cases destination <;> constructor <;> decide

theorem varchar_key {kind id : String} (hkind : kind.length ≤ 72 ∧ NulFree kind)
    (h : Varchar 128 id) : Varchar 200 (kind ++ id) := by
  constructor
  · have hlength := h.length_le
    rw [String.length_append]
    omega
  · rw [nulFree_append]
    exact ⟨hkind.2, h.nulFree⟩

theorem varchar_assessKey {id : String} (h : Varchar 128 id) :
    Varchar 200 (assessKey (.profi, id)) :=
  varchar_key (by decide : "assess:profi:".length ≤ 72 ∧ NulFree "assess:profi:") h

/-- The statements for an order fit if and only if it keeps the limits. -/
theorem statementsFit_iff {message : ParseResultMessage} {order : Schemas.Order} :
    StatementsFit ⟨.profi, order.id, order.dump, some message.requestId, message.fetchedAt⟩ ↔
      WithinLimits message order := by
  constructor
  · intro h
    have hid : Varchar 128 order.id := h.inserted.externalId
    have hrequest : Varchar 128 message.requestId := h.inserted.requestId _ rfl
    exact {
      id_length := hid.length_le
      requestId_length := hrequest.length_le
      fetchedAt := h.inserted.sourceFetchedAt _ rfl
      requestId_nulFree := hrequest.nulFree
      texts_nulFree := ((jsonb_order order).mp h.inserted.payload).1
      doubles_finite := ((jsonb_order order).mp h.inserted.payload).2 }
  · intro h
    have hid : Varchar 128 order.id :=
      ⟨h.id_length, h.texts_nulFree order.id (by simp [Schemas.Order.texts])⟩
    have hpayload : Jsonb order.dump :=
      (jsonb_order order).mpr ⟨h.texts_nulFree, h.doubles_finite⟩
    constructor
    · constructor
      · exact varchar_source _
      · exact hid
      · exact varchar_status _
      · exact hpayload
      · rintro s ⟨⟩
        exact ⟨h.requestId_length, h.requestId_nulFree⟩
      · rintro n ⟨⟩
        exact h.fetchedAt
    · intro now
      constructor
      · exact varchar_destination .assessRequest
      · exact varchar_assessKey hid
      · exact (jsonb_assessRequestPayload _).mpr ⟨h.requestId_nulFree, hpayload⟩

theorem IngestOrders.rowsFit_handle (batch : List IncomingOrder) :
    (handle batch).RowsFit ↔ ∀ order ∈ batch, StatementsFit order := by
  induction batch with
  | nil => simp [handle, Prog.RowsFit]
  | cons order batch ih =>
    rw [List.forall_mem_cons, ← ih]
    constructor
    · rintro ⟨hinserted, hnext⟩
      obtain ⟨hrequested, hrest⟩ := hnext true
      exact ⟨⟨hinserted, hrequested⟩, hrest⟩
    · rintro ⟨hfit, hrest⟩
      refine ⟨hfit.inserted, fun inserted => ?_⟩
      cases inserted with
      | false => exact hrest
      | true => exact ⟨hfit.requested, hrest⟩

theorem statementsFit_toIncomingOrders {message : ParseResultMessage} :
    (∀ order ∈ toIncomingOrders message, StatementsFit order) ↔
      ∀ order ∈ message.orders, WithinLimits message order := by
  simp only [toIncomingOrders, List.forall_mem_map, statementsFit_iff]

theorem rowsFit_toIncomingOrders {message : ParseResultMessage} :
    (IngestOrders.handle (toIncomingOrders message)).RowsFit ↔
      ∀ order ∈ message.orders, WithinLimits message order :=
  (IngestOrders.rowsFit_handle _).trans statementsFit_toIncomingOrders

/-- A use case whose transaction fails as soon as the database refuses a row. -/
structure Refusing (handle : Handle (List IncomingOrder)) : Prop where
  raises : ∀ batch, ¬ (IngestOrders.handle batch).RowsFit →
    ∃ reason, handle batch = .error (.failure (.other reason))

theorem requeued_of_not_withinLimits {lax : Lax} {raw : List (String × Json)}
    {handle : Handle (List IncomingOrder)} (hrefusing : Refusing handle)
    {message : ParseResultMessage}
    (hm : ParseResultMessage.validate lax (.obj raw) = .ok message)
    {order : Schemas.Order} (ho : order ∈ message.orders) (hlimits : ¬ WithinLimits message order)
    (text : List (List String) → String) (dlq : Handle DeadLetter) :
    ∃ reason, (Subscriber.parseResults handle).deliver lax text dlq raw =
      { result := .error (.failure (.other reason)) } := by
  have hunfit : ¬ (IngestOrders.handle (toIncomingOrders message)).RowsFit :=
    fun h => hlimits (rowsFit_toIncomingOrders.mp h order ho)
  obtain ⟨reason, hraised⟩ := hrefusing.raises _ hunfit
  use reason
  simp only [Subscriber.deliver, guard, hm, hraised]

end ProfiNotifications.OrderCore
