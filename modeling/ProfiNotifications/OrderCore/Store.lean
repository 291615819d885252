import ProfiNotifications.Foundations.ReadCommitted
import ProfiNotifications.OrderCore.Mapping

/-! # The tables `orders` and `outbox`

An order row is identified by source and external id, an outbox row by its
deduplication key. The repositories issue one statement each on the table as their
transaction sees it; statements that have to wait for another transaction give `none`.
-/

namespace ProfiNotifications.OrderCore

open ReadCommitted

structure OrderRow where
  source : Source
  externalId : String
  status : OrderStatus
  payload : Json
  suitabilityScore : Option ℤ := none
  requestId : Option String := none
  sourceFetchedAt : Option ℤ := none
  deriving DecidableEq, Repr

/-- The columns of `uq_orders_source_external_id`. -/
def OrderRow.key (r : OrderRow) : Source × String := (r.source, r.externalId)

inductive OutboxDestination where
  | assessRequest
  | notify
  deriving DecidableEq, Repr

def OutboxDestination.value : OutboxDestination → String
  | .assessRequest => "assess_request"
  | .notify => "notify"

inductive OutboxStatus where
  | pending
  | published
  deriving DecidableEq, Repr

structure OutboxRow where
  destination : String
  payload : Json
  dedupKey : String
  status : OutboxStatus := .pending
  createdAt : ℕ
  publishedAt : Option ℕ := none
  deriving DecidableEq, Repr

structure Tables where
  orders : List OrderRow := []
  outbox : List OutboxRow := []
  deriving DecidableEq, Repr

abbrev OrdersTx := Pending (Source × String) OrderRow

abbrev OutboxTx := Pending String OutboxRow

def IncomingOrder.key (order : IncomingOrder) : Source × String := (order.source, order.externalId)

/-- The row `insert_new` writes. -/
def newOrderRow (order : IncomingOrder) : OrderRow where
  source := order.source
  externalId := order.externalId
  status := .assessRequested
  payload := order.payload
  requestId := order.requestId
  sourceFetchedAt := some order.fetchedAt

/-- The accepted order a row was written from. -/
def OrderRow.incoming (r : OrderRow) : IncomingOrder where
  source := r.source
  externalId := r.externalId
  payload := r.payload
  requestId := r.requestId
  fetchedAt := r.sourceFetchedAt.getD 0

def OrderRow.toDomain (r : OrderRow) : Order where
  source := r.source
  externalId := r.externalId
  status := r.status
  suitabilityScore := r.suitabilityScore

def OutboxRow.toEvent (r : OutboxRow) : PendingEvent where
  id := r.dedupKey
  destination := r.destination
  payload := r.payload

def insertNew (rows : List OrderRow) (others : List OrdersTx) (tx : OrdersTx)
    (order : IncomingOrder) : Option (OrdersTx × Bool) :=
  insertOrIgnore OrderRow.key rows others tx (newOrderRow order)

def get (rows : List OrderRow) (tx : OrdersTx) (source : Source) (externalId : String) :
    Option Order :=
  (select OrderRow.key rows tx (source, externalId)).map OrderRow.toDomain

def setStatus (rows : List OrderRow) (others : List OrdersTx) (tx : OrdersTx) (source : Source)
    (externalId : String) (status : OrderStatus) (suitabilityScore : Option ℤ) :
    Option (OrdersTx × Bool) :=
  update OrderRow.key rows others tx (source, externalId) fun r =>
    { r with status := status, suitabilityScore := suitabilityScore }

def assessKey (key : Source × String) : String := "assess:" ++ key.1.value ++ ":" ++ key.2

def notifyKey (key : Source × String) : String := "notify:" ++ key.1.value ++ ":" ++ key.2

/-- The row `_add` writes; `createdAt` is the start of its transaction. -/
def outboxRow (now : ℕ) (destination : OutboxDestination) (dedupKey : String) (payload : Json) :
    OutboxRow where
  destination := destination.value
  payload := payload
  dedupKey := dedupKey
  createdAt := now

def add (rows : List OutboxRow) (others : List OutboxTx) (tx : OutboxTx) (now : ℕ)
    (destination : OutboxDestination) (dedupKey : String) (payload : Json) :
    Option (OutboxTx × Bool) :=
  insertOrIgnore OutboxRow.dedupKey rows others tx (outboxRow now destination dedupKey payload)

/-- The pending rows that `claim_pending` may take without waiting. -/
def claimable (rows : List OutboxRow) (others : List OutboxTx) (tx : OutboxTx) : List OutboxRow :=
  unlocked OutboxRow.dedupKey rows others tx fun r => r.status = .pending

/-- The oldest claimable rows, at most `limit` of them. -/
abbrev ClaimResult (rows : List OutboxRow) (others : List OutboxTx) (tx : OutboxTx) (limit : ℕ)
    (taken : List OutboxRow) : Prop :=
  Limited OutboxRow.dedupKey OutboxRow.createdAt limit (claimable rows others tx) taken

def publishRow (now : ℕ) (r : OutboxRow) : OutboxRow :=
  { r with status := .published, publishedAt := some now }

def markPublished (rows : List OutboxRow) (others : List OutboxTx) (tx : OutboxTx) (now : ℕ)
    (ids : List String) : Option OutboxTx :=
  updateAll OutboxRow.dedupKey rows others (publishRow now) tx ids

@[simp] theorem key_newOrderRow (order : IncomingOrder) : (newOrderRow order).key = order.key := rfl

@[simp] theorem incoming_newOrderRow (order : IncomingOrder) :
    (newOrderRow order).incoming = order := rfl

@[simp] theorem key_incoming (r : OrderRow) : r.incoming.key = r.key := rfl

@[simp] theorem dedupKey_outboxRow (now : ℕ) (d : OutboxDestination) (k : String) (p : Json) :
    (outboxRow now d k p).dedupKey = k := rfl

@[simp] theorem dedupKey_publishRow (now : ℕ) (r : OutboxRow) :
    (publishRow now r).dedupKey = r.dedupKey := rfl

theorem assessKey_injective {k k' : Source × String} (h : assessKey k = assessKey k') : k = k' := by
  obtain ⟨⟨⟩, id⟩ := k
  obtain ⟨⟨⟩, id'⟩ := k'
  simpa [assessKey, Source.value] using h

theorem notifyKey_injective {k k' : Source × String} (h : notifyKey k = notifyKey k') : k = k' := by
  obtain ⟨⟨⟩, id⟩ := k
  obtain ⟨⟨⟩, id'⟩ := k'
  simpa [notifyKey, Source.value] using h

theorem assessKey_ne_notifyKey (k k' : Source × String) : assessKey k ≠ notifyKey k' := by
  intro h
  have := congrArg String.toList h
  simp [assessKey, notifyKey] at this

end ProfiNotifications.OrderCore
