import ProfiNotifications.OrderCore.Store

/-! # The use cases as programs of statements

A use case talks to its unit of work, to the outbox dispatch and to the publisher one
awaited call at a time. `Prog` is the tree of these calls with what is done on each
answer; the three use cases of the service are such programs.
-/

namespace ProfiNotifications.OrderCore

/-- A use case at one of its awaited calls. -/
inductive Prog where
  | ret
  | raise (error : Failure)
  | insertNew (order : IncomingOrder) (next : Bool → Prog)
  | get (source : Source) (externalId : String) (next : Option Order → Prog)
  | setStatus (source : Source) (externalId : String) (status : OrderStatus)
      (suitabilityScore : Option ℤ) (next : Bool → Prog)
  | add (destination : OutboxDestination) (dedupKey : String) (payload : Json) (next : Prog)
  | claimPending (limit : ℕ) (next : List PendingEvent → Prog)
  | publish (event : PendingEvent) (next : Prog)
  | markPublished (ids : List String) (next : Prog)
  | commit (next : Prog)

def addAssessmentRequest (order : IncomingOrder) (next : Prog) : Prog :=
  .add .assessRequest (assessKey order.key) (assessRequestPayload order) next

def addNotification (source : Source) (externalId : String) (notification : NotificationCommand)
    (next : Prog) : Prog :=
  .add .notify (notifyKey (source, externalId)) (notificationPayload notification) next

/-- Store the new orders of a batch together with their assessment requests. -/
def IngestOrders.handle : List IncomingOrder → Prog
  | [] => .commit .ret
  | order :: batch => .insertNew order fun
      | true => addAssessmentRequest order (handle batch)
      | false => handle batch

namespace ProcessAssessment

variable (threshold : ℤ)

/-- The part of `handle` behind the status guard. -/
def apply (outcome : AssessmentOutcome) : Prog :=
  if (decideNotification outcome threshold).notify then
    .setStatus .profi outcome.orderId .notifyRequested (some outcome.suitabilityScore) fun _ =>
      addNotification .profi outcome.orderId outcome.notification (.commit .ret)
  else
    .setStatus .profi outcome.orderId .noNotify (some outcome.suitabilityScore) fun _ =>
      .commit .ret

/-- Apply a verdict to its order, once. -/
def handle (outcome : AssessmentOutcome) : Prog :=
  .get .profi outcome.orderId fun
    | none => .raise (.permanent ("unknown order " ++ outcome.orderId))
    | some order => if canApplyAssessment order.status then apply threshold outcome
        else .commit .ret

end ProcessAssessment

namespace RelayOutbox

def publishAll : List PendingEvent → Prog → Prog
  | [], next => next
  | event :: events, next => .publish event (publishAll events next)

/-- Publish a batch of pending events, then mark and commit them. -/
def runOnce (batchSize : ℕ) : Prog :=
  .claimPending batchSize fun
    | [] => .ret
    | events => publishAll events (.markPublished (events.map PendingEvent.id) (.commit .ret))

end RelayOutbox

/-- The transport of a destination; an unknown one is a `ValueError`. -/
def FastStreamEventPublisher.route (destination : String) : Except Failure OutboxDestination :=
  if destination = OutboxDestination.assessRequest.value then .ok .assessRequest
  else if destination = OutboxDestination.notify.value then .ok .notify
  else .error (.other ("неизвестное назначение outbox: " ++ destination))

theorem FastStreamEventPublisher.route_error {destination : String} {error : Failure}
    (h : route destination = .error error) : ∃ m, error = .other m := by
  unfold route at h
  split at h
  · cases h
  · split at h
    · cases h
    · cases h; exact ⟨_, rfl⟩

def Prog.ended : Prog → Bool
  | .ret => true
  | .raise _ => true
  | _ => false

def Prog.raised : Prog → Bool
  | .raise _ => true
  | _ => false

theorem Prog.raised_of_not_ended {prog : Prog} (h : prog.ended = false) : prog.raised = false := by
  cases prog <;> simp_all [Prog.ended, Prog.raised]

/-- Programs that neither claim, publish nor mark outbox rows. -/
inductive Prog.Producer : Prog → Prop
  | ret : Producer .ret
  | raise (error : Failure) : Producer (.raise error)
  | insertNew {order : IncomingOrder} {next : Bool → Prog} (h : ∀ b, Producer (next b)) :
      Producer (.insertNew order next)
  | get {source : Source} {externalId : String} {next : Option Order → Prog}
      (h : ∀ o, Producer (next o)) : Producer (.get source externalId next)
  | setStatus {source : Source} {externalId : String} {status : OrderStatus} {score : Option ℤ}
      {next : Bool → Prog} (h : ∀ b, Producer (next b)) :
      Producer (.setStatus source externalId status score next)
  | add {destination : OutboxDestination} {dedupKey : String} {payload : Json} {next : Prog}
      (h : Producer next) : Producer (.add destination dedupKey payload next)
  | commit {next : Prog} (h : Producer next) : Producer (.commit next)

theorem IngestOrders.handle_producer (batch : List IncomingOrder) : (handle batch).Producer := by
  induction batch with
  | nil => exact .commit .ret
  | cons order batch ih =>
    refine .insertNew fun b => ?_
    cases b with
    | false => exact ih
    | true => exact .add ih

theorem ProcessAssessment.handle_producer (threshold : ℤ) (outcome : AssessmentOutcome) :
    (handle threshold outcome).Producer := by
  refine .get fun o => ?_
  cases o with
  | none => exact .raise _
  | some order =>
    have ha : (apply threshold outcome).Producer := by
      unfold apply
      split
      · exact .setStatus fun _ => .add (.commit .ret)
      · exact .setStatus fun _ => .commit .ret
    show (if canApplyAssessment order.status then _ else _ : Prog).Producer
    split
    · exact ha
    · exact .commit .ret

end ProfiNotifications.OrderCore
