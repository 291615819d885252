import Mathlib.Data.Rat.Floor
import ProfiNotifications.Foundations.Keyed
import ProfiNotifications.Notifications.MessageSchema

/-! # Delivering one message

The use case creates the notification, sends it and decides what becomes of the message;
the handler turns the decision into a consumer status, and publishes dead letters
itself. Both wait for the sender and for the dead-letter exchange, so a handler is a
tree of these two calls with what is done on each answer.
-/

namespace ProfiNotifications.Notifications

structure MessageLike where
  body : Body
  headers : Option (List (String × Json)) := none
  deriving DecidableEq, Repr

inductive DeadLetterCategory where
  | invalidPayload
  | validation
  | permanent
  | exhausted
  | unexpected
  deriving DecidableEq, Repr

def DeadLetterCategory.value : DeadLetterCategory → String
  | .invalidPayload => "invalid-payload"
  | .validation => "validation"
  | .permanent => "permanent"
  | .exhausted => "exhausted"
  | .unexpected => "unexpected"

inductive DeliveryDecision where
  | ack
  | retry
  | deadLetter (category : DeadLetterCategory) (reason : String)
  deriving DecidableEq, Repr

inductive SendError where
  | transient (message : String)
  | permanent (message : String)
  | unknown (reason : String)
  deriving DecidableEq, Repr

inductive ConsumerStatus where
  | ack
  | drop
  deriving DecidableEq, Repr

structure DeadLetter where
  routingKey : String
  body : Body
  headers : List (String × Json)
  reason : String
  category : DeadLetterCategory
  deriving DecidableEq, Repr

/-- The published message, with the reason and the category among its headers. -/
def DeadLetter.message (letter : DeadLetter) : MessageLike where
  body := letter.body
  headers := some (Keyed.overlay Prod.fst letter.headers
    [("x-dead-letter-reason", .str letter.reason),
      ("x-dead-letter-category", .str letter.category.value)])

/-- A handler at one of its awaited calls, or at its end: returned, or thrown. -/
inductive Task where
  | send (notification : Notification) (next : Except SendError Unit → Task)
  | publish (letter : DeadLetter) (next : Except String Unit → Task)
  | settled (result : Except String ConsumerStatus)

section UseCase

variable (maxAttempts : ℕ)

def onSendError (err : SendError) (attempt : ℕ) : DeliveryDecision :=
  let attemptsMade := attempt + 1
  match err with
  | .permanent message => .deadLetter .permanent message
  | .transient message =>
    if attemptsMade ≥ maxAttempts then
      .deadLetter .exhausted ("retries exhausted after " ++ toString attemptsMade ++
        " attempt(s): " ++ message)
    else .retry
  | .unknown reason =>
    if attemptsMade ≥ maxAttempts then
      .deadLetter .unexpected ("unexpected error, retries exhausted: " ++ reason)
    else .retry

/-- The use case, and what its caller does with a decision or an error. -/
def execute (command : NotificationCommand) (attempt : ℕ)
    (next : Except String DeliveryDecision → Task) : Task :=
  match createNotification command with
  | .error message => next (.ok (.deadLetter .validation message))
  | .ok notification => .send notification fun
    | .ok () => next (.ok .ack)
    | .error err => next (.ok (onSendError maxAttempts err attempt))

end UseCase

/-- `Number(value)` where it is finite; strings, arrays and objects are left to `other`. -/
def toNumber (other : Json → Option ℚ) : Option Json → Option ℚ
  | none => none
  | some (.int n) => some n
  | some (.float x) => some x
  | some (.nonFinite _) => none
  | some (.bool b) => some (if b then 1 else 0)
  | some .null => some 0
  | some j => other j

/-- The number of earlier rejections by the main queue, from the `x-death` header. -/
def getAttemptCount (other : Json → Option ℚ) (headers : Option (List (String × Json)))
    (mainQueue : String) : ℕ :=
  match headers.bind fun hs => Json.get hs "x-death" with
  | some (.arr entries) =>
    match entries.find? fun entry => entry.field "queue" = some (.str mainQueue) ∧
        entry.field "reason" = some (.str "rejected") with
    | some entry =>
      match toNumber other (entry.field "count") with
      | some count => if 0 < count then ⌊count⌋.toNat else 0
      | none => 0
    | none => 0
  | _ => 0

structure MessageHandlerDeps where
  decoding : Decoding
  other : Json → Option ℚ
  mainQueue : String
  routingKey : String
  maxAttempts : ℕ

namespace MessageHandlerDeps

variable (deps : MessageHandlerDeps)

def applyDecision (msg : MessageLike) : DeliveryDecision → Task
  | .ack => .settled (.ok .ack)
  | .retry => .settled (.ok .drop)
  | .deadLetter category reason =>
    .publish
      { routingKey := deps.routingKey
        body := msg.body
        headers := msg.headers.getD []
        reason := reason
        category := category } fun
      | .ok () => .settled (.ok .ack)
      | .error message => .settled (.error message)

/-- The decision, also after an error that the use case did not expect. -/
def decisionOf (attempt : ℕ) : Except String DeliveryDecision → DeliveryDecision
  | .ok decision => decision
  | .error reason =>
    let attemptsMade := attempt + 1
    if attemptsMade ≥ deps.maxAttempts then
      .deadLetter .unexpected ("unhandled error: " ++ reason)
    else .retry

def handle (msg : MessageLike) : Task :=
  let attempt := getAttemptCount deps.other msg.headers deps.mainQueue
  let conclude := fun result => deps.applyDecision msg (deps.decisionOf attempt result)
  match parseNotificationMessage deps.decoding msg.body with
  | .error reason => conclude (.ok (.deadLetter .invalidPayload reason))
  | .ok command => execute deps.maxAttempts command attempt conclude

end MessageHandlerDeps

def notificationOf (decoding : Decoding) (body : Body) : Option Notification :=
  match parseNotificationMessage decoding body with
  | .error _ => none
  | .ok command => (createNotification command).toOption

def decisionOn (maxAttempts attempt : ℕ) : Except SendError Unit → DeliveryDecision
  | .ok () => .ack
  | .error err => onSendError maxAttempts err attempt

namespace MessageHandlerDeps

variable {deps : MessageHandlerDeps} {msg : MessageLike}

theorem handle_of_some {n : Notification} (h : notificationOf deps.decoding msg.body = some n) :
    deps.handle msg = .send n fun result => deps.applyDecision msg
      (decisionOn deps.maxAttempts (getAttemptCount deps.other msg.headers deps.mainQueue)
        result) := by
  unfold notificationOf at h
  unfold handle
  cases hc : parseNotificationMessage deps.decoding msg.body with
  | error reason => rw [hc] at h; cases h
  | ok command =>
    simp only [hc] at h
    cases hn : createNotification command with
    | error e => rw [hn] at h; cases h
    | ok n' =>
      rw [hn] at h
      obtain rfl := Option.some.inj h
      simp only [execute, hn]
      congr 1
      funext result
      cases result <;> rfl

theorem handle_of_none (h : notificationOf deps.decoding msg.body = none) :
    ∃ category reason, deps.handle msg = deps.applyDecision msg (.deadLetter category reason) := by
  unfold notificationOf at h
  unfold handle
  cases hc : parseNotificationMessage deps.decoding msg.body with
  | error reason => exact ⟨_, _, rfl⟩
  | ok command =>
    simp only [hc] at h
    simp only [execute]
    cases hn : createNotification command with
    | error e => exact ⟨_, _, rfl⟩
    | ok n => rw [hn] at h; cases h

theorem applyDecision_deadLetter (deps : MessageHandlerDeps) (msg : MessageLike)
    (category : DeadLetterCategory) (reason : String) :
    ∃ letter next, deps.applyDecision msg (.deadLetter category reason) = .publish letter next ∧
      letter.routingKey = deps.routingKey ∧ letter.body = msg.body ∧
      next (.ok ()) = .settled (.ok .ack) ∧
      ∀ message, next (.error message) = .settled (.error message) :=
  ⟨_, _, rfl, rfl, rfl, rfl, fun _ => rfl⟩

end MessageHandlerDeps

end ProfiNotifications.Notifications
