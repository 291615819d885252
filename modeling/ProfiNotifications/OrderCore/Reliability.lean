import ProfiNotifications.OrderCore.Mapping

/-! # Classification of intake failures

A subscriber takes a raw object, validates it against the schema of its queue and maps
it for its use case. `guard` publishes what it takes for poison to the dead letter queue
and acknowledges it; every other exception goes back to the broker, which requeues the
message. The bounds of a verdict are checked by the mapping, behind the schema.
-/

namespace ProfiNotifications.OrderCore

open Schemas

/-- What reaches a subscriber as an exception: a `ValidationError`, or another failure. -/
inductive Raised where
  | validation (paths : List (List String))
  | failure (error : Failure)
  deriving DecidableEq, Repr

structure DeadLetter where
  category : String
  reason : String
  payload : Json
  deriving DecidableEq, Repr

/-- The message `DeadLetterPublisher` publishes. -/
def DeadLetter.body (letter : DeadLetter) : Json :=
  .obj [("category", .str letter.category), ("reason", .str letter.reason),
    ("payload", letter.payload)]

/-- The dead letters a delivery has published, and whether it is acknowledged or raises. -/
structure Handled where
  deadLetters : List DeadLetter := []
  result : Except Raised Unit

/-- A handler of the messages of a queue. -/
abbrev Handle (α : Type) := α → Except Raised Unit

section Guard

variable {M : Type} (text : List (List String) → String) (dlq : Handle DeadLetter)

/-- Publish a dead letter; the delivery is acknowledged if that succeeds. -/
def deadLetter (letter : DeadLetter) : Handled :=
  match dlq letter with
  | .ok () => { deadLetters := [letter], result := .ok () }
  | .error e => { result := .error e }

/-- `text` is the text of a `ValidationError`. -/
def guard (raw : Json) (parse : Json → Validated M) (handle : Handle M) : Handled :=
  match parse raw with
  | .errors paths => deadLetter dlq ⟨"invalid-payload", text paths, raw⟩
  | .ok message =>
    match handle message with
    | .error (.failure (.permanent reason)) => deadLetter dlq ⟨"permanent", reason, raw⟩
    | result => { result := result }

end Guard

/-- A subscriber with the use case it delegates to. -/
inductive Subscriber where
  | parseResults (handle : Handle (List IncomingOrder))
  | assessResults (handle : Handle AssessmentOutcome)

/-- `_handle` of the verdicts: the mapping validates once more. -/
def handleVerdict (handle : Handle AssessmentOutcome) : Handle AssessmentResultMessage :=
  fun message => match toAssessmentOutcome message with
    | .ok outcome => handle outcome
    | .errors paths => .error (.validation paths)

namespace Subscriber

variable (lax : Lax) (text : List (List String) → String) (dlq : Handle DeadLetter)

def deliver (raw : List (String × Json)) : Subscriber → Handled
  | .parseResults handle => guard text dlq (.obj raw) (ParseResultMessage.validate lax)
      fun message => handle (toIncomingOrders message)
  | .assessResults handle => guard text dlq (.obj raw) (AssessmentResultMessage.validate lax)
      (handleVerdict handle)

end Subscriber

namespace Subscriber

variable {lax : Lax} {text : List (List String) → String} {raw : List (String × Json)}

end Subscriber

end ProfiNotifications.OrderCore
