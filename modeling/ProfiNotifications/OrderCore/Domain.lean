import ProfiNotifications.Foundations.Validation

/-! # Domain of order-core-service

Orders are identified by source and external id. An order waits for its verdict in
`assessRequested`; a verdict moves it to `notifyRequested` or `noNotify` according to
the threshold of the service. A verdict carries its score within 0..100.
-/

namespace ProfiNotifications.OrderCore

inductive Source where
  | profi
  deriving DecidableEq, Repr

def Source.value : Source → String
  | .profi => "profi"

inductive OrderStatus where
  | assessRequested
  | notifyRequested
  | noNotify
  | failed
  deriving DecidableEq, Repr

/-- A verdict applies only to an order that has not been processed yet. -/
def canApplyAssessment (status : OrderStatus) : Bool := status = .assessRequested

inductive ParseMode where
  | html
  | markdownV2
  | markdown
  deriving DecidableEq, Repr

def ParseMode.value : ParseMode → String
  | .html => "HTML"
  | .markdownV2 => "MarkdownV2"
  | .markdown => "Markdown"

/-- The neutral notification command that is forwarded to the notifications service. -/
structure NotificationCommand where
  text : String
  parseMode : Option ParseMode := none
  disableNotification : Option Bool := none
  disableWebPagePreview : Option Bool := none
  messageThreadId : Option ℤ := none
  deriving DecidableEq, Repr

/-- A verdict of the llm service on one order. -/
structure AssessmentOutcome where
  orderId : String
  suitabilityScore : ℤ
  notification : NotificationCommand
  score_nonneg : 0 ≤ suitabilityScore
  score_le : suitabilityScore ≤ 100
  deriving DecidableEq, Repr

/-- The model's own validation of its score bounds. -/
def AssessmentOutcome.validate (orderId : String) (suitabilityScore : ℤ)
    (notification : NotificationCommand) : Validated AssessmentOutcome :=
  if h : 0 ≤ suitabilityScore ∧ suitabilityScore ≤ 100 then
    .ok ⟨orderId, suitabilityScore, notification, h.1, h.2⟩
  else .errors [["suitability_score"]]

inductive DecisionReason where
  | aboveThreshold
  | belowThreshold
  deriving DecidableEq, Repr

structure Decision where
  notify : Bool
  reason : DecisionReason
  deriving DecidableEq, Repr

def decideNotification (outcome : AssessmentOutcome) (threshold : ℤ) : Decision :=
  if outcome.suitabilityScore ≥ threshold then ⟨true, .aboveThreshold⟩
  else ⟨false, .belowThreshold⟩

/-- The narrow projection of a stored order that decisions are made on. -/
structure Order where
  source : Source
  externalId : String
  status : OrderStatus
  suitabilityScore : Option ℤ := none
  deriving DecidableEq, Repr

/-- An accepted order: its identity and the raw order to forward. -/
structure IncomingOrder where
  source : Source
  externalId : String
  payload : Json
  requestId : Option String := none
  fetchedAt : ℤ := 0
  deriving DecidableEq, Repr

/-- An outbox row to publish; its id is the unique key the row is marked by. -/
structure PendingEvent where
  id : String
  destination : String
  payload : Json
  deriving DecidableEq, Repr

/-- Application errors, and whatever else a statement or a library call may raise. -/
inductive Failure where
  | transient (message : String)
  | permanent (message : String)
  | other (message : String)
  deriving DecidableEq, Repr

theorem canApplyAssessment_iff {status : OrderStatus} :
    canApplyAssessment status = true ↔ status = .assessRequested := by
  simp [canApplyAssessment]

theorem decideNotification_notify {outcome : AssessmentOutcome} {threshold : ℤ} :
    (decideNotification outcome threshold).notify = true ↔
      threshold ≤ outcome.suitabilityScore := by
  unfold decideNotification
  split <;> simp_all

theorem AssessmentOutcome.validate_ok {orderId : String} {score : ℤ} {n : NotificationCommand}
    (h₀ : 0 ≤ score) (h₁ : score ≤ 100) :
    validate orderId score n = .ok ⟨orderId, score, n, h₀, h₁⟩ := by
  simp [validate, h₀, h₁]

end ProfiNotifications.OrderCore
