import ProfiNotifications.Foundations.Logged
import ProfiNotifications.Foundations.Selection
import ProfiNotifications.Llm.Schemas

/-! # Assessing a batch of orders

Every order of a batch is assessed and, when it suits, its result is published; an
exception ends the processing of its order only. The use case returns the ids of the
orders that met a transient error, and the subscriber publishes what it selects by these
ids from the batch to the retry queue.
-/

namespace ProfiNotifications.Llm

open Schemas Selection

inductive DecisionReason where
  | aboveThreshold
  | belowThreshold
  | unsupportedOrRejected
  deriving DecidableEq, Repr

structure Decision where
  notify : Bool
  reason : DecisionReason
  deriving DecidableEq, Repr

def Assessment.decide (assessment : Assessment) (threshold : ℤ) : Decision :=
  if assessment.unsupportedHits ≠ [] ∨ assessment.isRejectedType = true then
    ⟨false, .unsupportedOrRejected⟩
  else if assessment.suitabilityScore ≥ threshold then ⟨true, .aboveThreshold⟩
  else ⟨false, .belowThreshold⟩

theorem Assessment.notify_decide {assessment : Assessment} {threshold : ℤ} :
    (assessment.decide threshold).notify = true ↔ assessment.unsupportedHits = [] ∧
      assessment.isRejectedType = false ∧ threshold ≤ assessment.suitabilityScore := by
  unfold Assessment.decide
  split
  · rename_i h
    simp only [Bool.false_eq_true, false_iff]
    rintro ⟨hhits, hrejected, -⟩
    rcases h with h | h
    · exact h hhits
    · rw [hrejected] at h
      cases h
  · rename_i h
    obtain ⟨hhits, hrejected⟩ := not_or.mp h
    split
    · rename_i hscore
      simp only [true_iff]
      exact ⟨not_not.mp hhits, Bool.eq_false_iff.mpr hrejected, hscore⟩
    · rename_i hscore
      simp only [Bool.false_eq_true, false_iff]
      exact fun h => hscore h.2.2

inductive Call where
  | assess (listing : Listing) (answer : Except Raised Assessment)
  | publish (message : Json) (answer : Except Raised Unit)
  | retry (message : Json) (answer : Except Raised Unit)

/-- The body that is published for an order. -/
def resultOf (listing : Listing) (assessment : Assessment) : Json :=
  (AssessmentResultMessage.fromResult (buildResult listing assessment)).dump

/-- What the ports answer in a run: for the order at each place, and for the retry message. -/
structure Answers where
  assess : ℕ → Except Raised Assessment
  publish : ℕ → Except Raised Unit
  retry : Except Raised Unit

abbrev Run := Logged Call Raised

namespace Answers

variable (answers : Answers)

def assessOrder (listing : Listing) (n : ℕ) : Run Assessment :=
  .call (.assess listing (answers.assess n)) (answers.assess n)

/-- `RabbitResultPublisher.publish`: what the transport raises is passed on. -/
def publishResult (result : AssessmentResult) (n : ℕ) : Run Unit :=
  .call (.publish (AssessmentResultMessage.fromResult result).dump (answers.publish n))
    (answers.publish n)

def publishRetry (message : ParseResultMessage) : Run Unit :=
  .call (.retry message.dump answers.retry) answers.retry

end Answers

structure AssessOrders where
  threshold : ℤ

namespace AssessOrders

variable (uc : AssessOrders) (answers : Answers)

/-- `_assess_one`: whether the order at this place is done with. -/
def assessOne (listing : Listing) (n : ℕ) : Run Bool :=
  try
    let assessment ← answers.assessOrder listing n
    let decision := assessment.decide uc.threshold
    if decision.notify then
      answers.publishResult (buildResult listing assessment) n
    pure true
  catch
    | .transientError => pure false
    | .assessmentError | .permanentError => pure true
    | .other _ => pure true

/-- The ids of the orders that are to be retried. -/
def handle (listings : List Listing) : Run (List String) := do
  let mut retryable := []
  for (listing, n) in listings.zipIdx do
    unless ← uc.assessOne answers listing n do
      retryable := retryable ++ [listing.id]
  return retryable

/-- The subscriber of `assess.requests`. -/
def onAssessRequests (message : ParseResultMessage) : Run Unit := do
  let listings ← Logged.of (message.orders.mapM orderToListing)
  let retryable ← uc.handle answers listings
  if retryable ≠ [] then
    let failed := message.orders.filter fun order => order.id ∈ retryable
    answers.publishRetry { message with orders := failed }

/-- What becomes of an envelope: it is acknowledged, or rejected into the dead-letter queue. -/
inductive Settlement where
  | acked
  | rejected
  deriving DecidableEq, Repr

/-- The broker's side: an envelope that cannot be read, or whose handler raises, is rejected. -/
def consume (lax : Lax) (body : Json) : List Call × Settlement :=
  match ParseResultMessage.validate lax body with
  | .errors _ => ([], .rejected)
  | .ok message =>
    let run := uc.onAssessRequests answers message
    match run.result with
    | .ok () => (run.log, .acked)
    | .error _ => (run.log, .rejected)

inductive Ended where
  | published
  | skipped
  | failed (e : Raised)
  deriving DecidableEq, Repr

/-- The assessment of the order at this place suits. -/
def Suits (n : ℕ) (assessment : Assessment) : Prop :=
  answers.assess n = .ok assessment ∧ (assessment.decide uc.threshold).notify = true

def ended (n : ℕ) : Ended :=
  match answers.assess n with
  | .error e => .failed e
  | .ok assessment =>
    if (assessment.decide uc.threshold).notify then
      match answers.publish n with
      | .ok () => .published
      | .error e => .failed e
    else .skipped

def calls (listing : Listing) (n : ℕ) : List Call :=
  .assess listing (answers.assess n) ::
    match answers.assess n with
    | .error _ => []
    | .ok assessment =>
      if (assessment.decide uc.threshold).notify then
        [.publish (AssessmentResultMessage.fromResult (buildResult listing assessment)).dump
          (answers.publish n)]
      else []

def retries (n : ℕ) : Bool := uc.ended answers n = .failed .transientError

def addRetryable (p : Listing × ℕ) (retryable : List String) : List String :=
  if uc.retries answers p.2 then retryable ++ [p.1.id] else retryable

variable {uc answers}

/-- No exception leaves the processing of an order. -/
theorem assessOne_eq (listing : Listing) (n : ℕ) : uc.assessOne answers listing n =
    ⟨uc.calls answers listing n, .ok (!uc.retries answers n)⟩ := by
  unfold assessOne calls retries ended Answers.assessOrder Answers.publishResult Logged.call
  cases ha : answers.assess n with
  | error e => cases e <;> simp
  | ok assessment =>
    by_cases hd : (assessment.decide uc.threshold).notify = true
    · cases hp : answers.publish n with
      | ok u => simp [hd]
      | error e => cases e <;> simp [hd]
    · simp [hd]

theorem foldl_addRetryable (ps : List (Listing × ℕ)) (ids : List String) :
    ps.foldl (fun ids p => uc.addRetryable answers p ids) ids =
      ids ++ (marked (fun p => uc.retries answers p.2) ps).map Listing.id := by
  induction ps generalizing ids with
  | nil => simp [marked]
  | cons p ps ih =>
    rw [List.foldl_cons, ih, addRetryable, marked, marked, List.filter_cons]
    split <;> simp

theorem handle_eq (listings : List Listing) : uc.handle answers listings =
    ⟨listings.zipIdx.flatMap fun p => uc.calls answers p.1 p.2,
      .ok ((marked (fun p => uc.retries answers p.2) listings.zipIdx).map Listing.id)⟩ := by
  have hpass : ∀ (p : Listing × ℕ) (ids : List String), (do
      if ← uc.assessOne answers p.1 p.2 then pure (.yield ids)
      else pure (.yield (ids ++ [p.1.id])) : Run (ForInStep (List String))) =
        ⟨uc.calls answers p.1 p.2, .ok (.yield (uc.addRetryable answers p ids))⟩ := by
    rintro p ids
    rw [assessOne_eq, addRetryable]
    cases uc.retries answers p.2 <;> simp
  have hloop := Logged.forIn_yield hpass listings.zipIdx []
  rw [foldl_addRetryable] at hloop
  have hreturn := congrArg (· >>= pure) hloop
  simp only [Logged.bind_ok, Logged.pure_eq, List.append_nil, List.nil_append] at hreturn
  exact hreturn

end AssessOrders

end ProfiNotifications.Llm
