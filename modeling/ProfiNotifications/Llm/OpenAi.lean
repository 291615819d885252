import ProfiNotifications.Llm.Lineage

/-! # The assessor behind the use case

The assessor asks a model over an API and raises what the use case tells apart: a transient
error where the API may answer later, and a permanent one where it has spoken. So an order
whose processing ends without a result has met an answer that another attempt would not
change, or an exception that nobody expects.
-/

namespace ProfiNotifications.Llm

open Schemas Transition WorkQueue

/-- The structured answer of the model. -/
structure LlmAssessmentSchema where
  summary : String
  detectedSkills : List String := []
  matchedStrong : List String := []
  matchedWorking : List String := []
  unsupportedHits : List String := []
  isRejectedType : Bool := false
  suitabilityScore : ℤ
  rationale : String := ""
  score_nonneg : 0 ≤ suitabilityScore
  score_le : suitabilityScore ≤ 100
  deriving Repr

def LlmAssessmentSchema.toAssessment (schema : LlmAssessmentSchema) : Assessment where
  summary := schema.summary
  suitabilityScore := schema.suitabilityScore
  unsupportedHits := schema.unsupportedHits
  isRejectedType := schema.isRejectedType
  score_nonneg := schema.score_nonneg
  score_le := schema.score_le

/-- What the call of the model raises: the classes of the client, and any other exception. -/
inductive ModelError where
  | rateLimitError
  | apiConnectionError
  | internalServerError
  | badRequestError
  | authenticationError
  | permissionDeniedError
  | notFoundError
  | conflictError
  | unprocessableEntityError
  | apiStatusError (statusCode : ℕ)
  | lengthFinishReasonError
  | validationError
  | other (name : String)
  deriving DecidableEq, Repr

namespace OpenAiAssessor

/-- The exception that the assessor raises instead. -/
def raised : ModelError → Raised
  | .rateLimitError | .apiConnectionError | .internalServerError => .transientError
  | .badRequestError | .authenticationError | .permissionDeniedError | .notFoundError
  | .conflictError | .unprocessableEntityError => .permanentError
  | .apiStatusError statusCode => if statusCode ≥ 500 then .transientError else .permanentError
  | .lengthFinishReasonError => .permanentError
  | .validationError => .permanentError
  | .other name => .other name

def assess : Except ModelError LlmAssessmentSchema → Except Raised Assessment
  | .ok schema => .ok schema.toAssessment
  | .error e => .error (raised e)

end OpenAiAssessor

/-- The API limits the rate, cannot be reached or fails on its side. -/
def ModelError.Temporary : ModelError → Prop
  | .rateLimitError | .apiConnectionError | .internalServerError => True
  | .apiStatusError statusCode => 500 ≤ statusCode
  | _ => False

theorem OpenAiAssessor.raised_transientError {e : ModelError} :
    raised e = .transientError ↔ e.Temporary := by
  cases e with
  | apiStatusError statusCode =>
    simp only [raised, ModelError.Temporary]
    split
    · exact ⟨fun _ => ‹_›, fun _ => rfl⟩
    · exact ⟨nofun, fun h => absurd h ‹_›⟩
  | _ => simp [raised, ModelError.Temporary]

/-- What the model and the publishers answer in a run of the subscriber. -/
structure ModelAnswers where
  model : ℕ → Except ModelError LlmAssessmentSchema
  publish : ℕ → Except Raised Unit
  retry : Except Raised Unit

def ModelAnswers.answers (answers : ModelAnswers) : Answers where
  assess n := OpenAiAssessor.assess (answers.model n)
  publish := answers.publish
  retry := answers.retry

/-- A delivery is answered by the model, by way of the assessor. -/
def AskedOfModel : Action Json Answers → Prop
  | .deliver _ answers => ∃ a : ModelAnswers, answers = a.answers
  | _ => True

namespace AssessService

variable {s : AssessService} {w : World s.service} {order : Order} {body : Json}

/-- Why the processing of an order ends without a result. -/
inductive Final (s : AssessService) (a : ModelAnswers) (n : ℕ) : Prop
  | unsuitable {schema : LlmAssessmentSchema} (hm : a.model n = .ok schema)
      (hs : schema.unsupportedHits ≠ [] ∨ schema.isRejectedType = true ∨
        schema.suitabilityScore < s.uc.threshold)
  | refused {e : ModelError} (hm : a.model n = .error e) (he : ¬ e.Temporary)
  | unpublished {schema : LlmAssessmentSchema} {e : Raised} (hm : a.model n = .ok schema)
      (hp : a.publish n = .error e) (he : e ≠ .transientError)

theorem not_suitable {schema : LlmAssessmentSchema} {threshold : ℤ}
    (h : ¬ (schema.toAssessment.decide threshold).notify = true) :
    schema.unsupportedHits ≠ [] ∨ schema.isRejectedType = true ∨
      schema.suitabilityScore < threshold := by
  by_contra hc
  obtain ⟨hhits, hrejected, hscore⟩ : schema.unsupportedHits = [] ∧
      schema.isRejectedType = false ∧ threshold ≤ schema.suitabilityScore := by
    simpa only [not_or, not_not, Bool.not_eq_true, not_lt] using hc
  exact h (Assessment.notify_decide.mpr ⟨hhits, hrejected, hscore⟩)

/-- An order that is neither published nor retried has met a final answer. -/
theorem final_of_ended {a : ModelAnswers} {n : ℕ} (hp : s.uc.ended a.answers n ≠ .published)
    (ht : s.uc.ended a.answers n ≠ .failed .transientError) : Final s a n := by
  unfold AssessOrders.ended at hp ht
  cases hm : a.model n with
  | error e =>
    refine .refused hm fun he => ht ?_
    simp [ModelAnswers.answers, OpenAiAssessor.assess, hm,
      OpenAiAssessor.raised_transientError.mpr he]
  | ok schema =>
    simp only [ModelAnswers.answers, OpenAiAssessor.assess, hm] at hp ht
    by_cases hd : (schema.toAssessment.decide s.uc.threshold).notify = true
    · simp only [hd, if_true] at hp ht
      cases hpub : a.publish n with
      | ok u => simp [hpub] at hp
      | error e =>
        refine .unpublished hm hpub fun he => ?_
        simp [hpub, he] at ht
    · exact .unsuitable hm (not_suitable hd)

/--
In every run whose deliveries are answered by the model, with any lost connections: an
order of a posted envelope is in a queue or in hand, its result was published, or its
processing has ended with an answer of the model that another attempt would not change,
or with a result that could not be published. A rate limit, an API that cannot be reached
and an error on its side never end it.
-/
theorem dismissed_finally (h : Reach s.service.step (fun _ a => AskedOfModel a) {} w)
    (hb : body ∈ w.posted) (ho : order ∈ s.ordersOf body) :
    (∃ queue ∈ [s.settings.inputQueue, s.settings.retryQueue, s.settings.dlq], ∃ body',
      (queue, body') ∈ w.stored ∧ order ∈ s.ordersOf body') ∨
    (∃ d ∈ w.inFlight, order ∈ s.ordersOf d.message) ∨
    (∃ d ∈ w.settled, ∃ listing assessment, s.Recommends d order listing assessment ∧
      (s.settings.resultQueue, resultOf listing assessment) ∈ w.stored) ∨
    ∃ d ∈ w.settled, d.settlement = .acked ∧ ∃ message n, ∃ a : ModelAnswers,
      ParseResultMessage.validate s.lax d.message = .ok message ∧
      (order, n) ∈ message.orders.zipIdx ∧ d.answers = a.answers ∧ Final s a n := by
  have hmodel := Service.answers_of_reach (P := fun answers => ∃ a : ModelAnswers,
    answers = a.answers) (fun _ _ _ ha => ha) h
  rcases held_or_published h hb ho with hheld | hpublished
  · cases hheld with
    | queued hq hb' ho' => exact Or.inl ⟨_, hq, _, hb', ho'⟩
    | inHand hd ho' => exact Or.inr (Or.inl ⟨_, hd, ho'⟩)
    | @dismissed d message n hd hacked hv hn hp ht =>
      obtain ⟨a, ha⟩ := hmodel d (World.mem_deliveries.mpr (Or.inr (Or.inr hd)))
      rw [ha] at hp ht
      exact Or.inr (Or.inr (Or.inr
        ⟨d, hd, hacked, message, n, a, hv, hn, ha, final_of_ended hp ht⟩))
  · exact Or.inr (Or.inr (Or.inl hpublished))

def raising (e : ModelError) : ModelAnswers where
  model _ := .error e
  publish _ := .ok ()
  retry := .ok ()

def refusedOnRetry : List (Action Json Answers) :=
  [.post listed.dump, .deliver 0 (raising (.apiStatusError 529)).answers, .proceed 0 false,
    .proceed 0 false, .settle 0, .expire 0, .deliver 0 (raising .badRequestError).answers,
    .proceed 0 false, .settle 0]

theorem dismissed_finally_refusedOnRetry : ∃ w : World deployed.service,
    w.stored = [] ∧ w.inFlight = [] ∧ ∃ d ∈ w.settled, d.settlement = .acked ∧
      ∃ message n, ∃ a : ModelAnswers,
      ParseResultMessage.validate deployed.lax d.message = .ok message ∧
      (({ id := "1", title := "t" } : Order), n) ∈ message.orders.zipIdx ∧
      d.answers = a.answers ∧ Final deployed a n := by
  obtain ⟨w, hrun, hstored, hflight, hposted⟩ : ∃ w : World deployed.service,
      run deployed.service.step {} refusedOnRetry = some w ∧ w.stored.isEmpty = true ∧
        w.inFlight.isEmpty = true ∧ w.posted = [listed.dump] := ⟨_, rfl, rfl, rfl, rfl⟩
  have hstored := List.isEmpty_iff.mp hstored
  have hflight := List.isEmpty_iff.mp hflight
  have hasked : ∀ a ∈ refusedOnRetry, AskedOfModel a := by
    simp [refusedOnRetry, AskedOfModel]
  have ho : ({ id := "1", title := "t" } : Order) ∈ deployed.ordersOf listed.dump := by
    rw [ordersOf_dump]
    exact List.mem_cons_self
  refine ⟨w, hstored, hflight, ?_⟩
  have hb : listed.dump ∈ w.posted := hposted ▸ List.mem_cons_self
  rcases dismissed_finally (Reach.of_run_of_forall hasked hrun) hb ho with
    ⟨_, _, _, hq, _⟩ | ⟨_, hd, _⟩ | ⟨_, _, _, _, _, hr⟩ | hfinal
  · rw [hstored] at hq
    cases hq
  · rw [hflight] at hd
    cases hd
  · rw [hstored] at hr
    cases hr
  · exact hfinal

end AssessService

end ProfiNotifications.Llm
