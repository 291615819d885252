import ProfiNotifications.Llm.Lineage
import ProfiNotifications.OrderCore.Decisions
import ProfiNotifications.OrderCore.KnownOrder
import ProfiNotifications.Pipeline

/-! # Core and the llm service together

Core takes parsed batches, its relay publishes the requests into the input queue of the
llm service, and the results of the llm service are handed to core until it acknowledges
them. A run interleaves the statements, publishes and commits of core, the deliveries
and calls of the llm service, lost connections included, and the acknowledgements. What
happens in core is a run of core, and what happens in the queues is a run of the queues.
-/

namespace ProfiNotifications

open Keyed Transition

namespace OrderCore

/-- An event was handed to its transport, and the publication succeeded or not. -/
def Handed (core : Core) (h : PendingEvent × Bool) : Prop := ∃ s ∈ core.sessions, h ∈ s.handed

/-- What an action hands to a transport. -/
def published (core : Core) : Action → Option (PendingEvent × Bool)
  | .perform i (.publish confirmed) =>
    match core.sessions[i]?.map Session.prog with
    | some (.publish event _) =>
      match FastStreamEventPublisher.route event.destination with
      | .ok _ => some (event, confirmed)
      | .error _ => none
    | _ => none
  | _ => none

variable {threshold : ℤ} {tables : Tables} {others : List Session} {s s' : Session}
  {core core' : Core} {a : Action} {move : Move} {h : PendingEvent × Bool}

theorem published_of_publish {i : ℕ} {event : PendingEvent} {next : Prog}
    {d : OutboxDestination} {confirmed : Bool} (hi : core.sessions[i]? = some s)
    (hp : s.prog = .publish event next)
    (hd : FastStreamEventPublisher.route event.destination = .ok d) :
    published core (.perform i (.publish confirmed)) = some (event, confirmed) := by
  simp only [published, hi, Option.map_some, hp, hd]

theorem LocalStep.mem_handed {i : ℕ} (hi : core.sessions[i]? = some s)
    (hl : LocalStep core.tables others s move s') :
    h ∈ s'.handed ↔ h ∈ s.handed ∨ published core (.perform i move) = some h := by
  have hsame : s'.handed = s.handed → published core (.perform i move) = none →
      (h ∈ s'.handed ↔ h ∈ s.handed ∨ published core (.perform i move) = some h) := by
    intro hs hp
    simp [hs, hp]
  cases hl with
  | publish hp hd =>
    rw [published_of_publish hi hp hd, Session.resume_handed, List.mem_append,
      List.mem_singleton, Option.some.injEq, eq_comm]
  | unconfirmed hp hd =>
    rw [published_of_publish hi hp hd, Session.abort_handed, List.mem_append,
      List.mem_singleton, Option.some.injEq, eq_comm]
  | unroutable hp hd =>
    refine hsame Session.abort_handed ?_
    simp only [published, hi, Option.map_some, hp, hd]
  | insertNew | get | setStatus | add | markPublished | claim =>
    exact hsame Session.resume_handed rfl
  | fail => exact hsame Session.abort_handed rfl

theorem exists_set {i : ℕ} {l : List Session} (hi : l[i]? = some s)
    {P : Session → Prop} : (∃ t ∈ l.set i s', P t) ↔
      P s' ∨ ∃ j t, j ≠ i ∧ l[j]? = some t ∧ P t := by
  constructor
  · rintro ⟨t, ht, hp⟩
    rcases mem_set_cases ht with rfl | ⟨j, hj, ht⟩
    exacts [Or.inl hp, Or.inr ⟨j, t, hj, ht, hp⟩]
  · rintro (hp | ⟨j, t, hj, ht, hp⟩)
    · exact ⟨s', List.mem_of_getElem? (List.getElem?_set_self (List.getElem?_eq_some_iff.mp hi).1),
        hp⟩
    · exact ⟨t, List.mem_of_getElem? ((List.getElem?_set_ne (Ne.symm hj)).trans ht), hp⟩

theorem exists_mem_iff {i : ℕ} {l : List Session} (hi : l[i]? = some s) {P : Session → Prop} :
    (∃ t ∈ l, P t) ↔ P s ∨ ∃ j t, j ≠ i ∧ l[j]? = some t ∧ P t := by
  constructor
  · rintro ⟨t, ht, hp⟩
    obtain ⟨j, hj⟩ := List.getElem?_of_mem ht
    by_cases hij : j = i
    · subst hij
      obtain rfl := Option.some.inj (hi.symm.trans hj)
      exact Or.inl hp
    · exact Or.inr ⟨j, t, hij, hj, hp⟩
  · rintro (hp | ⟨j, t, -, ht, hp⟩)
    exacts [⟨s, List.mem_of_getElem? hi, hp⟩, ⟨t, List.mem_of_getElem? ht, hp⟩]

/-- What is handed over after a step was handed over before, or is published in it. -/
theorem Core.Step.handed_iff (hs : core.Step threshold a core') :
    Handed core' h ↔ Handed core h ∨ published core a = some h := by
  cases hs with
  | start call now =>
    simp only [Handed, published, List.mem_append, List.mem_singleton, reduceCtorEq, or_false]
    constructor
    · rintro ⟨s, hs | rfl, hh⟩
      · exact ⟨s, hs, hh⟩
      · cases hh
    · rintro ⟨s, hs, hh⟩
      exact ⟨s, Or.inl hs, hh⟩
  | perform hi hl =>
    rw [Handed, Handed, exists_set hi, exists_mem_iff hi, hl.mem_handed hi]
    exact or_right_comm
  | commit hi =>
    rw [Handed, Handed, exists_set hi, exists_mem_iff hi, Session.afterCommit_handed]
    simp [published]

theorem ProcessAssessment.Verdict.of_step {v : AssessmentOutcome}
    (hs : core.Step threshold a core') (hv : Verdict core' v) :
    Verdict core v ∨ ∃ now, a = .start (.process v) now := by
  obtain ⟨s, hm, hc⟩ := hv
  cases hs with
  | start call now =>
    rcases List.mem_append.mp hm with hm | hm
    · exact Or.inl ⟨s, hm, hc⟩
    · obtain rfl := List.mem_singleton.mp hm
      exact Or.inr ⟨now, by rw [← hc]; rfl⟩
  | perform hi hl =>
    rcases mem_set_cases hm with rfl | ⟨j, -, hj⟩
    · exact Or.inl ⟨_, List.mem_of_getElem? hi, hl.call_eq ▸ hc⟩
    · exact Or.inl ⟨s, List.mem_of_getElem? hj, hc⟩
  | commit hi =>
    rcases mem_set_cases hm with rfl | ⟨j, -, hj⟩
    · exact Or.inl ⟨_, List.mem_of_getElem? hi, Session.afterCommit_call ▸ hc⟩
    · exact Or.inl ⟨s, List.mem_of_getElem? hj, hc⟩

end OrderCore

open OrderCore (Core Session Handed)

/-- Core and the llm service, as they are wired. -/
structure OrderSystem where
  threshold : ℤ
  lax : Lax
  llm : Llm.AssessService

namespace OrderSystem

/-- The state of core, the queues of the llm service, and the results that core has
acknowledged. -/
structure State (sys : OrderSystem) where
  core : Core := { tables := {} }
  llm : WorkQueue.World sys.llm.service := {}
  acked : List Json := []

inductive Action where
  | parseResults (body : Json) (now : ℕ)
  | assessResults (body : Json) (now : ℕ)
  | relay (batchSize now : ℕ)
  | perform (i : ℕ) (move : OrderCore.Move) (arrived : Bool)
  | commit (i : ℕ) (acknowledged : Bool)
  | ack (i : ℕ) (body : Json)
  | assess (a : WorkQueue.Action Json Llm.Answers)

/-- The verdict that core reads from a result. -/
def readVerdict (lax : Lax) (body : Json) : Validated OrderCore.AssessmentOutcome :=
  match OrderCore.Schemas.AssessmentResultMessage.validate lax body with
  | .ok message => OrderCore.toAssessmentOutcome message
  | .errors paths => .errors paths

/-- The request that arrives with a step of core; a failed publication may have arrived. -/
def request (core : Core) (a : OrderCore.Action) (arrived : Bool) : Option Json :=
  (OrderCore.published core a).bind fun (event, confirmed) =>
    if event.destination = OrderCore.OutboxDestination.assessRequest.value ∧
        (confirmed || arrived) = true then
      some event.payload
    else none

variable (sys : OrderSystem)

def results (st : sys.State) : List Json :=
  (sys.llm.contents st.llm sys.llm.settings.resultQueue).diff st.acked

def coreStep (st : sys.State) (a : OrderCore.Action) (arrived : Bool) : Option sys.State :=
  (st.core.step sys.threshold a).bind fun core =>
    match request st.core a arrived with
    | none => some { st with core }
    | some payload => (sys.llm.service.step st.llm (.post payload)).map fun llm =>
        { st with core, llm }

def handled (s : Session) (body : Json) : Bool :=
  match s.call, s.prog with
  | .process v, .ret => readVerdict sys.lax body = .ok v
  | _, _ => false

/--
A message that cannot be read starts no session. A result waits until it is acknowledged,
so it may be handed to core again and again.
-/
def step (st : sys.State) : Action → Option sys.State
  | .parseResults body now =>
    match OrderCore.Schemas.ParseResultMessage.validate sys.lax body with
    | .ok message =>
      sys.coreStep st (.start (.ingest (OrderCore.toIncomingOrders message)) now) false
    | .errors _ => none
  | .assessResults body now =>
    if body ∈ sys.results st then
      match readVerdict sys.lax body with
      | .ok v => sys.coreStep st (.start (.process v) now) false
      | .errors _ => none
    else none
  | .relay batchSize now => sys.coreStep st (.start (.relay batchSize) now) false
  | .perform i move arrived => sys.coreStep st (.perform i move) arrived
  | .commit i acknowledged => sys.coreStep st (.commit i acknowledged) false
  | .ack i body =>
    if body ∈ sys.results st ∧ st.core.sessions[i]?.any (sys.handled · body) = true then
      some { st with acked := st.acked ++ [body] }
    else none
  | .assess (.post _) => none
  | .assess a => (sys.llm.service.step st.llm a).map fun llm => { st with llm }

/-- What a step of core needs: batches come from messages, verdicts from waiting results. -/
def Fed (st : sys.State) : OrderCore.Action → Prop
  | .start (.ingest batch) _ => ∃ message, batch = OrderCore.toIncomingOrders message
  | .start (.process v) _ => ∃ body ∈ sys.results st, readVerdict sys.lax body = .ok v
  | a => a.service = true

/-- A step of core with or without a request, a step of the queues, or an acknowledgement. -/
inductive Step (st : sys.State) : sys.State → Prop
  | core {a : OrderCore.Action} {arrived : Bool} {core : Core} (ha : sys.Fed st a)
      (hs : st.core.step sys.threshold a = some core) (hr : request st.core a arrived = none) :
      Step st { st with core }
  | requested {a : OrderCore.Action} {arrived : Bool} {core : Core} {payload : Json}
      {llm : WorkQueue.World sys.llm.service} (ha : sys.Fed st a)
      (hs : st.core.step sys.threshold a = some core)
      (hr : request st.core a arrived = some payload)
      (hl : sys.llm.service.step st.llm (.post payload) = some llm) :
      Step st { st with core, llm }
  | acked {s : Session} {body : Json} {v : OrderCore.AssessmentOutcome}
      (hs : s ∈ st.core.sessions) (hc : s.call = .process v) (hp : s.prog = .ret)
      (hv : readVerdict sys.lax body = .ok v) : Step st { st with acked := st.acked ++ [body] }
  | assess {a : WorkQueue.Action Json Llm.Answers} {llm : WorkQueue.World sys.llm.service}
      (ha : ∀ body, a ≠ .post body) (hl : sys.llm.service.step st.llm a = some llm) :
      Step st { st with llm }

variable {sys} {st st' : sys.State}

theorem coreStep_cases {a : OrderCore.Action} {arrived : Bool}
    (h : sys.coreStep st a arrived = some st') (ha : sys.Fed st a) : sys.Step st st' := by
  obtain ⟨core, hs, h⟩ := Option.bind_eq_some_iff.mp h
  split at h
  · obtain rfl := Option.some.inj h
    exact .core ha hs ‹_›
  · obtain ⟨llm, hl, rfl⟩ := Option.map_eq_some_iff.mp h
    exact .requested ha hs ‹_› hl

theorem handled_iff {s : Session} {body : Json} : sys.handled s body = true ↔
    ∃ v, s.call = .process v ∧ s.prog = .ret ∧ readVerdict sys.lax body = .ok v := by
  unfold handled
  split
  · rename_i v hc hp
    simp [hc, hp]
  · rename_i hne
    simp only [Bool.false_eq_true, false_iff]
    rintro ⟨v, hc, hp, -⟩
    exact hne v hc hp

theorem step_cases {a : Action} (h : sys.step st a = some st') : sys.Step st st' := by
  cases a with
  | parseResults body now =>
    simp only [step] at h
    split at h
    · rename_i message hv
      exact coreStep_cases h ⟨message, rfl⟩
    · cases h
  | assessResults body now =>
    simp only [step] at h
    split at h
    · split at h
      · exact coreStep_cases h ⟨body, ‹_›, ‹_›⟩
      · cases h
    · cases h
  | relay batchSize now =>
    have h : sys.coreStep st (.start (.relay batchSize) now) false = some st' := h
    exact coreStep_cases h rfl
  | perform i move arrived => exact coreStep_cases h rfl
  | commit i acknowledged =>
    have h : sys.coreStep st (.commit i acknowledged) false = some st' := h
    exact coreStep_cases h rfl
  | ack i body =>
    simp only [step] at h
    split at h
    · rename_i hb
      obtain rfl := Option.some.inj h
      obtain ⟨s, hs, hh⟩ := (Option.any_eq_true _ _).mp hb.2
      obtain ⟨v, hc, hp, hv⟩ := handled_iff.mp hh
      exact .acked (List.mem_of_getElem? hs) hc hp hv
    · cases h
  | assess a =>
    cases a with
    | post body => cases h
    | deliver | proceed | settle | disconnect | orphanProceed | expire =>
      obtain ⟨llm, hl, rfl⟩ := Option.map_eq_some_iff.mp h
      exact .assess (fun _ hne => by cases hne) hl

open OrderCore (OutboxDestination Decided toIncomingOrders notificationPayload)
open OrderCore.ProcessAssessment (Verdict Answered Answers Answering Standing)

/-- Both parts run as they would alone, and each side of the queues knows what passed. -/
structure Linked (st : sys.State) : Prop where
  core : Reach (Core.step sys.threshold) (Answered sys.llm.lax) { tables := {} } st.core
  llm : Reach sys.llm.service.step (fun _ _ => True) {} st.llm
  posted : ∀ body ∈ st.llm.posted, ∃ event confirmed, Handed st.core (event, confirmed) ∧
    event.destination = OutboxDestination.assessRequest.value ∧ event.payload = body
  handed : ∀ event, Handed st.core (event, true) →
    event.destination = OutboxDestination.assessRequest.value → event.payload ∈ st.llm.posted
  read : ∀ v, Verdict st.core v → ∃ body,
    (sys.llm.settings.resultQueue, body) ∈ st.llm.stored ∧ readVerdict sys.lax body = .ok v
  acked : ∀ body ∈ st.acked, ∃ v, readVerdict sys.lax body = .ok v ∧
    Decided st.core.tables (OrderCore.ProcessAssessment.key v)

theorem Linked.standing (hl : sys.Linked st) : Standing sys.threshold st.core :=
  Standing.of_reach (hl.core.mono fun _ _ => Answered.service)

theorem Linked.answering (hl : sys.Linked st) : Answering sys.threshold st.core := by
  have hinit : Answering sys.threshold { tables := {} } :=
    ⟨.init, .init (by simp) (by simp), by simp, by simp⟩
  exact hl.core.invariant hinit fun _ _ _ _ hi ha hs => hi.step ha (Core.step_cases hs)

theorem mem_stored_of_results {body : Json} (h : body ∈ sys.results st) :
    (sys.llm.settings.resultQueue, body) ∈ st.llm.stored := by
  obtain ⟨⟨queue, body'⟩, hp, rfl⟩ := List.mem_map.mp ((List.diff_subset _ _) h)
  obtain ⟨hmem, hq⟩ := List.mem_filter.mp hp
  obtain rfl := of_decide_eq_true hq
  exact hmem

/-- A delivery of the llm service has recommended the order by this result. -/
structure Recommended (st : sys.State) (order : Llm.Schemas.Order) (listing : Llm.Listing)
    (assessment : Llm.Assessment) (body : Json) : Prop where
  delivered : ∃ d ∈ st.llm.deliveries, sys.llm.Recommends d order listing assessment
  body_eq : body = Llm.resultOf listing assessment

/-- A result is on an order of a request that core has handed over. -/
theorem Linked.result_origin (hl : sys.Linked st) {body : Json}
    (hb : (sys.llm.settings.resultQueue, body) ∈ st.llm.stored) :
    ∃ event confirmed message order listing assessment, Handed st.core (event, confirmed) ∧
      event.destination = OutboxDestination.assessRequest.value ∧
      Llm.Schemas.ParseResultMessage.validate sys.llm.lax event.payload = .ok message ∧
      order ∈ message.orders ∧ Recommended st order listing assessment body := by
  obtain ⟨d, hd, order, listing, assessment, hrec, hbody⟩ :=
    Llm.AssessService.recommends_of_result hl.llm hb
  obtain ⟨root, hroot, hpart⟩ := Llm.AssessService.part_of_delivery hl.llm hd
  obtain ⟨event, confirmed, hh, hdest, rfl⟩ := hl.posted root hroot
  obtain ⟨message, n, hv, ho, -⟩ := hrec.suits
  obtain ⟨message', orders, hv', hsub, rfl⟩ := hpart.validate hv
  exact ⟨event, confirmed, message', order, listing, assessment, hh, hdest, hv',
    hsub.subset (List.fst_mem_of_mem_zipIdx ho), ⟨d, hd, hrec⟩, hbody⟩

theorem readVerdict_dump (lax : Lax) (listing : Llm.Listing) (assessment : Llm.Assessment) :
    ∃ v, readVerdict lax (Llm.resultOf listing assessment) = .ok v ∧ v.orderId = listing.id ∧
      v.suitabilityScore = assessment.suitabilityScore ∧ notificationPayload v.notification =
        (Llm.Schemas.NotificationMessage.fromCommand
          (Llm.buildNotification listing assessment)).dump := by
  have hread := @validate_resultDump lax
    (Llm.Schemas.AssessmentResultMessage.fromResult (Llm.buildResult listing assessment))
  obtain ⟨v, hv, hid, hscore, hpay⟩ := OrderCore.toAssessmentOutcome_ok
    ⟨listing.id, assessment.suitabilityScore, Llm.Schemas.NotificationMessage.fromCommand
      (Llm.buildNotification listing assessment)⟩ assessment.score_nonneg assessment.score_le
  refine ⟨v, ?_, hid, hscore, hpay⟩
  rw [readVerdict, Llm.resultOf, hread]
  exact hv

theorem Linked.answers (hl : sys.Linked st) {body : Json} {v : OrderCore.AssessmentOutcome}
    (hb : (sys.llm.settings.resultQueue, body) ∈ st.llm.stored)
    (hv : readVerdict sys.lax body = .ok v) : Answers sys.llm.lax st.core v := by
  obtain ⟨event, confirmed, message, order, listing, assessment, ⟨s, hs, hh⟩, hd, hm, ho, hrec⟩ :=
    hl.result_origin hb
  obtain ⟨v', hv', hid, -⟩ := readVerdict_dump sys.lax listing assessment
  obtain ⟨d, -, hd'⟩ := hrec.delivered
  rw [hrec.body_eq, hv'] at hv
  obtain rfl := Validated.ok.inj hv
  exact ⟨s, hs, _, hh, hd, message, hm, order, ho, listing, assessment, hd'.listed, hid⟩

theorem Linked.answered (hl : sys.Linked st) {a : OrderCore.Action} (ha : sys.Fed st a) :
    Answered sys.llm.lax st.core a := by
  cases a with
  | start call now =>
    cases call with
    | ingest batch => exact ha
    | process v =>
      obtain ⟨body, hb, hv⟩ := ha
      exact hl.answers (mem_stored_of_results hb) hv
    | relay batchSize => exact ha
    | producer prog => exact ha
  | perform i move => exact ha
  | commit i acknowledged => exact ha

theorem request_eq_some {core : Core} {a : OrderCore.Action} {arrived : Bool} {payload : Json}
    (h : request core a arrived = some payload) : ∃ event confirmed,
      OrderCore.published core a = some (event, confirmed) ∧
      event.destination = OutboxDestination.assessRequest.value ∧ event.payload = payload := by
  obtain ⟨⟨event, confirmed⟩, hp, h⟩ := Option.bind_eq_some_iff.mp h
  simp only at h
  split at h
  · rename_i hd
    exact ⟨event, confirmed, hp, hd.1, Option.some.inj h⟩
  · cases h

theorem request_of_confirmed {core : Core} {a : OrderCore.Action} {arrived : Bool}
    {event : OrderCore.PendingEvent} (h : OrderCore.published core a = some (event, true))
    (hd : event.destination = OutboxDestination.assessRequest.value) :
    request core a arrived = some event.payload := by
  simp only [request, h, Option.bind_some, hd, Bool.true_or, and_self, if_true]

theorem final_resultQueue : sys.llm.service.Final sys.llm.settings.resultQueue := by
  obtain ⟨hmain, -, hretry⟩ := sys.llm.settings.resultQueue_ne
  refine ⟨hmain, Bool.eq_false_iff.mpr fun he => hretry ?_⟩
  exact sys.llm.settings.expires_iff.mp he

/-- A step of core, with what it brings to the queues. -/
theorem Linked.of_core {a : OrderCore.Action} {arrived : Bool} {core : Core}
    {llm : WorkQueue.World sys.llm.service} (hl : sys.Linked st) (ha : sys.Fed st a)
    (hs : st.core.step sys.threshold a = some core)
    (hllm : Reach sys.llm.service.step (fun _ _ => True) {} llm)
    (hposted : llm.posted = st.llm.posted ++ (request st.core a arrived).toList)
    (hstored : ∀ p ∈ st.llm.stored, p ∈ llm.stored) :
    sys.Linked { st with core, llm } := by
  have hstep := Core.step_cases hs
  refine ⟨hl.core.tail (hl.answered ha) hs, hllm, ?_, ?_, ?_, ?_⟩
  · rintro body hb
    rw [hposted] at hb
    rcases List.mem_append.mp hb with hb | hb
    · obtain ⟨event, confirmed, hh, hd, hp⟩ := hl.posted body hb
      exact ⟨event, confirmed, hstep.handed_iff.mpr (Or.inl hh), hd, hp⟩
    · obtain ⟨event, confirmed, hp, hd, hpay⟩ := request_eq_some (Option.mem_toList.mp hb)
      exact ⟨event, confirmed, hstep.handed_iff.mpr (Or.inr hp), hd, hpay⟩
  · rintro event hh hd
    rw [hposted]
    rcases hstep.handed_iff.mp hh with hh | hp
    · exact List.mem_append_left _ (hl.handed event hh hd)
    · rw [request_of_confirmed hp hd]
      exact List.mem_append_right _ (List.mem_singleton.mpr rfl)
  · rintro v hv
    rcases hv.of_step hstep with hv | ⟨now, rfl⟩
    · obtain ⟨body, hb, hread⟩ := hl.read v hv
      exact ⟨body, hstored _ hb, hread⟩
    · obtain ⟨body, hb, hread⟩ := ha
      exact ⟨body, hstored _ (mem_stored_of_results hb), hread⟩
  · rintro body hb
    obtain ⟨v, hread, hdec⟩ := hl.acked body hb
    exact ⟨v, hread, hl.standing.decided_step hstep hdec⟩

theorem Linked.step (hl : sys.Linked st) (h : sys.Step st st') : sys.Linked st' := by
  cases h with
  | core ha hs hr => exact hl.of_core ha hs hl.llm (by rw [hr]; simp) fun _ hp => hp
  | @requested a arrived core payload llm ha hs hr hllm =>
    obtain rfl := Option.some.inj hllm
    refine hl.of_core ha hs (hl.llm.tail trivial hllm) (by rw [hr]; rfl) fun p hp => ?_
    exact List.mem_append_left _ hp
  | @acked s body v hs hc hp hv =>
    refine ⟨hl.core, hl.llm, hl.posted, hl.handed, hl.read, fun body' hb => ?_⟩
    rcases List.mem_append.mp hb with hb | hb
    · exact hl.acked body' hb
    · obtain rfl := List.mem_singleton.mp hb
      exact ⟨v, hv, ((hl.standing.acts s hs).stage hc).decided_of_returned hp⟩
  | @assess a llm ha hllm =>
    have hstep := WorkQueue.Service.step_cases hllm
    have hposted : llm.posted = st.llm.posted := by
      cases hstep with
      | posted => exact absurd rfl (ha _)
      | delivered | proceeded | settled | disconnected | orphanProceeded | expired => rfl
    refine ⟨hl.core, hl.llm.tail trivial hllm, ?_, ?_, ?_, hl.acked⟩
    · rw [hposted]
      exact hl.posted
    · rw [hposted]
      exact hl.handed
    · rintro v hv
      obtain ⟨body, hb, hread⟩ := hl.read v hv
      exact ⟨body, hstep.final hb final_resultQueue, hread⟩

theorem Linked.of_reach {allowed : sys.State → Action → Prop} (h : Reach sys.step allowed {} st) :
    sys.Linked st := by
  have hinit : sys.Linked {} := by
    refine ⟨.refl, .refl, by rintro body ⟨⟩, ?_, ?_, by rintro body ⟨⟩⟩
    · rintro event ⟨s, hs, -⟩
      cases hs
    · rintro v ⟨s, hs, -⟩
      cases hs
  exact h.invariant hinit fun _ _ _ _ hl _ hs => hl.step (step_cases hs)

end OrderSystem

end ProfiNotifications
