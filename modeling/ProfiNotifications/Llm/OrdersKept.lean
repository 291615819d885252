import ProfiNotifications.Llm.Queues

/-! # No order is lost between the queues

An order that was posted for assessment is in the input queue, in the retry queue, in
the dead letter queue or in hand, unless its processing has ended and its envelope was
acknowledged. This holds with multiplicities, for any answers of the assessor and of the
publishers, and for any lost connections.
-/

namespace ProfiNotifications.Llm.AssessService

open Schemas Selection Transition WorkQueue

variable (s : AssessService)

def contents (w : World s.service) (queue : String) : List Json :=
  (w.stored.filter fun p => p.1 = queue).map Prod.snd

def occurrences (order : Order) (bodies : List Json) : ℕ :=
  (bodies.map fun body => (s.ordersOf body).count order).sum

/-- The orders of an envelope whose processing ends for good, with a result or without. -/
def concluded (answers : Answers) (body : Json) : List Order :=
  match ParseResultMessage.validate s.lax body with
  | .ok message => marked (fun p => !s.uc.retries answers p.2) message.orders.zipIdx
  | .errors _ => []

/--
The copies of an order in the input queue, the retry queue and the dead letter queue, in
hand, and concluded by an acknowledged envelope.
-/
def accountedFor (w : World s.service) (order : Order) : ℕ :=
  s.occurrences order (s.contents w s.settings.inputQueue) +
    s.occurrences order (s.contents w s.settings.retryQueue) +
    s.occurrences order (s.contents w s.settings.dlq) +
    s.occurrences order (w.inFlight.map Delivery.message) +
    ((w.settled.filter fun d => d.settlement = .acked).map fun d =>
      (s.concluded d.answers d.message).count order).sum

/-- A retry message of this delivery has arrived. -/
def passedOn (d : Delivery s.service) : Bool :=
  d.performed.any fun c => (s.emits c.1 c.2).any fun p => p.1 = s.settings.retryQueue

/-- The copies of an order that a delivery answers for: all, or those it has not passed on. -/
def orderWeights (order : Order) : Weights s.service where
  stored p :=
    if p.1 ∈ [s.settings.inputQueue, s.settings.retryQueue, s.settings.dlq] then
      (s.ordersOf p.2).count order
    else 0
  held d :=
    if s.passedOn d then (s.concluded d.answers d.message).count order
    else (s.ordersOf d.message).count order
  settled d :=
    match d.settlement with
    | .acked => (s.concluded d.answers d.message).count order
    | .rejected => 0

variable {s} {order : Order} {answers : Answers} {body : Json} {message : ParseResultMessage}

theorem concluded_of_ok (h : ParseResultMessage.validate s.lax body = .ok message) :
    s.concluded answers body =
      marked (fun p => !s.uc.retries answers p.2) message.orders.zipIdx := by
  unfold concluded
  rw [h]

theorem count_concluded (h : ParseResultMessage.validate s.lax body = .ok message) :
    (s.uc.retried answers message).count order + (s.concluded answers body).count order =
      (s.ordersOf body).count order := by
  rw [concluded_of_ok h, ordersOf_of_ok h, AssessOrders.retried, count_marked_add,
    List.zipIdx_map_fst]

theorem concluded_le (answers : Answers) (body : Json) :
    (s.concluded answers body).count order ≤ (s.ordersOf body).count order := by
  cases hv : ParseResultMessage.validate s.lax body with
  | errors errs => simp [concluded, hv]
  | ok message =>
    have hcount : (s.uc.retried answers message).count order +
      (s.concluded answers body).count order = (s.ordersOf body).count order := count_concluded hv
    omega

theorem count_le_resent (h : ParseResultMessage.validate s.lax body = .ok message) :
    (s.ordersOf body).count order ≤
      (s.concluded answers body).count order + (s.uc.resent answers message).count order := by
  have hsub : (s.uc.retried answers message).count order ≤
      (s.uc.resent answers message).count order := marked_sublist_reselected.count_le order
  have hcount : (s.uc.retried answers message).count order +
    (s.concluded answers body).count order = (s.ordersOf body).count order := count_concluded h
  omega

theorem emitted_retryQueue {call : Call} {arrived : Bool} {body' : Json}
    (hcall : call ∈ (s.service.handle answers body).1)
    (h : (s.settings.retryQueue, body') ∈ s.emits call arrived) :
    ∃ message, ParseResultMessage.validate s.lax body = .ok message ∧
      s.ordersOf body' = s.uc.resent answers message := by
  rcases emits_cases (s := s) call arrived with hnone | ⟨p, answer, hp, hone⟩
  · rw [hnone] at h
    cases h
  · rw [hone] at h
    obtain rfl := List.mem_singleton.mp h
    obtain rfl := publication_retryQueue hp
    rcases s.handle_cases answers body with ⟨-, hhandle⟩ | ⟨message, hv, hlog, -⟩
    · rw [hhandle] at hcall
      cases hcall
    · rw [hlog] at hcall
      obtain ⟨listings, hlistings⟩ := AssessOrders.listed_of_log hcall
      obtain ⟨-, -, rfl⟩ := (AssessOrders.retry_mem_log hlistings).mp hcall
      exact ⟨message, hv, ordersOf_dump _⟩

theorem result_of_acked {d : Delivery s.service} (hacked : d.settlement = .acked)
    (hv : ParseResultMessage.validate s.lax d.message = .ok message) :
    (s.service.handle d.answers d.message).1 =
        (s.uc.onAssessRequests d.answers message).log ∧
      (s.uc.onAssessRequests d.answers message).result = .ok () := by
  rcases s.handle_cases d.answers d.message with ⟨-, hhandle⟩ | ⟨message', hv', hlog, hack⟩
  · have hset : d.settlement = .rejected := congrArg Prod.snd hhandle
    rw [hset] at hacked
    cases hacked
  · obtain rfl : message = message' := Validated.ok.inj (hv.symm.trans hv')
    exact ⟨hlog, hack.mp hacked⟩

theorem passedOn_of_acked {d : Delivery s.service} (hdone : d.pending = [])
    (hacked : d.settlement = .acked)
    (hv : ParseResultMessage.validate s.lax d.message = .ok message)
    (hr : s.uc.retried d.answers message ≠ []) : s.passedOn d = true := by
  have hcalls := Delivery.performed_of_done hdone
  obtain ⟨hlog, hresult⟩ := result_of_acked hacked hv
  obtain ⟨listings, hlistings⟩ := AssessOrders.listed_of_ok hresult
  rw [AssessOrders.onAssessRequests_eq hlistings, if_neg hr] at hresult
  have hretry : d.answers.retry = .ok () := hresult
  have hmem : Call.retry _ d.answers.retry ∈ (s.service.handle d.answers d.message).1 :=
    hlog ▸ (AssessOrders.retry_mem_log hlistings).mpr ⟨hr, rfl, rfl⟩
  rw [← hcalls, hretry] at hmem
  obtain ⟨c, hc, hcall⟩ := List.mem_map.mp hmem
  refine List.any_eq_true.mpr ⟨c, hc, ?_⟩
  rw [hcall]
  simp [emits, publication]

theorem passedOn_perform {d d' : Delivery s.service} {arrived : Bool}
    {emitted : List (String × Json)} (h : d.perform arrived = some (d', emitted)) :
    s.passedOn d' = (s.passedOn d || emitted.any fun p => p.1 = s.settings.retryQueue) := by
  obtain ⟨t, -, -, -, hperformed, rfl⟩ := Delivery.perform_eq_some h
  rw [passedOn, hperformed, List.any_append, passedOn, List.any_cons, List.any_nil, Bool.or_false]
  rfl

theorem stored_orderWeights {queue : String}
    (hq : queue ∈ [s.settings.inputQueue, s.settings.retryQueue, s.settings.dlq]) (body : Json) :
    (s.orderWeights order).stored (queue, body) = (s.ordersOf body).count order :=
  if_pos hq

theorem held_orderWeights_le (d : Delivery s.service) :
    (s.orderWeights order).held d ≤ (s.ordersOf d.message).count order := by
  simp only [orderWeights]
  split
  · exact concluded_le d.answers d.message
  · exact le_rfl

theorem orderWeights_kept (s : AssessService) (order : Order) : (s.orderWeights order).Kept := by
  constructor
  · rintro body answers
    exact (stored_orderWeights List.mem_cons_self body).le
  · rintro d d' arrived emitted hd
    obtain ⟨t, hpending, hmessage, hanswers, -, rfl⟩ := Delivery.perform_eq_some hd
    have ht : t ∈ (s.service.handle d.answers d.message).1 :=
      Delivery.mem_calls_of_pending (hpending ▸ List.mem_cons_self)
    have hpassed : s.passedOn d' = (s.passedOn d ||
      (s.emits t arrived).any fun p => p.1 = s.settings.retryQueue) := passedOn_perform hd
    cases hany : (s.emits t arrived).any fun p => p.1 = s.settings.retryQueue with
    | false =>
      rw [hany, Bool.or_false] at hpassed
      have hsame : (s.orderWeights order).held d' = (s.orderWeights order).held d := by
        simp only [orderWeights, hpassed, hmessage, hanswers]
      omega
    | true =>
      -- the copies that are not concluded are now in the retry queue
      obtain ⟨p, hp, hq⟩ := List.any_eq_true.mp hany
      obtain ⟨queue, body'⟩ := p
      obtain rfl : queue = s.settings.retryQueue := of_decide_eq_true hq
      obtain ⟨message, hv, horders⟩ := emitted_retryQueue ht hp
      have hretry : s.settings.retryQueue ∈
        [s.settings.inputQueue, s.settings.retryQueue, s.settings.dlq] := by simp
      have hemitted : (s.uc.resent d.answers message).count order ≤
          (s.orderWeights order).ofStored (s.service.emits t arrived) := by
        rw [← horders, ← stored_orderWeights hretry body']
        exact List.single_le_sum (by simp) _ (List.mem_map_of_mem hp)
      have hd' : (s.orderWeights order).held d' =
          (s.concluded d.answers d.message).count order := by
        rw [hany, Bool.or_true] at hpassed
        simp only [orderWeights, hpassed, hmessage, hanswers, if_true]
      have hresent : (s.ordersOf d.message).count order ≤
        (s.concluded d.answers d.message).count order +
          (s.uc.resent d.answers message).count order := count_le_resent hv
      have hd : (s.orderWeights order).held d ≤ (s.ordersOf d.message).count order :=
        held_orderWeights_le d
      omega
  · rintro d hdone
    cases hset : d.settlement with
    | rejected =>
      have hleft : d.leftover = [(s.settings.dlq, d.message)] := by
        unfold Delivery.leftover
        rw [hset]
        simp [Service.deadLettered, service]
      have hd : (s.orderWeights order).held d ≤ (s.ordersOf d.message).count order :=
        held_orderWeights_le d
      rw [hleft, Weights.ofStored_cons, stored_orderWeights (by simp)]
      omega
    | acked =>
      have hsettled : (s.orderWeights order).settled d =
          (s.concluded d.answers d.message).count order := by
        simp only [orderWeights, hset]
      refine Nat.le_add_right_of_le ?_
      rw [hsettled]
      cases hpassed : s.passedOn d with
      | true => simp [orderWeights, hpassed]
      | false =>
        rcases s.handle_cases d.answers d.message with ⟨hnone, -⟩ | ⟨message, hv, -, -⟩
        · simp [orderWeights, hpassed, hnone]
        · have hr : s.uc.retried d.answers message = [] := by
            by_contra hr
            rw [passedOn_of_acked hdone hset hv hr] at hpassed
            cases hpassed
          have hcount : (s.uc.retried d.answers message).count order +
            (s.concluded d.answers d.message).count order =
              (s.ordersOf d.message).count order := count_concluded hv
          rw [hr, List.count_nil, Nat.zero_add] at hcount
          simp [orderWeights, hpassed, hcount]
  · rintro d
    exact (held_orderWeights_le d).trans_eq
      (stored_orderWeights List.mem_cons_self d.message).symm
  · rintro queue body he
    obtain rfl := s.settings.expires_iff.mp he
    have hback : s.service.deadLettered s.settings.retryQueue body =
        [(s.settings.inputQueue, body)] := by
      simp [Service.deadLettered, service]
    rw [hback, Weights.ofStored_cons, stored_orderWeights (by simp),
      stored_orderWeights List.mem_cons_self]
    exact Nat.le_add_right _ _

variable {w : World s.service} {allowed : World s.service → Action Json Answers → Prop}

theorem ofStored_orderWeights (messages : List (String × Json)) :
    (s.orderWeights order).ofStored messages =
      s.occurrences order ((messages.filter fun p => p.1 = s.settings.inputQueue).map Prod.snd) +
      s.occurrences order ((messages.filter fun p => p.1 = s.settings.retryQueue).map Prod.snd) +
      s.occurrences order ((messages.filter fun p => p.1 = s.settings.dlq).map Prod.snd) := by
  have hretry := s.settings.retryQueue_ne
  have hdlq := s.settings.dlq_ne
  have hne := s.settings.retryQueue_ne_dlq
  induction messages with
  | nil => rfl
  | cons p messages ih =>
    have hcons : ∀ queue, s.occurrences order
        (((p :: messages).filter fun p => p.1 = queue).map Prod.snd) =
          (if p.1 = queue then (s.ordersOf p.2).count order else 0) +
            s.occurrences order ((messages.filter fun p => p.1 = queue).map Prod.snd) := by
      intro queue
      by_cases hq : p.1 = queue <;> simp [occurrences, hq]
    have hstored : (s.orderWeights order).stored p =
        (if p.1 = s.settings.inputQueue then (s.ordersOf p.2).count order else 0) +
          (if p.1 = s.settings.retryQueue then (s.ordersOf p.2).count order else 0) +
            (if p.1 = s.settings.dlq then (s.ordersOf p.2).count order else 0) := by
      simp only [orderWeights, List.mem_cons, List.not_mem_nil, or_false]
      by_cases hmain : p.1 = s.settings.inputQueue
      · simp [hmain, hretry.symm, hdlq.symm]
      · by_cases hr : p.1 = s.settings.retryQueue
        · simp [hr, hretry, hne]
        · simp [hmain, hr]
    rw [Weights.ofStored_cons, hcons, hcons, hcons, hstored, ih]
    omega

theorem suits_of_published {n : ℕ} (h : s.uc.ended answers n = .published) :
    ∃ assessment, s.uc.Suits answers n assessment ∧ answers.publish n = .ok () := by
  unfold AssessOrders.ended at h
  split at h
  · cases h
  · rename_i assessment ha
    split at h
    · rename_i hd
      refine ⟨assessment, ⟨ha, hd⟩, ?_⟩
      split at h
      · assumption
      · cases h
    · cases h

variable (s) in
/--
The delivery has recommended an order of its envelope: the assessment that it was given
for the order suits, and it has published the result.
-/
structure Recommends (d : Delivery s.service) (order : Order) (listing : Listing)
    (assessment : Assessment) : Prop where
  listed : orderToListing order = .ok listing
  suits : ∃ message n, ParseResultMessage.validate s.lax d.message = .ok message ∧
    (order, n) ∈ message.orders.zipIdx ∧ s.uc.Suits d.answers n assessment
  published : ∃ c ∈ d.performed, ∃ answer, c.1 = .publish (resultOf listing assessment) answer

theorem Recommends.assessed {d : Delivery s.service} {listing : Listing} {assessment : Assessment}
    (h : s.Recommends d order listing assessment) : assessment.unsupportedHits = [] ∧
      assessment.isRejectedType = false ∧ s.uc.threshold ≤ assessment.suitabilityScore := by
  obtain ⟨message, n, -, -, hs⟩ := h.suits
  exact Assessment.notify_decide.mp hs.2

theorem published_stored (h : Reach s.service.step allowed {} w) {d : Delivery s.service}
    (hd : d ∈ w.settled) (hv : ParseResultMessage.validate s.lax d.message = .ok message)
    (hread : d.settlement = .acked ∨ ∀ order ∈ message.orders, PriceReadable order)
    {p : Order × ℕ} (hp : p ∈ message.orders.zipIdx)
    (hended : s.uc.ended d.answers p.2 = .published) :
    ∃ listing assessment, s.Recommends d p.1 listing assessment ∧
      s.uc.Suits d.answers p.2 assessment ∧
      (s.settings.resultQueue, resultOf listing assessment) ∈ w.stored := by
  have htraced := Service.traced h
  have hcalls := Delivery.performed_of_done (htraced.done d hd)
  obtain ⟨assessment, hs, hpublish⟩ := suits_of_published hended
  obtain ⟨listings, hlistings⟩ : ∃ listings, message.orders.mapM orderToListing = .ok listings := by
    rcases hread with hacked | hread
    · exact AssessOrders.listed_of_ok (result_of_acked hacked hv).2
    · exact AssessOrders.readable_iff.mpr hread
  obtain ⟨listing, before, after, hlisting, hlog, -⟩ :=
    AssessOrders.published_of_suits hlistings hp hs hpublish
  rcases s.handle_cases d.answers d.message with ⟨hnone, -⟩ | ⟨message', hv', hlog', -⟩
  · rw [ordersOf_of_ok hv] at hnone
    rw [hnone] at hp
    cases hp
  · obtain rfl : message = message' := Validated.ok.inj (hv.symm.trans hv')
    have hmem : .publish (resultOf listing assessment) (.ok ()) ∈ d.performed.map Prod.fst := by
      rw [hcalls, hlog', hlog]
      simp [resultOf]
    obtain ⟨c, hc, hcall⟩ := List.mem_map.mp hmem
    refine ⟨listing, assessment, ⟨hlisting, ⟨message, p.2, hv, hp, hs⟩, c, hc, _, hcall⟩, hs, ?_⟩
    refine htraced.arrived d (World.mem_deliveries.mpr (Or.inr (Or.inr hd))) c hc _ ?_ ?_
    · rw [hcall]
      exact List.mem_singleton.mpr rfl
    · obtain ⟨hmain, -, hretry⟩ := s.settings.resultQueue_ne
      refine ⟨hmain, Bool.eq_false_iff.mpr fun he => hretry ?_⟩
      exact s.settings.expires_iff.mp he

/-- No copy of an order that was posted is lost. -/
theorem posted_le_accountedFor (h : Reach s.service.step allowed {} w) (order : Order) :
    s.occurrences order w.posted ≤ s.accountedFor w order := by
  have hkept := (s.orderWeights_kept order).posted_le h
  have hposted : (s.orderWeights order).ofPosted w = s.occurrences order w.posted := by
    have hmain : ∀ body, (s.orderWeights order).stored (s.service.main, body) =
      (s.ordersOf body).count order := stored_orderWeights List.mem_cons_self
    simp only [Weights.ofPosted, occurrences, hmain]
  have hheld : (w.inFlight.map (s.orderWeights order).held).sum ≤
      s.occurrences order (w.inFlight.map Delivery.message) := by
    rw [occurrences, List.map_map]
    exact List.sum_le_sum fun d _ => held_orderWeights_le d
  have hsettled : (w.settled.map (s.orderWeights order).settled).sum =
      ((w.settled.filter fun d => d.settlement = .acked).map fun d =>
        (s.concluded d.answers d.message).count order).sum := by
    induction w.settled with
    | nil => rfl
    | cons d ds ih =>
      rw [List.map_cons, List.sum_cons, ih, List.filter_cons]
      cases hset : d.settlement <;> simp [orderWeights, hset]
  have hstored := @ofStored_orderWeights s order w.stored
  simp only [Weights.total, hposted, hstored, hsettled] at hkept
  simp only [accountedFor, contents]
  omega

theorem occurrences_pos {bodies : List Json} :
    0 < s.occurrences order bodies ↔ ∃ body ∈ bodies, order ∈ s.ordersOf body := by
  simp only [occurrences, List.sum_pos_iff_exists_pos_nat, List.mem_map,
    exists_exists_and_eq_and, List.count_pos_iff]

theorem mem_contents {queue : String} : body ∈ s.contents w queue ↔ (queue, body) ∈ w.stored := by
  simp [contents]

variable (s) in
/-- The order is in a queue or in hand, or it was done with and no result was published. -/
inductive Held (w : World s.service) (order : Order) : Prop
  | queued {queue : String} {body : Json}
      (hq : queue ∈ [s.settings.inputQueue, s.settings.retryQueue, s.settings.dlq])
      (hb : (queue, body) ∈ w.stored) (ho : order ∈ s.ordersOf body)
  | inHand {d : Delivery s.service} (hd : d ∈ w.inFlight) (ho : order ∈ s.ordersOf d.message)
  | dismissed {d : Delivery s.service} {message : ParseResultMessage} {n : ℕ}
      (hd : d ∈ w.settled) (hacked : d.settlement = .acked)
      (hv : ParseResultMessage.validate s.lax d.message = .ok message)
      (ho : (order, n) ∈ message.orders.zipIdx) (hp : s.uc.ended d.answers n ≠ .published)
      (ht : s.uc.ended d.answers n ≠ .failed .transientError)

/-- An order of a posted envelope is held, or its result was published. -/
theorem held_or_published (h : Reach s.service.step allowed {} w) (hb : body ∈ w.posted)
    (ho : order ∈ s.ordersOf body) : s.Held w order ∨
      ∃ d ∈ w.settled, ∃ listing assessment, s.Recommends d order listing assessment ∧
        (s.settings.resultQueue, resultOf listing assessment) ∈ w.stored := by
  have hposted : 0 < s.accountedFor w order :=
    (occurrences_pos.mpr ⟨body, hb, ho⟩).trans_le (posted_le_accountedFor h order)
  have hqueue : ∀ queue ∈ [s.settings.inputQueue, s.settings.retryQueue, s.settings.dlq],
      0 < s.occurrences order (s.contents w queue) → s.Held w order := by
    rintro queue hq hpos
    obtain ⟨body', hb', ho'⟩ := occurrences_pos.mp hpos
    exact .queued hq (mem_contents.mp hb') ho'
  have hcases : 0 < s.occurrences order (s.contents w s.settings.inputQueue) ∨
      0 < s.occurrences order (s.contents w s.settings.retryQueue) ∨
      0 < s.occurrences order (s.contents w s.settings.dlq) ∨
      0 < s.occurrences order (w.inFlight.map Delivery.message) ∨
      0 < ((w.settled.filter fun d => d.settlement = .acked).map fun d =>
        (s.concluded d.answers d.message).count order).sum := by
    unfold accountedFor at hposted
    omega
  rcases hcases with hpos | hpos | hpos | hpos | hpos
  · exact Or.inl (hqueue _ (by simp) hpos)
  · exact Or.inl (hqueue _ (by simp) hpos)
  · exact Or.inl (hqueue _ (by simp) hpos)
  · obtain ⟨body', hb', ho'⟩ := occurrences_pos.mp hpos
    obtain ⟨d, hd, rfl⟩ := List.mem_map.mp hb'
    exact Or.inl (.inHand hd ho')
  · obtain ⟨n, hn, hcount⟩ := List.sum_pos_iff_exists_pos_nat.mp hpos
    obtain ⟨d, hd, rfl⟩ := List.mem_map.mp hn
    obtain ⟨hsettled, hacked⟩ := List.mem_filter.mp hd
    have hacked : d.settlement = .acked := of_decide_eq_true hacked
    have hmem : order ∈ s.concluded d.answers d.message := List.count_pos_iff.mp hcount
    cases hv : ParseResultMessage.validate s.lax d.message with
    | errors errs =>
      rw [concluded, hv] at hmem
      cases hmem
    | ok message =>
      rw [concluded_of_ok hv] at hmem
      obtain ⟨⟨order', n⟩, hp, hr, rfl⟩ := mem_marked.mp hmem
      by_cases hended : s.uc.ended d.answers n = .published
      · obtain ⟨listing, assessment, hrec, -, hres⟩ :=
          published_stored h hsettled hv (Or.inl hacked) hp hended
        exact Or.inr ⟨d, hsettled, listing, assessment, hrec, hres⟩
      · refine Or.inl (.dismissed hsettled hacked hv hp hended fun ht => ?_)
        simp [AssessOrders.retries, ht] at hr

/--
In every run, with any answers and any lost connections, as many copies of an order as
were posted are accounted for, or more; and a copy that was concluded by a publication,
in an envelope that was acknowledged or whose prices can all be read, has its result in
the result queue.
-/
theorem orders_kept (h : Reach s.service.step allowed {} w) (order : Order) :
    s.occurrences order w.posted ≤ s.accountedFor w order ∧
    ∀ d ∈ w.settled, ∀ message, ParseResultMessage.validate s.lax d.message = .ok message →
      (d.settlement = .acked ∨ ∀ order ∈ message.orders, PriceReadable order) →
      ∀ p ∈ message.orders.zipIdx, s.uc.ended d.answers p.2 = .published →
        ∃ listing assessment, s.Recommends d p.1 listing assessment ∧
          s.uc.Suits d.answers p.2 assessment ∧
          (s.settings.resultQueue, resultOf listing assessment) ∈ w.stored :=
  ⟨posted_le_accountedFor h order, fun _ hd _ hv hread _ hp hended =>
    published_stored h hd hv hread hp hended⟩

def deployed : AssessService where
  settings :=
    { prefetch_pos := by decide
      retryTtlMs_pos := by decide
      result_apart := by decide }
  uc := ⟨60⟩
  lax := .plain

def listed : ParseResultMessage where
  requestId := "r"
  orders := [{ id := "1", title := "t" }]

def rateLimited : Answers where
  assess _ := .error .transientError
  publish _ := .ok ()
  retry := .ok ()

def answered : Answers where
  assess _ := .ok AssessOrders.suitable
  publish _ := .ok ()
  retry := .ok ()

/-- The assessor is rate limited, the retry message expires, a channel is lost, and the
result is published. -/
def retriedOnce : List (Action Json Answers) :=
  [.post listed.dump, .deliver 0 rateLimited, .proceed 0 false, .proceed 0 false, .settle 0,
    .expire 0, .deliver 0 answered, .disconnect 0, .deliver 0 answered, .proceed 0 false,
    .proceed 0 false, .settle 0]

theorem orders_kept_retriedOnce : ∃ w : World deployed.service,
    w.settled.length = 2 ∧ w.orphans.length = 1 ∧
      (deployed.contents w "assess.results").length = 1 ∧
      deployed.occurrences { id := "1", title := "t" } w.posted = 1 ∧
      1 ≤ deployed.accountedFor w { id := "1", title := "t" } := by
  obtain ⟨w, hrun, hsettled, horphans, hresults, hposted⟩ : ∃ w : World deployed.service,
      run (guarded deployed.service.step fun _ _ => true) {} retriedOnce = some w ∧
        w.settled.length = 2 ∧ w.orphans.length = 1 ∧
          (deployed.contents w "assess.results").length = 1 ∧
          deployed.occurrences { id := "1", title := "t" } w.posted = 1 :=
    ⟨_, rfl, rfl, rfl, rfl, by decide⟩
  refine ⟨w, hsettled, horphans, hresults, hposted, ?_⟩
  rw [← hposted]
  exact (orders_kept (Reach.of_run hrun) _).1

end ProfiNotifications.Llm.AssessService
