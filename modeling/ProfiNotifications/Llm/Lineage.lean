import ProfiNotifications.Llm.OrdersKept

/-! # What the queues hold, and how often an order is assessed

Every envelope in the queues is a posted one or carries some orders of a posted one
unchanged, and every result is the verdict on an order that was posted. An order is
assessed once for each of its copies in the posted envelopes, once more for each copy in a
retry message, and again when a connection is lost.
-/

namespace ProfiNotifications.Llm

open Schemas Selection Transition WorkQueue

namespace AssessOrders

variable {uc : AssessOrders} {answers : Answers} {message : ParseResultMessage}

theorem of_publish_mem_log {body : Json} {answer : Except Raised Unit}
    (h : .publish body answer ∈ (uc.onAssessRequests answers message).log) :
    ∃ order n listing assessment, (order, n) ∈ message.orders.zipIdx ∧
      orderToListing order = .ok listing ∧ uc.Suits answers n assessment ∧
        body = resultOf listing assessment := by
  obtain ⟨listings, hlistings⟩ := listed_of_log h
  have hbatch : .publish body answer ∈ uc.batchLog answers listings := by
    obtain ⟨tail, hlog, htail⟩ := @log_eq uc answers _ _ hlistings
    rw [hlog] at h
    rcases List.mem_append.mp h with h | h
    · exact h
    · obtain ⟨_, _, hc⟩ := htail _ h
      cases hc
  obtain ⟨⟨listing, n⟩, hp, hcall⟩ := List.mem_flatMap.mp hbatch
  obtain ⟨order, horder, hlisting⟩ := order_of_mem hlistings hp
  refine ⟨order, n, listing, ?_⟩
  unfold calls at hcall
  rcases List.mem_cons.mp hcall with hcall | hcall
  · cases hcall
  · split at hcall
    · cases hcall
    · rename_i assessment ha
      split at hcall
      · rename_i hd
        obtain ⟨rfl, -⟩ := Call.publish.inj (List.mem_singleton.mp hcall)
        exact ⟨assessment, horder, hlisting, ⟨ha, hd⟩, rfl⟩
      · cases hcall

theorem resent_sublist : (uc.resent answers message).Sublist message.orders := by
  have h : (uc.resent answers message).Sublist (message.orders.zipIdx.map Prod.fst) :=
    List.filter_sublist
  rwa [List.zipIdx_map_fst] at h

theorem resent_ne_nil (h : uc.retried answers message ≠ []) : uc.resent answers message ≠ [] := by
  obtain ⟨order, horder⟩ := List.exists_mem_of_ne_nil _ h
  exact List.ne_nil_of_mem (marked_sublist_reselected.subset horder)

end AssessOrders

namespace AssessService

variable (s : AssessService)

/-- An envelope of orders that comes from a posted one: this one, or a part of it. -/
inductive Part (root : Json) : String → Json → Prop
  | unchanged {queue : String} (hq : queue = s.settings.inputQueue ∨ queue = s.settings.dlq) :
      Part root queue root
  | retried {queue : String} {message : ParseResultMessage} {orders : List Order}
      (hq : queue ≠ s.settings.resultQueue)
      (hv : ParseResultMessage.validate s.lax root = .ok message) (hne : orders ≠ [])
      (hsub : orders.Sublist message.orders) :
      Part root queue ({ message with orders } : ParseResultMessage).dump

variable {s} {root body : Json} {queue : String}

theorem Part.validate (h : s.Part root queue body) {message : ParseResultMessage}
    (hv : ParseResultMessage.validate s.lax body = .ok message) :
    ∃ (message' : ParseResultMessage) (orders : List Order),
      ParseResultMessage.validate s.lax root = .ok message' ∧
        orders.Sublist message'.orders ∧ message = { message' with orders } := by
  cases h with
  | unchanged => exact ⟨message, message.orders, hv, List.Sublist.refl _, rfl⟩
  | @retried message' orders _ hv' hne hsub =>
    have hread : ParseResultMessage.validate s.lax
        ({ message' with orders } : ParseResultMessage).dump = .ok { message' with orders } :=
      OrderCore.Schemas.ParseResultMessage.validate_dump _
    exact ⟨message', orders, hv', hsub, (Validated.ok.inj (hread.symm.trans hv)).symm⟩

theorem Part.move (h : s.Part root queue body) {queue' : String}
    (hq' : queue' = s.settings.inputQueue ∨ queue' = s.settings.dlq) :
    s.Part root queue' body := by
  obtain ⟨hmain, hdlq, -⟩ := s.settings.resultQueue_ne
  cases h with
  | unchanged => exact .unchanged hq'
  | retried _ hv hne hsub =>
    refine .retried ?_ hv hne hsub
    rcases hq' with rfl | rfl
    · exact hmain.symm
    · exact hdlq.symm

/-- Whatever is not a result descends from a posted envelope as a part of it. -/
theorem part_of_descends (h : s.service.Descends root queue body)
    (hq : queue ≠ s.settings.resultQueue) : s.Part root queue body := by
  obtain ⟨hmain, -, hretry⟩ := s.settings.resultQueue_ne
  induction h with
  | root => exact .unchanged (Or.inl rfl)
  | @emitted body body' queue answers t arrived _ ht he ih =>
    obtain ⟨p, answer, hp, hone⟩ : ∃ p answer, s.publication t = some (p, answer) ∧
        s.emits t arrived = [p] := by
      rcases emits_cases (s := s) t arrived with hnone | hone
      · have he' : (queue, body') ∈ s.emits t arrived := he
        rw [hnone] at he'
        cases he'
      · exact hone
    obtain rfl : (queue, body') = p := List.mem_singleton.mp (hone ▸ he)
    rcases s.handle_cases answers body with ⟨-, hhandle⟩ | ⟨message, hv, hlog, -⟩
    · rw [hhandle] at ht
      cases ht
    · obtain ⟨message', orders, hv', hsub, rfl⟩ := (ih hmain.symm).validate hv
      rw [hlog] at ht
      cases t with
      | assess listing a => cases hp
      | publish b a =>
        obtain ⟨hp, -⟩ := Prod.mk.inj (Option.some.inj hp)
        exact absurd (Prod.mk.inj hp).1.symm hq
      | retry b a =>
        obtain ⟨hp, -⟩ := Prod.mk.inj (Option.some.inj hp)
        obtain ⟨rfl, rfl⟩ := Prod.mk.inj hp
        obtain ⟨listings, hlistings⟩ := AssessOrders.listed_of_log ht
        obtain ⟨hr, -, rfl⟩ := (AssessOrders.retry_mem_log hlistings).mp ht
        exact @Part.retried s root _ message' _ hretry.symm hv' (AssessOrders.resent_ne_nil hr)
          (AssessOrders.resent_sublist.trans hsub)
  | @deadLettered body queue queue' _ hd ih =>
    rcases s.settings.deadLetter_cases hd with ⟨rfl, rfl⟩ | ⟨rfl, rfl⟩
    · exact (ih hmain.symm).move (Or.inr rfl)
    · exact (ih hretry.symm).move (Or.inl rfl)

variable {w : World s.service} {allowed : World s.service → Action Json Answers → Prop}

theorem part_of_delivery (h : Reach s.service.step allowed {} w) {d : Delivery s.service}
    (hd : d ∈ w.deliveries) : ∃ root ∈ w.posted, s.Part root s.settings.inputQueue d.message := by
  obtain ⟨root, hroot, hdesc⟩ := (Service.traced h).delivered d hd
  exact ⟨root, hroot, part_of_descends hdesc s.settings.resultQueue_ne.1.symm⟩

theorem onlyPublished_resultQueue : s.service.OnlyPublished s.settings.resultQueue := by
  obtain ⟨hmain, hdlq, -⟩ := s.settings.resultQueue_ne
  refine ⟨hmain, fun queue' hd => ?_⟩
  rcases s.settings.deadLetter_cases hd with ⟨-, h⟩ | ⟨-, h⟩
  · exact hdlq h
  · exact hmain h

/-- A result in its queue was published by a delivery that recommends the order. -/
theorem recommends_of_result (h : Reach s.service.step allowed {} w)
    (hb : (s.settings.resultQueue, body) ∈ w.stored) : ∃ d ∈ w.deliveries,
      ∃ order listing assessment, s.Recommends d order listing assessment ∧
        body = resultOf listing assessment := by
  obtain ⟨d, hd, ⟨call, arrived⟩, hc, hemit⟩ := Service.published h onlyPublished_resultQueue hb
  have hcall := Delivery.mem_calls_of_performed hc
  rcases s.handle_cases d.answers d.message with ⟨-, hhandle⟩ | ⟨message, hv, hlog, -⟩
  · rw [hhandle] at hcall
    cases hcall
  · rw [hlog] at hcall
    obtain ⟨answer, rfl⟩ := publication_resultQueue hemit
    obtain ⟨order, n, listing, assessment, hp, hlisting, hs, rfl⟩ :=
      AssessOrders.of_publish_mem_log hcall
    exact ⟨d, hd, order, listing, assessment,
      ⟨hlisting, ⟨message, n, hv, hp, hs⟩, _, hc, answer, rfl⟩, rfl⟩

variable (s w) in
/-- How what is in a queue comes from a posted envelope. -/
inductive Lineage (root : Json) : String → Json → Prop
  | envelope {queue : String} {body : Json} (hp : s.Part root queue body) :
      Lineage root queue body
  | result {d : Delivery s.service} {message : ParseResultMessage} {order : Order}
      {listing : Listing} {assessment : Assessment} (hd : d ∈ w.deliveries)
      (hp : s.Part root s.settings.inputQueue d.message)
      (hv : ParseResultMessage.validate s.lax root = .ok message) (ho : order ∈ message.orders)
      (hrec : s.Recommends d order listing assessment)
      (hhits : assessment.unsupportedHits = []) (hrejected : assessment.isRejectedType = false)
      (hscore : s.uc.threshold ≤ assessment.suitabilityScore) :
      Lineage root s.settings.resultQueue (resultOf listing assessment)

/--
In every run, whatever is in a queue comes from an envelope that was posted: it is this
envelope, or it has some of its orders and is otherwise equal, or a delivery of such an
envelope has published it as the verdict on one of its orders, after an assessment of this
order which nothing speaks against and whose score reaches the threshold.
-/
theorem stored_lineage (h : Reach s.service.step allowed {} w) :
    ∀ p ∈ w.stored, ∃ root ∈ w.posted, s.Lineage w root p.1 p.2 := by
  rintro ⟨queue, body⟩ hp
  by_cases hq : queue = s.settings.resultQueue
  · subst hq
    obtain ⟨d, hd, order, listing, assessment, hrec, rfl⟩ := recommends_of_result h hp
    obtain ⟨root, hroot, hpart⟩ := part_of_delivery h hd
    obtain ⟨message, n, hv, ho, -⟩ := hrec.suits
    obtain ⟨message', orders, hv', hsub, rfl⟩ := hpart.validate hv
    obtain ⟨hhits, hrejected, hscore⟩ := hrec.assessed
    exact ⟨root, hroot, .result hd hpart hv' (hsub.subset (List.fst_mem_of_mem_zipIdx ho)) hrec
      hhits hrejected hscore⟩
  · obtain ⟨root, hroot, hdesc⟩ := (Service.traced h).stored _ hp
    exact ⟨root, hroot, .envelope (part_of_descends hdesc hq)⟩

/-- The result of the run that retries once. -/
theorem stored_lineage_retriedOnce : ∃ w : World deployed.service, w.stored.length = 1 ∧
    w.posted = [listed.dump] ∧ ∀ p ∈ w.stored, deployed.Lineage w listed.dump p.1 p.2 := by
  obtain ⟨w, hrun, hstored, hposted⟩ : ∃ w : World deployed.service,
      run (guarded deployed.service.step fun _ _ => true) {} retriedOnce = some w ∧
        w.stored.length = 1 ∧ w.posted = [listed.dump] := ⟨_, rfl, rfl, rfl⟩
  refine ⟨w, hstored, hposted, fun p hp => ?_⟩
  obtain ⟨root, hroot, hlineage⟩ := stored_lineage (Reach.of_run hrun) p hp
  rw [hposted] at hroot
  obtain rfl := List.mem_singleton.mp hroot
  exact hlineage

variable (s)

def copies (id : String) (body : Json) : ℕ :=
  ((s.ordersOf body).map OrderCore.Schemas.Order.id).count id

def postings (id : String) (bodies : List Json) : ℕ := (bodies.map (s.copies id)).sum

def assessed (d : Delivery s.service) : List String :=
  (d.performed.filterMap fun c => AssessOrders.attempt c.1).map Listing.id

def transients (d : Delivery s.service) : List String :=
  match ParseResultMessage.validate s.lax d.message with
  | .ok message => (s.uc.retried d.answers message).map OrderCore.Schemas.Order.id
  | .errors _ => []

/-- What the calls of a delivery have put into the retry queue. -/
def retriesSent (d : Delivery s.service) : List Json :=
  ((d.performed.flatMap fun c => s.emits c.1 c.2).filter fun p =>
    p.1 = s.settings.retryQueue).map Prod.snd

/-- The assessments that are owed for an id: one for each of its orders in an envelope. -/
def idWeights (id : String) : Weights s.service where
  stored p :=
    if p.1 = s.settings.inputQueue ∨ p.1 = s.settings.retryQueue then s.copies id p.2 else 0
  held d := s.copies id d.message
  settled d := s.copies id d.message

variable {s} {id : String}

@[simp] theorem postings_nil : s.postings id [] = 0 := rfl

@[simp] theorem postings_cons (body : Json) (bodies : List Json) :
    s.postings id (body :: bodies) = s.copies id body + s.postings id bodies := by
  simp [postings]

@[simp] theorem postings_append (bodies bodies' : List Json) :
    s.postings id (bodies ++ bodies') = s.postings id bodies + s.postings id bodies' := by
  simp [postings]

theorem attempts_sublist (answers : Answers) (body : Json) :
    (((s.service.handle answers body).1.filterMap AssessOrders.attempt).map Listing.id).Sublist
      ((s.ordersOf body).map OrderCore.Schemas.Order.id) := by
  rcases s.handle_cases answers body with ⟨-, hhandle⟩ | ⟨message, hv, hlog, -⟩
  · rw [hhandle]
    exact List.nil_sublist _
  · rw [hlog, ordersOf_of_ok hv]
    cases hlistings : message.orders.mapM orderToListing with
    | error e =>
      rw [AssessOrders.onAssessRequests_error hlistings]
      exact List.nil_sublist _
    | ok listings =>
      rw [AssessOrders.filterMap_attempt_log hlistings, AssessOrders.ids_of_mapM hlistings]

theorem count_assessed_le (d : Delivery s.service) :
    (s.assessed d).count id ≤ s.copies id d.message := by
  have hcalls := (attempts_sublist (s := s) d.answers d.message).count_le id
  rw [← d.calls_eq, List.filterMap_append, List.map_append, List.filterMap_map,
    List.count_append] at hcalls
  exact (Nat.le_add_right _ _).trans hcalls

theorem ofStored_emits (call : Call) (arrived : Bool) :
    (s.idWeights id).ofStored (s.emits call arrived) = s.postings id
      (((s.emits call arrived).filter fun p => p.1 = s.settings.retryQueue).map Prod.snd) := by
  obtain ⟨hmain, -, hretry⟩ := s.settings.resultQueue_ne
  rcases emits_cases (s := s) call arrived with hnone | ⟨p, answer, hp, hone⟩
  · rw [hnone]
    rfl
  · rw [hone]
    cases call with
    | assess listing a => cases hp
    | publish b a =>
      obtain ⟨rfl, -⟩ := Prod.mk.inj (Option.some.inj hp)
      simp [idWeights, hmain, hretry]
    | retry b a =>
      obtain ⟨rfl, -⟩ := Prod.mk.inj (Option.some.inj hp)
      simp [idWeights]

theorem stored_idWeights (body : Json) :
    (s.idWeights id).stored (s.service.main, body) = s.copies id body :=
  if_pos (Or.inl rfl)

theorem idWeights_bounded (s : AssessService) (id : String) :
    (s.idWeights id).Bounded fun d => s.postings id (s.retriesSent d) := by
  constructor
  · rintro body answers
    rw [stored_idWeights]
    exact Nat.le_add_right _ _
  · rintro d d' arrived emitted hd
    obtain ⟨t, -, hmessage, -, hperformed, rfl⟩ := Delivery.perform_eq_some hd
    have hemits : (s.idWeights id).ofStored (s.service.emits t arrived) = s.postings id
      (((s.emits t arrived).filter fun p => p.1 = s.settings.retryQueue).map Prod.snd) :=
        ofStored_emits t arrived
    have hheld : (s.idWeights id).held d' = (s.idWeights id).held d := by
      simp only [idWeights, hmessage]
    have hsent : s.retriesSent d' = s.retriesSent d ++
        ((s.emits t arrived).filter fun p => p.1 = s.settings.retryQueue).map Prod.snd := by
      simp [retriesSent, hperformed]
    rw [hsent, postings_append, hemits, hheld]
    omega
  · rintro d -
    have hleft : (s.idWeights id).ofStored d.leftover = 0 := by
      unfold Delivery.leftover
      cases d.settlement with
      | acked => rfl
      | rejected =>
        have hdlq := s.settings.dlq_ne
        have hretry := s.settings.retryQueue_ne_dlq.symm
        simp [Service.deadLettered, service, idWeights, hdlq, hretry]
    rw [hleft]
    exact le_rfl
  · rintro queue body he
    obtain rfl := s.settings.expires_iff.mp he
    simp [Service.deadLettered, service, idWeights]

theorem sent_sublist (cs : List (Call × Bool)) :
    (((cs.flatMap fun c => s.emits c.1 c.2).filter fun p =>
      p.1 = s.settings.retryQueue).map Prod.snd).Sublist
        ((cs.map Prod.fst).filterMap AssessOrders.retryMessage) := by
  induction cs with
  | nil => exact List.Sublist.refl _
  | cons c cs ih =>
    obtain ⟨call, arrived⟩ := c
    have hcons : (((((call, arrived) :: cs).flatMap fun c => s.emits c.1 c.2).filter fun p =>
        p.1 = s.settings.retryQueue).map Prod.snd) =
          ((s.emits call arrived).filter fun p => p.1 = s.settings.retryQueue).map Prod.snd ++
            ((cs.flatMap fun c => s.emits c.1 c.2).filter fun p =>
              p.1 = s.settings.retryQueue).map Prod.snd := by
      rw [List.flatMap_cons, List.filter_append, List.map_append]
    rw [hcons]
    cases call with
    | assess listing a => exact ih
    | publish b a =>
      have hnone : ((s.emits (.publish b a) arrived).filter fun p =>
          p.1 = s.settings.retryQueue).map Prod.snd = [] := by
        have hretry := s.settings.resultQueue_ne.2.2
        rcases emits_cases (s := s) (.publish b a) arrived with h | ⟨p, answer, hp, h⟩
        · rw [h]
          rfl
        · obtain ⟨rfl, -⟩ := Prod.mk.inj (Option.some.inj hp)
          rw [h]
          simp [hretry]
      rw [hnone]
      exact ih
    | retry b a =>
      rcases emits_cases (s := s) (.retry b a) arrived with h | ⟨p, answer, hp, h⟩
      · rw [h]
        exact ih.cons b
      · obtain ⟨rfl, -⟩ := Prod.mk.inj (Option.some.inj hp)
        rw [h]
        simpa [AssessOrders.retryMessage] using ih

/-- A retry message carries an id as often as the id met a transient error. -/
theorem retriesSent_le {d : Delivery s.service}
    (hn : ((s.ordersOf d.message).map OrderCore.Schemas.Order.id).Nodup) :
    s.postings id (s.retriesSent d) ≤ (s.transients d).count id := by
  have hsub : (s.retriesSent d).Sublist
      ((s.service.handle d.answers d.message).1.filterMap AssessOrders.retryMessage) := by
    refine (sent_sublist d.performed).trans ?_
    rw [← d.calls_eq, List.filterMap_append]
    exact List.sublist_append_left _ _
  have hle : s.postings id (s.retriesSent d) ≤ s.postings id
      ((s.service.handle d.answers d.message).1.filterMap AssessOrders.retryMessage) :=
    (hsub.map _).sum_le_sum fun _ _ => Nat.zero_le _
  refine hle.trans ?_
  rcases s.handle_cases d.answers d.message with ⟨-, hhandle⟩ | ⟨message, hv, hlog, -⟩
  · rw [hhandle]
    exact Nat.zero_le _
  · rw [ordersOf_of_ok hv] at hn
    have hresent : s.uc.resent d.answers message = s.uc.retried d.answers message :=
      AssessOrders.resent_of_nodup hn
    have htransients : s.transients d =
        (s.uc.retried d.answers message).map OrderCore.Schemas.Order.id := by
      unfold transients
      rw [hv]
    cases hlistings : message.orders.mapM orderToListing with
    | error e =>
      rw [hlog, AssessOrders.onAssessRequests_error hlistings]
      exact Nat.zero_le _
    | ok listings =>
      rw [hlog, AssessOrders.filterMap_retryMessage_log hlistings, htransients]
      split
      · exact Nat.zero_le _
      · rw [postings_cons, postings_nil, Nat.add_zero, copies, ordersOf_dump, hresent]

theorem nodup_delivered (h : Reach s.service.step allowed {} w)
    (hn : ∀ body ∈ w.posted, ((s.ordersOf body).map OrderCore.Schemas.Order.id).Nodup)
    {d : Delivery s.service} (hd : d ∈ w.deliveries) :
    ((s.ordersOf d.message).map OrderCore.Schemas.Order.id).Nodup := by
  obtain ⟨root, hroot, hpart⟩ := part_of_delivery h hd
  cases hv : ParseResultMessage.validate s.lax d.message with
  | errors errs =>
    unfold ordersOf
    rw [hv]
    exact List.nodup_nil
  | ok message =>
    obtain ⟨message', orders, hv', hsub, rfl⟩ := hpart.validate hv
    have hposted := hn root hroot
    rw [ordersOf_of_ok hv'] at hposted
    rw [ordersOf_of_ok hv]
    exact hposted.sublist (hsub.map _)

/--
In every run, the assessor is asked about an id at most once for each copy in a posted
envelope, once for each copy in a retry message, and once for each copy in a delivery whose
channel was lost. If no posted envelope repeats an id, then a retry message has only ids
that met a transient error in the delivery that sent it.
-/
theorem assessments_le (h : Reach s.service.step allowed {} w) (id : String) :
    (w.deliveries.map fun d => (s.assessed d).count id).sum ≤
      s.postings id w.posted + (w.deliveries.map fun d => s.postings id (s.retriesSent d)).sum +
        s.postings id (w.orphans.map Delivery.message) ∧
    ((∀ body ∈ w.posted, ((s.ordersOf body).map OrderCore.Schemas.Order.id).Nodup) →
      ∀ d ∈ w.deliveries, s.postings id (s.retriesSent d) ≤ (s.transients d).count id) := by
  constructor
  · have hbound := (s.idWeights_bounded id).overall_le h
    have hposted : (s.idWeights id).ofPosted w = s.postings id w.posted := by
      simp only [Weights.ofPosted, postings, stored_idWeights]
    have hreturned : (s.idWeights id).returned w =
        s.postings id (w.orphans.map Delivery.message) := by
      simp only [Weights.returned, postings, stored_idWeights, List.map_map, Function.comp_def]
    have hassessed : ∀ ds : List (Delivery s.service),
        (ds.map fun d => (s.assessed d).count id).sum ≤
          (ds.map fun d => s.copies id d.message).sum :=
      fun ds => List.sum_le_sum fun d _ => count_assessed_le d
    have hinFlight := hassessed w.inFlight
    have horphans := hassessed w.orphans
    have hsettled := hassessed w.settled
    rw [hposted, hreturned] at hbound
    simp only [Weights.overall, Weights.gained, idWeights] at hbound
    simp only [World.deliveries, List.map_append, List.sum_append]
    omega
  · exact fun hn d hd => retriesSent_le (nodup_delivered h hn hd)

/-- One posted envelope, one retry message and one lost channel: two assessments of three. -/
theorem assessments_le_retriedOnce : ∃ w : World deployed.service,
    (w.deliveries.map fun d => (deployed.assessed d).count "1").sum = 2 ∧
      deployed.postings "1" w.posted = 1 ∧
      2 ≤ 1 + (w.deliveries.map fun d => deployed.postings "1" (deployed.retriesSent d)).sum +
        deployed.postings "1" (w.orphans.map Delivery.message) := by
  obtain ⟨w, hrun, hassessed, hposted⟩ : ∃ w : World deployed.service,
      run (guarded deployed.service.step fun _ _ => true) {} retriedOnce = some w ∧
        (w.deliveries.map fun d => (deployed.assessed d).count "1").sum = 2 ∧
          deployed.postings "1" w.posted = 1 := ⟨_, rfl, rfl, rfl⟩
  refine ⟨w, hassessed, hposted, ?_⟩
  rw [← hassessed, ← hposted]
  exact (assessments_le (Reach.of_run hrun) "1").1

end AssessService

end ProfiNotifications.Llm
