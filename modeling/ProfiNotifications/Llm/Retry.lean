import ProfiNotifications.Llm.Assess

/-! # Which orders are retried

The subscriber selects the orders of the retry message by the ids that the use case
returns. These are the orders that met a transient error exactly if orders with the same
id ended alike; an order whose result could not be published is among them if the
exception was a transient error, and by accident if one with its id is.
-/

namespace ProfiNotifications.Llm.AssessOrders

open Schemas Selection

variable {uc : AssessOrders} {answers : Answers} {message : ParseResultMessage}

section Run

variable (uc answers message)

/-- The orders whose own processing ended in a transient error. -/
def retried : List Order := marked (fun p => uc.retries answers p.2) message.orders.zipIdx

/-- The orders that are selected by the ids of these. -/
def resent : List Order :=
  reselected OrderCore.Schemas.Order.id (fun p => uc.retries answers p.2) message.orders.zipIdx

def batchLog (listings : List Listing) : List Call :=
  listings.zipIdx.flatMap fun p => uc.calls answers p.1 p.2

end Run

variable {listings : List Listing}

theorem ids_of_mapM (h : message.orders.mapM orderToListing = .ok listings) :
    listings.map Listing.id = message.orders.map OrderCore.Schemas.Order.id := by
  have hids := (List.mapM_eq_ok.mp h).imp fun _ _ => id_of_orderToListing
  rw [← List.forall₂_eq_eq_eq, List.forall₂_map_left_iff, List.forall₂_map_right_iff]
  exact hids.flip

theorem handle_listings (h : message.orders.mapM orderToListing = .ok listings) :
    uc.handle answers listings = ⟨uc.batchLog answers listings,
      .ok ((uc.retried answers message).map OrderCore.Schemas.Order.id)⟩ := by
  rw [handle_eq, retried, ← marked_zipIdx_map, ← marked_zipIdx_map, ids_of_mapM h, batchLog]

theorem onAssessRequests_error {e : Raised} (h : message.orders.mapM orderToListing = .error e) :
    uc.onAssessRequests answers message = ⟨[], .error e⟩ := by
  rw [onAssessRequests, h]
  rfl

theorem onAssessRequests_eq (h : message.orders.mapM orderToListing = .ok listings) :
    uc.onAssessRequests answers message =
      if uc.retried answers message = [] then ⟨uc.batchLog answers listings, .ok ()⟩
      else ⟨uc.batchLog answers listings ++
        [.retry ({ message with orders := uc.resent answers message } : ParseResultMessage).dump
          answers.retry], answers.retry⟩ := by
  have hresent : uc.resent answers message = message.orders.filter fun order =>
      order.id ∈ (uc.retried answers message).map OrderCore.Schemas.Order.id := by
    rw [resent, reselected, List.zipIdx_map_fst]
    rfl
  unfold onAssessRequests
  rw [h, Logged.of, Logged.bind_ok, handle_listings h, Logged.bind_ok, hresent]
  by_cases hr : uc.retried answers message = []
  · simp [hr]
  · simp [hr, Answers.publishRetry, Logged.call]

/-- The prices of a batch can be read if its orders can be shown. -/
theorem readable_iff : (∃ listings, message.orders.mapM orderToListing = .ok listings) ↔
    ∀ order ∈ message.orders, PriceReadable order := by
  simp only [List.mapM_eq_ok, ← orderToListing_ok_iff]
  induction message.orders with
  | nil => simp
  | cons order orders ih =>
    rw [List.forall_mem_cons, ← ih]
    simp only [List.forall₂_cons_left_iff]
    constructor
    · rintro ⟨_, listing, listings, h, hs, -⟩
      exact ⟨⟨listing, h⟩, listings, hs⟩
    · rintro ⟨⟨listing, h⟩, listings, hs⟩
      exact ⟨_, listing, listings, h, hs, rfl⟩

def attempt : Call → Option Listing
  | .assess listing _ => some listing
  | .publish _ _ | .retry _ _ => none

def retryMessage : Call → Option Json
  | .retry body _ => some body
  | .assess _ _ | .publish _ _ => none

theorem calls_cases (listing : Listing) (n : ℕ) :
    uc.calls answers listing n = [.assess listing (answers.assess n)] ∨ ∃ body,
      uc.calls answers listing n =
        [.assess listing (answers.assess n), .publish body (answers.publish n)] := by
  unfold calls
  split
  · exact Or.inl rfl
  · split
    · exact Or.inr ⟨_, rfl⟩
    · exact Or.inl rfl

theorem filterMap_attempt_calls (listing : Listing) (n : ℕ) :
    (uc.calls answers listing n).filterMap attempt = [listing] := by
  rcases calls_cases listing n with h | ⟨body, h⟩ <;> rw [h] <;> rfl

theorem filterMap_retryMessage_calls (listing : Listing) (n : ℕ) :
    (uc.calls answers listing n).filterMap retryMessage = [] := by
  rcases calls_cases listing n with h | ⟨body, h⟩ <;> rw [h] <;> rfl

theorem filterMap_attempt_batchLog (listings : List Listing) :
    (uc.batchLog answers listings).filterMap attempt = listings := by
  simp only [batchLog, List.filterMap_flatMap, filterMap_attempt_calls]
  rw [← List.map_eq_flatMap, List.zipIdx_map_fst]

theorem filterMap_retryMessage_batchLog :
    (uc.batchLog answers listings).filterMap retryMessage = [] := by
  simp only [batchLog, List.filterMap_flatMap, filterMap_retryMessage_calls]
  exact List.flatMap_eq_nil_iff.mpr fun _ _ => rfl

theorem filterMap_attempt_log (h : message.orders.mapM orderToListing = .ok listings) :
    (uc.onAssessRequests answers message).log.filterMap attempt = listings := by
  rw [onAssessRequests_eq h]
  split
  · exact filterMap_attempt_batchLog listings
  · rw [List.filterMap_append, filterMap_attempt_batchLog]
    exact List.append_nil _

theorem filterMap_retryMessage_log (h : message.orders.mapM orderToListing = .ok listings) :
    (uc.onAssessRequests answers message).log.filterMap retryMessage =
      if uc.retried answers message = [] then []
      else [({ message with orders := uc.resent answers message } : ParseResultMessage).dump] := by
  rw [onAssessRequests_eq h]
  split
  · exact filterMap_retryMessage_batchLog
  · rw [List.filterMap_append, filterMap_retryMessage_batchLog]
    rfl

variable (uc answers message) in
/--
Every order is attempted once and in sequence; the orders whose own processing ended in a
transient error are sent to the retry queue, unchanged and in their order, and nothing is
sent when there is none.
-/
structure RetriesExactly : Prop where
  attempted : ((uc.onAssessRequests answers message).log.filterMap attempt).map .ok =
    message.orders.map orderToListing
  sent : (uc.onAssessRequests answers message).log.filterMap retryMessage =
    if uc.retried answers message = [] then []
    else [({ message with orders := uc.retried answers message } : ParseResultMessage).dump]

theorem attempted_iff : ((uc.onAssessRequests answers message).log.filterMap attempt).map .ok =
    message.orders.map orderToListing ↔ ∀ order ∈ message.orders, PriceReadable order := by
  have hall : ∀ listings : List Listing, listings.map .ok = message.orders.map orderToListing ↔
      message.orders.mapM orderToListing = .ok listings := by
    intro listings
    rw [List.mapM_eq_ok, eq_comm, ← List.forall₂_eq_eq_eq, List.forall₂_map_left_iff,
      List.forall₂_map_right_iff]
  rw [← readable_iff, hall]
  constructor
  · intro h
    exact ⟨_, h⟩
  · rintro ⟨listings, h⟩
    rw [filterMap_attempt_log h]
    exact h

theorem dump_injective : Function.Injective (OrderCore.Schemas.ParseResultMessage.dump) := by
  intro m m' h
  have hm : ParseResultMessage.validate .plain m.dump = .ok m :=
    OrderCore.Schemas.ParseResultMessage.validate_dump m
  have hm' : ParseResultMessage.validate .plain m'.dump = .ok m' :=
    OrderCore.Schemas.ParseResultMessage.validate_dump m'
  rw [h, hm'] at hm
  exact (Validated.ok.inj hm).symm

theorem retriesExactly_iff_resent : RetriesExactly uc answers message ↔
    (∀ order ∈ message.orders, PriceReadable order) ∧
      uc.resent answers message = uc.retried answers message := by
  constructor
  · rintro ⟨hattempted, hsent⟩
    have hread := attempted_iff.mp hattempted
    obtain ⟨listings, hlistings⟩ := readable_iff.mpr hread
    refine ⟨hread, ?_⟩
    rw [filterMap_retryMessage_log hlistings] at hsent
    split at hsent
    · rename_i hnone
      rw [hnone]
      apply List.eq_nil_iff_forall_not_mem.mpr
      intro order horder
      obtain ⟨-, p, hp, hm, -⟩ := mem_reselected.mp horder
      have hmem : p.1 ∈ uc.retried answers message := mem_marked.mpr ⟨p, hp, hm, rfl⟩
      rw [hnone] at hmem
      cases hmem
    · have hmessage := dump_injective (List.singleton_inj.mp hsent)
      exact congrArg OrderCore.Schemas.ParseResultMessage.orders hmessage
  · rintro ⟨hread, h⟩
    obtain ⟨listings, hlistings⟩ := readable_iff.mpr hread
    constructor
    · exact attempted_iff.mpr hread
    · rw [filterMap_retryMessage_log hlistings, h]

/--
Exactly the orders that met a transient error are retried if and only if every price can
be read, and orders with the same id all met one, or none of them did.
-/
theorem retriesExactly_iff : RetriesExactly uc answers message ↔
    (∀ order ∈ message.orders, PriceReadable order) ∧
      ∀ p ∈ message.orders.zipIdx, ∀ q ∈ message.orders.zipIdx, p.1.id = q.1.id →
        uc.ended answers p.2 = .failed .transientError →
          uc.ended answers q.2 = .failed .transientError := by
  rw [retriesExactly_iff_resent, resent, retried, reselected_eq_marked_iff]
  simp only [retries, decide_eq_true_eq]

theorem resent_of_nodup (hn : (message.orders.map OrderCore.Schemas.Order.id).Nodup) :
    uc.resent answers message = uc.retried answers message := by
  rw [resent, retried, reselected_eq_marked_iff]
  rintro p hp q hq hid hm
  rw [List.mem_zipIdx_iff_getElem?] at hp hq
  have hget : (message.orders.map OrderCore.Schemas.Order.id)[p.2]? =
      (message.orders.map OrderCore.Schemas.Order.id)[q.2]? := by
    rw [List.getElem?_map, List.getElem?_map, hp, hq, Option.map_some, Option.map_some, hid]
  have hlt : p.2 < (message.orders.map OrderCore.Schemas.Order.id).length := by
    rw [List.length_map]
    exact (List.getElem?_eq_some_iff.mp hp).1
  rwa [← (List.getElem?_inj hlt hn).mp hget]

/-! A batch with two copies of an order: the first is published, the second fails. -/

def twoCopies : ParseResultMessage where
  requestId := "r"
  orders := [{ id := "1", title := "t" }, { id := "1", title := "t" }]

def suitable : Assessment where
  summary := "s"
  suitabilityScore := 90
  score_nonneg := by decide
  score_le := by decide

def onceLimited : Answers where
  assess n := if n = 0 then .ok suitable else .error .transientError
  publish _ := .ok ()
  retry := .ok ()

theorem not_retriesExactly_twoCopies :
    ended ⟨60⟩ onceLimited 0 = .published ∧ resent ⟨60⟩ onceLimited twoCopies = twoCopies.orders ∧
      ¬ RetriesExactly ⟨60⟩ onceLimited twoCopies := by
  refine ⟨by decide, by decide, fun h => ?_⟩
  have hresent := (retriesExactly_iff_resent.mp h).2
  revert hresent
  decide

/--
The result of the order at a place was published: the assessment of the order, with as
many before it as there are orders, is followed by a publication of its result.
-/
def Published (log : List Call) (p : Order × ℕ) (assessment : Assessment) : Prop :=
  ∃ listing before after, orderToListing p.1 = .ok listing ∧
    log = before ++
      .assess listing (.ok assessment) :: .publish (resultOf listing assessment) (.ok ()) :: after ∧
    (before.filterMap attempt).length = p.2

variable (uc answers message) in
/--
After the subscriber returns, the result of every suitable order was published, or the
order is in the message that was sent to the retry queue; when that message cannot be
published, the subscriber raises, and the envelope is rejected.
-/
def KeepsSuitable : Prop :=
  ∀ retry, ((uc.onAssessRequests { answers with retry } message).result = .ok () →
      ∀ p ∈ message.orders.zipIdx, ∀ assessment, uc.Suits answers p.2 assessment →
        Published (uc.onAssessRequests { answers with retry } message).log p assessment ∨
          ∃ m : ParseResultMessage,
            .retry m.dump (.ok ()) ∈ (uc.onAssessRequests { answers with retry } message).log ∧
              p.1 ∈ m.orders) ∧
    ∀ e, retry = .error e →
      (uc.onAssessRequests { answers with retry } message).log.filterMap retryMessage ≠ [] →
        (uc.onAssessRequests { answers with retry } message).result = .error e ∧
          ∀ lax body, ParseResultMessage.validate lax body = .ok message →
            (uc.consume { answers with retry } lax body).2 = .rejected

theorem ended_of_suits {n : ℕ} {assessment : Assessment} (h : uc.Suits answers n assessment) :
    uc.ended answers n = match answers.publish n with
      | .ok () => .published
      | .error e => .failed e := by
  unfold ended
  rw [h.1]
  exact if_pos h.2

theorem calls_of_suits {listing : Listing} {n : ℕ} {assessment : Assessment}
    (h : uc.Suits answers n assessment) : uc.calls answers listing n =
      [.assess listing (.ok assessment),
        .publish (resultOf listing assessment) (answers.publish n)] := by
  unfold calls
  rw [h.1]
  exact congrArg _ (if_pos h.2)

/-- The calls of a run are those of the batch, and a retry message if there is one. -/
theorem log_eq (h : message.orders.mapM orderToListing = .ok listings) :
    ∃ tail, (uc.onAssessRequests answers message).log = uc.batchLog answers listings ++ tail ∧
      ∀ c ∈ tail, ∃ body answer, c = .retry body answer := by
  rw [onAssessRequests_eq h]
  split
  · exact ⟨[], (List.append_nil _).symm, nofun⟩
  · refine ⟨_, rfl, fun c hc => ?_⟩
    obtain rfl := List.mem_singleton.mp hc
    exact ⟨_, _, rfl⟩

theorem listing_of_mem (h : message.orders.mapM orderToListing = .ok listings) {p : Order × ℕ}
    (hp : p ∈ message.orders.zipIdx) :
    ∃ listing, orderToListing p.1 = .ok listing ∧ listings[p.2]? = some listing := by
  have hall := List.mapM_eq_ok.mp h
  obtain ⟨hn, hget⟩ := List.getElem?_eq_some_iff.mp (List.mem_zipIdx_iff_getElem?.mp hp)
  have hn' : p.2 < listings.length := hall.length_eq ▸ hn
  have hlisting := (List.forall₂_iff_get.mp hall).2 p.2 hn hn'
  refine ⟨listings[p.2], ?_, List.getElem?_eq_getElem hn'⟩
  rw [← hget]
  exact hlisting

theorem order_of_mem (h : message.orders.mapM orderToListing = .ok listings) {p : Listing × ℕ}
    (hp : p ∈ listings.zipIdx) :
    ∃ order, (order, p.2) ∈ message.orders.zipIdx ∧ orderToListing order = .ok p.1 := by
  have hall := List.mapM_eq_ok.mp h
  obtain ⟨hn, hget⟩ := List.getElem?_eq_some_iff.mp (List.mem_zipIdx_iff_getElem?.mp hp)
  have hn' : p.2 < message.orders.length := hall.length_eq ▸ hn
  have hlisting := (List.forall₂_iff_get.mp hall).2 p.2 hn' hn
  refine ⟨message.orders[p.2], ?_, ?_⟩
  · exact List.mem_zipIdx_iff_getElem?.mpr (List.getElem?_eq_getElem hn')
  · rw [← hget]
    exact hlisting

theorem published_of_suits (h : message.orders.mapM orderToListing = .ok listings)
    {p : Order × ℕ} {assessment : Assessment} (hp : p ∈ message.orders.zipIdx)
    (hs : uc.Suits answers p.2 assessment) (hpublish : answers.publish p.2 = .ok ()) :
    Published (uc.onAssessRequests answers message).log p assessment := by
  obtain ⟨listing, hlisting, hget⟩ := listing_of_mem h hp
  obtain ⟨hn, hget⟩ := List.getElem?_eq_some_iff.mp hget
  obtain ⟨tail, htail, -⟩ := @log_eq uc answers _ _ h
  obtain ⟨later, hsplit⟩ : ∃ later, uc.batchLog answers listings =
      uc.batchLog answers (listings.take p.2) ++ (uc.calls answers listing p.2 ++ later) := by
    have hzip := congrArg List.zipIdx (List.take_append_drop p.2 listings)
    rw [List.drop_eq_getElem_cons hn, List.zipIdx_append, List.zipIdx_cons, Nat.zero_add,
      List.length_take_of_le hn.le, hget] at hzip
    rw [batchLog, ← hzip, List.flatMap_append, List.flatMap_cons]
    exact ⟨_, rfl⟩
  refine ⟨listing, uc.batchLog answers (listings.take p.2), later ++ tail, hlisting, ?_, ?_⟩
  · rw [htail, hsplit, calls_of_suits hs, hpublish, List.append_assoc]
    rfl
  · rw [filterMap_attempt_batchLog, List.length_take_of_le hn.le]

/-- What follows the assessment with as many before it is what is called for this place. -/
theorem publish_of_split {k : ℕ} {tail before after : List Call} {listing : Listing}
    {answer : Except Raised Assessment} {body : Json} {published : Except Raised Unit}
    (htail : ∀ c ∈ tail, ∃ body answer, c = .retry body answer)
    (h : (listings.zipIdx k).flatMap (fun p => uc.calls answers p.1 p.2) ++ tail =
      before ++ .assess listing answer :: .publish body published :: after) :
    answers.publish (k + (before.filterMap attempt).length) = published := by
  induction listings generalizing k before with
  | nil =>
    have hmem : Call.assess listing answer ∈ tail := by
      rw [List.zipIdx_nil, List.flatMap_nil, List.nil_append] at h
      rw [h]
      simp
    obtain ⟨_, _, hc⟩ := htail _ hmem
    cases hc
  | cons l listings ih =>
    rw [List.zipIdx_cons, List.flatMap_cons, List.append_assoc] at h
    -- behind the calls for this place comes another assessment, or none
    have hnext : ∀ body answer rest, (listings.zipIdx (k + 1)).flatMap
        (fun p => uc.calls answers p.1 p.2) ++ tail ≠ .publish body answer :: rest := by
      rintro body answer rest heq
      cases listings with
      | nil =>
        obtain ⟨_, _, hc⟩ := htail _ (heq ▸ List.mem_cons_self)
        cases hc
      | cons l' listings =>
        rw [List.zipIdx_cons, List.flatMap_cons] at heq
        rcases @calls_cases uc answers l' (k + 1) with hc | ⟨b, hc⟩ <;> rw [hc] at heq <;> cases heq
    rcases @calls_cases uc answers l k with hc | ⟨b, hc⟩
    · rw [hc] at h
      cases before with
      | nil => exact absurd (List.cons.inj h).2 (hnext _ _ _)
      | cons c before =>
        obtain ⟨rfl, hrest⟩ := List.cons.inj h
        have hplace := ih hrest
        simp only [List.filterMap_cons, attempt, List.length_cons]
        rwa [Nat.add_right_comm, Nat.add_assoc] at hplace
    · rw [hc] at h
      cases before with
      | nil =>
        cases h
        rfl
      | cons c before =>
        obtain ⟨rfl, hrest⟩ := List.cons.inj h
        cases before with
        | nil => cases hrest
        | cons c before =>
          obtain ⟨rfl, hlater⟩ := List.cons.inj hrest
          have hplace := ih hlater
          simp only [List.filterMap_cons, attempt, List.length_cons]
          rwa [Nat.add_right_comm, Nat.add_assoc] at hplace

theorem publish_of_published (h : message.orders.mapM orderToListing = .ok listings)
    {p : Order × ℕ} {assessment : Assessment}
    (hpublished : Published (uc.onAssessRequests answers message).log p assessment) :
    answers.publish p.2 = .ok () := by
  obtain ⟨listing, before, after, -, hlog, hplace⟩ := hpublished
  obtain ⟨tail, htail, hretry⟩ := @log_eq uc answers _ _ h
  rw [htail] at hlog
  have hpublish := publish_of_split hretry hlog
  rwa [Nat.zero_add, hplace] at hpublish

theorem mem_retried {order : Order} : order ∈ uc.retried answers message ↔
    ∃ p ∈ message.orders.zipIdx, uc.ended answers p.2 = .failed .transientError ∧ p.1 = order := by
  simp only [retried, mem_marked, retries, decide_eq_true_eq]

theorem mem_resent {order : Order} : order ∈ uc.resent answers message ↔ order ∈ message.orders ∧
    ∃ q ∈ message.orders.zipIdx, uc.ended answers q.2 = .failed .transientError ∧
      q.1.id = order.id := by
  simp only [resent, mem_reselected, retries, decide_eq_true_eq, List.zipIdx_map_fst]

theorem retry_mem_log (h : message.orders.mapM orderToListing = .ok listings) {body : Json}
    {answer : Except Raised Unit} :
    .retry body answer ∈ (uc.onAssessRequests answers message).log ↔
      uc.retried answers message ≠ [] ∧ answer = answers.retry ∧
        body =
          ({ message with orders := uc.resent answers message } : ParseResultMessage).dump := by
  have hcalls : ∀ listing n, Call.retry body answer ∉ uc.calls answers listing n := by
    intro listing n hmem
    have hnone : (uc.calls answers listing n).filterMap retryMessage = [] :=
      filterMap_retryMessage_calls listing n
    rw [List.filterMap_eq_nil_iff] at hnone
    cases hnone _ hmem
  have hbatch : Call.retry body answer ∉ uc.batchLog answers listings := by
    rintro hmem
    obtain ⟨p, -, hmem⟩ := List.mem_flatMap.mp hmem
    exact hcalls _ _ hmem
  rw [onAssessRequests_eq h]
  split
  · simp_all
  · simp only [List.mem_append, hbatch, false_or, List.mem_singleton, Call.retry.injEq]
    tauto

/-- Either the prices can be read, or the subscriber raises before any call. -/
theorem listed_or_raised : (∃ listings, message.orders.mapM orderToListing = .ok listings) ∨
    ∃ e, uc.onAssessRequests answers message = ⟨[], .error e⟩ := by
  cases hlistings : message.orders.mapM orderToListing with
  | error e => exact Or.inr ⟨e, onAssessRequests_error hlistings⟩
  | ok listings => exact Or.inl ⟨listings, rfl⟩

theorem listed_of_log {c : Call} (h : c ∈ (uc.onAssessRequests answers message).log) :
    ∃ listings, message.orders.mapM orderToListing = .ok listings := by
  rcases @listed_or_raised uc answers message with hlistings | ⟨e, hraised⟩
  · exact hlistings
  · rw [hraised] at h
    cases h

theorem listed_of_ok (h : (uc.onAssessRequests answers message).result = .ok ()) :
    ∃ listings, message.orders.mapM orderToListing = .ok listings := by
  rcases @listed_or_raised uc answers message with hlistings | ⟨e, hraised⟩
  · exact hlistings
  · rw [hraised] at h
    cases h

theorem sent_of_mem_resent {order : Order} (h : order ∈ uc.resent answers message)
    (hrun : (uc.onAssessRequests answers message).result = .ok ()) :
    ∃ m : ParseResultMessage,
      .retry m.dump (.ok ()) ∈ (uc.onAssessRequests answers message).log ∧ order ∈ m.orders := by
  obtain ⟨listings, hlistings⟩ := listed_of_ok hrun
  obtain ⟨-, q, hq, hended, -⟩ := mem_resent.mp h
  have hne : uc.retried answers message ≠ [] :=
    List.ne_nil_of_mem (mem_retried.mpr ⟨q, hq, hended, rfl⟩)
  rw [onAssessRequests_eq hlistings, if_neg hne] at hrun
  exact ⟨_, (retry_mem_log hlistings).mpr ⟨hne, hrun.symm, rfl⟩, h⟩

theorem result_of_retry_error {e : Raised} (h : answers.retry = .error e)
    (hsent : (uc.onAssessRequests answers message).log.filterMap retryMessage ≠ []) :
    (uc.onAssessRequests answers message).result = .error e := by
  obtain ⟨body, hbody⟩ := List.exists_mem_of_ne_nil _ hsent
  obtain ⟨c, hc, -⟩ := List.mem_filterMap.mp hbody
  obtain ⟨listings, hlistings⟩ := listed_of_log hc
  rw [filterMap_retryMessage_log hlistings] at hsent
  have hne : uc.retried answers message ≠ [] := fun hnone => hsent (if_pos hnone)
  rw [onAssessRequests_eq hlistings, if_neg hne, h]

theorem consume_of_error {lax : Lax} {body : Json} {e : Raised}
    (hbody : ParseResultMessage.validate lax body = .ok message)
    (h : (uc.onAssessRequests answers message).result = .error e) :
    (uc.consume answers lax body).2 = .rejected := by
  unfold consume
  simp only [hbody, h]

/--
No suitable order is lost if and only if the envelope is rejected for a price that cannot be
read, or every suitable order whose result cannot be published meets a transient error
there, or shares its id with an order that met one.
-/
theorem keepsSuitable_iff : KeepsSuitable uc answers message ↔
    ((∀ order ∈ message.orders, PriceReadable order) →
      ∀ p ∈ message.orders.zipIdx, ∀ assessment e, uc.Suits answers p.2 assessment →
        answers.publish p.2 = .error e → e = .transientError ∨
          ∃ q ∈ message.orders.zipIdx, q.1.id = p.1.id ∧
            uc.ended answers q.2 = .failed .transientError) := by
  constructor
  · rintro h hread p hp assessment e hs he
    obtain ⟨listings, hlistings⟩ := readable_iff.mpr hread
    have hrun : (uc.onAssessRequests { answers with retry := .ok () } message).result =
        .ok () := by
      rw [onAssessRequests_eq hlistings]
      split <;> rfl
    rcases (h (.ok ())).1 hrun p hp assessment hs with hpub | ⟨m, hm, horder⟩
    · have hok := publish_of_published hlistings hpub
      rw [he] at hok
      cases hok
    · right
      have hmessage := dump_injective ((retry_mem_log hlistings).mp hm).2.2
      rw [hmessage] at horder
      obtain ⟨-, q, hq, hended, hid⟩ := mem_resent.mp horder
      exact ⟨q, hq, hid, hended⟩
  · rintro h retry
    constructor
    · rintro hrun p hp assessment hs
      obtain ⟨listings, hlistings⟩ := listed_of_ok hrun
      cases hpub : answers.publish p.2 with
      | ok u => exact Or.inl (published_of_suits hlistings hp hs hpub)
      | error e =>
        right
        apply sent_of_mem_resent _ hrun
        refine mem_resent.mpr ⟨List.fst_mem_of_mem_zipIdx hp, ?_⟩
        rcases h (readable_iff.mp ⟨listings, hlistings⟩) p hp assessment e hs hpub with
          rfl | ⟨q, hq, hid, hended⟩
        · refine ⟨p, hp, ?_, rfl⟩
          have hended := ended_of_suits hs
          rw [hpub] at hended
          exact hended
        · exact ⟨q, hq, hended, hid⟩
    · rintro e he hsent
      have hraised := result_of_retry_error he hsent
      exact ⟨hraised, fun lax body hbody => consume_of_error hbody hraised⟩

/-! A suitable order whose result cannot be published, since the connection is lost. -/

def oneOrder : ParseResultMessage where
  requestId := "r"
  orders := [{ id := "1", title := "t" }]

def connectionLost : Answers where
  assess _ := .ok suitable
  publish _ := .error (.other "AMQPConnectionError")
  retry := .ok ()

/-- The subscriber returns, nothing was published, and nothing is retried. -/
theorem not_keepsSuitable_connectionLost :
    (onAssessRequests ⟨60⟩ connectionLost oneOrder).result = .ok () ∧
      (∀ body, .publish body (.ok ()) ∉ (onAssessRequests ⟨60⟩ connectionLost oneOrder).log) ∧
      (onAssessRequests ⟨60⟩ connectionLost oneOrder).log.filterMap retryMessage = [] ∧
      ¬ KeepsSuitable ⟨60⟩ connectionLost oneOrder := by
  have hlistings : oneOrder.orders.mapM orderToListing =
      .ok [{ id := "1", title := "t", description := "" }] := rfl
  have hretried : retried ⟨60⟩ connectionLost oneOrder = [] := by decide
  refine ⟨?_, ?_, ?_, fun h => ?_⟩
  · rw [onAssessRequests_eq hlistings, if_pos hretried]
  · intro body hmem
    rw [onAssessRequests_eq hlistings, if_pos hretried] at hmem
    simp [batchLog, calls, connectionLost, suitable, Assessment.decide] at hmem
  · rw [filterMap_retryMessage_log hlistings, if_pos hretried]
  · have hsuits : Suits ⟨60⟩ connectionLost 0 suitable := ⟨rfl, rfl⟩
    rcases keepsSuitable_iff.mp h (readable_iff.mp ⟨_, hlistings⟩)
      ({ id := "1", title := "t" }, 0) List.mem_cons_self suitable _ hsuits rfl with
      he | ⟨q, hq, -, hended⟩
    · cases he
    · have hmem : q.1 ∈ retried ⟨60⟩ connectionLost oneOrder := mem_retried.mpr ⟨q, hq, hended, rfl⟩
      rw [hretried] at hmem
      cases hmem

end ProfiNotifications.Llm.AssessOrders
