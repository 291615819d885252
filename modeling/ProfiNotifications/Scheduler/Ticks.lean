import ProfiNotifications.ParserWorker.Consumer
import ProfiNotifications.Scheduler.Command

/-! # The results of the ticks

Every tick of the scheduler puts a command with an id of its own into the queue of the
parser worker. It has one result at most, unless its delivery is lost, and the result is
about the pages that the settings ask for.
-/

namespace ProfiNotifications.Scheduler

open ParserWorker (Body ProcessParseRequest AmqpConsumer encodeResult)
open Transition WorkQueue

/-- The body that is published at a tick. -/
def tick (settings : SchedulerSettings) (newId : String) : Body :=
  .json (toParseRequest (build settings newId))

/-- What is put into the queue are ticks, whose ids have not been used. -/
def OnlyTicks (settings : SchedulerSettings) {c : AmqpConsumer} (w : World c.service) :
    Action Body ProcessParseRequest → Prop
  | .post message => ∃ newId, message = tick settings newId ∧ message ∉ w.posted
  | _ => True

variable {settings : SchedulerSettings} {c : AmqpConsumer} {w : World c.service} {id : String}

theorem fits_build_iff : (build settings id).Fits ↔ settings.parseMaxPages < 2 ^ 32 := by
  constructor
  · rintro ⟨-, hmax⟩
    exact (hmax _ rfl).2
  · rintro h
    refine ⟨show (10 : ℤ) < 2 ^ 32 by decide, ?_⟩
    rintro n hn
    obtain rfl := Option.some.inj hn
    exact ⟨settings.parseMaxPages_pos.le, h⟩

theorem decodeRequest_tick_eq_ok {request : ParserWorker.ParseRequest} :
    c.reader.decodeRequest (tick settings id) = .ok request ↔
      settings.parseMaxPages < 2 ^ 32 ∧ request = (build settings id).request := by
  rw [tick, decodeRequest_eq_ok, fits_build_iff]

theorem posted_ticks (h : Reach c.service.step (OnlyTicks settings) {} w) :
    w.posted.Nodup ∧ ∀ message ∈ w.posted, ∃ newId, message = tick settings newId := by
  induction h with
  | refl => exact ⟨List.nodup_nil, nofun⟩
  | tail _ hallowed hs ih =>
    obtain ⟨hnodup, hticks⟩ := ih
    cases Service.step_cases hs with
    | @posted message =>
      obtain ⟨newId, rfl, hnew⟩ := hallowed
      refine ⟨List.nodup_append.mpr ⟨hnodup, List.nodup_singleton _, ?_⟩, ?_⟩
      · rintro m hm m' hm' rfl
        exact hnew (List.mem_singleton.mp hm' ▸ hm)
      · rintro m hm
        rcases List.mem_append.mp hm with hm | hm
        · exact hticks m hm
        · exact ⟨newId, List.mem_singleton.mp hm⟩
    | delivered | proceeded | settled | disconnected | orphanProceeded | expired =>
      exact ⟨hnodup, hticks⟩

theorem requestId_tick : c.requestId (tick settings id) =
    if settings.parseMaxPages < 2 ^ 32 then some id else none := by
  unfold AmqpConsumer.requestId
  split
  · rename_i h
    rw [decodeRequest_tick_eq_ok.mpr ⟨h, rfl⟩]
    rfl
  · rename_i h
    cases hd : c.reader.decodeRequest (tick settings id) with
    | error e => rfl
    | ok request => exact absurd (decodeRequest_tick_eq_ok.mp hd).1 h

theorem countP_requestId_le {bodies : List Body}
    (h : ∀ body ∈ bodies, ∃ newId, body = tick settings newId) (id : String) :
    bodies.countP (fun body => c.requestId body = some id) ≤ bodies.count (tick settings id) := by
  refine List.countP_mono_left fun body hbody hid => ?_
  obtain ⟨newId, rfl⟩ := h body hbody
  have hid := of_decide_eq_true hid
  rw [requestId_tick] at hid
  split at hid
  · obtain rfl := Option.some.inj hid
    exact beq_self_eq_true _
  · cases hid

/--
A tick is in the queue, in hand or settled, once. A result belongs to a tick: it has its
id, and the orders of at most as many pages as the settings allow, fetched for the command
of the tick. There is one result for a tick, and one more for each of its deliveries that
was lost. When the settings ask for 2^32 pages or more, there is no result at all.
-/
theorem ticks_answered (h : Reach c.service.step (OnlyTicks settings) {} w) {queue : String}
    (hq : queue ∈ c.resultQueues) :
    (∀ id, tick settings id ∈ w.posted → (c.contents w c.queue).count (tick settings id) +
      (w.inFlight.map Delivery.message).count (tick settings id) +
      (w.settled.map Delivery.message).count (tick settings id) = 1) ∧
    (∀ body ∈ c.contents w queue, ∃ id, tick settings id ∈ w.posted ∧ ∃ d ∈ w.deliveries,
      d.message = tick settings id ∧ ∃ cookies pages,
        d.answers.Answered (build settings id).request cookies pages ∧
        (pages.length : ℤ) ≤ settings.parseMaxPages ∧
        body = .json (encodeResult
          (ProcessParseRequest.resultOf (build settings id).request pages))) ∧
    (∀ id, (c.contents w queue).countP
        (fun body => AmqpConsumer.resultId body = some (.str id)) ≤
      1 + (w.orphans.map Delivery.message).count (tick settings id)) ∧
    (2 ^ 32 ≤ settings.parseMaxPages → c.contents w queue = []) := by
  obtain ⟨hnodup, hticks⟩ := posted_ticks h
  have horigin : ∀ body ∈ c.contents w queue, settings.parseMaxPages < 2 ^ 32 ∧
      ∃ id, tick settings id ∈ w.posted ∧ ∃ d ∈ w.deliveries, d.message = tick settings id ∧
        ∃ cookies pages, d.answers.Answered (build settings id).request cookies pages ∧
          (pages.length : ℤ) ≤ settings.parseMaxPages ∧
          body = .json (encodeResult
            (ProcessParseRequest.resultOf (build settings id).request pages)) := by
    intro body hbody
    obtain ⟨d, hd, hposted, request, cookies, pages, hread, hanswered, hresult⟩ :=
      AmqpConsumer.result_origin h hq hbody
    obtain ⟨id, hid⟩ := hticks _ hposted
    rw [hid] at hread hposted
    obtain ⟨hlt, rfl⟩ := decodeRequest_tick_eq_ok.mp hread
    refine ⟨hlt, id, hposted, d, hd, hid, cookies, pages, hanswered, ?_, hresult⟩
    have hfits : (build settings id).Fits := fits_build_iff.mpr hlt
    have hbudget := budget_request hfits
    have hmax : (build settings id).budget = settings.parseMaxPages :=
      max_eq_right settings.parseMaxPages_pos
    have hle := hanswered.length_le
    omega
  refine ⟨?_, fun body hbody => (horigin body hbody).2, ?_, ?_⟩
  · intro id hid
    rw [← AmqpConsumer.count_posted h]
    exact List.count_eq_one_of_mem hnodup hid
  · intro id
    have horphans : ∀ body ∈ w.orphans.map Delivery.message,
        ∃ newId, body = tick settings newId := by
      intro body hbody
      obtain ⟨d, hd, rfl⟩ := List.mem_map.mp hbody
      exact hticks _ (AmqpConsumer.message_posted h (World.mem_deliveries.mpr (Or.inr (Or.inl hd))))
    have hle := AmqpConsumer.results_le h hq id
    have hposted := countP_requestId_le (c := c) hticks id
    have hreturned := countP_requestId_le (c := c) horphans id
    have hone := List.nodup_iff_count_le_one.mp hnodup (tick settings id)
    omega
  · intro hge
    apply List.eq_nil_iff_forall_not_mem.mpr
    intro body hbody
    exact absurd (horigin body hbody).1 (not_lt.mpr hge)

def everyTick : SchedulerSettings := {}

/-- Two ticks; the delivery of the first one is lost, and it publishes its result twice. -/
def twoTicks : List (Action Body ProcessParseRequest) :=
  [.post (tick everyTick "a"), .post (tick everyTick "b"),
    .deliver 0 AmqpConsumer.onePage, .disconnect 0, .deliver 1 AmqpConsumer.onePage,
    .proceed 0 true, .proceed 0 true, .proceed 0 true, .settle 0, .orphanProceed 0 true,
    .orphanProceed 0 true, .orphanProceed 0 true]

/-- Ticks of two ids that were not posted before. -/
def newTick {c : AmqpConsumer} (w : World c.service) : Action Body ProcessParseRequest → Bool
  | .post message =>
    (message = tick everyTick "a" ∨ message = tick everyTick "b") ∧ message ∉ w.posted
  | _ => true

theorem ticks_answered_twoTicks : ∃ w : World AmqpConsumer.exampleConsumer.service,
    (AmqpConsumer.exampleConsumer.contents w "parse.results").length = 2 ∧
      (AmqpConsumer.exampleConsumer.contents w "parse.results").countP
          (fun body => AmqpConsumer.resultId body = some (.str "a")) ≤
        1 + (w.orphans.map Delivery.message).count (tick everyTick "a") := by
  obtain ⟨w, hrun, hresults⟩ : ∃ w : World AmqpConsumer.exampleConsumer.service,
      run (guarded AmqpConsumer.exampleConsumer.service.step newTick) {} twoTicks = some w ∧
        (AmqpConsumer.exampleConsumer.contents w "parse.results").length = 2 := ⟨_, rfl, rfl⟩
  have hreach : Reach AmqpConsumer.exampleConsumer.service.step (OnlyTicks everyTick) {} w := by
    refine (Reach.of_run hrun).mono fun w a ha => ?_
    cases a with
    | post message =>
      obtain ⟨hid, hnew⟩ := of_decide_eq_true ha
      rcases hid with rfl | rfl
      · exact ⟨"a", rfl, hnew⟩
      · exact ⟨"b", rfl, hnew⟩
    | _ => trivial
  have hq : "parse.results" ∈ AmqpConsumer.exampleConsumer.resultQueues := List.mem_cons_self
  exact ⟨w, hresults, (ticks_answered hreach hq).2.2.1 "a"⟩

end ProfiNotifications.Scheduler
