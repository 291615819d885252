import ProfiNotifications.Foundations.WorkQueue
import ProfiNotifications.ParserWorker.Codec
import ProfiNotifications.ParserWorker.Paging

/-! # Consuming parse requests

Requests come from a queue without a dead letter queue. A request is acknowledged when its
result was published, and rejected, and so dropped, when it cannot be read or when its
processing fails. Results are published without confirms, so one may be lost although the
publisher reports no error. A request is handed out again when its delivery is lost.
-/

namespace ProfiNotifications.ParserWorker

open Transition WorkQueue

namespace ProcessParseRequest

variable {p : ProcessParseRequest} {request : ParseRequest} {cookies : AuthCookies}
  {pages : List BoardPage}

/-- The pages of a request that was processed: one after another, and as many as the request
allows and the board has. -/
structure Answered (p : ProcessParseRequest) (request : ParseRequest) (cookies : AuthCookies)
    (pages : List BoardPage) : Prop where
  session : p.cookies = .ok cookies
  chain : Cursor.Chain (p.source request cookies) BoardPage.nextCursor none pages
  count : (pages.length : ℕ∞) = min (budget request : ℕ∞)
    (Cursor.pageCount (p.source request cookies) BoardPage.nextCursor none)

theorem Answered.length_le (h : p.Answered request cookies pages) :
    pages.length ≤ budget request := by
  have hle : (pages.length : ℕ∞) ≤ budget request := h.count ▸ min_le_left _ _
  exact_mod_cast hle

theorem publish_not_mem_fetches {result : ParseResult} {cursors : List (Option String)} :
    .publish result ∉ .cookies :: fetches request cookies cursors := by
  simp [fetches]

theorem execute_cases (p : ProcessParseRequest) (request : ParseRequest) :
    (∃ e, p.cookies = .error e ∧ p.execute request = ⟨[.cookies], .error e⟩) ∨
      ∃ cookies cursors, p.cookies = .ok cookies ∧
        ((∃ e, p.execute request = ⟨.cookies :: fetches request cookies cursors, .error e⟩) ∨
          ∃ pages, p.Answered request cookies pages ∧ p.execute request =
            ⟨.cookies :: fetches request cookies cursors ++ [.publish (resultOf request pages)],
              (p.publisher (resultOf request pages)).map fun _ => resultOf request pages⟩) := by
  cases hc : p.cookies with
  | error e =>
    refine Or.inl ⟨e, rfl, ?_⟩
    rw [execute, hc]
    rfl
  | ok cookies =>
    obtain ⟨pages, stop, hwalk, hrun⟩ := p.fetchPages_walks request cookies (budget request) 0 {}
    cases stop with
    | some e =>
      refine Or.inr ⟨cookies, none :: pages.map BoardPage.nextCursor, rfl, Or.inl ⟨e, ?_⟩⟩
      rw [execute, hc]
      simp only [Logged.call, Logged.bind_ok, toNat_maxPages, hrun]
      rfl
    | none =>
      have hne : pages ≠ [] := by
        rintro rfl
        rcases hwalk.stopped.2 with hzero | ⟨hnil, -⟩
        · exact absurd hzero (Nat.ne_of_lt (Nat.lt_of_lt_of_le Nat.one_pos (le_max_left _ _)))
        · exact hnil rfl
      refine Or.inr ⟨cookies, (none :: pages.map BoardPage.nextCursor).dropLast, rfl,
        Or.inr ⟨pages, ⟨hc, hwalk.chain, hwalk.length_eq⟩, ?_⟩⟩
      rw [execute, hc]
      simp only [Logged.call, Logged.bind_ok, toNat_maxPages, hrun, ← resultOf_eq hne]
      cases p.publisher (resultOf request pages) <;> simp [Except.map]

end ProcessParseRequest

/-- The consumer of a queue, with the queues that its results are routed to. The broker hands
out as many messages at a time as the prefetch says, or any number when it is zero. -/
structure AmqpConsumer where
  reader : Reader
  queue : String
  prefetch : UInt16
  window : ℕ
  resultQueues : List String
  window_eq : prefetch ≠ 0 → window = prefetch.toNat
  nodup : resultQueues.Nodup
  apart : queue ∉ resultQueues

namespace AmqpConsumer

variable (c : AmqpConsumer)

def settlementOf {α : Type} : Except ParserError α → Settlement
  | .ok _ => .acked
  | .error _ => .rejected

def handle (p : ProcessParseRequest) (body : Body) : List Call × Settlement :=
  match c.reader.decodeRequest body with
  | .ok request =>
    let run := p.execute request
    (run.log, settlementOf run.result)
  | .error _ => ([], .rejected)

/-- A publication may have arrived or not, whatever the publisher reports. -/
def emits : Call → Bool → List (String × Body)
  | .publish result, true => c.resultQueues.map fun queue => (queue, .json (encodeResult result))
  | _, _ => []

def service : Service String Body ProcessParseRequest Call where
  main := c.queue
  prefetch := c.window
  handle := c.handle
  emits := c.emits
  deadLetter _ := none
  expires _ := false

def contents (w : World c.service) (queue : String) : List Body :=
  (w.stored.filter fun p => p.1 = queue).map Prod.snd

variable {c} {p : ProcessParseRequest} {body : Body} {w : World c.service}
  {allowed : World c.service → Action Body ProcessParseRequest → Prop}

/-- A message is handled without a publication and rejected, or its result is published at
the end. -/
theorem handle_cases (c : AmqpConsumer) (p : ProcessParseRequest) (body : Body) :
    (∃ log, c.handle p body = (log, .rejected) ∧ ∀ result, .publish result ∉ log) ∨
      ∃ request cookies pages log, c.reader.decodeRequest body = .ok request ∧
        p.Answered request cookies pages ∧ (∀ result, .publish result ∉ log) ∧
        c.handle p body =
          (log ++ [.publish (ProcessParseRequest.resultOf request pages)],
            settlementOf (p.publisher (ProcessParseRequest.resultOf request pages))) := by
  cases hd : c.reader.decodeRequest body with
  | error e =>
    refine Or.inl ⟨[], ?_, by simp⟩
    rw [handle, hd]
  | ok request =>
    have hhandle : c.handle p body =
        ((p.execute request).log, settlementOf (p.execute request).result) := by
      rw [handle, hd]
    rcases p.execute_cases request with ⟨e, -, hrun⟩ |
      ⟨cookies, cursors, -, ⟨e, hrun⟩ | ⟨pages, hanswered, hrun⟩⟩
    · rw [hrun] at hhandle
      exact Or.inl ⟨_, hhandle, by simp⟩
    · rw [hrun] at hhandle
      exact Or.inl ⟨_, hhandle,
        fun result => ProcessParseRequest.publish_not_mem_fetches⟩
    · rw [hrun] at hhandle
      refine Or.inr ⟨request, cookies, pages,
        .cookies :: ProcessParseRequest.fetches request cookies cursors, rfl, hanswered,
        fun result => ProcessParseRequest.publish_not_mem_fetches, hhandle.trans ?_⟩
      cases p.publisher (ProcessParseRequest.resultOf request pages) <;> rfl

theorem mem_emits {call : Call} {arrived : Bool} {q : String × Body} :
    q ∈ c.emits call arrived ↔ arrived = true ∧ q.1 ∈ c.resultQueues ∧
      ∃ result, call = .publish result ∧ q.2 = .json (encodeResult result) := by
  obtain ⟨queue, body⟩ := q
  cases call with
  | cookies | fetch => simp [emits]
  | publish result => cases arrived <;> simp [emits, eq_comm]

/-- The copies of a body: in the queue, in hand, or settled. -/
def bodyWeights (c : AmqpConsumer) (body : Body) : Weights c.service where
  stored q := if q.1 = c.queue ∧ q.2 = body then 1 else 0
  held d := if d.message = body then 1 else 0
  settled d := if d.message = body then 1 else 0

theorem ofStored_emits (call : Call) (arrived : Bool) :
    (c.bodyWeights body).ofStored (c.emits call arrived) = 0 := by
  apply List.sum_eq_zero
  intro n hn
  obtain ⟨q, hq, rfl⟩ := List.mem_map.mp hn
  obtain ⟨-, hqueue, -⟩ := mem_emits.mp hq
  refine if_neg ?_
  rintro ⟨heq, -⟩
  exact c.apart (heq ▸ hqueue)

theorem leftover_eq (d : Delivery c.service) : d.leftover = [] := by
  unfold Delivery.leftover
  split <;> rfl

theorem bodyWeights_kept (c : AmqpConsumer) (body : Body) : (c.bodyWeights body).Kept := by
  constructor
  · rintro message p
    simp [bodyWeights, service, Delivery.start]
  · rintro d d' arrived emitted hd
    obtain ⟨t, -, hmessage, -, -, -⟩ := Delivery.perform_eq_some hd
    simp [bodyWeights, hmessage]
  · rintro d -
    exact Nat.le_add_right _ _
  · rintro d
    simp [bodyWeights, service]
  · rintro queue message he
    cases he

theorem bodyWeights_bounded (c : AmqpConsumer) (body : Body) :
    (c.bodyWeights body).Bounded fun _ => 0 := by
  constructor
  · rintro message p
    simp [bodyWeights, service, Delivery.start]
  · rintro d d' arrived emitted hd
    obtain ⟨t, -, hmessage, -, -, rfl⟩ := Delivery.perform_eq_some hd
    have hemits : (c.bodyWeights body).ofStored (c.service.emits t arrived) = 0 :=
      ofStored_emits t arrived
    have hheld : (c.bodyWeights body).held d' = (c.bodyWeights body).held d := by
      simp only [bodyWeights, hmessage]
    rw [hemits, hheld]
  · rintro d -
    rw [leftover_eq]
    exact le_rfl
  · rintro queue message he
    cases he

/-- A posted request is in the queue, in hand or settled, as often as it was posted. -/
theorem count_posted (h : Reach c.service.step allowed {} w) (body : Body) :
    w.posted.count body = (c.contents w c.queue).count body +
      (w.inFlight.map Delivery.message).count body +
      (w.settled.map Delivery.message).count body := by
  have hkept := (c.bodyWeights_kept body).posted_le h
  have hbounded := (c.bodyWeights_bounded body).overall_le h
  have hposted : (c.bodyWeights body).ofPosted w = w.posted.count body := by
    simp only [Weights.ofPosted, bodyWeights, service, true_and, Weights.sum_map_ite]
    rfl
  have hstored : (c.bodyWeights body).ofStored w.stored = (c.contents w c.queue).count body := by
    simp only [Weights.ofStored, bodyWeights, Weights.sum_map_ite, contents, List.count,
      List.countP_map, List.countP_filter]
    exact List.countP_congr fun q _ => by simp [and_comm]
  have hheld : ∀ ds : List (Delivery c.service),
      (ds.map (c.bodyWeights body).held).sum = (ds.map Delivery.message).count body := by
    intro ds
    simp only [bodyWeights, Weights.sum_map_ite, List.count, List.countP_map]
    rfl
  have hsettled := hheld w.settled
  have horphans :
      (c.bodyWeights body).returned w = (w.orphans.map (c.bodyWeights body).held).sum := by
    simp [Weights.returned, bodyWeights, service]
  have hgained : Weights.gained (fun _ : Delivery c.service => 0) w = 0 := by
    simp [Weights.gained]
  have hsame : (c.bodyWeights body).settled = (c.bodyWeights body).held := rfl
  simp only [Weights.total, Weights.overall, hposted, hstored, hheld, hsame, hgained, horphans]
    at hkept hbounded
  omega

/-- The request of a delivery was read and answered, and its result was published at the end
and accepted by the publisher. -/
def Completed (d : Delivery c.service) : Prop :=
  ∃ request cookies pages log, c.reader.decodeRequest d.message = .ok request ∧
    d.answers.Answered request cookies pages ∧ (∀ result, .publish result ∉ log) ∧
    d.performed.map Prod.fst = log ++ [.publish (ProcessParseRequest.resultOf request pages)] ∧
    d.answers.publisher (ProcessParseRequest.resultOf request pages) = .ok ()

theorem finished_cases {d : Delivery c.service} (hd : d.pending = []) :
    (d.settlement = .acked ∧ Completed d) ∨
      (d.settlement = .rejected ∧ ∀ result, .publish result ∈ d.performed.map Prod.fst →
        ∃ e, d.answers.publisher result = .error e) := by
  have hcalls : d.performed.map Prod.fst = (c.handle d.answers d.message).1 :=
    Delivery.performed_of_done hd
  have hset : d.settlement = (c.handle d.answers d.message).2 := rfl
  rcases c.handle_cases d.answers d.message with ⟨log, hhandle, hlog⟩ |
    ⟨request, cookies, pages, log, hread, hanswered, hlog, hhandle⟩
  · rw [hhandle] at hcalls hset
    refine Or.inr ⟨hset, fun result hr => absurd hr ?_⟩
    rw [hcalls]
    exact hlog result
  · rw [hhandle] at hcalls hset
    cases hpublish : d.answers.publisher (ProcessParseRequest.resultOf request pages) with
    | ok u =>
      rw [hpublish] at hset
      exact Or.inl ⟨hset, request, cookies, pages, log, hread, hanswered, hlog, hcalls, hpublish⟩
    | error e =>
      rw [hpublish] at hset
      refine Or.inr ⟨hset, fun result hr => ?_⟩
      rw [hcalls] at hr
      rcases List.mem_append.mp hr with hr | hr
      · exact absurd hr (hlog result)
      · obtain rfl := Call.publish.inj (List.mem_singleton.mp hr)
        exact ⟨e, hpublish⟩

/--
In every run, with any answers of the session, the board and the publisher, any lost
connections and any lost publications, a request that was posted is in the queue, in hand or
settled, as often as it was posted. It is acknowledged exactly if it was read, all its pages
were fetched and its result was accepted by the publisher, once; a request that is rejected
is gone, and no result of it was accepted.
-/
theorem requests_settled (h : Reach c.service.step allowed {} w) :
    (∀ body, w.posted.count body = (c.contents w c.queue).count body +
      (w.inFlight.map Delivery.message).count body +
      (w.settled.map Delivery.message).count body) ∧
    ∀ d ∈ w.settled, (d.settlement = .acked ∧ Completed d) ∨
      (d.settlement = .rejected ∧ ∀ result, .publish result ∈ d.performed.map Prod.fst →
        ∃ e, d.answers.publisher result = .error e) :=
  ⟨count_posted h, fun d hd => finished_cases ((Service.traced h).done d hd)⟩

def exampleConsumer : AmqpConsumer where
  reader := ⟨some, fun _ => "type error"⟩
  queue := "parse.requests"
  prefetch := 8
  window := 8
  resultQueues := ["parse.results"]
  window_eq _ := rfl
  nodup := by decide
  apart := by decide

/-- A session, a board of one empty page, and a publisher without confirms. -/
def onePage : ProcessParseRequest where
  cookies := .ok ⟨"prfr_bo_tkn=abc", "ok"⟩
  board _ _ _ := .ok ⟨[], none, 0, 0⟩
  publisher _ := .ok ()

def minimal : Body := .json (.obj [("request_id", .str "r1")])

/-- A request is handed out twice, and the lost delivery publishes its result as well; another
body cannot be read. -/
def handedOutTwice : List (Action Body ProcessParseRequest) :=
  [.post minimal, .post (.malformed "eof"), .deliver 0 onePage, .disconnect 0, .deliver 0 onePage,
    .settle 0, .deliver 0 onePage, .proceed 0 true, .proceed 0 true, .proceed 0 true, .settle 0,
    .orphanProceed 0 true, .orphanProceed 0 true, .orphanProceed 0 true]

theorem requests_settled_handedOutTwice : ∃ w : World exampleConsumer.service,
    w.posted.count minimal = 1 ∧ w.settled.map Delivery.settlement = [.rejected, .acked] ∧
      1 = (exampleConsumer.contents w "parse.requests").count minimal +
        (w.inFlight.map Delivery.message).count minimal +
        (w.settled.map Delivery.message).count minimal := by
  obtain ⟨w, hrun, hposted, hsettled⟩ : ∃ w : World exampleConsumer.service,
      run (guarded exampleConsumer.service.step fun _ _ => true) {} handedOutTwice = some w ∧
        w.posted.count minimal = 1 ∧
          w.settled.map Delivery.settlement = [.rejected, .acked] := ⟨_, rfl, rfl, rfl⟩
  refine ⟨w, hposted, hsettled, ?_⟩
  rw [← hposted]
  exact (requests_settled (Reach.of_run hrun)).1 minimal

theorem onlyPublished {queue : String} (hq : queue ∈ c.resultQueues) :
    c.service.OnlyPublished queue := by
  constructor
  · rintro rfl
    exact c.apart hq
  · rintro queue' h
    cases h

theorem eq_root_of_descends {root : Body} {queue : String} (h : c.service.Descends root queue body)
    (hq : queue = c.queue) : body = root := by
  cases h with
  | root => rfl
  | emitted _ _ he =>
    obtain ⟨-, hqueue, -⟩ := mem_emits.mp he
    exact absurd (hq ▸ hqueue) c.apart
  | deadLettered _ hd => cases hd

theorem message_posted (h : Reach c.service.step allowed {} w) {d : Delivery c.service}
    (hd : d ∈ w.deliveries) : d.message ∈ w.posted := by
  obtain ⟨root, hroot, hdesc⟩ := (Service.traced h).delivered d hd
  exact eq_root_of_descends hdesc rfl ▸ hroot

def requestId (c : AmqpConsumer) (body : Body) : Option String :=
  (c.reader.decodeRequest body).toOption.map ParseRequest.requestId

def resultId : Body → Option Json
  | .json json => json.field "request_id"
  | .malformed _ => none

theorem resultId_encodeResult (result : ParseResult) :
    resultId (.json (encodeResult result)) = some (.str result.requestId) := rfl

/-- A result is published by a delivery of a request that was posted, with its id and pages. -/
theorem result_origin (h : Reach c.service.step allowed {} w) {queue : String}
    (hq : queue ∈ c.resultQueues) (hb : body ∈ c.contents w queue) :
    ∃ d ∈ w.deliveries, d.message ∈ w.posted ∧ ∃ request cookies pages,
      c.reader.decodeRequest d.message = .ok request ∧
      d.answers.Answered request cookies pages ∧
      body = .json (encodeResult (ProcessParseRequest.resultOf request pages)) := by
  obtain ⟨q, hfilter, rfl⟩ := List.mem_map.mp hb
  obtain ⟨hstored, hqueue⟩ := List.mem_filter.mp hfilter
  obtain rfl := of_decide_eq_true hqueue
  obtain ⟨d, hd, call, hcall, hemit⟩ := Service.published h (onlyPublished hq) hstored
  obtain ⟨-, -, result, hpublish, hbody⟩ := mem_emits.mp hemit
  have hmem : .publish result ∈ (c.handle d.answers d.message).1 :=
    hpublish ▸ @Delivery.mem_calls_of_performed _ _ _ _ _ d call.1 call.2 hcall
  refine ⟨d, hd, message_posted h hd, ?_⟩
  rcases c.handle_cases d.answers d.message with ⟨log, hhandle, hlog⟩ |
    ⟨request, cookies, pages, log, hread, hanswered, hlog, hhandle⟩
  · rw [hhandle] at hmem
    exact absurd hmem (hlog result)
  · rw [hhandle] at hmem
    rcases List.mem_append.mp hmem with hmem | hmem
    · exact absurd hmem (hlog result)
    · obtain rfl := Call.publish.inj (List.mem_singleton.mp hmem)
      exact ⟨request, cookies, pages, hread, hanswered, hbody⟩

def isPublish : Call → Bool
  | .publish _ => true
  | _ => false

/-- The results that are owed for an id: one for each request that is waiting, or in hand with
its publication ahead, and those in a queue of results. -/
def idWeights (c : AmqpConsumer) (queue id : String) : Weights c.service where
  stored q :=
    if q.1 = c.queue then if c.requestId q.2 = some id then 1 else 0
    else if q.1 = queue ∧ resultId q.2 = some (.str id) then 1 else 0
  held d := if c.requestId d.message = some id ∧ d.pending.any isPublish = true then 1 else 0
  settled _ := 0

variable {queue id : String}

theorem eq_of_append_cons {β : Type*} {before rest log : List β} {x y : β}
    (h : before ++ x :: rest = log ++ [y]) (hx : x ∉ log) : rest = [] ∧ x = y := by
  rcases List.eq_nil_or_concat rest with rfl | ⟨rest', last, rfl⟩
  · obtain ⟨-, hlast⟩ := List.append_inj' h rfl
    exact ⟨rfl, (List.cons.inj hlast).1⟩
  · have hsplit : (before ++ x :: rest') ++ [last] = log ++ [y] := by
      rw [← h]
      simp
    obtain ⟨hbefore, -⟩ := List.append_inj' hsplit rfl
    exact absurd (hbefore ▸ List.mem_append_right _ List.mem_cons_self) hx

theorem publish_last {d : Delivery c.service} {result : ParseResult} {rest : List Call}
    (h : d.pending = .publish result :: rest) :
    rest = [] ∧ c.requestId d.message = some result.requestId := by
  have hcalls : d.performed.map Prod.fst ++ .publish result :: rest =
      (c.handle d.answers d.message).1 := h ▸ d.calls_eq
  rcases c.handle_cases d.answers d.message with ⟨log, hhandle, hlog⟩ |
    ⟨request, cookies, pages, log, hread, -, hlog, hhandle⟩
  · have hmem : .publish result ∈ (c.handle d.answers d.message).1 :=
      hcalls ▸ List.mem_append_right _ List.mem_cons_self
    rw [hhandle] at hmem
    exact absurd hmem (hlog result)
  · rw [hhandle] at hcalls
    obtain ⟨hrest, hresult⟩ := eq_of_append_cons hcalls (hlog result)
    obtain rfl := Call.publish.inj hresult
    refine ⟨hrest, ?_⟩
    rw [requestId, hread]
    rfl

theorem ofStored_emits_publish (queue id : String) (result : ParseResult) (arrived : Bool) :
    (c.idWeights queue id).ofStored (c.emits (.publish result) arrived) ≤
      if result.requestId = id then 1 else 0 := by
  cases arrived with
  | false => exact Nat.zero_le _
  | true =>
    have hstored : ∀ q ∈ c.resultQueues, (c.idWeights queue id).stored
        (q, .json (encodeResult result)) = if q = queue ∧ result.requestId = id then 1 else 0 := by
      intro q hq
      have hne : q ≠ c.queue := fun h => c.apart (h ▸ hq)
      simp only [idWeights, hne, if_false, resultId_encodeResult, Option.some.injEq,
        Json.str.injEq]
    have hsum : (c.idWeights queue id).ofStored (c.emits (.publish result) true) =
        c.resultQueues.countP fun q => q = queue ∧ result.requestId = id := by
      rw [← Weights.sum_map_ite, Weights.ofStored, emits, List.map_map]
      exact congrArg List.sum (List.map_congr_left hstored)
    rw [hsum]
    by_cases h : result.requestId = id
    · simp only [h, and_true, if_true]
      exact List.nodup_iff_count_le_one.mp c.nodup queue
    · simp [h]

theorem idWeights_bounded (c : AmqpConsumer) (queue id : String) :
    (c.idWeights queue id).Bounded fun _ => 0 := by
  constructor
  · rintro message p
    simp only [idWeights, service, Delivery.start, if_true]
    split
    · rename_i h
      rw [if_pos h.1]
    · exact Nat.zero_le _
  · rintro d d' arrived emitted hd
    obtain ⟨t, hpending, hmessage, -, -, rfl⟩ := Delivery.perform_eq_some hd
    cases t with
    | cookies | fetch =>
      have hheld : (c.idWeights queue id).held d' = (c.idWeights queue id).held d := by
        simp only [idWeights, hmessage, hpending, List.any_cons, isPublish, Bool.false_or]
      rw [hheld]
      exact le_rfl
    | publish result =>
      obtain ⟨hlast, hid⟩ := publish_last hpending
      have hemits : (c.idWeights queue id).ofStored (c.service.emits (.publish result) arrived) ≤
          if result.requestId = id then 1 else 0 := ofStored_emits_publish queue id result arrived
      have hd' : (c.idWeights queue id).held d' = 0 := by
        simp [idWeights, hlast]
      have hd : (c.idWeights queue id).held d = if result.requestId = id then 1 else 0 := by
        simp [idWeights, hpending, hid, isPublish]
      omega
  · rintro d -
    rw [leftover_eq]
    exact Nat.zero_le _
  · rintro queue message he
    cases he

theorem results_le (h : Reach c.service.step allowed {} w) (hq : queue ∈ c.resultQueues)
    (id : String) :
    (c.contents w queue).countP (fun body => resultId body = some (.str id)) ≤
      w.posted.countP (fun body => c.requestId body = some id) +
        (w.orphans.map Delivery.message).countP fun body => c.requestId body = some id := by
  have hbounded := (c.idWeights_bounded queue id).overall_le h
  have hne : queue ≠ c.queue := fun h => c.apart (h ▸ hq)
  have hmain : ∀ body, (c.idWeights queue id).stored (c.service.main, body) =
      if c.requestId body = some id then 1 else 0 := fun body => if_pos rfl
  have hposted : (c.idWeights queue id).ofPosted w =
      w.posted.countP fun body => c.requestId body = some id := by
    simp only [Weights.ofPosted, hmain, Weights.sum_map_ite]
  have hreturned : (c.idWeights queue id).returned w =
      (w.orphans.map Delivery.message).countP fun body => c.requestId body = some id := by
    simp only [Weights.returned, hmain, Weights.sum_map_ite, List.countP_map]
    rfl
  have hgained : Weights.gained (fun _ : Delivery c.service => 0) w = 0 := by
    simp [Weights.gained]
  have hresults : (c.contents w queue).countP (fun body => resultId body = some (.str id)) ≤
      (c.idWeights queue id).ofStored w.stored := by
    have hcount : (c.contents w queue).countP (fun body => resultId body = some (.str id)) =
        w.stored.countP fun q => q.1 = queue ∧ resultId q.2 = some (.str id) := by
      rw [contents, List.countP_map, List.countP_filter]
      exact List.countP_congr fun q _ => by simp [and_comm]
    rw [hcount, ← Weights.sum_map_ite, Weights.ofStored]
    refine List.sum_le_sum fun q _ => ?_
    by_cases hmain : q.1 = c.queue
    · rw [if_neg fun hqueue => hne (hqueue.1.symm.trans hmain)]
      exact Nat.zero_le _
    · simp only [idWeights, hmain, if_false, le_refl]
  simp only [Weights.overall] at hbounded
  omega

/--
In every run, a result in a queue was published by a delivery of a request that was posted:
it has the id of the request, and the orders of the pages that were fetched for it, one after
another, as many as the request allows and the board has. There are at most as many results
with an id as requests with it that were posted, and deliveries of them that were lost.
-/
theorem results_published (h : Reach c.service.step allowed {} w) {queue : String}
    (hq : queue ∈ c.resultQueues) :
    (∀ body ∈ c.contents w queue, ∃ d ∈ w.deliveries, d.message ∈ w.posted ∧
      ∃ request cookies pages, c.reader.decodeRequest d.message = .ok request ∧
        d.answers.Answered request cookies pages ∧
        body = .json (encodeResult (ProcessParseRequest.resultOf request pages))) ∧
    ∀ id, (c.contents w queue).countP (fun body => resultId body = some (.str id)) ≤
      w.posted.countP (fun body => c.requestId body = some id) +
        (w.orphans.map Delivery.message).countP fun body => c.requestId body = some id :=
  ⟨fun _ hb => result_origin h hq hb, results_le h hq⟩

/-- One request, one lost delivery, two results. -/
theorem results_published_handedOutTwice : ∃ w : World exampleConsumer.service,
    (exampleConsumer.contents w "parse.results").length = 2 ∧
      ∀ id, (exampleConsumer.contents w "parse.results").countP
          (fun body => resultId body = some (.str id)) ≤
        w.posted.countP (fun body => exampleConsumer.requestId body = some id) +
          (w.orphans.map Delivery.message).countP fun body =>
            exampleConsumer.requestId body = some id := by
  obtain ⟨w, hrun, hresults⟩ : ∃ w : World exampleConsumer.service,
      run (guarded exampleConsumer.service.step fun _ _ => true) {} handedOutTwice = some w ∧
        (exampleConsumer.contents w "parse.results").length = 2 := ⟨_, rfl, rfl⟩
  have hq : "parse.results" ∈ exampleConsumer.resultQueues := List.mem_cons_self
  exact ⟨w, hresults, (results_published (Reach.of_run hrun) hq).2⟩

end AmqpConsumer

end ProfiNotifications.ParserWorker
