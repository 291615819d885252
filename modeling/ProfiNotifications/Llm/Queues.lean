import ProfiNotifications.Foundations.WorkQueue
import ProfiNotifications.Llm.Retry

/-! # The queues of the llm service

All queues hang on the default exchange, so a routing key is the name of a queue. The
input queue dead-letters what is rejected, the retry queue returns to the input what has
waited for its time to live, and results go to a queue of their own. The subscriber is
the handler of the input queue.
-/

namespace ProfiNotifications.Llm

open Schemas WorkQueue

/-- A declared queue; `deadLetter` names an exchange and a routing key. -/
structure RabbitQueue where
  name : String
  messageTtl : Option ℕ := none
  deadLetter : Option (String × String) := none
  deriving DecidableEq, Repr

def buildInputQueue (name : String) : RabbitQueue where
  name := name
  deadLetter := some ("", name ++ ".dlq")

def buildDeadLetterQueue (inputQueueName : String) : RabbitQueue where
  name := inputQueueName ++ ".dlq"

def buildRetryQueue (inputQueueName : String) (ttlMs : ℕ) : RabbitQueue where
  name := inputQueueName ++ ".retry"
  messageTtl := some ttlMs
  deadLetter := some ("", inputQueueName)

def buildResultQueue (name : String) : RabbitQueue where
  name := name

structure MessagingSettings where
  inputQueue : String := "assess.requests"
  resultQueue : String := "assess.results"
  prefetch : ℕ := 1
  retryTtlMs : ℕ := 15000
  prefetch_pos : 0 < prefetch
  retryTtlMs_pos : 0 < retryTtlMs
  result_apart : resultQueue ∉ [inputQueue, inputQueue ++ ".dlq", inputQueue ++ ".retry"]

namespace MessagingSettings

variable (settings : MessagingSettings)

def dlq : String := (buildDeadLetterQueue settings.inputQueue).name

def retryQueue : String := (buildRetryQueue settings.inputQueue settings.retryTtlMs).name

/-- What `build_app` declares. -/
def queues : List RabbitQueue :=
  [buildInputQueue settings.inputQueue, buildDeadLetterQueue settings.inputQueue,
    buildRetryQueue settings.inputQueue settings.retryTtlMs,
    buildResultQueue settings.resultQueue]

def declared (queue : String) : Option RabbitQueue :=
  settings.queues.find? fun q => q.name = queue

/-- The queue that the default exchange routes to. -/
def route (routingKey : String) : Option String := (settings.declared routingKey).map (·.name)

/-- Where a queue puts what it rejects or lets expire; only the default exchange is bound. -/
def deadLetter (queue : String) : Option String :=
  ((settings.declared queue).bind RabbitQueue.deadLetter).bind fun (exchange, routingKey) =>
    if exchange = "" then settings.route routingKey else none

def expires (queue : String) : Bool :=
  ((settings.declared queue).bind RabbitQueue.messageTtl).isSome

theorem dlq_ne : settings.dlq ≠ settings.inputQueue := by
  intro h
  have hlen := congrArg String.length h
  simp [dlq, buildDeadLetterQueue, String.length_append] at hlen

theorem retryQueue_ne : settings.retryQueue ≠ settings.inputQueue := by
  intro h
  have hlen := congrArg String.length h
  simp [retryQueue, buildRetryQueue, String.length_append] at hlen

theorem retryQueue_ne_dlq : settings.retryQueue ≠ settings.dlq := by
  intro h
  have hlen := congrArg String.length h
  simp only [retryQueue, dlq, buildRetryQueue, buildDeadLetterQueue, String.length_append] at hlen
  have htails : ".retry".length = ".dlq".length := Nat.add_left_cancel hlen
  revert htails
  decide

theorem resultQueue_ne : settings.resultQueue ≠ settings.inputQueue ∧
    settings.resultQueue ≠ settings.dlq ∧ settings.resultQueue ≠ settings.retryQueue := by
  have h := settings.result_apart
  simp only [List.mem_cons, List.not_mem_nil, or_false, not_or] at h
  exact h

theorem declared_inputQueue :
    settings.declared settings.inputQueue = some (buildInputQueue settings.inputQueue) := by
  simp [declared, queues, buildInputQueue]

theorem declared_dlq :
    settings.declared settings.dlq = some (buildDeadLetterQueue settings.inputQueue) := by
  rw [declared, queues, List.find?_cons_of_neg, List.find?_cons_of_pos]
  · exact decide_eq_true rfl
  · exact fun hd => settings.dlq_ne.symm (of_decide_eq_true hd)

theorem declared_retryQueue : settings.declared settings.retryQueue =
    some (buildRetryQueue settings.inputQueue settings.retryTtlMs) := by
  rw [declared, queues, List.find?_cons_of_neg, List.find?_cons_of_neg, List.find?_cons_of_pos]
  · exact decide_eq_true rfl
  · exact fun hd => settings.retryQueue_ne_dlq.symm (of_decide_eq_true hd)
  · exact fun hd => settings.retryQueue_ne.symm (of_decide_eq_true hd)

theorem declared_resultQueue :
    settings.declared settings.resultQueue = some (buildResultQueue settings.resultQueue) := by
  obtain ⟨h, hdlq, hretry⟩ := settings.resultQueue_ne
  rw [declared, queues, List.find?_cons_of_neg, List.find?_cons_of_neg, List.find?_cons_of_neg,
    List.find?_cons_of_pos]
  · exact decide_eq_true rfl
  · exact fun hd => hretry.symm (of_decide_eq_true hd)
  · exact fun hd => hdlq.symm (of_decide_eq_true hd)
  · exact fun hd => h.symm (of_decide_eq_true hd)

@[simp] theorem deadLetter_inputQueue :
    settings.deadLetter settings.inputQueue = some settings.dlq := by
  have hroute : settings.route settings.dlq = some settings.dlq := by
    rw [route, declared_dlq]
    rfl
  rw [deadLetter, declared_inputQueue]
  exact hroute

@[simp] theorem deadLetter_retryQueue :
    settings.deadLetter settings.retryQueue = some settings.inputQueue := by
  have hroute : settings.route settings.inputQueue = some settings.inputQueue := by
    rw [route, declared_inputQueue]
    rfl
  rw [deadLetter, declared_retryQueue]
  exact hroute

@[simp] theorem deadLetter_dlq : settings.deadLetter settings.dlq = none := by
  rw [deadLetter, declared_dlq]
  rfl

@[simp] theorem deadLetter_resultQueue : settings.deadLetter settings.resultQueue = none := by
  rw [deadLetter, declared_resultQueue]
  rfl

theorem of_declared {queue : String} {q : RabbitQueue} (h : settings.declared queue = some q) :
    q.name = queue ∧ q ∈ settings.queues := by
  unfold declared at h
  have hname := List.find?_some h
  exact ⟨of_decide_eq_true hname, List.mem_of_find?_eq_some h⟩

theorem expires_iff {queue : String} :
    settings.expires queue = true ↔ queue = settings.retryQueue := by
  constructor
  · rintro h
    obtain ⟨ttl, httl⟩ := Option.isSome_iff_exists.mp h
    obtain ⟨q, hq, hq'⟩ := Option.bind_eq_some_iff.mp httl
    obtain ⟨hname, hmem⟩ := settings.of_declared hq
    simp only [queues, List.mem_cons, List.not_mem_nil, or_false] at hmem
    rcases hmem with rfl | rfl | rfl | rfl
    · cases hq'
    · cases hq'
    · exact hname.symm
    · cases hq'
  · rintro rfl
    rw [expires, declared_retryQueue]
    rfl

theorem deadLetter_cases {queue queue' : String} (h : settings.deadLetter queue = some queue') :
    (queue = settings.inputQueue ∧ queue' = settings.dlq) ∨
      (queue = settings.retryQueue ∧ queue' = settings.inputQueue) := by
  obtain ⟨target, htarget, -⟩ := Option.bind_eq_some_iff.mp h
  obtain ⟨q, hq, -⟩ := Option.bind_eq_some_iff.mp htarget
  obtain ⟨rfl, hmem⟩ := settings.of_declared hq
  simp only [queues, List.mem_cons, List.not_mem_nil, or_false] at hmem
  rcases hmem with rfl | rfl | rfl | rfl
  · exact Or.inl ⟨rfl, Option.some.inj (h.symm.trans settings.deadLetter_inputQueue)⟩
  · cases h.symm.trans settings.deadLetter_dlq
  · exact Or.inr ⟨rfl, Option.some.inj (h.symm.trans settings.deadLetter_retryQueue)⟩
  · cases h.symm.trans settings.deadLetter_resultQueue

end MessagingSettings

/-- The wired service, with the readers of its transport. -/
structure AssessService where
  settings : MessagingSettings
  uc : AssessOrders
  lax : Lax

def AssessOrders.Settlement.toWorkQueue : AssessOrders.Settlement → WorkQueue.Settlement
  | .acked => .acked
  | .rejected => .rejected

namespace AssessService

variable (s : AssessService)

/-- The queue that a call publishes to, with the message and the answer. -/
def publication : Call → Option ((String × Json) × Except Raised Unit)
  | .assess _ _ => none
  | .publish body answer => some ((s.settings.resultQueue, body), answer)
  | .retry body answer => some ((s.settings.retryQueue, body), answer)

/-- A confirmed publication has arrived, and a failed one may have. -/
def emits (call : Call) (arrived : Bool) : List (String × Json) :=
  match s.publication call with
  | none => []
  | some (p, .ok ()) => [p]
  | some (p, .error _) => if arrived then [p] else []

def service : Service String Json Answers Call where
  main := s.settings.inputQueue
  prefetch := s.settings.prefetch
  handle answers body :=
    let (log, settlement) := s.uc.consume answers s.lax body
    (log, settlement.toWorkQueue)
  emits := s.emits
  deadLetter := s.settings.deadLetter
  expires := s.settings.expires

/-- The orders of an envelope; one that cannot be read has none. -/
def ordersOf (body : Json) : List Order :=
  match ParseResultMessage.validate s.lax body with
  | .ok message => message.orders
  | .errors _ => []

variable {s}

theorem ordersOf_of_ok {body : Json} {message : ParseResultMessage}
    (h : ParseResultMessage.validate s.lax body = .ok message) :
    s.ordersOf body = message.orders := by
  unfold ordersOf
  rw [h]

@[simp] theorem ordersOf_dump (message : ParseResultMessage) :
    s.ordersOf message.dump = message.orders :=
  ordersOf_of_ok (OrderCore.Schemas.ParseResultMessage.validate_dump message)

/-- An envelope has no readable batch, or the subscriber is run on it. -/
theorem handle_cases (s : AssessService) (answers : Answers) (body : Json) :
    (s.ordersOf body = [] ∧ s.service.handle answers body = ([], .rejected)) ∨
      ∃ message, ParseResultMessage.validate s.lax body = .ok message ∧
        (s.service.handle answers body).1 = (s.uc.onAssessRequests answers message).log ∧
        ((s.service.handle answers body).2 = .acked ↔
          (s.uc.onAssessRequests answers message).result = .ok ()) := by
  cases hv : ParseResultMessage.validate s.lax body with
  | errors errs =>
    left
    simp only [ordersOf, service, AssessOrders.consume, hv]
    exact ⟨trivial, rfl⟩
  | ok message =>
    right
    refine ⟨message, rfl, ?_⟩
    simp only [service, AssessOrders.consume, hv]
    cases hr : (s.uc.onAssessRequests answers message).result with
    | ok u => exact ⟨rfl, by simp [AssessOrders.Settlement.toWorkQueue]⟩
    | error e => exact ⟨rfl, by simp [AssessOrders.Settlement.toWorkQueue]⟩

theorem emits_cases (call : Call) (arrived : Bool) :
    s.emits call arrived = [] ∨
      ∃ p answer, s.publication call = some (p, answer) ∧ s.emits call arrived = [p] := by
  unfold emits
  split
  · exact Or.inl rfl
  · exact Or.inr ⟨_, _, ‹_›, rfl⟩
  · rename_i p e hp
    cases arrived
    · exact Or.inl rfl
    · exact Or.inr ⟨p, .error e, hp, rfl⟩

theorem publication_retryQueue {call : Call} {body : Json} {answer : Except Raised Unit}
    (h : s.publication call = some ((s.settings.retryQueue, body), answer)) :
    call = .retry body answer := by
  cases call with
  | assess listing a => cases h
  | publish b a =>
    obtain ⟨hp, -⟩ := Prod.mk.inj (Option.some.inj h)
    exact absurd (Prod.mk.inj hp).1 s.settings.resultQueue_ne.2.2
  | retry b a =>
    obtain ⟨hp, rfl⟩ := Prod.mk.inj (Option.some.inj h)
    obtain ⟨-, rfl⟩ := Prod.mk.inj hp
    rfl

theorem publication_resultQueue {call : Call} {arrived : Bool} {body : Json}
    (h : (s.settings.resultQueue, body) ∈ s.emits call arrived) :
    ∃ answer, call = .publish body answer := by
  rcases emits_cases (s := s) call arrived with hnone | ⟨p, answer, hp, hone⟩
  · rw [hnone] at h
    cases h
  · rw [hone] at h
    obtain rfl := List.mem_singleton.mp h
    cases call with
    | assess listing a => cases hp
    | publish b a =>
      obtain ⟨hp, -⟩ := Prod.mk.inj (Option.some.inj hp)
      obtain ⟨-, rfl⟩ := Prod.mk.inj hp
      exact ⟨a, rfl⟩
    | retry b a =>
      obtain ⟨hp, -⟩ := Prod.mk.inj (Option.some.inj hp)
      exact absurd (Prod.mk.inj hp).1.symm s.settings.resultQueue_ne.2.2

end AssessService

end ProfiNotifications.Llm
