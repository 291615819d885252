import Mathlib.Data.List.Basic

/-! # The queues of the notifications service

The main queue dead-letters rejected messages to the retry exchange, the retry queue
returns expired messages to the main exchange, and the dead letter queue is bound to the
dead-letter exchange. All exchanges are direct, so a message goes to the queues that
are bound with its routing key.
-/

namespace ProfiNotifications.Notifications

/-- The names of exchanges, and of queues, are different. -/
structure TopologyConfig where
  exchange : String
  queue : String
  routingKey : String
  retryExchange : String
  retryQueue : String
  dlx : String
  dlq : String
  retryDelayMs : ℕ
  exchanges_nodup : [exchange, retryExchange, dlx].Nodup
  queues_nodup : [queue, retryQueue, dlq].Nodup

structure QueueArguments where
  messageTtl : Option ℕ := none
  deadLetter : Option (String × String) := none

inductive Declaration where
  | exchange (name : String)
  | queue (name : String) (arguments : QueueArguments)
  | bind (queue exchange routingKey : String)

def declareTopology (topology : TopologyConfig) : List Declaration :=
  [.exchange topology.exchange, .exchange topology.retryExchange, .exchange topology.dlx,
    .queue topology.queue { deadLetter := some (topology.retryExchange, topology.routingKey) },
    .bind topology.queue topology.exchange topology.routingKey,
    .queue topology.retryQueue
      { messageTtl := some topology.retryDelayMs
        deadLetter := some (topology.exchange, topology.routingKey) },
    .bind topology.retryQueue topology.retryExchange topology.routingKey,
    .queue topology.dlq {},
    .bind topology.dlq topology.dlx topology.routingKey]

/-- The queues a message for an exchange is put into. -/
def route (declarations : List Declaration) (exchange routingKey : String) : List String :=
  declarations.filterMap fun
    | .bind q e k => if e = exchange ∧ k = routingKey then some q else none
    | _ => none

def argumentsOf (declarations : List Declaration) (queue : String) : Option QueueArguments :=
  declarations.findSome? fun
    | .queue name arguments => if name = queue then some arguments else none
    | _ => none

/-- The queues a message is put into when a queue rejects it or lets it expire. -/
def deadLettered (declarations : List Declaration) (queue : String) : List String :=
  match (argumentsOf declarations queue).bind QueueArguments.deadLetter with
  | some (exchange, routingKey) => route declarations exchange routingKey
  | none => []

def expires (declarations : List Declaration) (queue : String) : Bool :=
  ((argumentsOf declarations queue).bind QueueArguments.messageTtl).isSome

variable (topology : TopologyConfig)

theorem route_exchange :
    route (declareTopology topology) topology.exchange topology.routingKey = [topology.queue] := by
  have h := topology.exchanges_nodup
  simp only [List.nodup_cons, List.mem_cons, List.not_mem_nil, or_false, not_or] at h
  simp [route, declareTopology, Ne.symm h.1.1, Ne.symm h.1.2]

theorem route_retryExchange :
    route (declareTopology topology) topology.retryExchange topology.routingKey =
      [topology.retryQueue] := by
  have h := topology.exchanges_nodup
  simp only [List.nodup_cons, List.mem_cons, List.not_mem_nil, or_false, not_or] at h
  simp [route, declareTopology, h.1.1, Ne.symm h.2.1]

theorem route_dlx :
    route (declareTopology topology) topology.dlx topology.routingKey = [topology.dlq] := by
  have h := topology.exchanges_nodup
  simp only [List.nodup_cons, List.mem_cons, List.not_mem_nil, or_false, not_or] at h
  simp [route, declareTopology, h.1.2, h.2.1]

theorem argumentsOf_queue : argumentsOf (declareTopology topology) topology.queue =
    some { deadLetter := some (topology.retryExchange, topology.routingKey) } := by
  simp [argumentsOf, declareTopology]

theorem argumentsOf_retryQueue : argumentsOf (declareTopology topology) topology.retryQueue =
    some { messageTtl := some topology.retryDelayMs
           deadLetter := some (topology.exchange, topology.routingKey) } := by
  have h := topology.queues_nodup
  simp only [List.nodup_cons, List.mem_cons, List.not_mem_nil, or_false, not_or] at h
  simp [argumentsOf, declareTopology, h.1.1]

theorem deadLettered_queue :
    deadLettered (declareTopology topology) topology.queue = [topology.retryQueue] := by
  rw [deadLettered, argumentsOf_queue]
  exact route_retryExchange topology

theorem deadLettered_retryQueue :
    deadLettered (declareTopology topology) topology.retryQueue = [topology.queue] := by
  rw [deadLettered, argumentsOf_retryQueue]
  exact route_exchange topology

theorem not_expires_queue : expires (declareTopology topology) topology.queue = false := by
  rw [expires, argumentsOf_queue]
  rfl

theorem expires_retryQueue : expires (declareTopology topology) topology.retryQueue = true := by
  rw [expires, argumentsOf_retryQueue]
  rfl

end ProfiNotifications.Notifications
