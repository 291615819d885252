import ProfiNotifications.Foundations.Transition
import ProfiNotifications.Notifications.Delivery
import ProfiNotifications.Notifications.Topology

/-! # One message between the broker and its handlers

The broker keeps the message in a queue or has it delivered to a handler, counts its
rejections in the `x-death` header, and takes it back when the connection is lost; the
handler then goes on as an orphan whose acknowledgement nobody hears. A message leaves
the queues only by an acknowledgement, and a handler acknowledges only what it has sent
or dead-lettered.
-/

namespace ProfiNotifications.Notifications

open Keyed Transition

structure Death where
  queue : String
  reason : String
  count : ℕ
  deriving DecidableEq, Repr

def Death.key (d : Death) : String × String := (d.queue, d.reason)

def Death.toJson (d : Death) : Json :=
  .obj [("count", .int d.count), ("reason", .str d.reason), ("queue", .str d.queue)]

/-- How often a queue has dead-lettered the message for a reason. -/
def deathCount (queue reason : String) (deaths : List Death) : ℕ :=
  (lookup Death.key deaths (queue, reason)).elim 0 Death.count

/-- The entry of a queue and a reason counts once more, and moves to the front. -/
def recordDeath (queue reason : String) (deaths : List Death) : List Death :=
  ⟨queue, reason, deathCount queue reason deaths + 1⟩ ::
    deaths.filter fun d => d.key ≠ (queue, reason)

/-- The headers of a delivery; the first one has no `x-death`. -/
def withDeaths (headers : List (String × Json)) : List Death → List (String × Json)
  | [] => headers
  | deaths => ("x-death", .arr (deaths.map Death.toJson)) :: headers

theorem deathCount_recordDeath_self (queue reason : String) (deaths : List Death) :
    deathCount queue reason (recordDeath queue reason deaths) =
      deathCount queue reason deaths + 1 := by
  rw [deathCount, recordDeath, lookup_cons, if_pos (by rfl)]
  rfl

theorem deathCount_recordDeath_of_ne {queue reason queue' reason' : String}
    (h : (queue', reason') ≠ (queue, reason)) (deaths : List Death) :
    deathCount queue reason (recordDeath queue' reason' deaths) =
      deathCount queue reason deaths := by
  have hf : lookup Death.key (deaths.filter fun d => d.key ≠ (queue', reason')) (queue, reason) =
      lookup Death.key deaths (queue, reason) := by
    rw [lookup, lookup, List.find?_filter]
    refine congrArg (fun p => deaths.find? p) (funext fun d => ?_)
    by_cases hd : d.key = (queue, reason)
    · simp [hd, Ne.symm h]
    · simp [hd]
  rw [deathCount, recordDeath, lookup_cons, if_neg (by exact h), hf, deathCount]

theorem find?_toJson (queue reason : String) (deaths : List Death) :
    ((deaths.map Death.toJson).find? fun entry => entry.field "queue" = some (.str queue) ∧
      entry.field "reason" = some (.str reason)) =
        (lookup Death.key deaths (queue, reason)).map Death.toJson := by
  rw [List.find?_map, lookup]
  refine congrArg (fun p => (deaths.find? p).map Death.toJson) (funext fun d => ?_)
  simp [Death.toJson, Death.key, Json.field]

theorem floor_natCast_toNat (n : ℕ) : ⌊((n : ℤ) : ℚ)⌋.toNat = n := by
  rw [Int.floor_intCast, Int.toNat_natCast]

theorem getAttemptCount_withDeaths {other : Json → Option ℚ} {headers : List (String × Json)}
    (h : Json.get headers "x-death" = none) (queue : String) (deaths : List Death) :
    getAttemptCount other (some (withDeaths headers deaths)) queue =
      deathCount queue "rejected" deaths := by
  cases deaths with
  | nil =>
    simp only [getAttemptCount, withDeaths, Option.bind_some, h]
    rfl
  | cons d ds =>
    simp only [getAttemptCount, withDeaths, Option.bind_some, Json.get_cons, if_true,
      find?_toJson, deathCount]
    cases lookup Death.key (d :: ds) (queue, "rejected") with
    | none => rfl
    | some e =>
      have hcount : e.toJson.field "count" = some (.int e.count) := rfl
      simp only [Option.map_some, hcount, toNumber, Option.elim_some]
      split
      · exact floor_natCast_toNat e.count
      · rename_i hpos
        have : ¬ 0 < e.count := fun hc => hpos (by exact_mod_cast hc)
        omega

structure Posted where
  body : Body
  headers : List (String × Json) := []
  no_deaths : Json.get headers "x-death" = none

structure NotificationConsumer where
  topology : TopologyConfig
  decoding : Decoding
  other : Json → Option ℚ
  maxAttempts : ℕ

def NotificationConsumer.deps (consumer : NotificationConsumer) : MessageHandlerDeps where
  decoding := consumer.decoding
  other := consumer.other
  mainQueue := consumer.topology.queue
  routingKey := consumer.topology.routingKey
  maxAttempts := consumer.maxAttempts

inductive Place where
  | queued (queue : String)
  | inFlight (task : Task)
  | gone

/--
The message at the broker, its orphaned handlers, and what has happened so far: calls of
the sender, successful ones, confirmed publishes, and the dead letter queue.
-/
structure World where
  place : Place
  deaths : List Death := []
  orphans : List Task := []
  sends : ℕ := 0
  resolved : ℕ := 0
  confirmed : List DeadLetter := []
  deadLetters : List MessageLike := []

def Posted.delivery (posted : Posted) (world : World) : MessageLike where
  body := posted.body
  headers := some (withDeaths posted.headers world.deaths)

inductive Reply where
  | sent (result : Except SendError Unit)
  | confirmed
  | failed (message : String) (arrived : Bool)

def Task.resume : Task → Reply → Option Task
  | .send _ next, .sent result => some (next result)
  | .publish _ next, .confirmed => some (next (.ok ()))
  | .publish _ next, .failed message _ => some (next (.error message))
  | _, _ => none

/-- The calls of the sender that a handler makes on its way to this point. -/
def Task.calls : Task → ℕ
  | .send _ _ => 1
  | _ => 0

inductive Action where
  | deliver
  | reply (reply : Reply)
  | orphanReply (i : ℕ) (reply : Reply)
  | settle
  | expire
  | disconnect

def Action.connected : Action → Bool
  | .disconnect => false
  | _ => true

namespace NotificationConsumer

variable (consumer : NotificationConsumer)

def declarations : List Declaration := declareTopology consumer.topology

/-- The message in the queue it is put into; without one it is dropped. -/
def forward : List String → Place
  | [queue] => .queued queue
  | _ => .gone

/-- The copies of a dead letter that arrive in the dead letter queue. -/
def arrivals (letter : DeadLetter) : List MessageLike :=
  ((route consumer.declarations consumer.topology.dlx letter.routingKey).filter
    (· = consumer.topology.dlq)).map fun _ => letter.message

/-- What a reply to a waiting handler leaves behind. -/
def observe (world : World) : Task → Reply → World
  | .send _ _, .sent (.ok ()) => { world with resolved := world.resolved + 1 }
  | .publish letter _, .confirmed =>
    { world with
      confirmed := world.confirmed ++ [letter]
      deadLetters := world.deadLetters ++ consumer.arrivals letter }
  | .publish letter _, .failed _ true =>
    { world with deadLetters := world.deadLetters ++ consumer.arrivals letter }
  | _, _ => world

def deadLetter (world : World) (queue reason : String) : World :=
  { world with
    place := forward (deadLettered consumer.declarations queue)
    deaths := recordDeath queue reason world.deaths }

def step (posted : Posted) (world : World) : Action → Option World
  | .deliver =>
    match world.place with
    | .queued queue =>
      if queue = consumer.topology.queue then
        let task := consumer.deps.handle (posted.delivery world)
        some { world with place := .inFlight task, sends := world.sends + task.calls }
      else none
    | _ => none
  | .reply reply =>
    match world.place with
    | .inFlight task => (task.resume reply).map fun task' =>
        { consumer.observe world task reply with
          place := .inFlight task', sends := world.sends + task'.calls }
    | _ => none
  | .orphanReply i reply => world.orphans[i]?.bind fun task =>
      (task.resume reply).map fun task' =>
        { consumer.observe world task reply with
          orphans := world.orphans.set i task', sends := world.sends + task'.calls }
  | .settle =>
    match world.place with
    | .inFlight (.settled (.ok .ack)) => some { world with place := .gone }
    | .inFlight (.settled _) =>
      some (consumer.deadLetter world consumer.topology.queue "rejected")
    | _ => none
  | .expire =>
    match world.place with
    | .queued queue =>
      if expires consumer.declarations queue then
        some (consumer.deadLetter world queue "expired")
      else none
    | _ => none
  | .disconnect =>
    match world.place with
    | .inFlight task => some
        { world with
          place := .queued consumer.topology.queue, orphans := world.orphans ++ [task] }
    | _ => none

def initial : World := { place := .queued consumer.topology.queue }

@[simp] theorem observe_place (world : World) (task : Task) (reply : Reply) :
    (consumer.observe world task reply).place = world.place := by
  unfold observe; split <;> rfl

@[simp] theorem observe_deaths (world : World) (task : Task) (reply : Reply) :
    (consumer.observe world task reply).deaths = world.deaths := by
  unfold observe; split <;> rfl

@[simp] theorem observe_orphans (world : World) (task : Task) (reply : Reply) :
    (consumer.observe world task reply).orphans = world.orphans := by
  unfold observe; split <;> rfl

/-- A step of the broker, of the handler in charge, or of an orphan. -/
inductive Step (posted : Posted) (world : World) : Action → World → Prop
  | deliver {task : Task} (hp : world.place = .queued consumer.topology.queue)
      (ht : task = consumer.deps.handle (posted.delivery world)) :
      Step posted world .deliver
        { world with place := .inFlight task, sends := world.sends + task.calls }
  | reply {task task' : Task} {reply : Reply} (hp : world.place = .inFlight task)
      (hr : task.resume reply = some task') :
      Step posted world (.reply reply)
        { consumer.observe world task reply with
          place := .inFlight task', sends := world.sends + task'.calls }
  | orphanReply {i : ℕ} {task task' : Task} {reply : Reply} (hi : world.orphans[i]? = some task)
      (hr : task.resume reply = some task') :
      Step posted world (.orphanReply i reply)
        { consumer.observe world task reply with
          orphans := world.orphans.set i task', sends := world.sends + task'.calls }
  | acknowledged (hp : world.place = .inFlight (.settled (.ok .ack))) :
      Step posted world .settle { world with place := .gone }
  | rejected {result : Except String ConsumerStatus}
      (hp : world.place = .inFlight (.settled result)) (hr : result ≠ .ok .ack) :
      Step posted world .settle (consumer.deadLetter world consumer.topology.queue "rejected")
  | expired {queue : String} (hp : world.place = .queued queue)
      (he : expires consumer.declarations queue = true) :
      Step posted world .expire (consumer.deadLetter world queue "expired")
  | disconnected {task : Task} (hp : world.place = .inFlight task) :
      Step posted world .disconnect
        { world with
          place := .queued consumer.topology.queue, orphans := world.orphans ++ [task] }

variable {consumer} {posted : Posted} {world world' : World} {a : Action}

theorem step_cases (h : consumer.step posted world a = some world') :
    consumer.Step posted world a world' := by
  cases a with
  | deliver =>
    simp only [step] at h
    split at h
    · rename_i queue hp
      split at h
      · rename_i hq
        obtain rfl := Option.some.inj h
        exact .deliver (hq ▸ hp) rfl
      · cases h
    · cases h
  | reply reply =>
    simp only [step] at h
    split at h
    · obtain ⟨task', hr, rfl⟩ := Option.map_eq_some_iff.mp h
      exact .reply ‹_› hr
    · cases h
  | orphanReply i reply =>
    obtain ⟨task, hi, h⟩ := Option.bind_eq_some_iff.mp h
    obtain ⟨task', hr, rfl⟩ := Option.map_eq_some_iff.mp h
    exact .orphanReply hi hr
  | settle =>
    simp only [step] at h
    split at h
    · obtain rfl := Option.some.inj h
      exact .acknowledged ‹_›
    · rename_i hne hp
      obtain rfl := Option.some.inj h
      exact .rejected hp hne
    · cases h
  | expire =>
    simp only [step] at h
    split at h
    · split at h
      · obtain rfl := Option.some.inj h
        exact .expired ‹_› ‹_›
      · cases h
    · cases h
  | disconnect =>
    simp only [step] at h
    split at h
    · obtain rfl := Option.some.inj h
      exact .disconnected ‹_›
    · cases h

theorem forward_ne (queues : List String) (task : Task) : forward queues ≠ .inFlight task := by
  unfold forward
  split <;> simp

@[simp] theorem deadLetter_queue_place (world : World) (reason : String) :
    (consumer.deadLetter world consumer.topology.queue reason).place =
      .queued consumer.topology.retryQueue := by
  rw [deadLetter, declarations, deadLettered_queue]
  rfl

@[simp] theorem deadLetter_retryQueue_place (world : World) (reason : String) :
    (consumer.deadLetter world consumer.topology.retryQueue reason).place =
      .queued consumer.topology.queue := by
  rw [deadLetter, declarations, deadLettered_retryQueue]
  rfl

theorem arrivals_eq {letter : DeadLetter} (h : letter.routingKey = consumer.topology.routingKey) :
    consumer.arrivals letter = [letter.message] := by
  rw [arrivals, h, declarations, route_dlx]
  simp

/-- The queue of a message that waits. -/
theorem Step.queue_of_expired {queue : String}
    (hq : queue = consumer.topology.queue ∨ queue = consumer.topology.retryQueue)
    (he : expires consumer.declarations queue = true) : queue = consumer.topology.retryQueue := by
  rcases hq with rfl | rfl
  · rw [declarations, not_expires_queue] at he
    cases he
  · rfl

end NotificationConsumer

end ProfiNotifications.Notifications
