import Mathlib.Algebra.BigOperators.Group.List.Basic
import ProfiNotifications.Notifications.NoLoss

/-! # How often a message is settled

A delivery settles the message at most once: by a send that resolves, or by a dead letter
that is confirmed. Only a lost connection leaves a handler behind that may settle the
message besides its next delivery, so the outcomes are at most one more than the losses.
-/

namespace ProfiNotifications.Notifications

open Transition

/-- A successful send and a confirmed publish are followed by the acknowledgement at once. -/
def Task.AcksAtOnce : Task → Prop
  | .send _ next => next (.ok ()) = .settled (.ok .ack) ∧ ∀ err, (next (.error err)).AcksAtOnce
  | .publish _ next =>
    next (.ok ()) = .settled (.ok .ack) ∧ ∀ message, (next (.error message)).AcksAtOnce
  | .settled _ => True

/-- The outcomes that a handler may still come to after its connection is lost. -/
def Task.open : Task → ℕ
  | .settled _ => 0
  | _ => 1

/-- The outcomes that a message may still come to while the connection holds. -/
def Place.open : Place → ℕ
  | .gone => 0
  | .inFlight (.settled (.ok .ack)) => 0
  | _ => 1

def Reply.outcomes : Reply → ℕ
  | .sent (.ok ()) => 1
  | .confirmed => 1
  | _ => 0

theorem sum_map_set {β : Type*} (f : β → ℕ) {l : List β} {i : ℕ} {x : β} (h : l[i]? = some x)
    (y : β) : ((l.set i y).map f).sum + f x = (l.map f).sum + f y := by
  induction l generalizing i with
  | nil => cases h
  | cons z l ih =>
    cases i with
    | zero =>
      obtain rfl : z = x := by simpa using h
      simp only [List.set_cons_zero, List.map_cons, List.sum_cons]
      omega
    | succ i =>
      have hi := ih (i := i) (by simpa using h)
      simp only [List.set_cons_succ, List.map_cons, List.sum_cons]
      omega

theorem Task.open_le (task : Task) : task.open ≤ 1 := by
  cases task <;> simp [Task.open]

theorem Place.open_le (place : Place) : place.open ≤ 1 := by
  unfold Place.open
  split <;> omega

def World.outcomes (world : World) : ℕ := world.resolved + world.confirmed.length

/-- The outcomes so far and those to come while the connection holds. -/
def World.settling (world : World) : ℕ :=
  world.outcomes + world.place.open + (world.orphans.map Task.open).sum

variable {consumer : NotificationConsumer} {posted : Posted} {world world' : World} {a : Action}
  {task task' : Task} {reply : Reply}

theorem MessageHandlerDeps.applyDecision_acksAtOnce (deps : MessageHandlerDeps)
    (msg : MessageLike) (decision : DeliveryDecision) :
    (deps.applyDecision msg decision).AcksAtOnce := by
  cases decision with
  | ack => trivial
  | retry => trivial
  | deadLetter category reason => exact ⟨rfl, fun _ => trivial⟩

theorem MessageHandlerDeps.handle_acksAtOnce (deps : MessageHandlerDeps) (msg : MessageLike) :
    (deps.handle msg).AcksAtOnce := by
  cases hn : notificationOf deps.decoding msg.body with
  | some n =>
    rw [handle_of_some hn]
    exact ⟨rfl, fun err => applyDecision_acksAtOnce deps msg _⟩
  | none =>
    obtain ⟨category, reason, h⟩ := handle_of_none hn
    rw [h]
    exact applyDecision_acksAtOnce deps msg _

theorem Task.AcksAtOnce.resume (h : task.AcksAtOnce) (hr : task.resume reply = some task') :
    task'.AcksAtOnce ∧ task'.open + reply.outcomes ≤ task.open ∧
      (Place.inFlight task').open + reply.outcomes ≤ (Place.inFlight task).open := by
  cases task with
  | settled result => cases reply <;> cases hr
  | send n next =>
    cases reply with
    | confirmed => cases hr
    | failed message arrived => cases hr
    | sent result =>
      obtain rfl := Option.some.inj hr
      cases result with
      | ok =>
        rw [h.1]
        exact ⟨trivial, le_rfl, le_rfl⟩
      | error err => exact ⟨h.2 err, Task.open_le _, Place.open_le _⟩
  | publish letter next =>
    cases reply with
    | sent result => cases hr
    | confirmed =>
      obtain rfl := Option.some.inj hr
      rw [h.1]
      exact ⟨trivial, le_rfl, le_rfl⟩
    | failed message arrived =>
      obtain rfl := Option.some.inj hr
      exact ⟨h.2 message, Task.open_le _, Place.open_le _⟩

theorem outcomes_observe (consumer : NotificationConsumer) (world : World)
    (hr : task.resume reply = some task') :
    (consumer.observe world task reply).outcomes = world.outcomes + reply.outcomes := by
  cases task with
  | settled result => cases reply <;> cases hr
  | send n next =>
    cases reply with
    | confirmed => cases hr
    | failed message arrived => cases hr
    | sent result =>
      cases result with
      | ok =>
        simp only [NotificationConsumer.observe, World.outcomes, Reply.outcomes]
        omega
      | error err => rfl
  | publish letter next =>
    cases reply with
    | sent result => cases hr
    | confirmed =>
      simp only [NotificationConsumer.observe, World.outcomes, Reply.outcomes, List.length_append,
        List.length_singleton]
      omega
    | failed message arrived => cases arrived <;> rfl

/-- Every handler of the message, in charge or left behind, acknowledges at once. -/
structure Prompt (world : World) : Prop where
  inFlight : ∀ task, world.place = .inFlight task → task.AcksAtOnce
  orphans : ∀ task ∈ world.orphans, task.AcksAtOnce

/-- A step adds an outcome to come only if it loses the connection. -/
theorem Prompt.step (h : Prompt world) (hs : consumer.Step posted world a world') :
    Prompt world' ∧ world'.settling ≤ world.settling + if !a.connected then 1 else 0 := by
  cases hs with
  | deliver hp ht =>
    refine ⟨⟨?_, h.orphans⟩, ?_⟩
    · rintro task ⟨⟩
      rw [ht]
      exact consumer.deps.handle_acksAtOnce _
    · simp only [World.settling, World.outcomes, hp]
      have hopen := Place.open_le (.inFlight (consumer.deps.handle (posted.delivery world)))
      rw [← ht] at hopen
      simp only [Place.open] at hopen ⊢
      omega
  | @reply task task' reply hp hr =>
    obtain ⟨hprompt, -, hopen⟩ := (h.inFlight task hp).resume hr
    refine ⟨⟨?_, ?_⟩, ?_⟩
    · rintro t ⟨⟩
      exact hprompt
    · simpa only [NotificationConsumer.observe_orphans] using h.orphans
    · have hout := outcomes_observe consumer world hr
      simp only [World.settling, World.outcomes, hp, NotificationConsumer.observe_orphans]
        at hout ⊢
      omega
  | @orphanReply i task task' reply hi hr =>
    obtain ⟨hlt, hget⟩ := List.getElem?_eq_some_iff.mp hi
    have hmem : task ∈ world.orphans := List.mem_of_getElem? hi
    obtain ⟨hprompt, hopen, -⟩ := (h.orphans task hmem).resume hr
    refine ⟨⟨?_, ?_⟩, ?_⟩
    · intro t ht
      exact h.inFlight t ((consumer.observe_place world task reply).symm.trans ht)
    · intro t ht
      rcases List.mem_or_eq_of_mem_set ht with ht | rfl
      exacts [h.orphans t ht, hprompt]
    · have hout := outcomes_observe consumer world hr
      have hsum := sum_map_set Task.open hi task'
      simp only [World.settling, World.outcomes, NotificationConsumer.observe_place] at hout ⊢
      omega
  | acknowledged hp =>
    refine ⟨⟨?_, h.orphans⟩, ?_⟩
    · intro task ht
      cases ht
    · simp only [World.settling, World.outcomes, Place.open]
      omega
  | @rejected result hp hr =>
    refine ⟨⟨?_, h.orphans⟩, ?_⟩
    · intro task ht
      rw [NotificationConsumer.deadLetter_queue_place] at ht
      cases ht
    · have hopen : world.place.open = 1 := by
        rw [hp]
        cases result with
        | ok status =>
          cases status with
          | ack => exact absurd rfl hr
          | drop => rfl
        | error message => rfl
      have hle := Place.open_le
        (consumer.deadLetter world consumer.topology.queue "rejected").place
      simp only [World.settling, World.outcomes, NotificationConsumer.deadLetter] at hle ⊢
      omega
  | @expired queue hp he =>
    refine ⟨⟨?_, h.orphans⟩, ?_⟩
    · intro task ht
      exact absurd ht (NotificationConsumer.forward_ne _ task)
    · have hle := Place.open_le (consumer.deadLetter world queue "expired").place
      have hopen : world.place.open = 1 := by rw [hp]; rfl
      simp only [World.settling, World.outcomes, NotificationConsumer.deadLetter] at hle ⊢
      omega
  | @disconnected task hp =>
    refine ⟨⟨?_, ?_⟩, ?_⟩
    · intro t ht
      cases ht
    · intro t ht
      rcases List.mem_append.mp ht with ht | ht
      · exact h.orphans t ht
      · obtain rfl := List.mem_singleton.mp ht
        exact h.inFlight t hp
    · -- only an acknowledgement that is not heard costs an outcome besides the orphan's
      have hopen : task.open ≤ (Place.inFlight task).open := by
        cases task <;> simp [Task.open, Place.open]
      have hqueued : (Place.queued consumer.topology.queue).open = 1 := rfl
      simp only [World.settling, World.outcomes, hp, hqueued, List.map_append, List.map_cons,
        List.map_nil, List.sum_append, List.sum_cons, List.sum_nil, Action.connected,
        Bool.not_false, if_true]
      omega

/--
In every run, with any answers of the sender and of the dead-letter exchange, the message
is sent successfully or dead-lettered at most once more often than the connection is
lost, and it leaves the queues only after it has come to one of these outcomes. While the
connection holds, a message that has left the queues has come to exactly one outcome.
-/
theorem outcomes_le {as : List Action}
    (h : run (consumer.step posted) consumer.initial as = some world) :
    world.resolved + world.confirmed.length ≤ (as.countP fun a => !a.connected) + 1 ∧
    (world.place = .gone → 0 < world.resolved + world.confirmed.length) := by
  have hprompt : Prompt consumer.initial := by
    constructor
    · intro task ht
      cases ht
    · intro task ht
      cases ht
  obtain ⟨-, hle⟩ := run_measure_le Prompt World.settling
    (fun _ _ _ hi hs => hi.step (NotificationConsumer.step_cases hs)) hprompt h
  have hkept : Kept consumer posted world := run_invariant (fun _ w => Kept consumer posted w)
    (fun _ _ _ _ hi hs => hi.step (NotificationConsumer.step_cases hs)) (k := 0)
    (.waiting rfl (Or.inl rfl)) h
  have hinit : consumer.initial.settling = 1 := rfl
  rw [hinit] at hle
  simp only [World.settling, World.outcomes] at hle
  refine ⟨by omega, fun hgone => ?_⟩
  rcases hkept.gone hgone with hpos | ⟨letter, hmem, -⟩
  · omega
  · have hlen := List.length_pos_of_mem hmem
    omega

/-- A loss of the connection after which both deliveries are answered. -/
def answeredTwice : List Action :=
  [.deliver, .disconnect, .deliver, .orphanReply 0 (.sent (.ok ())), .reply (.sent (.ok ())),
    .settle]

theorem outcomes_le_answeredTwice : ∃ world : World, world.place = .gone ∧ world.resolved = 2 ∧
    world.resolved + world.confirmed.length ≤ 2 := by
  obtain ⟨world, hrun, hp, hs⟩ : ∃ world,
      run ((consumerOf 5).step hello) (consumerOf 5).initial answeredTwice = some world ∧
        world.place = .gone ∧ world.resolved = 2 := ⟨_, rfl, rfl, rfl⟩
  exact ⟨world, hp, hs, (outcomes_le hrun).1⟩

end ProfiNotifications.Notifications
