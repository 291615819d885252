import ProfiNotifications.Notifications.Broker

/-! # No message is lost

A handler comes to an acknowledgement only behind a successful send or a confirmed
publish of the unchanged body. Whatever else happens, rejections and lost connections
included, puts the message back into one of its two queues.
-/

namespace ProfiNotifications.Notifications

open Transition

/--
The task acknowledges only if `ok` holds already, or behind a successful send or a
confirmed publish of the body.
-/
def Task.AcksAfter (body : Body) : Task → Prop → Prop
  | .send _ next, ok => ∀ result, (next result).AcksAfter body (ok ∨ result = .ok ())
  | .publish letter next, ok =>
    ∀ result, (next result).AcksAfter body (ok ∨ result = .ok () ∧ letter.body = body)
  | .settled result, ok => result = .ok .ack → ok

theorem Task.AcksAfter.mono {body : Body} {task : Task} {ok ok' : Prop}
    (h : task.AcksAfter body ok) (hok : ok → ok') : task.AcksAfter body ok' := by
  induction task generalizing ok ok' with
  | send n next ih => exact fun result => ih result (h result) (Or.imp_left hok)
  | publish letter next ih => exact fun result => ih result (h result) (Or.imp_left hok)
  | settled result => exact fun hr => hok (h hr)

namespace MessageHandlerDeps

variable {deps : MessageHandlerDeps} {msg : MessageLike}

theorem applyDecision_acksAfter {decision : DeliveryDecision} {ok : Prop}
    (h : decision = .ack → ok) : (deps.applyDecision msg decision).AcksAfter msg.body ok := by
  cases decision with
  | ack => exact fun _ => h rfl
  | retry => rintro ⟨⟩
  | deadLetter category reason =>
    intro result
    cases result with
    | ok => exact fun _ => Or.inr ⟨rfl, rfl⟩
    | error message => rintro ⟨⟩

/-- Every way of the handler to an acknowledgement sends or dead-letters the message. -/
theorem handle_acksAfter (deps : MessageHandlerDeps) (msg : MessageLike) :
    (deps.handle msg).AcksAfter msg.body False := by
  cases hn : notificationOf deps.decoding msg.body with
  | some n =>
    rw [handle_of_some hn]
    refine fun result => applyDecision_acksAfter fun hd => Or.inr ?_
    cases result with
    | ok => rfl
    | error err =>
      exfalso
      cases err with
      | permanent message => cases hd
      | transient message => simp only [decisionOn, onSendError] at hd; split at hd <;> cases hd
      | unknown reason => simp only [decisionOn, onSendError] at hd; split at hd <;> cases hd
  | none =>
    obtain ⟨category, reason, h⟩ := handle_of_none hn
    rw [h]
    exact applyDecision_acksAfter nofun

end MessageHandlerDeps

/-- A send has resolved, or a publish of the unchanged body was confirmed. -/
def Settled (posted : Posted) (world : World) : Prop :=
  0 < world.resolved ∨ ∃ letter ∈ world.confirmed, letter.body = posted.body

/-- The message is in one of its queues, or in flight, or settled. -/
structure Kept (consumer : NotificationConsumer) (posted : Posted) (world : World) : Prop where
  queued : ∀ queue, world.place = .queued queue →
    queue = consumer.topology.queue ∨ queue = consumer.topology.retryQueue
  inFlight : ∀ task, world.place = .inFlight task →
    task.AcksAfter posted.body (Settled posted world)
  gone : world.place = .gone → Settled posted world

variable {consumer : NotificationConsumer} {posted : Posted} {world world' : World} {a : Action}
  {task task' : Task} {reply : Reply}

theorem Task.AcksAfter.resume (h : task.AcksAfter posted.body (Settled posted world))
    (hr : task.resume reply = some task') :
    task'.AcksAfter posted.body (Settled posted (consumer.observe world task reply)) := by
  cases task with
  | send n next =>
    cases reply with
    | sent result =>
      obtain rfl := Option.some.inj hr
      apply (h result).mono
      rintro (h | rfl)
      · cases result with
        | ok => exact h.imp_left fun h => Nat.lt_succ_of_lt h
        | error err => exact h
      · exact Or.inl (Nat.succ_pos _)
    | confirmed => cases hr
    | failed message arrived => cases hr
  | publish letter next =>
    cases reply with
    | sent result => cases hr
    | confirmed =>
      obtain rfl := Option.some.inj hr
      apply (h (.ok ())).mono
      rintro (h | ⟨-, hb⟩)
      · exact h.imp_right fun ⟨l, hl, hb⟩ => ⟨l, List.mem_append_left _ hl, hb⟩
      · exact Or.inr ⟨letter, List.mem_append_right _ List.mem_cons_self, hb⟩
    | failed message arrived =>
      obtain rfl := Option.some.inj hr
      apply (h (.error message)).mono
      rintro (h | ⟨h, -⟩)
      · cases arrived <;> exact h
      · cases h
  | settled result => cases reply <;> cases hr

theorem Settled.observe (h : Settled posted world) :
    Settled posted (consumer.observe world task reply) := by
  unfold NotificationConsumer.observe
  split
  · exact h.imp_left fun h => Nat.lt_succ_of_lt h
  · exact h.imp_right fun ⟨l, hl, hb⟩ => ⟨l, List.mem_append_left _ hl, hb⟩
  · exact h
  · exact h

theorem Kept.waiting {queue : String} (hp : world.place = .queued queue)
    (hq : queue = consumer.topology.queue ∨ queue = consumer.topology.retryQueue) :
    Kept consumer posted world := by
  constructor <;> rw [hp]
  · rintro q ⟨⟩
    exact hq
  · nofun
  · nofun

theorem Kept.step (h : Kept consumer posted world) (hs : consumer.Step posted world a world') :
    Kept consumer posted world' := by
  cases hs with
  | deliver hp ht =>
    refine ⟨nofun, ?_, nofun⟩
    rintro task ⟨⟩
    rw [ht]
    exact (consumer.deps.handle_acksAfter (posted.delivery world)).mono False.elim
  | reply hp hr =>
    refine ⟨nofun, ?_, nofun⟩
    rintro task ⟨⟩
    exact (h.inFlight _ hp).resume hr
  | @orphanReply i task task' reply hi hr =>
    have hplace := consumer.observe_place world task reply
    refine ⟨fun q hq => h.queued q (hplace.symm.trans hq), fun t ht => ?_,
      fun hg => (h.gone (hplace.symm.trans hg)).observe⟩
    exact (h.inFlight t (hplace.symm.trans ht)).mono Settled.observe
  | acknowledged hp => exact ⟨nofun, nofun, fun _ => h.inFlight _ hp rfl⟩
  | rejected hp hr =>
    refine .waiting ?_ (Or.inr rfl)
    exact NotificationConsumer.deadLetter_queue_place world "rejected"
  | expired hp he =>
    obtain rfl := NotificationConsumer.Step.queue_of_expired (h.queued _ hp) he
    refine .waiting ?_ (Or.inl rfl)
    exact NotificationConsumer.deadLetter_retryQueue_place world "expired"
  | disconnected hp => exact .waiting rfl (Or.inl rfl)

/--
In every run, with any answers of the sender and of the dead-letter exchange and any
lost connections, the message is in the main queue, in flight or in the retry queue,
unless a send of it has resolved or a publish of its unchanged body was confirmed.
-/
theorem not_lost
    (h : Reach (consumer.step posted) (fun _ _ => True) consumer.initial world) :
    (world.place = .queued consumer.topology.queue ∨ (∃ task, world.place = .inFlight task) ∨
      world.place = .queued consumer.topology.retryQueue) ∨
    0 < world.resolved ∨ ∃ letter ∈ world.confirmed, letter.body = posted.body := by
  have hinit : Kept consumer posted consumer.initial := .waiting rfl (Or.inl rfl)
  have hkept := h.invariant hinit fun _ _ _ _ hi _ hs =>
    hi.step (NotificationConsumer.step_cases hs)
  cases hp : world.place with
  | queued queue =>
    rcases hkept.queued queue hp with rfl | rfl
    · exact Or.inl (Or.inl rfl)
    · exact Or.inl (Or.inr (Or.inr rfl))
  | inFlight task => exact Or.inl (Or.inr (Or.inl ⟨task, rfl⟩))
  | gone => exact Or.inr (hkept.gone hp)

def deployedTopology : TopologyConfig where
  exchange := "notifications"
  queue := "notifications"
  routingKey := "notify"
  retryExchange := "notifications.retry"
  retryQueue := "notifications.retry"
  dlx := "notifications.dlx"
  dlq := "notifications.dlq"
  retryDelayMs := 30000
  exchanges_nodup := by decide
  queues_nodup := by decide

def consumerOf (maxAttempts : ℕ) : NotificationConsumer where
  topology := deployedTopology
  decoding := { parse := fun _ => none, utf8 := fun _ => "", issues := fun _ _ => [] }
  other := fun _ => none
  maxAttempts := maxAttempts

def hello : Posted where
  body := .json (.obj [("text", .str "hello")])
  no_deaths := rfl

/-- A delivery whose connection is lost, one that fails transiently, and one that succeeds. -/
def redelivered : List Action :=
  [.deliver, .disconnect, .deliver, .reply (.sent (.error (.transient "503"))), .settle, .expire,
    .deliver, .orphanReply 0 (.sent (.error (.unknown "socket"))), .reply (.sent (.ok ())), .settle]

theorem not_lost_redelivered : ∃ world : World, world.place = .gone ∧ world.sends = 3 ∧
    (0 < world.resolved ∨ ∃ letter ∈ world.confirmed, letter.body = hello.body) := by
  obtain ⟨world, hrun, hp, hs⟩ : ∃ world,
      run (guarded ((consumerOf 5).step hello) fun _ _ => true) (consumerOf 5).initial redelivered =
        some world ∧ world.place = .gone ∧ world.sends = 3 := ⟨_, rfl, rfl, rfl⟩
  refine ⟨world, hp, hs, ?_⟩
  rcases not_lost ((Reach.of_run hrun).mono fun _ _ _ => trivial) with (h | ⟨t, h⟩ | h) | h
  · rw [hp] at h; cases h
  · rw [hp] at h; cases h
  · rw [hp] at h; cases h
  · exact h

end ProfiNotifications.Notifications
