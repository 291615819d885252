import ProfiNotifications.Notifications.NoLoss

/-! # The attempt budget

A delivery sends before it looks at the budget, and the budget is the number of
rejections so far. The last permitted delivery must therefore end in an
acknowledgement: if its dead letter cannot be published, the message is rejected once
more and delivered beyond the budget.
-/

namespace ProfiNotifications.Notifications

open Transition

variable {consumer : NotificationConsumer} {posted : Posted} {world world' : World} {a : Action}

namespace NotificationConsumer

def attempts (consumer : NotificationConsumer) (world : World) : ℕ :=
  deathCount consumer.topology.queue "rejected" world.deaths

def notification (consumer : NotificationConsumer) (posted : Posted) : Option Notification :=
  notificationOf consumer.decoding posted.body

/-- What happens next to a message without orphans while the connection holds. -/
def After (consumer : NotificationConsumer) (posted : Posted) (world : World) (a : Action)
    (world' : World) : Prop :=
  match world.place with
  | .queued queue =>
    (queue = consumer.topology.queue ∧ ∃ task, task = consumer.deps.handle (posted.delivery world) ∧
      world' = { world with place := .inFlight task, sends := world.sends + task.calls }) ∨
    (expires consumer.declarations queue = true ∧
      world' = consumer.deadLetter world queue "expired")
  | .inFlight (.settled result) => (result = .ok .ack ∧ world' = { world with place := .gone }) ∨
      (result ≠ .ok .ack ∧ world' = consumer.deadLetter world consumer.topology.queue "rejected")
  | .inFlight task => ∃ reply task', a = .reply reply ∧ task.resume reply = some task' ∧
      world' = { consumer.observe world task reply with
        place := .inFlight task', sends := world.sends + task'.calls }
  | .gone => False

theorem Step.after (h : consumer.Step posted world a world') (ho : world.orphans = [])
    (ha : a.connected = true) : consumer.After posted world a world' ∧ world'.orphans = [] := by
  cases h with
  | deliver hp ht =>
    refine ⟨?_, ho⟩
    simp only [After, hp]
    exact Or.inl ⟨trivial, _, ht, rfl⟩
  | @reply task task' reply hp hr =>
    refine ⟨?_, (consumer.observe_orphans world task reply).trans ho⟩
    cases task with
    | settled result => cases reply <;> cases hr
    | send n next => simp only [After, hp]; exact ⟨reply, task', rfl, hr, rfl⟩
    | publish letter next => simp only [After, hp]; exact ⟨reply, task', rfl, hr, rfl⟩
  | orphanReply hi => rw [ho] at hi; cases hi
  | acknowledged hp =>
    refine ⟨?_, ho⟩
    simp only [After, hp]
    exact Or.inl ⟨trivial, trivial⟩
  | rejected hp hr =>
    refine ⟨?_, ho⟩
    simp only [After, hp]
    exact Or.inr ⟨hr, trivial⟩
  | expired hp he =>
    refine ⟨?_, ho⟩
    simp only [After, hp]
    exact Or.inr ⟨he, trivial⟩
  | disconnected => cases ha

theorem handle_delivery {n : Notification} (h : consumer.notification posted = some n) :
    consumer.deps.handle (posted.delivery world) = .send n fun result =>
      consumer.deps.applyDecision (posted.delivery world)
        (decisionOn consumer.maxAttempts (consumer.attempts world) result) := by
  have hn : notificationOf consumer.deps.decoding (posted.delivery world).body = some n := h
  have hcount : getAttemptCount consumer.deps.other (posted.delivery world).headers
      consumer.deps.mainQueue = consumer.attempts world :=
    getAttemptCount_withDeaths posted.no_deaths _ _
  rw [MessageHandlerDeps.handle_of_some hn, hcount]
  rfl

end NotificationConsumer

theorem NotificationConsumer.connected_invariant {allowed : World → Action → Prop}
    {inv : World → Prop} (ha : ∀ w a, allowed w a → a.connected = true) (h₀ : inv consumer.initial)
    (hstep : ∀ w a w', inv w → allowed w a → consumer.After posted w a w' → inv w')
    (h : Reach (consumer.step posted) allowed consumer.initial world) : inv world := by
  have hinv : inv world ∧ world.orphans = [] := by
    induction h with
    | refl => exact ⟨h₀, rfl⟩
    | tail _ hal hs ih =>
      obtain ⟨hafter, ho⟩ := (step_cases hs).after ih.2 (ha _ _ hal)
      exact ⟨hstep _ _ _ ih.1 hal hafter, ho⟩
  exact hinv.1

theorem lt_of_decisionOn_retry {maxAttempts attempt : ℕ} {result : Except SendError Unit}
    (h : decisionOn maxAttempts attempt result = .retry) : attempt + 1 < maxAttempts := by
  cases result with
  | ok => cases h
  | error err =>
    cases err with
    | permanent message => cases h
    | transient message =>
      simp only [decisionOn, onSendError] at h
      split at h
      · cases h
      · omega
    | unknown reason =>
      simp only [decisionOn, onSendError] at h
      split at h
      · cases h
      · omega

/--
The connection holds, and no dead letter of a valid notification fails at the last
permitted attempt.
-/
def InBudget (consumer : NotificationConsumer) (posted : Posted) (world : World) (a : Action) :
    Prop :=
  a.connected = true ∧ ∀ message arrived, a = .reply (.failed message arrived) →
    consumer.notification posted = none ∨ consumer.attempts world + 1 < consumer.maxAttempts

/-- The points of a valid notification within its budget. -/
inductive Paced (consumer : NotificationConsumer) (n : Notification) (world : World) : Prop
  | waiting (queue : String) (hp : world.place = .queued queue)
      (hq : queue = consumer.topology.queue ∨ queue = consumer.topology.retryQueue)
      (hs : world.sends = consumer.attempts world)
      (ha : consumer.attempts world < consumer.maxAttempts)
  | sending (msg : MessageLike)
      (hp : world.place = .inFlight (.send n fun result => consumer.deps.applyDecision msg
        (decisionOn consumer.maxAttempts (consumer.attempts world) result)))
      (hs : world.sends = consumer.attempts world + 1)
      (ha : consumer.attempts world < consumer.maxAttempts)
  | deciding (msg : MessageLike) (decision : DeliveryDecision)
      (hp : world.place = .inFlight (consumer.deps.applyDecision msg decision))
      (hs : world.sends = consumer.attempts world + 1)
      (ha : consumer.attempts world < consumer.maxAttempts)
      (hd : decision = .retry → consumer.attempts world + 1 < consumer.maxAttempts)
  | failed (message : String) (hp : world.place = .inFlight (.settled (.error message)))
      (hs : world.sends = consumer.attempts world + 1)
      (ha : consumer.attempts world + 1 < consumer.maxAttempts)
  | acknowledged (hp : world.place = .inFlight (.settled (.ok .ack)) ∨ world.place = .gone)
      (hs : world.sends ≤ consumer.maxAttempts)

theorem Paced.sends_le {n : Notification} (h : Paced consumer n world) :
    world.sends ≤ consumer.maxAttempts := by
  cases h <;> omega

theorem attempts_rejected : consumer.attempts
    (consumer.deadLetter world consumer.topology.queue "rejected") = consumer.attempts world + 1 :=
  deathCount_recordDeath_self _ _ _

theorem attempts_expired (queue : String) :
    consumer.attempts (consumer.deadLetter world queue "expired") = consumer.attempts world :=
  deathCount_recordDeath_of_ne (by simp) _

theorem attempts_observe (task : Task) (reply : Reply) (place : Place) (sends : ℕ) :
    consumer.attempts { consumer.observe world task reply with place := place, sends := sends } =
      consumer.attempts world :=
  congrArg (deathCount consumer.topology.queue "rejected")
    (consumer.observe_deaths world task reply)

theorem Paced.rejected {n : Notification} (hs : world.sends = consumer.attempts world + 1)
    (ha : consumer.attempts world + 1 < consumer.maxAttempts) :
    Paced consumer n (consumer.deadLetter world consumer.topology.queue "rejected") :=
  .waiting _ (consumer.deadLetter_queue_place world _) (Or.inr rfl)
    (by rw [attempts_rejected]; exact hs)
    (by rw [attempts_rejected]; exact ha)

theorem Paced.step {n : Notification} (hn : consumer.notification posted = some n)
    (hi : consumer.After posted world a world') (ha : InBudget consumer posted world a)
    (h : Paced consumer n world) : Paced consumer n world' := by
  cases h with
  | waiting queue hp hq hs hb =>
    simp only [NotificationConsumer.After, hp] at hi
    rcases hi with ⟨-, task, rfl, rfl⟩ | ⟨he, rfl⟩
    · rw [NotificationConsumer.handle_delivery hn]
      exact .sending _ rfl (congrArg (· + 1) hs) hb
    · obtain rfl := NotificationConsumer.Step.queue_of_expired hq he
      refine .waiting _ (NotificationConsumer.deadLetter_retryQueue_place world _) (Or.inl rfl)
        ?_ ?_ <;>
        rw [attempts_expired]
      exacts [hs, hb]
  | sending msg hp hs hb =>
    simp only [NotificationConsumer.After, hp] at hi
    obtain ⟨reply, task', -, hr, rfl⟩ := hi
    cases reply with
    | sent result =>
      obtain rfl := Option.some.inj hr
      have hcalls : ∀ decision, (consumer.deps.applyDecision msg decision).calls = 0 := by
        intro decision; cases decision <;> rfl
      refine .deciding msg _ rfl ?_ ?_ fun hd => ?_
      · rw [attempts_observe, hcalls]; exact hs
      · rw [attempts_observe]; exact hb
      · rw [attempts_observe]; exact lt_of_decisionOn_retry hd
    | confirmed => cases hr
    | failed => cases hr
  | deciding msg decision hp hs hb hd =>
    cases decision with
    | ack =>
      simp only [MessageHandlerDeps.applyDecision] at hp
      simp only [NotificationConsumer.After, hp] at hi
      rcases hi with ⟨-, rfl⟩ | ⟨h, -⟩
      · exact .acknowledged (Or.inr rfl) (by simp only; omega)
      · exact absurd rfl h
    | retry =>
      simp only [MessageHandlerDeps.applyDecision] at hp
      simp only [NotificationConsumer.After, hp] at hi
      rcases hi with ⟨h, -⟩ | ⟨-, rfl⟩
      · cases h
      · exact .rejected hs (hd rfl)
    | deadLetter category reason =>
      obtain ⟨letter, next, heq, -, -, hack, hfail⟩ :=
        consumer.deps.applyDecision_deadLetter msg category reason
      rw [heq] at hp
      simp only [NotificationConsumer.After, hp] at hi
      obtain ⟨reply, task', rfl, hr, rfl⟩ := hi
      cases reply with
      | sent result => cases hr
      | confirmed =>
        obtain rfl := Option.some.inj hr
        rw [hack]
        exact .acknowledged (Or.inl rfl) (by simp only [Task.calls]; omega)
      | failed message arrived =>
        obtain rfl := Option.some.inj hr
        rw [hfail]
        have hlt : consumer.attempts world + 1 < consumer.maxAttempts := by
          rcases ha.2 message arrived rfl with h | h
          · rw [hn] at h; cases h
          · exact h
        refine .failed message rfl ?_ ?_ <;> rw [attempts_observe]
        exacts [hs, hlt]
  | failed message hp hs hb =>
    simp only [NotificationConsumer.After, hp] at hi
    rcases hi with ⟨h, -⟩ | ⟨-, rfl⟩
    · cases h
    · exact .rejected hs hb
  | acknowledged hp hs =>
    rcases hp with hp | hp <;> simp only [NotificationConsumer.After, hp] at hi
    rcases hi with ⟨-, rfl⟩ | ⟨h, -⟩
    · exact .acknowledged (Or.inr rfl) hs
    · exact absurd rfl h

def Task.Silent : Task → Prop
  | .send _ _ => False
  | .publish _ next => ∀ result, (next result).Silent
  | .settled _ => True

theorem Task.Silent.calls {task : Task} (h : task.Silent) : task.calls = 0 := by
  cases task with
  | send => exact h.elim
  | _ => rfl

theorem Task.Silent.resume {task task' : Task} {reply : Reply} (h : task.Silent)
    (hr : task.resume reply = some task') : task'.Silent := by
  cases task with
  | send => exact h.elim
  | publish letter next =>
    cases reply with
    | sent => cases hr
    | confirmed => exact Option.some.inj hr ▸ h (.ok ())
    | failed message => exact Option.some.inj hr ▸ h (.error message)
  | settled => cases reply <;> cases hr

structure Unsent (world : World) : Prop where
  sends : world.sends = 0
  inFlight : ∀ task, world.place = .inFlight task → task.Silent

theorem Unsent.step (hn : consumer.notification posted = none)
    (hi : consumer.After posted world a world') (h : Unsent world) : Unsent world' := by
  have hhandle : (consumer.deps.handle (posted.delivery world)).Silent := by
    have hbody : notificationOf consumer.deps.decoding (posted.delivery world).body = none := hn
    obtain ⟨category, reason, he⟩ := MessageHandlerDeps.handle_of_none hbody
    rw [he]
    intro result
    cases result <;> trivial
  have hdead : ∀ queue reason, Unsent (consumer.deadLetter world queue reason) := by
    refine fun queue reason => ⟨h.sends, fun task ht => ?_⟩
    exact absurd ht (NotificationConsumer.forward_ne _ _)
  have hreply : ∀ task reply task', task.Silent → task.resume reply = some task' →
      Unsent { consumer.observe world task reply with
        place := .inFlight task', sends := world.sends + task'.calls } := by
    intro task reply task' ht hr
    constructor
    · simp only [h.sends, (ht.resume hr).calls]
    · rintro u ⟨⟩
      exact ht.resume hr
  cases hp : world.place with
  | queued queue =>
    simp only [NotificationConsumer.After, hp] at hi
    rcases hi with ⟨-, task, rfl, rfl⟩ | ⟨-, rfl⟩
    · refine ⟨by simp only [h.sends, hhandle.calls], ?_⟩
      rintro task ⟨⟩
      exact hhandle
    · exact hdead _ _
  | inFlight task =>
    have ht := h.inFlight task hp
    cases task with
    | send n next => exact ht.elim
    | publish letter next =>
      simp only [NotificationConsumer.After, hp] at hi
      obtain ⟨reply, task', -, hr, rfl⟩ := hi
      exact hreply _ _ _ ht hr
    | settled result =>
      simp only [NotificationConsumer.After, hp] at hi
      rcases hi with ⟨-, rfl⟩ | ⟨-, rfl⟩
      · exact ⟨h.sends, nofun⟩
      · exact hdead _ _
  | gone => simp only [NotificationConsumer.After, hp] at hi

theorem sends_le_of_inBudget (hmax : 1 ≤ consumer.maxAttempts)
    (h : Reach (consumer.step posted) (InBudget consumer posted) consumer.initial world) :
    world.sends ≤ consumer.maxAttempts := by
  cases hn : consumer.notification posted with
  | none =>
    have hunsent : Unsent world :=
      NotificationConsumer.connected_invariant (fun _ _ ha => ha.1) ⟨rfl, nofun⟩
        (fun _ _ _ hi _ hs => hi.step hn hs) h
    rw [hunsent.sends]
    exact Nat.zero_le _
  | some n =>
    have hpaced : Paced consumer n world :=
      NotificationConsumer.connected_invariant (fun _ _ ha => ha.1)
        (.waiting _ rfl (Or.inl rfl) rfl hmax) (fun _ _ _ hi ha hs => hi.step hn hs ha) h
    exact hpaced.sends_le

/-- The sender fails transiently, dead letters are published, the connection holds. -/
def transientOnly : Action → Bool
  | .reply (.sent (.error (.transient _))) => true
  | .reply .confirmed => true
  | .deliver => true
  | .settle => true
  | .expire => true
  | _ => false

/-- The points of such a run after `k` steps. -/
inductive Spending (consumer : NotificationConsumer) (posted : Posted) (n : Notification) (k : ℕ)
    (world : World) : Prop
  | queued (hp : world.place = .queued consumer.topology.queue)
      (hk : k = 4 * consumer.attempts world) (hs : world.sends = consumer.attempts world)
      (ha : consumer.attempts world < consumer.maxAttempts) (hd : world.deadLetters = [])
  | sending (msg : MessageLike) (hb : msg.body = posted.body)
      (hp : world.place = .inFlight (.send n fun result => consumer.deps.applyDecision msg
        (decisionOn consumer.maxAttempts (consumer.attempts world) result)))
      (hk : k = 4 * consumer.attempts world + 1) (hs : world.sends = consumer.attempts world + 1)
      (ha : consumer.attempts world < consumer.maxAttempts) (hd : world.deadLetters = [])
  | dropped (hp : world.place = .inFlight (.settled (.ok .drop)))
      (hk : k = 4 * consumer.attempts world + 2) (hs : world.sends = consumer.attempts world + 1)
      (ha : consumer.attempts world + 1 < consumer.maxAttempts) (hd : world.deadLetters = [])
  | waiting (hp : world.place = .queued consumer.topology.retryQueue)
      (hk : k + 1 = 4 * consumer.attempts world) (hs : world.sends = consumer.attempts world)
      (ha : consumer.attempts world < consumer.maxAttempts) (hd : world.deadLetters = [])
  | publishing (msg : MessageLike) (hb : msg.body = posted.body) (category : DeadLetterCategory)
      (reason : String)
      (hp : world.place =
        .inFlight (consumer.deps.applyDecision msg (.deadLetter category reason)))
      (hk : k = 4 * consumer.attempts world + 2) (hs : world.sends = consumer.attempts world + 1)
      (ha : consumer.attempts world + 1 = consumer.maxAttempts) (hd : world.deadLetters = [])
  | buried (letter : MessageLike) (hb : letter.body = posted.body)
      (hp : world.place = .inFlight (.settled (.ok .ack)) ∧ k + 1 = 4 * consumer.maxAttempts ∨
        world.place = .gone ∧ k = 4 * consumer.maxAttempts)
      (hs : world.sends = consumer.maxAttempts) (hd : world.deadLetters = [letter])

theorem decisionOn_transient (maxAttempts attempt : ℕ) (message : String) :
    (attempt + 1 < maxAttempts ∧
      decisionOn maxAttempts attempt (.error (.transient message)) = .retry) ∨
    (maxAttempts ≤ attempt + 1 ∧ ∃ reason,
      decisionOn maxAttempts attempt (.error (.transient message)) =
        .deadLetter .exhausted reason) := by
  by_cases h : attempt + 1 ≥ maxAttempts
  · exact Or.inr ⟨h, _, by rw [decisionOn, onSendError, if_pos h]⟩
  · exact Or.inl ⟨by omega, by rw [decisionOn, onSendError, if_neg h]⟩

theorem Spending.step {n : Notification} {k : ℕ} (hn : consumer.notification posted = some n)
    (hi : consumer.After posted world a world') (ha : transientOnly a = true)
    (h : Spending consumer posted n k world) : Spending consumer posted n (k + 1) world' := by
  cases h with
  | queued hp hk hs hb hd =>
    simp only [NotificationConsumer.After, hp] at hi
    rcases hi with ⟨-, task, rfl, rfl⟩ | ⟨he, -⟩
    · rw [NotificationConsumer.handle_delivery hn]
      exact .sending (posted.delivery world) rfl rfl (congrArg (· + 1) hk) (congrArg (· + 1) hs)
        hb hd
    · rw [NotificationConsumer.declarations, not_expires_queue] at he
      cases he
  | sending msg hm hp hk hs hb hd =>
    simp only [NotificationConsumer.After, hp] at hi
    obtain ⟨reply, task', rfl, hr, rfl⟩ := hi
    cases reply with
    | confirmed => cases hr
    | failed => cases hr
    | sent result =>
      obtain rfl := Option.some.inj hr
      cases result with
      | ok => cases ha
      | error err =>
        cases err with
        | permanent => cases ha
        | unknown => cases ha
        | transient message =>
          have hobs : ∀ m next, consumer.observe world (.send m next)
              (.sent (.error (.transient message))) = world := fun _ _ => rfl
          rcases decisionOn_transient consumer.maxAttempts (consumer.attempts world) message with
            ⟨hlt, he⟩ | ⟨hge, reason, he⟩ <;> simp only [he, hobs]
          · exact .dropped rfl (congrArg (· + 1) hk) hs hlt hd
          · refine .publishing msg hm .exhausted reason rfl (congrArg (· + 1) hk) hs ?_ hd
            exact Nat.le_antisymm hb hge
  | dropped hp hk hs hb hd =>
    simp only [NotificationConsumer.After, hp] at hi
    rcases hi with ⟨h, -⟩ | ⟨-, rfl⟩
    · cases h
    · refine .waiting (NotificationConsumer.deadLetter_queue_place world _) ?_ ?_ ?_ hd <;>
        rw [attempts_rejected]
      exacts [by omega, hs, hb]
  | waiting hp hk hs hb hd =>
    simp only [NotificationConsumer.After, hp] at hi
    rcases hi with ⟨hq, -⟩ | ⟨-, rfl⟩
    · have hne := consumer.topology.queues_nodup
      simp only [List.nodup_cons, List.mem_cons, not_or] at hne
      exact absurd hq.symm hne.1.1
    · refine .queued (NotificationConsumer.deadLetter_retryQueue_place world _) ?_ ?_ ?_ hd <;>
        rw [attempts_expired]
      exacts [hk, hs, hb]
  | publishing msg hm category reason hp hk hs hb hd =>
    obtain ⟨letter, next, heq, hkey, hbody, hack, -⟩ :=
      consumer.deps.applyDecision_deadLetter msg category reason
    rw [heq] at hp
    simp only [NotificationConsumer.After, hp] at hi
    obtain ⟨reply, task', rfl, hr, rfl⟩ := hi
    cases reply with
    | sent result => cases hr
    | failed => cases ha
    | confirmed =>
      obtain rfl := Option.some.inj hr
      rw [hack]
      refine .buried letter.message (hbody.trans hm) (Or.inl ⟨rfl, by omega⟩) ?_ ?_
      · exact hs.trans hb
      · simp only [NotificationConsumer.observe, hd, List.nil_append]
        exact NotificationConsumer.arrivals_eq hkey
  | buried letter hm hp hs hd =>
    rcases hp with ⟨hp, hk⟩ | ⟨hp, -⟩ <;> simp only [NotificationConsumer.After, hp] at hi
    rcases hi with ⟨-, rfl⟩ | ⟨h, -⟩
    · exact .buried letter hm (Or.inr ⟨rfl, hk⟩) hs hd
    · exact absurd rfl h

/-- The run goes on until the message is gone. -/
theorem Spending.enabled {n : Notification} {k : ℕ} (h : Spending consumer posted n k world)
    (hg : world.place ≠ .gone) :
    ∃ a world', transientOnly a = true ∧ consumer.step posted world a = some world' := by
  have hsome : ∀ a, transientOnly a = true → (consumer.step posted world a).isSome = true →
      ∃ a world', transientOnly a = true ∧ consumer.step posted world a = some world' :=
    fun a ha hs => ⟨a, _, ha, (Option.some_get hs).symm⟩
  cases h with
  | queued hp => exact hsome .deliver rfl (by simp [NotificationConsumer.step, hp])
  | sending msg hb hp =>
    exact hsome (.reply (.sent (.error (.transient "")))) rfl
      (by simp [NotificationConsumer.step, hp, Task.resume])
  | dropped hp => exact hsome .settle rfl (by simp [NotificationConsumer.step, hp])
  | waiting hp =>
    have he : expires consumer.declarations consumer.topology.retryQueue = true :=
      expires_retryQueue _
    exact hsome .expire rfl (by simp [NotificationConsumer.step, hp, he])
  | publishing msg hb category reason hp =>
    obtain ⟨letter, next, heq, -⟩ := consumer.deps.applyDecision_deadLetter msg category reason
    rw [heq] at hp
    exact hsome (.reply .confirmed) rfl (by simp [NotificationConsumer.step, hp, Task.resume])
  | buried letter hb hp =>
    rcases hp with ⟨hp, -⟩ | ⟨hp, -⟩
    · exact hsome .settle rfl (by simp [NotificationConsumer.step, hp])
    · exact absurd hp hg

theorem connected_of_transientOnly (h : transientOnly a = true) : a.connected = true := by
  cases a <;> first | rfl | cases h

/-- The points of a run are counted by its length. -/
theorem spending_of_run {n : Notification} (hmax : 1 ≤ consumer.maxAttempts)
    (hn : consumer.notification posted = some n) {actions : List Action}
    (h : run (guarded (consumer.step posted) fun _ => transientOnly) consumer.initial actions =
      some world) : Spending consumer posted n actions.length world := by
  have hinit : Spending consumer posted n 0 consumer.initial := .queued rfl rfl rfl hmax rfl
  have hinv := run_invariant _
    (fun k w a w' (hi : Spending consumer posted n k w ∧ w.orphans = []) hs => by
      obtain ⟨ha, hs⟩ := guarded_eq_some hs
      obtain ⟨hafter, ho⟩ := (NotificationConsumer.step_cases hs).after hi.2
        (connected_of_transientOnly ha)
      exact And.intro (hi.1.step hn hafter ha) ho) ⟨hinit, rfl⟩ h
  rw [Nat.zero_add] at hinv
  exact hinv.1

/--
While the connection holds and no dead letter of the last permitted attempt fails, the
sender is called at most `maxAttempts` times. If every send fails transiently and dead
letters are published, the run ends, the sender was called exactly `maxAttempts` times,
and the message is in the dead letter queue once and in no other queue.
-/
theorem budget_respected (hmax : 1 ≤ consumer.maxAttempts) :
    (∀ world, Reach (consumer.step posted) (InBudget consumer posted) consumer.initial world →
      world.sends ≤ consumer.maxAttempts) ∧
    ∀ n, consumer.notification posted = some n → ∀ actions world,
      run (guarded (consumer.step posted) fun _ => transientOnly) consumer.initial actions =
        some world →
      actions.length ≤ 4 * consumer.maxAttempts ∧
      (world.place = .gone → world.sends = consumer.maxAttempts ∧
        ∃ letter, world.deadLetters = [letter] ∧ letter.body = posted.body) ∧
      (world.place ≠ .gone → ∃ a world', transientOnly a = true ∧
        consumer.step posted world a = some world') := by
  refine ⟨fun world h => sends_le_of_inBudget hmax h, fun n hn actions world h => ?_⟩
  have hs := spending_of_run hmax hn h
  refine ⟨by cases hs <;> omega, fun hg => ?_, hs.enabled⟩
  cases hs with
  | buried letter hb hp hs hd => exact ⟨hs, letter, hd, hb⟩
  | queued hp => rw [hg] at hp; cases hp
  | sending msg hb hp => rw [hg] at hp; cases hp
  | dropped hp => rw [hg] at hp; cases hp
  | waiting hp => rw [hg] at hp; cases hp
  | publishing msg hb category reason hp => rw [hg] at hp; cases hp

/-- Two transient failures, and the dead letter. -/
def spent : List Action :=
  [.deliver, .reply (.sent (.error (.transient "503"))), .settle, .expire,
    .deliver, .reply (.sent (.error (.transient "503"))), .reply .confirmed, .settle]

theorem budget_respected_spent : ∃ world : World, world.place = .gone ∧ world.sends = 2 ∧
    ∃ letter, world.deadLetters = [letter] ∧ letter.body = hello.body := by
  obtain ⟨n, hn⟩ : ∃ n, (consumerOf 2).notification hello = some n := ⟨_, rfl⟩
  obtain ⟨world, hrun, hp⟩ : ∃ world, run (guarded ((consumerOf 2).step hello) fun _ =>
      transientOnly) (consumerOf 2).initial spent = some world ∧ world.place = .gone :=
    ⟨_, rfl, rfl⟩
  have hmax : 1 ≤ (consumerOf 2).maxAttempts := by decide
  exact ⟨world, hp, ((budget_respected hmax).2 n hn spent world hrun).2.1 hp⟩

/-- The only permitted attempt fails, and so does its dead letter. -/
def overrun : List Action :=
  [.deliver, .reply (.sent (.error (.transient "503"))), .reply (.failed "confirm" false),
    .settle, .expire, .deliver]

theorem not_sends_le_overrun :
    ¬ ∀ (consumer : NotificationConsumer) (posted : Posted) (world : World),
      1 ≤ consumer.maxAttempts →
      Reach (consumer.step posted) (fun _ a => a.connected = true) consumer.initial world →
      world.sends ≤ consumer.maxAttempts := by
  intro h
  obtain ⟨world, hrun, hs⟩ : ∃ world, run (guarded ((consumerOf 1).step hello) fun _ a =>
      a.connected) (consumerOf 1).initial overrun = some world ∧ world.sends = 2 := ⟨_, rfl, rfl⟩
  have hle := h (consumerOf 1) hello world (Nat.le_refl 1) (Reach.of_run hrun)
  rw [hs] at hle
  exact absurd hle (by decide)

end ProfiNotifications.Notifications
