import ProfiNotifications.Notifications.Budget
import ProfiNotifications.Notifications.Telegram

/-! # One message between the broker and the chat

The service with the Telegram sender: what a handler hears is the answer to a request, and
the requests are kept beside the broker's state. A dead letter says why it was given up,
and the answers bear it out.
-/

namespace ProfiNotifications.Notifications

open Transition

structure NotificationService where
  consumer : NotificationConsumer
  sender : TelegramNotificationSender
  coercion : Coercion

/-- A request and what came of it. -/
structure Exchange where
  request : Request
  result : FetchResult
  deriving DecidableEq, Repr

/-- The message at the broker, and the requests that were made for it. -/
structure Chat where
  world : World
  exchanges : List Exchange := []

inductive Answer where
  | fetched (result : FetchResult)
  | confirmed
  | failed (message : String) (arrived : Bool)

inductive ChatAction where
  | deliver
  | answer (answer : Answer)
  | orphanAnswer (i : ℕ) (answer : Answer)
  | settle
  | expire
  | disconnect

namespace NotificationService

variable (service : NotificationService)

def reply : Answer → Reply
  | .fetched result => .sent (sendResult service.coercion result)
  | .confirmed => .confirmed
  | .failed message arrived => .failed message arrived

def action : ChatAction → Action
  | .deliver => .deliver
  | .answer answer => .reply (service.reply answer)
  | .orphanAnswer i answer => .orphanReply i (service.reply answer)
  | .settle => .settle
  | .expire => .expire
  | .disconnect => .disconnect

def exchange : Task → Answer → List Exchange
  | .send n _, .fetched result => [⟨service.sender.request n, result⟩]
  | _, _ => []

/-- The requests that an action answers. -/
def exchanged (world : World) : ChatAction → List Exchange
  | .answer answer =>
    match world.place with
    | .inFlight task => service.exchange task answer
    | _ => []
  | .orphanAnswer i answer =>
    match world.orphans[i]? with
    | some task => service.exchange task answer
    | none => []
  | _ => []

def step (posted : Posted) (chat : Chat) (a : ChatAction) : Option Chat :=
  (service.consumer.step posted chat.world (service.action a)).map fun world =>
    { world, exchanges := chat.exchanges ++ service.exchanged chat.world a }

def initial : Chat := { world := service.consumer.initial }

end NotificationService

/-- The requests that the chat has not taken. -/
def refusals (exchanges : List Exchange) : ℕ :=
  (exchanges.filter fun e => ¬ e.result.Accepted).length

theorem refusals_append (exchanges exchanges' : List Exchange) :
    refusals (exchanges ++ exchanges') = refusals exchanges + refusals exchanges' := by
  simp [refusals]

theorem refusals_singleton (e : Exchange) :
    refusals [e] = if e.result.Accepted then 0 else 1 := by
  by_cases h : e.result.Accepted <;> simp [refusals, h]

section Letters

variable (service : NotificationService) (posted : Posted) (exchanges : List Exchange)

/-- A dead letter of the message with a category that its history bears out. -/
inductive DeadLetter.Justified (letter : DeadLetter) : Prop
  | invalidPayload (hc : letter.category = .invalidPayload)
      (hparse : parseNotificationMessage service.consumer.decoding posted.body =
        .error letter.reason)
  | validation {command : NotificationCommand} (hc : letter.category = .validation)
      (hparse : parseNotificationMessage service.consumer.decoding posted.body = .ok command)
      (hcreate : createNotification command = .error letter.reason)
  | permanent {e : Exchange} (hc : letter.category = .permanent) (he : e ∈ exchanges)
      (hrefused : e.result.Refused)
      (herr : sendResult service.coercion e.result = .error (.permanent letter.reason))
  | exhausted {e : Exchange} (hc : letter.category = .exhausted) (he : e ∈ exchanges)
      (hnot : ¬ e.result.Accepted ∧ ¬ e.result.Refused)
      (hbudget : service.consumer.maxAttempts ≤ refusals exchanges)
  | unexpected {e : Exchange} {thrown : String} (hc : letter.category = .unexpected)
      (he : e ∈ exchanges) (hthrown : e.result.Unreadable service.coercion thrown)
      (hbudget : service.consumer.maxAttempts ≤ refusals exchanges)

/-- The task goes on to dead letters only that the history bears out. -/
def Task.Justified : Task → Prop
  | .send n next => service.consumer.notification posted = some n ∧
      ∃ (msg : MessageLike) (attempt : ℕ), msg.body = posted.body ∧
        attempt ≤ refusals exchanges ∧ next = fun result =>
          service.consumer.deps.applyDecision msg
            (decisionOn service.consumer.maxAttempts attempt result)
  | .publish letter next => letter.body = posted.body ∧
      letter.routingKey = service.consumer.topology.routingKey ∧
      letter.Justified service posted exchanges ∧
      next (.ok ()) = .settled (.ok .ack) ∧
      ∀ message, next (.error message) = .settled (.error message)
  | .settled _ => True

end Letters

variable {service : NotificationService} {posted : Posted} {exchanges : List Exchange}
  {world : World} {task task' : Task} {letter : DeadLetter}

theorem DeadLetter.Justified.append (h : letter.Justified service posted exchanges)
    (exchanges' : List Exchange) : letter.Justified service posted (exchanges ++ exchanges') := by
  have hle : refusals exchanges ≤ refusals (exchanges ++ exchanges') := by
    rw [refusals_append]
    exact Nat.le_add_right _ _
  cases h with
  | invalidPayload hc hparse => exact .invalidPayload hc hparse
  | validation hc hparse hcreate => exact .validation hc hparse hcreate
  | permanent hc he hrefused herr =>
    exact .permanent hc (List.mem_append_left _ he) hrefused herr
  | exhausted hc he hnot hbudget =>
    exact .exhausted hc (List.mem_append_left _ he) hnot (hbudget.trans hle)
  | unexpected hc he hthrown hbudget =>
    exact .unexpected hc (List.mem_append_left _ he) hthrown (hbudget.trans hle)

theorem Task.Justified.append (h : task.Justified service posted exchanges)
    (exchanges' : List Exchange) : task.Justified service posted (exchanges ++ exchanges') := by
  cases task with
  | send n next =>
    obtain ⟨hn, msg, attempt, hb, hle, hnext⟩ := h
    refine ⟨hn, msg, attempt, hb, hle.trans ?_, hnext⟩
    rw [refusals_append]
    exact Nat.le_add_right _ _
  | publish letter next => exact ⟨h.1, h.2.1, h.2.2.1.append exchanges', h.2.2.2⟩
  | settled result => trivial

theorem applyDecision_justified {msg : MessageLike} {decision : DeliveryDecision}
    (hb : msg.body = posted.body)
    (h : ∀ letter : DeadLetter, decision = .deadLetter letter.category letter.reason →
      letter.Justified service posted exchanges) :
    (service.consumer.deps.applyDecision msg decision).Justified service posted exchanges := by
  cases decision with
  | ack => trivial
  | retry => trivial
  | deadLetter category reason => exact ⟨hb, rfl, h _ rfl, rfl, fun _ => rfl⟩

theorem justified_of_decisionOn {attempt : ℕ} {e : Exchange} (he : e ∈ exchanges)
    (hcount : ¬ e.result.Accepted → attempt + 1 ≤ refusals exchanges)
    (hd : decisionOn service.consumer.maxAttempts attempt
      (sendResult service.coercion e.result) = .deadLetter letter.category letter.reason) :
    letter.Justified service posted exchanges := by
  cases herr : sendResult service.coercion e.result with
  | ok =>
    rw [herr] at hd
    cases hd
  | error err =>
    obtain ⟨hna, hexplains⟩ := sendResult_error herr
    have hle := hcount hna
    rw [herr] at hd
    cases err with
    | permanent message =>
      simp only [decisionOn, onSendError, DeliveryDecision.deadLetter.injEq] at hd
      obtain ⟨hc, hr⟩ := hd
      exact .permanent hc.symm he hexplains (hr ▸ herr)
    | transient message =>
      simp only [decisionOn, onSendError] at hd
      split at hd
      · simp only [DeliveryDecision.deadLetter.injEq] at hd
        exact .exhausted hd.1.symm he ⟨hna, hexplains⟩ (by omega)
      · cases hd
    | unknown reason =>
      simp only [decisionOn, onSendError] at hd
      split at hd
      · simp only [DeliveryDecision.deadLetter.injEq] at hd
        exact .unexpected hd.1.symm he hexplains (by omega)
      · cases hd

/-- A delivered message is requested, or its body is at fault. -/
theorem handle_justified
    (hcount : ∀ n, service.consumer.notification posted = some n →
      service.consumer.attempts world ≤ refusals exchanges) :
    (service.consumer.deps.handle (posted.delivery world)).Justified service posted
      exchanges := by
  cases hn : service.consumer.notification posted with
  | some n =>
    rw [NotificationConsumer.handle_delivery hn]
    exact ⟨hn, _, _, rfl, hcount n hn, rfl⟩
  | none =>
    unfold NotificationConsumer.notification notificationOf at hn
    unfold MessageHandlerDeps.handle
    cases hparse : parseNotificationMessage service.consumer.decoding posted.body with
    | error reason =>
      have hparse' : parseNotificationMessage service.consumer.deps.decoding
          (posted.delivery world).body = .error reason := hparse
      simp only [hparse']
      refine applyDecision_justified rfl fun letter hd => ?_
      simp only [MessageHandlerDeps.decisionOf, DeliveryDecision.deadLetter.injEq] at hd
      exact .invalidPayload hd.1.symm (hd.2 ▸ hparse)
    | ok command =>
      have hparse' : parseNotificationMessage service.consumer.deps.decoding
          (posted.delivery world).body = .ok command := hparse
      simp only [hparse', execute]
      cases hcreate : createNotification command with
      | ok n =>
        simp only [hparse, hcreate] at hn
        cases hn
      | error message =>
        refine applyDecision_justified rfl fun letter hd => ?_
        simp only [MessageHandlerDeps.decisionOf, DeliveryDecision.deadLetter.injEq] at hd
        exact .validation hd.1.symm hparse (hd.2 ▸ hcreate)

/-- What the broker has recorded is what the requests came to. -/
structure Recorded (service : NotificationService) (posted : Posted) (world : World)
    (exchanges : List Exchange) : Prop where
  requests : ∀ e ∈ exchanges, ∃ n, service.consumer.notification posted = some n ∧
    e.request = service.sender.request n
  resolved : world.resolved = (exchanges.filter fun e => e.result.Accepted).length
  buried : ∀ m ∈ world.deadLetters, ∃ letter : DeadLetter, m = letter.message ∧
    letter.body = posted.body ∧ letter.Justified service posted exchanges
  confirmed : ∀ letter ∈ world.confirmed, letter.message ∈ world.deadLetters

/-- The delivery has come to a refusal that the broker has not counted yet. -/
def Place.refused : Place → ℕ
  | .inFlight (.publish _ _) => 1
  | .inFlight (.settled (.ok .drop)) => 1
  | .inFlight (.settled (.error _)) => 1
  | _ => 0

/-- Every handler is justified, and every counted attempt was refused. -/
structure Sound (service : NotificationService) (posted : Posted) (chat : Chat) : Prop where
  inFlight : ∀ task, chat.world.place = .inFlight task →
    task.Justified service posted chat.exchanges
  orphans : ∀ task ∈ chat.world.orphans, task.Justified service posted chat.exchanges
  counted : ∀ n, service.consumer.notification posted = some n →
    service.consumer.attempts chat.world + chat.world.place.refused ≤ refusals chat.exchanges
  recorded : Recorded service posted chat.world chat.exchanges

theorem Place.refused_le (place : Place) : place.refused ≤ 1 := by
  unfold Place.refused
  split <;> omega

theorem Recorded.congr {world' : World} (h : Recorded service posted world exchanges)
    (hr : world'.resolved = world.resolved) (hc : world'.confirmed = world.confirmed)
    (hd : world'.deadLetters = world.deadLetters) : Recorded service posted world' exchanges := by
  refine ⟨h.requests, hr.trans h.resolved, ?_, ?_⟩
  · rw [hd]
    exact h.buried
  · rw [hc, hd]
    exact h.confirmed

theorem Task.Justified.resume {answer : Answer} (h : task.Justified service posted exchanges)
    (hr : task.resume (service.reply answer) = some task') :
    task'.Justified service posted (exchanges ++ service.exchange task answer) ∧
    (Place.inFlight task').refused ≤
      (Place.inFlight task).refused + refusals (service.exchange task answer) := by
  cases task with
  | settled result => cases answer <;> cases hr
  | send n next =>
    cases answer with
    | confirmed => cases hr
    | failed message arrived => cases hr
    | fetched result =>
      obtain ⟨hn, msg, attempt, hb, hle, rfl⟩ := h
      obtain rfl := Option.some.inj hr
      have hlast : (⟨service.sender.request n, result⟩ : Exchange) ∈
          exchanges ++ [⟨service.sender.request n, result⟩] :=
        List.mem_append_right _ List.mem_cons_self
      refine ⟨applyDecision_justified hb fun letter hd =>
        justified_of_decisionOn hlast (fun hna => ?_) hd, ?_⟩
      · rw [refusals_append, NotificationService.exchange, refusals_singleton, if_neg hna]
        omega
      · -- an accepted request is acknowledged at once
        simp only [NotificationService.exchange, refusals_singleton]
        split
        · simp only [sendResult_eq_ok.mpr ‹_›, decisionOn, MessageHandlerDeps.applyDecision]
          exact Nat.zero_le _
        · exact (Place.refused_le _).trans (Nat.le_add_left _ _)
  | publish letter next =>
    obtain ⟨-, -, -, hack, hfail⟩ := h
    have hone : (Place.inFlight (.publish letter next)).refused = 1 := rfl
    have hle := Place.refused_le (.inFlight task')
    refine ⟨?_, by omega⟩
    cases answer with
    | fetched result => cases hr
    | confirmed =>
      obtain rfl := Option.some.inj hr
      rw [hack]
      trivial
    | failed message arrived =>
      obtain rfl := Option.some.inj hr
      rw [hfail]
      trivial

theorem Recorded.answered {answer : Answer} (h : Recorded service posted world exchanges)
    (hj : task.Justified service posted exchanges)
    (hr : task.resume (service.reply answer) = some task') :
    Recorded service posted (service.consumer.observe world task (service.reply answer))
      (exchanges ++ service.exchange task answer) := by
  have hkept : ∀ m ∈ world.deadLetters, ∃ letter : DeadLetter, m = letter.message ∧
      letter.body = posted.body ∧
      letter.Justified service posted (exchanges ++ service.exchange task answer) := by
    intro m hm
    obtain ⟨letter, heq, hb, hletter⟩ := h.buried m hm
    exact ⟨letter, heq, hb, hletter.append _⟩
  cases task with
  | settled result => cases answer <;> cases hr
  | send n next =>
    cases answer with
    | confirmed => cases hr
    | failed message arrived => cases hr
    | fetched result =>
      have hrequests : ∀ e ∈ exchanges ++ [⟨service.sender.request n, result⟩], ∃ n,
          service.consumer.notification posted = some n ∧
            e.request = service.sender.request n := by
        intro e he
        rcases List.mem_append.mp he with he | he
        · exact h.requests e he
        · obtain rfl := List.mem_singleton.mp he
          exact ⟨n, hj.1, rfl⟩
      simp only [NotificationService.reply, NotificationService.exchange] at hkept ⊢
      cases hres : sendResult service.coercion result with
      | ok =>
        have ha : result.Accepted := sendResult_eq_ok.mp hres
        refine ⟨hrequests, ?_, hkept, h.confirmed⟩
        simp [NotificationConsumer.observe, h.resolved, ha]
      | error err =>
        have ha : ¬ result.Accepted := (sendResult_error hres).1
        refine ⟨hrequests, ?_, hkept, h.confirmed⟩
        simp [NotificationConsumer.observe, h.resolved, ha]
  | publish letter next =>
    obtain ⟨hb, hk, hletter, -, -⟩ := hj
    have harrives : ∀ m ∈ world.deadLetters ++ service.consumer.arrivals letter,
        ∃ letter : DeadLetter, m = letter.message ∧ letter.body = posted.body ∧
          letter.Justified service posted exchanges := by
      intro m hm
      rcases List.mem_append.mp hm with hm | hm
      · exact h.buried m hm
      · rw [service.consumer.arrivals_eq hk] at hm
        exact ⟨letter, List.mem_singleton.mp hm, hb, hletter⟩
    have hconfirmed : ∀ l ∈ world.confirmed,
        l.message ∈ world.deadLetters ++ service.consumer.arrivals letter :=
      fun l hl => List.mem_append_left _ (h.confirmed l hl)
    cases answer with
    | fetched result => cases hr
    | confirmed =>
      simp only [NotificationService.exchange, List.append_nil]
      refine ⟨h.requests, h.resolved, harrives, fun l hl => ?_⟩
      rcases List.mem_append.mp hl with hl | hl
      · exact hconfirmed l hl
      · obtain rfl := List.mem_singleton.mp hl
        refine List.mem_append_right _ ?_
        rw [service.consumer.arrivals_eq hk]
        exact List.mem_singleton_self _
    | failed message arrived =>
      simp only [NotificationService.exchange, List.append_nil]
      cases arrived with
      | true => exact ⟨h.requests, h.resolved, harrives, hconfirmed⟩
      | false => exact h

theorem Sound.step {chat chat' : Chat} {a : ChatAction} (h : Sound service posted chat)
    (hs : service.step posted chat a = some chat') : Sound service posted chat' := by
  obtain ⟨world', hw, rfl⟩ := Option.map_eq_some_iff.mp hs
  have hw' := NotificationConsumer.step_cases hw
  cases a with
  | deliver =>
    cases hw' with
    | @deliver task hp ht =>
      have hattempts : ∀ n, service.consumer.notification posted = some n →
          service.consumer.attempts chat.world ≤ refusals chat.exchanges :=
        fun n hn => (Nat.le_add_right _ _).trans (h.counted n hn)
      simp only [NotificationService.exchanged, List.append_nil]
      refine ⟨?_, h.orphans, fun n hn => ?_, h.recorded.congr rfl rfl rfl⟩
      · rintro t ⟨⟩
        rw [ht]
        exact handle_justified hattempts
      · rw [ht, NotificationConsumer.handle_delivery hn]
        exact hattempts n hn
  | answer answer =>
    cases hw' with
    | @reply task task' reply hp hr =>
      have hexchanged : service.exchanged chat.world (.answer answer) =
          service.exchange task answer := by
        simp only [NotificationService.exchanged, hp]
      obtain ⟨hnext, hrefused⟩ := (h.inFlight task hp).resume hr
      rw [hexchanged]
      refine ⟨?_, ?_, fun n hn => ?_, ?_⟩
      · rintro t ⟨⟩
        exact hnext
      · intro t ht
        rw [NotificationConsumer.observe_orphans] at ht
        exact (h.orphans t ht).append _
      · have hcounted := h.counted n hn
        rw [hp] at hcounted
        rw [attempts_observe, refusals_append]
        simp only at hcounted ⊢
        omega
      · exact (h.recorded.answered (h.inFlight task hp) hr).congr rfl rfl rfl
  | orphanAnswer i answer =>
    cases hw' with
    | @orphanReply i task task' reply hi hr =>
      have hexchanged : service.exchanged chat.world (.orphanAnswer i answer) =
          service.exchange task answer := by
        simp only [NotificationService.exchanged, hi]
      have htask := h.orphans task (List.mem_of_getElem? hi)
      rw [hexchanged]
      refine ⟨?_, ?_, fun n hn => ?_, ?_⟩
      · intro t ht
        exact (h.inFlight t ((service.consumer.observe_place _ _ _).symm.trans ht)).append _
      · intro t ht
        rcases List.mem_or_eq_of_mem_set ht with ht | rfl
        exacts [(h.orphans t ht).append _, (htask.resume hr).1]
      · have hcounted := h.counted n hn
        have hplace := service.consumer.observe_place chat.world task (service.reply answer)
        have hdeaths := service.consumer.observe_deaths chat.world task (service.reply answer)
        simp only [NotificationConsumer.attempts, hplace, hdeaths, refusals_append] at hcounted ⊢
        omega
      · exact (h.recorded.answered htask hr).congr rfl rfl rfl
  | settle =>
    simp only [NotificationService.exchanged, List.append_nil]
    cases hw' with
    | acknowledged hp =>
      refine ⟨?_, h.orphans, fun n hn => ?_, h.recorded.congr rfl rfl rfl⟩
      · intro t ht
        cases ht
      · exact (Nat.le_add_right _ _).trans (h.counted n hn)
    | @rejected result hp hr =>
      refine ⟨?_, h.orphans, fun n hn => ?_, h.recorded.congr rfl rfl rfl⟩
      · intro t ht
        exact absurd ht (NotificationConsumer.forward_ne _ t)
      · have hrefused : chat.world.place.refused = 1 := by
          rw [hp]
          cases result with
          | ok status =>
            cases status with
            | ack => exact absurd rfl hr
            | drop => rfl
          | error message => rfl
        have hcounted := h.counted n hn
        rw [attempts_rejected, NotificationConsumer.deadLetter_queue_place]
        simp only [Place.refused]
        omega
  | expire =>
    simp only [NotificationService.exchanged, List.append_nil]
    cases hw' with
    | @expired queue hp he =>
      refine ⟨?_, h.orphans, fun n hn => ?_, h.recorded.congr rfl rfl rfl⟩
      · intro t ht
        exact absurd ht (NotificationConsumer.forward_ne _ t)
      · have hplace : (service.consumer.deadLetter chat.world queue "expired").place.refused =
            0 := by
          simp only [NotificationConsumer.deadLetter, NotificationConsumer.forward]
          split <;> rfl
        rw [attempts_expired, hplace]
        exact (Nat.le_add_right _ _).trans (h.counted n hn)
  | disconnect =>
    simp only [NotificationService.exchanged, List.append_nil]
    cases hw' with
    | @disconnected task hp =>
      refine ⟨?_, ?_, fun n hn => ?_, h.recorded.congr rfl rfl rfl⟩
      · intro t ht
        cases ht
      · intro t ht
        rcases List.mem_append.mp ht with ht | ht
        · exact h.orphans t ht
        · obtain rfl := List.mem_singleton.mp ht
          exact h.inFlight t hp
      · exact (Nat.le_add_right _ _).trans (h.counted n hn)

variable {chat : Chat}

theorem Sound.of_reach (h : Reach (service.step posted) (fun _ _ => True) service.initial chat) :
    Sound service posted chat := by
  have hinit : Sound service posted service.initial :=
    ⟨nofun, nofun, fun _ _ => Nat.zero_le _, nofun, rfl, nofun, nofun⟩
  exact h.invariant hinit fun _ _ _ _ hi _ hs => hi.step hs

theorem reach_world
    (h : Reach (service.step posted) (fun _ _ => True) service.initial chat) :
    Reach (service.consumer.step posted) (fun _ _ => True) service.consumer.initial chat.world := by
  induction h with
  | refl => exact .refl
  | tail _ _ hs ih =>
    obtain ⟨world', hw, rfl⟩ := Option.map_eq_some_iff.mp hs
    exact .tail ih trivial hw

/-- A message that has left the queues is in the chat or in the dead letter queue. -/
theorem taken_or_buried
    (h : Reach (service.step posted) (fun _ _ => True) service.initial chat)
    (hgone : chat.world.place = .gone) :
    (∃ e ∈ chat.exchanges, e.result.Accepted) ∨ chat.world.deadLetters ≠ [] := by
  have hrecorded := (Sound.of_reach h).recorded
  have hkept : Kept service.consumer posted chat.world :=
    (reach_world h).invariant (.waiting rfl (Or.inl rfl)) fun _ _ _ _ hi _ hs =>
      hi.step (NotificationConsumer.step_cases hs)
  rcases hkept.gone hgone with hpos | ⟨letter, hmem, -⟩
  · rw [hrecorded.resolved] at hpos
    obtain ⟨e, he⟩ := List.exists_mem_of_length_pos hpos
    obtain ⟨he, ha⟩ := List.mem_filter.mp he
    exact Or.inl ⟨e, he, of_decide_eq_true ha⟩
  · exact Or.inr (List.ne_nil_of_mem (hrecorded.confirmed letter hmem))

/--
In every run, with any answers of the API and of the dead-letter exchange and any lost
connections: only the notification of the message is requested, the sends that resolve are
the requests that the chat has taken, and every dead letter has the body of the message and
a category that its history bears out. It is given up as permanent only after the API has
refused the request, and as exhausted only after as many refusals as attempts are allowed.
A message that has left the queues is in the chat or in the dead letter queue.
-/
theorem dead_letters_justified
    (h : Reach (service.step posted) (fun _ _ => True) service.initial chat) :
    (∀ e ∈ chat.exchanges, ∃ n, service.consumer.notification posted = some n ∧
      e.request = service.sender.request n) ∧
    chat.world.resolved = (chat.exchanges.filter fun e => e.result.Accepted).length ∧
    (∀ m ∈ chat.world.deadLetters, ∃ letter : DeadLetter, m = letter.message ∧
      letter.body = posted.body ∧ letter.Justified service posted chat.exchanges) ∧
    (chat.world.place = .gone →
      (∃ e ∈ chat.exchanges, e.result.Accepted) ∨ chat.world.deadLetters ≠ []) := by
  obtain ⟨hrequests, hresolved, hburied, -⟩ := (Sound.of_reach h).recorded
  exact ⟨hrequests, hresolved, hburied, taken_or_buried h⟩

/-- A service with two attempts, and a bot at the default address. -/
def serviceOf (coercion : Coercion) : NotificationService where
  consumer := consumerOf 2
  sender := .create { botToken := "token", chatId := "@chat" }
  coercion := coercion

/-- A rate limit and a failed request spend both attempts. -/
def limitedThenDown : List ChatAction :=
  [.deliver, .answer (.fetched (.response 429 none)), .settle, .expire, .deliver,
    .answer (.fetched (.failed "timeout")), .answer .confirmed, .settle]

theorem dead_letters_justified_limitedThenDown : ∃ chat : Chat,
    chat.world.place = .gone ∧ chat.exchanges.length = 2 ∧
    ∃ m ∈ chat.world.deadLetters, ∃ letter : DeadLetter, m = letter.message ∧
      letter.body = hello.body ∧
      letter.Justified (serviceOf ⟨fun _ => .ok "", fun _ => .ok none⟩) hello chat.exchanges := by
  obtain ⟨chat, hrun, hp, hl⟩ : ∃ chat, run (guarded
      ((serviceOf ⟨fun _ => .ok "", fun _ => .ok none⟩).step hello) fun _ _ => true)
        (serviceOf ⟨fun _ => .ok "", fun _ => .ok none⟩).initial limitedThenDown = some chat ∧
      chat.world.place = .gone ∧ chat.exchanges.length = 2 ∧ chat.world.deadLetters.length = 1 :=
    ⟨_, rfl, rfl, rfl, rfl⟩
  obtain ⟨m, hm⟩ := List.exists_mem_of_length_pos (hl.2.symm ▸ Nat.one_pos)
  obtain ⟨-, -, hburied, -⟩ :=
    dead_letters_justified ((Reach.of_run hrun).mono fun _ _ _ => trivial)
  exact ⟨chat, hp, hl.1, m, hm, hburied m hm⟩

end ProfiNotifications.Notifications
