import ProfiNotifications.Notifications.Chat
import ProfiNotifications.OrderTracking

/-! # From a stored order to the chat

An event that core hands over is posted to the notifications service, and whatever happens
to it there, the chat is asked for nothing but the text that the llm service has written
about the order. The body is never at fault: a dead letter blames the chat.
-/

namespace ProfiNotifications.OrderSystem

open Transition
open OrderCore (Handed OutboxDestination notifyKey)
open Notifications (NotificationService Posted Chat numberJson refusals)

variable {sys : OrderSystem} {st : sys.State} {allowed : sys.State → Action → Prop}

/-- The request for what the llm service has written. -/
def chatRequest (service : NotificationService) (command : Llm.NotificationCommand) :
    Notifications.Request where
  url := service.sender.endpoint
  payload := .obj <|
    [("chat_id", .str service.sender.chatId), ("text", .str command.text)] ++
    Json.present "message_thread_id" numberJson service.sender.defaultThreadId ++
    [("parse_mode", .str (parseModeOf command.parseMode).value),
      ("link_preview_options", .obj [("is_disabled", .bool command.disableWebPagePreview)])]

theorem request_eq (service : NotificationService) {command : Llm.NotificationCommand}
    {n : Notifications.Notification} (h : n.toNotificationCommand =
      { text := command.text
        parseMode := some (parseModeOf command.parseMode)
        disableWebPagePreview := some command.disableWebPagePreview }) :
    service.sender.request n = chatRequest service command := by
  rw [Notifications.TelegramNotificationSender.request,
    Notifications.TelegramNotificationSender.buildPayload, h]
  simp [chatRequest, Json.present]

theorem blames_chat {service : NotificationService} {posted : Posted}
    {exchanges : List Notifications.Exchange} {letter : Notifications.DeadLetter}
    {n : Notifications.Notification} (hn : service.consumer.notification posted = some n)
    (h : letter.Justified service posted exchanges) :
    (∃ e ∈ exchanges, e.result.Refused) ∨ service.consumer.maxAttempts ≤ refusals exchanges := by
  unfold Notifications.NotificationConsumer.notification Notifications.notificationOf at hn
  cases h with
  | invalidPayload hc hparse =>
    rw [hparse] at hn
    cases hn
  | validation hc hparse hcreate =>
    simp only [hparse, hcreate] at hn
    cases hn
  | permanent hc he hrefused herr => exact Or.inl ⟨_, he, hrefused⟩
  | exhausted hc he hnot hbudget => exact Or.inr hbudget
  | unexpected hc he hthrown hbudget => exact Or.inr hbudget

/--
In every run of core and the llm service, and every run of the notifications service on
an event that core has handed over: the event is on a stored and decided order that the
llm service has assessed without an objection and with a score that reaches both
thresholds, every request to the API shows the text that the llm service has written for
this order, and a dead letter keeps the event after a refusal by the API or after as many
refusals as attempts are allowed.
-/
theorem chat_justified (h : Reach sys.step allowed {} st) {event : OrderCore.PendingEvent}
    {confirmed : Bool} (hh : Handed st.core (event, confirmed))
    (hd : event.destination = OutboxDestination.notify.value) {service : NotificationService}
    {posted : Posted} (hbody : posted.body = .json event.payload) {chat : Chat}
    (hchat : Reach (service.step posted) (fun _ _ => True) service.initial chat) :
    ∃ r ∈ st.core.tables.orders, ∃ (order : Llm.Schemas.Order) (listing : Llm.Listing)
      (assessment : Llm.Assessment), event.id = notifyKey r.key ∧ r.status ≠ .assessRequested ∧
      r.payload = order.dump ∧
      (∃ d ∈ st.llm.deliveries, sys.llm.Recommends d order listing assessment) ∧
      assessment.unsupportedHits = [] ∧ assessment.isRejectedType = false ∧
      max sys.llm.uc.threshold sys.threshold ≤ assessment.suitabilityScore ∧
      (∀ e ∈ chat.exchanges, e.request =
        chatRequest service (Llm.buildNotification listing assessment)) ∧
      (∀ m ∈ chat.world.deadLetters, m.body = .json event.payload ∧
        ((∃ e ∈ chat.exchanges, e.result.Refused) ∨
          service.consumer.maxAttempts ≤ refusals chat.exchanges)) ∧
      (chat.world.place = .gone →
        (∃ e ∈ chat.exchanges, e.result.Accepted) ∨ chat.world.deadLetters ≠ []) := by
  obtain ⟨r, hr, order, listing, assessment, hid, hst, hp, hrec, hscore, hpay⟩ :=
    (Linked.of_reach h).recommended_of_handed hh hd
  obtain ⟨d, -, hd'⟩ := id hrec
  obtain ⟨hhits, hrejected, hthreshold⟩ := hd'.assessed
  obtain ⟨command, n, hparse, hcreate, heq⟩ := command_accepted service.consumer.decoding
    (strip_buildNotification_ne listing assessment)
    (Llm.buildNotification_length listing assessment)
  have hn : service.consumer.notification posted = some n := by
    simp only [Notifications.NotificationConsumer.notification, Notifications.notificationOf,
      hbody, hpay, hparse, hcreate]
    rfl
  have hrecorded := (Notifications.Sound.of_reach hchat).recorded
  refine ⟨r, hr, order, listing, assessment, hid, hst, hp, hrec, hhits, hrejected,
    max_le hthreshold hscore, ?_, ?_, Notifications.taken_or_buried hchat⟩
  · intro e he
    obtain ⟨n', hn', hreq⟩ := hrecorded.requests e he
    obtain rfl := Option.some.inj (hn.symm.trans hn')
    exact hreq.trans (request_eq service heq)
  · intro m hm
    obtain ⟨letter, rfl, hb, hj⟩ := hrecorded.buried m hm
    exact ⟨hb.trans hbody, blames_chat hn hj⟩

def deployedService : NotificationService :=
  Notifications.serviceOf ⟨fun _ => .ok "", fun _ => .ok none⟩

/-- The event as it reaches the notifications service. -/
def postedEvent (event : OrderCore.PendingEvent) : Posted where
  body := .json event.payload
  no_deaths := Notifications.hello.no_deaths

/-- The bot was blocked. -/
def refusedRun : List Notifications.ChatAction :=
  [.deliver, .answer (.fetched (.response 403 none)), .answer .confirmed, .settle]

theorem chat_justified_refusedRun : ∃ (st : deployed.State) (event : OrderCore.PendingEvent)
    (chat : Chat), chat.exchanges.length = 1 ∧ chat.world.deadLetters.length = 1 ∧
      (∃ r ∈ st.core.tables.orders, event.id = notifyKey r.key ∧ r.status ≠ .assessRequested) ∧
      ∀ m ∈ chat.world.deadLetters, m.body = .json event.payload := by
  have hdone : (run (guarded deployed.step fun _ _ => true) {} notifiedRun).any (fun st =>
      st.core.sessions.any fun s => s.handed.any fun h =>
        h.1.destination = OutboxDestination.notify.value && h.2 &&
        (run (guarded (deployedService.step (postedEvent h.1)) fun _ _ => true)
          deployedService.initial refusedRun).any fun chat =>
            chat.exchanges.length = 1 && chat.world.deadLetters.length = 1) = true := by
    decide +kernel
  obtain ⟨st, hrun, hst⟩ := (Option.any_eq_true _ _).mp hdone
  obtain ⟨s, hs, hst⟩ := List.any_eq_true.mp hst
  obtain ⟨⟨event, confirmed⟩, hh, he⟩ := List.any_eq_true.mp hst
  simp only [Bool.and_eq_true, decide_eq_true_eq] at he
  obtain ⟨⟨hd, -⟩, he⟩ := he
  obtain ⟨chat, hchat, hlen⟩ := (Option.any_eq_true _ _).mp he
  simp only [Bool.and_eq_true, decide_eq_true_eq] at hlen
  obtain ⟨r, hr, -, -, -, hid, hdecided, -, -, -, -, -, -, hburied, -⟩ := chat_justified
    (Reach.of_run hrun) ⟨s, hs, hh⟩ hd rfl ((Reach.of_run hchat).mono fun _ _ _ => trivial)
  exact ⟨st, event, chat, hlen.1, hlen.2, ⟨r, hr, hid, hdecided⟩, fun m hm => (hburied m hm).1⟩

end ProfiNotifications.OrderSystem
