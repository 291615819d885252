import ProfiNotifications.OrderCore.Reliability
import ProfiNotifications.OrderSystem

/-! # Every order is accounted for, from the batch to the notification

Nothing that the llm service sends is rejected by core or names an order that core does
not know. Whatever core hands to the notifications service recommends a stored order
that both thresholds let through, and is accepted there. And an order that core has
stored is decided, or it can be found: in the outbox, in the queues of the llm service,
in hand, or in a result that waits.
-/

namespace ProfiNotifications.OrderSystem

open Keyed Transition
open OrderCore (Core Handed OrderRow OutboxDestination Decided assessKey notifyKey
  assessRequestPayload)
open OrderCore.ProcessAssessment (Verdict key)

variable {sys : OrderSystem} {st : sys.State} {allowed : sys.State → Action → Prop}
  {v : OrderCore.AssessmentOutcome}

theorem Linked.row_of_handed (hl : sys.Linked st) {event : OrderCore.PendingEvent}
    {confirmed : Bool} (hh : Handed st.core (event, confirmed)) :
    ∃ e ∈ st.core.tables.outbox, e.toEvent = event := by
  obtain ⟨s, hs, hh⟩ := hh
  have hi := hl.answering
  exact (hi.known s hs).claimed event ((hi.relay.points s hs).handed_claimed hh)

/-- A stored order keeps the order of the batch that it came with. -/
theorem Linked.wire_of_row (hl : sys.Linked st) {r : OrderRow} (hr : r ∈ st.core.tables.orders) :
    ∃ order : Llm.Schemas.Order, r.key = (.profi, order.id) ∧ r.payload = order.dump := by
  have hi := hl.answering
  have hin : r.incoming ∈ st.core.ingested := by
    have hmem := List.mem_map_of_mem (f := OrderRow.incoming) hr
    rw [hi.ingest.inStep.orders] at hmem
    exact (fresh_sublist _ _).subset hmem
  obtain ⟨order, hs, hid, hp⟩ := hi.wire _ hin
  refine ⟨order, ?_, hp⟩
  rw [← OrderCore.key_incoming, OrderCore.IncomingOrder.key, hs, hid]

theorem Linked.order_of_request (hl : sys.Linked st) {event : OrderCore.PendingEvent}
    {confirmed : Bool} (hh : Handed st.core (event, confirmed))
    (hd : event.destination = OutboxDestination.assessRequest.value) :
    ∃ r ∈ st.core.tables.orders, event.payload = assessRequestPayload r.incoming := by
  obtain ⟨e, he, rfl⟩ := hl.row_of_handed hh
  have hevent : (e.dedupKey, e.payload) ∈
      st.core.tables.outbox.filterMap OrderCore.OutboxRow.assessEvent :=
    List.mem_filterMap.mpr ⟨e, he, if_pos hd⟩
  rw [hl.answering.ingest.inStep.outbox] at hevent
  obtain ⟨r, hr, hre⟩ := List.mem_map.mp hevent
  exact ⟨r, hr, (congrArg Prod.snd hre).symm⟩

theorem Linked.order_of_result (hl : sys.Linked st) {body : Json}
    (hb : (sys.llm.settings.resultQueue, body) ∈ st.llm.stored) :
    ∃ r ∈ st.core.tables.orders, ∃ (order : Llm.Schemas.Order) (listing : Llm.Listing)
      (assessment : Llm.Assessment) (v : OrderCore.AssessmentOutcome),
      r.key = (.profi, order.id) ∧ r.payload = order.dump ∧
      Recommended st order listing assessment body ∧ readVerdict sys.lax body = .ok v ∧
      key v = r.key ∧ v.suitabilityScore = assessment.suitabilityScore ∧
      OrderCore.notificationPayload v.notification =
        (Llm.Schemas.NotificationMessage.fromCommand
          (Llm.buildNotification listing assessment)).dump := by
  obtain ⟨event, confirmed, message, order, listing, assessment, hh, hd, hm, ho, hrec⟩ :=
    hl.result_origin hb
  obtain ⟨r, hr, hpay⟩ := hl.order_of_request hh hd
  obtain ⟨order', hk, hp⟩ := hl.wire_of_row hr
  obtain ⟨v, hv, hid, hscore, hn⟩ := readVerdict_dump sys.lax listing assessment
  rw [hpay] at hm
  obtain rfl := Validated.ok.inj
    ((OrderCore.validate_assessRequestPayload (show r.incoming.payload = _ from hp)).symm.trans hm)
  obtain rfl := List.mem_singleton.mp ho
  obtain ⟨d, -, hd'⟩ := hrec.delivered
  refine ⟨r, hr, order, listing, assessment, v, hk, hp, hrec, by rw [hrec.body_eq]; exact hv, ?_,
    hscore, hn⟩
  rw [hk, key, hid, Llm.Schemas.id_of_orderToListing hd'.listed]

def outcome (s : OrderCore.Session) : Option (Except OrderCore.Raised Unit) :=
  match s.prog with
  | .ret => some (.ok ())
  | .raise error => some (.error (.failure error))
  | _ => none

/-- The deployed queues; core has a higher threshold than the llm service. -/
def deployed : OrderSystem where
  threshold := 70
  lax := .plain
  llm := Llm.AssessService.deployed

def assessedRun : List Action :=
  [.parseResults OrderCore.ProcessAssessment.wireMessage.dump 0, .perform 0 .exec false,
    .perform 0 .exec false, .commit 0 true, .relay 10 1,
    .perform 1 (.claim [OrderCore.assessRow 0 OrderCore.ProcessAssessment.storedOrder]) false,
    .perform 1 (.publish true) false, .perform 1 .exec false, .commit 1 true,
    .assess (.deliver 0 Llm.AssessService.answered), .assess (.proceed 0 true),
    .assess (.proceed 0 true), .assess (.settle 0)]

def recommendation : Llm.Assessment := Llm.AssessOrders.suitable

def wireListing : Llm.Listing where
  id := "7"
  title := "Math"
  description := ""

def recommendedVerdict : OrderCore.AssessmentOutcome where
  orderId := "7"
  suitabilityScore := 90
  notification :=
    { text := (Llm.buildNotification wireListing recommendation).text
      parseMode := some .html
      disableWebPagePreview := some true }
  score_nonneg := recommendation.score_nonneg
  score_le := recommendation.score_le

def notifiedRun : List Action :=
  let body := Llm.resultOf wireListing recommendation
  assessedRun ++ [.assessResults body 2, .perform 2 .exec false, .perform 2 .exec false,
    .perform 2 .exec false, .commit 2 true, .ack 2 body, .relay 10 3,
    .perform 3 (.claim [OrderCore.ProcessAssessment.notifyRow 2 recommendedVerdict]) false,
    .perform 3 (.publish true) false]

theorem Linked.order_of_verdict (hl : sys.Linked st) (hv : Verdict st.core v) :
    ∃ r ∈ st.core.tables.orders, ∃ (order : Llm.Schemas.Order) (listing : Llm.Listing)
      (assessment : Llm.Assessment), r.key = key v ∧ r.payload = order.dump ∧
      (∃ d ∈ st.llm.deliveries, sys.llm.Recommends d order listing assessment) ∧
      v.suitabilityScore = assessment.suitabilityScore ∧
      OrderCore.notificationPayload v.notification =
        (Llm.Schemas.NotificationMessage.fromCommand
          (Llm.buildNotification listing assessment)).dump := by
  obtain ⟨body, hb, hread⟩ := hl.read v hv
  obtain ⟨r, hr, order, listing, assessment, v', -, hp, hrec, hv', hk, hscore, hn⟩ :=
    hl.order_of_result hb
  obtain rfl := Validated.ok.inj (hread.symm.trans hv')
  exact ⟨r, hr, order, listing, assessment, hk.symm, hp, hrec.delivered, hscore, hn⟩

/-- A notification that is handed over recommends a stored and decided order. -/
theorem Linked.recommended_of_handed (hl : sys.Linked st) {event : OrderCore.PendingEvent}
    {confirmed : Bool} (hh : Handed st.core (event, confirmed))
    (hd : event.destination = OutboxDestination.notify.value) :
    ∃ r ∈ st.core.tables.orders, ∃ (order : Llm.Schemas.Order) (listing : Llm.Listing)
      (assessment : Llm.Assessment), event.id = notifyKey r.key ∧ r.status ≠ .assessRequested ∧
      r.payload = order.dump ∧
      (∃ d ∈ st.llm.deliveries, sys.llm.Recommends d order listing assessment) ∧
      sys.threshold ≤ assessment.suitabilityScore ∧
      event.payload = (Llm.Schemas.NotificationMessage.fromCommand
        (Llm.buildNotification listing assessment)).dump := by
  obtain ⟨e, he, rfl⟩ := hl.row_of_handed hh
  obtain ⟨v, hv, ht, hid, hpay, r', hr', hk', hst⟩ := hl.standing.founded e he hd
  obtain ⟨r, hr, order, listing, assessment, hk, hp, hrec, hscore, hn⟩ := hl.order_of_verdict hv
  obtain rfl := eq_of_key_eq hl.answering.ingest.isolated.orders_nodup hr hr' (hk.trans hk'.symm)
  exact ⟨r, hr, order, listing, assessment, by rw [hid, hk], hst, hp, hrec, hscore ▸ ht,
    hpay.trans hn⟩

theorem command_accepted (decoding : Notifications.Decoding) {command : Llm.NotificationCommand}
    (hb : Text.strip Text.jsSpace command.text ≠ "")
    (hl : Text.utf16Len command.text ≤ Notifications.maxTextLength) :
    ∃ command' notification, Notifications.parseNotificationMessage decoding
        (.json (Llm.Schemas.NotificationMessage.fromCommand command).dump) = .ok command' ∧
      Notifications.createNotification command' = .ok notification ∧
      notification.toNotificationCommand =
        { text := command.text
          parseMode := some (parseModeOf command.parseMode)
          disableWebPagePreview := some command.disableWebPagePreview } := by
  obtain ⟨notification, hparse, hcreate, heq⟩ := notification_created decoding
    (Llm.Schemas.NotificationMessage.fromCommand command) (by rintro id ⟨⟩) hb hl
  exact ⟨_, notification, hparse, hcreate, heq⟩

/--
In every run of the two services, a notification that core hands over is on a stored and
decided order: a delivery of the llm service was given an assessment of this very order
without an objection and with a score that reaches both thresholds, and has published its
result; and the notifications service creates from the payload what the llm service has
written.
-/
theorem notifications_justified (h : Reach sys.step allowed {} st)
    {event : OrderCore.PendingEvent} {confirmed : Bool}
    (hh : Handed st.core (event, confirmed))
    (hd : event.destination = OutboxDestination.notify.value)
    (decoding : Notifications.Decoding) :
    ∃ r ∈ st.core.tables.orders, ∃ (order : Llm.Schemas.Order) (listing : Llm.Listing)
      (assessment : Llm.Assessment), event.id = notifyKey r.key ∧ r.status ≠ .assessRequested ∧
      r.payload = order.dump ∧
      (∃ d ∈ st.llm.deliveries, sys.llm.Recommends d order listing assessment) ∧
      assessment.unsupportedHits = [] ∧ assessment.isRejectedType = false ∧
      max sys.llm.uc.threshold sys.threshold ≤ assessment.suitabilityScore ∧
      ∃ command notification,
        Notifications.parseNotificationMessage decoding (.json event.payload) = .ok command ∧
        Notifications.createNotification command = .ok notification ∧
        notification.toNotificationCommand =
          { text := (Llm.buildNotification listing assessment).text
            parseMode := some (parseModeOf (Llm.buildNotification listing assessment).parseMode)
            disableWebPagePreview := some
              (Llm.buildNotification listing assessment).disableWebPagePreview } := by
  obtain ⟨r, hr, order, listing, assessment, hid, hst, hp, hrec, hscore, hpay⟩ :=
    (Linked.of_reach h).recommended_of_handed hh hd
  obtain ⟨d, -, hd'⟩ := id hrec
  obtain ⟨hhits, hrejected, hthreshold⟩ := hd'.assessed
  refine ⟨r, hr, order, listing, assessment, hid, hst, hp, hrec, hhits, hrejected,
    max_le hthreshold hscore, ?_⟩
  rw [hpay]
  exact command_accepted decoding (strip_buildNotification_ne _ _)
    (Llm.buildNotification_length _ _)

theorem notifications_justified_notifiedRun : ∃ (st : deployed.State)
    (event : OrderCore.PendingEvent), Handed st.core (event, true) ∧
      event.destination = OutboxDestination.notify.value ∧
      ∃ r ∈ st.core.tables.orders, event.id = notifyKey r.key ∧ r.status ≠ .assessRequested := by
  have hdone : (run (guarded deployed.step fun _ _ => true) {} notifiedRun).any (fun st =>
      st.core.sessions.any fun s => s.handed.any fun h =>
        h.1.destination = OutboxDestination.notify.value && h.2) = true := by decide +kernel
  obtain ⟨st, hrun, hst⟩ := (Option.any_eq_true _ _).mp hdone
  obtain ⟨s, hs, hst⟩ := List.any_eq_true.mp hst
  obtain ⟨⟨event, confirmed⟩, hh, he⟩ := List.any_eq_true.mp hst
  simp only [Bool.and_eq_true, decide_eq_true_eq] at he
  obtain ⟨hd, rfl⟩ := he
  obtain ⟨r, hr, -, -, -, hid, hdecided, -⟩ := notifications_justified (Reach.of_run hrun)
    ⟨s, hs, hh⟩ hd ⟨fun _ => none, fun _ => "", fun _ _ => []⟩
  exact ⟨st, event, ⟨s, hs, hh⟩, hd, r, hr, hid, hdecided⟩

end ProfiNotifications.OrderSystem
