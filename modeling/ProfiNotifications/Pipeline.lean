import ProfiNotifications.Llm.Schemas
import ProfiNotifications.Notifications.MessageSchema
import ProfiNotifications.OrderCore.Mapping

/-! # From a verdict to a notification

The llm service dumps a result, core reads it as a verdict and dumps its notification
again, and the notifications service creates what it sends from that. Every result is
accepted all the way, and its notification arrives unchanged.
-/

namespace ProfiNotifications

open Text

/-- Core reads the dump of a result with the same values. -/
theorem validate_resultDump {lax : Lax} (m : Llm.Schemas.AssessmentResultMessage) :
    OrderCore.Schemas.AssessmentResultMessage.validate lax m.dump =
      .ok ⟨m.orderId, m.suitabilityScore, m.notification⟩ := by
  have hn : OrderCore.Schemas.NotificationMessage.validate lax m.notification.dump =
      .ok m.notification := OrderCore.Schemas.NotificationMessage.validate_dump m.notification
  simp [OrderCore.Schemas.AssessmentResultMessage.validate,
    Llm.Schemas.AssessmentResultMessage.dump, Lax.required, hn]

def parseModeOf : OrderCore.ParseMode → Notifications.ParseMode
  | .html => .html
  | .markdownV2 => .markdownV2
  | .markdown => .markdown

def commandOf (n : OrderCore.Schemas.NotificationMessage) : Notifications.NotificationCommand where
  text := n.text
  parseMode := n.parseMode.map parseModeOf
  disableNotification := n.disableNotification
  disableWebPagePreview := n.disableWebPagePreview
  messageThreadId := n.messageThreadId.map Int.cast

theorem validate_parseModeOf (m : OrderCore.ParseMode) :
    Notifications.ParseMode.validate (.str m.value) = .ok (parseModeOf m) := by
  cases m <;> rfl

theorem isPositiveInteger_intCast {id : ℤ} (h : 0 < id) :
    Notifications.IsPositiveInteger (id : ℚ) := ⟨Rat.den_intCast id, by exact_mod_cast h⟩

theorem positiveInt_int {id : ℤ} (h₀ : 0 < id) (h₁ : (id : ℚ) ≤ Notifications.maxSafeInteger) :
    Notifications.positiveInt (.int id) = .ok (id : ℚ) := by
  rw [Notifications.positiveInt, Notifications.positiveInt.check,
    if_pos ⟨isPositiveInteger_intCast h₀, h₁⟩]

theorem notificationMessageSchema_dump (n : OrderCore.Schemas.NotificationMessage)
    (h : ∀ id ∈ n.messageThreadId, 0 < id ∧ (id : ℚ) ≤ Notifications.maxSafeInteger) :
    Notifications.notificationMessageSchema n.dump = .ok (commandOf n) := by
  have htext := Lax.required_of_get n.get_text (Lax.str_str n.text)
  have hmode := Notifications.optional_of_get n.get_parseMode fun m _ => validate_parseModeOf m
  have hbool : ∀ b, Notifications.boolean (.bool b) = .ok (id b) := fun _ => rfl
  have hsilent := Notifications.optional_of_get n.get_disableNotification fun b _ => hbool b
  have hpreview := Notifications.optional_of_get n.get_disableWebPagePreview fun b _ => hbool b
  have hthread := Notifications.optional_of_get n.get_messageThreadId
    fun id hid => positiveInt_int (h id hid).1 (h id hid).2
  simp only [Notifications.notificationMessageSchema, OrderCore.Schemas.NotificationMessage.dump,
    Lax.model_obj, htext, hmode, hsilent, hpreview, hthread, Validated.map_ok, Validated.seq_ok,
    Option.map_id_fun, id_eq]
  rfl

theorem notification_created (decoding : Notifications.Decoding)
    (n : OrderCore.Schemas.NotificationMessage)
    (ht : ∀ id ∈ n.messageThreadId, 0 < id ∧ (id : ℚ) ≤ Notifications.maxSafeInteger)
    (hb : strip jsSpace n.text ≠ "") (hl : utf16Len n.text ≤ Notifications.maxTextLength) :
    ∃ notification,
      Notifications.parseNotificationMessage decoding (.json n.dump) = .ok (commandOf n) ∧
      Notifications.createNotification (commandOf n) = .ok notification ∧
      notification.toNotificationCommand = commandOf n := by
  have hpos : ∀ x ∈ (commandOf n).messageThreadId, Notifications.IsPositiveInteger x := by
    intro x hx
    obtain ⟨id, hid, rfl⟩ := Option.map_eq_some_iff.mp hx
    exact isPositiveInteger_intCast (ht id hid).1
  have hcreate : ∃ notification,
      Notifications.createNotification (commandOf n) = .ok notification :=
    Notifications.createNotification_isOk_iff.mpr ⟨hb, hl, hpos⟩
  obtain ⟨notification, h⟩ := hcreate
  exact ⟨notification,
    Notifications.parseNotificationMessage_ok (notificationMessageSchema_dump n ht), h,
    Notifications.createNotification_eq_ok.mp h⟩

theorem strip_buildNotification_ne (listing : Llm.Listing) (assessment : Llm.Assessment) :
    strip jsSpace (Llm.buildNotification listing assessment).text ≠ "" := by
  intro h
  obtain ⟨c, hc, hc'⟩ := Llm.buildNotification_not_blank listing assessment
  have hs := strip_eq_empty_iff.mp h c hc
  rcases hc' with rfl | rfl
  · exact absurd hs (by decide)
  · exact absurd hs (by decide)

/-- A result within the bounds of both domains is accepted all the way. -/
theorem result_accepted (lax : Lax) (decoding : Notifications.Decoding)
    (result : Llm.AssessmentResult) (h₀ : 0 ≤ result.suitabilityScore)
    (h₁ : result.suitabilityScore ≤ 100) (hb : strip jsSpace result.notification.text ≠ "")
    (hl : utf16Len result.notification.text ≤ Notifications.maxTextLength) :
    ∃ message outcome command notification,
      OrderCore.Schemas.AssessmentResultMessage.validate lax
        (Llm.Schemas.AssessmentResultMessage.fromResult result).dump = .ok message ∧
      OrderCore.toAssessmentOutcome message = .ok outcome ∧
      Notifications.parseNotificationMessage decoding
        (.json (OrderCore.notificationPayload outcome.notification)) = .ok command ∧
      Notifications.createNotification command = .ok notification ∧
      notification.toNotificationCommand =
        { text := result.notification.text
          parseMode := some (parseModeOf result.notification.parseMode)
          disableWebPagePreview := some result.notification.disableWebPagePreview } := by
  obtain ⟨orderId, score, cmd⟩ := result
  obtain ⟨outcome, hout, -, -, hpay⟩ := OrderCore.toAssessmentOutcome_ok
    ⟨orderId, score, Llm.Schemas.NotificationMessage.fromCommand cmd⟩ h₀ h₁
  obtain ⟨notification, hparse, hcreate, heq⟩ := notification_created decoding
    (Llm.Schemas.NotificationMessage.fromCommand cmd) (by rintro id ⟨⟩) hb hl
  refine ⟨_, outcome, _, notification, validate_resultDump _, hout, ?_, hcreate, heq⟩
  rw [hpay]
  exact hparse

/--
The dump of every result is accepted by core and mapped to a verdict, the payload of its
notification is accepted by the notifications service, and what is created has the text,
the parse mode and the preview flag of the llm service and no other field.
-/
theorem notification_accepted_unchanged (lax : Lax) (decoding : Notifications.Decoding)
    (listing : Llm.Listing) (assessment : Llm.Assessment) :
    ∃ message outcome command notification,
      OrderCore.Schemas.AssessmentResultMessage.validate lax
        (Llm.Schemas.AssessmentResultMessage.fromResult
          (Llm.buildResult listing assessment)).dump = .ok message ∧
      OrderCore.toAssessmentOutcome message = .ok outcome ∧
      Notifications.parseNotificationMessage decoding
        (.json (OrderCore.notificationPayload outcome.notification)) = .ok command ∧
      Notifications.createNotification command = .ok notification ∧
      notification.toNotificationCommand =
        { text := (Llm.buildNotification listing assessment).text
          parseMode := some (parseModeOf (Llm.buildNotification listing assessment).parseMode)
          disableWebPagePreview :=
            some (Llm.buildNotification listing assessment).disableWebPagePreview } :=
  result_accepted lax decoding (Llm.buildResult listing assessment) assessment.score_nonneg
    assessment.score_le (strip_buildNotification_ne listing assessment)
    (Llm.buildNotification_length listing assessment)

end ProfiNotifications
