import ProfiNotifications.OrderCore.Columns

/-! # Content that is not redelivered for ever

A message whose content is at fault comes back on every delivery unless it is
dead-lettered. So the content must be classified, and what is accepted must not make a
statement of its use case fail: a verdict whose order id or notification has a NUL does, as
does a batch beyond the limits of the columns.
-/

namespace ProfiNotifications.OrderCore

open Schemas

variable (lax : Lax) (threshold : ℤ) (text : List (List String) → String)
  (raw : List (String × Json))

/-- An accepted verdict has a score of the domain and texts that the database takes. -/
structure VerdictWithinLimits (message : AssessmentResultMessage) : Prop where
  score_nonneg : 0 ≤ message.suitabilityScore
  score_le : message.suitabilityScore ≤ 100
  orderId_nulFree : NulFree message.orderId
  text_nulFree : message.orderId.length ≤ 128 → threshold ≤ message.suitabilityScore →
    NulFree message.notification.text

namespace Subscriber

def WithinLimits : Subscriber → Prop
  | .parseResults _ => ∀ message, ParseResultMessage.validate lax (.obj raw) = .ok message →
      ∀ order ∈ message.orders, OrderCore.WithinLimits message order
  | .assessResults _ => ∀ message,
      AssessmentResultMessage.validate lax (.obj raw) = .ok message →
        VerdictWithinLimits threshold message

end Subscriber

variable {lax threshold text raw}

theorem jsonb_notificationPayload (n : NotificationCommand) :
    Jsonb (notificationPayload n) ↔ NulFree n.text := by
  have hmode : ∀ mode : ParseMode, NulFree mode.value := by
    intro mode
    cases mode <;> decide
  simp only [notificationPayload, NotificationMessage.dump, NotificationMessage.members,
    Json.allAtoms_present]
  simp +decide [Json.allAtoms_obj, hmode]

/-- The transaction for a verdict reads by its id, and stores the notification if it is due. -/
theorem ProcessAssessment.rowsFit_handle {outcome : AssessmentOutcome} :
    (handle threshold outcome).RowsFit ↔ NulFree outcome.orderId ∧
      (outcome.orderId.length ≤ 128 → threshold ≤ outcome.suitabilityScore →
        NulFree outcome.notification.text) := by
  have hscore : Integer outcome.suitabilityScore := by
    have := outcome.score_nonneg
    have := outcome.score_le
    constructor <;> omega
  have happly : NulFree outcome.orderId → outcome.orderId.length ≤ 128 →
      ((apply threshold outcome).RowsFit ↔
        (threshold ≤ outcome.suitabilityScore → NulFree outcome.notification.text)) := by
    intro hid hlength
    have hkey : Varchar 200 (notifyKey (.profi, outcome.orderId)) :=
      varchar_key (by decide : "notify:profi:".length ≤ 72 ∧ NulFree "notify:profi:")
        ⟨hlength, hid⟩
    unfold apply
    split
    · rename_i hnotify
      have hreached := decideNotification_notify.mp hnotify
      simp only [Prog.RowsFit, addNotification, hid, varchar_status, Option.mem_some_iff,
        forall_eq', hscore, true_and, and_true, forall_const, hreached]
      constructor
      · rintro h
        exact (jsonb_notificationPayload _).mp (h 0).payload
      · rintro h now
        exact ⟨varchar_destination .notify, hkey, (jsonb_notificationPayload _).mpr h⟩
    · rename_i hnotify
      have hbelow : ¬ threshold ≤ outcome.suitabilityScore :=
        fun h => hnotify (decideNotification_notify.mpr h)
      simp [Prog.RowsFit, hid, varchar_status, hscore, hbelow]
  constructor
  · rintro ⟨hid, -, hfound⟩
    refine ⟨hid, fun hlength => (happly hid hlength).mp ?_⟩
    exact hfound hlength ⟨.profi, outcome.orderId, .assessRequested, none⟩
  · rintro ⟨hid, htext⟩
    refine ⟨hid, trivial, fun hlength order => ?_⟩
    show (if canApplyAssessment order.status then _ else _ : Prog).RowsFit
    split
    · exact (happly hid hlength).mpr (htext hlength)
    · trivial

namespace Subscriber

end Subscriber

end ProfiNotifications.OrderCore
