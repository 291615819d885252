import Mathlib.Data.Rat.Defs
import ProfiNotifications.Foundations.Text

/-! # Domain of the notifications service

A command is what a message asks for, a notification is a command that can be
delivered: its text is not blank and within the limit, its topic is a positive integer.
-/

namespace ProfiNotifications.Notifications

open Text

inductive ParseMode where
  | html
  | markdownV2
  | markdown
  deriving DecidableEq, Repr

def maxTextLength : ℕ := 4096

/-- A request to send a notification. Numbers are not validated yet. -/
structure NotificationCommand where
  text : String
  parseMode : Option ParseMode := none
  disableNotification : Option Bool := none
  disableWebPagePreview : Option Bool := none
  messageThreadId : Option ℚ := none
  deriving DecidableEq, Repr

/-- `Number.isInteger(x) && x > 0`. -/
def IsPositiveInteger (x : ℚ) : Prop := x.den = 1 ∧ 0 < x

instance (x : ℚ) : Decidable (IsPositiveInteger x) := inferInstanceAs (Decidable (_ ∧ _))

/-- A command that satisfies the invariants of the domain. -/
structure Notification extends NotificationCommand where
  text_not_blank : strip jsSpace text ≠ ""
  text_length : utf16Len text ≤ maxTextLength
  messageThreadId_pos : ∀ x ∈ messageThreadId, IsPositiveInteger x
  deriving DecidableEq

/-- The message of a `NotificationValidationError`, or the notification. -/
def createNotification (command : NotificationCommand) : Except String Notification :=
  if hb : strip jsSpace command.text = "" then .error "text must be a non-empty string"
  else if hl : utf16Len command.text > maxTextLength then
    .error ("text length " ++ toString (utf16Len command.text) ++ " exceeds the maximum of " ++
      toString maxTextLength)
  else if ht : ∀ x ∈ command.messageThreadId, IsPositiveInteger x then
    .ok ⟨command, hb, Nat.le_of_not_gt hl, ht⟩
  else .error "messageThreadId must be a positive integer"

theorem createNotification_eq_ok {command : NotificationCommand} {n : Notification} :
    createNotification command = .ok n ↔ n.toNotificationCommand = command := by
  unfold createNotification
  constructor
  · intro h
    split at h
    · cases h
    · split at h
      · cases h
      · split at h
        · cases h; rfl
        · cases h
  · rintro rfl
    rw [dif_neg n.text_not_blank, dif_neg (Nat.not_lt.mpr n.text_length),
      dif_pos n.messageThreadId_pos]

/-- A command is accepted exactly if it satisfies the invariants of a notification. -/
theorem createNotification_isOk_iff {command : NotificationCommand} :
    (∃ n, createNotification command = .ok n) ↔ strip jsSpace command.text ≠ "" ∧
      utf16Len command.text ≤ maxTextLength ∧
      ∀ x ∈ command.messageThreadId, IsPositiveInteger x := by
  simp only [createNotification_eq_ok]
  constructor
  · rintro ⟨n, rfl⟩
    exact ⟨n.text_not_blank, n.text_length, n.messageThreadId_pos⟩
  · rintro ⟨hb, hl, ht⟩
    exact ⟨⟨command, hb, hl, ht⟩, rfl⟩

end ProfiNotifications.Notifications
