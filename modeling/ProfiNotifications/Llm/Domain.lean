import ProfiNotifications.Foundations.Text
import ProfiNotifications.OrderCore.Domain

/-! # Domain of the llm service

A listing is what an order shows to the assessor, an assessment is the assessor's
verdict with a score within 0..100. A budget keeps the text that is shown; its amount is
read as an integer, which nothing uses but which can fail.
-/

namespace ProfiNotifications.Llm

open Text

/-- An exception by its class: one of the application, or any other. -/
inductive Raised where
  | transientError
  | permanentError
  | assessmentError
  | other (name : String)
  deriving DecidableEq, Repr

structure Budget where
  raw : String
  deriving DecidableEq, Repr

namespace Budget

/-- The digits of the first match of `\d[\d\s]*`. -/
def amountDigits (value : String) : List Char :=
  ((value.toList.dropWhile fun c => !pyDigit c).takeWhile fun c => pyDigit c || pySpace c).filter
    pyDigit

/-- `int` takes no longer string of digits. -/
def maxStrDigits : ℕ := 4300

/-- The parts of a price that are there, in one line; nothing if that is blank. -/
def fromPrice (prefix_ value suffix : String) : Except Raised (Option Budget) :=
  let raw := strip pySpace (" ".intercalate ([prefix_, value, suffix].filter (· ≠ "")))
  if raw = "" then .ok none
  else if maxStrDigits < (amountDigits value).length then .error (.other "ValueError")
  else .ok (some ⟨raw⟩)

/-- A price is converted unless its amount has too many digits. -/
theorem fromPrice_ok_iff {prefix_ value suffix : String} :
    (∃ budget, fromPrice prefix_ value suffix = .ok budget) ↔
      (amountDigits value).length ≤ maxStrDigits := by
  simp only [fromPrice]
  split
  · rename_i hblank
    have hdigits : amountDigits value = [] := by
      rw [amountDigits, List.filter_eq_nil_iff]
      intro c hc hdigit
      have hmem : c ∈ value.toList :=
        (List.dropWhile_sublist _).subset ((List.takeWhile_sublist _).subset hc)
      have hpart : value ∈ [prefix_, value, suffix].filter (· ≠ "") := by
        have hne : value ≠ "" := by
          rintro rfl
          cases hmem
        simp [hne]
      have hspace := strip_eq_empty_iff.mp hblank c (mem_intercalate hpart hmem)
      rw [pySpace_of_pyDigit hdigit] at hspace
      cases hspace
    simp [hdigits]
  · split
    · simp only [reduceCtorEq, exists_false, false_iff]
      omega
    · simp only [Except.ok.injEq, exists_eq', true_iff]
      omega

end Budget

structure Listing where
  id : String
  title : String
  description : String
  budget : Option Budget := none
  isRemote : Bool := false
  location : Option String := none
  clientTags : List String := []
  deriving DecidableEq, Repr

def Listing.url (listing : Listing) : String :=
  "https://profi.ru/backoffice/n.php?o=" ++ listing.id

structure Assessment where
  summary : String
  suitabilityScore : ℤ
  unsupportedHits : List String := []
  isRejectedType : Bool := false
  score_nonneg : 0 ≤ suitabilityScore
  score_le : suitabilityScore ≤ 100
  deriving Repr

/-- The parse modes are those of order-core-service. -/
abbrev ParseMode := OrderCore.ParseMode

structure NotificationCommand where
  text : String
  parseMode : ParseMode := .html
  disableWebPagePreview : Bool := true
  deriving DecidableEq, Repr

structure AssessmentResult where
  orderId : String
  suitabilityScore : ℤ
  notification : NotificationCommand
  deriving DecidableEq, Repr

end ProfiNotifications.Llm
