import ProfiNotifications.Llm.Domain

/-! # The text of a notification

Header, summary and score line are joined by blank lines. The summary is cut to what
the other parts leave of the limit, and the whole text is cut to the limit once more;
lengths are counted in UTF-16 code units.
-/

namespace ProfiNotifications.Llm

open Text

def maxTextLength : ℕ := 4096

def ellipsis : String := "…"

def separator : String := "\n\n"

/-- The characters that fit into a budget of code units, up to the first that does not. -/
def keep : ℕ → List Char → List Char
  | _, [] => []
  | budget, c :: cs =>
    if utf16Width c ≤ budget then c :: keep (budget - utf16Width c) cs else []

/-- `_truncate`, with a limit that may be negative. -/
def truncate (text : String) (limit : ℤ) : String :=
  if limit ≤ 0 then ""
  else if utf16Len text ≤ limit then text
  else rstrip pySpace (.ofList (keep (limit - utf16Len ellipsis).toNat text.toList)) ++ ellipsis

/-- `html.escape` without quotes, character by character. -/
def escapeChar : Char → List Char
  | '&' => "&amp;".toList
  | '<' => "&lt;".toList
  | '>' => "&gt;".toList
  | c => [c]

def escape (text : String) : String := .ofList (text.toList.flatMap escapeChar)

def titleOf (listing : Listing) : String :=
  let title := strip pySpace listing.title
  if title = "" then "Без названия" else title

def header (listing : Listing) : String :=
  "🧩 <b><a href=\"" ++ listing.url ++ "\">" ++ escape (titleOf listing) ++ "</a></b>"

def metaLines (listing : Listing) (assessment : Assessment) : List String :=
  (listing.budget.toList.map fun budget => "💰 " ++ escape budget.raw) ++
    ["🎯 Соответствие: " ++ toString assessment.suitabilityScore ++ "/100"]

def metaText (listing : Listing) (assessment : Assessment) : String :=
  "\n".intercalate (metaLines listing assessment)

/-- The escaped summary, cut to what header, score line and separators leave of the limit. -/
def summaryText (listing : Listing) (assessment : Assessment) : String :=
  let overhead := utf16Len (header listing) + utf16Len (metaText listing assessment) +
    utf16Len separator * 2
  truncate (escape (strip pySpace assessment.summary)) (maxTextLength - overhead)

def parts (listing : Listing) (assessment : Assessment) : List String :=
  if summaryText listing assessment = "" then [header listing, metaText listing assessment]
  else [header listing, summaryText listing assessment, metaText listing assessment]

def buildNotification (listing : Listing) (assessment : Assessment) : NotificationCommand where
  text := truncate (separator.intercalate (parts listing assessment)) maxTextLength

def buildResult (listing : Listing) (assessment : Assessment) : AssessmentResult where
  orderId := listing.id
  suitabilityScore := assessment.suitabilityScore
  notification := buildNotification listing assessment

theorem sum_keep_le (budget : ℕ) (cs : List Char) :
    ((keep budget cs).map utf16Width).sum ≤ budget := by
  induction cs generalizing budget with
  | nil => simp [keep]
  | cons c cs ih =>
    unfold keep
    split
    · have := ih (budget - utf16Width c)
      rw [List.map_cons, List.sum_cons]
      omega
    · simp

theorem utf16Len_truncate_le (text : String) {limit : ℤ} (h : 0 ≤ limit) :
    (utf16Len (truncate text limit) : ℤ) ≤ limit := by
  unfold truncate
  split
  · simpa using h
  · split
    · assumption
    · have hell : utf16Len ellipsis = 1 := by decide
      rw [utf16Len_append, hell]
      let kept := String.ofList (keep (limit - (1 : ℕ)).toNat text.toList)
      have hkeep : utf16Len kept ≤ (limit - (1 : ℕ)).toNat := by
        rw [utf16Len, String.toList_ofList]
        exact sum_keep_le _ _
      have hstrip : utf16Len (rstrip pySpace kept) ≤ utf16Len kept := utf16Len_rstrip_le kept
      change ((utf16Len (rstrip pySpace kept) + 1 : ℕ) : ℤ) ≤ limit
      omega

theorem truncate_shows (text : String) {limit : ℤ} (h : 0 < limit) :
    truncate text limit = text ∨ '…' ∈ (truncate text limit).toList := by
  unfold truncate
  rw [if_neg (by omega)]
  split
  · exact Or.inl rfl
  · right
    rw [String.toList_append, List.mem_append]
    exact Or.inr (by decide)

theorem maxTextLength_pos : (0 : ℤ) < maxTextLength := by simp [maxTextLength]

theorem buildNotification_text (listing : Listing) (assessment : Assessment) :
    (buildNotification listing assessment).text =
      truncate (separator.intercalate (parts listing assessment)) maxTextLength := by
  simp only [buildNotification]

theorem utf16Len_truncate_nat (text : String) (n : ℕ) : utf16Len (truncate text n) ≤ n :=
  Int.ofNat_le.mp (utf16Len_truncate_le text (Int.natCast_nonneg n))

theorem buildNotification_length (listing : Listing) (assessment : Assessment) :
    utf16Len (buildNotification listing assessment).text ≤ maxTextLength := by
  rw [buildNotification_text]
  exact utf16Len_truncate_nat _ _

theorem mem_header (listing : Listing) : '🧩' ∈ (header listing).toList := by
  have hicon : '🧩' ∈ "🧩 <b><a href=\"".toList := by decide
  exact mem_append_left _ (mem_append_left _ (mem_append_left _ (mem_append_left _ hicon)))

theorem mem_intercalate_parts (listing : Listing) (assessment : Assessment) :
    '🧩' ∈ (separator.intercalate (parts listing assessment)).toList := by
  unfold parts
  split <;> rw [String.intercalate_cons_cons] <;>
    exact mem_append_left _ (mem_append_left _ (mem_header listing))

theorem buildNotification_not_blank (listing : Listing) (assessment : Assessment) :
    ∃ c ∈ (buildNotification listing assessment).text.toList, c = '🧩' ∨ c = '…' := by
  rw [buildNotification_text]
  rcases truncate_shows (separator.intercalate (parts listing assessment)) maxTextLength_pos
    with h | h
  · rw [h]
    exact ⟨'🧩', mem_intercalate_parts listing assessment, Or.inl rfl⟩
  · exact ⟨'…', h, Or.inr rfl⟩

end ProfiNotifications.Llm
