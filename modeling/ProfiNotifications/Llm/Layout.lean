import ProfiNotifications.Llm.Notification

/-! # What the limit leaves of a notification

The text is cut at whole characters. If header and score line fit with a separator, they
stand in the text unchanged and only the summary between them is shortened; otherwise
the summary is dropped and the end of the text is cut off.
-/

namespace ProfiNotifications.Llm

open Text

variable {listing : Listing} {assessment : Assessment} {b : ℕ} {cs ds : List Char}

theorem keep_isPrefix (b : ℕ) (cs : List Char) : keep b cs <+: cs := by
  induction cs generalizing b with
  | nil => exact List.prefix_rfl
  | cons c cs ih =>
    unfold keep
    split
    · exact List.cons_prefix_cons.mpr ⟨rfl, ih _⟩
    · exact List.nil_prefix

theorem units_keep_le (b : ℕ) (cs : List Char) : units (keep b cs) ≤ b := sum_keep_le b cs

theorem isPrefix_keep {p : List Char} (hp : p <+: cs) (hu : units p ≤ b) : p <+: keep b cs := by
  induction cs generalizing b p with
  | nil => exact hp
  | cons c cs ih =>
    cases p with
    | nil => exact List.nil_prefix
    | cons d p =>
      obtain ⟨rfl, htail⟩ := List.cons_prefix_cons.mp hp
      rw [units_cons] at hu
      rw [keep, if_pos (by omega)]
      exact List.cons_prefix_cons.mpr ⟨rfl, ih htail (by omega)⟩

theorem keep_append (cs ds : List Char) (b : ℕ) : keep b (cs ++ ds) =
    if units cs ≤ b then cs ++ keep (b - units cs) ds else keep b cs := by
  induction cs generalizing b with
  | nil => simp
  | cons c cs ih =>
    rw [List.cons_append, keep, keep, units_cons]
    by_cases hc : utf16Width c ≤ b
    · rw [if_pos hc, if_pos hc, ih]
      by_cases hcs : units cs ≤ b - utf16Width c
      · have he : b - utf16Width c - units cs = b - (utf16Width c + units cs) := by omega
        rw [if_pos hcs, if_pos (by omega), he]
        rfl
      · rw [if_neg hcs, if_neg (by omega)]
    · rw [if_neg hc, if_neg hc, if_neg (by omega)]

theorem truncate_of_lt {text : String} {limit : ℕ} (h : limit < utf16Len text) (hl : 0 < limit) :
    truncate text limit =
      rstrip pySpace (.ofList (keep (limit - 1) text.toList)) ++ ellipsis := by
  have hell : utf16Len ellipsis = 1 := by decide
  have hbudget : ((limit : ℤ) - (1 : ℕ)).toNat = limit - 1 := by omega
  rw [truncate, if_neg (by omega), if_neg (by omega), hell, hbudget]

theorem truncate_of_le {text : String} {limit : ℤ} (h : utf16Len text ≤ limit) :
    truncate text limit = text := by
  unfold truncate
  split
  · have hlen : units text.toList = 0 := by
      rw [← utf16Len_eq]
      omega
    exact (String.toList_eq_nil_iff.mp (units_eq_zero_iff.mp hlen)).symm
  · rfl

/-- What header, score line and two separators leave of the limit. -/
def room (listing : Listing) (assessment : Assessment) : ℤ :=
  maxTextLength - (utf16Len (header listing) + utf16Len (metaText listing assessment) + 4 : ℕ)

def strippedSummary (assessment : Assessment) : String := strip pySpace assessment.summary

theorem summaryText_eq (listing : Listing) (assessment : Assessment) :
    summaryText listing assessment =
      truncate (escape (strippedSummary assessment)) (room listing assessment) := by
  have hsep : utf16Len separator * 2 = 4 := by decide
  simp only [summaryText, hsep, room, strippedSummary]

theorem summaryText_of_nonpos (h : room listing assessment ≤ 0) :
    summaryText listing assessment = "" := by
  rw [summaryText_eq, truncate, if_pos h]

theorem summaryText_of_le
    (h : utf16Len (escape (strippedSummary assessment)) ≤ room listing assessment) :
    summaryText listing assessment = escape (strippedSummary assessment) := by
  rw [summaryText_eq]
  exact truncate_of_le h

theorem summaryText_of_lt (hr : 0 < room listing assessment)
    (h : room listing assessment < utf16Len (escape (strippedSummary assessment))) :
    summaryText listing assessment =
      rstrip pySpace (.ofList (keep (room listing assessment - 1).toNat
        (escape (strippedSummary assessment)).toList)) ++ ellipsis := by
  obtain ⟨n, hn⟩ := Int.eq_ofNat_of_zero_le (Int.le_of_lt hr)
  have hpred : ((n : ℤ) - 1).toNat = n - 1 := by omega
  rw [summaryText_eq, hn, hpred]
  exact truncate_of_lt (by omega) (by omega)

theorem summaryText_ne_empty_of_lt (hr : 0 < room listing assessment)
    (h : room listing assessment < utf16Len (escape (strippedSummary assessment))) :
    summaryText listing assessment ≠ "" := by
  rw [summaryText_of_lt hr h, Ne, ← String.toList_eq_nil_iff, String.toList_append]
  exact List.append_ne_nil_of_right_ne_nil _ (by decide)

theorem escape_eq_empty_iff {text : String} : escape text = "" ↔ text = "" := by
  have hne : ∀ c, escapeChar c ≠ [] := by
    intro c
    unfold escapeChar
    split <;> simp
  rw [← String.toList_inj, ← String.toList_inj, escape, String.toList_ofList]
  constructor
  · intro h
    exact List.eq_nil_iff_forall_not_mem.mpr fun c hc =>
      hne c (List.flatMap_eq_nil_iff.mp h c hc)
  · intro h
    rw [h]
    rfl

def middleText (listing : Listing) (assessment : Assessment) : String :=
  if summaryText listing assessment = "" then separator
  else separator ++ summaryText listing assessment ++ separator

theorem intercalate_parts (listing : Listing) (assessment : Assessment) :
    separator.intercalate (parts listing assessment) =
      header listing ++ middleText listing assessment ++ metaText listing assessment := by
  unfold parts middleText
  split <;> simp [String.intercalate_cons_cons, String.append_assoc]

/-- Header and score line fit with a separator. -/
def Fits (listing : Listing) (assessment : Assessment) : Prop :=
  utf16Len (header listing) + utf16Len (metaText listing assessment) + 2 ≤ maxTextLength

theorem utf16Len_middleText_le (h : Fits listing assessment) :
    utf16Len (header listing ++ middleText listing assessment ++ metaText listing assessment) ≤
      maxTextLength := by
  have hsep : utf16Len separator = 2 := by decide
  unfold Fits at h
  rw [utf16Len_append, utf16Len_append, middleText]
  split
  · omega
  · rename_i hne
    have hroom : 0 < room listing assessment := by
      by_contra hle
      exact hne (summaryText_of_nonpos (Int.not_lt.mp hle))
    have hlen := utf16Len_truncate_le (escape (strippedSummary assessment)) (Int.le_of_lt hroom)
    rw [← summaryText_eq, room] at hlen
    rw [utf16Len_append, utf16Len_append, hsep]
    omega

/-- A text whose header and score line fit is not cut at its end. -/
theorem text_of_fits (h : Fits listing assessment) :
    (buildNotification listing assessment).text =
      header listing ++ middleText listing assessment ++ metaText listing assessment := by
  have hlen := utf16Len_middleText_le h
  rw [buildNotification_text, intercalate_parts, truncate, if_neg (by simp [maxTextLength]),
    if_pos (by exact_mod_cast hlen)]

/-- How a summary stands between header and score line when it has this much room. Of one that
is too long, the longest beginning is kept that fits beside the ellipsis. -/
inductive Middle (summary : String) (room : ℤ) : String → Prop
  | dropped (h : summary = "" ∨ room ≤ 0) : Middle summary room separator
  | whole (hs : summary ≠ "") (h : utf16Len (escape summary) ≤ room) :
      Middle summary room (separator ++ escape summary ++ separator)
  | cut {kept : List Char} (hr : 0 < room) (h : room < utf16Len (escape summary))
      (hk : kept <+: (escape summary).toList) (hu : units kept + 1 ≤ room)
      (hmax : ∀ p, p <+: (escape summary).toList → units p + 1 ≤ room → p <+: kept) :
      Middle summary room
        (separator ++ (rstrip pySpace (.ofList kept) ++ ellipsis) ++ separator)

theorem middleText_middle (listing : Listing) (assessment : Assessment) :
    Middle (strippedSummary assessment) (room listing assessment)
      (middleText listing assessment) := by
  by_cases hs : strippedSummary assessment = ""
  · have hempty : summaryText listing assessment = "" := by
      rw [summaryText_eq, hs, truncate]
      split
      · rfl
      · exact if_pos (by simp [escape, utf16Len]; omega)
    rw [middleText, if_pos hempty]
    exact .dropped (Or.inl hs)
  by_cases hr : room listing assessment ≤ 0
  · rw [middleText, if_pos (summaryText_of_nonpos hr)]
    exact .dropped (Or.inr hr)
  by_cases hlen : utf16Len (escape (strippedSummary assessment)) ≤ room listing assessment
  · rw [middleText, summaryText_of_le hlen, if_neg (mt escape_eq_empty_iff.mp hs)]
    exact .whole hs hlen
  · have hr := Int.not_le.mp hr
    have hlen := Int.not_le.mp hlen
    have hk := units_keep_le (room listing assessment - 1).toNat
      (escape (strippedSummary assessment)).toList
    rw [middleText, if_neg (summaryText_ne_empty_of_lt hr hlen), summaryText_of_lt hr hlen]
    exact .cut hr hlen (keep_isPrefix _ _) (by omega) fun p hp hu => isPrefix_keep hp (by omega)

/--
The text is within the limit. When header and score line fit with a separator, they
stand in it unchanged, and nothing but the summary between them is shortened.
-/
theorem buildNotification_layout (listing : Listing) (assessment : Assessment) :
    utf16Len (buildNotification listing assessment).text ≤ maxTextLength ∧
      (Fits listing assessment → ∃ middle,
        (buildNotification listing assessment).text =
          header listing ++ middle ++ metaText listing assessment ∧
        Middle (strippedSummary assessment) (room listing assessment) middle) :=
  ⟨buildNotification_length listing assessment, fun h =>
    ⟨middleText listing assessment, text_of_fits h, middleText_middle listing assessment⟩⟩

def listingWith (id : String) : Listing := { id, title := "t", description := "" }

def assessmentWith (summary : String) : Assessment where
  summary
  suitabilityScore := 80
  score_nonneg := Int.natCast_nonneg 80
  score_le := Int.ofNat_le.mpr (by decide)

theorem room_listingWith (summary : String) :
    room (listingWith "1") (assessmentWith summary) = 4006 := by
  have hmeta : metaText (listingWith "1") (assessmentWith summary) =
      metaText (listingWith "1") (assessmentWith "") := by
    delta metaText metaLines
    rfl
  have hroom : room (listingWith "1") (assessmentWith "") = 4006 := by decide
  delta room at hroom ⊢
  rw [hmeta, hroom]

theorem fits_listingWith (summary : String) :
    Fits (listingWith "1") (assessmentWith summary) := by
  have hroom := room_listingWith summary
  have hmax : maxTextLength = 4096 := rfl
  rw [room] at hroom
  unfold Fits
  omega

def lessThans (n : ℕ) : String := .ofList (List.replicate n '<')

theorem toList_lessThans (n : ℕ) : (lessThans n).toList = List.replicate n '<' :=
  String.toList_ofList

theorem strippedSummary_lessThans (n : ℕ) :
    strippedSummary (assessmentWith (lessThans n)) = lessThans n := by
  apply strip_eq_self
  intro c hc
  rw [assessmentWith, toList_lessThans] at hc
  rw [(List.mem_replicate.mp hc).2]
  rfl

theorem units_lessThans (n : ℕ) : units ((List.replicate n '<').flatMap escapeChar) = 4 * n := by
  have hone : units (escapeChar '<') = 4 := by decide
  induction n with
  | zero => rfl
  | succ n ih =>
    rw [List.replicate_succ, List.flatMap_cons, units_append, ih, hone]
    omega

theorem utf16Len_lessThans (n : ℕ) : utf16Len (escape (lessThans n)) = 4 * n := by
  rw [utf16Len_eq, escape, String.toList_ofList, toList_lessThans, units_lessThans]

theorem buildNotification_layout_lessThans : ∃ kept : List Char,
    (buildNotification (listingWith "1") (assessmentWith (lessThans 2000))).text =
      header (listingWith "1") ++
        (separator ++ (rstrip pySpace (.ofList kept) ++ ellipsis) ++ separator) ++
        metaText (listingWith "1") (assessmentWith (lessThans 2000)) ∧
    kept <+: (escape (lessThans 2000)).toList := by
  obtain ⟨middle, htext, hmiddle⟩ := (buildNotification_layout (listingWith "1")
    (assessmentWith (lessThans 2000))).2 (fits_listingWith (lessThans 2000))
  have hlen := utf16Len_lessThans 2000
  rw [strippedSummary_lessThans, room_listingWith] at hmiddle
  cases hmiddle with
  | dropped h =>
    have hne : lessThans 2000 ≠ "" := by
      intro hempty
      rw [hempty] at hlen
      exact absurd hlen (by decide)
    exact absurd (h.resolve_left hne) (by decide)
  | whole hs h => omega
  | cut hr h hk hu hmax => exact ⟨_, htext, hk⟩

end ProfiNotifications.Llm
