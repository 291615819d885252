import ProfiNotifications.Llm.Markup

/-! # Where a cut falls

Both cuts are made in escaped text. A cut within the reference of a character leaves a
reference that never ends, and a cut within the header leaves elements open; every other
cut leaves a text whose markup is that of the header.
-/

namespace ProfiNotifications.Llm

open Text Html Transition

variable {listing : Listing} {assessment : Assessment} {b : ℕ} {cs before after tail : List Char}

/-- After this many code units of the escaped text, the reference of a character is not over. -/
def Straddles (b : ℕ) (cs : List Char) : Prop :=
  ∃ p c q, cs = p ++ c :: q ∧ special c = true ∧ units (p.flatMap escapeChar) < b ∧
    b < units (p.flatMap escapeChar) + units (escapeChar c)

theorem not_straddles_zero : ¬ Straddles 0 cs := by
  rintro ⟨p, c, q, -, -, h, -⟩
  exact Nat.not_lt_zero _ h

theorem Straddles.lt (h : Straddles b cs) : b < units (cs.flatMap escapeChar) := by
  obtain ⟨p, c, q, rfl, -, -, h⟩ := h
  rw [List.flatMap_append, List.flatMap_cons, units_append, units_append]
  omega

theorem Straddles.cons {c : Char} (h : Straddles b cs) :
    Straddles (units (escapeChar c) + b) (c :: cs) := by
  obtain ⟨p, d, q, rfl, hd, hlt, hgt⟩ := h
  refine ⟨c :: p, d, q, rfl, hd, ?_, ?_⟩ <;> rw [List.flatMap_cons, units_append] <;> omega

@[simp] theorem keep_zero (cs : List Char) : keep 0 cs = [] := by
  rw [← units_eq_zero_iff]
  exact Nat.le_zero.mp (units_keep_le 0 cs)

theorem keep_of_not_straddles (h : ¬ Straddles b cs) :
    ∃ p : List Char, keep b (cs.flatMap escapeChar) = p.flatMap escapeChar := by
  induction cs generalizing b with
  | nil => exact ⟨[], rfl⟩
  | cons c cs ih =>
    rw [List.flatMap_cons, keep_append]
    by_cases hc : units (escapeChar c) ≤ b
    · obtain ⟨p, hp⟩ := ih (b := b - units (escapeChar c)) fun hs =>
        h (by simpa [Nat.add_sub_cancel' hc] using hs.cons (c := c))
      refine ⟨c :: p, ?_⟩
      rw [if_pos hc, hp, List.flatMap_cons]
    · rw [if_neg hc]
      refine ⟨[], ?_⟩
      cases hs : special c with
      | false =>
        rw [escapeChar_of_not_special hs] at hc ⊢
        simp only [units_cons, units_nil, Nat.add_zero] at hc
        rw [keep, if_neg hc]
        rfl
      | true =>
        have hb : b = 0 := by
          by_contra hb
          exact h ⟨[], c, cs, rfl, hs, Nat.pos_of_ne_zero hb, by simpa using hc⟩
        rw [hb, keep_zero]
        rfl

theorem keep_of_straddles (h : Straddles b cs) : ∃ p t : List Char, ∃ n ∈ references,
    keep b (cs.flatMap escapeChar) = p.flatMap escapeChar ++ '&' :: t ∧ t <+: n ∧ t ≠ n := by
  obtain ⟨p, c, q, rfl, hc, hlt, hgt⟩ := h
  obtain ⟨n, hn, he⟩ := escapeChar_of_special hc
  have hamp : utf16Width '&' = 1 := rfl
  rw [he, units_cons, hamp] at hgt
  refine ⟨p, keep (b - units (p.flatMap escapeChar) - 1) n, n, hn, ?_, keep_isPrefix _ _, ?_⟩
  · rw [List.flatMap_append, List.flatMap_cons, keep_append, if_pos (by omega), keep_append, he,
      units_cons, hamp, if_neg (by omega), keep, hamp, if_pos (by omega)]
  · intro heq
    have hle := units_keep_le (b - units (p.flatMap escapeChar) - 1) n
    rw [heq] at hle
    omega

theorem rdropWhile_reference {p t n : List Char} (hn : n ∈ references) (ht : t <+: n) :
    (p ++ '&' :: t).rdropWhile pySpace = p ++ '&' :: t := by
  rw [List.rdropWhile_eq_self_iff]
  intro hne
  rw [List.getLast_append_of_ne_nil _ (List.cons_ne_nil '&' t), Bool.not_eq_true]
  rcases List.mem_cons.mp (List.getLast_mem (List.cons_ne_nil '&' t)) with h | h
  · rw [h]
    rfl
  · exact (references_clean n hn _ (ht.subset h)).2.2.2.2

theorem references_apart : ∀ m ∈ references, ∀ n ∈ references, m <+: n → m = n := by decide

theorem complete_keep (b : ℕ) (cs : List Char) (hb : '&' ∉ before) (ha : '&' ∉ after)
    (h : ¬ Straddles (b - units before) cs) :
    Complete references (keep b (before ++ (cs.flatMap escapeChar ++ after))) := by
  obtain ⟨p, hp⟩ := keep_of_not_straddles h
  rw [keep_append]
  split
  · apply (complete_of_not_mem hb).append
    rw [keep_append]
    split
    · exact (complete_escape cs).append
        (complete_of_not_mem fun h => ha ((keep_isPrefix _ _).subset h))
    · rw [hp]
      exact complete_escape p
  · exact complete_of_not_mem fun h => hb ((keep_isPrefix _ _).subset h)

/-- A cut in escaped text leaves complete references exactly if it is not within one. -/
theorem complete_cut_iff (b : ℕ) (cs : List Char) {rest : List Char} (hb : '&' ∉ before)
    (ha : '&' ∉ after) (hr : Complete references rest) :
    Complete references
      ((keep b (before ++ (cs.flatMap escapeChar ++ after))).rdropWhile pySpace ++ '…' :: rest) ↔
      ¬ Straddles (b - units before) cs := by
  constructor
  · intro hcomplete hs
    have hle : units before ≤ b := by
      by_contra hlt
      rw [Nat.sub_eq_zero_of_le (by omega)] at hs
      exact not_straddles_zero hs
    obtain ⟨p, t, n, hn, hkeep, ht, hne⟩ := keep_of_straddles hs
    rw [keep_append, if_pos hle, keep_append, if_neg (Nat.not_le.mpr hs.lt), hkeep,
      ← List.append_assoc, rdropWhile_reference hn ht, List.append_assoc,
      List.cons_append] at hcomplete
    refine not_complete_of_cut (fun m hm hc => (references_clean m hm _ hc).2.2.2.1 rfl)
      (fun m hm hmt => ?_) _ hcomplete
    have hmn := references_apart m hm n hn (hmt.trans ht)
    rw [hmn] at hmt
    exact hne (ht.eq_of_length_le hmt.length_le)
  · intro hs
    have hclean : ∀ n ∈ references, ∀ c ∈ n, pySpace c = false := fun n hn c hc =>
      (references_clean n hn c hc).2.2.2.2
    have hell : Complete references ['…'] := complete_of_not_mem (by decide)
    exact ((complete_keep b cs hb ha hs).rdropWhile hclean).append (hell.append hr)

def Template (tag : Tag) : Prop :=
  tag = ⟨['b'], []⟩ ∨ ∃ href, tag = ⟨['a'], [("href".toList, href)]⟩

/--
Tags are complete and those of the template, elements are nested and closed, and every
ampersand starts a reference that escaping writes.
-/
def WellFormed (text : String) : Prop :=
  (∃ ts, tokens text.toList = some ts ∧ ∀ tag, Token.startTag tag ∈ ts → Template tag) ∧
    Complete references text.toList

/-- An id that means nothing in a quoted address. -/
def PlainId (listing : Listing) : Prop := ∀ c ∈ ['"', '<', '>', '&'], c ∉ listing.id.toList

theorem PlainId.not_mem_url {c : Char} (h : PlainId listing) (hc : c ∈ ['"', '<', '>', '&']) :
    c ∉ listing.url.toList := by
  have horigin : ['"', '<', '>', '&'].all (fun c => c ∉ origin) = true := by decide
  rw [mem_url (of_decide_eq_true (List.all_eq_true.mp horigin c hc))]
  exact h c hc

theorem complete_header (h : PlainId listing) : Complete references (header listing).toList := by
  have hurl : '&' ∉ listing.url.toList := h.not_mem_url (by decide)
  rw [toList_header, toList_escape]
  refine Complete.append ?_ (.append (.append (.append ?_ ?_) ?_) (.append (.append ?_ ?_) ?_))
  · exact complete_of_not_mem (by decide)
  · exact complete_of_not_mem (by decide)
  · exact complete_of_not_mem hurl
  · exact complete_of_not_mem (by decide)
  · exact complete_escape _
  · exact complete_of_not_mem (by decide)
  · exact complete_of_not_mem (by decide)

theorem wellFormed_iff_tail {text : String} (h : PlainId listing)
    (htext : text.toList = (header listing).toList ++ tail) (hlt : '<' ∉ tail) (hne : tail ≠ []) :
    WellFormed text ↔ Complete references tail := by
  rw [WellFormed, htext, complete_append_iff (complete_header h), and_iff_right_iff_imp]
  rintro -
  refine ⟨_, tokens_header (h.not_mem_url (by decide)) hlt hne, ?_⟩
  intro tag htag
  simp only [headerTokens, List.cons_append, List.nil_append, List.mem_cons, reduceCtorEq,
    Token.startTag.injEq, false_or, or_false, List.not_mem_nil] at htag
  rcases htag with rfl | rfl
  · exact Or.inl rfl
  · exact Or.inr ⟨_, rfl⟩

theorem complete_metaText (listing : Listing) (assessment : Assessment) :
    Complete references (metaText listing assessment).toList := by
  have hscore : Complete references (scoreLine assessment).toList :=
    complete_of_not_mem (not_mem_scoreLine rfl)
  rw [metaText_eq]
  cases listing.budget with
  | none => exact hscore
  | some budget =>
    have hraw := complete_toList_escape budget.raw
    simp only [String.toList_append]
    exact (((complete_of_not_mem (by decide)).append hraw).append
      (complete_of_not_mem (by decide))).append hscore

theorem toList_summaryText (hr : 0 < room listing assessment)
    (h : room listing assessment < utf16Len (escape (strippedSummary assessment))) :
    (summaryText listing assessment).toList =
      (keep (room listing assessment - 1).toNat
        ((strippedSummary assessment).toList.flatMap escapeChar)).rdropWhile pySpace ++ ['…'] := by
  rw [summaryText_of_lt hr h, toList_escape, String.toList_append, rstrip, String.toList_ofList,
    String.toList_ofList]
  rfl

theorem complete_middleText {rest : List Char} (hrest : Complete references rest) :
    Complete references ((middleText listing assessment).toList ++ rest) ↔
      (room listing assessment < utf16Len (escape (strippedSummary assessment)) →
        ¬ Straddles (room listing assessment - 1).toNat (strippedSummary assessment).toList) := by
  have hsep : Complete references separator.toList := complete_of_not_mem (by decide)
  by_cases hr : room listing assessment ≤ 0
  · have hzero : (room listing assessment - 1).toNat = 0 := by omega
    rw [middleText, if_pos (summaryText_of_nonpos hr), complete_append_iff hsep, hzero]
    exact iff_of_true hrest fun _ => not_straddles_zero
  by_cases hlt : room listing assessment < utf16Len (escape (strippedSummary assessment))
  · have hcut := toList_summaryText (Int.not_le.mp hr) hlt
    have hne := summaryText_ne_empty_of_lt (Int.not_le.mp hr) hlt
    have hiff := complete_cut_iff (room listing assessment - 1).toNat
      (strippedSummary assessment).toList (List.not_mem_nil (a := '&'))
      (List.not_mem_nil (a := '&')) (hsep.append hrest)
    rw [List.nil_append, List.append_nil, units_nil, Nat.sub_zero] at hiff
    rw [middleText, if_neg hne]
    simp only [String.toList_append, List.append_assoc, hcut, List.cons_append,
      List.nil_append]
    rw [complete_append_iff hsep, hiff]
    exact ⟨fun h _ => h, fun h => h hlt⟩
  · have hsummary := complete_toList_escape (strippedSummary assessment)
    refine iff_of_true ?_ fun h => absurd h hlt
    rw [middleText, summaryText_of_le (Int.not_lt.mp hlt)]
    split
    · exact hsep.append hrest
    · simp only [String.toList_append]
      exact ((hsep.append hsummary).append hsep).append hrest

theorem wellFormed_of_fits (hid : PlainId listing) (h : Fits listing assessment) :
    WellFormed (buildNotification listing assessment).text ↔
      (room listing assessment < utf16Len (escape (strippedSummary assessment)) →
        ¬ Straddles (room listing assessment - 1).toNat (strippedSummary assessment).toList) := by
  have htext := congrArg String.toList (text_of_fits h)
  rw [String.toList_append, String.toList_append, List.append_assoc] at htext
  rw [wellFormed_iff_tail hid htext (not_mem_tail listing assessment)
      (tail_ne_nil listing assessment),
    complete_middleText (complete_metaText listing assessment)]

theorem middleText_of_not_fits (h : ¬ Fits listing assessment) :
    middleText listing assessment = separator := by
  rw [middleText, if_pos]
  apply summaryText_of_nonpos
  unfold Fits at h
  rw [room]
  omega

theorem text_of_not_fits (h : ¬ Fits listing assessment) :
    (buildNotification listing assessment).text.toList =
      (keep (maxTextLength - 1) ((header listing).toList ++
        (separator.toList ++ (metaText listing assessment).toList))).rdropWhile pySpace ++
        ['…'] := by
  have hlt : maxTextLength <
      utf16Len (header listing ++ separator ++ metaText listing assessment) := by
    have hsep : utf16Len separator = 2 := by decide
    unfold Fits at h
    rw [utf16Len_append, utf16Len_append, hsep]
    omega
  rw [buildNotification_text, intercalate_parts, middleText_of_not_fits h,
    truncate_of_lt hlt (by decide), String.toList_append, rstrip, String.toList_ofList,
    String.toList_ofList, String.toList_append, String.toList_append, List.append_assoc]
  rfl

theorem rdropWhile_header (listing : Listing) :
    (header listing).toList.rdropWhile pySpace = (header listing).toList := by
  have hends : "</b>".toList = "</b".toList ++ ['>'] := by decide
  rw [toList_header, hends]
  simp only [← List.append_assoc]
  exact List.rdropWhile_concat_neg _ _ _ (by decide)

theorem complete_keep_metaText (listing : Listing) (assessment : Assessment) (b : ℕ) :
    Complete references ((keep b (separator.toList ++
        (metaText listing assessment).toList)).rdropWhile pySpace ++ ['…']) ↔
      ∀ budget, listing.budget = some budget → ¬ Straddles (b - 5) budget.raw.toList := by
  have hscore : '&' ∉ (scoreLine assessment).toList := not_mem_scoreLine rfl
  have hnil : Complete references [] := complete_of_not_mem List.not_mem_nil
  rw [metaText_eq]
  cases listing.budget with
  | none =>
    have hbefore : '&' ∉ separator.toList := by decide
    have hcut := complete_cut_iff b [] hbefore hscore hnil
    refine iff_of_true (hcut.mpr ?_) (by simp)
    rintro ⟨p, c, q, h, -⟩
    exact List.append_ne_nil_of_right_ne_nil p (List.cons_ne_nil c q) h.symm
  | some budget =>
    have hafter : '&' ∉ "\n".toList ++ (scoreLine assessment).toList := by
      rw [List.mem_append, not_or]
      exact ⟨by decide, hscore⟩
    have hbefore : '&' ∉ separator.toList ++ "💰 ".toList := by decide
    have hcut := complete_cut_iff b budget.raw.toList hbefore hafter hnil
    have hunits : units (separator.toList ++ "💰 ".toList) = 5 := by decide
    rw [hunits, ← toList_escape] at hcut
    simp only [String.toList_append, List.append_assoc, Option.some.injEq, forall_eq'] at hcut ⊢
    exact hcut

/-- A cut behind the header leaves its markup, and may fall within the budget. -/
theorem wellFormed_of_header_fits (hid : PlainId listing) (h : ¬ Fits listing assessment)
    (hh : utf16Len (header listing) < maxTextLength) :
    WellFormed (buildNotification listing assessment).text ↔
      ∀ budget, listing.budget = some budget →
        ¬ Straddles (maxTextLength - 1 - utf16Len (header listing) - 5) budget.raw.toList := by
  have hle : units (header listing).toList ≤ maxTextLength - 1 := by
    rw [← utf16Len_eq]
    omega
  have htext := text_of_not_fits h
  rw [keep_append, if_pos hle, rdropWhile_append (rdropWhile_header listing),
    List.append_assoc, ← utf16Len_eq] at htext
  rw [wellFormed_iff_tail hid htext ?_ (List.append_ne_nil_of_right_ne_nil _ (by decide)),
    complete_keep_metaText]
  rw [List.mem_append, not_or]
  refine ⟨fun hm => ?_, by decide⟩
  have hm := (keep_isPrefix _ _).subset ((List.rdropWhile_prefix _ _).subset hm)
  exact (List.mem_append.mp hm).elim (by decide) (not_mem_metaText listing assessment)

/-! The header behind the bold tag, up to where each of its tags ends. -/

def linkChars (listing : Listing) : List Char :=
  "<a href=\"".toList ++ (listing.url.toList ++ ['"'])

def linkedChars (listing : Listing) : List Char :=
  (escape (titleOf listing)).toList ++ "</a".toList

def boldChars (listing : Listing) : List Char :=
  linkChars listing ++ ['>'] ++ (linkedChars listing ++ ['>'] ++ ("</b".toList ++ ['>']))

theorem toList_header_bold (listing : Listing) :
    (header listing).toList = "🧩 <b>".toList ++ boldChars listing := by
  have ha : "</a>".toList = "</a".toList ++ ['>'] := by decide
  have hb : "</b>".toList = "</b".toList ++ ['>'] := by decide
  rw [toList_header, ha, hb]
  delta boldChars linkChars linkedChars
  simp only [List.append_assoc, List.cons_append, List.nil_append]

theorem run_linkChars (hid : PlainId listing) :
    run State.step boldState (linkChars listing ++ ['>']) = some (linkState listing) := by
  rw [← run_link (hid.not_mem_url (c := '"') (by decide))]
  delta linkChars
  simp only [List.append_assoc, List.cons_append, List.nil_append]

theorem run_linkedChars (listing : Listing) :
    run State.step (linkState listing) (linkedChars listing ++ ['>']) =
      some (linkedState listing) := by
  have ha : "</a>".toList = "</a".toList ++ ['>'] := by decide
  delta linkedChars
  rw [← run_linked, ha, List.append_assoc]

/-- Before the end of the header an element is open. -/
theorem finish_of_header_cut (hid : PlainId listing) {x : List Char}
    (hx : x <+: boldChars listing) (hne : x ≠ boldChars listing) :
    (run State.step boldState (x ++ ['…'])).bind State.finish = none := by
  have hell : '>' ∉ ['…'] := by decide
  delta boldChars at hx hne
  rcases prefix_append_cases hx with hx | ⟨y, hxy, hy⟩
  · have hlink : '>' ∉ linkChars listing := by
      delta linkChars
      simp only [List.mem_append, not_or]
      exact ⟨by decide, hid.not_mem_url (by decide), by decide⟩
    exact finish_of_cut (by decide) (List.cons_ne_nil _ _) (run_linkChars hid) hlink hx hell
  rw [hxy, List.append_assoc, run_append, run_linkChars hid, Option.bind_some]
  rcases prefix_append_cases hy with hy | ⟨z, hyz, hz⟩
  · have hlinked : '>' ∉ linkedChars listing := by
      delta linkedChars
      rw [List.mem_append, not_or]
      exact ⟨not_mem_toList_escape (Or.inr rfl) _, by decide⟩
    exact finish_of_cut (List.cons_ne_nil _ _) (List.cons_ne_nil _ _) (run_linkedChars listing)
      hlinked hy hell
  · rw [hyz, List.append_assoc, run_append, run_linkedChars, Option.bind_some]
    rcases List.prefix_concat_iff.mp hz with hz | hz
    · rw [hxy, hyz, hz] at hne
      exact absurd rfl hne
    · apply finish_of_open (List.cons_ne_nil _ _)
      rw [List.mem_append, not_or]
      exact ⟨fun h => absurd (hz.subset h) (by decide), hell⟩

theorem not_wellFormed_of_header (hid : PlainId listing)
    (hh : maxTextLength ≤ utf16Len (header listing)) :
    ¬ WellFormed (buildNotification listing assessment).text := by
  rintro ⟨⟨ts, hts, -⟩, -⟩
  have hbold : units "🧩 <b>".toList = 6 := by decide
  have hstrip : "🧩 <b>".toList.rdropWhile pySpace = "🧩 <b>".toList := by decide
  have hfits : ¬ Fits listing assessment := by
    unfold Fits
    omega
  rw [utf16Len_eq, toList_header_bold, units_append, hbold] at hh
  have hmax : maxTextLength = 4096 := rfl
  have hlt : ¬ units (header listing).toList ≤ maxTextLength - 1 := by
    rw [toList_header_bold, units_append, hbold]
    omega
  rw [text_of_not_fits hfits, keep_append, if_neg hlt, toList_header_bold, keep_append,
    hbold, if_pos (by decide), rdropWhile_append hstrip, List.append_assoc, tokens, run_append,
    run_bold, Option.bind_some] at hts
  have hkept := List.rdropWhile_prefix pySpace (keep (maxTextLength - 1 - 6) (boldChars listing))
  rw [finish_of_header_cut hid (hkept.trans (keep_isPrefix _ _)) ?_] at hts
  · cases hts
  · intro heq
    have hle : units _ ≤ units _ := sum_utf16Width_le hkept.sublist
    have hkeep := units_keep_le (maxTextLength - 1 - 6) (boldChars listing)
    rw [heq] at hle
    omega

/--
Neither cut falls within a reference or the header: where the summary is shortened, not
within a character that is escaped; where the end is cut off, behind the header and not
within a character of the budget that is escaped.
-/
structure CutsClean (listing : Listing) (assessment : Assessment) : Prop where
  summary : Fits listing assessment →
    room listing assessment < utf16Len (escape (strippedSummary assessment)) →
      ¬ Straddles (room listing assessment - 1).toNat (strippedSummary assessment).toList
  header : ¬ Fits listing assessment → utf16Len (header listing) < maxTextLength
  budget : ¬ Fits listing assessment → ∀ budget, listing.budget = some budget →
    ¬ Straddles (maxTextLength - 1 - utf16Len (Llm.header listing) - 5) budget.raw.toList

/-- The text of a notification is well-formed exactly if no cut falls badly. -/
theorem wellFormed_iff_cutsClean (hid : PlainId listing) :
    WellFormed (buildNotification listing assessment).text ↔ CutsClean listing assessment := by
  by_cases hfits : Fits listing assessment
  · rw [wellFormed_of_fits hid hfits]
    exact ⟨fun h => ⟨fun _ => h, absurd hfits, absurd hfits⟩, fun h => h.summary hfits⟩
  by_cases hh : utf16Len (header listing) < maxTextLength
  · rw [wellFormed_of_header_fits hid hfits hh]
    exact ⟨fun h => ⟨fun hf => absurd hf hfits, fun _ => hh, fun _ => h⟩,
      fun h => h.budget hfits⟩
  · exact iff_of_false (not_wellFormed_of_header hid (Nat.not_lt.mp hh))
      fun h => hh (h.header hfits)

theorem plainId_listingWith : PlainId (listingWith "1") := by
  have hall : ['"', '<', '>', '&'].all (fun c => c ∉ (listingWith "1").id.toList) = true := by
    decide
  exact fun c hc => of_decide_eq_true (List.all_eq_true.mp hall c hc)

theorem not_straddles_shifted (n k : ℕ) :
    ¬ Straddles (4 * k + 1) ('s' :: List.replicate n '<') := by
  rintro ⟨p, c, q, hsplit, hspecial, hlt, hgt⟩
  cases p with
  | nil =>
    obtain ⟨rfl, -⟩ := List.cons.inj hsplit
    cases hspecial
  | cons d p =>
    obtain ⟨rfl, htail⟩ := List.cons.inj hsplit
    obtain ⟨-, hp, hq⟩ := List.replicate_eq_append_iff.mp htail
    obtain rfl := (List.cons.inj (hq.trans List.replicate_succ)).1
    have hone : units (escapeChar '<') = 4 := by decide
    have hs : units (escapeChar 's') = 1 := by decide
    rw [List.flatMap_cons, units_append, hs, hp, units_lessThans] at hlt hgt
    omega

def shifted (n : ℕ) : String := .ofList ('s' :: List.replicate n '<')

theorem strippedSummary_shifted (n : ℕ) :
    strippedSummary (assessmentWith (shifted n)) = shifted n := by
  apply strip_eq_self
  intro c hc
  rw [assessmentWith, shifted, String.toList_ofList] at hc
  rcases List.mem_cons.mp hc with rfl | hc
  · rfl
  · rw [(List.mem_replicate.mp hc).2]
    rfl

theorem wellFormed_shifted :
    room (listingWith "1") (assessmentWith (shifted 2000)) <
        utf16Len (escape (strippedSummary (assessmentWith (shifted 2000)))) ∧
      WellFormed (buildNotification (listingWith "1") (assessmentWith (shifted 2000))).text := by
  have hfits := fits_listingWith (shifted 2000)
  have hs : units (escapeChar 's') = 1 := by decide
  constructor
  · rw [room_listingWith, strippedSummary_shifted, utf16Len_eq, toList_escape, shifted,
      String.toList_ofList, List.flatMap_cons, units_append, units_lessThans, hs]
    decide
  · refine (wellFormed_iff_cutsClean plainId_listingWith).mpr
      ⟨fun _ _ => ?_, fun h => absurd hfits h, fun h => absurd hfits h⟩
    rw [room_listingWith, strippedSummary_shifted, shifted, String.toList_ofList]
    exact not_straddles_shifted 2000 1001

/-! A summary of less-than signs is cut within one of them. -/

theorem straddles_lessThans {n : ℕ} (hn : 1001 < n) :
    Straddles 4005 (List.replicate n '<') := by
  have hone : units (escapeChar '<') = 4 := by decide
  obtain ⟨k, rfl⟩ := Nat.exists_eq_add_of_lt hn
  refine ⟨List.replicate 1001 '<', '<', List.replicate k '<', ?_, rfl, ?_, ?_⟩
  · rw [← List.replicate_succ, List.replicate_append_replicate, Nat.add_assoc]
  · rw [units_lessThans]
    omega
  · rw [units_lessThans, hone]
    omega

theorem not_wellFormed_of_lessThans {n : ℕ} (hn : 1001 < n) :
    ¬ WellFormed (buildNotification (listingWith "1") (assessmentWith (lessThans n))).text := by
  rw [wellFormed_of_fits plainId_listingWith (fits_listingWith _), room_listingWith,
    strippedSummary_lessThans, utf16Len_lessThans, toList_lessThans]
  intro h
  exact h (by omega) (straddles_lessThans hn)

theorem not_wellFormed_lessThans : PlainId (listingWith "1") ∧
    ¬ WellFormed (buildNotification (listingWith "1") (assessmentWith (lessThans 2000))).text :=
  ⟨plainId_listingWith, not_wellFormed_of_lessThans (by decide)⟩

end ProfiNotifications.Llm
