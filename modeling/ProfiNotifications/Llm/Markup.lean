import ProfiNotifications.Foundations.Html
import ProfiNotifications.Llm.Layout

/-! # The markup of a notification

The header is the only markup of a text: a link in bold. Title, summary and budget are
escaped, the id of a listing goes into the link as it is. Escaping comes before cutting,
so a cut may land within a reference or within the header.
-/

namespace ProfiNotifications.Llm

open Text Html Transition

variable {listing : Listing} {assessment : Assessment} {cs tail : List Char}

def references : List (List Char) := ["amp;".toList, "lt;".toList, "gt;".toList]

def special (c : Char) : Bool := c = '&' || c = '<' || c = '>'

theorem escapeChar_of_not_special {c : Char} (h : special c = false) : escapeChar c = [c] := by
  unfold escapeChar
  split <;> first | rfl | cases h

theorem escapeChar_of_special {c : Char} (h : special c = true) :
    ∃ n ∈ references, escapeChar c = '&' :: n := by
  simp only [special, Bool.or_eq_true, decide_eq_true_eq] at h
  rcases h with (rfl | rfl) | rfl
  · exact ⟨_, List.mem_cons_self, rfl⟩
  · exact ⟨_, List.mem_cons_of_mem _ List.mem_cons_self, rfl⟩
  · exact ⟨_, List.mem_cons_of_mem _ (List.mem_cons_of_mem _ List.mem_cons_self), rfl⟩

theorem references_clean : ∀ n ∈ references, ∀ c ∈ n, c ≠ '&' ∧ c ≠ '<' ∧ c ≠ '>' ∧
    c ≠ '…' ∧ pySpace c = false := by
  have hall : references.all (fun n => n.all fun c => c ≠ '&' ∧ c ≠ '<' ∧ c ≠ '>' ∧
      c ≠ '…' ∧ pySpace c = false) = true := by decide
  simpa only [List.all_eq_true, decide_eq_true_eq] using hall

theorem complete_escapeChar (c : Char) : Complete references (escapeChar c) := by
  cases h : special c with
  | false =>
    rw [escapeChar_of_not_special h]
    apply complete_of_not_mem
    rintro hc
    rw [← List.mem_singleton.mp hc] at h
    cases h
  | true =>
    obtain ⟨n, hn, he⟩ := escapeChar_of_special h
    rw [he]
    exact complete_reference hn fun hc => (references_clean n hn _ hc).1 rfl

theorem complete_escape (cs : List Char) : Complete references (cs.flatMap escapeChar) := by
  induction cs with
  | nil => exact complete_of_not_mem (by simp)
  | cons c cs ih => exact (complete_escapeChar c).append ih

theorem not_mem_escape {c : Char} (hc : c = '<' ∨ c = '>') : c ∉ cs.flatMap escapeChar := by
  intro h
  obtain ⟨d, -, hd⟩ := List.mem_flatMap.mp h
  cases hs : special d with
  | false =>
    rw [escapeChar_of_not_special hs] at hd
    rw [← List.mem_singleton.mp hd] at hs
    rcases hc with rfl | rfl <;> cases hs
  | true =>
    obtain ⟨n, hn, he⟩ := escapeChar_of_special hs
    rw [he, List.mem_cons] at hd
    rcases hd with rfl | hd
    · rcases hc with hc | hc <;> cases hc
    · have := references_clean n hn c hd
      rcases hc with rfl | rfl
      · exact this.2.1 rfl
      · exact this.2.2.1 rfl

@[simp] theorem toList_escape (text : String) :
    (escape text).toList = text.toList.flatMap escapeChar := String.toList_ofList

theorem not_mem_toList_escape {c : Char} (hc : c = '<' ∨ c = '>') (text : String) :
    c ∉ (escape text).toList := by
  rw [toList_escape]
  exact not_mem_escape hc

theorem complete_toList_escape (text : String) : Complete references (escape text).toList := by
  rw [toList_escape]
  exact complete_escape _

theorem unescape_escape (d : Dialect) (cs rest : List Char) :
    d.unescape (cs.flatMap escapeChar ++ rest) = cs ++ d.unescape rest := by
  induction cs with
  | nil => rfl
  | cons c cs ih =>
    rw [List.flatMap_cons, List.append_assoc, List.cons_append, ← ih]
    unfold escapeChar
    split
    · exact unescape_reference (d.amp _)
    · exact unescape_reference (d.lt _)
    · exact unescape_reference (d.gt _)
    · rename_i h _ _
      exact unescape_cons h _

/-- The state of the tokenizer after a header whose link has this address. -/
def headerTokens (listing : Listing) : List Token :=
  [.text ['🧩', ' '], .startTag ⟨['b'], []⟩,
    .startTag ⟨['a'], [("href".toList, listing.url.toList)]⟩,
    .text (escape (titleOf listing)).toList, .endTag ['a'], .endTag ['b']]

def boldState : State where
  stack := [['b']]
  tokens := [.text ['🧩', ' '], .startTag ⟨['b'], []⟩]

def linkState (listing : Listing) : State where
  stack := [['a'], ['b']]
  tokens := boldState.tokens ++ [.startTag ⟨['a'], [("href".toList, listing.url.toList)]⟩]

def linkedState (listing : Listing) : State where
  stack := [['b']]
  tokens := (linkState listing).tokens ++ [.text (escape (titleOf listing)).toList, .endTag ['a']]

theorem titleOf_ne_empty (listing : Listing) : titleOf listing ≠ "" := by
  unfold titleOf
  dsimp only
  split
  · simp
  · assumption

theorem run_bold : run State.step {} "🧩 <b>".toList = some boldState := by decide

def hrefState : State :=
  { boldState with mode := .value ⟨['a'], []⟩ "href".toList '"' [] }

theorem run_href : run State.step boldState "<a href=\"".toList = some hrefState := by decide

theorem run_link (hq : '"' ∉ listing.url.toList) :
    run State.step boldState ("<a href=\"".toList ++ listing.url.toList ++ ['"', '>']) =
      some (linkState listing) := by
  rw [List.append_assoc, run_append, run_href, Option.bind_some, run_append, run_value rfl hq]
  rfl

theorem run_linked :
    run State.step (linkState listing) ((escape (titleOf listing)).toList ++ "</a>".toList) =
      some (linkedState listing) := by
  have hlt : '<' ∉ (escape (titleOf listing)).toList := not_mem_toList_escape (Or.inl rfl) _
  have hne : (escape (titleOf listing)).toList ≠ [] := by
    rw [Ne, String.toList_eq_nil_iff, escape_eq_empty_iff]
    exact titleOf_ne_empty listing
  rw [run_append, run_data rfl hlt, Option.bind_some]
  simp only [linkState, List.nil_append]
  change run State.step _ ['<', '/', 'a', '>'] = _
  simp only [run, State.step, State.flush, if_neg hne, if_true, Option.bind_some]
  rfl

def headerState (listing : Listing) : State := { tokens := headerTokens listing }

theorem toList_header (listing : Listing) : (header listing).toList =
    "🧩 <b>".toList ++ ("<a href=\"".toList ++ listing.url.toList ++ ['"', '>'] ++
      ((escape (titleOf listing)).toList ++ "</a>".toList ++ "</b>".toList)) := by
  have hopen : "🧩 <b><a href=\"".toList = "🧩 <b>".toList ++ "<a href=\"".toList := by decide
  have hclose : "\">".toList = ['"', '>'] := by decide
  have hends : "</a></b>".toList = "</a>".toList ++ "</b>".toList := by decide
  delta header
  simp only [String.toList_append, List.append_assoc, hopen, hclose, hends]

theorem run_unbold :
    run State.step (linkedState listing) "</b>".toList = some (headerState listing) := by
  change run State.step _ ['<', '/', 'b', '>'] = _
  rfl

theorem run_header (hq : '"' ∉ listing.url.toList) :
    run State.step {} (header listing).toList = some (headerState listing) := by
  rw [toList_header, run_append, run_bold, Option.bind_some, run_append, run_link hq,
    Option.bind_some, run_append, run_linked, Option.bind_some]
  exact run_unbold

theorem tokens_header (hq : '"' ∉ listing.url.toList) (h : '<' ∉ tail) (hne : tail ≠ []) :
    tokens ((header listing).toList ++ tail) = some (headerTokens listing ++ [.text tail]) := by
  rw [tokens, run_append, run_header hq, Option.bind_some, run_data rfl h, Option.bind_some,
    State.finish, if_pos ⟨rfl, rfl⟩, State.flush, if_neg (by simpa [headerState] using hne)]
  rfl

def scoreLine (assessment : Assessment) : String :=
  "🎯 Соответствие: " ++ toString assessment.suitabilityScore ++ "/100"

theorem intercalate_option {α : Type} (line : Option α) (f : α → String) (last : String) :
    "\n".intercalate (line.toList.map f ++ [last]) =
      line.elim last fun a => f a ++ "\n" ++ last := by
  cases line with
  | none => exact String.intercalate_singleton
  | some a => exact String.intercalate_cons_cons.trans (congrArg _ String.intercalate_singleton)

theorem metaText_eq (listing : Listing) (assessment : Assessment) :
    metaText listing assessment = match listing.budget with
      | none => scoreLine assessment
      | some budget => "💰 " ++ escape budget.raw ++ "\n" ++ scoreLine assessment := by
  apply (intercalate_option listing.budget _ (scoreLine assessment)).trans
  cases listing.budget <;> rfl

theorem special_scoreLine : ∀ c ∈ (scoreLine assessment).toList, special c = false := by
  intro c hc
  obtain ⟨n, hn⟩ := Int.eq_ofNat_of_zero_le assessment.score_nonneg
  delta scoreLine at hc
  rw [hn, String.toList_append, String.toList_append, List.mem_append, List.mem_append] at hc
  have hlabel : "🎯 Соответствие: ".toList.all (fun c => special c = false) = true := by decide
  have hscale : "/100".toList.all (fun c => special c = false) = true := by decide
  rcases hc with (hc | hc) | hc
  · exact of_decide_eq_true (List.all_eq_true.mp hlabel c hc)
  · have hc : c ∈ (Nat.repr n).toList := hc
    rw [Nat.toList_repr] at hc
    have hd := Nat.isDigit_of_mem_toDigits (by decide) (by decide) hc
    simp only [special, Bool.or_eq_false_iff, decide_eq_false_iff_not]
    refine ⟨⟨?_, ?_⟩, ?_⟩ <;> rintro rfl <;> cases hd
  · exact of_decide_eq_true (List.all_eq_true.mp hscale c hc)

theorem not_mem_scoreLine {c : Char} (hc : special c = true) :
    c ∉ (scoreLine assessment).toList := by
  intro h
  rw [special_scoreLine c h] at hc
  cases hc

theorem not_mem_metaText (listing : Listing) (assessment : Assessment) :
    '<' ∉ (metaText listing assessment).toList := by
  have hicon : '<' ∉ "💰 ".toList := by decide
  have hline : '<' ∉ "\n".toList := by decide
  have hscore : '<' ∉ (scoreLine assessment).toList := not_mem_scoreLine rfl
  rw [metaText_eq]
  cases listing.budget with
  | none => exact hscore
  | some budget =>
    simp only [String.toList_append, List.mem_append, not_or]
    exact ⟨⟨⟨hicon, not_mem_toList_escape (Or.inl rfl) _⟩, hline⟩, hscore⟩

theorem not_mem_truncate {text : String} {limit : ℤ} {c : Char} (h : c ∉ text.toList)
    (hc : c ∉ ellipsis.toList) : c ∉ (truncate text limit).toList := by
  unfold truncate
  split
  · exact List.not_mem_nil
  · split
    · exact h
    · rw [String.toList_append, List.mem_append, not_or, rstrip, String.toList_ofList,
        String.toList_ofList]
      exact ⟨fun hm => h ((keep_isPrefix _ _).subset ((List.rdropWhile_prefix _ _).subset hm)), hc⟩

theorem not_mem_middleText (listing : Listing) (assessment : Assessment) :
    '<' ∉ (middleText listing assessment).toList := by
  have hsep : '<' ∉ separator.toList := by decide
  have hsummary : '<' ∉ (summaryText listing assessment).toList := by
    rw [summaryText_eq]
    exact not_mem_truncate (not_mem_toList_escape (Or.inl rfl) _) (by decide)
  unfold middleText
  split
  · exact hsep
  · simp only [String.toList_append, List.mem_append, not_or]
    exact ⟨⟨hsep, hsummary⟩, hsep⟩

theorem not_mem_tail (listing : Listing) (assessment : Assessment) :
    '<' ∉ (middleText listing assessment).toList ++ (metaText listing assessment).toList :=
  fun h => (List.mem_append.mp h).elim (not_mem_middleText _ _) (not_mem_metaText _ _)

theorem tail_ne_nil (listing : Listing) (assessment : Assessment) :
    (middleText listing assessment).toList ++ (metaText listing assessment).toList ≠ [] := by
  have hsep : separator.toList ≠ [] := by decide
  unfold middleText
  split <;> simp [hsep]

/-- Neither cut shortened anything. -/
def Unshortened (listing : Listing) (assessment : Assessment) : Prop :=
  summaryText listing assessment = escape (strippedSummary assessment) ∧
    (buildNotification listing assessment).text = separator.intercalate (parts listing assessment)

def plainText (listing : Listing) (assessment : Assessment) : String :=
  separator.intercalate
    (["🧩 " ++ titleOf listing] ++
      (if strippedSummary assessment = "" then [] else [strippedSummary assessment]) ++
      ["\n".intercalate ((listing.budget.toList.map fun budget => "💰 " ++ budget.raw) ++
        [scoreLine assessment])])

/-- Read as HTML, the text is one bold link to the listing, and it shows its parts verbatim. -/
def ShownVerbatim (d : Dialect) (listing : Listing) (assessment : Assessment) : Prop :=
  ∃ ts, d.parse (buildNotification listing assessment).text.toList = some ts ∧
    markup ts = [.startTag ⟨['b'], []⟩,
      .startTag ⟨['a'], [("href".toList, listing.url.toList)]⟩, .endTag ['a'], .endTag ['b']] ∧
    content ts = (plainText listing assessment).toList

def plainMiddle (assessment : Assessment) : String :=
  if strippedSummary assessment = "" then separator
  else separator ++ strippedSummary assessment ++ separator

def plainMeta (listing : Listing) (assessment : Assessment) : String :=
  match listing.budget with
  | none => scoreLine assessment
  | some budget => "💰 " ++ budget.raw ++ "\n" ++ scoreLine assessment

theorem plainText_eq (listing : Listing) (assessment : Assessment) :
    plainText listing assessment =
      "🧩 " ++ titleOf listing ++ plainMiddle assessment ++ plainMeta listing assessment := by
  have hmeta : "\n".intercalate ((listing.budget.toList.map fun budget => "💰 " ++ budget.raw) ++
      [scoreLine assessment]) = plainMeta listing assessment := by
    delta plainMeta
    rw [intercalate_option]
    cases listing.budget <;> rfl
  delta plainText plainMiddle
  rw [hmeta]
  by_cases hs : strippedSummary assessment = ""
  · rw [if_pos hs, if_pos hs]
    simp only [List.append_nil, List.cons_append, List.nil_append,
      String.intercalate_cons_cons, String.intercalate_singleton]
  · rw [if_neg hs, if_neg hs]
    simp only [List.cons_append, List.nil_append, String.intercalate_cons_cons,
      String.intercalate_singleton, String.append_assoc]

theorem unshortened_of_le (h : utf16Len (header listing) +
      utf16Len (metaText listing assessment) + 4 +
      utf16Len (escape (strippedSummary assessment)) ≤ maxTextLength) :
    Unshortened listing assessment := by
  constructor
  · apply summaryText_of_le
    rw [room]
    omega
  · rw [intercalate_parts]
    apply text_of_fits
    unfold Fits
    omega

section Verbatim

variable {d : Dialect}

variable (d) in
theorem unescape_escape_append (text : String) (rest : List Char) :
    d.unescape ((escape text).toList ++ rest) = text.toList ++ d.unescape rest := by
  rw [toList_escape, unescape_escape]

theorem unescape_middle (h : summaryText listing assessment = escape (strippedSummary assessment))
    (rest : List Char) : d.unescape ((middleText listing assessment).toList ++ rest) =
      (plainMiddle assessment).toList ++ d.unescape rest := by
  have hsep : '&' ∉ separator.toList := by decide
  rw [middleText, plainMiddle, h]
  by_cases hs : strippedSummary assessment = ""
  · rw [if_pos hs, if_pos (escape_eq_empty_iff.mpr hs), unescape_append hsep]
  · rw [if_neg hs, if_neg (mt escape_eq_empty_iff.mp hs)]
    simp only [String.toList_append, List.append_assoc]
    rw [unescape_append hsep, unescape_escape_append, unescape_append hsep]

theorem unescape_meta (listing : Listing) (assessment : Assessment) :
    d.unescape (metaText listing assessment).toList = (plainMeta listing assessment).toList := by
  have hscore : d.unescape (scoreLine assessment).toList = (scoreLine assessment).toList := by
    have hamp : '&' ∉ (scoreLine assessment).toList := not_mem_scoreLine rfl
    simpa using unescape_append hamp []
  have hicon : '&' ∉ "💰 ".toList := by decide
  have hline : '&' ∉ "\n".toList := by decide
  rw [metaText_eq]
  delta plainMeta
  cases listing.budget with
  | none => exact hscore
  | some budget =>
    simp only [String.toList_append, List.append_assoc]
    rw [unescape_append hicon, unescape_escape_append, unescape_append hline, hscore]

/-- What the whole text stands for when the address of the link ends where its quotes do. -/
theorem parse_text (hu : Unshortened listing assessment) (hq : '"' ∉ listing.url.toList) :
    d.parse (buildNotification listing assessment).text.toList = some [
      .text ['🧩', ' '], .startTag ⟨['b'], []⟩,
      .startTag ⟨['a'], [("href".toList, d.unescape listing.url.toList)]⟩,
      .text (titleOf listing).toList, .endTag ['a'], .endTag ['b'],
      .text ((plainMiddle assessment).toList ++ (plainMeta listing assessment).toList)] := by
  have hicon : d.unescape ['🧩', ' '] = ['🧩', ' '] := rfl
  have htitle : d.unescape (escape (titleOf listing)).toList = (titleOf listing).toList := by
    simpa using unescape_escape_append d (titleOf listing) []
  rw [hu.2, intercalate_parts, String.toList_append, String.toList_append, List.append_assoc,
    Dialect.parse, tokens_header hq (not_mem_tail _ _) (tail_ne_nil _ _)]
  simp only [headerTokens, Option.map_some, List.map_cons, List.map_nil,
    List.cons_append, List.nil_append, Dialect.decode, hicon, htitle, unescape_middle hu.1,
    unescape_meta]

/-- The address is an origin without quotes or references, and the id. -/
def origin : List Char := "https://profi.ru/backoffice/n.php?o=".toList

theorem toList_url (listing : Listing) : listing.url.toList = origin ++ listing.id.toList := by
  delta Listing.url origin
  rw [String.toList_append]

theorem mem_url {c : Char} (hc : c ∉ origin) : c ∈ listing.url.toList ↔ c ∈ listing.id.toList := by
  rw [toList_url, List.mem_append]
  exact or_iff_right hc

theorem unescape_url_eq_iff : d.unescape listing.url.toList = listing.url.toList ↔
    d.unescape listing.id.toList = listing.id.toList := by
  have hamp : '&' ∉ origin := by decide
  rw [toList_url, unescape_append hamp, List.append_cancel_left_eq]

/-- A quote in the id ends the address early. -/
theorem not_shownVerbatim_of_quote
    (hu : Unshortened listing assessment) (hq : '"' ∈ listing.url.toList) :
    ¬ ShownVerbatim d listing assessment := by
  rintro ⟨ts, hparse, hmarkup, -⟩
  obtain ⟨u, rest, hurl, hnot⟩ := List.eq_append_cons_of_mem hq
  obtain ⟨ts', htokens, rfl⟩ := Option.map_eq_some_iff.mp hparse
  rw [hu.2, intercalate_parts, String.toList_append, String.toList_append, toList_header,
    hurl] at htokens
  simp only [List.append_assoc, List.cons_append] at htokens
  rw [tokens, run_append, run_bold, Option.bind_some, run_append, run_href, Option.bind_some,
    run_append, run_value rfl hnot, Option.bind_some, run] at htokens
  obtain ⟨s, hrun, hfinish⟩ := Option.bind_eq_some_iff.mp htokens
  -- the address that was read stays an attribute to the end of the text
  have hattr : ("href".toList, u) ∈ ts'.flatMap Token.attrs :=
    finish_attrs hfinish (run_attrs hrun (List.mem_append_right _ (List.mem_singleton.mpr rfl)))
  have hall : (ts'.map d.decode).flatMap Token.attrs = [("href".toList, listing.url.toList)] := by
    rw [← attrs_markup, hmarkup]
    rfl
  rw [attrs_decode] at hall
  have hmem := List.mem_map_of_mem (f := fun a : List Char × List Char => (a.1, d.unescape a.2))
    hattr
  rw [hall, List.mem_singleton, Prod.mk.injEq] at hmem
  have hvalue : d.unescape u = listing.url.toList := hmem.2
  have hlen := congrArg List.length (hvalue.trans hurl)
  have hle := length_unescape_le (d := d) u
  rw [List.length_append, List.length_cons] at hlen
  omega

/--
A text that was not shortened shows its parts verbatim exactly if the id of the listing
contains no quote and no reference.
-/
theorem shownVerbatim_iff (d : Dialect) (hu : Unshortened listing assessment) :
    ShownVerbatim d listing assessment ↔
      '"' ∉ listing.id.toList ∧ d.unescape listing.id.toList = listing.id.toList := by
  rw [← unescape_url_eq_iff, ← mem_url (by decide)]
  by_cases hq : '"' ∈ listing.url.toList
  · exact iff_of_false (not_shownVerbatim_of_quote hu hq) fun h => h.1 hq
  rw [and_iff_right hq, ShownVerbatim, parse_text hu hq]
  constructor
  · rintro ⟨ts, hts, hmarkup, -⟩
    obtain rfl := Option.some.inj hts
    simpa [markup, List.filter_cons, Token.isTag] using hmarkup
  · intro hurl
    refine ⟨_, rfl, ?_, ?_⟩
    · rw [hurl]
      rfl
    · simp [content, Token.chars, plainText_eq]

end Verbatim

theorem shownVerbatim_plainId :
    ShownVerbatim .named { listingWith "1" with title := "a < b" } (assessmentWith "x & y") :=
  (shownVerbatim_iff .named (unshortened_of_le (by decide))).mpr ⟨by decide, by decide⟩

/-- An id with a quote closes the address of the link. -/
theorem not_shownVerbatim_quotedId :
    Unshortened (listingWith "1\" title=\"x") (assessmentWith "s") ∧
      ¬ ShownVerbatim .named (listingWith "1\" title=\"x") (assessmentWith "s") :=
  ⟨unshortened_of_le (by decide), not_shownVerbatim_of_quote (unshortened_of_le (by decide))
    (by decide)⟩

end ProfiNotifications.Llm
