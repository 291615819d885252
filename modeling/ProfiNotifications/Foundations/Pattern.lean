import Mathlib.Data.List.Induction

/-! # Replacing what a pattern matches

A pattern is a sequence of atoms, each a character of a class or a non-empty greedy run of
such characters. Replacement goes through the text from the left: where the pattern
matches, the match that a backtracking matcher tries first is replaced, and the scan goes
on behind it. The result contains no match of its own when the replacement is bounded by
characters that no match can contain.
-/

namespace Pattern

variable {α : Type*}

/-- One character of a class, or a non-empty run of them. -/
inductive Atom (α : Type*) where
  | one (p : α → Bool)
  | run (p : α → Bool)

def Atom.accepts : Atom α → α → Bool
  | one p => p
  | run p => p

/-- What is left behind the matches at the start of a text, in the order in which a greedy
matcher tries them. -/
def rests : List α → List (Atom α) → List (List α)
  | s, [] => [s]
  | [], _ :: _ => []
  | c :: s, .one p :: as => if p c then rests s as else []
  | c :: s, .run p :: as => if p c then rests s (.run p :: as) ++ rests s as else []

/-- The texts that a pattern matches. -/
inductive Matches : List (Atom α) → List α → Prop
  | nil : Matches [] []
  | one {p : α → Bool} {c : α} {as : List (Atom α)} {w : List α} (hc : p c = true)
      (h : Matches as w) : Matches (.one p :: as) (c :: w)
  | last {p : α → Bool} {c : α} {as : List (Atom α)} {w : List α} (hc : p c = true)
      (h : Matches as w) : Matches (.run p :: as) (c :: w)
  | more {p : α → Bool} {c : α} {as : List (Atom α)} {w : List α} (hc : p c = true)
      (h : Matches (.run p :: as) w) : Matches (.run p :: as) (c :: w)

def NoMatch (as : List (Atom α)) (s : List α) : Prop := ∀ w, w <:+: s → ¬ Matches as w

/-- Replace the matches from the left. An empty match is passed over; a pattern with an atom
has none. -/
def replaceAll (as : List (Atom α)) (marker : List α) : List α → List α
  | [] => []
  | c :: s =>
    match (rests (c :: s) as).head? with
    | some rest =>
      if rest.length ≤ s.length then marker ++ replaceAll as marker rest
      else c :: replaceAll as marker s
    | none => c :: replaceAll as marker s
termination_by s => s.length

/-- A text with some matches replaced, and no match in what is kept between them. -/
inductive Replaced (as : List (Atom α)) (marker : List α) : List α → List α → Prop
  | done {gap : List α} (hg : NoMatch as gap) : Replaced as marker gap gap
  | replace {gap w rest out : List α} (hg : NoMatch as gap) (hw : Matches as w)
      (h : Replaced as marker rest out) :
      Replaced as marker (gap ++ (w ++ rest)) (gap ++ (marker ++ out))

variable {as : List (Atom α)} {a : Atom α} {marker s s' u v w gap rest out : List α} {c : α}
  {p : α → Bool}

@[simp] theorem accepts_one (p : α → Bool) : (Atom.one p).accepts = p := rfl

@[simp] theorem accepts_run (p : α → Bool) : (Atom.run p).accepts = p := rfl

theorem matches_nil_iff : Matches [] w ↔ w = [] := by
  constructor
  · rintro ⟨⟩
    rfl
  · rintro rfl
    exact .nil

theorem matches_one_iff : Matches (.one p :: as) w ↔ ∃ c w', w = c :: w' ∧ p c = true ∧
    Matches as w' := by
  constructor
  · rintro (_ | ⟨hc, h⟩)
    exact ⟨_, _, rfl, hc, h⟩
  · rintro ⟨c, w', rfl, hc, h⟩
    exact .one hc h

theorem matches_run_iff : Matches (.run p :: as) w ↔ ∃ u w', w = u ++ w' ∧ u ≠ [] ∧
    (∀ c ∈ u, p c = true) ∧ Matches as w' := by
  constructor
  · intro h
    generalize hb : Atom.run p :: as = bs at h
    induction h with
    | nil => cases hb
    | one hc h => cases hb
    | @last q c as' w hc h =>
      obtain ⟨rfl, rfl⟩ := List.cons.inj hb |>.imp Atom.run.inj id
      exact ⟨[c], w, rfl, by simp, by simpa using hc, h⟩
    | @more q c as' w hc h ih =>
      obtain ⟨u, w', rfl, -, hu, h'⟩ := ih hb
      obtain ⟨rfl, rfl⟩ := List.cons.inj hb |>.imp Atom.run.inj id
      exact ⟨c :: u, w', rfl, by simp, by simpa using ⟨hc, hu⟩, h'⟩
  · rintro ⟨u, w', rfl, hne, hu, h⟩
    induction u with
    | nil => exact absurd rfl hne
    | cons c u ih =>
      have hc := hu c List.mem_cons_self
      cases u with
      | nil => exact .last hc h
      | cons d u => exact .more hc (ih (by simp) fun e he => hu e (List.mem_cons_of_mem _ he))

theorem Matches.exists_accepts (h : Matches as w) : ∀ c ∈ w, ∃ a ∈ as, a.accepts c = true := by
  induction h with
  | nil => simp
  | one hc h ih =>
    rintro d hd
    rcases List.mem_cons.mp hd with rfl | hd
    · exact ⟨_, List.mem_cons_self, hc⟩
    · obtain ⟨a, ha, hd⟩ := ih d hd
      exact ⟨a, List.mem_cons_of_mem _ ha, hd⟩
  | last hc h ih =>
    rintro d hd
    rcases List.mem_cons.mp hd with rfl | hd
    · exact ⟨_, List.mem_cons_self, hc⟩
    · obtain ⟨a, ha, hd⟩ := ih d hd
      exact ⟨a, List.mem_cons_of_mem _ ha, hd⟩
  | more hc h ih =>
    rintro d hd
    rcases List.mem_cons.mp hd with rfl | hd
    · exact ⟨_, List.mem_cons_self, hc⟩
    · exact ih d hd

theorem Matches.head (h : Matches (a :: as) w) : ∃ c w', w = c :: w' ∧ a.accepts c = true := by
  cases h with
  | one hc h => exact ⟨_, _, rfl, hc⟩
  | last hc h => exact ⟨_, _, rfl, hc⟩
  | more hc h => exact ⟨_, _, rfl, hc⟩

theorem Matches.last_accepts (h : Matches as w) : ∀ c ∈ w.getLast?, ∃ a ∈ as.getLast?,
    a.accepts c = true := by
  induction h with
  | nil => simp
  | @one p c as w hc h ih =>
    cases w with
    | nil => cases h; simpa using hc
    | cons d w =>
      obtain ⟨b, as⟩ := as
      · cases h
      · simpa using ih
  | @last p c as w hc h ih =>
    cases w with
    | nil =>
      cases as with
      | nil => simpa using hc
      | cons b as => cases h.head.choose_spec.choose_spec.1
    | cons d w =>
      cases as with
      | nil => cases h
      | cons b as => simpa using ih
  | @more p c as w hc h ih =>
    cases w with
    | nil => cases h
    | cons d w => simpa using ih

/-- The matcher finds the matches. -/
theorem mem_rests_iff : rest ∈ rests s as ↔ ∃ w, s = w ++ rest ∧ Matches as w := by
  induction s generalizing as with
  | nil =>
    cases as with
    | nil => simp [rests, matches_nil_iff]
    | cons a as =>
      simp only [rests, List.not_mem_nil, false_iff, not_exists, not_and]
      rintro w hw h
      obtain ⟨c, w', rfl, -⟩ := h.head
      simp at hw
  | cons c s ih =>
    cases as with
    | nil =>
      simp only [rests, List.mem_singleton, matches_nil_iff]
      constructor
      · rintro rfl
        exact ⟨[], rfl, rfl⟩
      · rintro ⟨w, hw, rfl⟩
        exact hw.symm
    | cons a as =>
      cases a with
      | one p =>
        by_cases hc : p c = true
        · simp only [rests, hc, if_true, ih]
          constructor
          · rintro ⟨w, rfl, h⟩
            exact ⟨c :: w, rfl, .one hc h⟩
          · rintro ⟨_, hw, h⟩
            obtain ⟨d, w, rfl, -, h'⟩ := matches_one_iff.mp h
            obtain ⟨rfl, rfl⟩ := List.cons.inj hw
            exact ⟨w, rfl, h'⟩
        · simp only [rests, hc]
          constructor
          · rintro ⟨⟩
          · rintro ⟨_, hw, h⟩
            obtain ⟨d, w, rfl, hd, -⟩ := matches_one_iff.mp h
            obtain ⟨rfl, -⟩ := List.cons.inj hw
            exact absurd hd hc
      | run p =>
        by_cases hc : p c = true
        · simp only [rests, hc, if_true, List.mem_append, ih]
          constructor
          · rintro (⟨w, rfl, h⟩ | ⟨w, rfl, h⟩)
            · exact ⟨c :: w, rfl, .more hc h⟩
            · exact ⟨c :: w, rfl, .last hc h⟩
          · rintro ⟨_, hw, h⟩
            cases h with
            | last hd h =>
              obtain ⟨rfl, rfl⟩ := List.cons.inj hw
              exact Or.inr ⟨_, rfl, h⟩
            | more hd h =>
              obtain ⟨rfl, rfl⟩ := List.cons.inj hw
              exact Or.inl ⟨_, rfl, h⟩
        · simp only [rests, hc]
          constructor
          · rintro ⟨⟩
          · rintro ⟨_, hw, h⟩
            obtain ⟨d, w, rfl, hd⟩ := h.head
            obtain ⟨rfl, -⟩ := List.cons.inj hw
            exact absurd hd hc

theorem NoMatch.of_isInfix (h : NoMatch as s) (hs : s' <:+: s) : NoMatch as s' :=
  fun w hw => h w (hw.trans hs)

theorem noMatch_of_head (h : ∀ c ∈ s, a.accepts c = false) : NoMatch (a :: as) s := by
  rintro w hw hm
  obtain ⟨c, w', rfl, hc⟩ := hm.head
  rw [h c (hw.subset List.mem_cons_self)] at hc
  cases hc

theorem noMatch_cons (hs : NoMatch as s) (hw : ∀ w, w <+: c :: s → ¬ Matches as w) :
    NoMatch as (c :: s) := by
  rintro w h
  rcases List.infix_cons_iff.mp h with h | h
  · exact hw w h
  · exact hs w h

theorem NoMatch.separate (hu : NoMatch as u) (hv : NoMatch as v)
    (hc : ∀ a ∈ as, a.accepts c = false) : NoMatch as (u ++ c :: v) := by
  rintro w h hm
  have hnot : c ∉ w := by
    intro hcw
    obtain ⟨a, ha, hac⟩ := hm.exists_accepts c hcw
    rw [hc a ha] at hac
    cases hac
  rcases List.infix_append_iff_ne_nil.mp h with h | h | ⟨w₁, w₂, -, hne, rfl, -, h⟩
  · exact hu w h hm
  · rcases List.infix_cons_iff.mp h with h | h
    · obtain rfl | ⟨t, rfl, -⟩ := List.prefix_cons_iff.mp h
      · exact hu [] (List.nil_infix) hm
      · exact hnot List.mem_cons_self
    · exact hv w h hm
  · obtain rfl | ⟨t, rfl, -⟩ := List.prefix_cons_iff.mp h
    · exact hne rfl
    · exact hnot (by simp)

theorem NoMatch.append (hu : NoMatch as u) (hv : ∀ c ∈ v, ∀ a ∈ as.getLast?, a.accepts c = false) :
    NoMatch as (u ++ v) := by
  induction v using List.reverseRecOn with
  | nil => simpa using hu
  | append_singleton v c ih =>
    rintro w h hm
    rw [← List.append_assoc] at h
    rcases List.infix_concat_iff.mp h with h | h
    · obtain rfl | ⟨t, rfl, -⟩ := List.suffix_concat_iff.mp h
      · exact hu [] List.nil_infix hm
      · obtain ⟨a, ha, hac⟩ := hm.last_accepts c (by simp)
        rw [hv c (by simp) a ha] at hac
        cases hac
    · exact ih (fun d hd => hv d (by simp [hd])) w h hm

theorem Replaced.cons (h : Replaced as marker s out) (hc : ∀ w, w <+: c :: s → ¬ Matches as w) :
    Replaced as marker (c :: s) (c :: out) := by
  cases h with
  | done hg => exact .done (noMatch_cons hg hc)
  | @replace gap w rest out hg hw h =>
    have hgap : NoMatch as (c :: gap) := by
      apply noMatch_cons hg
      rintro u hu
      exact hc u (hu.trans (List.prefix_append (c :: gap) (w ++ rest)))
    exact Replaced.replace hgap hw h

theorem replaced_replaceAll (h : as ≠ []) (marker s : List α) :
    Replaced as marker s (replaceAll as marker s) := by
  have hempty : ¬ Matches as [] := by
    obtain ⟨a, as, rfl⟩ := List.exists_cons_of_ne_nil h
    rintro ⟨⟩
  fun_induction replaceAll as marker s with
  | case1 =>
    apply Replaced.done
    rintro w hw
    rwa [List.infix_nil.mp hw]
  | case2 c s rest hrest hle ih =>
    obtain ⟨w, hw, hm⟩ := mem_rests_iff.mp (List.mem_of_head? hrest)
    rw [hw]
    have hgap : NoMatch as [] := by
      rintro w hw
      rwa [List.infix_nil.mp hw]
    exact Replaced.replace hgap hm ih
  | case3 c s rest hrest hlt ih =>
    -- only the empty text leaves this much behind
    obtain ⟨w, hw, hm⟩ := mem_rests_iff.mp (List.mem_of_head? hrest)
    have hlen := congrArg List.length hw
    simp only [List.length_cons, List.length_append] at hlen
    have hnil : w = [] := List.length_eq_zero_iff.mp (by omega)
    exact absurd (hnil ▸ hm) hempty
  | case4 c s hnone ih =>
    apply ih.cons
    rintro w ⟨rest, hw⟩ hm
    have hmem : rest ∈ rests (c :: s) as := mem_rests_iff.mpr ⟨w, hw.symm, hm⟩
    rw [List.head?_eq_none_iff.mp hnone] at hmem
    exact List.not_mem_nil hmem

/-- Replacing leaves no match if the marker is bounded by characters that are of no class. -/
theorem Replaced.noMatch {l r : α} {core : List α} (h : Replaced as (l :: (core ++ [r])) s out)
    (hl : ∀ a ∈ as, a.accepts l = false) (hr : ∀ a ∈ as, a.accepts r = false)
    (hcore : NoMatch as core) : NoMatch as out := by
  induction h with
  | done hg => exact hg
  | @replace gap w rest out hg _ _ ih =>
    have happ : l :: (core ++ [r]) ++ out = l :: (core ++ r :: out) := by simp
    rw [happ]
    exact hg.separate (hcore.separate ih hr) hl

end Pattern
