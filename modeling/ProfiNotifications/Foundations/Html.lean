import Mathlib.Data.List.DropRight
import ProfiNotifications.Foundations.Transition

/-! # Small HTML

Messages are marked up with tags whose attributes have quoted values. A tokenizer reads
one character at a time and accepts a text whose tags are complete, and opened and closed
in nested order. What a character reference stands for is left to a dialect, which knows
at least the references of the three characters that markup is made of.
-/

namespace Html

open Transition

structure Tag where
  name : List Char
  attrs : List (List Char × List Char) := []
  deriving DecidableEq, Repr

inductive Token where
  | text (chars : List Char)
  | startTag (tag : Tag)
  | endTag (name : List Char)
  deriving DecidableEq, Repr

inductive Mode where
  | data
  | tagOpen
  | tagName (name : List Char)
  | beforeAttr (tag : Tag)
  | attrName (tag : Tag) (name : List Char)
  | beforeValue (tag : Tag) (name : List Char)
  | value (tag : Tag) (name : List Char) (quote : Char) (chars : List Char)
  | afterValue (tag : Tag)
  | endName (name : List Char)
  deriving DecidableEq, Repr

/-- The text since the last tag, the open elements, innermost first, and the tokens so far. -/
structure State where
  mode : Mode := .data
  chars : List Char := []
  stack : List (List Char) := []
  tokens : List Token := []
  deriving DecidableEq, Repr

def blank (c : Char) : Bool := c = ' ' || c = '\n' || c = '\t'

def Tag.add (tag : Tag) (name value : List Char) : Tag :=
  { tag with attrs := tag.attrs ++ [(name, value)] }

def Token.chars : Token → List Char
  | .text chars => chars
  | _ => []

def Token.attrs : Token → List (List Char × List Char)
  | .startTag tag => tag.attrs
  | _ => []

def Token.isTag : Token → Bool
  | .text _ => false
  | _ => true

def markup (ts : List Token) : List Token := ts.filter Token.isTag

/-- The text that a reader sees. -/
def content (ts : List Token) : List Char := ts.flatMap Token.chars

theorem attrs_markup (ts : List Token) :
    (markup ts).flatMap Token.attrs = ts.flatMap Token.attrs := by
  induction ts with
  | nil => rfl
  | cons t ts ih =>
    cases t with
    | text chars => exact ih
    | startTag tag => exact congrArg (tag.attrs ++ ·) ih
    | endTag name => exact ih

namespace State

variable (s : State)

/-- The tokens with the text that was read last. -/
def flush : List Token := if s.chars = [] then s.tokens else s.tokens ++ [.text s.chars]

def start (tag : Tag) : State :=
  { mode := .data, stack := tag.name :: s.stack, tokens := s.tokens ++ [.startTag tag] }

def stop (name : List Char) : Option State :=
  match s.stack with
  | [] => none
  | inner :: stack =>
    if inner = name then
      some { mode := .data, stack := stack, tokens := s.tokens ++ [.endTag name] }
    else none

def step (s : State) (c : Char) : Option State :=
  match s.mode with
  | .data =>
    if c = '<' then some { s with mode := .tagOpen, chars := [], tokens := s.flush }
    else some { s with chars := s.chars ++ [c] }
  | .tagOpen =>
    if c = '/' then some { s with mode := .endName [] }
    else if c.isAlpha then some { s with mode := .tagName [c] }
    else none
  | .tagName name =>
    if c = '>' then some (s.start ⟨name, []⟩)
    else if blank c then some { s with mode := .beforeAttr ⟨name, []⟩ }
    else if c.isAlphanum then some { s with mode := .tagName (name ++ [c]) }
    else none
  | .beforeAttr tag =>
    if c = '>' then some (s.start tag)
    else if blank c then some s
    else if c.isAlpha then some { s with mode := .attrName tag [c] }
    else none
  | .attrName tag name =>
    if c = '=' then some { s with mode := .beforeValue tag name }
    else if c = '>' then some (s.start (tag.add name []))
    else if blank c then some { s with mode := .beforeAttr (tag.add name []) }
    else if c.isAlphanum then some { s with mode := .attrName tag (name ++ [c]) }
    else none
  | .beforeValue tag name =>
    if c = '"' ∨ c = '\'' then some { s with mode := .value tag name c [] } else none
  | .value tag name quote chars =>
    if c = quote then some { s with mode := .afterValue (tag.add name chars) }
    else some { s with mode := .value tag name quote (chars ++ [c]) }
  | .afterValue tag =>
    if c = '>' then some (s.start tag)
    else if blank c then some { s with mode := .beforeAttr tag }
    else none
  | .endName name =>
    if c = '>' then s.stop name
    else if c.isAlphanum then some { s with mode := .endName (name ++ [c]) }
    else none

/-- The tokens at the end of a text, if it ends outside of tags and elements. -/
def finish : Option (List Token) := if s.mode = .data ∧ s.stack = [] then some s.flush else none

end State

/-- The tokens of a text, with references as they are written. -/
def tokens (cs : List Char) : Option (List Token) := (run State.step {} cs).bind State.finish

/-- What a reference stands for, from the characters behind its ampersand: the characters it
means, and how many it takes up. -/
structure Dialect where
  reference : List Char → Option (List Char × ℕ)
  amp : ∀ rest, reference ("amp;".toList ++ rest) = some (['&'], 4)
  lt : ∀ rest, reference ("lt;".toList ++ rest) = some (['<'], 3)
  gt : ∀ rest, reference ("gt;".toList ++ rest) = some (['>'], 3)
  shrinks : ∀ cs out n, reference cs = some (out, n) → n ≤ cs.length ∧ out.length ≤ n + 1

namespace Dialect

variable (d : Dialect)

/-- Decode references, from behind `n` characters. -/
def unescapeFrom : ℕ → List Char → List Char
  | _, [] => []
  | n + 1, _ :: cs => unescapeFrom n cs
  | 0, c :: cs =>
    if c = '&' then
      match d.reference cs with
      | some (out, n) => out ++ unescapeFrom n cs
      | none => c :: unescapeFrom 0 cs
    else c :: unescapeFrom 0 cs

def unescape (cs : List Char) : List Char := d.unescapeFrom 0 cs

def decode : Token → Token
  | .text chars => .text (d.unescape chars)
  | .startTag tag => .startTag { tag with attrs := tag.attrs.map fun a => (a.1, d.unescape a.2) }
  | .endTag name => .endTag name

def parse (cs : List Char) : Option (List Token) := (tokens cs).map fun ts => ts.map d.decode

/-- The four references that are known by name. -/
def namedReference : List Char → Option (List Char × ℕ)
  | 'a' :: 'm' :: 'p' :: ';' :: _ => some (['&'], 4)
  | 'l' :: 't' :: ';' :: _ => some (['<'], 3)
  | 'g' :: 't' :: ';' :: _ => some (['>'], 3)
  | 'q' :: 'u' :: 'o' :: 't' :: ';' :: _ => some (['"'], 5)
  | _ => none

def named : Dialect where
  reference := namedReference
  amp _ := rfl
  lt _ := rfl
  gt _ := rfl
  shrinks cs out n h := by
    unfold namedReference at h
    split at h
    all_goals first
      | (obtain ⟨rfl, rfl⟩ := Prod.mk.inj (Option.some.inj h); simp)
      | cases h

end Dialect

section Unescape

variable {d : Dialect} {a b cs : List Char}

theorem unescapeFrom_eq (n : ℕ) (cs : List Char) :
    d.unescapeFrom n cs = d.unescape (cs.drop n) := by
  induction n generalizing cs with
  | zero => rfl
  | succ n ih =>
    cases cs with
    | nil => rfl
    | cons c cs => exact ih cs

@[simp] theorem unescape_nil : d.unescape [] = [] := rfl

theorem unescape_cons {c : Char} (h : c ≠ '&') (cs : List Char) :
    d.unescape (c :: cs) = c :: d.unescape cs := if_neg h

theorem unescape_reference {out : List Char} {n : ℕ} (h : d.reference cs = some (out, n)) :
    d.unescape ('&' :: cs) = out ++ d.unescape (cs.drop n) := by
  rw [← unescapeFrom_eq]
  simp only [Dialect.unescape, Dialect.unescapeFrom, h, if_true]

theorem unescape_literal (h : d.reference cs = none) :
    d.unescape ('&' :: cs) = '&' :: d.unescape cs := by
  simp only [Dialect.unescape, Dialect.unescapeFrom, h, if_true]

theorem unescape_append (h : '&' ∉ a) (b : List Char) :
    d.unescape (a ++ b) = a ++ d.unescape b := by
  induction a with
  | nil => rfl
  | cons c a ih =>
    rw [List.mem_cons, not_or] at h
    rw [List.cons_append, unescape_cons (Ne.symm h.1), ih h.2, List.cons_append]

theorem length_unescape_le (cs : List Char) : (d.unescape cs).length ≤ cs.length := by
  induction hn : cs.length using Nat.strongRecOn generalizing cs with
  | ind n ih =>
    cases cs with
    | nil => simp
    | cons c cs =>
      rw [List.length_cons] at hn
      by_cases hc : c = '&'
      · subst hc
        cases hr : d.reference cs with
        | none =>
          have := ih cs.length (by omega) cs rfl
          rw [unescape_literal hr, List.length_cons]
          omega
        | some r =>
          obtain ⟨out, k⟩ := r
          obtain ⟨hk, hout⟩ := d.shrinks _ _ _ hr
          have hlen := List.length_drop (i := k) (l := cs)
          have := ih (cs.drop k).length (by omega) _ rfl
          rw [unescape_reference hr, List.length_append]
          omega
      · have := ih cs.length (by omega) cs rfl
        rw [unescape_cons hc, List.length_cons]
        omega

theorem attrs_decode (ts : List Token) : (ts.map d.decode).flatMap Token.attrs =
    (ts.flatMap Token.attrs).map fun a => (a.1, d.unescape a.2) := by
  induction ts with
  | nil => rfl
  | cons t ts ih =>
    rw [List.map_cons, List.flatMap_cons, List.flatMap_cons, List.map_append, ih]
    cases t with
    | text chars => rfl
    | startTag tag => rfl
    | endTag name => rfl

end Unescape

theorem prefix_append_cases {α : Type*} {x a b : List α} (h : x <+: a ++ b) :
    x <+: a ∨ ∃ y, x = a ++ y ∧ y <+: b := by
  rcases List.prefix_or_prefix_of_prefix h (List.prefix_append a b) with h' | ⟨y, rfl⟩
  · exact Or.inl h'
  · exact Or.inr ⟨y, rfl, (List.prefix_append_right_inj a).mp h⟩

/-- Every ampersand starts a reference with one of these names. -/
def Complete (names : List (List Char)) (cs : List Char) : Prop :=
  ∀ p q, cs = p ++ '&' :: q → ∃ n ∈ names, n <+: q

section Complete

variable {names : List (List Char)} {a b : List Char}

theorem complete_of_not_mem (h : '&' ∉ a) : Complete names a := by
  rintro p q rfl
  exact absurd (List.mem_append_right p List.mem_cons_self) h

theorem Complete.append (ha : Complete names a) (hb : Complete names b) :
    Complete names (a ++ b) := by
  intro p q h
  rcases List.append_eq_append_iff.mp h with ⟨p', rfl, rfl⟩ | ⟨q', rfl, hq⟩
  · exact hb p' q rfl
  · cases q' with
    | nil =>
      obtain ⟨n, hn, hp⟩ := hb [] q (by simpa using hq.symm)
      exact ⟨n, hn, hp⟩
    | cons c q' =>
      obtain ⟨rfl, rfl⟩ := List.cons.inj hq
      obtain ⟨n, hn, hp⟩ := ha p q' rfl
      exact ⟨n, hn, hp.trans (List.prefix_append q' b)⟩

theorem complete_reference {n : List Char} (hn : n ∈ names) (ha : '&' ∉ n) :
    Complete names ('&' :: n) := by
  intro p q h
  cases p with
  | nil =>
    obtain rfl := (List.cons.inj h).2
    exact ⟨n, hn, List.prefix_rfl⟩
  | cons c p =>
    obtain ⟨-, rfl⟩ := List.cons.inj h
    exact absurd (List.mem_append_right p List.mem_cons_self) ha

theorem Complete.of_append (h : Complete names (a ++ b)) : Complete names b := by
  rintro p q rfl
  exact h (a ++ p) q (by simp)

theorem complete_append_iff (ha : Complete names a) :
    Complete names (a ++ b) ↔ Complete names b := ⟨Complete.of_append, ha.append⟩

theorem Complete.rdropWhile {space : Char → Bool} (h : Complete names a)
    (hs : ∀ n ∈ names, ∀ c ∈ n, space c = false) : Complete names (a.rdropWhile space) := by
  obtain ⟨w, hw⟩ : ∃ w, a = a.rdropWhile space ++ w ∧ ∀ c ∈ w, space c = true :=
    ⟨a.rtakeWhile space, List.rdropWhile_append_rtakeWhile.symm,
      fun c hc => List.mem_rtakeWhile_imp hc⟩
  intro p q hpq
  obtain ⟨n, hn, hp⟩ := h p (q ++ w) (by rw [hw.1, hpq]; simp)
  refine ⟨n, hn, ?_⟩
  rcases prefix_append_cases hp with hp | ⟨y, rfl, hy⟩
  · exact hp
  · cases y with
    | nil => simp
    | cons c y =>
      have hc := hs _ hn c (List.mem_append_right q List.mem_cons_self)
      rw [hw.2 c (hy.subset List.mem_cons_self)] at hc
      cases hc

/-- A reference that is cut short is not complete. -/
theorem not_complete_of_cut {t rest : List Char} {c : Char} (hc : ∀ n ∈ names, c ∉ n)
    (ht : ∀ n ∈ names, ¬ n <+: t) (p : List Char) :
    ¬ Complete names (p ++ '&' :: (t ++ c :: rest)) := by
  intro h
  obtain ⟨n, hn, hp⟩ := h p _ rfl
  rcases prefix_append_cases hp with hp | ⟨q, rfl, hq⟩
  · exact ht n hn hp
  · cases q with
    | nil => exact ht _ hn (by simp)
    | cons x q =>
      obtain ⟨rfl, -⟩ := List.cons_prefix_cons.mp hq
      exact hc _ hn (List.mem_append_right t List.mem_cons_self)

end Complete

section Runs

variable {s s' : State} {cs : List Char} {c : Char} {tag : Tag} {name : List Char}

theorem run_data (hm : s.mode = .data) (h : '<' ∉ cs) :
    run State.step s cs = some { s with chars := s.chars ++ cs } := by
  induction cs generalizing s with
  | nil => simp [run]
  | cons c cs ih =>
    rw [List.mem_cons, not_or] at h
    have hstep : s.step c = some { s with chars := s.chars ++ [c] } := by
      simp only [State.step, hm]
      exact if_neg (Ne.symm h.1)
    rw [run, hstep, Option.bind_some, ih (s := { s with chars := s.chars ++ [c] }) hm h.2]
    simp

theorem run_value {quote : Char} {chars : List Char} (hm : s.mode = .value tag name quote chars)
    (h : quote ∉ cs) :
    run State.step s cs = some { s with mode := .value tag name quote (chars ++ cs) } := by
  induction cs generalizing s chars with
  | nil => simp [run, ← hm]
  | cons c cs ih =>
    rw [List.mem_cons, not_or] at h
    have hstep : s.step c = some { s with mode := .value tag name quote (chars ++ [c]) } := by
      simp only [State.step, hm]
      exact if_neg (Ne.symm h.1)
    rw [run, hstep, Option.bind_some, ih rfl h.2]
    simp

/-! Attributes that have been read stay. -/

def Mode.attrs : Mode → List (List Char × List Char)
  | .beforeAttr tag | .attrName tag _ | .beforeValue tag _ | .value tag _ _ _
  | .afterValue tag => tag.attrs
  | _ => []

def State.attrs (s : State) : List (List Char × List Char) :=
  s.tokens.flatMap Token.attrs ++ s.mode.attrs

@[simp] theorem attrs_flush (s : State) :
    s.flush.flatMap Token.attrs = s.tokens.flatMap Token.attrs := by
  unfold State.flush
  split <;> simp [Token.attrs]

theorem attrs_stop (h : s.stop name = some s') : s'.attrs = s.tokens.flatMap Token.attrs := by
  unfold State.stop at h
  split at h
  · cases h
  · split at h
    · obtain rfl := Option.some.inj h
      simp [State.attrs, Token.attrs, Mode.attrs]
    · cases h

/-- What a character does: it leaves the open elements alone, or it ends a tag. -/
inductive Step (s : State) (c : Char) : State → Prop
  | stay {t : State} (hstack : t.stack = s.stack) (hattrs : s.attrs ⊆ t.attrs) : Step s c t
  | start (tag : Tag) (hc : c = '>') (hattrs : s.mode.attrs ⊆ tag.attrs) : Step s c (s.start tag)
  | stop {t : State} {name : List Char} (hc : c = '>') (hattrs : s.mode.attrs = [])
      (h : s.stop name = some t) : Step s c t

theorem Step.of_mode {m : Mode} (h : s.mode.attrs ⊆ m.attrs) : Step s c { s with mode := m } :=
  .stay rfl fun _ hx => (List.mem_append.mp hx).elim (List.mem_append_left _)
    fun hx => List.mem_append_right _ (h hx)

theorem step_cases (h : s.step c = some s') : Step s c s' := by
  have hadd : ∀ (tag : Tag) (name value : List Char), tag.attrs ⊆ (tag.add name value).attrs :=
    fun tag name value => List.subset_append_left _ _
  have hattrs : ∀ {m : Mode}, s.mode = m → s.mode.attrs = m.attrs := congrArg Mode.attrs
  have hsame : ∀ {m m' : Mode}, s.mode = m → m.attrs = m'.attrs → Step s c { s with mode := m' } :=
    fun hm h => .of_mode ((hattrs hm).trans h ▸ List.Subset.refl _)
  unfold State.step at h
  split at h
  case h_1 hm =>
    split at h <;> obtain rfl := Option.some.inj h
    · exact .stay rfl (by simp [State.attrs, Mode.attrs, hm])
    · exact .stay rfl (by simp [State.attrs])
  case h_2 hm =>
    split at h
    · obtain rfl := Option.some.inj h
      exact hsame hm rfl
    · split at h <;> cases h
      exact hsame hm rfl
  case h_3 name hm =>
    split at h
    · obtain rfl := Option.some.inj h
      exact .start _ ‹_› (by simp [hm, Mode.attrs])
    · split at h
      · obtain rfl := Option.some.inj h
        exact hsame hm rfl
      · split at h <;> cases h
        exact hsame hm rfl
  case h_4 tag hm =>
    split at h
    · obtain rfl := Option.some.inj h
      exact .start _ ‹_› (by simp [hm, Mode.attrs])
    · split at h
      · obtain rfl := Option.some.inj h
        exact .stay rfl (List.Subset.refl _)
      · split at h <;> cases h
        exact hsame hm rfl
  case h_5 tag name hm =>
    split at h
    · obtain rfl := Option.some.inj h
      exact hsame hm rfl
    · split at h
      · obtain rfl := Option.some.inj h
        exact .start _ ‹_› (hattrs hm ▸ hadd tag name [])
      · split at h
        · obtain rfl := Option.some.inj h
          exact .of_mode (hattrs hm ▸ hadd tag name [])
        · split at h <;> cases h
          exact hsame hm rfl
  case h_6 tag name hm =>
    split at h <;> cases h
    exact hsame hm rfl
  case h_7 tag name quote chars hm =>
    split at h <;> obtain rfl := Option.some.inj h
    · exact .of_mode (hattrs hm ▸ hadd tag name chars)
    · exact hsame hm rfl
  case h_8 tag hm =>
    split at h
    · obtain rfl := Option.some.inj h
      exact .start _ ‹_› (by simp [hm, Mode.attrs])
    · split at h <;> cases h
      exact hsame hm rfl
  case h_9 name hm =>
    split at h
    · exact .stop ‹_› (hattrs hm) h
    · split at h <;> cases h
      exact hsame hm rfl

theorem step_attrs (h : s.step c = some s') : s.attrs ⊆ s'.attrs := by
  cases step_cases h with
  | stay _ hattrs => exact hattrs
  | start tag _ hattrs =>
    rintro x hx
    have hstart : (s.start tag).attrs = s.tokens.flatMap Token.attrs ++ tag.attrs := by
      simp [State.attrs, State.start, Token.attrs, Mode.attrs]
    rw [hstart]
    exact (List.mem_append.mp hx).elim (List.mem_append_left _)
      fun hx => List.mem_append_right _ (hattrs hx)
  | stop _ hattrs hstop =>
    rw [attrs_stop hstop, State.attrs, hattrs, List.append_nil]
    exact List.Subset.refl _

theorem run_attrs (h : run State.step s cs = some s') : s.attrs ⊆ s'.attrs := by
  induction cs generalizing s with
  | nil =>
    rw [Option.some.inj h]
    exact fun _ hx => hx
  | cons c cs ih =>
    obtain ⟨t, ht, h⟩ := Option.bind_eq_some_iff.mp h
    exact fun _ hx => ih h (step_attrs ht hx)

theorem finish_attrs {ts : List Token} (h : s.finish = some ts) :
    s.attrs ⊆ ts.flatMap Token.attrs := by
  unfold State.finish at h
  split at h
  · rename_i hm
    obtain rfl := Option.some.inj h
    rw [State.attrs, hm.1, attrs_flush]
    simp [Mode.attrs]
  · cases h

/-! Elements. -/

theorem step_stack (h : s.step c = some s') (hc : c ≠ '>') : s'.stack = s.stack := by
  cases step_cases h with
  | stay hstack _ => exact hstack
  | start _ hc' _ => exact absurd hc' hc
  | stop hc' _ _ => exact absurd hc' hc

theorem run_stack (h : run State.step s cs = some s') (hc : '>' ∉ cs) : s'.stack = s.stack := by
  induction cs generalizing s with
  | nil => rw [Option.some.inj h]
  | cons c cs ih =>
    rw [List.mem_cons, not_or] at hc
    obtain ⟨t, ht, h⟩ := Option.bind_eq_some_iff.mp h
    rw [ih h hc.2, step_stack ht (Ne.symm hc.1)]

theorem finish_of_open (hs : s.stack ≠ []) (hc : '>' ∉ cs) :
    (run State.step s cs).bind State.finish = none := by
  cases h : run State.step s cs with
  | none => rfl
  | some t => exact if_neg fun ht => hs (run_stack h hc ▸ ht.2)

/-- So is one that ends within a tag that leads from element to element, or right behind it. -/
theorem finish_of_cut {t : State} {x rest : List Char} (hs : s.stack ≠ []) (ht : t.stack ≠ [])
    (hrun : run State.step s (cs ++ ['>']) = some t) (hcs : '>' ∉ cs) (hx : x <+: cs ++ ['>'])
    (hrest : '>' ∉ rest) : (run State.step s (x ++ rest)).bind State.finish = none := by
  rcases List.prefix_concat_iff.mp hx with rfl | hx
  · rw [run_append, hrun, Option.bind_some]
    exact finish_of_open ht hrest
  · apply finish_of_open hs
    rw [List.mem_append, not_or]
    exact ⟨fun h => hcs (hx.subset h), hrest⟩

end Runs

end Html
