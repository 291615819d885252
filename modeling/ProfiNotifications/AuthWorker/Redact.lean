import ProfiNotifications.Foundations.Pattern

/-! # Redaction of response bodies

A response body is logged with its JWTs replaced, and cut. Texts are the bytes of their
encoding, and the pattern's characters are single bytes.
-/

namespace ProfiNotifications.AuthWorker

open Pattern

def maxBodyPreview : ℕ := 1000

def ascii (s : String) : List UInt8 := s.toList.map Char.toUInt8

/-- The bytes of `[a-zA-Z0-9_-]`. -/
def base64Url (b : UInt8) : Bool :=
  let c := Char.ofNat b.toNat
  c.isAlphanum || c = '_' || c = '-'

def literal (c : Char) : Atom UInt8 := .one fun b => b = c.toUInt8

/-- `eyJ[a-zA-Z0-9_-]+\.[a-zA-Z0-9_-]+\.[a-zA-Z0-9_-]+` -/
def jwtPattern : List (Atom UInt8) :=
  [literal 'e', literal 'y', literal 'J', .run base64Url, literal '.', .run base64Url,
    literal '.', .run base64Url]

def jwtRedacted : List UInt8 := ascii "[JWT_REDACTED]"

/-- Replace the JWTs of a body, and cut what is too long. -/
def redactBody (text : List UInt8) : List UInt8 :=
  let redacted := replaceAll jwtPattern jwtRedacted text
  if maxBodyPreview < redacted.length then redacted.take maxBodyPreview ++ ascii "..."
  else redacted

def Segment (s : List UInt8) : Prop := s ≠ [] ∧ ∀ b ∈ s, base64Url b = true

/-- Three segments between dots, the first one behind `eyJ`. -/
def IsJwt (w : List UInt8) : Prop :=
  ∃ header claims signature, Segment header ∧ Segment claims ∧ Segment signature ∧
    w = ascii "eyJ" ++ (header ++ (ascii "." ++ (claims ++ (ascii "." ++ signature))))

/-- What becomes of a logged body: it shows no JWT, and is otherwise the start of the body. -/
structure Redacts (text output : List UInt8) : Prop where
  hidden : ∀ w, w <:+: output → ¬ IsJwt w
  kept : ∃ redacted, Replaced jwtPattern jwtRedacted text redacted ∧
    (redacted.length ≤ maxBodyPreview ∧ output = redacted ∨
      maxBodyPreview < redacted.length ∧ output = redacted.take maxBodyPreview ++ ascii "...")

variable {text w : List UInt8} {as : List (Atom UInt8)}

theorem matches_literal_iff {c : Char} : Matches (literal c :: as) w ↔
    ∃ w', w = c.toUInt8 :: w' ∧ Matches as w' := by
  rw [literal, matches_one_iff]
  constructor
  · rintro ⟨b, w', rfl, hb, h⟩
    exact ⟨w', by rw [of_decide_eq_true hb], h⟩
  · rintro ⟨w', rfl, h⟩
    exact ⟨_, w', rfl, by simp, h⟩

theorem matches_jwtPattern_iff : Matches jwtPattern w ↔ IsJwt w := by
  simp only [jwtPattern, matches_literal_iff, matches_run_iff, matches_nil_iff, IsJwt, Segment]
  constructor
  · rintro ⟨_, rfl, _, rfl, _, rfl, header, _, rfl, hh, hh', _, rfl, claims, _, rfl, hc, hc', _,
      rfl, signature, _, rfl, hs, hs', rfl⟩
    exact ⟨header, claims, signature, ⟨hh, hh'⟩, ⟨hc, hc'⟩, ⟨hs, hs'⟩, by simp [ascii]⟩
  · rintro ⟨header, claims, signature, ⟨hh, hh'⟩, ⟨hc, hc'⟩, ⟨hs, hs'⟩, rfl⟩
    exact ⟨_, rfl, _, rfl, _, rfl, header, _, rfl, hh, hh', _, rfl, claims, _, rfl, hc, hc', _,
      rfl, signature, [], by simp, hs, hs', rfl⟩

theorem accepts_eq_false {a : Atom UInt8} {bytes : List UInt8}
    (h : (bytes.all fun b => !a.accepts b) = true) : ∀ b ∈ bytes, a.accepts b = false := by
  intro b hb
  have hb := List.all_eq_true.mp h b hb
  simpa using hb

theorem noMatch_replaced {redacted : List UInt8}
    (h : Replaced jwtPattern jwtRedacted text redacted) : NoMatch jwtPattern redacted := by
  have hmarker : jwtRedacted = '['.toUInt8 :: (ascii "JWT_REDACTED" ++ [']'.toUInt8]) := by
    decide
  rw [hmarker] at h
  apply h.noMatch
  · simp [jwtPattern, literal]; decide
  · simp [jwtPattern, literal]; decide
  · apply noMatch_of_head
    apply accepts_eq_false
    decide

/-- The dots behind a cut complete no JWT, which ends with a base64url character. -/
theorem noMatch_cut {redacted : List UInt8} (h : NoMatch jwtPattern redacted) (n : ℕ) :
    NoMatch jwtPattern (redacted.take n ++ ascii "...") := by
  apply (h.of_isInfix (List.take_prefix n redacted).isInfix).append
  have hlast : jwtPattern.getLast? = some (.run base64Url) := rfl
  rintro b hb a ha
  obtain rfl := Option.some.inj (hlast.symm.trans ha)
  apply accepts_eq_false _ b hb
  decide

/-- A redacted body shows no JWT and is otherwise unchanged up to the cut. -/
theorem redactBody_redacts (text : List UInt8) : Redacts text (redactBody text) := by
  have hne : jwtPattern ≠ [] := by simp [jwtPattern]
  have h := replaced_replaceAll hne jwtRedacted text
  have hno := noMatch_replaced h
  unfold redactBody
  dsimp only
  split
  · rename_i hlong
    refine ⟨fun w hw hjwt => ?_, _, h, Or.inr ⟨hlong, rfl⟩⟩
    exact noMatch_cut hno _ w hw (matches_jwtPattern_iff.mpr hjwt)
  · rename_i hshort
    refine ⟨fun w hw hjwt => ?_, _, h, Or.inl ⟨Nat.le_of_not_lt hshort, rfl⟩⟩
    exact hno w hw (matches_jwtPattern_iff.mpr hjwt)

end ProfiNotifications.AuthWorker
