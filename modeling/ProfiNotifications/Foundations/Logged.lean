import Mathlib.Data.List.Forall2

/-! # Calls with a log

A computation that calls out leaves a log of its calls, whether it returns or raises, and
catching an exception keeps what was logged. A loop whose body neither raises nor breaks
logs what its passes log, one after the other.
-/

theorem List.mapM_eq_ok {ε α β : Type} {f : α → Except ε β} {as : List α} {bs : List β} :
    as.mapM f = .ok bs ↔ Forall₂ (fun a b => f a = .ok b) as bs := by
  induction as generalizing bs with
  | nil => simp [pure, Except.pure, eq_comm]
  | cons a as ih =>
    rw [mapM_cons, forall₂_cons_left_iff]
    simp only [← ih]
    cases f a with
    | error e => simp [bind, Except.bind]
    | ok b =>
      cases as.mapM f with
      | error e => simp [bind, Except.bind]
      | ok bs' => simp [bind, Except.bind, pure, Except.pure, eq_comm]

/-- A result, or an exception, and the calls that led to it. -/
@[ext] structure Logged (τ ε α : Type) where
  log : List τ
  result : Except ε α

namespace Logged

variable {τ ε α β ι : Type}

def call (event : τ) (answer : Except ε α) : Logged τ ε α := ⟨[event], answer⟩

def of (result : Except ε α) : Logged τ ε α := ⟨[], result⟩

instance : Monad (Logged τ ε) where
  pure a := ⟨[], .ok a⟩
  bind x f :=
    match x.result with
    | .ok a => ⟨x.log ++ (f a).log, (f a).result⟩
    | .error e => ⟨x.log, .error e⟩

instance : MonadExceptOf ε (Logged τ ε) where
  throw e := ⟨[], .error e⟩
  tryCatch x handler :=
    match x.result with
    | .ok _ => x
    | .error e => ⟨x.log ++ (handler e).log, (handler e).result⟩

@[simp] theorem pure_eq (a : α) : (pure a : Logged τ ε α) = ⟨[], .ok a⟩ := rfl

@[simp] theorem bind_ok (log : List τ) (a : α) (f : α → Logged τ ε β) :
    (⟨log, .ok a⟩ : Logged τ ε α) >>= f = ⟨log ++ (f a).log, (f a).result⟩ := rfl

@[simp] theorem bind_error (log : List τ) (e : ε) (f : α → Logged τ ε β) :
    (⟨log, .error e⟩ : Logged τ ε α) >>= f = ⟨log, .error e⟩ := rfl

@[simp] theorem tryCatch_ok (log : List τ) (a : α) (handler : ε → Logged τ ε α) :
    tryCatch (⟨log, .ok a⟩ : Logged τ ε α) handler = ⟨log, .ok a⟩ := rfl

@[simp] theorem tryCatch_error (log : List τ) (e : ε) (handler : ε → Logged τ ε α) :
    tryCatch (⟨log, .error e⟩ : Logged τ ε α) handler =
      ⟨log ++ (handler e).log, (handler e).result⟩ := rfl

theorem forIn_yield {body : ι → β → Logged τ ε (ForInStep β)} {events : ι → List τ}
    {step : ι → β → β} (h : ∀ x b, body x b = ⟨events x, .ok (.yield (step x b))⟩) (xs : List ι)
    (b : β) : forIn xs b body = ⟨xs.flatMap events, .ok (xs.foldl (fun b x => step x b) b)⟩ := by
  induction xs generalizing b with
  | nil => simp
  | cons x xs ih => simp [h, ih]

end Logged
