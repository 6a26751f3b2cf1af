import Mathlib

/-!
# Two computations in lockstep

A statement about two runs of one program relates two computations that may fail. `Lockstep R` relates
them when both fail with the same error or both succeed with answers related by `R`. The rule for a
sequence is `Lockstep.bind`: relate the first parts, and relate the rests for related answers. A part
that is the same in both runs is `Lockstep.bind_same`.
-/

set_option autoImplicit false

/-- Both computations fail with one error, or both succeed with related answers. -/
inductive Lockstep {ε α β : Type} (R : α → β → Prop) : Except ε α → Except ε β → Prop
  | ok {a : α} {b : β} (related : R a b) : Lockstep R (.ok a) (.ok b)
  | error (e : ε) : Lockstep R (.error e) (.error e)

namespace Lockstep

variable {ε α β γ δ : Type} {R : α → β → Prop} {Q : γ → δ → Prop}

/-- The rule for a sequence. -/
theorem bind {x : Except ε α} {y : Except ε β} {f : α → Except ε γ} {g : β → Except ε δ}
    (h : Lockstep R x y) (rest : ∀ a b, R a b → Lockstep Q (f a) (g b)) :
    Lockstep Q (x >>= f) (y >>= g) := by
  cases h with
  | ok related => exact rest _ _ related
  | error e => exact .error e

/-- A first part that both runs share. -/
theorem bind_same (x : Except ε α) {f : α → Except ε γ} {g : α → Except ε δ}
    (rest : ∀ a, x = .ok a → Lockstep Q (f a) (g a)) : Lockstep Q (x >>= f) (x >>= g) := by
  cases x with
  | ok a => exact rest a rfl
  | error e => exact .error e

/-- A loop, over states that stay related. -/
theorem foldlM {f : α → γ → Except ε α} {g : β → γ → Except ε β}
    (step : ∀ a b c, R a b → Lockstep R (f a c) (g b c)) (l : List γ) {a : α} {b : β} (h : R a b) :
    Lockstep R (l.foldlM f a) (l.foldlM g b) := by
  induction l generalizing a b with
  | nil => exact .ok h
  | cons c rest ih =>
    rw [List.foldlM_cons, List.foldlM_cons]
    exact (step a b c h).bind fun a' b' h' => ih h'

/-- Where the first one succeeds, the second one does, and their answers are related. -/
theorem of_ok {x : Except ε α} {y : Except ε β} (h : Lockstep R x y) {a : α} (hx : x = .ok a) :
    ∃ b, y = .ok b ∧ R a b := by
  cases h with
  | ok related =>
    cases hx
    exact ⟨_, rfl, related⟩
  | error e => cases hx

/-- Related answers with one visible part show the same part, and the same error. -/
theorem map_eq {x : Except ε α} {y : Except ε β} (h : Lockstep R x y) {f : α → γ} {g : β → γ}
    (visible : ∀ a b, R a b → f a = g b) : x.map f = y.map g := by
  cases h with
  | ok related => exact congrArg Except.ok (visible _ _ related)
  | error e => rfl

end Lockstep
