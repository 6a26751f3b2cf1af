import Mathlib

/-!
# Machines that answer or refuse, and simulation between them

A machine takes an input and answers it, going to a next state, or refuses it and stays. `answers` is
what it answers to a list of inputs, and `after` is where it then is.

Two machines are related state by state. When related states answer an input alike, or both refuse it,
and go to related states (`Alike`), then they answer every list of inputs alike (`Simulates.answers_eq`)
and stay related (`Simulates.after`). The relation may hold for some inputs only: `Along` says that a
condition holds of every input of a list in the state it meets.
-/

set_option autoImplicit false

namespace Simulation

variable {ι ο σ τ : Type}

/-- A machine: an answer and a next state, or a refusal. -/
abbrev Machine (ι ο σ : Type) := ι → σ → Option (ο × σ)

/-- The state after an input. -/
def next (m : Machine ι ο σ) (i : ι) (s : σ) : σ := ((m i s).map Prod.snd).getD s

/-- The state after a list of inputs. -/
def after (m : Machine ι ο σ) : List ι → σ → σ
  | [], s => s
  | i :: rest, s => after m rest (next m i s)

/-- The answers to a list of inputs; a refused input has none. -/
def answers (m : Machine ι ο σ) : List ι → σ → List (Option ο)
  | [], _ => []
  | i :: rest, s => (m i s).map Prod.fst :: answers m rest (next m i s)

/-- The inputs of a list that are answered. -/
def accepted (m : Machine ι ο σ) : List ι → σ → List ι
  | [], _ => []
  | i :: rest, s =>
    if (m i s).isSome then i :: accepted m rest (next m i s) else accepted m rest (next m i s)

/-- A condition holds of each input of a list, in the state it meets. -/
def Along (m : Machine ι ο σ) (P : ι → σ → Prop) : List ι → σ → Prop
  | [], _ => True
  | i :: rest, s => P i s ∧ Along m P rest (next m i s)

instance decidableAlong (m : Machine ι ο σ) (P : ι → σ → Prop) [∀ i s, Decidable (P i s)] :
    (is : List ι) → (s : σ) → Decidable (Along m P is s)
  | [], _ => .isTrue trivial
  | i :: rest, s =>
    haveI := decidableAlong m P rest (next m i s)
    inferInstanceAs (Decidable (_ ∧ _))

/-- Both refuse, or both answer the same and go to related states. -/
inductive Alike (R : σ → τ → Prop) : Option (ο × σ) → Option (ο × τ) → Prop
  | refused : Alike R none none
  | answered (o : ο) {s : σ} {t : τ} (related : R s t) : Alike R (some (o, s)) (some (o, t))

/-- From related states, and under a condition on the input, both machines do alike. -/
def Simulates (P : ι → σ → Prop) (R : σ → τ → Prop) (m : Machine ι ο σ) (m' : Machine ι ο τ) : Prop :=
  ∀ i s t, P i s → R s t → Alike R (m i s) (m' i t)

namespace Alike

variable {R : σ → τ → Prop} {x : Option (ο × σ)} {y : Option (ο × τ)}

/-- Machines that do alike give the same answer. -/
theorem answer_eq (h : Alike R x y) : x.map Prod.fst = y.map Prod.fst := by
  cases h with
  | refused => rfl
  | answered o related => rfl

/-- Machines that do alike go on to related states. -/
theorem next {s : σ} {t : τ} (h : Alike R x y) (hst : R s t) :
    R ((x.map Prod.snd).getD s) ((y.map Prod.snd).getD t) := by
  cases h with
  | refused => exact hst
  | answered o related => exact related

/-- What holds of the state one machine goes to may be added to the relation. -/
theorem and {Q : σ → Prop} (h : Alike R x y) (hx : ∀ o s, x = some (o, s) → Q s) :
    Alike (fun s t => Q s ∧ R s t) x y := by
  cases h with
  | refused => exact .refused
  | answered o related => exact .answered o ⟨hx o _ rfl, related⟩

end Alike

namespace Simulates

variable {P : ι → σ → Prop} {R : σ → τ → Prop} {m : Machine ι ο σ} {m' : Machine ι ο τ}

/-- **Related machines stay related.** -/
theorem after (h : Simulates P R m m') {is : List ι} {s : σ} {t : τ} (hst : R s t)
    (halong : Along m P is s) : R (after m is s) (after m' is t) := by
  induction is generalizing s t with
  | nil => exact hst
  | cons i rest ih =>
    obtain ⟨hi, hrest⟩ := halong
    exact ih ((h i s t hi hst).next hst) hrest

/-- **Related machines answer alike.** -/
theorem answers_eq (h : Simulates P R m m') {is : List ι} {s : σ} {t : τ} (hst : R s t)
    (halong : Along m P is s) : answers m is s = answers m' is t := by
  induction is generalizing s t with
  | nil => rfl
  | cons i rest ih =>
    obtain ⟨hi, hrest⟩ := halong
    have hlater := ih ((h i s t hi hst).next hst) hrest
    show _ :: _ = _ :: _
    rw [(h i s t hi hst).answer_eq]
    exact congrArg _ hlater

end Simulates

end Simulation
