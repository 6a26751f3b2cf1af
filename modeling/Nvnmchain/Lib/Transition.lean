import Mathlib

/-!
# Runs of a transition system

A system is a predicate for its first states and a relation for its steps. A state is reachable when
a finite run leads to it. Two induction rules are stated once here: `Reachable.invariant` for a
property of single states, and `Reachable.history` for a relation between a state and every later
state of its run.
-/

set_option autoImplicit false

namespace Transition

variable {σ : Type} {init : σ → Prop} {step step' : σ → σ → Prop}

/-- The states a finite run leads to. -/
def Reachable (init : σ → Prop) (step : σ → σ → Prop) (s : σ) : Prop :=
  ∃ s₀, init s₀ ∧ Relation.ReflTransGen step s₀ s

/-- A first state is reachable. -/
theorem Reachable.of_init {s : σ} (h : init s) : Reachable init step s := ⟨s, h, .refl⟩

/-- One step more. -/
theorem Reachable.tail {s s' : σ} (h : Reachable init step s) (h' : step s s') :
    Reachable init step s' := by
  obtain ⟨s₀, h₀, run⟩ := h
  exact ⟨s₀, h₀, run.tail h'⟩

/-- A run more. -/
theorem Reachable.trans {s s' : σ} (h : Reachable init step s)
    (run : Relation.ReflTransGen step s s') : Reachable init step s' := by
  obtain ⟨s₀, h₀, run₀⟩ := h
  exact ⟨s₀, h₀, run₀.trans run⟩

/-- A system with more steps reaches more states. -/
theorem Reachable.mono {s : σ} (hsub : ∀ s s', step s s' → step' s s')
    (h : Reachable init step s) : Reachable init step' s := by
  obtain ⟨s₀, h₀, run⟩ := h
  exact ⟨s₀, h₀, Relation.ReflTransGen.mono hsub _ _ run⟩

/-- **The invariant rule.** What holds first, and is kept by each step from a reachable state, holds
in every reachable state. -/
theorem Reachable.invariant {P : σ → Prop} (first : ∀ s, init s → P s)
    (kept : ∀ s s', Reachable init step s → P s → step s s' → P s') {s : σ}
    (h : Reachable init step s) : P s := by
  obtain ⟨s₀, h₀, run⟩ := h
  induction run with
  | refl => exact first s₀ h₀
  | tail run hstep ih => exact kept _ _ ⟨s₀, h₀, run⟩ ih hstep

/-- **The history rule.** A reflexive and transitive relation that each step from a reachable state
satisfies holds between a reachable state and every later one. -/
theorem Reachable.history {R : σ → σ → Prop} (same : ∀ s, R s s)
    (compose : ∀ a b c, R a b → R b c → R a c)
    (kept : ∀ s s', Reachable init step s → step s s' → R s s') {s s' : σ}
    (h : Reachable init step s) (run : Relation.ReflTransGen step s s') : R s s' := by
  induction run with
  | refl => exact same s
  | tail run hstep ih => exact compose _ _ _ ih (kept _ _ (h.trans run) hstep)

end Transition
