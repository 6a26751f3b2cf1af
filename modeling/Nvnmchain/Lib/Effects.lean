import Mathlib

/-!
# Computations that may fail and change a state

A computation in `ExceptT ε (StateM σ)` answers a value or an error, and leaves a state in either
case: its `outcome`. A sequence goes on from the state its first part left, or stops with that part's
error (`outcome_bind`).

A computation `Keeps` a part of the state when no outcome of it changes that part. A sequence of
computations that keep a part keeps it. It `Ensures` a relation when every success of it goes from one
state to a related one; a sequence ensures what its parts do, for a relation that is transitive.
-/

set_option autoImplicit false

namespace Effects

variable {ε σ τ α β : Type}

/-- What a computation answers, and the state it leaves. -/
def outcome (c : ExceptT ε (StateM σ) α) (s : σ) : Except ε α × σ := c.run.run s

@[simp]
theorem outcome_pure (a : α) (s : σ) : outcome (pure a : ExceptT ε (StateM σ) α) s = (.ok a, s) := rfl

@[simp]
theorem outcome_get (s : σ) : outcome (get : ExceptT ε (StateM σ) σ) s = (.ok s, s) := rfl

@[simp]
theorem outcome_set (s s' : σ) : outcome (set s' : ExceptT ε (StateM σ) PUnit) s = (.ok (), s') := rfl

/-- A sequence goes on in the state the first part left. -/
theorem outcome_bind (c : ExceptT ε (StateM σ) α) (f : α → ExceptT ε (StateM σ) β) (s : σ) :
    outcome (c >>= f) s =
      match outcome c s with
      | (.ok a, s') => outcome (f a) s'
      | (.error e, s') => (.error e, s') := by
  rw [outcome, ExceptT.run_bind, StateT.run_bind]
  cases hc : outcome c s with
  | mk r s' =>
    rw [outcome] at hc
    rw [hc]
    cases r with
    | ok a => rfl
    | error e => rfl

/-- A sequence whose first part succeeds goes on from there. -/
theorem outcome_bind_ok {c : ExceptT ε (StateM σ) α} {s s' : σ} {a : α}
    (h : outcome c s = (.ok a, s')) (f : α → ExceptT ε (StateM σ) β) :
    outcome (c >>= f) s = outcome (f a) s' := by
  rw [outcome_bind, h]

/-- A sequence whose first part fails stops there. -/
theorem outcome_bind_error {c : ExceptT ε (StateM σ) α} {s s' : σ} {e : ε}
    (h : outcome c s = (.error e, s')) (f : α → ExceptT ε (StateM σ) β) :
    outcome (c >>= f) s = (.error e, s') := by
  rw [outcome_bind, h]

/-- What a successful sequence did: its first part succeeded, and the rest did from there. -/
theorem outcome_bind_eq_ok {c : ExceptT ε (StateM σ) α} {f : α → ExceptT ε (StateM σ) β} {s s' : σ}
    {b : β} (h : outcome (c >>= f) s = (.ok b, s')) :
    ∃ a s₁, outcome c s = (.ok a, s₁) ∧ outcome (f a) s₁ = (.ok b, s') := by
  cases hc : outcome c s with
  | mk r s₁ =>
    cases r with
    | ok a => exact ⟨a, s₁, rfl, (outcome_bind_ok hc f).symm.trans h⟩
    | error e =>
      rw [outcome_bind_error hc] at h
      cases h

/-- What a mapped answer is. -/
theorem outcome_map_eq_ok {c : ExceptT ε (StateM σ) α} {f : α → β} {s s' : σ} {b : β}
    (h : outcome (f <$> c) s = (.ok b, s')) : ∃ a, outcome c s = (.ok a, s') ∧ f a = b := by
  rw [map_eq_pure_bind] at h
  obtain ⟨a, s₁, hc, hpure⟩ := outcome_bind_eq_ok h
  cases hpure
  exact ⟨a, hc, rfl⟩

/-- A computation keeps a part of the state. -/
def Keeps (part : σ → τ) (c : ExceptT ε (StateM σ) α) : Prop := ∀ s, part (outcome c s).2 = part s

variable {part : σ → τ}

theorem keeps_pure (a : α) : Keeps part (pure a : ExceptT ε (StateM σ) α) := fun _ => rfl

/-- A failure changes nothing. -/
theorem keeps_throw (e : ε) : Keeps part (throw e : ExceptT ε (StateM σ) α) := fun _ => rfl

/-- A result that was computed beforehand changes nothing. -/
theorem keeps_mk (x : Except ε α) : Keeps part (ExceptT.mk (pure x) : ExceptT ε (StateM σ) α) :=
  fun _ => rfl

theorem keeps_get : Keeps part (get : ExceptT ε (StateM σ) σ) := fun _ => rfl

/-- **The rule of sequence.** -/
theorem Keeps.bind {c : ExceptT ε (StateM σ) α} {f : α → ExceptT ε (StateM σ) β} (hc : Keeps part c)
    (hf : ∀ a, Keeps part (f a)) : Keeps part (c >>= f) := by
  intro s
  have hfirst := hc s
  cases hout : outcome c s with
  | mk r s' =>
    rw [hout] at hfirst
    cases r with
    | ok a => rw [outcome_bind_ok hout, hf a s', hfirst]
    | error e => rw [outcome_bind_error hout, hfirst]

/-- A change elsewhere keeps the part. -/
theorem keeps_modify {f : σ → σ} (h : ∀ s, part (f s) = part s) :
    Keeps part (modify f : ExceptT ε (StateM σ) PUnit) := h

/-- Every success of a computation goes from one state to a related one. -/
def Ensures (R : σ → σ → Prop) (c : ExceptT ε (StateM σ) α) : Prop :=
  ∀ s a s', outcome c s = (.ok a, s') → R s s'

variable {R : σ → σ → Prop}

/-- A failure ensures anything of its answers. -/
theorem ensures_throw (e : ε) : Ensures R (throw e : ExceptT ε (StateM σ) α) := by
  intro s a s' h
  cases h

/-- A computation that keeps a part ensures what is so for states that agree there. -/
theorem Keeps.ensures {c : ExceptT ε (StateM σ) α} (hc : Keeps part c)
    (hR : ∀ s s', part s' = part s → R s s') : Ensures R c := by
  intro s a s' h
  have hpart := hc s
  rw [h] at hpart
  exact hR s s' hpart

/-- **The rule of sequence.** -/
theorem Ensures.bind {c : ExceptT ε (StateM σ) α} {f : α → ExceptT ε (StateM σ) β} (hc : Ensures R c)
    (hf : ∀ a, Ensures R (f a)) (htrans : ∀ {a b c}, R a b → R b c → R a c) : Ensures R (c >>= f) := by
  intro s b s' h
  obtain ⟨a, s₁, hfirst, hrest⟩ := outcome_bind_eq_ok h
  exact htrans (hc s a s₁ hfirst) (hf a s₁ b s' hrest)

end Effects
