import Mathlib

/-!
# Numbers handed out by a 64-bit counter

A counter stands at the largest of some numbers that are already in use and hands out the next number
on each call. It counts modulo `2^64`, so it comes back: first to zero, and then to the smallest number
in use. `room` is the number of the call that gets a number in use. `Issued.fresh_iff` says that each
call before it gets a number that no one has.
-/

set_option autoImplicit false

namespace Counter

/-- The largest number with a property, or zero when none has it. -/
def LargestOrZero (P : UInt64 → Prop) (n : UInt64) : Prop :=
  (∀ k, P k → k ≤ n) ∧ (P n ∨ n = 0 ∧ ∀ k, ¬ P k)

/-- A bound that is reached is the largest. -/
theorem LargestOrZero.of_bound {P : UInt64 → Prop} {n : UInt64} (hle : ∀ k, P k → k ≤ n)
    (hone : P n ∨ n = 0) : LargestOrZero P n := by
  refine ⟨hle, hone.elim .inl fun h0 => ?_⟩
  by_cases hsome : ∃ k, P k
  · obtain ⟨k, hk⟩ := hsome
    have hk0 : k = n := UInt64.le_antisymm (hle k hk) (h0 ▸ UInt64.zero_le)
    exact .inl (hk0 ▸ hk)
  · exact .inr ⟨h0, fun k hk => hsome ⟨k, hk⟩⟩

theorem LargestOrZero.congr {P Q : UInt64 → Prop} {n : UInt64} (h : LargestOrZero P n)
    (hiff : ∀ k, P k ↔ Q k) : LargestOrZero Q n :=
  ⟨fun k hk => h.1 k ((hiff k).mpr hk),
    h.2.imp (hiff n).mp (And.imp_right fun hnone k hk => hnone k ((hiff k).mpr hk))⟩

/-- There is one largest id. -/
theorem LargestOrZero.unique {P : UInt64 → Prop} {m n : UInt64} (hm : LargestOrZero P m)
    (hn : LargestOrZero P n) : m = n := by
  rcases hm.2 with hPm | ⟨rfl, hnone⟩
  · rcases hn.2 with hPn | ⟨-, hnone⟩
    · exact UInt64.le_antisymm (hn.1 m hPm) (hm.1 n hPn)
    · exact absurd hPm (hnone m)
  · rcases hn.2 with hPn | ⟨rfl, -⟩
    · exact absurd hPn (hnone n)
    · rfl

/-- Where the numbers run from one without a gap, the largest is their count. -/
theorem LargestOrZero.of_dense {P : UInt64 → Prop} {n : UInt64}
    (h : ∀ k, P k ↔ 1 ≤ k ∧ k ≤ n) : LargestOrZero P n := by
  refine .of_bound (fun k hk => ((h k).mp hk).2) ?_
  by_cases h0 : n = 0
  · exact .inr h0
  · have hpos : n.toNat ≠ 0 := fun e => h0 (UInt64.toNat_inj.mp e)
    exact .inl ((h n).mpr ⟨UInt64.le_iff_toNat_le.mpr (Nat.one_le_iff_ne_zero.mpr hpos),
      UInt64.le_refl n⟩)

/-! ## The numbers in use -/

/-- The largest number in use, or zero. -/
def last (ids : List UInt64) : Nat := (ids.map UInt64.toNat).max?.getD 0

/-- The smallest number in use; the counter's own first number, when there is none. -/
def first (ids : List UInt64) : Nat := (ids.map UInt64.toNat).min?.getD 1

/-- The number of the first call that is answered with a number in use. -/
def room (ids : List UInt64) : Nat := 2 ^ 64 + first ids - last ids

theorem le_last {ids : List UInt64} {k : UInt64} (h : k ∈ ids) : k.toNat ≤ last ids := by
  unfold last
  cases hmax : (ids.map UInt64.toNat).max? with
  | none =>
    rw [List.max?_eq_none_iff, List.map_eq_nil_iff] at hmax
    exact absurd (hmax ▸ h) List.not_mem_nil
  | some n => exact (List.max?_eq_some_iff.mp hmax).2 _ (List.mem_map_of_mem h)

theorem first_le {ids : List UInt64} {k : UInt64} (h : k ∈ ids) : first ids ≤ k.toNat := by
  unfold first
  cases hmin : (ids.map UInt64.toNat).min? with
  | none =>
    rw [List.min?_eq_none_iff, List.map_eq_nil_iff] at hmin
    exact absurd (hmin ▸ h) List.not_mem_nil
  | some n => exact (List.min?_eq_some_iff.mp hmin).2 _ (List.mem_map_of_mem h)

/-- The smallest number is in use, unless none is. -/
theorem first_cases (ids : List UInt64) :
    (ids = [] ∧ last ids = 0 ∧ first ids = 1) ∨ ∃ k ∈ ids, k.toNat = first ids := by
  unfold first
  cases hmin : (ids.map UInt64.toNat).min? with
  | none =>
    rw [List.min?_eq_none_iff, List.map_eq_nil_iff] at hmin
    subst hmin
    exact .inl ⟨rfl, rfl, rfl⟩
  | some n => exact .inr (List.mem_map.mp (List.min?_eq_some_iff.mp hmin).1)

/-- The largest number is in use, unless none is. -/
theorem last_cases (ids : List UInt64) :
    (ids = [] ∧ last ids = 0) ∨ ∃ k ∈ ids, k.toNat = last ids := by
  unfold last
  cases hmax : (ids.map UInt64.toNat).max? with
  | none =>
    rw [List.max?_eq_none_iff, List.map_eq_nil_iff] at hmax
    exact .inl ⟨hmax, rfl⟩
  | some n => exact .inr (List.mem_map.mp (List.max?_eq_some_iff.mp hmax).1)

theorem last_lt (ids : List UInt64) : last ids < 2 ^ 64 := by
  rcases last_cases ids with ⟨_, h0⟩ | ⟨k, _, hk⟩
  · omega
  · have := k.toNat_lt
    omega

/-- That call is never call zero. -/
theorem room_pos (ids : List UInt64) : 0 < room ids := by
  have := last_lt ids
  unfold room
  omega

/-- The largest id is the last one. -/
theorem LargestOrZero.toNat_eq {ids : List UInt64} {n : UInt64} (h : LargestOrZero (· ∈ ids) n) :
    n.toNat = last ids := by
  obtain ⟨hle, hone⟩ := h
  rcases last_cases ids with ⟨rfl, h0⟩ | ⟨k, hk, hlast⟩
  · rcases hone with hn | ⟨rfl, _⟩
    · exact absurd hn List.not_mem_nil
    · exact h0.symm
  · have hkn := UInt64.le_iff_toNat_le.mp (hle k hk)
    rcases hone with hn | ⟨_, hnone⟩
    · have := le_last hn
      omega
    · exact absurd hk (hnone k)

/-! ## Calls -/

/-- After `n` calls the counter stands `n` past the largest number, and in use are the numbers there
were and the ones handed out. -/
structure Issued (ids : List UInt64) (n : Nat) (current : UInt64) (used : UInt64 → Prop) : Prop where
  current_eq : current.toNat = (last ids + n) % 2 ^ 64
  used_iff : ∀ k, used k ↔ k ∈ ids ∨ ∃ a, 1 ≤ a ∧ a ≤ n ∧ k.toNat = (last ids + a) % 2 ^ 64

namespace Issued

variable {ids : List UInt64} {n : Nat} {current : UInt64} {used used' : UInt64 → Prop}

/-- A counter that was set to the last id has issued nothing yet. -/
theorem start (hcurrent : LargestOrZero (· ∈ ids) current) (hused : ∀ k, used k ↔ k ∈ ids) :
    Issued ids 0 current used where
  current_eq := by
    rw [hcurrent.toNat_eq, Nat.add_zero, Nat.mod_eq_of_lt (last_lt ids)]
  used_iff k := by
    refine (hused k).trans ⟨.inl, ?_⟩
    rintro (h | ⟨a, h1, h0, _⟩)
    · exact h
    · omega

theorem congr (h : Issued ids n current used) (hused : ∀ k, used' k ↔ used k) :
    Issued ids n current used' := ⟨h.current_eq, fun k => (hused k).trans (h.used_iff k)⟩

/-- The next id, modulo 2^64. -/
theorem next_toNat (h : Issued ids n current used) :
    (current + 1).toNat = (last ids + (n + 1)) % 2 ^ 64 := by
  rw [UInt64.toNat_add, h.current_eq, UInt64.toNat_one]
  omega

/-- One call. -/
theorem next (h : Issued ids n current used) (hused : ∀ k, used' k ↔ current + 1 = k ∨ used k) :
    Issued ids (n + 1) (current + 1) used' where
  current_eq := h.next_toNat
  used_iff k := by
    rw [hused, h.used_iff, or_left_comm]
    refine or_congr_right ⟨?_, ?_⟩
    · rintro (rfl | ⟨a, h1, hn, hk⟩)
      · exact ⟨n + 1, by omega, Nat.le_refl _, h.next_toNat⟩
      · exact ⟨a, h1, by omega, hk⟩
    · rintro ⟨a, h1, hn, hk⟩
      rcases Nat.lt_or_eq_of_le hn with hlt | rfl
      · exact .inr ⟨a, h1, by omega, hk⟩
      · exact .inl (UInt64.toNat_inj.mp (h.next_toNat.trans hk.symm))

/-- **A call is answered with a free number exactly while there is room.** -/
theorem fresh_iff (h : Issued ids n current used) (hroom : n < room ids) :
    ¬ used (current + 1) ↔ n + 1 < room ids := by
  have hlast := last_lt ids
  have hnext := h.next_toNat
  unfold room at hroom ⊢
  rw [h.used_iff]
  constructor
  · -- past the room, the number is the smallest in use
    intro hfree
    by_contra hfull
    have hsum : last ids + (n + 1) = 2 ^ 64 + first ids := by omega
    rcases first_cases ids with ⟨_, h0, h1⟩ | ⟨k, hk, hfirst⟩
    · exact hfree (.inr ⟨1, by omega, by omega, by omega⟩)
    · have := k.toNat_lt
      have heq : current + 1 = k := UInt64.toNat_inj.mp (by omega)
      exact hfree (.inl (heq ▸ hk))
  · rintro hnew (hmem | ⟨a, h1, hn, ha⟩)
    · have hlow := first_le hmem
      have hhigh := le_last hmem
      omega
    · rcases first_cases ids with ⟨_, h0, hone⟩ | ⟨k, hk, hfirst⟩
      · omega
      · have := le_last hk
        omega

end Issued

end Counter
