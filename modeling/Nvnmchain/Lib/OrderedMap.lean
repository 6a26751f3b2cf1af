import Mathlib

/-!
# Ordered key-value collections

A `Map` is a finite map whose keys are walked in order: the standard library's extensional tree
map at the keys' own order. A key of several components is a tuple compared component by
component. Two maps with the same lookups are equal (`Std.ExtTreeMap.ext_getElem?`), so a law about
a whole collection is a law about each key, and the lemmas here say what each update does to one
lookup.

A Go map has the same lookups and no order of its own: each range over it visits every entry once,
in some order. `Iteration` is one such order.
-/

set_option autoImplicit false

namespace Collections

attribute [instance] lexOrd

/-- A finite map walked in key order. -/
abbrev Map (κ ν : Type) [Ord κ] := Std.ExtTreeMap κ ν

namespace Map

section Keys

variable {κ ν : Type} [Ord κ] [Std.TransOrd κ]

/-- A key is in a map when its lookup answers. -/
theorem mem_iff {m : Map κ ν} {k : κ} : k ∈ m ↔ ∃ v, m[k]? = some v := by
  rw [Std.ExtTreeMap.mem_iff_isSome_getElem?, Option.isSome_iff_exists]

theorem mem_of_get? {m : Map κ ν} {k : κ} {v : ν} (h : m[k]? = some v) : k ∈ m := mem_iff.mpr ⟨v, h⟩

/-- A key that is absent reads as nothing. -/
theorem notMem_iff {m : Map κ ν} {k : κ} : k ∉ m ↔ m[k]? = none := by
  rw [Std.ExtTreeMap.mem_iff_isSome_getElem?, Option.not_isSome_iff_eq_none]

end Keys

section Updates

variable {κ ν : Type} [Ord κ] [Std.TransOrd κ] [Std.LawfulEqOrd κ]

/-- Other keys keep their values. -/
theorem get?_insert_ne (m : Map κ ν) {k a : κ} (v : ν) (h : k ≠ a) :
    (m.insert k v)[a]? = m[a]? := by
  rw [Std.ExtTreeMap.getElem?_insert, if_neg (fun e => h (Std.LawfulEqOrd.compare_eq_iff_eq.mp e))]

theorem get?_insert [DecidableEq κ] (m : Map κ ν) (k a : κ) (v : ν) :
    (m.insert k v)[a]? = if k = a then some v else m[a]? := by
  by_cases h : k = a
  · rw [if_pos h, h, Std.ExtTreeMap.getElem?_insert_self]
  · rw [if_neg h, get?_insert_ne m v h]

/-- Maps that agree on a key agree on it after one assignment to both. -/
theorem get?_insert_congr [DecidableEq κ] {m m' : Map κ ν} {a : κ} (h : m'[a]? = m[a]?) (k : κ)
    (v : ν) : (m'.insert k v)[a]? = (m.insert k v)[a]? := by
  rw [get?_insert, get?_insert, h]

/-- An entry stays when a free key is filled. -/
theorem get?_insert_of_notMem {m : Map κ ν} {k a : κ} {v w : ν} (hfree : k ∉ m)
    (h : m[a]? = some w) : (m.insert k v)[a]? = some w := by
  have hne : k ≠ a := fun e => hfree (e ▸ mem_of_get? h)
  rw [get?_insert_ne m v hne, h]

/-- Erasing a key keeps the other values. -/
theorem get?_erase_ne (m : Map κ ν) {k a : κ} (h : k ≠ a) : (m.erase k)[a]? = m[a]? := by
  rw [Std.ExtTreeMap.getElem?_erase, if_neg (fun e => h (Std.LawfulEqOrd.compare_eq_iff_eq.mp e))]

omit [Std.LawfulEqOrd κ] in
/-- Maps that agree on a key agree on it after one removal from both. -/
theorem get?_erase_congr {m m' : Map κ ν} {a : κ} (h : m'[a]? = m[a]?) (k : κ) :
    (m'.erase k)[a]? = (m.erase k)[a]? := by
  rw [Std.ExtTreeMap.getElem?_erase, Std.ExtTreeMap.getElem?_erase, h]

/-- The keys after an insertion. -/
theorem mem_insert {m : Map κ ν} {k a : κ} {v : ν} : a ∈ m.insert k v ↔ k = a ∨ a ∈ m := by
  rw [Std.ExtTreeMap.mem_insert, Std.LawfulEqOrd.compare_eq_iff_eq]

end Updates

end Map

/-- A list without repetitions, all of whose items are the same, holds that item once. -/
theorem eq_singleton_of_nodup {α : Type} {l : List α} {x : α} (hnodup : l.Nodup) (hx : x ∈ l)
    (hall : ∀ y ∈ l, y = x) : l = [x] := by
  have hl : l = List.replicate l.length x := List.eq_replicate_iff.mpr ⟨rfl, hall⟩
  have hle : l.length ≤ 1 := List.nodup_replicate.mp (hl ▸ hnodup)
  have hpos : 0 < l.length := List.length_pos_of_mem hx
  have hone : l.length = 1 := by omega
  rw [hl, hone]
  rfl

/-! ## Walks -/

/-- `Map.Walk`: the callback sees the entries in turn, carries a state, and stops the walk by
answering `true` or by failing. -/
def walk {σ ε κ ν : Type} (f : σ → κ → ν → Except ε (Bool × σ)) : σ → List (κ × ν) → Except ε σ
  | s, [] => .ok s
  | s, (k, v) :: rest => do
    let (stop, s) ← f s k v
    if stop then .ok s else walk f s rest

/-- The entries a walk over `NewPrefixedPairRange` sees: those whose key starts with the prefix. -/
def Map.prefixed {κ₁ κ₂ ν : Type} [Ord κ₁] [Ord κ₂] [Std.TransOrd κ₁] [Std.TransOrd κ₂]
    [DecidableEq κ₁] (m : Map (κ₁ × κ₂) ν) (k : κ₁) :
    List ((κ₁ × κ₂) × ν) :=
  m.toList.filter fun e => e.1.1 = k

/-! ## Running maxima -/

section Larger

variable {α ν : Type} [LE ν] [LT ν] [DecidableLT ν] [Std.IsLinearOrder ν] [Std.LawfulOrderLT ν]

/-- A running maximum over a list bounds its start and every item, and is one of them. -/
theorem foldl_larger_spec (f : α → ν) (l : List α) (c : ν) :
    c ≤ l.foldl (fun m x => if f x > m then f x else m) c ∧
      (∀ x ∈ l, f x ≤ l.foldl (fun m x => if f x > m then f x else m) c) ∧
      (l.foldl (fun m x => if f x > m then f x else m) c = c ∨
        ∃ x ∈ l, f x = l.foldl (fun m x => if f x > m then f x else m) c) := by
  induction l generalizing c with
  | nil => exact ⟨Std.le_refl c, fun _ hx => absurd hx List.not_mem_nil, .inl rfl⟩
  | cons x rest ih =>
    rw [List.foldl_cons]
    obtain ⟨hstart, hall, hone⟩ := ih (if f x > c then f x else c)
    by_cases hgt : f x > c
    · rw [if_pos hgt] at hstart hall hone ⊢
      refine ⟨Std.le_trans (Std.le_of_lt hgt) hstart, List.forall_mem_cons.mpr ⟨hstart, hall⟩, ?_⟩
      rcases hone with h | ⟨y, hy, h⟩
      · exact .inr ⟨x, List.mem_cons_self, h.symm⟩
      · exact .inr ⟨y, List.mem_cons_of_mem x hy, h⟩
    · rw [if_neg hgt] at hstart hall hone ⊢
      refine ⟨hstart, List.forall_mem_cons.mpr ⟨Std.le_trans (Std.not_lt.mp hgt) hstart, hall⟩, ?_⟩
      rcases hone with h | ⟨y, hy, h⟩
      · exact .inl h
      · exact .inr ⟨y, List.mem_cons_of_mem x hy, h⟩

end Larger

/-! ## Filling a map from a list -/

namespace Map

section Fill

variable {α κ ν : Type} [Ord κ] [Std.TransOrd κ]

/-- A map assigned to once for each item of a list: a later assignment to a key replaces an earlier
one. -/
def assign (key : α → κ) (val : α → ν) (m : Map κ ν) (l : List α) : Map κ ν :=
  l.foldl (fun m x => m.insert (key x) (val x)) m

/-- An assignment that never lowers a value. -/
def raise [LT ν] [DecidableLT ν] (m : Map κ ν) (k : κ) (v : ν) : Map κ ν :=
  match m[k]? with
  | none => m.insert k v
  | some old => if v > old then m.insert k v else m

variable [Std.LawfulEqOrd κ] {key : α → κ} {val : α → ν}

/-- The keys after assignments. -/
theorem mem_assign {m : Map κ ν} {l : List α} {a : κ} :
    a ∈ assign key val m l ↔ (∃ x ∈ l, key x = a) ∨ a ∈ m := by
  induction l generalizing m with
  | nil => simp [assign]
  | cons x rest ih =>
    have step : a ∈ assign key val m (x :: rest) ↔
        a ∈ assign key val (m.insert (key x) (val x)) rest := Iff.rfl
    rw [step, ih, mem_insert, List.exists_mem_cons_iff, or_assoc, or_left_comm]

/-- A key no item has keeps its value. -/
theorem get?_assign_of_ne {m : Map κ ν} {l : List α} {a : κ} (h : ∀ x ∈ l, key x ≠ a) :
    (assign key val m l)[a]? = m[a]? := by
  induction l generalizing m with
  | nil => rfl
  | cons x rest ih =>
    have hrest := ih (m := m.insert (key x) (val x)) fun y hy => h y (List.mem_cons_of_mem x hy)
    exact hrest.trans (get?_insert_ne m (val x) (h x List.mem_cons_self))

/-- A value comes from an item of the key, or was there. -/
theorem get?_assign_cases {m : Map κ ν} {l : List α} {a : κ} {v : ν}
    (h : (assign key val m l)[a]? = some v) :
    (∃ x ∈ l, key x = a ∧ val x = v) ∨ ((∀ x ∈ l, key x ≠ a) ∧ m[a]? = some v) := by
  induction l generalizing m with
  | nil => exact .inr ⟨fun _ hx => absurd hx List.not_mem_nil, h⟩
  | cons x rest ih =>
    rcases ih (m := m.insert (key x) (val x)) h with ⟨y, hy, hkey⟩ | ⟨hne, hm⟩
    · exact .inl ⟨y, List.mem_cons_of_mem x hy, hkey⟩
    · by_cases hx : key x = a
      · rw [hx, Std.ExtTreeMap.getElem?_insert_self] at hm
        exact .inl ⟨x, List.mem_cons_self, hx, Option.some.inj hm⟩
      · rw [get?_insert_ne m (val x) hx] at hm
        exact .inr ⟨List.forall_mem_cons.mpr ⟨hx, hne⟩, hm⟩

/-- Where the items of a key agree on its value, that is the value. -/
theorem get?_assign_of_mem (key : α → κ) (val : α → ν) {m : Map κ ν} {l : List α} {x : α} (hx : x ∈ l)
    (hagree : ∀ y ∈ l, key y = key x → val y = val x) :
    (assign key val m l)[key x]? = some (val x) := by
  have hmem : key x ∈ assign key val m l := mem_assign.mpr (.inl ⟨x, hx, rfl⟩)
  obtain ⟨v, hv⟩ := mem_iff.mp hmem
  rcases get?_assign_cases hv with ⟨y, hy, hkey, rfl⟩ | ⟨hne, _⟩
  · rw [hv, hagree y hy hkey]
  · exact absurd rfl (hne x hx)

/-- Items that are entries of a map, and reach every key of it, fill the map. -/
theorem assign_eq {m : Map κ ν} {l : List α} (hentry : ∀ x ∈ l, m[key x]? = some (val x))
    (hkeys : ∀ k ∈ m, ∃ x ∈ l, key x = k) : assign key val ∅ l = m := by
  refine Std.ExtTreeMap.ext_getElem? fun {k} => ?_
  cases hk : m[k]? with
  | none =>
    rw [get?_assign_of_ne, Std.ExtTreeMap.getElem?_empty]
    rintro x hx rfl
    cases hk.symm.trans (hentry x hx)
  | some v =>
    obtain ⟨x, hx, rfl⟩ := hkeys k (mem_of_get? hk)
    cases hk.symm.trans (hentry x hx)
    refine get?_assign_of_mem key val hx fun y hy e => ?_
    have hy' := hentry y hy
    rw [e, hk] at hy'
    exact (Option.some.inj hy').symm

/-- Items of different free keys enter one entry each. -/
theorem size_assign {m : Map κ ν} {l : List α} (hnodup : (l.map key).Nodup)
    (hfree : ∀ x ∈ l, key x ∉ m) : (assign key val m l).size = m.size + l.length := by
  induction l generalizing m with
  | nil => rfl
  | cons x rest ih =>
    obtain ⟨hx, hrest⟩ := List.nodup_cons.mp hnodup
    have hnext : ∀ y ∈ rest, key y ∉ m.insert (key x) (val x) := by
      intro y hy hmem
      rcases mem_insert.mp hmem with e | hm
      · exact hx (e ▸ List.mem_map_of_mem hy)
      · exact hfree y (List.mem_cons_of_mem x hy) hm
    have hone : (m.insert (key x) (val x)).size = m.size + 1 := by
      rw [Std.ExtTreeMap.size_insert,
        if_neg fun h => hfree x List.mem_cons_self (Std.ExtTreeMap.mem_iff_contains.mpr h)]
    have hsize := ih hrest hnext
    rw [hone] at hsize
    rw [List.length_cons]
    exact hsize.trans (by omega)

section Raise

variable [LE ν] [LT ν] [DecidableLT ν] [Std.IsLinearOrder ν] [Std.LawfulOrderLT ν]

omit [LE ν] [Std.IsLinearOrder ν] [Std.LawfulOrderLT ν] in
/-- Raising one value keeps the others. -/
theorem get?_raise_ne {m : Map κ ν} {k a : κ} (v : ν) (h : k ≠ a) : (m.raise k v)[a]? = m[a]? := by
  unfold raise
  split
  · exact get?_insert_ne m v h
  · split
    · exact get?_insert_ne m v h
    · rfl

omit [LE ν] [Std.IsLinearOrder ν] [Std.LawfulOrderLT ν] in
/-- The keys after raising a value. -/
theorem mem_raise {m : Map κ ν} {k a : κ} {v : ν} : a ∈ m.raise k v ↔ k = a ∨ a ∈ m := by
  unfold raise
  cases h : m[k]? with
  | none => exact mem_insert
  | some old =>
    by_cases hgt : v > old
    · simp only [if_pos hgt]
      exact mem_insert
    · simp only [if_neg hgt]
      exact ⟨.inr, fun e => e.elim (fun hk => hk ▸ mem_of_get? h) id⟩

omit [Std.LawfulEqOrd κ] in
/-- A raised key holds the larger of its old value and the new one. -/
theorem get?_raise_self (m : Map κ ν) (k : κ) (v : ν) :
    ∃ w, (m.raise k v)[k]? = some w ∧ v ≤ w ∧ (∀ old, m[k]? = some old → old ≤ w) ∧
      (v = w ∨ m[k]? = some w) := by
  unfold raise
  cases h : m[k]? with
  | none => exact ⟨v, Std.ExtTreeMap.getElem?_insert_self, Std.le_refl v, nofun, .inl rfl⟩
  | some old =>
    by_cases hgt : v > old
    · simp only [if_pos hgt]
      refine ⟨v, Std.ExtTreeMap.getElem?_insert_self, Std.le_refl v, fun _ e => ?_, .inl rfl⟩
      exact Option.some.inj e ▸ Std.le_of_lt hgt
    · simp only [if_neg hgt]
      refine ⟨old, h, Std.not_lt.mp hgt, fun _ e => ?_, .inr rfl⟩
      exact Option.some.inj e ▸ Std.le_refl old

omit [LE ν] [Std.IsLinearOrder ν] [Std.LawfulOrderLT ν] in
/-- Raising adds the keys of the items and no other. -/
theorem mem_foldl_raise {m : Map κ ν} {l : List α} {a : κ} :
    a ∈ l.foldl (fun m x => m.raise (key x) (val x)) m ↔ (∃ x ∈ l, key x = a) ∨ a ∈ m := by
  induction l generalizing m with
  | nil => simp only [List.foldl_nil, List.not_mem_nil, false_and, exists_false, false_or]
  | cons x rest ih =>
    rw [List.foldl_cons, ih, mem_raise, List.exists_mem_cons_iff, or_assoc, or_left_comm]

/-- After raising a key by every item, its value is the largest there was. -/
theorem foldl_raise_spec (key : α → κ) (val : α → ν) {m : Map κ ν} {l : List α} {a : κ}
    (h : (∃ x ∈ l, key x = a) ∨ a ∈ m) :
    ∃ v, (l.foldl (fun m x => m.raise (key x) (val x)) m)[a]? = some v ∧
      (∀ x ∈ l, key x = a → val x ≤ v) ∧ (∀ w, m[a]? = some w → w ≤ v) ∧
      ((∃ x ∈ l, key x = a ∧ val x = v) ∨ m[a]? = some v) := by
  induction l generalizing m with
  | nil =>
    rcases h with ⟨x, hx, _⟩ | hm
    · exact absurd hx List.not_mem_nil
    · obtain ⟨v, hv⟩ := mem_iff.mp hm
      refine ⟨v, hv, fun _ hx => absurd hx List.not_mem_nil, fun w hw => ?_, .inr hv⟩
      exact Option.some.inj (hv.symm.trans hw) ▸ Std.le_refl v
  | cons x rest ih =>
    rw [List.foldl_cons]
    by_cases hx : key x = a
    · subst hx
      obtain ⟨w, hw, hnew, hold, hone⟩ := get?_raise_self m (key x) (val x)
      obtain ⟨v, hv, hitems, hstart, hattained⟩ := ih (m := m.raise (key x) (val x))
        (.inr (mem_of_get? hw))
      have hle : w ≤ v := hstart w hw
      refine ⟨v, hv, List.forall_mem_cons.mpr ⟨fun _ => Std.le_trans hnew hle, hitems⟩,
        fun old ho => Std.le_trans (hold old ho) hle, ?_⟩
      rcases hattained with ⟨y, hy, hkey⟩ | hsame
      · exact .inl ⟨y, List.mem_cons_of_mem x hy, hkey⟩
      · cases hw.symm.trans hsame
        exact hone.imp (fun e => ⟨x, List.mem_cons_self, rfl, e⟩) id
    · obtain ⟨v, hv, hitems, hstart, hattained⟩ := ih (m := m.raise (key x) (val x))
        (h.imp (fun ⟨y, hy, hkey⟩ => ⟨y, (List.mem_cons.mp hy).resolve_left
          (fun e => hx (e ▸ hkey)), hkey⟩) fun hm => mem_raise.mpr (.inr hm))
      rw [get?_raise_ne (val x) hx] at hstart hattained
      exact ⟨v, hv, List.forall_mem_cons.mpr ⟨fun e => absurd e hx, hitems⟩, hstart,
        hattained.imp (fun ⟨y, hy, hkey⟩ => ⟨y, List.mem_cons_of_mem x hy, hkey⟩) id⟩

/-- A value that bounds the items of a key, and is attained, is the key's value. -/
theorem get?_foldl_raise {m : Map κ ν} {l : List α} {a : κ} {v : ν}
    (hattained : (∃ x ∈ l, key x = a ∧ val x = v) ∨ m[a]? = some v)
    (hitems : ∀ x ∈ l, key x = a → val x ≤ v) (hold : ∀ w, m[a]? = some w → w ≤ v) :
    (l.foldl (fun m x => m.raise (key x) (val x)) m)[a]? = some v := by
  obtain ⟨w, hw, hle, hstart, hone⟩ := foldl_raise_spec key val (l := l) (m := m) (a := a)
    (hattained.imp (fun ⟨x, hx, hkey, _⟩ => ⟨x, hx, hkey⟩) mem_of_get?)
  rw [hw]
  refine congrArg some (Std.le_antisymm ?_ ?_)
  · rcases hone with ⟨x, hx, hkey, rfl⟩ | hm
    · exact hitems x hx hkey
    · exact hold w hm
  · rcases hattained with ⟨x, hx, hkey, rfl⟩ | hm
    · exact hle x hx hkey
    · exact hstart v hm

end Raise

end Fill

end Map

/-! ## Ranging over a Go map -/

/-- One order in which a range visits the entries of a Go map. -/
structure Iteration {κ ν : Type} [Ord κ] [Std.TransOrd κ] (m : Map κ ν) where
  entries : List (κ × ν)
  perm : entries.Perm m.toList

namespace Iteration

variable {κ ν : Type} [Ord κ] [Std.TransOrd κ]

/-- The iteration in key order. -/
def sorted (m : Map κ ν) : Iteration m := ⟨m.toList, .refl _⟩

/-- The iteration in falling key order. -/
def reversed (m : Map κ ν) : Iteration m := ⟨m.toList.reverse, m.toList.reverse_perm⟩

/-- Every order of iteration visits each entry once. -/
theorem length_entries {m : Map κ ν} (it : Iteration m) : it.entries.length = m.size := by
  rw [it.perm.length_eq, Std.ExtTreeMap.length_toList]

theorem entries_empty (it : Iteration (∅ : Map κ ν)) : it.entries = [] := by
  have h := it.perm
  rw [Std.ExtTreeMap.toList_eq_nil_iff.mpr rfl] at h
  exact h.eq_nil

/-- No order of iteration visits a key twice. -/
theorem nodup_keys {m : Map κ ν} (it : Iteration m) : (it.entries.map Prod.fst).Nodup := by
  refine (it.perm.map Prod.fst).nodup_iff.mpr ?_
  rw [Std.ExtTreeMap.map_fst_toList_eq_keys]
  exact Std.ExtTreeMap.nodup_keys

/-- Every order of iteration visits just the entries. -/
theorem mem_entries [Std.LawfulEqOrd κ] {m : Map κ ν} (it : Iteration m) {k : κ} {v : ν} :
    (k, v) ∈ it.entries ↔ m[k]? = some v :=
  it.perm.mem_iff.trans Std.ExtTreeMap.mem_toList_iff_getElem?_eq_some

end Iteration

/-! ## Counting keys -/

section Size

variable {κ ν ω : Type} [Ord κ] [Std.TransOrd κ] [Std.LawfulEqOrd κ]

/-- A map whose keys are keys of another has no more of them. -/
theorem Map.subperm_keys {m : Map κ ν} {m' : Map κ ω} (h : ∀ k ∈ m, k ∈ m') :
    m.keys.Subperm m'.keys :=
  List.subperm_of_subset Std.ExtTreeMap.nodup_keys fun k hk =>
    Std.ExtTreeMap.mem_keys.mpr (h k (Std.ExtTreeMap.mem_keys.mp hk))

/-- A map with fewer keys is no larger. -/
theorem Map.size_le {m : Map κ ν} {m' : Map κ ω} (h : ∀ k ∈ m, k ∈ m') : m.size ≤ m'.size := by
  rw [← Std.ExtTreeMap.length_keys, ← Std.ExtTreeMap.length_keys (t := m')]
  exact (subperm_keys h).length_le

/-- A map with fewer keys that is no smaller has them all. -/
theorem Map.mem_of_size_le {m : Map κ ν} {m' : Map κ ω} (h : ∀ k ∈ m, k ∈ m')
    (hsize : m'.size ≤ m.size) {k : κ} (hk : k ∈ m') : k ∈ m := by
  rw [← Std.ExtTreeMap.length_keys, ← Std.ExtTreeMap.length_keys (t := m)] at hsize
  have hperm := (subperm_keys h).perm_of_length_le hsize
  exact Std.ExtTreeMap.mem_keys.mp (hperm.mem_iff.mpr (Std.ExtTreeMap.mem_keys.mpr hk))

end Size

/-! ## Copying a map through another kind of key -/

section Copy

variable {κ κ' ν : Type} [Ord κ] [Std.TransOrd κ] [Std.LawfulEqOrd κ] [Ord κ'] [Std.TransOrd κ']
  [Std.LawfulEqOrd κ'] {enc : κ → κ'} {dec : κ' → κ}

/-- The lookups of a map copied, in any order, under keys that can be told apart. -/
theorem Iteration.get?_assign {m : Map κ ν} (it : Iteration m) (henc : Set.InjOn enc {k | k ∈ m})
    {k' : κ'} {v : ν} :
    (Map.assign (fun e => enc e.1) Prod.snd ∅ it.entries)[k']? = some v ↔
      ∃ k, enc k = k' ∧ m[k]? = some v := by
  constructor
  · intro h
    rcases Map.get?_assign_cases h with ⟨⟨k, w⟩, he, rfl, rfl⟩ | ⟨_, hnone⟩
    · exact ⟨k, rfl, it.mem_entries.mp he⟩
    · rw [Std.ExtTreeMap.getElem?_empty] at hnone
      cases hnone
  · rintro ⟨k, rfl, hk⟩
    refine Map.get?_assign_of_mem (fun e => enc e.1) Prod.snd (it.mem_entries.mpr hk) ?_
    rintro ⟨k₁, w⟩ he hkey
    have hw := it.mem_entries.mp he
    have hk₁ : k₁ = k := henc (Map.mem_of_get? hw) (Map.mem_of_get? hk) hkey
    rw [hk₁, hk] at hw
    exact (Option.some.inj hw).symm

/-- Such a copy is the same in every order. -/
theorem Iteration.assign_congr {m : Map κ ν} (it it' : Iteration m)
    (henc : Set.InjOn enc {k | k ∈ m}) :
    Map.assign (fun e => enc e.1) Prod.snd ∅ it.entries =
      Map.assign (fun e => enc e.1) Prod.snd ∅ it'.entries := by
  refine Std.ExtTreeMap.ext_getElem? fun k' => Option.ext fun v => ?_
  rw [it.get?_assign henc, it'.get?_assign henc]

/-- Such a copy has as many entries as the map. -/
theorem Iteration.size_assign {m : Map κ ν} (it : Iteration m) (henc : Set.InjOn enc {k | k ∈ m}) :
    (Map.assign (fun e => enc e.1) Prod.snd ∅ it.entries).size = m.size := by
  have hnodup : (it.entries.map fun e => enc e.1).Nodup := by
    refine List.Nodup.map_on ?_ (List.Nodup.of_map Prod.fst it.nodup_keys)
    rintro ⟨k, v⟩ he ⟨k', v'⟩ he' hkey
    have hk := it.mem_entries.mp he
    have hk' := it.mem_entries.mp he'
    cases henc (Map.mem_of_get? hk) (Map.mem_of_get? hk') hkey
    cases hk.symm.trans hk'
    rfl
  rw [Map.size_assign hnodup fun _ _ => Std.ExtTreeMap.not_mem_empty, it.length_entries,
    Std.ExtTreeMap.size_empty, Nat.zero_add]

/-- The lookups of a map copied under encoded keys. -/
theorem Map.get?_encoded (henc : Function.Injective enc) (m : Map κ ν) {k' : κ'} {v : ν} :
    (Map.assign (fun e => enc e.1) Prod.snd ∅ m.toList)[k']? = some v ↔
      ∃ k, enc k = k' ∧ m[k]? = some v :=
  (Iteration.sorted m).get?_assign henc.injOn

/-- A map copied under encoded keys, and copied back in any order, is the map. -/
theorem Map.assign_decoded (hdec : Function.LeftInverse dec enc) (m : Map κ ν)
    (it : Iteration (Map.assign (fun e => enc e.1) Prod.snd ∅ m.toList)) :
    Map.assign (fun e => dec e.1) Prod.snd ∅ it.entries = m := by
  have hentries : ∀ k' v, (k', v) ∈ it.entries ↔ ∃ k, enc k = k' ∧ m[k]? = some v :=
    fun k' v => it.mem_entries.trans (Map.get?_encoded hdec.injective m)
  refine Map.assign_eq ?_ fun k hk => ?_
  · rintro ⟨k', v⟩ he
    obtain ⟨k, rfl, hk⟩ := (hentries k' v).mp he
    rw [hdec]
    exact hk
  · obtain ⟨v, hv⟩ := Map.mem_iff.mp hk
    exact ⟨(enc k, v), (hentries _ _).mpr ⟨k, rfl, hv⟩, hdec k⟩

/-- A map copied under its own keys is the map. -/
theorem Map.assign_toList (m : Map κ ν) : Map.assign Prod.fst Prod.snd ∅ m.toList = m := by
  refine Map.assign_eq (fun e he => Std.ExtTreeMap.mem_toList_iff_getElem?_eq_some.mp he)
    fun k hk => ?_
  obtain ⟨v, hv⟩ := Map.mem_iff.mp hk
  exact ⟨(k, v), Std.ExtTreeMap.mem_toList_iff_getElem?_eq_some.mpr hv, rfl⟩

end Copy

/-- No more than `2 ^ 64` things are told apart by a 64-bit number. -/
theorem length_le_of_nodup {l : List UInt64} (h : l.Nodup) : l.length ≤ 2 ^ 64 := by
  have hfin : (l.map UInt64.toFin).Nodup := h.map fun a b e => UInt64.toFin_inj.mp e
  have hcard := hfin.length_le_card
  rw [List.length_map, Fintype.card_fin] at hcard
  exact hcard

end Collections
