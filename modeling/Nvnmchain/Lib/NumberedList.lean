import Mathlib

/-!
# Lists numbered from one

A list that only grows gives each of its items a number: its position, from one. `numbered` looks an
item up by a 64-bit number; zero is no item's. `change` replaces the item of one number.

The three ways such a list is written have one lemma each: a new item takes the number after the last
(`numbered_concat`), a change is seen under its own number only (`numbered_change`), and a change made
to all items is seen under every number (`numbered_map`). Two lists that are related item by item stay
so when both are changed under one number (`forall₂_change`).
-/

set_option autoImplicit false

namespace NumberedList

variable {α β : Type}

/-- The item of a number. -/
def numbered (l : List α) (id : UInt64) : Option α := if id = 0 then none else l[id.toNat - 1]?

/-- The list with another item under a number. -/
def change (l : List α) (id : UInt64) (f : α → α) : List α :=
  if id = 0 then l else l.modify (id.toNat - 1) f

theorem toNat_pos {id : UInt64} (h : id ≠ 0) : 0 < id.toNat :=
  Nat.pos_of_ne_zero fun e => h (UInt64.toNat_inj.mp e)

@[simp]
theorem numbered_zero (l : List α) : numbered l 0 = none := rfl

@[simp]
theorem numbered_nil (id : UInt64) : numbered ([] : List α) id = none := by
  unfold numbered
  split
  · rfl
  · exact List.getElem?_nil

/-- Numbers count from one. -/
theorem numbered_of_ne_zero (l : List α) {id : UInt64} (h : id ≠ 0) :
    numbered l id = l[id.toNat - 1]? := if_neg h

/-- The numbers in use are those from one to the length. -/
theorem isSome_numbered {l : List α} {id : UInt64} :
    (numbered l id).isSome ↔ 1 ≤ id.toNat ∧ id.toNat ≤ l.length := by
  by_cases h : id = 0
  · rw [h, numbered_zero, UInt64.toNat_zero]
    simp
  · have hpos := toNat_pos h
    rw [numbered_of_ne_zero l h, isSome_getElem?]
    show id.toNat - 1 < l.length ↔ _
    omega

/-- Nothing is under a number past the last. -/
theorem numbered_eq_none {l : List α} {id : UInt64} (h : l.length < id.toNat) :
    numbered l id = none := by
  rw [← Option.not_isSome_iff_eq_none, isSome_numbered]
  omega

/-- What has a number is in the list. -/
theorem mem_of_numbered {l : List α} {id : UInt64} {a : α} (h : numbered l id = some a) : a ∈ l := by
  by_cases h0 : id = 0
  · rw [h0, numbered_zero] at h
    cases h
  · rw [numbered_of_ne_zero l h0] at h
    exact List.mem_of_getElem? h

/-- Every item of a list that 64 bits can number has its number. -/
theorem exists_numbered {l : List α} (hlen : l.length < 2 ^ 64) {a : α} (h : a ∈ l) :
    ∃ id, numbered l id = some a := by
  obtain ⟨i, hi, rfl⟩ := List.mem_iff_getElem.mp h
  have hnat : (UInt64.ofNat (i + 1)).toNat = i + 1 := UInt64.toNat_ofNat_of_lt' (Nat.lt_of_le_of_lt hi hlen)
  have hne : UInt64.ofNat (i + 1) ≠ 0 := by
    intro e
    rw [e, UInt64.toNat_zero] at hnat
    omega
  refine ⟨UInt64.ofNat (i + 1), ?_⟩
  rw [numbered_of_ne_zero l hne, hnat, Nat.add_sub_cancel, List.getElem?_eq_getElem hi]

/-- Looked up number by number, a list is what it is. -/
theorem filterMap_numbered {l : List α} (hlen : l.length < 2 ^ 64) :
    ((List.range l.length).filterMap fun i => numbered l (.ofNat (i + 1))) = l := by
  have hget : ∀ i ∈ List.range l.length, numbered l (.ofNat (i + 1)) = l[i]? := by
    intro i hi
    have hi := List.mem_range.mp hi
    have hnat : (UInt64.ofNat (i + 1)).toNat = i + 1 :=
      UInt64.toNat_ofNat_of_lt' (Nat.lt_of_le_of_lt hi hlen)
    have hne : UInt64.ofNat (i + 1) ≠ 0 := by
      intro e
      rw [e, UInt64.toNat_zero] at hnat
      omega
    rw [numbered_of_ne_zero l hne, hnat, Nat.add_sub_cancel]
  rw [List.filterMap_congr hget]
  clear hget hlen
  induction l using List.reverseRecOn with
  | nil => rfl
  | append_singleton l a ih =>
    have hold : ∀ i ∈ List.range l.length, (l ++ [a])[i]? = l[i]? := fun i hi =>
      List.getElem?_append_left (List.mem_range.mp hi)
    rw [List.length_append, List.length_singleton, List.range_succ, List.filterMap_append,
      List.filterMap_congr hold, ih]
    simp

/-- A new item takes the number after the last. -/
theorem numbered_concat (l : List α) (a : α) (id : UInt64) :
    numbered (l ++ [a]) id = if id.toNat = l.length + 1 then some a else numbered l id := by
  by_cases h : id = 0
  · rw [h, numbered_zero, numbered_zero, UInt64.toNat_zero, if_neg (by omega)]
  · have hpos := toNat_pos h
    rw [numbered_of_ne_zero _ h, numbered_of_ne_zero _ h]
    by_cases hlast : id.toNat = l.length + 1
    · rw [if_pos hlast, hlast, Nat.add_sub_cancel, List.getElem?_concat_length]
    · rw [if_neg hlast, List.getElem?_append]
      by_cases hlt : id.toNat - 1 < l.length
      · rw [if_pos hlt]
      · rw [if_neg hlt, List.getElem?_eq_none (by simp; omega), List.getElem?_eq_none (by omega)]

/-- The same, with the number after the last as a number. -/
theorem numbered_concat_eq {l : List α} {n : UInt64} (hn : n.toNat = l.length + 1) (a : α)
    (id : UInt64) : numbered (l ++ [a]) id = if n = id then some a else numbered l id := by
  rw [numbered_concat]
  simp only [← hn, UInt64.toNat_inj, eq_comm]

/-- A change is seen under its own number only. -/
theorem numbered_change (l : List α) (k : UInt64) (f : α → α) (id : UInt64) :
    numbered (change l k f) id = if id = k then (numbered l id).map f else numbered l id := by
  by_cases hk : k = 0
  · rw [change, if_pos hk]
    split
    · rename_i h
      rw [h, hk, numbered_zero, Option.map_none]
    · rfl
  · rw [change, if_neg hk]
    by_cases h : id = 0
    · rw [h, numbered_zero, if_neg fun e => hk e.symm, numbered_zero]
    · have hpos := toNat_pos h
      have hposk := toNat_pos hk
      rw [numbered_of_ne_zero _ h, numbered_of_ne_zero _ h, List.getElem?_modify]
      by_cases hid : id = k
      · rw [if_pos hid, hid]
        simp only [if_true]
        rfl
      · have hne : k.toNat - 1 ≠ id.toNat - 1 := by
          intro e
          exact hid (UInt64.toNat_inj.mp (by omega))
        rw [if_neg hid]
        simp only [if_neg hne]
        exact Option.map_id'

theorem numbered_map (l : List α) (f : α → β) (id : UInt64) :
    numbered (l.map f) id = (numbered l id).map f := by
  unfold numbered
  split
  · rfl
  · exact List.getElem?_map

@[simp]
theorem length_change (l : List α) (k : UInt64) (f : α → α) : (change l k f).length = l.length := by
  unfold change
  split
  · rfl
  · exact List.length_modify f l _

/-- A change that no observer sees. -/
theorem map_change (l : List α) (k : UInt64) (f : α → α) {view : α → β} (h : ∀ a, view (f a) = view a) :
    (change l k f).map view = l.map view := by
  unfold change
  split
  · rfl
  · refine List.ext_getElem? fun i => ?_
    rw [List.getElem?_map, List.getElem?_map, List.getElem?_modify]
    cases l[i]? with
    | none => rfl
    | some a =>
      show some (view (if _ then f a else a)) = some (view a)
      split
      · rw [h]
      · rfl

/-! ## Lists related item by item -/

section Related

variable {R : α → β → Prop} {l : List α} {l' : List β}

/-- Related lists have related elements under each number. -/
theorem rel_numbered (h : List.Forall₂ R l l') (id : UInt64) :
    Option.Rel R (numbered l id) (numbered l' id) := by
  unfold numbered
  split
  · exact .none
  · generalize id.toNat - 1 = i
    induction h generalizing i with
    | nil => exact .none
    | cons hab _ ih =>
      cases i with
      | zero => exact .some hab
      | succ i => exact ih i

/-- Related changes at one place keep two lists related. -/
theorem forall₂_modify (h : List.Forall₂ R l l') (i : Nat) {f : α → α} {g : β → β}
    (hfg : ∀ a b, l[i]? = some a → l'[i]? = some b → R a b → R (f a) (g b)) :
    List.Forall₂ R (l.modify i f) (l'.modify i g) := by
  induction h generalizing i with
  | nil =>
    rw [List.modify_nil, List.modify_nil]
    exact .nil
  | cons hab hrest ih =>
    cases i with
    | zero => exact .cons (hfg _ _ rfl rfl hab) hrest
    | succ i => exact .cons hab (ih i hfg)

/-- A change of both items of a number. -/
theorem forall₂_change (h : List.Forall₂ R l l') (k : UInt64) {f : α → α} {g : β → β}
    (hfg : ∀ a b, numbered l k = some a → numbered l' k = some b → R a b → R (f a) (g b)) :
    List.Forall₂ R (change l k f) (change l' k g) := by
  unfold change
  split
  · exact h
  · rename_i hk
    refine forall₂_modify h _ fun a b ha hb => hfg a b ?_ ?_
    · rwa [numbered_of_ne_zero _ hk]
    · rwa [numbered_of_ne_zero _ hk]

end Related

end NumberedList
