import Nvnmchain.Lib.OrderedMap

/-!
# Runs of equal keys

A walk over a collection with two-part keys that acts whenever the first part changes sees the
collection as runs: a first part with the second parts that follow each other under it. `runs` is
that view. Where the keys are sorted, each first part has one run, and its run is all there is of it:
the runs are the groups of the keys (`groups_runs_toList`).
-/

set_option autoImplicit false

namespace Runs

variable {α β : Type} [DecidableEq α]

/-- The runs of a list: each first part with the second parts that follow each other under it. -/
def runs : List (α × β) → List (α × List β)
  | [] => []
  | (a, b) :: rest =>
    match runs rest with
    | [] => [(a, [b])]
    | (a', bs) :: more => if a = a' then (a, b :: bs) :: more else (a, [b]) :: (a', bs) :: more

/-- The first run is under the first key. -/
theorem head?_runs (l : List (α × β)) :
    (runs l).head?.map Prod.fst = l.head?.map Prod.fst := by
  cases l with
  | nil => rfl
  | cons e rest =>
    obtain ⟨a, b⟩ := e
    rw [runs]
    split
    · rfl
    · split
      · rfl
      · rfl

/-- A run ends where the key changes. -/
theorem runs_append {a : α} {bs : List β} {rest : List (α × β)} (hbs : bs ≠ [])
    (hrest : ∀ e ∈ rest.head?, e.1 ≠ a) :
    runs (bs.map (a, ·) ++ rest) = (a, bs) :: runs rest := by
  induction bs with
  | nil => exact absurd rfl hbs
  | cons b bs ih =>
    rw [List.map_cons, List.cons_append, runs]
    cases bs with
    | nil =>
      have hhead := head?_runs rest
      rw [List.map_nil, List.nil_append]
      cases hr : runs rest with
      | nil => rfl
      | cons g more =>
        rw [hr, List.head?_cons, Option.map_some] at hhead
        obtain ⟨e, he, hkey⟩ := Option.map_eq_some_iff.mp hhead.symm
        have hne : a ≠ g.1 := hkey ▸ (hrest e he).symm
        simp only [if_neg hne]
    | cons b' bs =>
      rw [ih (List.cons_ne_nil _ _)]
      simp only [if_true]

/-- Nothing is lost and nothing is moved. -/
theorem flatMap_runs (l : List (α × β)) :
    ((runs l).flatMap fun g => g.2.map (g.1, ·)) = l := by
  induction l with
  | nil => rfl
  | cons e rest ih =>
    obtain ⟨a, b⟩ := e
    rw [runs]
    cases hr : runs rest with
    | nil =>
      rw [hr] at ih
      rw [← ih]
      rfl
    | cons g more =>
      rw [hr] at ih
      dsimp only
      split
      · rename_i h
        rw [← ih, h]
        rfl
      · rw [← ih]
        rfl

/-- No run is empty. -/
theorem ne_nil_of_mem_runs {l : List (α × β)} {g : α × List β} (h : g ∈ runs l) : g.2 ≠ [] := by
  induction l generalizing g with
  | nil => exact absurd h List.not_mem_nil
  | cons e rest ih =>
    obtain ⟨a, b⟩ := e
    rw [runs] at h
    cases hr : runs rest with
    | nil =>
      rw [hr] at h
      rw [List.mem_singleton.mp h]
      exact List.cons_ne_nil _ _
    | cons g' more =>
      rw [hr] at h ih
      dsimp only at h
      split at h
      · rcases List.mem_cons.mp h with rfl | hmore
        · exact List.cons_ne_nil _ _
        · exact ih (List.mem_cons_of_mem _ hmore)
      · rcases List.mem_cons.mp h with rfl | hmore
        · exact List.cons_ne_nil _ _
        · exact ih hmore

/-- A run is made of entries. -/
theorem mem_of_mem_runs {l : List (α × β)} {g : α × List β} (h : g ∈ runs l) {b : β} (hb : b ∈ g.2) :
    (g.1, b) ∈ l := by
  rw [← flatMap_runs l]
  exact List.mem_flatMap.mpr ⟨g, h, List.mem_map.mpr ⟨b, hb, rfl⟩⟩

/-- Every pair is in a run of its key. -/
theorem exists_mem_runs {l : List (α × β)} {a : α} {b : β} (h : (a, b) ∈ l) :
    ∃ bs, (a, bs) ∈ runs l ∧ b ∈ bs := by
  rw [← flatMap_runs l] at h
  obtain ⟨⟨a', bs⟩, hg, hb⟩ := List.mem_flatMap.mp h
  obtain ⟨b', hb', heq⟩ := List.mem_map.mp hb
  cases heq
  exact ⟨bs, hg, hb'⟩

/-- In a sorted list each key has one run. -/
theorem nodup_keys_runs {R : α → α → Prop} (antisymm : ∀ a b, R a b → R b a → a = b)
    {l : List (α × β)} (hsorted : l.Pairwise fun x y => R x.1 y.1) :
    ((runs l).map Prod.fst).Nodup := by
  induction l with
  | nil => exact List.nodup_nil
  | cons e rest ih =>
    obtain ⟨a, b⟩ := e
    obtain ⟨hfirst, hrest⟩ := List.pairwise_cons.mp hsorted
    have ih := ih hrest
    rw [runs]
    cases hr : runs rest with
    | nil => exact List.nodup_singleton a
    | cons g more =>
      rw [hr] at ih
      dsimp only
      split
      · rename_i h
        rw [h]
        exact ih
      · rename_i hne
        refine List.nodup_cons.mpr ⟨fun hmem => hne ?_, ih⟩
        -- a later run under `a` would be at most the first run of the rest, and at least
        obtain ⟨g', hg', rfl⟩ := List.mem_map.mp hmem
        have hruns : g' ∈ runs rest := hr ▸ hg'
        obtain ⟨b', hb'⟩ := List.exists_mem_of_ne_nil _ (ne_nil_of_mem_runs hruns)
        have hin := mem_of_mem_runs hruns hb'
        have hhead := head?_runs rest
        rw [hr, List.head?_cons, Option.map_some] at hhead
        obtain ⟨e, he, hkey⟩ := Option.map_eq_some_iff.mp hhead.symm
        obtain ⟨tail, htail⟩ := List.head?_eq_some_iff.mp he
        rw [htail] at hin hfirst hrest
        have hle : R g'.1 g.1 := hkey ▸ hfirst e List.mem_cons_self
        rcases List.mem_cons.mp hin with heq | hlater
        · rw [← hkey, ← heq]
        · exact antisymm _ _ hle (hkey ▸ (List.pairwise_cons.mp hrest).1 _ hlater)

/-- In a sorted list the run of a key is all there is of it. -/
theorem filter_of_mem_runs {l : List (α × β)} (hnodup : ((runs l).map Prod.fst).Nodup) {a : α}
    {bs : List β} (h : (a, bs) ∈ runs l) : l.filter (·.1 = a) = bs.map (a, ·) := by
  have hflat : ∀ gs : List (α × List β), (gs.map Prod.fst).Nodup → (a, bs) ∈ gs →
      (gs.flatMap fun g => g.2.map (g.1, ·)).filter (·.1 = a) = bs.map (a, ·) := by
    intro gs hnodup hmem
    induction gs with
    | nil => exact absurd hmem List.not_mem_nil
    | cons g gs ih =>
      obtain ⟨hg, hnodup⟩ := List.nodup_cons.mp hnodup
      rw [List.flatMap_cons, List.filter_append]
      by_cases hga : g.1 = a
      · have hgs : (gs.flatMap fun g => g.2.map (g.1, ·)).filter (·.1 = a) = [] := by
          refine List.filter_eq_nil_iff.mpr fun e he => ?_
          obtain ⟨g', hg', he'⟩ := List.mem_flatMap.mp he
          obtain ⟨b, -, rfl⟩ := List.mem_map.mp he'
          have hne : g'.1 ≠ a := fun e => hg (hga ▸ e ▸ List.mem_map.mpr ⟨g', hg', rfl⟩)
          simpa using hne
        have hgeq : g = (a, bs) := by
          rcases List.mem_cons.mp hmem with heq | hlater
          · exact heq.symm
          · exact absurd (hga ▸ List.mem_map.mpr ⟨_, hlater, rfl⟩) hg
        rw [hgs, List.append_nil, hgeq]
        exact List.filter_eq_self.mpr fun e he => by
          obtain ⟨b, -, rfl⟩ := List.mem_map.mp he
          simp
      · have hnil : (g.2.map (g.1, ·)).filter (·.1 = a) = [] := by
          refine List.filter_eq_nil_iff.mpr fun e he => ?_
          obtain ⟨b, -, rfl⟩ := List.mem_map.mp he
          simpa using hga
        rw [hnil, List.nil_append]
        refine ih hnodup ((List.mem_cons.mp hmem).resolve_left fun heq => hga ?_)
        rw [← heq]
  have hruns := hflat (runs l) hnodup h
  rwa [flatMap_runs] at hruns

/-! ## Groups -/

/-- The groups of a relation by its first argument: one rising list for each value that is related to
something, and no other. -/
structure Groups (lt : β → β → Prop) (rel : α → β → Prop) (groups : List (α × List β)) : Prop where
  keys : (groups.map Prod.fst).Nodup
  rising : ∀ g ∈ groups, g.2.Pairwise lt
  mem : ∀ g ∈ groups, ∀ b, b ∈ g.2 ↔ rel g.1 b
  present : ∀ a, (∃ g ∈ groups, g.1 = a) ↔ ∃ b, rel a b

/-! ## The keys of a collection -/

section Collection

open Collections

variable {κ₁ κ₂ ν : Type} [Ord κ₁] [Ord κ₂] [Std.TransOrd κ₁] [Std.TransOrd κ₂]
  [Std.LawfulEqOrd κ₁] [DecidableEq κ₁]

/-- The first parts of the keys of a collection have one run each. -/
theorem nodup_keys_runs_toList (m : Map (κ₁ × κ₂) ν) :
    ((runs (m.toList.map Prod.fst)).map Prod.fst).Nodup := by
  refine nodup_keys_runs (R := fun a b => compare a b ≠ .gt) (fun a b hab hba => ?_) ?_
  · cases hc : compare a b with
    | eq => exact Std.LawfulEqOrd.compare_eq_iff_eq.mp hc
    | gt => exact absurd hc hab
    | lt => exact absurd (Std.OrientedCmp.gt_iff_lt.mpr hc) hba
  · refine List.pairwise_map.mpr (Std.ExtTreeMap.ordered_keys_toList.imp fun {x y} h hgt => ?_)
    have hlex : (compare x.1.1 y.1.1).then (compare x.1.2 y.1.2) = .lt := h
    rw [hgt] at hlex
    cases hlex

variable [Std.LawfulEqOrd κ₂]

/-- The runs of the keys of a collection are their groups. -/
theorem groups_runs_toList (m : Map (κ₁ × κ₂) ν) :
    Groups (fun b b' => compare b b' = .lt) (fun a b => (a, b) ∈ m)
      (runs (m.toList.map Prod.fst)) := by
  have hmem : ∀ key, key ∈ m.toList.map Prod.fst ↔ key ∈ m := by
    intro key
    rw [Std.ExtTreeMap.map_fst_toList_eq_keys, Std.ExtTreeMap.mem_keys]
  have hnodup := nodup_keys_runs_toList m
  have hfilter : ∀ g ∈ runs (m.toList.map Prod.fst),
      (m.toList.map Prod.fst).filter (·.1 = g.1) = g.2.map (g.1, ·) :=
    fun g hg => filter_of_mem_runs hnodup hg
  refine ⟨hnodup, fun g hg => ?_, fun g hg b => ?_, fun a => ⟨?_, ?_⟩⟩
  · have hsorted : (m.toList.map Prod.fst).Pairwise fun x y => compare x y = .lt :=
      List.pairwise_map.mpr Std.ExtTreeMap.ordered_keys_toList
    have hgroup := hsorted.filter (·.1 = g.1)
    rw [hfilter g hg, List.pairwise_map] at hgroup
    refine hgroup.imp fun {b b'} h => ?_
    have hlex : (compare g.1 g.1).then (compare b b') = .lt := h
    have hself : compare g.1 g.1 = .eq := Std.ReflCmp.compare_self
    rw [hself] at hlex
    exact hlex
  · constructor
    · intro hb
      exact (hmem _).mp (mem_of_mem_runs hg hb)
    · intro hb
      have hin : (g.1, b) ∈ (m.toList.map Prod.fst).filter (·.1 = g.1) :=
        List.mem_filter.mpr ⟨(hmem _).mpr hb, by simp⟩
      rw [hfilter g hg, List.mem_map] at hin
      obtain ⟨b', hb', heq⟩ := hin
      exact (Prod.mk.inj heq).2 ▸ hb'
  · rintro ⟨g, hg, rfl⟩
    obtain ⟨b, hb⟩ := List.exists_mem_of_ne_nil _ (ne_nil_of_mem_runs hg)
    exact ⟨b, (hmem _).mp (mem_of_mem_runs hg hb)⟩
  · rintro ⟨b, hb⟩
    obtain ⟨bs, hg, -⟩ := exists_mem_runs ((hmem _).mpr hb)
    exact ⟨(a, bs), hg, rfl⟩

end Collection

end Runs
