import Mathlib

/-!
# Reading a growing list by pages

A reader asks for the items of a sorted list from a cursor on, a page at a time, and gets with each
page the item after it, as the next cursor. The list may grow between two pages. `Walk` is such a
reading, from its first page to the one that has no item after it.

Each cursor lies past the one before, so a reading ends where the items do not rise for ever
(`Walk.exists_of`); it lists in order, repeats nothing, and misses nothing that was there at its
start (`Walk.complete`); and its pages are full, up to the last (`Walk.full`).
-/

set_option autoImplicit false

namespace Cursor

variable {α : Type} [LinearOrder α]

/-- The items from a cursor on. -/
def onward (l : List α) (start : α) : List α := l.filter (start ≤ ·)

/-- A reading by pages: the list at each request, the request and the cursor it starts with, and its
pages. -/
inductive Walk (size : Nat) (lists : Nat → List α) : Nat → α → List (List α) → Prop
  | last {k : Nat} {start : α} (none : ((onward (lists k) start).drop size).head? = none) :
    Walk size lists k start [(onward (lists k) start).take size]
  | more {k : Nat} {start next : α} {pages : List (List α)}
    (some : ((onward (lists k) start).drop size).head? = some next)
    (rest : Walk size lists (k + 1) next pages) :
    Walk size lists k start ((onward (lists k) start).take size :: pages)

/-- What is left from a cursor on. -/
theorem mem_onward {l : List α} {start x : α} : x ∈ onward l start ↔ x ∈ l ∧ start ≤ x := by
  rw [onward, List.mem_filter, decide_eq_true_eq]

theorem sorted_onward {l : List α} (h : l.Pairwise (· < ·)) (start : α) :
    (onward l start).Pairwise (· < ·) := h.filter _

/-- What lies around the item after a page: the page before it, and the rest of the list from it on. -/
theorem split_page {l : List α} {start next : α} {size : Nat} (h : l.Pairwise (· < ·))
    (hnext : ((onward l start).drop size).head? = some next) :
    (∀ x ∈ (onward l start).take size, x < next) ∧
      ((onward l start).take size).length = size ∧
      ∀ x ∈ onward l start, x ∉ (onward l start).take size → x ∈ l ∧ next ≤ x := by
  obtain ⟨rest, hrest⟩ : ∃ rest, (onward l start).drop size = next :: rest := by
    cases hd : (onward l start).drop size with
    | nil => rw [hd] at hnext; cases hnext
    | cons y rest => rw [hd] at hnext; cases hnext; exact ⟨rest, rfl⟩
  have hsplit : onward l start = (onward l start).take size ++ next :: rest := by
    rw [← hrest, List.take_append_drop]
  have hsorted := sorted_onward h start
  rw [hsplit, List.pairwise_append] at hsorted
  obtain ⟨_, hafter, hbetween⟩ := hsorted
  refine ⟨fun x hx => hbetween x hx next List.mem_cons_self, ?_, fun x hx hnot => ?_⟩
  · rw [List.length_take, Nat.min_eq_left]
    by_contra hlt
    rw [List.drop_eq_nil_of_le (by omega)] at hrest
    cases hrest
  · refine ⟨(mem_onward.mp hx).1, ?_⟩
    rw [hsplit, List.mem_append, List.mem_cons] at hx
    rcases hx with hx | rfl | hx
    · exact absurd hx hnot
    · exact le_refl x
    · exact ((List.pairwise_cons.mp hafter).1 x hx).le

/-- The next cursor lies past the one before. -/
theorem lt_next {l : List α} {start next : α} {size : Nat} (h : l.Pairwise (· < ·)) (hsize : 0 < size)
    (hnext : ((onward l start).drop size).head? = some next) : start < next := by
  obtain ⟨hbefore, hlength, _⟩ := split_page h hnext
  obtain ⟨x, hx⟩ := List.exists_mem_of_length_pos (hlength.symm ▸ hsize)
  exact lt_of_le_of_lt (mem_onward.mp (List.mem_of_mem_take hx)).2 (hbefore x hx)

namespace Walk

variable {size : Nat} {lists : Nat → List α}

/-- **A reading ends**, where a rank falls from what lies before an item to the item. -/
theorem exists_of {rank : α → Nat} (hsorted : ∀ k, (lists k).Pairwise (· < ·)) (hsize : 0 < size)
    (hrank : ∀ k, ∀ x ∈ lists k, ∀ a, a < x → rank x < rank a) (k : Nat) (start : α) :
    ∃ pages, Walk size lists k start pages := by
  induction hn : rank start using Nat.strong_induction_on generalizing k start with
  | _ n ih =>
    cases hnext : ((onward (lists k) start).drop size).head? with
    | none => exact ⟨_, .last hnext⟩
    | some next =>
      have hmem := List.mem_of_mem_drop (List.mem_of_head? hnext)
      have hlt := hrank k next (mem_onward.mp hmem).1 start (lt_next (hsorted k) hsize hnext)
      obtain ⟨pages, hpages⟩ := ih (rank next) (hn ▸ hlt) (k + 1) next rfl
      exact ⟨_, .more hnext hpages⟩

/-- Every page but the last is full. -/
theorem full (hsorted : ∀ k, (lists k).Pairwise (· < ·)) {k : Nat} {start : α}
    {pages : List (List α)} (h : Walk size lists k start pages) :
    ∀ page ∈ pages.dropLast, page.length = size := by
  induction h with
  | last hnone => exact fun _ hpage => absurd hpage List.not_mem_nil
  | @more k start next pages hnext hrest ih =>
    cases pages with
    | nil => exact fun _ hpage => absurd hpage List.not_mem_nil
    | cons page pages =>
      rw [List.dropLast_cons_cons]
      exact List.forall_mem_cons.mpr ⟨(split_page (hsorted k) hnext).2.1, ih⟩

/-- **A reading is complete**: it lists in order, from its cursor on, what was in the lists, and it
lists everything that was there at its start. -/
theorem complete (hsorted : ∀ k, (lists k).Pairwise (· < ·))
    (hgrows : ∀ k, ∀ x ∈ lists k, x ∈ lists (k + 1)) {k : Nat} {start : α} {pages : List (List α)}
    (h : Walk size lists k start pages) :
    pages.flatten.Pairwise (· < ·) ∧ (∀ x ∈ pages.flatten, start ≤ x) ∧
      ∀ x ∈ lists k, start ≤ x → x ∈ pages.flatten := by
  induction h with
  | @last k start hnone =>
    have hall : (onward (lists k) start).take size = onward (lists k) start := by
      refine List.take_of_length_le (Nat.le_of_not_lt fun hlt => ?_)
      have hne : (onward (lists k) start).drop size ≠ [] := fun e =>
        absurd (List.drop_eq_nil_iff.mp e) (Nat.not_le.mpr hlt)
      exact hne (List.head?_eq_none_iff.mp hnone)
    rw [hall, List.flatten_cons, List.flatten_nil, List.append_nil]
    exact ⟨sorted_onward (hsorted k) start, fun x hx => (mem_onward.mp hx).2,
      fun x hx hle => mem_onward.mpr ⟨hx, hle⟩⟩
  | @more k start next pages hnext hrest ih =>
    obtain ⟨hpages, hpast, hthere⟩ := ih
    obtain ⟨hbefore, -, hafter⟩ := split_page (hsorted k) hnext
    have hstart : start ≤ next :=
      (mem_onward.mp (List.mem_of_mem_drop (List.mem_of_head? hnext))).2
    rw [List.flatten_cons]
    refine ⟨List.pairwise_append.mpr ⟨(sorted_onward (hsorted k) start).take, hpages, ?_⟩, ?_, ?_⟩
    · exact fun x hx y hy => (hbefore x hx).trans_le (hpast y hy)
    · intro x hx
      rcases List.mem_append.mp hx with hx | hx
      · exact (mem_onward.mp (List.mem_of_mem_take hx)).2
      · exact hstart.trans (hpast x hx)
    · intro x hx hle
      by_cases hpage : x ∈ (onward (lists k) start).take size
      · exact List.mem_append_left _ hpage
      · obtain ⟨_, hle'⟩ := hafter x (mem_onward.mpr ⟨hx, hle⟩) hpage
        exact List.mem_append_right _ (hthere x (hgrows k x hx) hle')

end Walk

end Cursor
