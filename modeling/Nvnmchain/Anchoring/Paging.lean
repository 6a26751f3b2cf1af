import Nvnmchain.Anchoring.Query

/-!
# Pages of a listing

The listings of `Records` share a paginator: it passes over the entries before an offset, takes those
after it until there are as many as the limit allows, and stops the walk. Here is what that comes to:
a page is the slice of the items the offset and the limit name.

Both counts of the paginator are `uint64`. The count of the items taken ends at the limit, but the
count of the items seen can wrap: a page still open then passes over the offset once more. `taken_eq_slice`
and `taken_eq_of_wrap` are the two sides of that.
-/

set_option autoImplicit false

namespace Nvnmchain

open Go (Bytes str)
open Collections

/-! ## What a paginator takes -/

namespace Paginator

variable {α β : Type}

/-- The items a paginator takes from a list. -/
def taken (p : Paginator) : List α → List α
  | [] => []
  | x :: rest =>
    let (included, stop, p) := p.step
    (if included then [x] else []) ++ (if stop then [] else p.taken rest)

/-- A page is taken from the list in its order. -/
theorem taken_sublist (p : Paginator) (l : List α) : (p.taken l).Sublist l := by
  induction l generalizing p with
  | nil => exact .slnil
  | cons x rest ih =>
    have hrest : (if p.step.2.1 then [] else p.step.2.2.taken rest).Sublist rest := by
      split
      · exact List.nil_sublist rest
      · exact ih _
    show ((if p.step.1 then [x] else []) ++ if p.step.2.1 then [] else p.step.2.2.taken rest).Sublist
      (x :: rest)
    split
    · exact hrest.cons_cons x
    · exact hrest.cons x

/-- Items may be looked up before or after the page is taken. -/
theorem filterMap_taken {g : α → Option β} {l : List α} (h : ∀ x ∈ l, ∃ b, g x = some b)
    (p : Paginator) : (p.taken l).filterMap g = p.taken (l.filterMap g) := by
  induction l generalizing p with
  | nil => rfl
  | cons x rest ih =>
    obtain ⟨⟨b, hb⟩, hrest⟩ := List.forall_mem_cons.mp h
    rw [List.filterMap_cons_some hb]
    show ((if p.step.1 then [x] else []) ++ if p.step.2.1 then [] else p.step.2.2.taken rest).filterMap g
      = (if p.step.1 then [b] else []) ++ if p.step.2.1 then [] else p.step.2.2.taken (rest.filterMap g)
    rw [List.filterMap_append, ← ih hrest]
    congr 1
    · split
      · rw [List.filterMap_cons_some hb, List.filterMap_nil]
      · rfl
    · split
      · rfl
      · rfl

end Paginator

section Walk

variable {κ ν α : Type} {item : κ → ν → Except Fault α}

/-- An entry that reads steps the paginator once, and is kept if the step says so. -/
theorem pageEntry_eq {key : κ} {value : ν} {a : α} (h : item key value = .ok a) (p : Paginator)
    (acc : List α) :
    pageEntry item (p, acc) key value =
      .ok (p.step.2.1, p.step.2.2, acc ++ if p.step.1 then [a] else []) := by
  simp only [pageEntry, h]
  split
  · rfl
  · rw [List.append_nil]
    rfl

/-- A walk over entries that all have an item takes a page of the items. -/
theorem walk_pageEntry {entries : List (κ × ν)} (h : ∀ e ∈ entries, ∃ a, item e.1 e.2 = .ok a)
    (p : Paginator) (acc : List α) :
    ∃ p', walk (pageEntry item) (p, acc) entries =
      .ok (p', acc ++ p.taken (entries.filterMap fun e => (item e.1 e.2).toOption)) := by
  induction entries generalizing p acc with
  | nil => exact ⟨p, by rw [List.filterMap_nil, Paginator.taken, List.append_nil]; rfl⟩
  | cons e rest ih =>
    obtain ⟨⟨a, ha⟩, hrest⟩ := List.forall_mem_cons.mp h
    have hitem : (item e.1 e.2).toOption = some a := by rw [ha]; rfl
    have hfirst : ((e :: rest).filterMap fun e => (item e.1 e.2).toOption) =
        a :: rest.filterMap fun e => (item e.1 e.2).toOption :=
      List.filterMap_cons_some (f := fun e : κ × ν => (item e.1 e.2).toOption) hitem
    rw [hfirst, walk, pageEntry_eq ha, Paginator.taken]
    dsimp only [bind, Except.bind]
    cases p.step.2.1 with
    | true => exact ⟨p.step.2.2, by rw [if_pos rfl, if_pos rfl, List.append_nil]⟩
    | false =>
      obtain ⟨p', hwalk⟩ := ih hrest p.step.2.2 (acc ++ if p.step.1 then [a] else [])
      exact ⟨p', by rw [if_neg Bool.false_ne_true, if_neg Bool.false_ne_true, hwalk, List.append_assoc]⟩

/-- **A listing is a page of the items.** -/
theorem listPage_eq {entries : List (κ × ν)} (h : ∀ e ∈ entries, ∃ a, item e.1 e.2 = .ok a)
    (pr : Option PageRequest) :
    listPage pr item entries =
      .ok ((newPaginator pr).taken (entries.filterMap fun e => (item e.1 e.2).toOption)) := by
  obtain ⟨p', hwalk⟩ := walk_pageEntry h (newPaginator pr) []
  rw [listPage, hwalk]
  rfl

end Walk

/-! ## Pages are slices -/

theorem toNat_succ {n : UInt64} (h : n.toNat + 1 < 2 ^ 64) : (n + 1).toNat = n.toNat + 1 := by
  rw [UInt64.toNat_add, UInt64.toNat_one, Nat.mod_eq_of_lt h]

namespace Paginator

variable {α : Type} {offset limit seen collected : UInt64} {n : Nat}

/-- An item before the offset is passed over. -/
theorem taken_skip (h : seen < offset) (x : α) (rest : List α) :
    taken ⟨offset, limit, seen, collected⟩ (x :: rest) =
      taken ⟨offset, limit, seen + 1, collected⟩ rest := by
  simp only [taken, step, if_pos h, Bool.false_eq_true, if_false, List.nil_append]

/-- An item past the offset is taken, until there are enough. -/
theorem taken_collect (h : ¬ seen < offset) (hmore : collected < limit) (x : α) (rest : List α) :
    taken ⟨offset, limit, seen, collected⟩ (x :: rest) =
      x :: if collected + 1 = limit then []
        else taken ⟨offset, limit, seen + 1, collected + 1⟩ rest := by
  simp only [taken, step, if_neg h, if_pos hmore, if_true, decide_eq_true_eq, List.singleton_append]

/-- The last item of a page. -/
theorem taken_last (h : ¬ seen < offset) (hlimit : collected.toNat + 1 = limit.toNat) (x : α)
    (rest : List α) : taken ⟨offset, limit, seen, collected⟩ (x :: rest) = [x] := by
  have hbound := limit.toNat_lt
  have hcollected : (collected + 1).toNat = collected.toNat + 1 := toNat_succ (by omega)
  have hfull : collected + 1 = limit := UInt64.toNat_inj.mp (by omega)
  rw [taken_collect h (UInt64.lt_iff_toNat_lt.mpr (by omega)), if_pos hfull]

/-- An item of a page that is not its last. -/
theorem taken_more (h : ¬ seen < offset) (hlimit : collected.toNat + 1 < limit.toNat) (x : α)
    (rest : List α) :
    (collected + 1).toNat = collected.toNat + 1 ∧
      taken ⟨offset, limit, seen, collected⟩ (x :: rest) =
        x :: taken ⟨offset, limit, seen + 1, collected + 1⟩ rest := by
  have hbound := limit.toNat_lt
  have hcollected : (collected + 1).toNat = collected.toNat + 1 := toNat_succ (by omega)
  have hnot : collected + 1 ≠ limit := fun e => by
    rw [← e] at hlimit
    omega
  rw [taken_collect h (UInt64.lt_iff_toNat_lt.mpr (by omega)), if_neg hnot]
  exact ⟨hcollected, rfl⟩

/-- Past the offset the count stays past it, until it wraps. -/
theorem not_succ_lt (h : ¬ seen < offset) (hwrap : seen.toNat + 1 < 2 ^ 64) : ¬ seen + 1 < offset := by
  have hnext : (seen + 1).toNat = seen.toNat + 1 := toNat_succ hwrap
  rw [UInt64.lt_iff_toNat_lt] at h ⊢
  omega

/-- The items before the offset are passed over. -/
theorem taken_offset (h : seen.toNat + n = offset.toNat) (l : List α) :
    taken ⟨offset, limit, seen, collected⟩ l = taken ⟨offset, limit, offset, collected⟩ (l.drop n) := by
  induction n generalizing seen l with
  | zero =>
    rw [UInt64.toNat_inj.mp h]
    rfl
  | succ n ih =>
    have hbound := offset.toNat_lt
    cases l with
    | nil => rfl
    | cons x rest =>
      have hskip : seen < offset := UInt64.lt_iff_toNat_lt.mpr (by omega)
      have hnext : (seen + 1).toNat = seen.toNat + 1 := toNat_succ (by omega)
      rw [taken_skip hskip, List.drop_succ_cons]
      exact ih (by omega) rest

/-- From the offset on a page is taken, as long as the count of the items seen does not wrap. -/
theorem taken_page (hseen : ¬ seen < offset) (hpos : 0 < n)
    (hlimit : collected.toNat + n = limit.toNat) (hwrap : seen.toNat + n ≤ 2 ^ 64) (l : List α) :
    taken ⟨offset, limit, seen, collected⟩ l = l.take n := by
  induction n generalizing seen collected l with
  | zero => exact absurd hpos (Nat.lt_irrefl 0)
  | succ n ih =>
    cases l with
    | nil => rfl
    | cons x rest =>
      cases n with
      | zero => rw [taken_last hseen hlimit, List.take_succ_cons, List.take_zero]
      | succ n =>
        have hnext : (seen + 1).toNat = seen.toNat + 1 := toNat_succ (by omega)
        have hmore : collected.toNat + 1 < limit.toNat := by omega
        obtain ⟨hcollected, htaken⟩ := taken_more hseen hmore x rest
        rw [htaken, List.take_succ_cons,
          ih (not_succ_lt hseen (by omega)) (Nat.succ_pos n) (by omega) (by omega)]

/-- A page that is still open when the count of the items seen wraps starts over: the offset is passed
over once more. -/
theorem taken_wrap (collected : UInt64) (hseen : ¬ seen < offset)
    (hlimit : collected.toNat + n < limit.toNat) (hwrap : seen.toNat + n = 2 ^ 64) (l : List α) :
    ∃ collected' : UInt64, taken ⟨offset, limit, seen, collected⟩ l =
      l.take n ++ taken ⟨offset, limit, 0, collected'⟩ (l.drop n) := by
  induction n generalizing seen collected l with
  | zero => exact absurd hwrap seen.toNat_lt.ne
  | succ n ih =>
    cases l with
    | nil => exact ⟨0, rfl⟩
    | cons x rest =>
      have hmore : collected.toNat + 1 < limit.toNat := by omega
      obtain ⟨hcollected, htaken⟩ := taken_more hseen hmore x rest
      rw [htaken, List.take_succ_cons, List.drop_succ_cons]
      cases n with
      | zero =>
        have hzero : seen + 1 = 0 := UInt64.toNat_inj.mp (by
          rw [UInt64.toNat_add, UInt64.toNat_one, hwrap]
          rfl)
        rw [hzero]
        exact ⟨collected + 1, rfl⟩
      | succ n =>
        have hnext : (seen + 1).toNat = seen.toNat + 1 := toNat_succ (by omega)
        obtain ⟨collected', hrest⟩ :=
          ih (collected + 1) (not_succ_lt hseen (by omega)) (by omega) (by omega) rest
        exact ⟨collected', by rw [hrest, List.cons_append]⟩

end Paginator

/-- The offset of a page. -/
def pageOffset (pr : Option PageRequest) : Nat := (pr.elim 0 (·.offset)).toNat

/-- The size of a page: its limit, fifty when it has none, and two hundred at most. -/
def pageSize (pr : Option PageRequest) : Nat :=
  let limit := (pr.elim 0 (·.limit)).toNat
  if limit = 0 then 50 else min limit 200

/-- The limit of a request, made safe. -/
theorem limit_toNat (limit : UInt64) :
    (if (if limit = 0 then defaultPageLimit else limit) > maxPageLimit then maxPageLimit
      else if limit = 0 then defaultPageLimit else limit).toNat =
      if limit.toNat = 0 then 50 else min limit.toNat 200 := by
  by_cases hnone : limit = 0
  · rw [if_pos hnone, hnone]
    decide
  · have hpos : ¬ limit.toNat = 0 := fun h => hnone (UInt64.toNat_inj.mp h)
    rw [if_neg hnone, if_neg hpos]
    by_cases hmax : limit > maxPageLimit
    · rw [if_pos hmax]
      exact (Nat.min_eq_right (UInt64.lt_iff_toNat_lt.mp hmax).le).symm
    · rw [if_neg hmax]
      exact (Nat.min_eq_left (Nat.le_of_not_lt (mt UInt64.lt_iff_toNat_lt.mpr hmax))).symm

/-- The limit of a sanitized request is the page size. -/
theorem toNat_sanitized_limit (pr : Option PageRequest) :
    (sanitizePageRequest pr defaultPageLimit maxPageLimit).limit.toNat = pageSize pr := by
  cases pr with
  | none => exact limit_toNat 0
  | some pageReq => exact limit_toNat pageReq.limit

/-- The offset of a sanitized request is the request's. -/
theorem toNat_sanitized_offset (pr : Option PageRequest) :
    (sanitizePageRequest pr defaultPageLimit maxPageLimit).offset.toNat = pageOffset pr := by
  cases pr with
  | none => rfl
  | some pageReq => rfl

/-- A paginator starts with the request's offset and page size, and nothing counted. -/
theorem newPaginator_eq (pr : Option PageRequest) : ∃ offset limit : UInt64,
    newPaginator pr = ⟨offset, limit, 0, 0⟩ ∧ offset.toNat = pageOffset pr ∧
      limit.toNat = pageSize pr :=
  ⟨_, _, rfl, toNat_sanitized_offset pr, toNat_sanitized_limit pr⟩

/-- A page has room for an entry. -/
theorem pageSize_pos (pr : Option PageRequest) : 0 < pageSize pr := by
  unfold pageSize
  dsimp only
  split <;> omega

/-- A page has at most two hundred entries. -/
theorem pageSize_le (pr : Option PageRequest) : pageSize pr ≤ 200 := by
  unfold pageSize
  dsimp only
  split <;> omega

/-- A page starts at its offset. -/
theorem taken_newPaginator {α : Type} (pr : Option PageRequest) (l : List α) :
    ∃ offset limit : UInt64, offset.toNat = pageOffset pr ∧ limit.toNat = pageSize pr ∧
      (newPaginator pr).taken l =
        Paginator.taken ⟨offset, limit, offset, 0⟩ (l.drop (pageOffset pr)) := by
  obtain ⟨offset, limit, hp, hoffset, hlimit⟩ := newPaginator_eq pr
  refine ⟨offset, limit, hoffset, hlimit, ?_⟩
  rw [hp, Paginator.taken_offset (n := pageOffset pr) (by rw [hoffset]; exact Nat.zero_add _)]

/-- A page takes nothing from before its offset. -/
theorem taken_sublist_drop {α : Type} (pr : Option PageRequest) (l : List α) :
    ((newPaginator pr).taken l).Sublist (l.drop (pageOffset pr)) := by
  obtain ⟨offset, limit, -, -, htaken⟩ := taken_newPaginator pr l
  rw [htaken]
  apply Paginator.taken_sublist

/-- Where the count wraps within a page, the page starts over there. -/
theorem taken_newPaginator_wraps {α : Type} {pr : Option PageRequest}
    (h : 2 ^ 64 < pageOffset pr + pageSize pr) (l : List α) :
    ∃ offset limit collected : UInt64, offset.toNat = pageOffset pr ∧
      (newPaginator pr).taken l = (l.drop (pageOffset pr)).take (2 ^ 64 - pageOffset pr) ++
        Paginator.taken ⟨offset, limit, 0, collected⟩
          ((l.drop (pageOffset pr)).drop (2 ^ 64 - pageOffset pr)) := by
  obtain ⟨offset, limit, hoffset, hlimit, htaken⟩ := taken_newPaginator pr l
  have hbound := offset.toNat_lt
  have hopen : (0 : UInt64).toNat + (2 ^ 64 - pageOffset pr) < limit.toNat := by
    rw [hlimit, UInt64.toNat_zero]
    omega
  obtain ⟨collected, hwrap⟩ := Paginator.taken_wrap 0 (UInt64.lt_irrefl offset) hopen (by omega)
    (l.drop (pageOffset pr))
  exact ⟨offset, limit, collected, hoffset, htaken.trans hwrap⟩

/-- **A page is a slice**, from its offset on and of its size, where the count of the items seen does
not wrap or there is nothing to see when it does. -/
theorem taken_eq_slice {α : Type} {pr : Option PageRequest} {l : List α}
    (h : pageOffset pr + pageSize pr ≤ 2 ^ 64 ∨ l.length ≤ 2 ^ 64) :
    (newPaginator pr).taken l = (l.drop (pageOffset pr)).take (pageSize pr) := by
  by_cases hfits : pageOffset pr + pageSize pr ≤ 2 ^ 64
  · obtain ⟨offset, limit, hoffset, hlimit, htaken⟩ := taken_newPaginator pr l
    rw [htaken]
    exact Paginator.taken_page (UInt64.lt_irrefl offset) (pageSize_pos pr)
      (by rw [hlimit]; exact Nat.zero_add _) (by rw [hoffset]; exact hfits) _
  · have hlen : (l.drop (pageOffset pr)).length ≤ 2 ^ 64 - pageOffset pr := by
      rw [List.length_drop]
      exact Nat.sub_le_sub_right (h.resolve_left hfits) _
    obtain ⟨offset, limit, collected, _, htaken⟩ :=
      taken_newPaginator_wraps (Nat.lt_of_not_le hfits) l
    rw [htaken, List.take_of_length_le hlen, List.drop_eq_nil_of_le hlen, Paginator.taken,
      List.append_nil, List.take_of_length_le (by omega)]

/-- Slices one after the other make up the list as far as they go. -/
theorem flatMap_slices {α : Type} (l : List α) (size n : Nat) :
    (List.range n).flatMap (fun i => (l.drop (i * size)).take size) = l.take (n * size) := by
  induction n with
  | zero => rw [Nat.zero_mul, List.take_zero, List.range_zero, List.flatMap_nil]
  | succ n ih =>
    rw [List.range_succ, List.flatMap_append, ih, List.flatMap_singleton, Nat.succ_mul, List.take_add]

/-- Where the count wraps within a page, the page ends there, unless the items go on for the offset
once more. -/
theorem taken_eq_of_wrap {α : Type} {pr : Option PageRequest} {l : List α}
    (h : 2 ^ 64 < pageOffset pr + pageSize pr) (hlen : l.length ≤ 2 ^ 64 + pageOffset pr) :
    (newPaginator pr).taken l = (l.drop (pageOffset pr)).take (2 ^ 64 - pageOffset pr) := by
  obtain ⟨offset, limit, collected, hoffset, htaken⟩ := taken_newPaginator_wraps h l
  have hbound := offset.toNat_lt
  have hrest : ((l.drop (pageOffset pr)).drop (2 ^ 64 - pageOffset pr)).length ≤ pageOffset pr := by
    rw [List.length_drop, List.length_drop]
    omega
  rw [htaken, Paginator.taken_offset (n := pageOffset pr) (by rw [hoffset]; exact Nat.zero_add _),
    List.drop_eq_nil_of_le hrest, Paginator.taken, List.append_nil]

end Nvnmchain
