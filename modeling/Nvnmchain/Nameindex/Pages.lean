import Nvnmchain.Lib.Cursor
import Nvnmchain.Anchoring.Paging
import Nvnmchain.Nameindex.Literal

/-!
# Paging a name search

`Store.Search` reads one row more than a page holds: the row tells it where the next page starts, and
`SearchRegistriesByName` hands its id to the caller as a key. Here is what a caller gets who follows the
keys to the end while the index grows.

The database is outside. What is assumed of it is `Answers`: to the statement of the search and under the
numbers its driver takes, it answers the rows that match, from an id on and in the order of ids. Which rows
those are is left open, so the results hold for every mode; for three of them `name_matched_literally` says
which. On an index whose ids stay below `MaxInt64` the clamps of `Search` change nothing
(`Index.search_eq`), and a reading by pages then follows a cursor over the matching ids
(`readPages_of_walk`), so it ends, and is complete, by the laws of `Cursor.Walk`.
-/

set_option autoImplicit false

namespace Nvnmchain.NameIndex

open Go (Bytes str)
open Collections

/-! ## The index and the database -/

/-- A table of registries, each under its own id, with ids from 1 to below `MaxInt64`. -/
structure Index (lib : Env) (table : Table) : Prop where
  pos : ∀ id ∈ table, 1 ≤ id.toNat
  below : ∀ id ∈ table, id.toNat < maxInt64
  row : ∀ (id : UInt64) (row : Row), table[id]? = some row →
    ∃ reg, reg.id = id ∧ rowOf lib reg = .ok row

/-- What is assumed of `db.Query` for a search, that is for the one statement and the one argument
`searchStmt` makes of its mode and its folded query: on an index it answers the rows that match, from an
id on, in the order of their ids, under a limit and an offset. Which rows match is a predicate that is
left open. The driver takes numbers up to `MaxInt64`; nothing is assumed of others, and nothing of any
other statement. -/
def Answers (lib : SearchEnv) (mode : MatchMode) (query : Bytes) (matched : Row → Bool) : Prop :=
  ∀ (table : Table) (start limit offset : Nat), Index lib.toEnv table →
    start ≤ maxInt64 → limit ≤ maxInt64 → offset ≤ maxInt64 →
      lib.query table (searchStmt mode (stringsToLower lib.toEnv query)).1
          (searchStmt mode (stringsToLower lib.toEnv query)).2 start limit offset =
        .ok ((((table.toList.filter fun e => matched e.2 && start ≤ e.1.toNat).drop offset).take
          limit).map fun e => (e.1, e.2.data))

/-- Some registries are entered, in any order, under ids past all that are there. -/
def Inserted (lib : Env) (table table' : Table) : Prop :=
  ∃ regs : List Registry, (∀ reg ∈ regs, 1 ≤ reg.id.toNat ∧ reg.id.toNat < maxInt64 ∧
    ∀ id ∈ table, id < reg.id) ∧ regs.foldlM (upsert lib) table = .ok table'

/-- The rows that match. -/
def hits (matched : Row → Bool) (table : Table) : List (UInt64 × Row) :=
  table.toList.filter fun e => matched e.2

/-- A registry of the index whose row matches. -/
def IsHit (matched : Row → Bool) (lib : Env) (table : Table) (reg : Registry) : Prop :=
  ∃ row, (reg.id, row) ∈ hits matched table ∧ lib.unmarshal row.data = .ok reg

/-- The registries stored under some ids, in their order. -/
structure Lists (lib : Env) (table : Table) (ids : List UInt64) (regs : List Registry) : Prop where
  ids : regs.map Registry.id = ids
  stored : ∀ reg ∈ regs, ∃ row, table[reg.id]? = some row ∧ lib.unmarshal row.data = .ok reg

section Hits

variable {matched : Row → Bool} {lib : Env} {table : Table}

/-- A hit is a row of the table. -/
theorem get?_of_mem_hits {e : UInt64 × Row} (h : e ∈ hits matched table) :
    table[e.1]? = some e.2 :=
  (Iteration.sorted table).mem_entries.mp (List.mem_filter.mp h).1

/-- Hits come by rising ids. -/
theorem sorted_hits : ((hits matched table).map fun e => e.1.toNat).Pairwise (· < ·) := by
  refine List.pairwise_map.mpr ((Std.ExtTreeMap.ordered_keys_toList.filter _).imp fun {a b} h => ?_)
  exact UInt64.lt_iff_toNat_lt.mp (Std.compare_eq_lt.mp h)

/-- There are fewer rows than numbers the driver takes. -/
theorem Index.length_hits (h : Index lib table) :
    (hits matched table).length ≤ maxInt64 - 1 := by
  have hnodup : ((hits matched table).map fun e => e.1.toNat).Nodup :=
    sorted_hits.imp fun hlt => hlt.ne
  have hsub : ((hits matched table).map fun e => e.1.toNat).toFinset ⊆
      Finset.Ico 1 maxInt64 := by
    intro n hn
    obtain ⟨e, he, rfl⟩ := List.mem_map.mp (List.mem_toFinset.mp hn)
    have hmem := Map.mem_of_get? (get?_of_mem_hits he)
    exact Finset.mem_Ico.mpr ⟨h.pos e.1 hmem, h.below e.1 hmem⟩
  have hcard := Finset.card_le_card hsub
  rw [List.toFinset_card_of_nodup hnodup, List.length_map, Nat.card_Ico] at hcard
  exact hcard

/-- The registries of some rows of an index. -/
theorem Index.lists (h : Index lib table)
    (codec : ∀ reg value, lib.marshal reg = .ok value → lib.unmarshal value = .ok reg)
    {entries : List (UInt64 × Row)} (hin : ∀ e ∈ entries, table[e.1]? = some e.2) :
    (∀ e ∈ entries, ∃ reg, lib.unmarshal e.2.data = .ok reg) ∧
      Lists lib table (entries.map Prod.fst)
        (entries.filterMap fun e => (lib.unmarshal e.2.data).toOption) := by
  have hread : ∀ e ∈ entries, ∃ reg, lib.unmarshal e.2.data = .ok reg ∧ reg.id = e.1 := by
    intro e he
    obtain ⟨reg, hid, hrow⟩ := h.row e.1 e.2 (hin e he)
    obtain ⟨data, hdata, hrow⟩ := bind_eq_ok.mp hrow
    have hstored : e.2.data = data := (congrArg Row.data (Except.ok.inj hrow)).symm
    exact ⟨reg, hstored ▸ codec reg data (wrapf_eq_ok.mp hdata), hid⟩
  refine ⟨fun e he => (hread e he).imp fun _ hreg => hreg.1, ?_, fun reg hreg => ?_⟩
  · clear hin
    induction entries with
    | nil => rfl
    | cons e rest ih =>
      obtain ⟨⟨reg, hreg, hid⟩, hrest⟩ := List.forall_mem_cons.mp hread
      have hsome : (lib.unmarshal e.2.data).toOption = some reg := by rw [hreg]; rfl
      rw [List.filterMap_cons_some (f := fun e : UInt64 × Row => (lib.unmarshal e.2.data).toOption) hsome,
        List.map_cons, List.map_cons, ih hrest, hid]
  · obtain ⟨e, he, hsome⟩ := List.mem_filterMap.mp hreg
    obtain ⟨reg', hreg', hid⟩ := hread e he
    rw [hreg'] at hsome
    cases hsome
    exact ⟨e.2, hid ▸ hin e he, hreg'⟩

/-- The registries listed for some hits are hits. -/
theorem Lists.isHit {entries : List (UInt64 × Row)} {regs : List Registry}
    (h : Lists lib table (entries.map Prod.fst) regs) (hhits : ∀ e ∈ entries, e ∈ hits matched table)
    {reg : Registry} (hreg : reg ∈ regs) : IsHit matched lib table reg := by
  have hid : reg.id ∈ regs.map Registry.id := List.mem_map_of_mem hreg
  rw [h.ids] at hid
  obtain ⟨e, he, hid⟩ := List.mem_map.mp hid
  obtain ⟨row, hrow, hread⟩ := h.stored reg hreg
  have hsame : e.2 = row := by
    have hget := get?_of_mem_hits (hhits e he)
    rw [hid, hrow] at hget
    exact (Option.some.inj hget).symm
  exact ⟨e.2, hid ▸ hhits e he, hsame ▸ hread⟩

end Hits

/-! ## One page -/

/-- The loop takes the registries of a page, and the id of the row after it. -/
theorem collectRows_eq {lib : Env} {limit : Nat} {rows : List (UInt64 × Bytes)}
    (h : ∀ r ∈ rows, ∃ reg, lib.unmarshal r.2 = .ok reg) {results : List Registry}
    (hroom : results.length ≤ limit) :
    collectRows lib limit rows results =
      .ok (results ++ (rows.take (limit - results.length)).filterMap
          (fun r => (lib.unmarshal r.2).toOption),
        (rows.drop (limit - results.length)).head?.elim 0 Prod.fst) := by
  induction rows generalizing results with
  | nil => rw [collectRows, List.take_nil, List.drop_nil, List.filterMap_nil, List.append_nil]; rfl
  | cons row rest ih =>
    obtain ⟨⟨reg, hreg⟩, hrest⟩ := List.forall_mem_cons.mp h
    obtain ⟨id, data⟩ := row
    rw [collectRows]
    by_cases hfull : results.length = limit
    · rw [if_pos hfull, hfull, Nat.sub_self, List.take_zero, List.filterMap_nil, List.append_nil]
      rfl
    · have hleft : limit - results.length = limit - (results ++ [reg]).length + 1 := by
        rw [List.length_append, List.length_singleton]
        omega
      have hsome : (lib.unmarshal (id, data).2).toOption = some reg := by rw [hreg]; rfl
      have hstep : (wrapf (str "nameindex: decode registry") (lib.unmarshal data)) = .ok reg :=
        wrapf_eq_ok.mpr hreg
      rw [if_neg hfull, hstep, hleft, List.take_succ_cons, List.drop_succ_cons,
        List.filterMap_cons_some (f := fun r : UInt64 × Bytes => (lib.unmarshal r.2).toOption) hsome]
      refine (ih hrest (by rw [List.length_append, List.length_singleton]; omega)).trans ?_
      rw [List.append_assoc, List.singleton_append]

/-- A list is not longer than its bound. -/
theorem take_min {α : Type} {l : List α} {bound : Nat} (h : l.length ≤ bound) (n : Nat) :
    l.take (min n bound) = l.take n := by
  rcases Nat.le_total n bound with hle | hle
  · rw [Nat.min_eq_left hle]
  · rw [Nat.min_eq_right hle, List.take_of_length_le h, List.take_of_length_le (h.trans hle)]

theorem drop_min {α : Type} {l : List α} {bound : Nat} (h : l.length ≤ bound) (n : Nat) :
    l.drop (min n bound) = l.drop n := by
  rcases Nat.le_total n bound with hle | hle
  · rw [Nat.min_eq_left hle]
  · rw [Nat.min_eq_right hle, List.drop_eq_nil_of_le h, List.drop_eq_nil_of_le (h.trans hle)]

/-- The rows a page is read from: the clamps of `Search` cut nothing off a list as short as an index,
and the row that is read past the page is the one that follows. -/
theorem page_of_rows {found : List (UInt64 × Row)} (h : found.length ≤ maxInt64 - 1)
    (limit offset : Nat) :
    let rows := ((found.drop (min offset maxInt64)).take (min limit (maxInt64 - 1) + 1)).map
      fun e => (e.1, e.2.data)
    rows.take (min limit (maxInt64 - 1)) =
        ((found.drop offset).take limit).map (fun e => (e.1, e.2.data)) ∧
      (rows.drop (min limit (maxInt64 - 1))).head?.elim 0 Prod.fst =
        ((found.drop offset).drop limit).head?.elim 0 Prod.fst := by
  have hdropped : found.drop (min offset maxInt64) = found.drop offset := drop_min (by omega) _
  have hleft : (found.drop offset).length ≤ maxInt64 - 1 := by
    rw [List.length_drop]
    omega
  constructor
  · rw [← List.map_take, List.take_take, Nat.min_eq_left (Nat.le_succ _), hdropped, take_min hleft]
  · rw [← List.map_drop, List.drop_take, Nat.add_sub_cancel_left, hdropped, drop_min hleft]
    cases (found.drop offset).drop limit with
    | nil => rfl
    | cons e rest => rfl

/-- A query the search does not reject. -/
def Accepts (mode : MatchMode) (query : Bytes) : Prop :=
  ¬ (mode = .containsMode ∧ (Utf8.decode query).length < minContainsQueryLen)

/-- A query that is accepted passes the length check. -/
theorem Accepts.require {mode : MatchMode} {query : Bytes} (h : Accepts mode query) :
    (!(decide (mode = .containsMode) &&
      decide ((Utf8.decode query).length < minContainsQueryLen))) = true := by
  rw [Bool.not_eq_true', Bool.and_eq_false_iff, decide_eq_false_iff_not, decide_eq_false_iff_not]
  exact Classical.not_and_iff_not_or_not.mp h

section Search

variable {lib : SearchEnv} {matched : Row → Bool} {mode : MatchMode} {query : Bytes}
  {table : Table}

/-- The clamp of the start leaves out no match of an index. -/
theorem Index.filter_clamped (h : Index lib.toEnv table) (start : UInt64) :
    (table.toList.filter fun e => matched e.2 && min start.toNat maxInt64 ≤ e.1.toNat) =
      (hits matched table).filter (start ≤ ·.1) := by
  refine (List.filter_congr fun e he => ?_).trans List.filter_filter.symm
  have hbelow := h.below e.1 (Map.mem_of_get? ((Iteration.sorted table).mem_entries.mp he))
  have hclamp : decide (min start.toNat maxInt64 ≤ e.1.toNat) = decide (start ≤ e.1) := by
    rw [decide_eq_decide, UInt64.le_iff_toNat_le]
    omega
  rw [hclamp, Bool.and_comm]

/-- **A search is exact**: the clamps of its numbers change nothing on an index, and the row past the
page is the next one. -/
theorem Index.search_eq (h : Index lib.toEnv table) (hsql : Answers lib mode query matched)
    (codec : ∀ reg value, lib.marshal reg = .ok value → lib.unmarshal value = .ok reg)
    (haccepts : Accepts mode query) (start limit offset : UInt64) :
    ∃ regs, search lib table mode query start limit offset = .ok (regs,
        ((((hits matched table).filter (start ≤ ·.1)).drop offset.toNat).drop
          limit.toNat).head?.elim 0 Prod.fst) ∧
      Lists lib.toEnv table (((((hits matched table).filter (start ≤ ·.1)).drop
        offset.toNat).take limit.toNat).map Prod.fst) regs := by
  let found := (hits matched table).filter (start ≤ ·.1)
  let page := (found.drop offset.toNat).take limit.toNat
  let rows := ((found.drop (min offset.toNat maxInt64)).take
    (min limit.toNat (maxInt64 - 1) + 1)).map fun e => (e.1, e.2.data)
  have hlength : found.length ≤ maxInt64 - 1 := (List.length_filter_le _ _).trans h.length_hits
  have hquery : lib.query table (searchStmt mode (stringsToLower lib.toEnv query)).1
      (searchStmt mode (stringsToLower lib.toEnv query)).2 (min start.toNat maxInt64)
        (min limit.toNat (maxInt64 - 1) + 1) (min offset.toNat maxInt64) = .ok rows := by
    have hmax : 1 ≤ maxInt64 := by decide
    rw [hsql table _ _ _ h (Nat.min_le_right _ _) (by omega) (Nat.min_le_right _ _),
      h.filter_clamped start]
  obtain ⟨hrows, hnext⟩ := page_of_rows hlength limit.toNat offset.toNat
  have hin : ∀ e ∈ found, table[e.1]? = some e.2 := fun e he =>
    get?_of_mem_hits (List.mem_filter.mp he).1
  have hread : ∀ r ∈ rows, ∃ reg, lib.unmarshal r.2 = .ok reg := by
    intro r hr
    obtain ⟨e, he, rfl⟩ := List.mem_map.mp hr
    exact (h.lists codec hin).1 e (List.mem_of_mem_drop (List.mem_of_mem_take he))
  have hpage : ∀ e ∈ page, table[e.1]? = some e.2 := fun e he =>
    hin e (List.mem_of_mem_drop (List.mem_of_mem_take he))
  have hcollect : collectRows lib.toEnv (min limit.toNat (maxInt64 - 1)) rows [] =
      .ok (page.filterMap (fun e => (lib.unmarshal e.2.data).toOption),
        ((found.drop offset.toNat).drop limit.toNat).head?.elim 0 Prod.fst) := by
    rw [collectRows_eq hread (Nat.zero_le _), List.length_nil, Nat.sub_zero, List.nil_append, hrows,
      hnext, List.filterMap_map]
    rfl
  refine ⟨_, bind_eq_ok.mpr ⟨(), require_eq_ok.mpr haccepts.require, ?_⟩, (h.lists codec hpage).2⟩
  exact bind_eq_ok.mpr ⟨rows, wrapf_eq_ok.mpr hquery, hcollect⟩

end Search

/-! ## Page after page -/

/-- What is in one table stays in another. -/
def Kept (table table' : Table) : Prop :=
  ∀ (id : UInt64) (row : Row), table[id]? = some row → table'[id]? = some row

/-- Entering a registry leaves an index, and keeps the rows of other ids. -/
theorem Index.upserted {lib : Env} {table table' : Table} (h : Index lib table) {reg : Registry}
    (hpos : 1 ≤ reg.id.toNat) (hbelow : reg.id.toNat < maxInt64)
    (hupsert : upsert lib table reg = .ok table') :
    Index lib table' ∧ ∀ id, reg.id ≠ id → table'[id]? = table[id]? := by
  obtain ⟨row, hrow, _, rfl⟩ := upsert_eq_ok.mp hupsert
  refine ⟨⟨fun id hid => ?_, fun id hid => ?_, fun id row' hget => ?_⟩,
    fun id hne => Map.get?_insert_ne _ _ hne⟩
  · rcases Map.mem_insert.mp hid with rfl | hid
    · exact hpos
    · exact h.pos id hid
  · rcases Map.mem_insert.mp hid with rfl | hid
    · exact hbelow
    · exact h.below id hid
  · rw [Map.get?_insert] at hget
    split at hget
    · rename_i hid
      cases hget
      exact ⟨reg, hid, hrow⟩
    · exact h.row id row' hget

/-- **The index only grows**: what was there stays, and it stays an index. -/
theorem Index.inserted {lib : Env} {table table' : Table} (h : Index lib table)
    (hinserted : Inserted lib table table') : Index lib table' ∧ Kept table table' := by
  obtain ⟨regs, hregs, hfold⟩ := hinserted
  -- over the tables the loop passes, which all keep the first one
  have hloop : ∀ t, Index lib t → Kept table t → regs.foldlM (upsert lib) t = .ok table' →
      Index lib table' ∧ Kept table table' := by
    clear hfold
    induction regs with
    | nil =>
      intro t ht hkept hfold
      cases hfold
      exact ⟨ht, hkept⟩
    | cons reg regs ih =>
      intro t ht hkept hfold
      obtain ⟨⟨hpos, hbelow, hpast⟩, hrest⟩ := List.forall_mem_cons.mp hregs
      rw [List.foldlM_cons] at hfold
      obtain ⟨t₁, hupsert, hfold⟩ := bind_eq_ok.mp hfold
      obtain ⟨hindex, hothers⟩ := ht.upserted hpos hbelow hupsert
      refine ih hrest t₁ hindex (fun id row hget => ?_) hfold
      have hne : reg.id ≠ id := fun e =>
        absurd (hpast id (Map.mem_of_get? hget)) (e ▸ UInt64.lt_irrefl id)
      rw [hothers id hne]
      exact hkept id row hget
  exact hloop table h (fun _ _ hget => hget) hfold

/-- Reading a search by pages: the request of the first page, then that of the page each answer names,
until one names none. The answers may come from different states of the index. -/
def readPages (answer : Nat → Option PageRequest → Except Fault QueryRegistriesResponse) :
    Nat → Nat → Option PageRequest → Except Fault (Option (List (List Registry)))
  | 0, _, _ => pure none
  | fuel + 1, k, pr => do
    let resp ← answer k pr
    let nextKey := resp.pagination.elim [] (·.nextKey)
    if nextKey = [] then pure (some [resp.registries])
    else do
      let pageReq := pr.getD ⟨[], 0, 0, false, false⟩
      let more ← readPages answer fuel (k + 1) (some { pageReq with key := nextKey })
      pure (more.map (resp.registries :: ·))

section Read

variable {lib : SearchEnv} {matched : Row → Bool} {mode : MatchMode} {name : Bytes}
  {tables : Nat → Table}

/-- `SearchRegistriesByName` answers what the search answers, and the id of the next row as a key. -/
theorem searchRegistriesByName_of_search {table : Table} (hname : name ≠ []) {pr : Option PageRequest}
    {start next : UInt64} {regs : List Registry}
    (hstart : (sanitizePageRequest pr defaultPageLimit maxPageLimit).startId = .ok start)
    (hsearch : search lib table mode name start (sanitizePageRequest pr defaultPageLimit maxPageLimit).limit
      (sanitizePageRequest pr defaultPageLimit maxPageLimit).offset = .ok (regs, next)) :
    searchRegistriesByName lib (some table) (some ⟨name, mode, pr⟩) = .ok ⟨regs,
      if next ≠ 0 then some ⟨Eth.putUint64 next, 0⟩ else pr.map fun _ => ⟨[], 0⟩⟩ := by
  have hindex : searchIndex lib table ⟨name, mode, pr⟩ start
      (sanitizePageRequest pr defaultPageLimit maxPageLimit) = .ok (regs, next) := by
    rw [searchIndex, hsearch]
  exact (if_neg hname).trans
    (bind_eq_ok.mpr ⟨start, hstart, bind_eq_ok.mpr ⟨_, hindex, rfl⟩⟩)

/-- One page of `SearchRegistriesByName`. -/
theorem Index.searchRegistriesByName_eq {table : Table} (h : Index lib.toEnv table)
    (hsql : Answers lib mode name matched)
    (codec : ∀ reg value, lib.marshal reg = .ok value → lib.unmarshal value = .ok reg)
    (haccepts : Accepts mode name) (hname : name ≠ []) {pr : Option PageRequest} {start : UInt64}
    (hstart : (sanitizePageRequest pr defaultPageLimit maxPageLimit).startId = .ok start)
    (hoffset : pageOffset pr = 0) :
    ∃ regs, ∃ next : UInt64,
      next = ((((hits matched table).filter (start ≤ ·.1)).drop
        (pageSize pr)).head?.elim 0 Prod.fst) ∧
      searchRegistriesByName lib (some table) (some ⟨name, mode, pr⟩) = .ok ⟨regs,
        if next ≠ 0 then some ⟨Eth.putUint64 next, 0⟩ else pr.map fun _ => ⟨[], 0⟩⟩ ∧
      Lists lib.toEnv table ((((hits matched table).filter (start ≤ ·.1)).take
        (pageSize pr)).map Prod.fst) regs := by
  let pageReq := sanitizePageRequest pr defaultPageLimit maxPageLimit
  obtain ⟨regs, hsearch, hlists⟩ := h.search_eq hsql codec haccepts start pageReq.limit pageReq.offset
  rw [toNat_sanitized_limit, toNat_sanitized_offset, hoffset, List.drop_zero] at hsearch hlists
  exact ⟨regs, _, rfl, searchRegistriesByName_of_search hname hstart hsearch, hlists⟩

/-- The ids of the matching rows, at each request. -/
def hitIds (matched : Row → Bool) (tables : Nat → Table) (k : Nat) : List Nat :=
  (hits matched (tables k)).map fun e => e.1.toNat

theorem putUint64_ne_nil (n : UInt64) : Eth.putUint64 n ≠ [] := fun e => by
  have hlength := Eth.length_putUint64 n
  rw [e] at hlength
  cases hlength

/-- A key is read back. -/
theorem startId_of_key {pageReq : PageRequest} {n : UInt64} (hkey : pageReq.key = Eth.putUint64 n)
    (hoffset : pageReq.offset = 0) : pageReq.startId = .ok n := by
  unfold PageRequest.startId
  rw [hkey, if_neg (putUint64_ne_nil n), if_neg (not_not.mpr hoffset),
    if_neg (not_not.mpr (Eth.length_putUint64 n)), Eth.uint64Of_putUint64]
  rfl

/-- The request a reading continues with. -/
structure Starts (pr : Option PageRequest) (start : UInt64) (size : Nat) : Prop where
  startId : (sanitizePageRequest pr defaultPageLimit maxPageLimit).startId = .ok start
  offset : pageOffset pr = 0
  size : pageSize pr = size

/-- The next page starts at the key it was given, with the same size. -/
theorem Starts.next {pr : Option PageRequest} {start : UInt64} {size : Nat} (h : Starts pr start size)
    (next : UInt64) :
    Starts (some { pr.getD ⟨[], 0, 0, false, false⟩ with key := Eth.putUint64 next }) next size := by
  have hoffset : (pr.getD ⟨[], 0, 0, false, false⟩).offset = 0 := by
    refine UInt64.toNat_inj.mp (Eq.trans ?_ h.offset)
    cases pr with
    | none => rfl
    | some pageReq => rfl
  have hsize : pageSize (some { pr.getD ⟨[], 0, 0, false, false⟩ with
      key := Eth.putUint64 next }) = pageSize pr := by
    cases pr with
    | none => rfl
    | some pageReq => rfl
  exact ⟨startId_of_key rfl hoffset, congrArg UInt64.toNat hoffset, hsize.trans h.size⟩

/-- The ids from a cursor on. -/
theorem onward_hitIds (k : Nat) (start : UInt64) :
    Cursor.onward (hitIds matched tables k) start.toNat =
      ((hits matched (tables k)).filter (start ≤ ·.1)).map fun e => e.1.toNat := by
  rw [Cursor.onward, hitIds, List.filter_map]
  refine congrArg (List.map _) (List.filter_congr fun e _ => ?_)
  exact decide_eq_decide.mpr UInt64.le_iff_toNat_le.symm

/-- A page of a search is a page of the ids from its cursor on, and its key is the cursor after it. -/
theorem Index.page_of_cursor {k : Nat} (h : Index lib.toEnv (tables k))
    (hsql : Answers lib mode name matched)
    (codec : ∀ reg value, lib.marshal reg = .ok value → lib.unmarshal value = .ok reg)
    (haccepts : Accepts mode name) (hname : name ≠ []) {pr : Option PageRequest} {start : UInt64}
    {size : Nat} (hstarts : Starts pr start size) :
    ∃ resp, searchRegistriesByName lib (some (tables k)) (some ⟨name, mode, pr⟩) = .ok resp ∧
      resp.registries.map (fun reg => reg.id.toNat) =
        (Cursor.onward (hitIds matched tables k) start.toNat).take size ∧
      (∀ reg ∈ resp.registries, IsHit matched lib.toEnv (tables k) reg) ∧
      (((Cursor.onward (hitIds matched tables k) start.toNat).drop size).head? =
        none → resp.pagination.elim [] (·.nextKey) = []) ∧
      ∀ n, ((Cursor.onward (hitIds matched tables k) start.toNat).drop
          size).head? = some n →
        ∃ next : UInt64, next.toNat = n ∧
          resp.pagination.elim [] (·.nextKey) = Eth.putUint64 next := by
  obtain ⟨regs, next, hnext, hquery, hlists⟩ :=
    h.searchRegistriesByName_eq hsql codec haccepts hname hstarts.startId hstarts.offset
  rw [hstarts.size] at hnext hlists
  refine ⟨_, hquery, ?_, fun reg hreg => ?_, fun hnone => ?_, fun n hsome => ?_⟩
  · have hids := congrArg (List.map UInt64.toNat) hlists.ids
    rw [List.map_map, List.map_map] at hids
    rw [onward_hitIds, ← List.map_take]
    exact hids
  · exact hlists.isHit (fun e he => (List.mem_filter.mp (List.mem_of_mem_take he)).1) hreg
  · rw [onward_hitIds, ← List.map_drop, List.head?_map, Option.map_eq_none_iff] at hnone
    have hzero : next = 0 := by rw [hnext, hnone]; rfl
    rw [if_neg (not_not.mpr hzero)]
    cases pr with
    | none => rfl
    | some pageReq => rfl
  · rw [onward_hitIds, ← List.map_drop, List.head?_map, Option.map_eq_some_iff] at hsome
    obtain ⟨e, he, rfl⟩ := hsome
    have hid : next = e.1 := by rw [hnext, he]; rfl
    have hmem := List.mem_of_mem_drop (List.mem_of_head? he)
    have hpos := h.pos e.1 (Map.mem_of_get? (get?_of_mem_hits (List.mem_filter.mp hmem).1))
    have hne : next ≠ 0 := by
      rintro rfl
      rw [← hid] at hpos
      exact absurd hpos (by decide)
    rw [if_pos hne]
    exact ⟨next, congrArg UInt64.toNat hid, rfl⟩

/-- **A reading by pages follows its ids**: with enough fuel it answers the registries of the pages a
cursor reads. -/
theorem readPages_of_walk (hindex : ∀ k, Index lib.toEnv (tables k))
    (hsql : Answers lib mode name matched)
    (codec : ∀ reg value, lib.marshal reg = .ok value → lib.unmarshal value = .ok reg)
    (haccepts : Accepts mode name) (hname : name ≠ []) {size k start : Nat} {pages : List (List Nat)}
    (h : Cursor.Walk size (hitIds matched tables) k start pages)
    {pr : Option PageRequest} {first : UInt64} (hfirst : first.toNat = start)
    (hstarts : Starts pr first size) :
    ∃ answers, readPages (fun k pr => searchRegistriesByName lib (some (tables k))
        (some ⟨name, mode, pr⟩)) pages.length k pr = .ok (some answers) ∧
      answers.map (·.map fun reg => reg.id.toNat) = pages ∧
      ∀ page ∈ answers, ∃ j, ∀ reg ∈ page, IsHit matched lib.toEnv (tables j) reg := by
  induction h generalizing pr first with
  | @last k start hnone =>
    subst hfirst
    obtain ⟨resp, hquery, hids, hhits, hlast, -⟩ :=
      (hindex k).page_of_cursor hsql codec haccepts hname hstarts
    refine ⟨[resp.registries], bind_eq_ok.mpr ⟨resp, hquery, if_pos (hlast hnone)⟩, ?_, ?_⟩
    · rw [List.map_singleton, hids]
    · exact List.forall_mem_cons.mpr ⟨⟨k, hhits⟩, fun _ hpage => absurd hpage List.not_mem_nil⟩
  | @more k start next pages hsome hrest ih =>
    subst hfirst
    obtain ⟨resp, hquery, hids, hhits, -, hmore⟩ :=
      (hindex k).page_of_cursor hsql codec haccepts hname hstarts
    obtain ⟨cursor, hcursor, hkey⟩ := hmore next hsome
    obtain ⟨answers, hanswers, hpages, hlater⟩ := ih hcursor (hstarts.next cursor)
    refine ⟨resp.registries :: answers, bind_eq_ok.mpr ⟨resp, hquery, ?_⟩, ?_, ?_⟩
    · have hne : resp.pagination.elim [] (·.nextKey) ≠ [] := hkey ▸ putUint64_ne_nil cursor
      rw [← hkey] at hanswers
      exact (if_neg hne).trans (bind_eq_ok.mpr ⟨_, hanswers, rfl⟩)
    · rw [List.map_cons, hids, hpages]
    · exact List.forall_mem_cons.mpr ⟨⟨k, hhits⟩, hlater⟩

/-- Growing tables of an index are indexes. -/
theorem Index.all_of_inserted (h : Index lib.toEnv (tables 0))
    (hinserted : ∀ k, Inserted lib.toEnv (tables k) (tables (k + 1))) (k : Nat) :
    Index lib.toEnv (tables k) := by
  induction k with
  | zero => exact h
  | succ k ih => exact (ih.inserted (hinserted k)).1

/-- A match stays a match. -/
theorem mem_hitIds_succ {k : Nat} (hkept : Kept (tables k) (tables (k + 1))) {x : Nat}
    (hx : x ∈ hitIds matched tables k) : x ∈ hitIds matched tables (k + 1) := by
  obtain ⟨e, he, rfl⟩ := List.mem_map.mp hx
  have hstays := hkept e.1 e.2 (get?_of_mem_hits he)
  exact List.mem_map.mpr ⟨e, List.mem_filter.mpr
    ⟨(Iteration.sorted (tables (k + 1))).mem_entries.mpr hstays, (List.mem_filter.mp he).2⟩, rfl⟩

/-- The ids of hits fit a signed integer. -/
theorem Index.lt_of_mem_hitIds {k : Nat} (h : Index lib.toEnv (tables k)) {x : Nat}
    (hx : x ∈ hitIds matched tables k) : x < maxInt64 := by
  obtain ⟨e, he, rfl⟩ := List.mem_map.mp hx
  exact h.below e.1 (Map.mem_of_get? (get?_of_mem_hits he))

/-- A reading that starts without a key starts at the first id. -/
theorem starts_of_no_key {first : Option PageRequest} (hkey : first.elim [] (·.key) = [])
    (hoffset : first.elim 0 (·.offset) = 0) : Starts first 0 (pageSize first) := by
  refine ⟨if_pos ?_, congrArg UInt64.toNat hoffset, rfl⟩
  cases first with
  | none => rfl
  | some pageReq => exact hkey

end Read

/-- **Paging a name search is complete and ends.** For a query the search does not reject:

- a search answers exactly the rows of its page, and the id of the row after it, or 0;
- a reading that starts without a key and follows the keys of its answers ends, whatever registries
  are entered meanwhile under larger ids. Its pages list matching registries in the order of their ids,
  each match of the first index once, and every page before the last is full. -/
theorem name_search_paged {lib : SearchEnv} {mode : MatchMode} {name : Bytes} {matched : Row → Bool}
    (hsql : Answers lib mode name matched)
    (codec : ∀ reg value, lib.marshal reg = .ok value → lib.unmarshal value = .ok reg)
    (haccepts : Accepts mode name) :
    (∀ table, Index lib.toEnv table → ∀ start limit offset : UInt64,
      ∃ regs, search lib table mode name start limit offset = .ok (regs,
          ((((hits matched table).filter (start ≤ ·.1)).drop offset.toNat).drop
            limit.toNat).head?.elim 0 Prod.fst) ∧
        Lists lib.toEnv table (((((hits matched table).filter
          (start ≤ ·.1)).drop offset.toNat).take limit.toNat).map Prod.fst) regs) ∧
    (∀ tables : Nat → Table, name ≠ [] → Index lib.toEnv (tables 0) →
      (∀ k, Inserted lib.toEnv (tables k) (tables (k + 1))) →
      ∀ first : Option PageRequest, first.elim [] (·.key) = [] → first.elim 0 (·.offset) = 0 →
      ∃ fuel pages, readPages (fun k pr => searchRegistriesByName lib (some (tables k))
          (some ⟨name, mode, pr⟩)) fuel 0 first = .ok (some pages) ∧
        (pages.flatten.map Registry.id).Pairwise (· < ·) ∧
        (∀ page ∈ pages, ∃ k, ∀ reg ∈ page, IsHit matched lib.toEnv (tables k) reg) ∧
        (∀ e ∈ hits matched (tables 0),
          (pages.flatten.map Registry.id).count e.1 = 1) ∧
        ∀ page ∈ pages.dropLast, page.length = pageSize first) := by
  refine ⟨fun table hindex => hindex.search_eq hsql codec haccepts, ?_⟩
  intro tables hname hzero hinserted first hkey hoffset
  have hindex := hzero.all_of_inserted hinserted
  have hsorted : ∀ k, (hitIds matched tables k).Pairwise (· < ·) := fun k => sorted_hits
  have hgrows : ∀ k, ∀ x ∈ hitIds matched tables k, x ∈ hitIds matched tables (k + 1) :=
    fun k x hx => mem_hitIds_succ ((hindex k).inserted (hinserted k)).2 hx
  -- what is left below `MaxInt64` falls with every page
  have hrank : ∀ k, ∀ x ∈ hitIds matched tables k, ∀ a, a < x →
      maxInt64 - x < maxInt64 - a := by
    intro k x hx a ha
    have hbelow := (hindex k).lt_of_mem_hitIds hx
    omega
  obtain ⟨ids, hwalk⟩ := Cursor.Walk.exists_of hsorted (pageSize_pos first) hrank 0 0
  obtain ⟨pages, hpages, hids, hhits⟩ :=
    readPages_of_walk hindex hsql codec haccepts hname hwalk UInt64.toNat_zero
      (starts_of_no_key hkey hoffset)
  obtain ⟨hrising, -, hthere⟩ := hwalk.complete hsorted hgrows
  have hflat : pages.flatten.map (fun reg => reg.id.toNat) = ids.flatten := by
    rw [← hids, List.map_flatten]
  have hordered : (pages.flatten.map Registry.id).Pairwise (· < ·) := by
    rw [← hflat, List.pairwise_map] at hrising
    exact List.pairwise_map.mpr (hrising.imp UInt64.lt_iff_toNat_lt.mpr)
  refine ⟨_, pages, hpages, hordered, hhits, fun e he => ?_, fun page hpage => ?_⟩
  · have hnodup : (pages.flatten.map Registry.id).Nodup := hordered.imp UInt64.ne_of_lt
    have hin := hthere e.1.toNat (List.mem_map_of_mem he) (Nat.zero_le _)
    rw [← hflat] at hin
    obtain ⟨reg, hreg, hid⟩ := List.mem_map.mp hin
    refine List.count_eq_one_of_mem hnodup ?_
    exact List.mem_map.mpr ⟨reg, hreg, UInt64.toNat_inj.mp hid⟩
  · have hfull := hwalk.full hsorted (page.map fun reg => reg.id.toNat) (by
      rw [← hids, ← List.map_dropLast]
      exact List.mem_map_of_mem hpage)
    rw [List.length_map] at hfull
    exact hfull

/-! ## An index that grows while it is read -/

/-- A registry with a name. -/
def named (id : UInt64) (name : String) : Registry := ⟨id, str name, [], [], [], []⟩

/-- A codec for four registries, and a database that reads the statements it is given. -/
def saleLib : SearchEnv :=
  selectEnv (listedLib [([1], named 1 "50%_Off"), ([2], named 2 "50 cents"),
    ([4], named 4 "50% off shoes"), ([7], named 7 "50% MORE")])

theorem codec_saleLib (reg : Registry) (value : Bytes) (h : saleLib.marshal reg = .ok value) :
    saleLib.unmarshal value = .ok reg :=
  unmarshal_listedLib (by decide +kernel) h

/-- The row of a registry with a name. -/
def saleRow (id : UInt8) (name : String) : Row :=
  ⟨str name, reverse (str name), [id]⟩

/-- The index when the first page is asked for. -/
def saleTable : Table :=
  (((∅ : Table).insert 1 (saleRow 1 "50%_off")).insert 2 (saleRow 2 "50 cents")).insert 4
    (saleRow 4 "50% off shoes")

/-- Registry 7 is entered before the second page is asked for. -/
def saleTables : Nat → Table
  | 0 => saleTable
  | _ + 1 => saleTable.insert 7 (saleRow 7 "50% more")

theorem index_empty (lib : Env) : Index lib ∅ where
  pos _ hid := absurd hid Std.ExtTreeMap.not_mem_empty
  below _ hid := absurd hid Std.ExtTreeMap.not_mem_empty
  row _ _ hget := absurd (Map.mem_of_get? hget) Std.ExtTreeMap.not_mem_empty

theorem upsert_saleLib (table : Table) {id : UInt64} {name : String} {row : Row}
    (hrow : rowOf saleLib.toEnv (named id name) = .ok row) (hid : id.toNat < 2 ^ 63) :
    upsert saleLib.toEnv table (named id name) = .ok (table.insert id row) :=
  upsert_eq_ok.mpr ⟨row, hrow, hid, rfl⟩

theorem index_saleTable : Index saleLib.toEnv saleTable := by
  have h1 := ((index_empty saleLib.toEnv).upserted (by decide) (by decide)
    (upsert_saleLib ∅ (show rowOf saleLib.toEnv (named 1 "50%_Off") = .ok (saleRow 1 "50%_off") by
      decide +kernel) (by decide))).1
  have h2 := (h1.upserted (by decide) (by decide)
    (upsert_saleLib _ (show rowOf saleLib.toEnv (named 2 "50 cents") = .ok (saleRow 2 "50 cents") by
      decide +kernel) (by decide))).1
  exact (h2.upserted (by decide) (by decide)
    (upsert_saleLib _ (show rowOf saleLib.toEnv (named 4 "50% off shoes") =
      .ok (saleRow 4 "50% off shoes") by decide +kernel) (by decide))).1

/-- Between two calls a table changes only by insertion. -/
theorem inserted_saleTables (k : Nat) : Inserted saleLib.toEnv (saleTables k) (saleTables (k + 1)) := by
  cases k with
  | zero =>
    have hall : saleTable.toList.all (fun e => e.1 < 7) = true := by decide +kernel
    refine ⟨[named 7 "50% MORE"], fun reg hreg => ?_, ?_⟩
    · cases List.mem_singleton.mp hreg
      refine ⟨by decide, by decide, fun id hid => ?_⟩
      obtain ⟨row, hrow⟩ := Map.mem_iff.mp hid
      have hentry := (Iteration.sorted saleTable).mem_entries.mpr hrow
      exact of_decide_eq_true (List.all_eq_true.mp hall (id, row) hentry)
    · exact bind_eq_ok.mpr ⟨_, upsert_saleLib _ (show rowOf saleLib.toEnv (named 7 "50% MORE") =
        .ok (saleRow 7 "50% more") by decide +kernel) (by decide), rfl⟩
  | succ k => exact ⟨[], fun _ h => absurd h List.not_mem_nil, rfl⟩

/-- The rows that match `50%` at the start of a name. -/
def startsWithSale (row : Row) : Bool :=
  selects (searchStmt .prefixMode (str "50%")).1 (searchStmt .prefixMode (str "50%")).2 row = some true

/-- The small library answers the prefix search by its rows. -/
theorem answers_saleLib : Answers saleLib .prefixMode (str "50%") startsWithSale := by
  have hlower : stringsToLower saleLib.toEnv (str "50%") = str "50%" := by decide +kernel
  intro table start limit offset hindex hstart hlimit hoffset
  rw [hlower]
  rfl

/-- Registries 1 and 4 match, and registry 7, which is entered after the first page was read. One to a
page, a search answers the first and names the second, and a reading lists each of the two once and ends;
here it lists the new one as well. -/
theorem name_search_paged_saleTables :
    (∃ regs, search saleLib saleTable .prefixMode (str "50%") 1 1 0 = .ok (regs, 4) ∧
      regs.map Registry.id = [1]) ∧
    (∃ fuel pages, readPages (fun k pr => searchRegistriesByName saleLib (some (saleTables k))
        (some ⟨str "50%", .prefixMode, pr⟩)) fuel 0 (some ⟨[], 0, 1, false, false⟩) =
          .ok (some pages) ∧
      (pages.flatten.map Registry.id).count 1 = 1 ∧ (pages.flatten.map Registry.id).count 4 = 1 ∧
      ∀ page ∈ pages.dropLast, page.length = 1) ∧
    (readPages (fun k pr => searchRegistriesByName saleLib (some (saleTables k))
        (some ⟨str "50%", .prefixMode, pr⟩)) 3 0 (some ⟨[], 0, 1, false, false⟩)).toOption.join =
      some [[named 1 "50%_Off"], [named 4 "50% off shoes"], [named 7 "50% MORE"]] := by
  have hhits : hits startsWithSale saleTable =
      [(1, saleRow 1 "50%_off"), (4, saleRow 4 "50% off shoes")] := by decide +kernel
  have haccepts : Accepts .prefixMode (str "50%") := by
    rintro ⟨hmode, -⟩
    cases hmode
  obtain ⟨hsearch, hread⟩ := name_search_paged answers_saleLib codec_saleLib haccepts
  refine ⟨?_, ?_, by decide +kernel⟩
  · obtain ⟨regs, hregs, hlists⟩ := hsearch saleTable index_saleTable 1 1 0
    rw [hhits] at hregs hlists
    exact ⟨regs, hregs, hlists.ids⟩
  · obtain ⟨fuel, pages, hpages, -, -, hcount, hfull⟩ := hread saleTables (by decide +kernel)
      index_saleTable inserted_saleTables (some ⟨[], 0, 1, false, false⟩) rfl rfl
    have hfirst : (1, saleRow 1 "50%_off") ∈ hits startsWithSale (saleTables 0) := by
      rw [saleTables, hhits]
      exact List.mem_cons_self
    have hsecond : (4, saleRow 4 "50% off shoes") ∈ hits startsWithSale (saleTables 0) := by
      rw [saleTables, hhits]
      exact List.mem_cons_of_mem _ (List.mem_singleton.mpr rfl)
    exact ⟨fuel, pages, hpages, hcount _ hfirst, hcount _ hsecond, hfull⟩

end Nvnmchain.NameIndex
