import Nvnmchain.Nameindex.Fulltext
import Nvnmchain.Nameindex.Pages

/-!
# A search answers from the chain

A name that is searched for goes a long way: the query server cuts the page request down, `Search`
folds the name and writes it into a statement, the database answers from two tables, and the rows are
decoded again. The tables were filled by a listener and by backfills, out of change sets.

Here the parts are put together. On a node that was backfilled at its last start and has heard every
block since, `SearchRegistriesByName` answers, in every mode and for every page, the registries of the
chain whose folded name is, starts with, ends with or contains the folded query, in the order of their
ids (`search_end_to_end`). What came before the last start does not matter: blocks may have been missed
and backfills may have failed.

What is assumed of the database is what its documentation says of `=`, `LIKE`, `ORDER BY`, `LIMIT` and
`OFFSET` (`Database.query`) and of its full-text index (`Trigram.Engine`).
-/

set_option autoImplicit false

namespace Nvnmchain.NameIndex

open Go (Bytes str)
open Collections

/-! ## Names that match -/

/-- A name matches a query: by its folded characters. A search for a part of a name folds once more, as
SQLite does. -/
def nameMatches (lib : Env) (sql : Fts5) (mode : MatchMode) (query name : Bytes) : Bool :=
  match mode with
  | .prefixMode => fold lib query <+: fold lib name
  | .suffixMode => fold lib query <:+ fold lib name
  | .containsMode => (fold lib query).map sql.fold <:+: (fold lib name).map sql.fold
  | _ => fold lib name = fold lib query

/-- The row of a registry. -/
theorem row_of_rowOf {lib : Env} {reg : Registry} {row : Row} (h : rowOf lib reg = .ok row) :
    row.nameLower = Utf8.encode (fold lib reg.name) ∧
      row.nameRevLower = Utf8.encode (fold lib reg.name).reverse ∧
      lib.marshal reg = .ok row.data := by
  obtain ⟨data, hdata, hrow⟩ := bind_eq_ok.mp h
  cases hrow
  exact ⟨rfl, reverse_encode _, wrapf_eq_ok.mp hdata⟩

/-- A statement over the first table is read there. -/
theorem rowSelects_of_ne {stmt : String} (h : conditionWords stmt ≠ matchWords) (sql : Fts5)
    (arg : Bytes) (row : Row) : rowSelects sql stmt arg row = selects stmt arg row := if_neg h

/-- **A search selects the row of a registry by its name**, in every mode. -/
theorem rowSelects_searchStmt {lib : Env} {reg : Registry} {row : Row} (h : rowOf lib reg = .ok row)
    (sql : Fts5) {mode : MatchMode} {query : Bytes} (haccepts : Accepts mode query) :
    rowSelects sql (searchStmt mode (stringsToLower lib query)).1
        (searchStmt mode (stringsToLower lib query)).2 row =
      some (nameMatches lib sql mode query reg.name) := by
  obtain ⟨hlower, hrev, -⟩ := row_of_rowOf h
  have hexact : ∀ row : Row, row.nameLower = Utf8.encode (fold lib reg.name) →
      rowSelects sql (rowStmt "name_lower = ?") (Utf8.encode (fold lib query)) row =
        some (decide (fold lib reg.name = fold lib query)) := by
    intro row hlower
    rw [rowSelects_of_ne (by decide +kernel), selects_equals, hlower]
    exact congrArg some (decide_eq_decide.mpr Utf8.encode_injective.eq_iff)
  cases mode with
  | prefixMode =>
    have hvalue : row.text "name_lower".toList = some (Utf8.encode (fold lib reg.name)) := by
      rw [Row.text, if_pos rfl, hlower]
    have hwords : conditionWords (rowStmt "name_lower LIKE ? ESCAPE '\\'") ≠ matchWords := by
      decide +kernel
    exact (rowSelects_of_ne hwords sql _ row).trans
      (selects_like _ (by decide +kernel) hvalue (fold lib query))
  | suffixMode =>
    have hvalue : row.text "name_rev_lower".toList =
        some (Utf8.encode (fold lib reg.name).reverse) := by
      rw [Row.text, if_neg (by decide), if_pos rfl, hrev]
    have hwords : conditionWords (rowStmt "name_rev_lower LIKE ? ESCAPE '\\'") ≠ matchWords := by
      decide +kernel
    have hreverse := selects_like "name_rev_lower LIKE ? ESCAPE '\\'" (by decide +kernel) hvalue
      (fold lib query).reverse
    rw [← reverse_encode] at hreverse
    exact (rowSelects_of_ne hwords sql _ row).trans
      (hreverse.trans (congrArg some (decide_eq_decide.mpr List.reverse_prefix)))
  | containsMode =>
    have hlen : minContainsQueryLen ≤ (fold lib query).length := by
      rw [fold, List.length_map]
      exact Nat.le_of_not_lt fun hshort => haccepts ⟨rfl, hshort⟩
    have htext : sql.text row = (fold lib reg.name).map sql.fold := by
      rw [Fts5.text, hlower, Utf8.decode_encode]
    rw [rowSelects_contains, htext]
    exact congrArg some (decide_eq_decide.mpr (and_iff_right hlen))
  | unspecified => exact hexact row hlower
  | exactMode => exact hexact row hlower
  | unknown n => exact hexact row hlower

/-! ## The answer of the database -/

/-- The rows a query answers, of those a condition selects: from an id on, in the order of ids, under an
offset and a limit. -/
def answerRows (table : Table) (selected : UInt64 × Row → Bool) (start limit offset : Nat) :
    List (UInt64 × Bytes) :=
  (((table.toList.filter fun e => selected e && start ≤ e.1.toNat).drop offset).take limit).map
    fun e => (e.1, e.2.data)

/-- `db.Query` for the statements of a search. -/
def Database.query (sql : Fts5) (db : Database) (stmt : String) (arg : Bytes)
    (start limit offset : Nat) : Except Err (List (UInt64 × Bytes)) :=
  .ok (answerRows db.registries (fun e => db.selects sql stmt arg e.1 e.2 = some true) start limit
    offset)

/-- The libraries of a search on a database. -/
def Database.searchEnv (lib : Env) (sql : Fts5) (db : Database) : SearchEnv where
  toEnv := lib
  query _ := db.query sql

/-- A database that looks at the rows alone. -/
def rowEnv (lib : Env) (sql : Fts5) : SearchEnv where
  toEnv := lib
  query table stmt arg start limit offset :=
    .ok (answerRows table (fun e => rowSelects sql stmt arg e.2 = some true) start limit offset)

/-- The rows the statement of a search selects. -/
def searchSelects (lib : Env) (sql : Fts5) (mode : MatchMode) (query : Bytes) (row : Row) : Bool :=
  rowSelects sql (searchStmt mode (stringsToLower lib query)).1
    (searchStmt mode (stringsToLower lib query)).2 row = some true

/-- Selecting row by row answers the statements of a search. -/
theorem answers_rowEnv (lib : Env) (sql : Fts5) (mode : MatchMode) (query : Bytes) :
    Answers (rowEnv lib sql) mode query (searchSelects lib sql mode query) :=
  fun _ _ _ _ _ _ _ _ => rfl

/-- With the tables together, the database answers as one that looks at the rows alone. -/
theorem Database.InSync.query_eq {sql : Fts5} {db : Database} (h : db.InSync sql) (lib : Env)
    (stmt : String) (arg : Bytes) (start limit offset : Nat) :
    db.query sql stmt arg start limit offset =
      (rowEnv lib sql).query db.registries stmt arg start limit offset := by
  have hfilter : (db.registries.toList.filter fun e =>
        decide (db.selects sql stmt arg e.1 e.2 = some true) && decide (start ≤ e.1.toNat)) =
      db.registries.toList.filter fun e =>
        decide (rowSelects sql stmt arg e.2 = some true) && decide (start ≤ e.1.toNat) := by
    refine List.filter_congr fun e he => ?_
    rw [h.selects_eq ((Iteration.sorted db.registries).mem_entries.mp he)]
  unfold Database.query answerRows
  rw [hfilter]
  rfl

/-- A search asks its database about one table only. -/
theorem search_congr {lib lib' : SearchEnv} {table : Table} (henv : lib.toEnv = lib'.toEnv)
    (hquery : ∀ stmt arg start limit offset,
      lib.query table stmt arg start limit offset = lib'.query table stmt arg start limit offset)
    (mode : MatchMode) (query : Bytes) (start limit offset : UInt64) :
    search lib table mode query start limit offset = search lib' table mode query start limit offset := by
  unfold search
  simp only [henv, hquery]

/-- A search through the full-text index finds what a search through the rows finds. -/
theorem Database.InSync.search_eq {sql : Fts5} {db : Database} (h : db.InSync sql) (lib : Env)
    (mode : MatchMode) (query : Bytes) (start limit offset : UInt64) :
    search (db.searchEnv lib sql) db.registries mode query start limit offset =
      search (rowEnv lib sql) db.registries mode query start limit offset := by
  have henv : (db.searchEnv lib sql).toEnv = (rowEnv lib sql).toEnv := rfl
  exact search_congr henv (h.query_eq lib) mode query start limit offset

/-! ## The answer of the chain -/

/-- The registries of the chain whose names match, in the order of their ids. -/
def chainHits (lib : Env) (sql : Fts5) (mode : MatchMode) (name : Bytes) (s : Nvnmchain.Store) :
    List (UInt64 × Registry) :=
  s.registries.toList.filter fun e => nameMatches lib sql mode name e.2.name

/-- What a search should answer: a page of them, and the key of the next one. -/
def chainAnswer (lib : Env) (sql : Fts5) (mode : MatchMode) (name : Bytes) (s : Nvnmchain.Store)
    (pr : Option PageRequest) (start : UInt64) : QueryRegistriesResponse :=
  let found := ((chainHits lib sql mode name s).filter (start ≤ ·.1)).drop (pageOffset pr)
  let next := (found.drop (pageSize pr)).head?.elim 0 Prod.fst
  ⟨(found.take (pageSize pr)).map Prod.snd,
    if next ≠ 0 then some ⟨Eth.putUint64 next, 0⟩ else pr.map fun _ => ⟨[], 0⟩⟩

/-- Two maps list the same keys where they have the same ones. -/
theorem map_fst_filter_congr {ν ω : Type} {m : Map UInt64 ν} {m' : Map UInt64 ω}
    {P : UInt64 × ν → Bool} {Q : UInt64 × ω → Bool}
    (h : ∀ k, (∃ v, m[k]? = some v ∧ P (k, v) = true) ↔ ∃ w, m'[k]? = some w ∧ Q (k, w) = true) :
    (m.toList.filter P).map Prod.fst = (m'.toList.filter Q).map Prod.fst := by
  have hmem : ∀ {ν : Type} {m : Map UInt64 ν} {P : UInt64 × ν → Bool} {k : UInt64},
      k ∈ (m.toList.filter P).map Prod.fst ↔ ∃ v, m[k]? = some v ∧ P (k, v) = true := by
    intro ν m P k
    rw [List.mem_map]
    constructor
    · rintro ⟨⟨k', v⟩, he, rfl⟩
      obtain ⟨hin, hP⟩ := List.mem_filter.mp he
      exact ⟨v, (Iteration.sorted m).mem_entries.mp hin, hP⟩
    · rintro ⟨v, hv, hP⟩
      exact ⟨(k, v), List.mem_filter.mpr ⟨(Iteration.sorted m).mem_entries.mpr hv, hP⟩, rfl⟩
  have hsorted : ∀ {ν : Type} {m : Map UInt64 ν} {P : UInt64 × ν → Bool},
      ((m.toList.filter P).map Prod.fst).Pairwise (· < ·) := by
    intro ν m P
    refine List.pairwise_map.mpr ((Std.ExtTreeMap.ordered_keys_toList.filter _).imp fun {a b} h => ?_)
    exact Std.compare_eq_lt.mp h
  have hleft := @hsorted ν m P
  refine List.Perm.eq_of_pairwise ?_ hleft hsorted ?_
  · intro a b _ _ hab hba
    exact absurd (UInt64.lt_trans hab hba) (UInt64.lt_irrefl a)
  · refine (List.perm_ext_iff_of_nodup ?_ ?_).mpr fun k => hmem.trans ((h k).trans hmem.symm)
    · exact hsorted.imp fun hlt => UInt64.ne_of_lt hlt
    · exact hsorted.imp fun hlt => UInt64.ne_of_lt hlt

/-- Lists of things that are found again by their ids are the same when the ids are. -/
theorem eq_of_map_eq {α β : Type} (id : α → β) (find : β → Option α) {l l' : List α}
    (hids : l.map id = l'.map id) (hl : ∀ a ∈ l, find (id a) = some a)
    (hl' : ∀ a ∈ l', find (id a) = some a) : l = l' := by
  have hfound : ∀ {l : List α}, (∀ a ∈ l, find (id a) = some a) → (l.map id).map find = l.map some := by
    intro l hl
    rw [List.map_map]
    exact List.map_congr_left hl
  refine List.map_injective_iff.mpr (Option.some_injective α) ?_
  rw [← hfound hl, ← hfound hl', hids]

/-- The first id of a list of entries, or zero. -/
theorem firstId_eq {ν : Type} (l : List (UInt64 × ν)) :
    l.head?.elim 0 Prod.fst = (l.map Prod.fst).head?.getD 0 := by
  cases l with
  | nil => rfl
  | cons e rest => rfl

section Answer

variable {lib : Env} {sql : Fts5} {s : Nvnmchain.Store} {table : Table}

/-- A table with the rows of the registries is an index. -/
theorem Exact.index (h : Exact lib s table) (hcounted : RegistriesCounted s)
    (hids : ∀ r ∈ s.registries, r.toNat < maxInt64) : Index lib table where
  pos id hid := by
    obtain ⟨n, -, hrange⟩ := hcounted.count
    exact UInt64.le_iff_toNat_le.mp (hrange id (h.sound.mem hid)).1
  below id hid := hids id (h.sound.mem hid)
  row id row hrow := by
    obtain ⟨reg, hreg, hrowOf⟩ := h.sound id row hrow
    exact ⟨reg, hcounted.key id reg hreg, hrowOf⟩

/-- The rows that are found are those of the registries whose names match. -/
theorem Exact.hits_eq (h : Exact lib s table) {mode : MatchMode} {name : Bytes}
    (haccepts : Accepts mode name) (start : UInt64) :
    ((hits (searchSelects lib sql mode name) table).filter (start ≤ ·.1)).map Prod.fst =
      ((chainHits lib sql mode name s).filter (start ≤ ·.1)).map Prod.fst := by
  rw [hits, chainHits, List.filter_filter, List.filter_filter]
  refine map_fst_filter_congr fun r => ?_
  constructor
  · rintro ⟨row, hrow, hP⟩
    obtain ⟨reg, hreg, hrowOf⟩ := h.sound r row hrow
    rw [searchSelects, rowSelects_searchStmt hrowOf sql haccepts] at hP
    refine ⟨reg, hreg, ?_⟩
    simpa using hP
  · rintro ⟨reg, hreg, hQ⟩
    obtain ⟨row, hrowOf, hrow⟩ := h.complete r reg hreg
    refine ⟨row, hrow, ?_⟩
    rw [searchSelects, rowSelects_searchStmt hrowOf sql haccepts]
    simpa using hQ

/-- What is stored under the id of a registry is the registry. -/
theorem Exact.stored (h : Exact lib s table)
    (codec : ∀ reg value, lib.marshal reg = .ok value → lib.unmarshal value = .ok reg)
    {reg : Registry} {row : Row} (hrow : table[reg.id]? = some row)
    (hread : lib.unmarshal row.data = .ok reg) : s.registries[reg.id]? = some reg := by
  obtain ⟨reg', hreg', hrowOf⟩ := h.sound reg.id row hrow
  cases hread.symm.trans (codec reg' row.data (row_of_rowOf hrowOf).2.2)
  exact hreg'

/-- The registries an exact index lists for some registries of the chain are these. -/
theorem Exact.lists_eq (h : Exact lib s table)
    (codec : ∀ reg value, lib.marshal reg = .ok value → lib.unmarshal value = .ok reg)
    (hcounted : RegistriesCounted s) {found : List (UInt64 × Registry)}
    (hchain : ∀ e ∈ found, s.registries[e.1]? = some e.2) {regs : List Registry}
    (hlists : Lists lib table (found.map Prod.fst) regs) : regs = found.map Prod.snd := by
  have hkey : ∀ e ∈ found, e.2.id = e.1 := fun e he => hcounted.key _ _ (hchain e he)
  refine eq_of_map_eq Registry.id (fun r => s.registries[r]?) ?_ ?_ ?_
  · rw [hlists.ids, List.map_map]
    exact List.map_congr_left fun e he => (hkey e he).symm
  · intro reg hreg
    obtain ⟨row, hrow, hread⟩ := hlists.stored reg hreg
    exact h.stored codec hrow hread
  · intro reg hreg
    obtain ⟨e, he, rfl⟩ := List.mem_map.mp hreg
    show s.registries[e.2.id]? = some e.2
    rw [hkey e he]
    exact hchain e he

/-- **A search on an exact index answers from the chain.** -/
theorem Exact.search_eq {db : Database} (h : Exact lib s db.registries) (hsync : db.InSync sql)
    (codec : ∀ reg value, lib.marshal reg = .ok value → lib.unmarshal value = .ok reg)
    (hcounted : RegistriesCounted s) (hids : ∀ r ∈ s.registries, r.toNat < maxInt64)
    {mode : MatchMode} {name : Bytes} (haccepts : Accepts mode name) (hname : name ≠ [])
    {pr : Option PageRequest} {start : UInt64}
    (hstart : (sanitizePageRequest pr defaultPageLimit maxPageLimit).startId = .ok start) :
    searchRegistriesByName (db.searchEnv lib sql) (some db.registries) (some ⟨name, mode, pr⟩) =
      .ok (chainAnswer lib sql mode name s pr start) := by
  let pageReq := sanitizePageRequest pr defaultPageLimit maxPageLimit
  have hindex : Index (rowEnv lib sql).toEnv db.registries := h.index hcounted hids
  obtain ⟨regs, hsearch, hlists⟩ := hindex.search_eq (answers_rowEnv lib sql mode name) codec haccepts
    start pageReq.limit pageReq.offset
  rw [← hsync.search_eq lib] at hsearch
  have hresponse := searchRegistriesByName_of_search hname hstart hsearch
  rw [toNat_sanitized_limit, toNat_sanitized_offset] at hresponse hlists
  -- the ids are those of the chain, on the page and after it
  have hhits : (((hits (searchSelects lib sql mode name) db.registries).filter (start ≤ ·.1)).drop
      (pageOffset pr)).map Prod.fst =
      (((chainHits lib sql mode name s).filter (start ≤ ·.1)).drop (pageOffset pr)).map Prod.fst := by
    rw [List.map_drop, List.map_drop]
    exact congrArg _ (h.hits_eq haccepts start)
  rw [firstId_eq, List.map_drop, hhits, ← List.map_drop, ← firstId_eq] at hresponse
  rw [List.map_take, hhits, ← List.map_take] at hlists
  generalize hfound : ((chainHits lib sql mode name s).filter (start ≤ ·.1)).drop (pageOffset pr) =
    found at hresponse hlists
  have hchain : ∀ e ∈ found, s.registries[e.1]? = some e.2 := by
    intro e he
    rw [← hfound] at he
    have hin := (List.mem_filter.mp (List.mem_filter.mp (List.mem_of_mem_drop he)).1).1
    exact (Iteration.sorted s.registries).mem_entries.mp hin
  have hregs := h.lists_eq codec hcounted (fun e he => hchain e (List.mem_of_mem_take he)) hlists
  rw [hresponse, chainAnswer, hfound, hregs]

end Answer

/-! ## A node that hears every block -/

section Heard

variable {env : Nvnmchain.Env} {lib : Env} {sql : Fts5} {s s' : Nvnmchain.Store}
  {table table' : Table}

/-- A registry that was written is among those the listener decodes. -/
theorem mem_registryWrites
    (codec : ∀ reg value, lib.marshal reg = .ok value → lib.unmarshal value = .ok reg)
    {changeSet : List StoreKVPair} {regs : List Registry}
    (hok : registryWrites lib changeSet = .ok regs) {r : UInt64} {reg : Registry} {value : Bytes}
    (hmarshal : lib.marshal reg = .ok value)
    (hmem : ⟨storeKey, false, registryKey r, value⟩ ∈ changeSet) : reg ∈ regs := by
  induction changeSet generalizing regs with
  | nil => exact absurd hmem List.not_mem_nil
  | cons pair rest ih =>
    rw [registryWrites] at hok
    split at hok
    · rename_i hskip
      rcases List.mem_cons.mp hmem with rfl | hrest
      · have htaken : registriesKeyPrefix.isPrefixOf (registryKey r) = true :=
          List.isPrefixOf_iff_prefix.mpr (List.prefix_append _ _)
        simp [htaken] at hskip
      · exact ih hok hrest
    · obtain ⟨reg', hreg', hok⟩ := bind_eq_ok.mp hok
      obtain ⟨regs', hregs', e⟩ := bind_eq_ok.mp hok
      cases e
      rcases List.mem_cons.mp hmem with rfl | hrest
      · cases (codec reg value hmarshal).symm.trans (wrapf_eq_ok.mp hreg')
        exact List.mem_cons_self
      · exact List.mem_cons_of_mem _ (ih hregs' hrest)

/-- **A block that is heard leaves an exact table exact.** -/
theorem Exact.listened (h : Exact lib s table) (hcounted : RegistriesCounted s')
    (hgrows : Grows s s')
    (codec : ∀ reg value, lib.marshal reg = .ok value → lib.unmarshal value = .ok reg)
    {changeSet : List StoreKVPair} (changes : ChangeSetOf lib s s' changeSet)
    (hok : listenCommit lib changeSet table = .ok table') : Exact lib s' table' := by
  obtain ⟨regs, hregs, hok⟩ := bind_eq_ok.mp hok
  have hkept := h.sound.grows hgrows
  have hchain : ∀ reg ∈ regs, s'.registries[reg.id]? = some reg := by
    intro reg hreg
    obtain ⟨r, hr⟩ := registryWrites_spec codec changes.pairs hregs reg hreg
    exact (hcounted.key r reg hr).symm ▸ hr
  have hfold : regs.foldlM (upsert lib) table = .ok table' := by
    split at hok
    · rename_i hnil
      rw [hnil]
      exact hok
    · exact hok
  obtain ⟨hsynced, hmem⟩ := hkept.foldlM_upsert hchain hfold
  refine hsynced.exact fun r hr => hmem r ?_
  obtain ⟨reg, hreg⟩ := Map.mem_iff.mp hr
  by_cases hold : r ∈ s.registries
  · obtain ⟨reg₀, hreg₀⟩ := Map.mem_iff.mp hold
    obtain ⟨row, -, hrow⟩ := h.complete r reg₀ hreg₀
    exact .inl (Map.mem_of_get? hrow)
  · obtain ⟨value, hmarshal, hpair⟩ := changes.added r reg hreg hold
    exact .inr ⟨reg, mem_registryWrites codec hregs hmarshal hpair, hcounted.key r reg hreg⟩

/-- A block that the listener writes into the index. -/
inductive Heard (env : Nvnmchain.Env) (lib : Env) (sql : Fts5) (n : DbNode) : DbNode → Prop where
  | block {store : Nvnmchain.Store} {changeSet : List StoreKVPair} {db : Database}
      (block : Relation.ReflTransGen (BoundedStep env Set.univ) n.store store)
      (changes : ChangeSetOf lib n.store store changeSet)
      (listens : n.db.listenCommit lib sql changeSet = .ok db) : Heard env lib sql n ⟨store, db⟩

/-- What holds of a node that has heard everything. -/
structure UpToDate (lib : Env) (sql : Fts5) (n : DbNode) : Prop where
  counted : RegistriesCounted n.store
  exact : Exact lib n.store n.db.registries
  inSync : n.db.InSync sql

/-- A block that the node hears of keeps its database up to date. -/
theorem UpToDate.heard {n n' : DbNode} (h : UpToDate lib sql n)
    (codec : ∀ reg value, lib.marshal reg = .ok value → lib.unmarshal value = .ok reg)
    (hheard : Heard env lib sql n n') : UpToDate lib sql n' := by
  cases hheard with
  | block block changes listens =>
    obtain ⟨hcounted, hgrows⟩ := h.counted.block block
    obtain ⟨table, htable, rfl, hsync⟩ := (listenCommit_lockstep h.inSync _).of_ok listens
    exact ⟨hcounted, h.exact.listened hcounted hgrows codec changes htable, hsync⟩

/-- A run that the node hears of keeps its database up to date. -/
theorem UpToDate.run {n n' : DbNode} (h : UpToDate lib sql n)
    (codec : ∀ reg value, lib.marshal reg = .ok value → lib.unmarshal value = .ok reg)
    (run : Relation.ReflTransGen (Heard env lib sql) n n') : UpToDate lib sql n' := by
  induction run with
  | refl => exact h
  | tail run hheard ih => exact ih.heard codec hheard

/-- **A backfill brings a node up to date**, whatever it missed. -/
theorem UpToDate.backfilled {n : DbNode} (hcounted : RegistriesCounted n.store)
    (hsynced : Synced lib n.store n.db.registries) (hsync : n.db.InSync sql) {db : Database}
    (hok : Database.backfillNameIndex lib sql n.store (some n.db) = .ok (some db)) :
    UpToDate lib sql ⟨n.store, db⟩ := by
  obtain ⟨t, ht, db', hdb', rfl, hsync'⟩ := (backfill_lockstep hsync _).of_ok hok
  cases hdb'
  exact ⟨hcounted, backfill_exact hcounted hsynced ht, hsync'⟩

end Heard

/-- **A search answers from the chain.** From every genesis that loads and a new index, after every run
of blocks, seen or missed, and of restarts, then a backfill, then blocks that were all heard: in every
mode, for every name that is not rejected and every page, `SearchRegistriesByName` answers the registries
of the chain whose names match, in the order of their ids, with the key of the next page. -/
theorem search_end_to_end {env : Nvnmchain.Env} {lib : Env} {sql : Fts5} {gs : GenesisState}
    {order : GenesisOrder gs} {s₀ : Nvnmchain.Store}
    (hgenesis : initGenesis env gs order Store.empty = .ok s₀)
    (codec : ∀ reg value, lib.marshal reg = .ok value → lib.unmarshal value = .ok reg)
    {started n : DbNode} {db : Database}
    (before : Relation.ReflTransGen (DbStep env lib sql) ⟨s₀, .empty⟩ started)
    (backfill : Database.backfillNameIndex lib sql started.store (some started.db) = .ok (some db))
    (since : Relation.ReflTransGen (Heard env lib sql) ⟨started.store, db⟩ n)
    (hids : ∀ r ∈ n.store.registries, r.toNat < maxInt64)
    {mode : MatchMode} {name : Bytes} (haccepts : Accepts mode name) (hname : name ≠ [])
    {pr : Option PageRequest} {start : UInt64}
    (hstart : (sanitizePageRequest pr defaultPageLimit maxPageLimit).startId = .ok start) :
    searchRegistriesByName (n.db.searchEnv lib sql) (some n.db.registries) (some ⟨name, mode, pr⟩) =
      .ok (chainAnswer lib sql mode name n.store pr start) := by
  obtain ⟨hl, -, rfl⟩ := initGenesis_eq_ok.mp hgenesis
  obtain ⟨hrun, hsync⟩ := DbStep.run before Database.inSync_empty
  obtain ⟨hcounted, hsynced⟩ := run_synced codec (.imported order hl) .empty hrun
  have hnow := (UpToDate.backfilled hcounted hsynced hsync backfill).run codec since
  exact hnow.exact.search_eq hnow.inSync codec hnow.counted hids haccepts hname hstart

/-- A node starts on the chain with registries 1 and 7, and hears the block of registry 8: the new name
is found by a part of it, in other letters. -/
theorem search_end_to_end_titled :
    ∃ n : DbNode, n.store = titledStore ∧
      (searchRegistriesByName (n.db.searchEnv smallLib plainFts) (some n.db.registries)
        (some ⟨str "ITL", .containsMode, none⟩)).map (·.registries) = .ok [titles] := by
  have hsome : ((Database.backfillNameIndex smallLib plainFts gappedStore (some .empty)).toOption.join.bind
      fun db => (db.listenCommit smallLib plainFts titledChanges).toOption).isSome = true := by
    decide +kernel
  obtain ⟨db', hdb'⟩ := Option.isSome_iff_exists.mp hsome
  obtain ⟨db, hdb, hlisten⟩ := Option.bind_eq_some_iff.mp hdb'
  have hfill := toOption_eq_some.mp (Option.join_eq_some_iff.mp hdb)
  have hsince : Relation.ReflTransGen (Heard smallEnv smallLib plainFts) ⟨gappedStore, db⟩
      ⟨titledStore, db'⟩ :=
    .single (.block block_titledStore changes_titledStore (toOption_eq_some.mp hlisten))
  have hall : titledStore.registries.toList.all (fun e => e.1.toNat ≤ 8) = true := by decide +kernel
  have hids : ∀ r ∈ titledStore.registries, r.toNat < maxInt64 := by
    intro r hr
    obtain ⟨reg, hreg⟩ := Map.mem_iff.mp hr
    have hentry := (Iteration.sorted titledStore.registries).mem_entries.mpr hreg
    have hle : r.toNat ≤ 8 := of_decide_eq_true (List.all_eq_true.mp hall (r, reg) hentry)
    exact Nat.lt_of_le_of_lt hle (by decide)
  have haccepts : Accepts .containsMode (str "ITL") := by
    rintro ⟨-, hshort⟩
    exact absurd hshort (by decide +kernel)
  have hstart : (sanitizePageRequest none defaultPageLimit maxPageLimit).startId = .ok 0 := rfl
  have hbefore : Relation.ReflTransGen (DbStep smallEnv smallLib plainFts) ⟨gappedStore, .empty⟩
      ⟨gappedStore, .empty⟩ := .refl
  have hanswer := search_end_to_end initGenesis_gappedStore codec_smallLib hbefore hfill hsince hids haccepts
    (by decide) hstart
  have hpage : (chainAnswer smallLib plainFts .containsMode (str "ITL") titledStore none 0).registries =
      [titles] := by decide +kernel
  refine ⟨⟨titledStore, db'⟩, rfl, ?_⟩
  rw [hanswer, ← hpage]
  rfl

end Nvnmchain.NameIndex
