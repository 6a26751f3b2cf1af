import Nvnmchain.Lib.Lockstep
import Nvnmchain.Lib.Trigram
import Nvnmchain.Nameindex.Converge
import Nvnmchain.Nameindex.Literal

/-!
# The trigram table of the name index

A search for names that contain a text goes through a second table, `registries_fts`, a full-text index
of the lower-cased names. It keeps no names, only postings, and the triggers of the schema bring it up
to date inside the transaction of every write: a row that is new is entered, and a row that is written
again is deleted under its old name and entered under its new one.

Nothing else keeps the two tables together. The index does what it is documented to do only when it is
never told to enter a row twice or to delete a row under another name than it was entered under
(`Trigram.Engine`), and it does not check. Here the writers of the index are modelled on both tables.
On the first one they do what they did without the triggers, errors included (`upsert_lockstep`), so
what is known of a run still holds; and the second is at all times the index of the first
(`fulltext_in_sync`).

No statement of the source deletes a row, so the trigger for it is left out.
-/

set_option autoImplicit false

namespace Nvnmchain.NameIndex

open Go (Bytes str fmtUint)
open Collections

/-! ## Both tables -/

/-- What SQLite brings: the case folding of its trigram tokenizer, and its full-text index. -/
structure Fts5 where
  fold : Char → Char
  engine : Trigram.Engine UInt64 Char

/-- The two tables of the schema. -/
structure Database where
  registries : Table
  fts : Trigram.Index UInt64 Char

/-- The text of a row that is broken into trigrams. -/
def Fts5.text (sql : Fts5) (row : Row) : List Char := (Utf8.decode row.nameLower).map sql.fold

/-- The trigger `registries_fts_ai`, after an insert. -/
def registriesFtsAi (sql : Fts5) (id : UInt64) (new : Row) (fts : Trigram.Index UInt64 Char) :
    Trigram.Index UInt64 Char :=
  sql.engine.insert fts id (sql.text new)

/-- The trigger `registries_fts_au`, after an update. -/
def registriesFtsAu (sql : Fts5) (id : UInt64) (old new : Row) (fts : Trigram.Index UInt64 Char) :
    Trigram.Index UInt64 Char :=
  sql.engine.insert (sql.engine.delete fts id (sql.text old)) id (sql.text new)

namespace Database

/-- A new file. -/
def empty : Database := ⟨∅, ∅⟩

/-- The statement of `upsert`, with the trigger of the case it falls into. -/
def exec (sql : Fts5) (db : Database) (id : UInt64) (row : Row) : Except Err Database := do
  let registries ← NameIndex.exec db.registries id row
  match db.registries[id]? with
  | none => pure ⟨registries, registriesFtsAi sql id row db.fts⟩
  | some old => pure ⟨registries, registriesFtsAu sql id old row db.fts⟩

/-- `upsert`. -/
def upsert (lib : Env) (sql : Fts5) (db : Database) (reg : Registry) : Except Err Database := do
  let row ← rowOf lib reg
  wrapf (str "nameindex: upsert registry " ++ fmtUint reg.id.toNat) (db.exec sql reg.id row)

/-- `Listener.ListenCommit`. -/
def listenCommit (lib : Env) (sql : Fts5) (changeSet : List StoreKVPair) (db : Database) :
    Except Err Database := do
  let regs ← registryWrites lib changeSet
  if regs = [] then pure db else regs.foldlM (upsert lib sql) db

/-- The callback of the backfill's walk. -/
def backfillRegistry (lib : Env) (sql : Fts5) (batch : Database) (_ : UInt64) (reg : Registry) :
    Except Err (Bool × Database) := do
  let batch ← wrapf (str "backfill registry " ++ fmtUint reg.id.toNat) (batch.upsert lib sql reg)
  pure (false, batch)

/-- `Keeper.BackfillNameIndex`; a node without the index does nothing. -/
def backfillNameIndex (lib : Env) (sql : Fts5) (s : Nvnmchain.Store) :
    Option Database → Except Err (Option Database)
  | none => pure none
  | some db => do
    let total := s.registryCount.getD 0
    let indexed := count db.registries
    if indexed = total then pure (some db)
    else do
      let batch ← walk (backfillRegistry lib sql) db s.registries.toList
      pure (some batch)

end Database

/-! ## The triggers keep the tables together -/

section Writers

variable {lib : Env} {sql : Fts5}

/-- The postings are those of the rows. -/
def Database.InSync (sql : Fts5) (db : Database) : Prop :=
  Trigram.Indexes db.fts fun id => db.registries[id]?.map sql.text

/-- A database with its tables together, and the first of them. -/
def Database.Shows (sql : Fts5) (db : Database) (table : Table) : Prop :=
  db.registries = table ∧ db.InSync sql

/-- An empty database is in sync. -/
theorem Database.inSync_empty : Database.empty.InSync sql := by
  have hnone : (fun id : UInt64 => (Database.empty.registries)[id]?.map sql.text) = fun _ => none := by
    funext id
    rw [Database.empty, Std.ExtTreeMap.getElem?_empty, Option.map_none]
  rw [Database.InSync, hnone]
  exact Trigram.Indexes.empty

/-- The texts of a table with one more row. -/
theorem texts_insert (table : Table) (id : UInt64) (row : Row) :
    (fun a : UInt64 => (table.insert id row)[a]?.map sql.text) =
      Function.update (fun a => table[a]?.map sql.text) id (some (sql.text row)) := by
  funext a
  rw [Map.get?_insert, Function.update_apply]
  by_cases h : id = a
  · rw [if_pos h, if_pos h.symm, Option.map_some]
  · rw [if_neg h, if_neg (Ne.symm h)]

/-- **A write keeps the tables together**, whether the row is new or not. -/
theorem exec_lockstep {db : Database} (h : db.InSync sql) (id : UInt64) (row : Row) :
    Lockstep (Database.Shows sql) (db.exec sql id row) (NameIndex.exec db.registries id row) := by
  unfold Database.exec NameIndex.exec
  by_cases hid : id.toNat < 2 ^ 63
  · rw [if_pos hid]
    cases hold : db.registries[id]? with
    | none =>
      refine .ok ⟨rfl, ?_⟩
      show Trigram.Indexes (sql.engine.insert db.fts id (sql.text row)) _
      rw [texts_insert]
      exact Trigram.Indexes.insert h sql.engine (by simp only [hold, Option.map_none]) _
    | some old =>
      refine .ok ⟨rfl, ?_⟩
      show Trigram.Indexes (sql.engine.insert (sql.engine.delete db.fts id (sql.text old)) id
        (sql.text row)) _
      rw [texts_insert]
      exact Trigram.Indexes.replace h sql.engine (by simp only [hold, Option.map_some]) _
  · rw [if_neg hid]
    exact .error _

theorem wrapf_lockstep {α β : Type} {R : α → β → Prop} {x : Except Err α} {y : Except Err β}
    (h : Lockstep R x y) (msg : Bytes) : Lockstep R (wrapf msg x) (wrapf msg y) := by
  cases h with
  | ok related => exact .ok related
  | error e => exact .error _

/-- An upsert through the triggers shows what an upsert of the table does. -/
theorem upsert_lockstep {db : Database} {table : Table} (reg : Registry) (h : db.Shows sql table) :
    Lockstep (Database.Shows sql) (db.upsert lib sql reg) (upsert lib table reg) := by
  obtain ⟨rfl, hsync⟩ := h
  exact Lockstep.bind_same _ fun row _ => wrapf_lockstep (exec_lockstep hsync reg.id row) _

/-- A batch of upserts, by induction on it. -/
theorem foldlM_lockstep {db : Database} {table : Table} (regs : List Registry)
    (h : db.Shows sql table) :
    Lockstep (Database.Shows sql) (regs.foldlM (Database.upsert lib sql) db)
      (regs.foldlM (upsert lib) table) :=
  Lockstep.foldlM (fun _ _ reg h => upsert_lockstep reg h) regs h

/-- **The listener writes both tables**, or neither. -/
theorem listenCommit_lockstep {db : Database} (h : db.InSync sql) (changeSet : List StoreKVPair) :
    Lockstep (Database.Shows sql) (db.listenCommit lib sql changeSet)
      (listenCommit lib changeSet db.registries) := by
  refine Lockstep.bind_same _ fun regs _ => ?_
  by_cases hregs : regs = []
  · rw [if_pos hregs, if_pos hregs]
    exact .ok ⟨rfl, h⟩
  · rw [if_neg hregs, if_neg hregs]
    exact foldlM_lockstep regs ⟨rfl, h⟩

/-- The walk of the backfill, by induction on the registries. -/
theorem walk_lockstep (l : List (UInt64 × Registry)) {db : Database} {table : Table}
    (h : db.Shows sql table) :
    Lockstep (Database.Shows sql) (walk (Database.backfillRegistry lib sql) db l)
      (walk (backfillRegistry lib) table l) := by
  induction l generalizing db table with
  | nil => exact .ok h
  | cons entry rest ih =>
    have hstep : Lockstep (fun a b => a.1 = false ∧ b.1 = false ∧ a.2.Shows sql b.2)
        (Database.backfillRegistry lib sql db entry.1 entry.2)
        (backfillRegistry lib table entry.1 entry.2) :=
      (wrapf_lockstep (upsert_lockstep entry.2 h) _).bind fun _ _ h' => .ok ⟨rfl, rfl, h'⟩
    refine hstep.bind ?_
    rintro ⟨stop, db'⟩ ⟨stop', table'⟩ ⟨rfl, rfl, h'⟩
    exact ih h'

/-- **The backfill writes both tables**, or neither. -/
theorem backfill_lockstep {db : Database} (h : db.InSync sql) (s : Nvnmchain.Store) :
    Lockstep (fun d t => ∃ db', d = some db' ∧ t = some db'.registries ∧ db'.InSync sql)
      (Database.backfillNameIndex lib sql s (some db))
      (backfillNameIndex lib s (some db.registries)) := by
  unfold Database.backfillNameIndex backfillNameIndex
  dsimp only
  split
  · exact .ok ⟨db, rfl, rfl, h⟩
  · refine (walk_lockstep _ ⟨rfl, h⟩).bind ?_
    rintro db' table' ⟨rfl, hsync⟩
    exact .ok ⟨db', rfl, rfl, hsync⟩

end Writers

/-! ## Runs -/

/-- A node whose index is the whole database. -/
structure DbNode where
  store : Nvnmchain.Store
  db : Database

/-- The node without its second table. -/
def DbNode.node (n : DbNode) : Node := ⟨n.store, n.db.registries⟩

/-- A block or a restart, as in `Step`. -/
inductive DbStep (env : Nvnmchain.Env) (lib : Env) (sql : Fts5) (n : DbNode) : DbNode → Prop where
  | commit {store : Nvnmchain.Store} {changeSet : List StoreKVPair} {db : Database}
      (block : Relation.ReflTransGen (BoundedStep env Set.univ) n.store store)
      (changes : ChangeSetOf lib n.store store changeSet)
      (listens : db = n.db ∨ n.db.listenCommit lib sql changeSet = .ok db) :
      DbStep env lib sql n ⟨store, db⟩
  | restart {db : Database}
      (backfills : db = n.db ∨
        Database.backfillNameIndex lib sql n.store (some n.db) = .ok (some db)) :
      DbStep env lib sql n ⟨n.store, db⟩

section Runs

variable {env : Nvnmchain.Env} {lib : Env} {sql : Fts5} {first last : DbNode}

/-- A step is a step of the first table, and keeps the second. -/
theorem DbStep.step (h : DbStep env lib sql first last) (hsync : first.db.InSync sql) :
    Step env lib first.node last.node ∧ last.db.InSync sql := by
  cases h with
  | commit block changes listens =>
    rcases listens with rfl | hok
    · exact ⟨.commit block changes (.inl rfl), hsync⟩
    · obtain ⟨table, htable, rfl, hsync'⟩ := (listenCommit_lockstep hsync _).of_ok hok
      exact ⟨.commit block changes (.inr htable), hsync'⟩
  | restart backfills =>
    rcases backfills with rfl | hok
    · exact ⟨.restart (.inl rfl), hsync⟩
    · obtain ⟨t, ht, db', hdb', rfl, hsync'⟩ := (backfill_lockstep hsync _).of_ok hok
      cases hdb'
      exact ⟨.restart (.inr ht), hsync'⟩

/-- A run of the database is a run of the table, and stays in sync. -/
theorem DbStep.run (run : Relation.ReflTransGen (DbStep env lib sql) first last)
    (hsync : first.db.InSync sql) :
    Relation.ReflTransGen (Step env lib) first.node last.node ∧ last.db.InSync sql := by
  induction run with
  | refl => exact ⟨.refl, hsync⟩
  | tail run step ih =>
    obtain ⟨hrun, hsync⟩ := ih
    obtain ⟨hstep, hsync'⟩ := step.step hsync
    exact ⟨hrun.tail hstep, hsync'⟩

end Runs

/-! ## Matching -/

/-- The words of the condition that is put to the second table. -/
def matchWords : List (List Char) := ["f.name_lower".toList, "MATCH".toList, "?".toList]

/-- Whether a statement, with the argument of its first mark, selects a row. A row of the first table
is joined to its postings in the second one. Full-text queries other than a single string are not
described. -/
def Database.selects (sql : Fts5) (db : Database) (stmt : String) (arg : Bytes) (id : UInt64)
    (row : Row) : Option Bool :=
  if conditionWords stmt = matchWords then
    match Sql.lex (Utf8.decode arg) with
    | some [.string phrase] => some (decide (Trigram.Occurs db.fts id (phrase.map sql.fold)))
    | _ => none
  else NameIndex.selects stmt arg row

/-- The row alone decides: the phrase is a part of its text. -/
def rowSelects (sql : Fts5) (stmt : String) (arg : Bytes) (row : Row) : Option Bool :=
  if conditionWords stmt = matchWords then
    match Sql.lex (Utf8.decode arg) with
    | some [.string phrase] =>
      some (decide (minContainsQueryLen ≤ phrase.length ∧ phrase.map sql.fold <:+: sql.text row))
    | _ => none
  else NameIndex.selects stmt arg row

/-- **What a statement selects can be told from the rows**, when the tables are together. -/
theorem Database.InSync.selects_eq {sql : Fts5} {db : Database} (h : db.InSync sql) {id : UInt64}
    {row : Row} (hrow : db.registries[id]? = some row) (stmt : String) (arg : Bytes) :
    db.selects sql stmt arg id row = rowSelects sql stmt arg row := by
  unfold Database.selects rowSelects
  by_cases hmatch : conditionWords stmt = matchWords
  · rw [if_pos hmatch, if_pos hmatch]
    split
    · rename_i phrase _
      have htext : db.registries[id]?.map sql.text = some (sql.text row) := by
        rw [hrow, Option.map_some]
      have hoccurs : Trigram.Occurs db.fts id (phrase.map sql.fold) ↔ _ :=
        Trigram.Indexes.occurs_iff h htext
      rw [List.length_map] at hoccurs
      exact congrArg some (decide_eq_decide.mpr hoccurs)
    · rfl
  · rw [if_neg hmatch, if_neg hmatch]

/-- A match on one quoted phrase selects the rows that contain it. -/
theorem rowSelects_phrase {stmt : String} {arg : Bytes} {phrase : List Char}
    (hwords : conditionWords stmt = matchWords)
    (hlex : Sql.lex (Utf8.decode arg) = some [.string phrase]) (sql : Fts5) (row : Row) :
    rowSelects sql stmt arg row =
      some (decide (minContainsQueryLen ≤ phrase.length ∧ phrase.map sql.fold <:+: sql.text row)) := by
  rw [rowSelects, if_pos hwords, hlex]

/-- The full-text query of a search selects the rows whose text the folded query is a part of. -/
theorem rowSelects_contains (lib : Env) (sql : Fts5) (query : Bytes) (row : Row) :
    rowSelects sql (searchStmt .containsMode (stringsToLower lib query)).1
        (searchStmt .containsMode (stringsToLower lib query)).2 row =
      some (decide (minContainsQueryLen ≤ (fold lib query).length ∧
        (fold lib query).map sql.fold <:+: sql.text row)) := by
  -- the statement is the same for every query
  have hwords : conditionWords (searchStmt .containsMode []).1 = matchWords := by decide +kernel
  have hlex : Sql.lex (Utf8.decode (ftsPhrase (Utf8.encode (fold lib query)))) =
      some [.string (fold lib query)] := by
    rw [ftsPhrase_encode, Utf8.decode_encode, Sql.lex_quoted]
  exact rowSelects_phrase hwords hlex sql row

/-- **The trigram table is never behind.** In every state of every run of blocks, seen or missed, and of
restarts, from a new file: the first table went through a run of its own, the postings are those of its
rows, and the full-text query of a search of three characters or more selects exactly the rows whose
lower-cased name has the lower-cased query in it, up to the folding of SQLite. -/
theorem fulltext_in_sync {env : Nvnmchain.Env} {lib : Env} {sql : Fts5} {s₀ : Nvnmchain.Store}
    {n : DbNode} (run : Relation.ReflTransGen (DbStep env lib sql) ⟨s₀, .empty⟩ n) :
    Relation.ReflTransGen (Step env lib) ⟨s₀, ∅⟩ n.node ∧ n.db.InSync sql ∧
      ∀ (id : UInt64) (row : Row) (query : Bytes), n.db.registries[id]? = some row →
        minContainsQueryLen ≤ (Utf8.decode query).length →
        n.db.selects sql (searchStmt .containsMode (stringsToLower lib query)).1
            (searchStmt .containsMode (stringsToLower lib query)).2 id row =
          some (decide ((fold lib query).map sql.fold <:+: sql.text row)) := by
  obtain ⟨hrun, hsync⟩ := DbStep.run run Database.inSync_empty
  refine ⟨hrun, hsync, fun id row query hrow hlen => ?_⟩
  have hfold : minContainsQueryLen ≤ (fold lib query).length := by
    rw [fold, List.length_map]
    exact hlen
  rw [hsync.selects_eq hrow, rowSelects_contains]
  exact congrArg some (decide_eq_decide.mpr (and_iff_right hfold))

/-- A full-text index that folds nothing. -/
def plainFts : Fts5 := ⟨id, .plain⟩

/-- The listener misses the block of registry 8, and the backfill of the next start finds it: its name is
found by a part. -/
theorem fulltext_in_sync_titled :
    ∃ (n : DbNode) (row : Row), Relation.ReflTransGen (DbStep smallEnv smallLib plainFts) ⟨gappedStore, .empty⟩ n ∧
      n.store = titledStore ∧ n.db.registries[(8 : UInt64)]? = some row ∧
      n.db.selects plainFts (searchStmt .containsMode (stringsToLower smallLib (str "ITL"))).1
        (searchStmt .containsMode (stringsToLower smallLib (str "ITL"))).2 8 row = some true := by
  have hrows : ((Database.backfillNameIndex smallLib plainFts titledStore (some .empty)).toOption.join.bind
      fun db => db.registries[(8 : UInt64)]?) = some ⟨str "titles", str "seltit", [8]⟩ := by
    decide +kernel
  obtain ⟨db, hdb, hrow⟩ := Option.bind_eq_some_iff.mp hrows
  have hfill := toOption_eq_some.mp (Option.join_eq_some_iff.mp hdb)
  have hrun : Relation.ReflTransGen (DbStep smallEnv smallLib plainFts) ⟨gappedStore, .empty⟩
      ⟨titledStore, db⟩ :=
    (Relation.ReflTransGen.single (.commit block_titledStore changes_titledStore (.inl rfl))).tail
      (.restart (.inr hfill))
  have hselects := (fulltext_in_sync hrun).2.2 8 _ (str "ITL") hrow (by decide +kernel)
  have hpart : (fold smallLib (str "ITL")).map plainFts.fold <:+:
      plainFts.text ⟨str "titles", str "seltit", [8]⟩ := by decide +kernel
  exact ⟨_, _, hrun, rfl, hrow, hselects.trans (congrArg some (decide_eq_true hpart))⟩

end Nvnmchain.NameIndex
