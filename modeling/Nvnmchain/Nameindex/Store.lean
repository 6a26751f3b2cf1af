import Nvnmchain.Lib.Utf8
import Nvnmchain.Lib.Word
import Nvnmchain.Anchoring.Keeper

/-!
# The name index

`x/anchoring/nameindex` and `Keeper.BackfillNameIndex`. A node may keep a table of the registry names
beside the chain, one row for each registry. Two writers fill it: the listener, which is handed the
change set of every committed block and picks the writes of registries out of it, and the backfill,
which a node runs when it starts and which goes through the whole collection unless the table already
has as many rows as the chain has counted registries.

The table is an SQLite file. A batch is a transaction: its rows are published together by `Commit`,
or not at all, so a writer answers the table it leaves or an error, and an error leaves the table as
it was. The upsert is an assignment to the row of its id. The trigram table that `CONTAINS` searches
is kept by triggers of the database; it is in `Fulltext`, beside this one.
-/

set_option autoImplicit false

namespace Nvnmchain.NameIndex

open Go (Bytes str fmtUint)
open Collections

/-- The functions of other libraries the index calls: the registry's protobuf codec, and
`unicode.ToLower`. -/
structure Env where
  marshal : Registry → Except Err Bytes
  unmarshal : Bytes → Except Err Registry
  toLower : Char → Char

/-- A row of the table, without its id. -/
structure Row where
  nameLower : Bytes
  nameRevLower : Bytes
  data : Bytes
deriving DecidableEq

/-- The `registries` table, by id. -/
abbrev Table := Map UInt64 Row

/-- `strings.ToLower`. -/
def stringsToLower (lib : Env) (s : Bytes) : Bytes := Utf8.encode ((Utf8.decode s).map lib.toLower)

/-- `reverse`, by rune. -/
def reverse (s : Bytes) : Bytes := Utf8.encode (Utf8.decode s).reverse

/-- The row of a registry. -/
def rowOf (lib : Env) (reg : Registry) : Except Err Row := do
  let data ← wrapf (str "nameindex: marshal registry " ++ fmtUint reg.id.toNat) (lib.marshal reg)
  let lower := stringsToLower lib reg.name
  pure ⟨lower, reverse lower, data⟩

/-- The statement of `upsert`. `database/sql` refuses an id above `MaxInt64`. -/
def exec (table : Table) (id : UInt64) (row : Row) : Except Err Table :=
  if id.toNat < 2 ^ 63 then .ok (table.insert id row)
  else errorf
    "sql: converting argument $1 type: uint64 values with high bit set are not supported"

/-- `upsert`. -/
def upsert (lib : Env) (table : Table) (reg : Registry) : Except Err Table := do
  let row ← rowOf lib reg
  wrapf (str "nameindex: upsert registry " ++ fmtUint reg.id.toNat) (exec table reg.id row)

/-- `Store.Count`. -/
def count (table : Table) : UInt64 := .ofNat table.size

/-! ## The listener -/

/-- `types.StoreKey`. -/
def storeKey : Bytes := str "anchoring"

/-- `types.RegistriesKeyPrefix`. -/
def registriesKeyPrefix : Bytes := [1]

/-- The prefixes of the module's other collections, in the order of `types/keys.go`; 2 is retired. -/
def otherKeyPrefixes : List Bytes := [[0], [2], [3], [4], [5], [6], [7], [8], [10], [11]]

/-- The key under which a registry is stored. -/
def registryKey (id : UInt64) : Bytes := registriesKeyPrefix ++ Eth.putUint64 id

/-- `storetypes.StoreKVPair`. -/
structure StoreKVPair where
  storeKey : Bytes
  delete : Bool
  key : Bytes
  value : Bytes

/-- The loop of `ListenCommit` over the change set: the registries it writes. -/
def registryWrites (lib : Env) : List StoreKVPair → Except Err (List Registry)
  | [] => pure []
  | pair :: rest =>
    if pair.storeKey ≠ storeKey || pair.delete || !registriesKeyPrefix.isPrefixOf pair.key then
      registryWrites lib rest
    else do
      let reg ← wrapf (str "nameindex: decode registry write") (lib.unmarshal pair.value)
      let regs ← registryWrites lib rest
      pure (reg :: regs)

/-- `Listener.ListenCommit`. -/
def listenCommit (lib : Env) (changeSet : List StoreKVPair) (table : Table) : Except Err Table := do
  let regs ← registryWrites lib changeSet
  if regs = [] then pure table else regs.foldlM (upsert lib) table

/-! ## The backfill -/

/-- The callback of the backfill's walk. -/
def backfillRegistry (lib : Env) (batch : Table) (_ : UInt64) (reg : Registry) :
    Except Err (Bool × Table) := do
  let batch ← wrapf (str "backfill registry " ++ fmtUint reg.id.toNat) (upsert lib batch reg)
  pure (false, batch)

/-- `Keeper.BackfillNameIndex`; a node without the index does nothing. -/
def backfillNameIndex (lib : Env) (s : Store) : Option Table → Except Err (Option Table)
  | none => pure none
  | some table => do
    -- a counter that was never set counts as zero
    let total := s.registryCount.getD 0
    let indexed := count table
    if indexed = total then pure (some table)
    else do
      let batch ← walk (backfillRegistry lib) table s.registries.toList
      pure (some batch)

/-! ## What a writer did -/

variable {lib : Env} {table table' : Table}

/-- A registry is entered if its row can be made and its id fits a signed integer. -/
theorem upsert_eq_ok {reg : Registry} :
    upsert lib table reg = .ok table' ↔
      ∃ row, rowOf lib reg = .ok row ∧ reg.id.toNat < 2 ^ 63 ∧ table' = table.insert reg.id row := by
  have hexec : ∀ row, exec table reg.id row = .ok table' ↔
      reg.id.toNat < 2 ^ 63 ∧ table' = table.insert reg.id row := by
    intro row
    unfold exec
    split
    · rename_i h
      exact ⟨fun e => ⟨h, (Except.ok.inj e).symm⟩, fun ⟨_, e⟩ => e ▸ rfl⟩
    · rename_i h
      exact ⟨(fun e => nomatch e), fun ⟨hlt, _⟩ => absurd hlt h⟩
  unfold upsert
  rw [bind_eq_ok]
  exact exists_congr fun row => and_congr_right fun _ => wrapf_eq_ok.trans (hexec row)

/-- The backfill's walk is the listener's loop, over the whole collection. -/
theorem walk_backfillRegistry (l : List (UInt64 × Registry)) :
    walk (backfillRegistry lib) table l = .ok table' ↔
      (l.map Prod.snd).foldlM (upsert lib) table = .ok table' := by
  induction l generalizing table with
  | nil => exact Iff.rfl
  | cons entry rest ih =>
    rw [walk, List.map_cons, List.foldlM_cons, bind_eq_ok, bind_eq_ok]
    constructor
    · rintro ⟨⟨stop, batch⟩, hstep, hrest⟩
      obtain ⟨_, hupsert, e⟩ := bind_eq_ok.mp hstep
      cases e
      exact ⟨batch, wrapf_eq_ok.mp hupsert, ih.mp hrest⟩
    · rintro ⟨batch, hupsert, hrest⟩
      exact ⟨(false, batch), bind_eq_ok.mpr ⟨batch, wrapf_eq_ok.mpr hupsert, rfl⟩, ih.mpr hrest⟩

/-! ## A codec for some registries -/

/-- A codec for the registries of a list, and the lower case of ASCII. -/
def listedLib (codec : List (Bytes × Registry)) : Env where
  marshal reg := (codec.find? (·.2 = reg)).elim (errorf "unknown registry") (.ok ·.1)
  unmarshal value := (codec.lookup value).elim (errorf "unknown registry") .ok
  toLower c := c.toLower

/-- A codec whose encodings are told apart reads back what it wrote. -/
theorem unmarshal_listedLib {codec : List (Bytes × Registry)}
    (hread : ∀ e ∈ codec, codec.lookup e.1 = some e.2) {reg : Registry} {value : Bytes}
    (h : (listedLib codec).marshal reg = .ok value) : (listedLib codec).unmarshal value = .ok reg := by
  dsimp only [listedLib] at h ⊢
  cases hfind : codec.find? (·.2 = reg) with
  | none =>
    rw [hfind] at h
    cases h
  | some e =>
    have hreg : e.2 = reg := by simpa using List.find?_some hfind
    rw [hfind] at h
    cases h
    rw [hread e (List.mem_of_find?_eq_some hfind), hreg]
    rfl

end Nvnmchain.NameIndex
