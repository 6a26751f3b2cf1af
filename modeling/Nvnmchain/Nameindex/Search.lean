import Nvnmchain.Nameindex.Store

/-!
# Searching the name index

`Store.Search` of `x/anchoring/nameindex`: the statement a search runs, its arguments, and the page it
makes of the rows. The database is outside; `SearchEnv.query` is its answer to a statement, the rows
of a table in the order of the statement.
-/

set_option autoImplicit false

namespace Nvnmchain.NameIndex

open Go (Bytes str)

/-- The libraries of a search: those of the index, and `db.Query` for a statement and its arguments. -/
structure SearchEnv extends Env where
  query : Table → String → Bytes → Nat → Nat → Nat → Except Err (List (UInt64 × Bytes))

/-- `types.RegistryNameMatchMode`. The wire allows numbers that name no mode. -/
inductive MatchMode where
  | unspecified
  | exactMode
  | prefixMode
  | suffixMode
  | containsMode
  | unknown (n : Int)
deriving DecidableEq

/-- `MinContainsQueryLen`. -/
def minContainsQueryLen : Nat := 3

/-- `ErrContainsTooShort`. -/
def errContainsTooShort : Err := .text (str "contains query needs at least 3 characters")

/-- `escapeLike`. -/
def escapeLike (s : Bytes) : Bytes :=
  s.flatMap fun b => if str "\\%_" |>.contains b then str "\\" ++ [b] else [b]

/-- `ftsPhrase`. -/
def ftsPhrase (s : Bytes) : Bytes :=
  str "\"" ++ (s.flatMap fun b => if str "\"" |>.contains b then str "\"\"" else [b]) ++ str "\""

/-- The statement over the table of rows, for one condition. -/
def rowStmt (condition : String) : String :=
  "SELECT id, data FROM registries WHERE " ++ condition ++
    " AND id >= ? ORDER BY id LIMIT ? OFFSET ?"

/-- `searchStmt`. -/
def searchStmt (mode : MatchMode) (lower : Bytes) : String × Bytes :=
  match mode with
  | .containsMode =>
    ("SELECT r.id, r.data FROM registries_fts f JOIN registries r ON r.id = f.rowid " ++
      "WHERE f.name_lower MATCH ? AND f.rowid >= ? ORDER BY f.rowid LIMIT ? OFFSET ?",
      ftsPhrase lower)
  | .prefixMode => (rowStmt "name_lower LIKE ? ESCAPE '\\'", escapeLike lower ++ str "%")
  | .suffixMode =>
    (rowStmt "name_rev_lower LIKE ? ESCAPE '\\'", escapeLike (reverse lower) ++ str "%")
  -- also an unspecified mode and a number that names none
  | _ => (rowStmt "name_lower = ?", lower)

/-- `math.MaxInt64`. -/
def maxInt64 : Nat := 2 ^ 63 - 1

/-- The loop of `Search` over the rows: a page of at most `limit` registries, and the id of the row
that did not fit. -/
def collectRows (lib : Env) (limit : Nat) : List (UInt64 × Bytes) → List Registry →
    Except Err (List Registry × UInt64)
  | [], results => pure (results, 0)
  | (id, data) :: rest, results =>
    if results.length = limit then pure (results, id)
    else do
      let reg ← wrapf (str "nameindex: decode registry") (lib.unmarshal data)
      collectRows lib limit rest (results ++ [reg])

/-- `Store.Search`. -/
def search (lib : SearchEnv) (table : Table) (mode : MatchMode) (query : Bytes)
    (start limit offset : UInt64) : Except Err (List Registry × UInt64) := do
  require (!(mode = .containsMode && (Utf8.decode query).length < minContainsQueryLen))
    errContainsTooShort
  let (stmt, arg) := searchStmt mode (stringsToLower lib.toEnv query)
  -- the driver takes no number above MaxInt64, and the row past the page is read too
  let start := min start.toNat maxInt64
  let limit := min limit.toNat (maxInt64 - 1)
  let offset := min offset.toNat maxInt64
  let rows ← wrapf (str "nameindex: search") (lib.query table stmt arg start (limit + 1) offset)
  collectRows lib.toEnv limit rows []

end Nvnmchain.NameIndex
