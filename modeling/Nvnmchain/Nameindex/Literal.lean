import Nvnmchain.Lib.SqlText
import Nvnmchain.Nameindex.Search

/-!
# Names are matched literally

A search hands its query to the database as text: inside a `LIKE` pattern, or as a string of a full-text
query. Here the statement `searchStmt` builds is read back, word by word, and evaluated on the row
`upsert` stores: it selects the row exactly when the name, folded to lower case, is the folded
query, starts with it or ends with it. The laws of patterns and of quoted text are those of
`Sql.like_escaped` and `Sql.lex_quoted`; what is added is that escaping by bytes is escaping by
characters, in UTF-8, and that a suffix of a name is a prefix of its reverse.
-/

set_option autoImplicit false

namespace Nvnmchain.NameIndex

open Go (Bytes str)

/-! ## The texts of a search, as characters -/

/-- The characters of a text, each in lower case. -/
def fold (lib : Env) (s : Bytes) : List Char := (Utf8.decode s).map lib.toLower

/-- Reversing encoded text reverses its characters. -/
theorem reverse_encode (cs : List Char) : reverse (Utf8.encode cs) = Utf8.encode cs.reverse := by
  rw [reverse, Utf8.decode_encode]

/-- Escaping encoded text escapes its characters. -/
theorem escapeLike_encode (cs : List Char) :
    escapeLike (Utf8.encode cs) = Utf8.encode (Sql.escaped '\\' cs) := by
  refine Utf8.flatMap_encode (by decide +kernel) ?_ ?_ cs
  · intro b hb
    have hascii : ∀ b ∈ str "\\%_", b.toNat < 128 := by decide +kernel
    rw [if_neg]
    intro h
    exact absurd hb (Nat.not_le.mpr (hascii b (List.contains_iff_mem.mp h)))
  · intro c hc
    rw [if_neg]
    rintro (rfl | rfl | rfl) <;> exact absurd hc (by decide)

/-- Quoting encoded text quotes its characters. -/
theorem ftsPhrase_encode (cs : List Char) :
    ftsPhrase (Utf8.encode cs) = Utf8.encode (Sql.quoted cs) := by
  have hbody : ((Utf8.encode cs).flatMap fun b =>
      if (str "\"").contains b then str "\"\"" else [b]) =
        Utf8.encode (cs.flatMap fun c => if c = '"' then ['"', '"'] else [c]) := by
    refine Utf8.flatMap_encode (by decide +kernel) ?_ ?_ cs
    · intro b hb
      have hascii : ∀ b ∈ str "\"", b.toNat < 128 := by decide +kernel
      rw [if_neg]
      intro h
      exact absurd hb (Nat.not_le.mpr (hascii b (List.contains_iff_mem.mp h)))
    · intro c hc
      rw [if_neg]
      rintro rfl
      exact absurd hc (by decide)
  rw [ftsPhrase, hbody, Sql.quoted, Utf8.encode_append, Utf8.encode_append]
  rfl

/-! ## The statement, read back -/

/-- The words of a statement between `WHERE` and the bound on the id. -/
def conditionWords (stmt : String) : List (List Char) :=
  (((stmt.toList.splitOn ' ').dropWhile (· ≠ "WHERE".toList)).drop 1).takeWhile (· ≠ "AND".toList)

/-- A condition on a column of text, with a mark for its argument. -/
inductive Condition where
  | equals (column : List Char)
  | like (column : List Char) (esc : Char)
deriving DecidableEq

def Condition.parse : List (List Char) → Option Condition
  | [column, op, mark] =>
    if op = "=".toList ∧ mark = "?".toList then some (.equals column) else none
  | [column, op, mark, keyword, ['\x27', esc, '\x27']] =>
    if op = "LIKE".toList ∧ mark = "?".toList ∧ keyword = "ESCAPE".toList then
      some (.like column esc)
    else none
  | _ => none

/-- A column of text. -/
def Row.text (row : Row) (column : List Char) : Option Bytes :=
  if column = "name_lower".toList then some row.nameLower
  else if column = "name_rev_lower".toList then some row.nameRevLower
  else none

/-- The value of a condition on a row: equality compares bytes, `LIKE` characters. -/
def Condition.eval (arg : Bytes) (row : Row) : Condition → Option Bool
  | .equals column => (row.text column).map fun value => value = arg
  | .like column esc =>
    (row.text column).map fun value => Sql.like esc (Utf8.decode arg) (Utf8.decode value)

/-- Whether a statement over the rows, with the argument of its first mark, selects a row. -/
def selects (stmt : String) (arg : Bytes) (row : Row) : Option Bool :=
  (Condition.parse (conditionWords stmt)).bind (Condition.eval arg row)

/-- A database that reads the statements it is given: the rows a statement selects, from an id on, in the
order of ids, under a limit and an offset. -/
def selectEnv (lib : Env) : SearchEnv where
  toEnv := lib
  query table stmt arg start limit offset :=
    .ok ((((table.toList.filter fun e => selects stmt arg e.2 = some true && start ≤ e.1.toNat).drop
      offset).take limit).map fun e => (e.1, e.2.data))

/-- An exact search selects the rows with that name. -/
theorem selects_equals (arg : Bytes) (row : Row) :
    selects (rowStmt "name_lower = ?") arg row = some (decide (row.nameLower = arg)) := by
  have hparse : Condition.parse (conditionWords (rowStmt "name_lower = ?")) =
      some (.equals "name_lower".toList) := by decide +kernel
  rw [selects, hparse]
  rfl

/-- A pattern of an escaped text and a `%` selects by the start of the column. -/
theorem selects_like (condition : String) {column : List Char} {row : Row} {value : List Char}
    (hparse : Condition.parse (conditionWords (rowStmt condition)) = some (.like column '\\'))
    (hvalue : row.text column = some (Utf8.encode value)) (text : List Char) :
    selects (rowStmt condition) (escapeLike (Utf8.encode text) ++ str "%") row =
      some (decide (text <+: value)) := by
  have harg : escapeLike (Utf8.encode text) ++ str "%" =
      Utf8.encode (Sql.escaped '\\' text ++ ['%']) := by
    rw [escapeLike_encode, Utf8.encode_append]
    rfl
  rw [selects, hparse, harg, Option.bind_some, Condition.eval, hvalue, Option.map_some,
    Utf8.decode_encode, Utf8.decode_encode]
  exact congrArg some (Bool.eq_iff_iff.mpr
    ((Sql.like_escaped (by decide) text value).trans decide_eq_true_iff.symm))

/-! ## Every mode -/

/-- The row a name is stored in. -/
theorem row_of_upsert {lib : Env} {table table' : Table} {reg : Registry}
    (h : upsert lib table reg = .ok table') :
    ∃ row, table'[reg.id]? = some row ∧ row.nameLower = Utf8.encode (fold lib reg.name) ∧
      row.nameRevLower = Utf8.encode (fold lib reg.name).reverse := by
  obtain ⟨row, hrow, _, rfl⟩ := upsert_eq_ok.mp h
  obtain ⟨data, _, hrow⟩ := bind_eq_ok.mp hrow
  cases hrow
  exact ⟨_, Std.ExtTreeMap.getElem?_insert_self, rfl, reverse_encode _⟩

/-- **Names are matched literally in every mode.** On the row `upsert` stores for a registry, the
statement of a search holds by the folded characters of the name and of the query alone, whatever
they are: by equality, and so for the modes that are none; by prefix; by suffix. The full-text query
of the remaining mode is one string, the folded query. -/
theorem name_matched_literally {lib : Env} {table table' : Table} {reg : Registry}
    (h : upsert lib table reg = .ok table') :
    (∀ cs, fold lib (Utf8.encode cs) = cs.map lib.toLower) ∧
    ∃ row, table'[reg.id]? = some row ∧ ∀ query : Bytes,
      (∀ mode, mode ≠ .prefixMode → mode ≠ .suffixMode → mode ≠ .containsMode →
        selects (searchStmt mode (stringsToLower lib query)).1
            (searchStmt mode (stringsToLower lib query)).2 row =
          some (decide (fold lib reg.name = fold lib query))) ∧
      selects (searchStmt .prefixMode (stringsToLower lib query)).1
          (searchStmt .prefixMode (stringsToLower lib query)).2 row =
        some (decide (fold lib query <+: fold lib reg.name)) ∧
      selects (searchStmt .suffixMode (stringsToLower lib query)).1
          (searchStmt .suffixMode (stringsToLower lib query)).2 row =
        some (decide (fold lib query <:+ fold lib reg.name)) ∧
      Sql.lex (Utf8.decode (searchStmt .containsMode (stringsToLower lib query)).2) =
        some [.string (fold lib query)] := by
  refine ⟨fun cs => by rw [fold, Utf8.decode_encode], ?_⟩
  obtain ⟨row, hget, hlower, hrev⟩ := row_of_upsert h
  refine ⟨row, hget, fun query => ⟨fun mode hprefix hsuffix hcontains => ?_, ?_, ?_, ?_⟩⟩
  · have hstmt : searchStmt mode (stringsToLower lib query) =
        (rowStmt "name_lower = ?", Utf8.encode (fold lib query)) := by
      cases mode with
      | prefixMode => exact absurd rfl hprefix
      | suffixMode => exact absurd rfl hsuffix
      | containsMode => exact absurd rfl hcontains
      | _ => rfl
    rw [hstmt, selects_equals, hlower]
    exact congrArg some (decide_eq_decide.mpr Utf8.encode_injective.eq_iff)
  · have hvalue : row.text "name_lower".toList = some (Utf8.encode (fold lib reg.name)) := by
      rw [Row.text, if_pos rfl, hlower]
    exact selects_like _ (by decide +kernel) hvalue (fold lib query)
  · have hvalue : row.text "name_rev_lower".toList =
        some (Utf8.encode (fold lib reg.name).reverse) := by
      rw [Row.text, if_neg (by decide), if_pos rfl, hrev]
    have hreverse := selects_like "name_rev_lower LIKE ? ESCAPE '\\'" (by decide +kernel) hvalue
      (fold lib query).reverse
    rw [← reverse_encode] at hreverse
    exact hreverse.trans (congrArg some (decide_eq_decide.mpr List.reverse_prefix))
  · show Sql.lex (Utf8.decode (ftsPhrase (Utf8.encode (fold lib query)))) = _
    rw [ftsPhrase_encode, Utf8.decode_encode, Sql.lex_quoted]

/-- A registry whose name has both wildcards in it. -/
def saleRegistry : Registry := ⟨1, str "50%_Off", [], [], [], []⟩

/-- A codec that keeps the name, and the lower case of ASCII. -/
def nameLib : Env where
  marshal reg := .ok reg.name
  unmarshal _ := errorf "not a registry"
  toLower := Char.toLower

theorem upsert_saleRegistry : ∃ table, upsert nameLib ∅ saleRegistry = .ok table :=
  ⟨_, upsert_eq_ok.mpr ⟨_, rfl, by decide, rfl⟩⟩

/-- A wildcard in the query is a character of the name. -/
theorem name_matched_literally_saleRegistry :
    ∃ table row, upsert nameLib ∅ saleRegistry = .ok table ∧ table[saleRegistry.id]? = some row ∧
      selects (searchStmt .suffixMode (stringsToLower nameLib (str "%_OFF"))).1
        (searchStmt .suffixMode (stringsToLower nameLib (str "%_OFF"))).2 row = some true ∧
      selects (searchStmt .suffixMode (stringsToLower nameLib (str "__OFF"))).1
        (searchStmt .suffixMode (stringsToLower nameLib (str "__OFF"))).2 row = some false := by
  obtain ⟨table, htable⟩ := upsert_saleRegistry
  obtain ⟨row, hget, hmatched⟩ := (name_matched_literally htable).2
  have hsame : (fold nameLib (str "%_OFF") <:+ fold nameLib saleRegistry.name) := by decide +kernel
  have hother : ¬ (fold nameLib (str "__OFF") <:+ fold nameLib saleRegistry.name) := by decide +kernel
  refine ⟨table, row, htable, hget, ?_, ?_⟩
  · rw [(hmatched _).2.2.1, decide_eq_true hsame]
  · rw [(hmatched _).2.2.1, decide_eq_false hother]

end Nvnmchain.NameIndex
