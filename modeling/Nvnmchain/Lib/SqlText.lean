import Mathlib

/-!
# Patterns and phrases of SQL text

Two small languages a query hands to a database inside a string: the patterns of
`LIKE ... ESCAPE`, and the query strings of full-text search. Both have characters that are operators
and a way to write such a character as itself, and the laws here are those of the two ways.

- In a pattern `%` stands for any sequence of characters, `_` for any one, and the character after the
  escape character for itself. A pattern that ends in the escape character matches nothing. Escaped text
  stands for itself, so with a `%` after it, it matches exactly the texts it starts (`like_escaped`).
- A full-text query is a sequence of strings, barewords and symbols. A string stands in double quotes,
  with a quote of its own written twice. Quoted text is one string, the text (`lex_quoted`).

A text is a sequence of characters here, all of them alike; a database that ends its text at U+0000 is
not described.
-/

set_option autoImplicit false

namespace Sql

/-! ## Patterns -/

/-- What one place of a pattern stands for. -/
inductive Place where
  | any
  | one
  | char (c : Char)
deriving DecidableEq

/-- The places of a pattern, read with an escape character. -/
def places (esc : Char) : List Char → Option (List Place)
  | [] => some []
  | [c] => if c = esc then none else some [place c]
  | c :: d :: rest =>
    if c = esc then (places esc rest).map (.char d :: ·)
    else (places esc (d :: rest)).map (place c :: ·)
where
  /-- A character that is not escaped. -/
  place (c : Char) : Place := if c = '%' then .any else if c = '_' then .one else .char c

/-- Whether a text fits the places, from its start to its end. -/
def fits : List Place → List Char → Bool
  | [], text => text.isEmpty
  | .any :: ps, text => text.tails.any (fits ps)
  | .one :: _, [] => false
  | .one :: ps, _ :: rest => fits ps rest
  | .char _ :: _, [] => false
  | .char c :: ps, d :: rest => c = d && fits ps rest

/-- `text LIKE pattern ESCAPE esc`. -/
def like (esc : Char) (pattern text : List Char) : Bool :=
  (places esc pattern).any (fits · text)

/-- Text with every character that is not itself in a pattern escaped. -/
def escaped (esc : Char) (text : List Char) : List Char :=
  text.flatMap fun c => if c = esc ∨ c = '%' ∨ c = '_' then [esc, c] else [c]

/-- A character that is no escape is a place of its own. -/
theorem places_cons_of_ne {esc c : Char} (h : c ≠ esc) (rest : List Char) :
    places esc (c :: rest) = (places esc rest).map (places.place c :: ·) := by
  cases rest with
  | nil =>
    simp only [places, if_neg h]
    rfl
  | cons d rest => rw [places, if_neg h]

/-- Escaped text stands for itself. -/
theorem places_escaped_append (esc : Char) (text rest : List Char) :
    places esc (escaped esc text ++ rest) = (places esc rest).map (text.map .char ++ ·) := by
  induction text with
  | nil => exact Option.map_id'.symm
  | cons c text ih =>
    have hstep : places esc (escaped esc (c :: text) ++ rest) =
        (places esc (escaped esc text ++ rest)).map (.char c :: ·) := by
      rw [escaped, List.flatMap_cons, List.append_assoc]
      split
      · rw [List.cons_append, List.singleton_append, places, if_pos rfl]
        rfl
      · rename_i h
        obtain ⟨hesc, hany, hone⟩ := not_or.mp h |>.imp_right not_or.mp
        rw [List.singleton_append, places_cons_of_ne hesc, places.place, if_neg hany, if_neg hone]
        rfl
    rw [hstep, ih, Option.map_map]
    rfl

/-- Characters fit themselves, and the rest fits what follows. -/
theorem fits_chars_append {text rest : List Char} {ps : List Place} :
    fits (text.map .char ++ ps) rest = true ↔ ∃ tail, rest = text ++ tail ∧ fits ps tail = true := by
  induction text generalizing rest with
  | nil => exact ⟨fun h => ⟨rest, rfl, h⟩, fun ⟨_, e, h⟩ => e ▸ h⟩
  | cons c text ih =>
    cases rest with
    | nil => exact ⟨nofun, nofun⟩
    | cons d rest =>
      rw [List.map_cons, List.cons_append, fits, Bool.and_eq_true, decide_eq_true_eq, ih]
      constructor
      · rintro ⟨rfl, tail, rfl, h⟩
        exact ⟨tail, rfl, h⟩
      · rintro ⟨tail, e, h⟩
        obtain ⟨rfl, rfl⟩ := List.cons.inj e
        exact ⟨rfl, tail, rfl, h⟩

theorem fits_any (text : List Char) : fits [.any] text = true :=
  List.any_eq_true.mpr ⟨[], (List.mem_tails _ _).mpr (List.nil_suffix), rfl⟩

/-- **Escaped text before a `%` matches what the text starts.** -/
theorem like_escaped {esc : Char} (h : esc ≠ '%') (text value : List Char) :
    like esc (escaped esc text ++ ['%']) value = true ↔ text <+: value := by
  have hplaces : places esc (escaped esc text ++ ['%']) = some (text.map .char ++ [.any]) := by
    rw [places_escaped_append, places, if_neg (Ne.symm h)]
    rfl
  rw [like, hplaces, Option.any_some, fits_chars_append]
  constructor
  · rintro ⟨tail, e, _⟩
    exact ⟨tail, e.symm⟩
  · rintro ⟨tail, e⟩
    exact ⟨tail, e.symm, fits_any tail⟩

/-! ## Full-text queries -/

/-- A token of a full-text query. -/
inductive Token where
  | string (content : List Char)
  | bareword (content : List Char)
  | symbol (c : Char)
deriving DecidableEq

/-- Where the lexer stands: between tokens, in a string, after a quote in a string, in a bareword. -/
inductive LexState where
  | between
  | string (content : List Char)
  | quoted (content : List Char)
  | bareword (content : List Char)

/-- The characters that are tokens by themselves. -/
def symbols : List Char := ['(', ')', '\x7b', '\x7d', ':', ',', '+', '*', '-', '^']

/-- A character of a bareword: a letter or digit of ASCII, an underscore, U+001A, or past ASCII. -/
def isBareword (c : Char) : Bool := c.isAlphanum || c = '_' || c.toNat = 26 || c.toNat > 127

/-- The token a character ends or is, and where the lexer stands after it, from between tokens. -/
def start (c : Char) : Option (List Token × LexState) :=
  if c = '"' then some ([], .string [])
  else if c = ' ' ∨ c = '\t' ∨ c = '\n' ∨ c = '\r' then some ([], .between)
  else if c ∈ symbols then some ([.symbol c], .between)
  else if isBareword c then some ([], .bareword [c])
  else none

/-- The tokens from where the lexer stands on. -/
def lexFrom : LexState → List Char → Option (List Token)
  | .between, [] => some []
  | .string _, [] => none
  | .quoted content, [] => some [.string content]
  | .bareword content, [] => some [.bareword content]
  | .between, c :: rest => do
    let (tokens, state) ← start c
    let more ← lexFrom state rest
    pure (tokens ++ more)
  | .string content, c :: rest =>
    if c = '"' then lexFrom (.quoted content) rest else lexFrom (.string (content ++ [c])) rest
  | .quoted content, c :: rest =>
    if c = '"' then lexFrom (.string (content ++ ['"'])) rest
    else do
      let (tokens, state) ← start c
      let more ← lexFrom state rest
      pure (.string content :: tokens ++ more)
  | .bareword content, c :: rest =>
    if isBareword c then lexFrom (.bareword (content ++ [c])) rest
    else do
      let (tokens, state) ← start c
      let more ← lexFrom state rest
      pure (.bareword content :: tokens ++ more)

/-- The tokens of a query; none where a string does not end or a character starts no token. -/
def lex (query : List Char) : Option (List Token) := lexFrom .between query

/-- Text as a string of a query. -/
def quoted (text : List Char) : List Char :=
  ['"'] ++ text.flatMap (fun c => if c = '"' then ['"', '"'] else [c]) ++ ['"']

/-- A quote written twice is a quote of the string. -/
theorem lexFrom_string (content text rest : List Char) :
    lexFrom (.string content)
        (text.flatMap (fun c => if c = '"' then ['"', '"'] else [c]) ++ rest) =
      lexFrom (.string (content ++ text)) rest := by
  induction text generalizing content with
  | nil => rw [List.flatMap_nil, List.nil_append, List.append_nil]
  | cons c text ih =>
    rw [List.flatMap_cons, List.append_assoc]
    split
    · rename_i h
      rw [List.cons_append, List.singleton_append, lexFrom, if_pos rfl, lexFrom, if_pos rfl, ih,
        List.append_assoc, h, List.singleton_append]
    · rename_i h
      rw [List.singleton_append, lexFrom, if_neg h, ih, List.append_assoc, List.singleton_append]

/-- **Quoted text is one string, the text.** -/
theorem lex_quoted (text : List Char) : lex (quoted text) = some [.string text] := by
  have hbody := lexFrom_string [] text ['"']
  rw [List.nil_append, lexFrom, if_pos rfl] at hbody
  rw [quoted, List.append_assoc, List.singleton_append, lex, lexFrom, start, if_pos rfl]
  simp only [Option.bind_eq_bind, Option.bind_some]
  rw [hbody]
  rfl

end Sql
