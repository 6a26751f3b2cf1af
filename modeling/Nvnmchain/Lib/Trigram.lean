import Mathlib

/-!
# Trigram indexes

A full-text index over texts that are kept elsewhere. It holds postings: a token, the row whose text
the token stands in, and its position there. The tokens of a text are its trigrams, every three
characters in a row, so a text of fewer than three has none.

A query is a phrase. Its own trigrams are looked up, and a row answers when they stand in it at
positions in a row. For a phrase of three characters or more that is the same as being a part of the
text (`Indexes.occurs_iff`): each character of the phrase is in one of its trigrams, and the positions
of the trigrams put the characters where they belong.

An index whose texts are kept elsewhere trusts its user. Entering a row is defined where the index has
no postings of it, and deleting one where the text that is given is the one that was entered. An `Engine`
is anything that does the right thing in these cases; in others it may do what it likes, and a user
has to show that they never come up (`Indexes.insert`, `Indexes.replace`).
-/

set_option autoImplicit false

namespace Trigram

variable {κ α : Type}

/-! ## Trigrams -/

/-- Every three characters in a row. -/
def trigrams (text : List α) : List (α × α × α) := text.zip ((text.drop 1).zip (text.drop 2))

/-- A trigram at a position is three characters from there on. -/
theorem getElem?_trigrams {text : List α} {i : Nat} {a b c : α} :
    (trigrams text)[i]? = some (a, b, c) ↔
      text[i]? = some a ∧ text[i + 1]? = some b ∧ text[i + 2]? = some c := by
  unfold trigrams
  rw [List.getElem?_zip_eq_some, List.getElem?_zip_eq_some, List.getElem?_drop, List.getElem?_drop,
    Nat.add_comm 1 i, Nat.add_comm 2 i]

/-- There is a trigram wherever three characters are left. -/
theorem exists_trigram {text : List α} {i : Nat} (h : i + 3 ≤ text.length) :
    ∃ a b c, (trigrams text)[i]? = some (a, b, c) :=
  ⟨_, _, _, getElem?_trigrams.mpr ⟨List.getElem?_eq_getElem (by omega),
    List.getElem?_eq_getElem (by omega), List.getElem?_eq_getElem (by omega)⟩⟩

/-- A text has trigrams if it has three characters. -/
theorem trigrams_ne_nil {text : List α} : trigrams text ≠ [] ↔ 3 ≤ text.length := by
  constructor
  · intro h
    obtain ⟨⟨a, b, c⟩, rest, hrest⟩ := List.exists_cons_of_ne_nil h
    have hfirst : (trigrams text)[0]? = some (a, b, c) := by rw [hrest, List.getElem?_cons_zero]
    exact (List.getElem?_eq_some_iff.mp (getElem?_trigrams.mp hfirst).2.2).1
  · intro h e
    obtain ⟨a, b, c, hfirst⟩ := exists_trigram (show 0 + 3 ≤ text.length by omega)
    rw [e] at hfirst
    cases hfirst

/-- **A phrase is put together from its trigrams.** A text has the phrase at a place when it has the
trigrams of the phrase from there on. -/
theorem prefix_drop_iff {phrase text : List α} (hlen : 3 ≤ phrase.length) (start : Nat) :
    phrase <+: text.drop start ↔
      ∀ i t, (trigrams phrase)[i]? = some t → (trigrams text)[start + i]? = some t := by
  constructor
  · rintro ⟨rest, hrest⟩ i ⟨a, b, c⟩ ht
    -- what stands in the phrase stands in the text, as many places further on
    have hat : ∀ (j : Nat) (x : α), phrase[j]? = some x → text[start + j]? = some x := by
      intro j x hx
      have hj := (List.getElem?_eq_some_iff.mp hx).1
      rw [← List.getElem?_drop, ← hrest, List.getElem?_append_left hj]
      exact hx
    obtain ⟨ha, hb, hc⟩ := getElem?_trigrams.mp ht
    exact getElem?_trigrams.mpr ⟨hat i a ha, hat (i + 1) b hb, hat (i + 2) c hc⟩
  · intro h
    have hat : ∀ j < phrase.length, text[start + j]? = phrase[j]? := by
      intro j hj
      -- the trigram that starts at the character, or the last one
      obtain ⟨i, k, hi, hk, rfl⟩ : ∃ i k, i + 3 ≤ phrase.length ∧ k ≤ 2 ∧ j = i + k :=
        ⟨min j (phrase.length - 3), j - min j (phrase.length - 3), by omega, by omega, by omega⟩
      obtain ⟨a, b, c, ht⟩ := exists_trigram hi
      obtain ⟨ha, hb, hc⟩ := getElem?_trigrams.mp ht
      obtain ⟨ha', hb', hc'⟩ := getElem?_trigrams.mp (h i _ ht)
      interval_cases k
      · exact ha'.trans ha.symm
      · exact hb'.trans hb.symm
      · exact hc'.trans hc.symm
    rw [List.prefix_iff_getElem?]
    intro j hj
    rw [List.getElem?_drop, hat j hj, List.getElem?_eq_getElem hj]

/-- A phrase is found where the text goes on with it. -/
theorem infix_iff_drop {phrase text : List α} :
    phrase <:+: text ↔ ∃ start, phrase <+: text.drop start := by
  rw [List.infix_iff_prefix_suffix]
  constructor
  · rintro ⟨rest, hprefix, hsuffix⟩
    exact ⟨_, List.suffix_iff_eq_drop.mp hsuffix ▸ hprefix⟩
  · rintro ⟨start, hprefix⟩
    exact ⟨_, hprefix, List.drop_suffix start text⟩

/-! ## The index -/

/-- A token in the text of a row, at a position. -/
structure Posting (κ α : Type) where
  row : κ
  token : α × α × α
  position : Nat
deriving DecidableEq

/-- An index is its postings. -/
abbrev Index (κ α : Type) := Finset (Posting κ α)

/-- The trigrams of a phrase stand in a row at positions in a row. A phrase without trigrams stands
nowhere. -/
def Occurs (ix : Index κ α) (row : κ) (phrase : List α) : Prop :=
  trigrams phrase ≠ [] ∧ ∃ p ∈ ix, p.row = row ∧
    ∀ e ∈ (trigrams phrase).zipIdx, ⟨row, e.1, p.position + e.2⟩ ∈ ix

/-- The index of a table of texts: its postings are those of the texts, each under its row. -/
def Indexes (ix : Index κ α) (texts : κ → Option (List α)) : Prop :=
  ∀ p : Posting κ α, p ∈ ix ↔ ∃ text ∈ texts p.row, (trigrams text)[p.position]? = some p.token

namespace Indexes

variable {ix : Index κ α} {texts : κ → Option (List α)} {row : κ}

theorem empty : Indexes (∅ : Index κ α) fun _ => none := by
  intro p
  simp

/-- A row without a text has no postings. -/
theorem row_ne (h : Indexes ix texts) (hnone : texts row = none) : ∀ p ∈ ix, p.row ≠ row := by
  rintro p hp rfl
  obtain ⟨text, htext, -⟩ := (h p).mp hp
  rw [hnone] at htext
  exact absurd htext (Option.not_mem_none text)

/-- **A row answers the phrases that are a part of its text**, of three characters or more. -/
theorem occurs_iff (h : Indexes ix texts) {text phrase : List α} (htext : texts row = some text) :
    Occurs ix row phrase ↔ 3 ≤ phrase.length ∧ phrase <:+: text := by
  have hmem : ∀ (t : α × α × α) (i : Nat), ⟨row, t, i⟩ ∈ ix ↔ (trigrams text)[i]? = some t := by
    intro t i
    rw [h]
    constructor
    · rintro ⟨text', htext', hat⟩
      cases htext.symm.trans htext'
      exact hat
    · exact fun hat => ⟨text, htext, hat⟩
  rw [Occurs, trigrams_ne_nil, infix_iff_drop]
  refine and_congr_right fun hlen => ?_
  constructor
  · rintro ⟨p, -, -, hall⟩
    refine ⟨p.position, (prefix_drop_iff hlen _).mpr fun i t ht => ?_⟩
    exact (hmem t _).mp (hall (t, i) (List.mk_mem_zipIdx_iff_getElem?.mpr ht))
  · rintro ⟨start, hprefix⟩
    have hall := (prefix_drop_iff hlen start).mp hprefix
    obtain ⟨a, b, c, hfirst⟩ := exists_trigram (show 0 + 3 ≤ phrase.length by omega)
    refine ⟨⟨row, (a, b, c), start⟩, (hmem _ _).mpr (hall 0 _ hfirst), rfl, ?_⟩
    rintro ⟨t, i⟩ he
    exact (hmem t _).mpr (hall i t (List.mk_mem_zipIdx_iff_getElem?.mp he))

end Indexes

/-! ## Changes of an index -/

section Engine

variable [DecidableEq κ] {ix : Index κ α} {texts : κ → Option (List α)} {row : κ}

/-- The postings of the other rows are an index without the row. -/
theorem Indexes.filter_ne (h : Indexes ix texts) (row : κ) :
    Indexes (ix.filter (·.row ≠ row)) (Function.update texts row none) := by
  intro p
  rw [Finset.mem_filter, h p]
  by_cases hp : p.row = row
  · rw [hp, Function.update_self]
    simp
  · rw [Function.update_of_ne hp]
    exact and_iff_left hp

variable [DecidableEq α]

instance (ix : Index κ α) (row : κ) (phrase : List α) : Decidable (Occurs ix row phrase) :=
  haveI : Decidable (∃ p ∈ ix, p.row = row ∧
      ∀ e ∈ (trigrams phrase).zipIdx, (⟨row, e.1, p.position + e.2⟩ : Posting κ α) ∈ ix) :=
    Finset.decidableExistsAndFinset
  inferInstanceAs (Decidable (_ ∧ _))

/-- The postings of a text. -/
def postings (row : κ) (text : List α) : Index κ α :=
  ((trigrams text).zipIdx.map fun e => ⟨row, e.1, e.2⟩).toFinset

/-- The postings of a row are the trigrams of its text, with their positions. -/
theorem mem_postings {row : κ} {text : List α} {p : Posting κ α} :
    p ∈ postings row text ↔ p.row = row ∧ (trigrams text)[p.position]? = some p.token := by
  rw [postings, List.mem_toFinset, List.mem_map]
  constructor
  · rintro ⟨⟨t, i⟩, he, rfl⟩
    exact ⟨rfl, List.mk_mem_zipIdx_iff_getElem?.mp he⟩
  · rintro ⟨rfl, ht⟩
    exact ⟨(p.token, p.position), List.mk_mem_zipIdx_iff_getElem?.mpr ht, rfl⟩

/-- What enters rows into an index and deletes them again, where that is defined. -/
structure Engine (κ α : Type) [DecidableEq κ] [DecidableEq α] where
  insert : Index κ α → κ → List α → Index κ α
  delete : Index κ α → κ → List α → Index κ α
  insert_eq : ∀ ix row text, (∀ p ∈ ix, p.row ≠ row) → insert ix row text = ix ∪ postings row text
  delete_eq : ∀ ix row text, ix.filter (·.row = row) = postings row text →
    delete ix row text = ix.filter (·.row ≠ row)

/-- An engine that takes every command at its word. -/
def Engine.plain : Engine κ α where
  insert ix row text := ix ∪ postings row text
  delete ix row _ := ix.filter (·.row ≠ row)
  insert_eq _ _ _ _ := rfl
  delete_eq _ _ _ _ := rfl

/-- The postings of a row are those of its text. -/
theorem Indexes.filter_row (h : Indexes ix texts) {text : List α} (htext : texts row = some text) :
    ix.filter (·.row = row) = postings row text := by
  ext p
  rw [Finset.mem_filter, mem_postings, h p]
  constructor
  · rintro ⟨⟨text', htext', hat⟩, rfl⟩
    cases htext.symm.trans htext'
    exact ⟨rfl, hat⟩
  · rintro ⟨rfl, hat⟩
    exact ⟨⟨text, htext, hat⟩, rfl⟩

/-- **A row is entered** where it had no text. -/
theorem Indexes.insert (h : Indexes ix texts) (engine : Engine κ α) (hnone : texts row = none)
    (text : List α) : Indexes (engine.insert ix row text) (Function.update texts row (some text)) := by
  rw [engine.insert_eq ix row text (h.row_ne hnone)]
  intro p
  rw [Finset.mem_union, mem_postings, h p]
  by_cases hp : p.row = row
  · rw [hp, Function.update_self, hnone]
    simp
  · rw [Function.update_of_ne hp]
    exact or_iff_left fun hrow => hp hrow.1

/-- **A row is replaced**: its text is deleted, and another one entered. -/
theorem Indexes.replace (h : Indexes ix texts) (engine : Engine κ α) {old : List α} (hold : texts row = some old)
    (new : List α) :
    Indexes (engine.insert (engine.delete ix row old) row new)
      (Function.update texts row (some new)) := by
  rw [engine.delete_eq ix row old (h.filter_row hold)]
  have hinsert := (h.filter_ne row).insert engine (Function.update_self row none texts) new
  rwa [Function.update_idem] at hinsert

end Engine

end Trigram
