import Nvnmchain.Lib.SolidityStorage

/-!
# Contents of Solidity storage, row by row

A row is the content of one element of a mapping: an entry for each slot the element takes, with the
word in the slot and the words at the slot's hash. A row never writes a slot twice,
and two rows at different places write different slots (`nodup_rows`), so the content of a contract is
a list of rows at different places.

Storage `Shows` an entry when its slots read as the entry says. Storage that rows were written to shows
each entry of a row that is alone at its place (`Placed.shows_row`), and shows nothing where there is
no row (`Placed.shows_empty`). An entry on its own is shown as soon as the words at its slot's hash
run past the slot (`Entry.Apart.shows`).
-/

set_option autoImplicit false

namespace Solidity

open Go (Bytes)
open Eth (Hash)

/-- What a slot holds: its word, and the words at its hash. -/
structure Entry where
  head : Hash
  words : List Hash

/-- An entry that is one word. -/
def Entry.value (h : Hash) : Entry := ⟨h, []⟩

/-- An entry that was never written. -/
def Entry.empty : Entry := ⟨.zero, []⟩

/-- The words of an entry, each with its place. -/
def Entry.cells (p : Slot) (x : Entry) : List (Slot × Hash) :=
  (p, x.head) :: x.words.zipIdx.map fun e => (.data p e.2, e.1)

/-- The content of one element of a mapping. -/
structure Row where
  parent : Slot
  key : Bytes
  entries : List Entry

/-- Where a row stands. -/
def Row.place (row : Row) : Slot × Bytes := (row.parent, row.key)

/-- The words of a row, each with its place. -/
def Row.cells (row : Row) : List (Slot × Hash) :=
  row.entries.zipIdx.flatMap fun e => e.1.cells (.elem row.parent row.key e.2)

/-- The element a slot belongs to. -/
def Slot.owner : Slot → Option (Slot × Bytes)
  | .elem parent key _ => some (parent, key)
  | .data (.elem parent key _) _ => some (parent, key)
  | _ => none

/-! ## The cells of a row -/

/-- The cells of an entry are its head and its data words. -/
theorem Entry.mem_cells {p : Slot} {x : Entry} {c : Slot × Hash} :
    c ∈ x.cells p ↔ c = (p, x.head) ∨ ∃ (j : Nat) (w : Hash), x.words[j]? = some w ∧ c = (.data p j, w) := by
  rw [Entry.cells, List.mem_cons, List.mem_map]
  refine or_congr_right ⟨?_, ?_⟩
  · rintro ⟨⟨w, j⟩, he, rfl⟩
    exact ⟨j, w, List.mem_zipIdx_iff_getElem?.mp he, rfl⟩
  · rintro ⟨j, w, hw, rfl⟩
    exact ⟨(w, j), List.mem_zipIdx_iff_getElem?.mpr hw, rfl⟩

/-- The cells of a row are those of its entries, one after another. -/
theorem Row.mem_cells {row : Row} {c : Slot × Hash} :
    c ∈ row.cells ↔
      ∃ (f : Nat) (x : Entry), row.entries[f]? = some x ∧ c ∈ x.cells (.elem row.parent row.key f) := by
  rw [Row.cells, List.mem_flatMap]
  constructor
  · rintro ⟨⟨x, f⟩, he, hc⟩
    exact ⟨f, x, List.mem_zipIdx_iff_getElem?.mp he, hc⟩
  · rintro ⟨f, x, hx, hc⟩
    exact ⟨(x, f), List.mem_zipIdx_iff_getElem?.mpr hx, hc⟩

/-- A cell of a row belongs to the row's place. -/
theorem Row.owner_of_mem {row : Row} {c : Slot × Hash} (h : c ∈ row.cells) :
    c.1.owner = some row.place := by
  obtain ⟨f, x, -, hc⟩ := Row.mem_cells.mp h
  rcases Entry.mem_cells.mp hc with rfl | ⟨j, w, -, rfl⟩
  · rfl
  · rfl

/-- An entry fills no slot twice. -/
theorem Entry.nodup_cells (p : Slot) (x : Entry) : ((x.cells p).map Prod.fst).Nodup := by
  have hindex : ((x.words.zipIdx.map Prod.snd).map (Slot.data p)).Nodup := by
    refine List.Nodup.map (fun _ _ e => (Slot.data.inj e).2) ?_
    rw [List.zipIdx_map_snd]
    exact List.nodup_range'
  rw [Entry.cells, List.map_cons, List.map_map, List.nodup_cons]
  refine ⟨fun hmem => ?_, by rwa [List.map_map] at hindex⟩
  obtain ⟨e, -, he⟩ := List.mem_map.mp hmem
  have hsize := congrArg sizeOf (show Slot.data p e.2 = p from he)
  simp only [Slot.data.sizeOf_spec] at hsize
  omega

/-- A row writes each slot once. -/
theorem Row.nodup_cells (row : Row) : (row.cells.map Prod.fst).Nodup := by
  rw [Row.cells, List.map_flatMap, List.nodup_flatMap]
  refine ⟨fun e _ => e.1.nodup_cells _, ?_⟩
  have hindex : (row.entries.zipIdx.map Prod.snd).Nodup := by
    rw [List.zipIdx_map_snd]
    exact List.nodup_range'
  refine (List.pairwise_map.mp hindex).imp fun {e e'} hne => ?_
  intro t ht ht'
  obtain ⟨c, hc, rfl⟩ := List.mem_map.mp ht
  obtain ⟨c', hc', he⟩ := List.mem_map.mp ht'
  refine hne ?_
  rcases Entry.mem_cells.mp hc with rfl | ⟨j, w, -, rfl⟩
  · rcases Entry.mem_cells.mp hc' with rfl | ⟨j', w', -, rfl⟩
    · exact (Slot.elem.inj he).2.2.symm
    · cases he
  · rcases Entry.mem_cells.mp hc' with rfl | ⟨j', w', -, rfl⟩
    · cases he
    · exact (Slot.elem.inj (Slot.data.inj he).1).2.2.symm

/-- A slot of a row holds one word. -/
theorem Row.word_unique {row : Row} {c c' : Slot × Hash} (h : c ∈ row.cells) (h' : c' ∈ row.cells)
    (he : c.1 = c'.1) : c = c' := List.inj_on_of_nodup_map row.nodup_cells h h' he

/-- **Rows at different places write different slots.** -/
theorem nodup_rows {rows : List Row} (h : (rows.map Row.place).Nodup) :
    ((rows.flatMap Row.cells).map Prod.fst).Nodup := by
  rw [List.map_flatMap, List.nodup_flatMap]
  refine ⟨fun row _ => row.nodup_cells, (List.pairwise_map.mp h).imp fun {row row'} hne => ?_⟩
  intro t ht ht'
  obtain ⟨c, hc, rfl⟩ := List.mem_map.mp ht
  obtain ⟨c', hc', he⟩ := List.mem_map.mp ht'
  refine hne (Option.some.inj ?_)
  rw [← Row.owner_of_mem hc, ← Row.owner_of_mem hc', he]

/-- Rows of different state variables are at different places. -/
theorem nodup_places {blocks : List (Nat × List Row)} (hroots : (blocks.map Prod.fst).Nodup)
    (hroot : ∀ b ∈ blocks, ∀ row ∈ b.2, row.parent.root = b.1)
    (hnodup : ∀ b ∈ blocks, (b.2.map Row.place).Nodup) :
    ((blocks.flatMap Prod.snd).map Row.place).Nodup := by
  rw [List.map_flatMap, List.nodup_flatMap]
  refine ⟨hnodup, (List.pairwise_map.mp hroots).imp_of_mem fun {b b'} hb hb' hne => ?_⟩
  intro place hplace hplace'
  obtain ⟨row, hrow, rfl⟩ := List.mem_map.mp hplace
  obtain ⟨row', hrow', he⟩ := List.mem_map.mp hplace'
  refine hne ?_
  rw [← hroot b hb row hrow, ← hroot b' hb' row' hrow', show row'.parent = row.parent from
    congrArg Prod.fst he]

/-! ## Declared rows -/

/-- A row that fits the declared layout: its parent is a mapping with a field for each entry, and only
a dynamic field has words at its hash. -/
def Row.Declared (vars : List Ty) (row : Row) : Prop :=
  ∃ tys, row.parent.ty vars = some (.mapping tys) ∧
    ∀ (f : Nat) (x : Entry), row.entries[f]? = some x →
      ∃ ty, tys[f]? = some ty ∧ (x.words ≠ [] → ty = .dynamic)

/-- A declared row has declared cells. -/
theorem Row.Declared.of_mem {vars : List Ty} {row : Row} (h : row.Declared vars) {c : Slot × Hash}
    (hc : c ∈ row.cells) : c.1.Declared vars := by
  obtain ⟨tys, hparent, hentries⟩ := h
  obtain ⟨f, x, hx, hc⟩ := Row.mem_cells.mp hc
  obtain ⟨ty, hty, hdynamic⟩ := hentries f x hx
  have hhead : (Slot.elem row.parent row.key f).ty vars = some ty := by rw [Slot.ty, hparent, ← hty]
  rcases Entry.mem_cells.mp hc with rfl | ⟨j, w, hw, rfl⟩
  · exact ⟨ty, hhead⟩
  · have hne : x.words ≠ [] := fun e => by simp [e] at hw
    refine ⟨.value, ?_⟩
    rw [Slot.ty, hhead, hdynamic hne]

/-- A row whose entries fit the fields of its mapping one by one. -/
theorem Row.Declared.of_forall₂ {vars : List Ty} {row : Row} {tys : List Ty}
    (hparent : row.parent.ty vars = some (.mapping tys))
    (h : List.Forall₂ (fun (x : Entry) (ty : Ty) => x.words ≠ [] → ty = .dynamic) row.entries tys) :
    row.Declared vars := by
  refine ⟨tys, hparent, fun f x hx => ?_⟩
  obtain ⟨hf, rfl⟩ := List.getElem?_eq_some_iff.mp hx
  have hf' : f < tys.length := h.length_eq ▸ hf
  exact ⟨tys[f], List.getElem?_eq_getElem hf', (List.forall₂_iff_get.mp h).2 f hf hf'⟩

/-! ## Reading rows -/

/-- Storage reads an entry at a place. -/
structure Shows (keccak : Bytes → Hash) (st : Storage) (p : Slot) (x : Entry) : Prop where
  head : st.load (p.address keccak) = x.head
  words : ∀ (j : Nat) (w : Hash), x.words[j]? = some w →
    st.load ((Slot.data p j).address keccak) = w

/-! ### One entry -/

/-- The words at the slot's hash run past the slot. -/
def Entry.Apart (keccak : Bytes → Hash) (p : Slot) (x : Entry) : Prop :=
  ∀ j < x.words.length, (Slot.data p j).address keccak ≠ p.address keccak

section One

variable {keccak : Bytes → Hash} {p : Slot} {x : Entry}

/-- An entry tells its cells apart by their addresses. -/
theorem Entry.Apart.eq_of_address (h : x.Apart keccak p) (hfew : x.words.length ≤ 2 ^ 256)
    {c c' : Slot × Hash} (hc : c ∈ x.cells p) (hc' : c' ∈ x.cells p)
    (he : c.1.address keccak = c'.1.address keccak) : c = c' := by
  have hlt : ∀ {j : Nat} {w : Hash}, x.words[j]? = some w → j < x.words.length :=
    fun hw => (List.getElem?_eq_some_iff.mp hw).1
  rcases Entry.mem_cells.mp hc with rfl | ⟨j, w, hw, rfl⟩
  · rcases Entry.mem_cells.mp hc' with rfl | ⟨j', w', hw', rfl⟩
    · rfl
    · exact absurd he.symm (h j' (hlt hw'))
  · rcases Entry.mem_cells.mp hc' with rfl | ⟨j', w', hw', rfl⟩
    · exact absurd he (h j (hlt hw))
    · have hj := hlt hw
      have hj' := hlt hw'
      obtain rfl : j = j' := Hash.plus_inj (by omega) (by omega) he
      rw [Option.some.inj (hw.symm.trans hw')]

/-- An entry writes each slot once. -/
theorem Entry.Apart.nodup_addresses (h : x.Apart keccak p) (hfew : x.words.length ≤ 2 ^ 256) :
    ((x.cells p).map fun c => c.1.address keccak).Nodup := by
  have hcells : (x.cells p).Nodup := (x.nodup_cells p).of_map
  exact hcells.map_on fun c hc c' hc' he => h.eq_of_address hfew hc hc' he

/-- An entry that is written alone is shown. -/
theorem Entry.Apart.shows (h : x.Apart keccak p) (hfew : x.words.length ≤ 2 ^ 256) :
    Shows keccak (storageOf keccak (x.cells p)) p x := by
  have hload : ∀ c ∈ x.cells p, (storageOf keccak (x.cells p)).load (c.1.address keccak) = c.2 := by
    intro c hc
    have hcell : ∀ c' ∈ x.cells p, c'.1.address keccak = c.1.address keccak → c' = c :=
      fun c' hc' he => h.eq_of_address hfew hc' hc he
    apply load_storageOf
    · intro c' hc' he
      rw [hcell c' hc' he]
    · intro c' hc' he
      rw [hcell c' hc' (by rw [he])]
    · exact .inl hc
  constructor
  · exact hload (p, x.head) (Entry.mem_cells.mpr (.inl rfl))
  · intro j w hw
    exact hload (.data p j, w) (Entry.mem_cells.mpr (.inr ⟨j, w, hw, rfl⟩))

end One

/-! ### Rows -/

/-- Words at declared places whose hashes do not collide. -/
structure Placed (keccak : Bytes → Hash) (vars : List Ty) (cells : List (Slot × Hash))
    (slots : List Slot) : Prop where
  apart : HashesApart keccak vars slots
  few : vars.length ≤ 2 ^ 256
  chains : ∀ c ∈ cells, c.1.chain ⊆ slots
  declared : ∀ c ∈ cells, c.1.Declared vars

section Reading

variable {keccak : Bytes → Hash} {vars : List Ty} {cells : List (Slot × Hash)} {slots : List Slot}

/-- Where cells are placed apart, a slot loads the word of its own cell, or zero. -/
theorem Placed.load (h : Placed keccak vars cells slots) {t : Slot} {v : Hash}
    (hchain : t.chain ⊆ slots) (hdeclared : t.Declared vars) (hword : ∀ c ∈ cells, c.1 = t → c.2 = v)
    (hin : (t, v) ∈ cells ∨ v = .zero) :
    (storageOf keccak cells).load (t.address keccak) = v :=
  load_storageOf (fun c hc he =>
    h.apart.eq_of_address h.few (h.chains c hc) hchain (h.declared c hc) hdeclared he) hword hin

/-- Words at different places are at different addresses. -/
theorem Placed.nodup_addresses (h : Placed keccak vars cells slots)
    (hnodup : (cells.map Prod.fst).Nodup) : (cells.map fun c => c.1.address keccak).Nodup := by
  have hcells : cells.Nodup := hnodup.of_map
  refine hcells.map_on fun c hc c' hc' he => ?_
  refine List.inj_on_of_nodup_map hnodup hc hc' ?_
  exact h.apart.eq_of_address h.few (h.chains c hc) (h.chains c' hc') (h.declared c hc)
    (h.declared c' hc') he

/-- A row that is alone at its place is shown. -/
theorem Placed.shows_row (h : Placed keccak vars cells slots) {row : Row} (hrow : row.cells ⊆ cells)
    (halone : ∀ c ∈ cells, c.1.owner = some row.place → c ∈ row.cells) {f : Nat} {x : Entry}
    (hx : row.entries[f]? = some x) :
    Shows keccak (storageOf keccak cells) (.elem row.parent row.key f) x := by
  have hload : ∀ c ∈ row.cells, (storageOf keccak cells).load (c.1.address keccak) = c.2 := by
    intro c hc
    refine h.load (h.chains c (hrow hc)) (h.declared c (hrow hc)) (fun c' hc' he => ?_)
      (.inl (hrow hc))
    have hown := halone c' hc' (he ▸ Row.owner_of_mem hc)
    rw [Row.word_unique hown hc he]
  constructor
  · exact hload (.elem row.parent row.key f, x.head)
      (Row.mem_cells.mpr ⟨f, x, hx, Entry.mem_cells.mpr (.inl rfl)⟩)
  · intro j w hw
    exact hload (.data _ j, w)
      (Row.mem_cells.mpr ⟨f, x, hx, Entry.mem_cells.mpr (.inr ⟨j, w, hw, rfl⟩)⟩)

/-- Where there is no row, nothing is shown. -/
theorem Placed.shows_empty (h : Placed keccak vars cells slots) {p : Slot} {key : Bytes} {f : Nat}
    (hchain : (Slot.elem p key f).chain ⊆ slots) (hdeclared : (Slot.elem p key f).Declared vars)
    (hnone : ∀ c ∈ cells, c.1.owner ≠ some (p, key)) :
    Shows keccak (storageOf keccak cells) (.elem p key f) .empty := by
  refine ⟨h.load hchain hdeclared (fun c hc he => ?_) (.inr rfl), fun j w hw => ?_⟩
  · exact absurd (he ▸ rfl) (hnone c hc)
  · cases hw

end Reading

end Solidity
