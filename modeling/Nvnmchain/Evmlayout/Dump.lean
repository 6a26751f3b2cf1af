import Nvnmchain.Evmlayout.Migrate

/-!
# The binary dump

`x/anchoring/evmlayout/dump.go`. A `Dump` is a sink that collects the pairs of a block and writes the
block to a writer when it is full; `Close` writes what is left. A block is a 40-byte header (magic,
version, flags, address and pair count) and its pairs.

`readDump` reads the format as the loader does. `dump_round_trip` says that it reads back what was put.
The invariant of the proof (`Holds`) names the writer's bytes and the buffer by what was put so far:
full blocks, and a rest that is no block yet.
-/

set_option autoImplicit false

namespace Nvnmchain.Evmlayout

open Go (Bytes str)
open Eth (Hash Address beBytes beNat bytesToHash putUint64)

/-! ## Writing -/

/-- `dumpMagic`. -/
def dumpMagic : Bytes := str "TEMPOSB" ++ [0]

/-- `dumpVersion`. -/
def dumpVersion : Nat := 1

/-- `dumpHeader`: the size of a block's header. -/
def dumpHeader : Nat := 40

/-- `dumpPair`: the size of a pair. -/
def dumpPair : Nat := 2 * 32

/-- `DumpBlockPairs`. -/
def dumpBlockPairs : Nat := 2 ^ 20

/-- `io.Writer`: it takes some bytes, or fails and is left in some state. -/
abbrev Writer (σ : Type) := σ → Bytes → Outcome σ σ

/-- `Dump`. -/
structure Dump (σ : Type) where
  out : σ
  address : Address
  pending : Bytes

/-- `NewDump`. -/
def newDump {σ : Type} (out : σ) (address : Address) : Dump σ := ⟨out, address, []⟩

/-- A block's header: magic, version, flags (zero), address and pair count. -/
def blockHeader (address : Address) (pairs : UInt64) : Bytes :=
  dumpMagic ++ beBytes 2 dumpVersion ++ [0, 0] ++ address.bytes ++ putUint64 pairs

section Writing

variable {σ : Type} (writer : Writer σ)

/-- One call of the dump's writer. A failed one leaves the buffer as it is. -/
def Dump.writeOut (d : Dump σ) (p : Bytes) : Outcome (Dump σ) (Dump σ) :=
  match writer d.out p with
  | .ok out => .ok { d with out }
  | .error (e, out) => .error (e, { d with out })

/-- `Dump.flush`. -/
def Dump.flush (d : Dump σ) : Outcome (Dump σ) (Dump σ) :=
  if d.pending.length = 0 then .ok d
  else do
    let d ← d.writeOut writer (blockHeader d.address (UInt64.ofNat (d.pending.length / dumpPair)))
    let d ← d.writeOut writer d.pending
    .ok { d with pending := [] }

/-- `Dump.Put`. -/
def Dump.put : Sink (Dump σ) := fun d w =>
  let d := { d with pending := d.pending ++ w.slot.bytes ++ w.value.bytes }
  if d.pending.length = dumpBlockPairs * dumpPair then d.flush writer else .ok d

/-- `Dump.Close`. -/
def Dump.close (d : Dump σ) : Outcome (Dump σ) (Dump σ) := d.flush writer

/-- A dump of some writes: each is put, then the dump is closed. -/
def dumpAll (out : σ) (address : Address) (writes : List Write) : Outcome (Dump σ) (Dump σ) := do
  let d ← emitAll (Dump.put writer) (newDump out address) writes
  d.close writer

end Writing

/-- A writer that never fails, with what was written to it. -/
def NeverFails {σ : Type} (writer : Writer σ) (content : σ → Bytes) : Prop :=
  ∀ out p, ∃ out', writer out p = .ok out' ∧ content out' = content out ++ p

/-- `bytes.Buffer`. -/
def buffer : Writer Bytes := fun out p => .ok (out ++ p)

theorem neverFails_buffer : NeverFails buffer id := fun out p => ⟨out ++ p, rfl, rfl⟩

/-! ## Reading -/

/-- A block of a dump. -/
structure Block where
  address : Address
  pairs : List Write
deriving DecidableEq

/-- Some pairs, one after another. -/
def readPairs : Nat → Bytes → List Write
  | 0, _ => []
  | n + 1, raw =>
    ⟨bytesToHash (raw.take 32), bytesToHash ((raw.drop 32).take 32)⟩ :: readPairs n (raw.drop 64)

/-- The pair count of a header. -/
def headerCount (raw : Bytes) : Nat := beNat ((raw.drop 32).take 8)

/-- The first block of a dump, and the bytes after it. -/
def readBlock (raw : Bytes) : Option (Block × Bytes) :=
  if h : 40 ≤ raw.length then
    if raw.take 8 = dumpMagic ∧ beNat ((raw.drop 8).take 2) = 1 ∧ beNat ((raw.drop 10).take 2) = 0 ∧
        64 * headerCount raw ≤ (raw.drop 40).length then
      some (⟨⟨(raw.drop 12).take 20, by rw [List.length_take, List.length_drop]; omega⟩,
        readPairs (headerCount raw) (raw.drop 40)⟩, (raw.drop 40).drop (64 * headerCount raw))
    else none
  else none

/-- A block has a header, so what follows it is shorter. -/
theorem readBlock_shortens {raw rest : Bytes} {b : Block} (h : readBlock raw = some (b, rest)) :
    rest.length < raw.length := by
  unfold readBlock at h
  split at h
  · split at h
    · obtain ⟨-, rfl⟩ := Prod.mk.inj (Option.some.inj h)
      rw [List.length_drop, List.length_drop]
      omega
    · cases h
  · cases h

/-- All blocks of a dump; nothing where the bytes are not blocks to their end. -/
def readDump (raw : Bytes) : Option (List Block) :=
  if raw = [] then some []
  else
    match h : readBlock raw with
    | none => none
    | some (b, rest) =>
      have := readBlock_shortens h
      (readDump rest).map (b :: ·)
termination_by raw.length

/-! ## What is read back -/

/-- The bytes of a pair. -/
def pairBytes (w : Write) : Bytes := w.slot.bytes ++ w.value.bytes

/-- The bytes of a block. -/
def blockBytes (b : Block) : Bytes :=
  blockHeader b.address (UInt64.ofNat b.pairs.length) ++ b.pairs.flatMap pairBytes

/-- A pair is 64 bytes. -/
theorem length_flatMap_pairBytes (pairs : List Write) :
    (pairs.flatMap pairBytes).length = 64 * pairs.length := by
  induction pairs with
  | nil => rfl
  | cons w pairs ih =>
    rw [List.flatMap_cons, List.length_append, ih, pairBytes, List.length_append,
      w.slot.length_bytes, w.value.length_bytes, List.length_cons]
    omega

/-- A header is 40 bytes. -/
theorem length_blockHeader (address : Address) (pairs : UInt64) :
    (blockHeader address pairs).length = dumpHeader := by
  simp only [blockHeader, List.length_append, address.length_bytes, Eth.length_putUint64,
    Eth.length_beBytes]
  rfl

/-- Pairs read back, whatever follows them. -/
theorem readPairs_flatMap (pairs : List Write) (rest : Bytes) :
    readPairs pairs.length (pairs.flatMap pairBytes ++ rest) = pairs := by
  induction pairs with
  | nil => rfl
  | cons w pairs ih =>
    have hslot := w.slot.length_bytes
    have hvalue := w.value.length_bytes
    have hraw : (w :: pairs).flatMap pairBytes ++ rest =
        w.slot.bytes ++ (w.value.bytes ++ (pairs.flatMap pairBytes ++ rest)) := by
      rw [List.flatMap_cons, pairBytes, List.append_assoc, List.append_assoc]
    rw [hraw, List.length_cons, readPairs, List.take_left' hslot, List.drop_left' hslot,
      List.take_left' hvalue, Eth.bytesToHash_bytes, Eth.bytesToHash_bytes]
    have hdrop : (w.slot.bytes ++ (w.value.bytes ++ (pairs.flatMap pairBytes ++ rest))).drop 64 =
        pairs.flatMap pairBytes ++ rest := by
      rw [← List.append_assoc]
      exact List.drop_left' (by rw [List.length_append, hslot, hvalue])
    rw [hdrop, ih]

/-- A part of some bytes that starts after others. -/
theorem slice_append {a b c : Bytes} {i n : Nat} (ha : a.length = i) (hb : b.length = n) :
    ((a ++ b ++ c).drop i).take n = b := by
  rw [List.append_assoc, List.drop_left' ha, List.take_left' hb]

/-- The fields of a header, where the reader looks for them. -/
theorem fields_blockHeader (address : Address) (pairs : UInt64) (rest : Bytes) :
    (blockHeader address pairs ++ rest).take 8 = dumpMagic ∧
      ((blockHeader address pairs ++ rest).drop 8).take 2 = beBytes 2 dumpVersion ∧
      ((blockHeader address pairs ++ rest).drop 10).take 2 = [0, 0] ∧
      ((blockHeader address pairs ++ rest).drop 12).take 20 = address.bytes ∧
      ((blockHeader address pairs ++ rest).drop 32).take 8 = putUint64 pairs := by
  have hmagic : dumpMagic.length = 8 := rfl
  have hversion : (beBytes 2 dumpVersion).length = 2 := Eth.length_beBytes _ _
  have haddress := address.length_bytes
  have hpairs := Eth.length_putUint64 pairs
  refine ⟨?_, ?_, ?_, ?_, ?_⟩
  · simp only [blockHeader, List.append_assoc]
    exact List.take_left' hmagic
  · rw [blockHeader, List.append_assoc, List.append_assoc, List.append_assoc]
    exact slice_append hmagic hversion
  · rw [blockHeader, List.append_assoc, List.append_assoc]
    exact slice_append (by rw [List.length_append, hmagic, hversion]) rfl
  · rw [blockHeader, List.append_assoc]
    exact slice_append (by simp only [List.length_append, hmagic, hversion]; rfl) haddress
  · exact slice_append (by simp only [List.length_append, hmagic, hversion, haddress]; rfl) hpairs

/-- **A block reads back**, whatever follows it. -/
theorem readBlock_blockBytes {b : Block} (h : b.pairs.length < 2 ^ 64) (rest : Bytes) :
    readBlock (blockBytes b ++ rest) = some (b, rest) := by
  obtain ⟨hmagic, hversion, hflags, haddress, hpairs⟩ := fields_blockHeader b.address
    (UInt64.ofNat b.pairs.length) (b.pairs.flatMap pairBytes ++ rest)
  have hheader := length_blockHeader b.address (UInt64.ofNat b.pairs.length)
  rw [dumpHeader] at hheader
  have hcontent := length_flatMap_pairBytes b.pairs
  rw [blockBytes, List.append_assoc]
  generalize hraw : blockHeader b.address (UInt64.ofNat b.pairs.length) ++
    (b.pairs.flatMap pairBytes ++ rest) = raw at *
  have hafter : raw.drop 40 = b.pairs.flatMap pairBytes ++ rest := by
    rw [← hraw]
    exact List.drop_left' hheader
  have hcount : headerCount raw = b.pairs.length := by
    rw [headerCount, hpairs, putUint64, Eth.beNat_beBytes, UInt64.toNat_ofNat', Nat.mod_eq_of_lt h]
    exact Nat.mod_eq_of_lt h
  have hlength : 40 ≤ raw.length := by
    rw [← hraw, List.length_append, hheader]
    omega
  have hfits : 64 * headerCount raw ≤ (raw.drop 40).length := by
    rw [hcount, hafter, List.length_append, hcontent]
    omega
  have hfields : raw.take 8 = dumpMagic ∧ beNat ((raw.drop 8).take 2) = 1 ∧
      beNat ((raw.drop 10).take 2) = 0 ∧ 64 * headerCount raw ≤ (raw.drop 40).length := by
    rw [hversion, hflags]
    exact ⟨hmagic, rfl, rfl, hfits⟩
  rw [readBlock, dif_pos hlength, if_pos hfields, hcount, hafter, readPairs_flatMap,
    List.drop_left' hcontent]
  have haddr : (⟨(raw.drop 12).take 20, by rw [List.length_take, List.length_drop]; omega⟩ : Address) =
      b.address := Eth.Address.ext_bytes haddress
  rw [haddr]

/-- **Blocks read back to the end.** -/
theorem readDump_blocks {blocks : List Block} (h : ∀ b ∈ blocks, b.pairs.length < 2 ^ 64) :
    readDump (blocks.flatMap blockBytes) = some blocks := by
  induction blocks with
  | nil => rw [List.flatMap_nil, readDump, if_pos rfl]
  | cons b blocks ih =>
    obtain ⟨hb, hblocks⟩ := List.forall_mem_cons.mp h
    have hread := readBlock_blockBytes hb (blocks.flatMap blockBytes)
    have hne : blockBytes b ++ blocks.flatMap blockBytes ≠ [] := fun e => by
      have hlength := congrArg List.length e
      rw [blockBytes, List.length_append, List.length_append, length_blockHeader, dumpHeader,
        List.length_nil] at hlength
      omega
    rw [List.flatMap_cons, readDump, if_neg hne]
    split
    · rename_i hnone
      rw [hread] at hnone
      cases hnone
    · rename_i b' rest hsome
      rw [hread] at hsome
      cases hsome
      rw [ih hblocks, Option.map_some]

/-! ## The buffer -/

section Buffer

variable {σ : Type} {writer : Writer σ} {content : σ → Bytes} {address : Address}

/-- What a dump holds after some writes: the writer has full blocks, and the buffer the rest. -/
structure Holds (content : σ → Bytes) (address : Address) (d : Dump σ) (full : List (List Write))
    (rest : List Write) : Prop where
  addressed : d.address = address
  filled : ∀ pairs ∈ full, pairs.length = dumpBlockPairs
  out : content d.out = (full.map (Block.mk address)).flatMap blockBytes
  pending : d.pending = rest.flatMap pairBytes

/-- **A flush writes the rest as a block**, unless it is empty. -/
theorem flush_holds (hwriter : NeverFails writer content) (d : Dump σ) (full : List (List Write))
    {rest : List Write} (hne : rest ≠ []) (haddress : d.address = address)
    (hout : content d.out = (full.map (Block.mk address)).flatMap blockBytes)
    (hpending : d.pending = rest.flatMap pairBytes) :
    ∃ d', d.flush writer = .ok d' ∧ d'.address = address ∧ d'.pending = [] ∧
      content d'.out = ((full ++ [rest]).map (Block.mk address)).flatMap blockBytes := by
  have hlength : d.pending.length = 64 * rest.length := by rw [hpending, length_flatMap_pairBytes]
  have hpos : 0 < rest.length := List.length_pos_of_ne_nil hne
  have hcount : d.pending.length / dumpPair = rest.length := by
    rw [hlength]
    exact Nat.mul_div_cancel_left _ (by decide)
  obtain ⟨out₁, hheader, hcontent₁⟩ :=
    hwriter d.out (blockHeader address (UInt64.ofNat rest.length))
  obtain ⟨out₂, hpairs, hcontent₂⟩ := hwriter out₁ d.pending
  refine ⟨{ d with out := out₂, pending := [] }, ?_, haddress, rfl, ?_⟩
  · rw [Dump.flush, if_neg (by omega), haddress, hcount]
    simp only [Dump.writeOut, bind, Except.bind, hheader, hpairs, haddress]
  · show content out₂ = _
    rw [hcontent₂, hcontent₁, hout, hpending, List.map_append, List.flatMap_append,
      List.map_singleton, List.flatMap_singleton, List.append_assoc]
    rfl

/-- **One write** goes to the buffer, and a full buffer to the writer. -/
theorem put_holds (hwriter : NeverFails writer content) {d : Dump σ} {full : List (List Write)}
    {rest : List Write} (h : Holds content address d full rest) (hrest : rest.length < dumpBlockPairs)
    (w : Write) :
    ∃ d' full' rest', Dump.put writer d w = .ok d' ∧ Holds content address d' full' rest' ∧
      rest'.length < dumpBlockPairs ∧ full'.flatten ++ rest' = full.flatten ++ rest ++ [w] := by
  have hpending : d.pending ++ w.slot.bytes ++ w.value.bytes = (rest ++ [w]).flatMap pairBytes := by
    rw [h.pending, List.flatMap_append, List.flatMap_singleton, pairBytes, List.append_assoc]
  have hlength : (d.pending ++ w.slot.bytes ++ w.value.bytes).length = 64 * (rest.length + 1) := by
    rw [hpending, length_flatMap_pairBytes, List.length_append, List.length_singleton]
  by_cases hfull : rest.length + 1 = dumpBlockPairs
  · obtain ⟨d', hflush, haddress, hempty, hout⟩ := flush_holds hwriter
      { d with pending := d.pending ++ w.slot.bytes ++ w.value.bytes } full
      (List.append_ne_nil_of_right_ne_nil rest (List.cons_ne_nil w [])) h.addressed h.out hpending
    refine ⟨d', full ++ [rest ++ [w]], [], ?_, ⟨haddress, fun pairs hp => ?_, hout, hempty⟩,
      by decide, by simp⟩
    · rw [Dump.put, if_pos (by rw [hlength, hfull]; exact Nat.mul_comm _ _)]
      exact hflush
    · rcases List.mem_append.mp hp with hold | hnew
      · exact h.filled pairs hold
      · rw [List.mem_singleton.mp hnew, List.length_append, List.length_singleton, hfull]
  · refine ⟨{ d with pending := d.pending ++ w.slot.bytes ++ w.value.bytes }, full, rest ++ [w], ?_,
      ⟨h.addressed, h.filled, h.out, hpending⟩, ?_,
      (List.append_assoc _ _ _).symm⟩
    · have hnot : (d.pending ++ w.slot.bytes ++ w.value.bytes).length ≠ dumpBlockPairs * dumpPair := by
        rw [hlength]
        simp only [dumpPair]
        omega
      rw [Dump.put, if_neg hnot]
    · rw [List.length_append, List.length_singleton]
      omega

/-- **All writes**, by induction on what is still to be put. -/
theorem puts_hold (hwriter : NeverFails writer content) (writes : List Write) {d : Dump σ}
    {full : List (List Write)} {rest : List Write} (h : Holds content address d full rest)
    (hrest : rest.length < dumpBlockPairs) :
    ∃ d' full' rest', emitAll (Dump.put writer) d writes = .ok d' ∧
      Holds content address d' full' rest' ∧ rest'.length < dumpBlockPairs ∧
      full'.flatten ++ rest' = full.flatten ++ rest ++ writes := by
  induction writes generalizing d full rest with
  | nil => exact ⟨d, full, rest, rfl, h, hrest, (List.append_nil _).symm⟩
  | cons w writes ih =>
    obtain ⟨d₁, full₁, rest₁, hput, h₁, hrest₁, hwrites₁⟩ := put_holds hwriter h hrest w
    obtain ⟨d', full', rest', hputs, h', hrest', hwrites'⟩ := ih h₁ hrest₁
    refine ⟨d', full', rest', ?_, h', hrest', ?_⟩
    · rw [emitAll, List.foldlM_cons, hput]
      exact hputs
    · rw [hwrites', hwrites₁, List.append_assoc]
      rfl

/-- The pairs of the block that closing writes, if any. -/
def lastPairs (rest : List Write) : List (List Write) := if rest = [] then [] else [rest]

/-- The rest of a dump goes to one last block. -/
theorem flatten_lastPairs (rest : List Write) : (lastPairs rest).flatten = rest := by
  cases rest with
  | nil => rfl
  | cons w rest => exact List.append_nil _

/-- There is a last block only where something is left. -/
theorem mem_lastPairs {rest pairs : List Write} (h : pairs ∈ lastPairs rest) :
    pairs = rest ∧ rest ≠ [] := by
  unfold lastPairs at h
  split at h
  · cases h
  · exact ⟨List.mem_singleton.mp h, by assumption⟩

/-- Only the last block may not be full. -/
theorem mem_of_mem_dropLast {full : List (List Write)} {rest pairs : List Write}
    (h : pairs ∈ (full ++ lastPairs rest).dropLast) : pairs ∈ full := by
  unfold lastPairs at h
  split at h
  · rw [List.append_nil] at h
    exact List.mem_of_mem_dropLast h
  · rwa [List.dropLast_concat] at h

/-- **Closing** writes the rest as the last block, if there is one. -/
theorem close_holds (hwriter : NeverFails writer content) {d : Dump σ} {full : List (List Write)}
    {rest : List Write} (h : Holds content address d full rest) :
    ∃ d', d.close writer = .ok d' ∧ content d'.out =
      ((full ++ lastPairs rest).map (Block.mk address)).flatMap blockBytes := by
  by_cases hnone : rest = []
  · refine ⟨d, ?_, ?_⟩
    · rw [Dump.close, Dump.flush, if_pos]
      rw [h.pending, hnone]
      rfl
    · rw [lastPairs, if_pos hnone, List.append_nil, h.out]
  · obtain ⟨d', hflush, -, -, hout⟩ := flush_holds hwriter d full hnone h.addressed h.out h.pending
    refine ⟨d', hflush, ?_⟩
    rw [lastPairs, if_neg hnone, hout]

end Buffer

/-- **The blocks of a finished dump** are those of the writes: none is empty, and none but the last has
room. -/
theorem dumpAll_blocks {σ : Type} {writer : Writer σ} {content : σ → Bytes}
    (hwriter : NeverFails writer content) {out : σ} (hempty : content out = []) (address : Address)
    (writes : List Write) :
    ∃ (d : Dump σ) (blocks : List Block), dumpAll writer out address writes = .ok d ∧
      content d.out = blocks.flatMap blockBytes ∧ blocks.flatMap Block.pairs = writes ∧
      (∀ b ∈ blocks, b.address = address ∧ 1 ≤ b.pairs.length ∧ b.pairs.length ≤ dumpBlockPairs) ∧
      ∀ b ∈ blocks.dropLast, b.pairs.length = dumpBlockPairs := by
  have hfresh : Holds content address (newDump out address) [] [] :=
    ⟨rfl, fun _ hp => absurd hp List.not_mem_nil, hempty, rfl⟩
  obtain ⟨d, full, rest, hputs, h, hrest, hwrites⟩ := puts_hold hwriter writes hfresh (by decide)
  obtain ⟨d', hclose, hout⟩ := close_holds hwriter h
  have hflatten : (full ++ lastPairs rest).flatten = writes := by
    rw [List.flatten_append, flatten_lastPairs, hwrites]
    rfl
  refine ⟨d', (full ++ lastPairs rest).map (Block.mk address), ?_, hout, ?_, ?_, ?_⟩
  · rw [dumpAll, hputs]
    exact hclose
  · rw [List.flatMap_map]
    exact List.flatMap_id.trans hflatten
  · intro b hb
    obtain ⟨pairs, hpairs, rfl⟩ := List.mem_map.mp hb
    refine ⟨rfl, ?_⟩
    show 1 ≤ pairs.length ∧ pairs.length ≤ dumpBlockPairs
    rcases List.mem_append.mp hpairs with hf | hl
    · rw [h.filled pairs hf]
      exact ⟨by decide, Nat.le_refl _⟩
    · obtain ⟨rfl, hne⟩ := mem_lastPairs hl
      exact ⟨List.length_pos_of_ne_nil hne, hrest.le⟩
  · intro b hb
    rw [← List.map_dropLast] at hb
    obtain ⟨pairs, hpairs, rfl⟩ := List.mem_map.mp hb
    exact h.filled pairs (mem_of_mem_dropLast hpairs)

/-- The pairs of a block can be counted in its header. -/
theorem lt_of_le_dumpBlockPairs {n : Nat} (h : n ≤ dumpBlockPairs) : n < 2 ^ 64 :=
  h.trans_lt (by decide)

/-- **A dump reads back as what was put.** -/
theorem dump_round_trip {σ : Type} {writer : Writer σ} {content : σ → Bytes}
    (hwriter : NeverFails writer content) {out : σ} (hempty : content out = []) (address : Address)
    (writes : List Write) :
    ∃ (d : Dump σ) (blocks : List Block), dumpAll writer out address writes = .ok d ∧
      readDump (content d.out) = some blocks ∧ blocks.flatMap Block.pairs = writes ∧
      (∀ b ∈ blocks, b.address = address ∧ 1 ≤ b.pairs.length ∧ b.pairs.length ≤ dumpBlockPairs) ∧
      (∀ b ∈ blocks.dropLast, b.pairs.length = dumpBlockPairs) ∧
      (writes = [] → content d.out = []) := by
  obtain ⟨d, blocks, hdump, hout, hpairs, hblocks, hfilled⟩ :=
    dumpAll_blocks hwriter hempty address writes
  refine ⟨d, blocks, hdump, ?_, hpairs, hblocks, hfilled, ?_⟩
  · rw [hout]
    exact readDump_blocks fun b hb => lt_of_le_dumpBlockPairs (hblocks b hb).2.2
  · rintro rfl
    -- a block would have a pair
    have hnone : blocks = [] := List.eq_nil_iff_forall_not_mem.mpr fun b hb => by
      have hpos := (hblocks b hb).2.1
      rw [List.flatMap_eq_nil_iff.mp hpairs b hb] at hpos
      exact absurd hpos (by decide)
    rw [hout, hnone]
    rfl

theorem dump_round_trip_buffer :
    ∃ (d : Dump Bytes) (blocks : List Block),
      dumpAll buffer [] ⟨List.replicate 20 7, rfl⟩ [⟨word 1, word 2⟩, ⟨word 3, word 4⟩] = .ok d ∧
        readDump d.out = some blocks ∧
        blocks.flatMap Block.pairs = [⟨word 1, word 2⟩, ⟨word 3, word 4⟩] := by
  obtain ⟨d, blocks, hdump, hread, hpairs, -⟩ := dump_round_trip neverFails_buffer rfl
    ⟨List.replicate 20 7, rfl⟩ [⟨word 1, word 2⟩, ⟨word 3, word 4⟩]
  exact ⟨d, blocks, hdump, hread, hpairs⟩

end Nvnmchain.Evmlayout
