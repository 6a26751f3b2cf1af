import Nvnmchain.Anchoring.StoreInv
import Nvnmchain.Evmlayout.Contents
import Nvnmchain.Evmlayout.Dump
import Nvnmchain.Evmlayout.Faithful

/-!
# From the store to a loaded dump

`evmlayout.Migrate(ctx, k, dump.Put)`, then `dump.Close()`: the migration with a dump for its sink. The
pairs of a finished dump are the writes of the migration, in their order, and a loader that refuses a
slot that comes twice takes the dump just where the migration writes no slot twice. A writer may fail at
any write, after some of its bytes; then the migration stops, and what was written is a first part of the
whole dump (`dump_pipeline`). A reader of such a part refuses it or sees whole leading blocks, so it reads
no pair that the migration did not write.

The migration's own errors are left out by `leftBy`: only what the sink is left with counts.
-/

set_option autoImplicit false

namespace Nvnmchain.Evmlayout

open Go (Bytes str)
open Eth (Hash Address beNat)
open Solidity
open Collections

/-! ## Any sink -/

section Sinks

variable {σ : Type}

/-- An outcome without its error: what the sink is left with. -/
def leftBy {α : Type} (x : Outcome σ α) : Except σ α := x.mapError Prod.snd

/-- Of two steps, the sink is left with what the first one leaves, or the second. -/
theorem leftBy_bind {α β : Type} (x : Outcome σ α) (f : α → Outcome σ β) :
    leftBy (x >>= f) = leftBy x >>= fun a => leftBy (f a) := by
  cases x with
  | ok a => rfl
  | error e => rfl

/-- The name of a step goes into its error only. -/
theorem leftBy_migrating {α : Type} (what : String) (x : Outcome σ α) :
    leftBy (migrating what x) = leftBy x := by
  cases x with
  | ok a => rfl
  | error e => rfl

variable (env : Env) {s : Store} (emit : Sink σ)

/-- The walk over registries whose ids run on hands them over one by one. -/
theorem walk_registries {l : List (UInt64 × Registry)} {w : RegistryWalk σ} {last : UInt64}
    (h : Consecutive w.previous (l.map Prod.fst) last) :
    walk (migrateRegistry env emit) w l =
      emitAll emit w.sink (l.flatMap fun e => registryWrites env (registryBase env e.1) e.2) >>=
        fun sink => .ok ⟨last, idsByName l w.byName, sink⟩ := by
  induction l generalizing w with
  | nil =>
    cases (show w.previous = last from h)
    rfl
  | cons e rest ih =>
    obtain ⟨id, registry⟩ := e
    obtain ⟨hid, hrest⟩ := h
    rw [walk, migrateRegistry, if_neg (not_not.mpr hid), List.flatMap_cons, emitAll_append]
    cases emitAll emit w.sink (registryWrites env (registryBase env id) registry) with
    | ok sink => exact ih hrest
    | error e => rfl

/-- Registries whose ids run on are handed over, then the ids by name. -/
theorem migrateRegistries_of_dense {count : UInt64} (h : DenseRegistries s count) (st : σ) :
    migrateRegistries env s emit st = emitAll emit st
      ((s.registries.toList.flatMap fun e => registryWrites env (registryBase env e.1) e.2) ++
        (idsByName s.registries.toList ∅).toList.flatMap fun e =>
          idsWrites env (word slotRegistriesByName) e.1 e.2) := by
  have hwalk := @walk_registries σ env emit s.registries.toList ⟨0, ∅, st⟩ count
    (consecutive_iff_dense.mpr h.dense)
  rw [migrateRegistries, hwalk, emitAll_append]
  cases emitAll emit st
      (s.registries.toList.flatMap fun e => registryWrites env (registryBase env e.1) e.2) with
  | error e => rfl
  | ok sink =>
    have hcount : leaving sink (getOrNotFound s.registryCount) = .ok count := by
      rw [leaving_eq_ok, getOrNotFound_eq_ok]
      exact h.counted
    simp only [bind, Except.bind, hcount, ne_eq, not_true_eq_false, if_false]
    exact foldlM_emitAll emit sink _ _

/-- The header is handed over as one word. -/
theorem migrateHeader_of_migratable {admin : Bytes} {count : UInt64} (h : Migratable env s admin count)
    (st : σ) :
    migrateHeader env s emit st = emit st ⟨word slotHeader, headerWord admin count⟩ := by
  obtain ⟨params, hparams, hadmin⟩ := h.admin
  have hparams' : leaving st (getOrNotFound s.params) = .ok params := by
    rw [leaving_eq_ok, getOrNotFound_eq_ok]
    exact hparams
  have hadmin' : leaving st (wrapf (str "params admin " ++ env.quote params.admin)
      (env.accAddressFromBech32 params.admin)) = .ok admin := by
    rw [leaving_eq_ok, wrapf_eq_ok]
    exact hadmin
  have hcount : leaving st (getOrNotFound s.registryCount) = .ok count := by
    rw [leaving_eq_ok, getOrNotFound_eq_ok]
    exact h.registries.counted
  simp only [migrateHeader, bind, Except.bind, hparams', hadmin', hcount]

/-- **The migration, to a sink that may fail.** Of a store that can be migrated, it hands over one write
after another until the sink fails. -/
theorem leftBy_migrate {admin : Bytes} {count : UInt64} (h : Migratable env s admin count)
    (sink : Sink σ) (st : σ) :
    leftBy (migrate env s sink st) =
      leftBy (emitAll (skipZero sink) st (storeWrites env s admin count)) := by
  simp only [migrate, steps, List.foldlM_cons, List.foldlM_nil, storeWrites, handedOver, emitAll_append,
    leftBy_bind, leftBy_migrating, migrateRegistries_of_dense env _ h.registries, migrateRecordCounts_eq,
    migrateRecords_eq, migrateLatestIndexes_eq, migrateRecordIDs_eq, migrateHeader_of_migratable env _ h,
    migrateChecksumIndex_eq, migrateRoles_eq, emitAll_singleton, bind_assoc, bind_pure]

/-- Zero words do not reach the sink. -/
theorem emitAll_skipZero (sink : Sink σ) (st : σ) (writes : List Write) :
    emitAll (skipZero sink) st writes = emitAll sink st (kept writes) := by
  induction writes generalizing st with
  | nil => rfl
  | cons w writes ih =>
    rw [emitAll_cons, skipZero]
    by_cases hzero : w.value = .zero
    · rw [if_pos hzero, kept, List.filter_cons_of_neg (by simpa using hzero)]
      exact ih st
    · rw [if_neg hzero, kept, List.filter_cons_of_pos (by simpa using hzero), emitAll_cons]
      exact congrArg (sink st w >>= ·) (funext fun st => ih st)

end Sinks

/-! ## A writer that may fail -/

/-- `io.Writer`: a write appends its bytes, or fails after a first part of them. -/
structure Appends {σ : Type} (writer : Writer σ) (content : σ → Bytes) : Prop where
  ok : ∀ out p out', writer out p = .ok out' → content out' = content out ++ p
  error : ∀ out p e out', writer out p = .error (e, out') → ∃ part, part <+: p ∧
    content out' = content out ++ part

section Writing

variable {σ : Type} {writer : Writer σ} {content : σ → Bytes}

/-- A dump and one to a byte buffer are at the same point. -/
structure Follows (content : σ → Bytes) (d : Dump σ) (b : Dump Bytes) : Prop where
  out : content d.out = b.out
  address : d.address = b.address
  pending : d.pending = b.pending

/-- An outcome follows a dump to a buffer: it is at the same point, or failed on the way there. -/
def Reaches (content : σ → Bytes) (x : Outcome (Dump σ) (Dump σ)) (b : Dump Bytes) : Prop :=
  match leftBy x with
  | .ok d => Follows content d b
  | .error d => content d.out <+: b.out

/-- A step after one that got there goes on; a failure stays where it is. -/
theorem Reaches.bind {x : Outcome (Dump σ) (Dump σ)} {f : Dump σ → Outcome (Dump σ) (Dump σ)}
    {b b' : Dump Bytes} (hx : Reaches content x b) (hgrows : b.out <+: b'.out)
    (hf : ∀ d, Follows content d b → Reaches content (f d) b') : Reaches content (x >>= f) b' := by
  cases x with
  | ok d => exact hf d hx
  | error e =>
    have hpart : content e.2.out <+: b.out := hx
    exact hpart.trans hgrows

/-- A write gets there, or fails after a first part. -/
theorem writeOut_reaches (hwriter : Appends writer content) {d : Dump σ} {b : Dump Bytes}
    (h : Follows content d b) (p : Bytes) :
    Reaches content (d.writeOut writer p) { b with out := b.out ++ p } := by
  unfold Dump.writeOut
  cases hwrite : writer d.out p with
  | ok out =>
    have hcontent := hwriter.ok _ _ _ hwrite
    rw [h.out] at hcontent
    exact ⟨hcontent, h.address, h.pending⟩
  | error failed =>
    obtain ⟨e, out⟩ := failed
    obtain ⟨part, hpart, hcontent⟩ := hwriter.error _ _ _ _ hwrite
    show content out <+: b.out ++ p
    rw [hcontent, h.out]
    exact (List.prefix_append_right_inj _).mpr hpart

/-- A step that a dump to a buffer takes, and that every dump at the same point follows. -/
structure Steps (content : σ → Bytes) (b b' : Dump Bytes) (onBuffer : Outcome (Dump Bytes) (Dump Bytes))
    (step : Dump σ → Outcome (Dump σ) (Dump σ)) : Prop where
  buffer : onBuffer = .ok b'
  grows : b.out <+: b'.out
  follows : ∀ d, Follows content d b → Reaches content (step d) b'

/-- Flushing a dump is a step that every writer follows. -/
theorem flush_steps (hwriter : Appends writer content) (b : Dump Bytes) :
    ∃ b', Steps content b b' (b.flush buffer) (Dump.flush writer) := by
  by_cases hempty : b.pending.length = 0
  · refine ⟨b, if_pos hempty, List.prefix_rfl, fun d hd => ?_⟩
    rw [Dump.flush, if_pos (hd.pending ▸ hempty)]
    exact hd
  · generalize hheader : blockHeader b.address (UInt64.ofNat (b.pending.length / dumpPair)) = header
    refine ⟨⟨b.out ++ header ++ b.pending, b.address, []⟩, ?_, ?_, fun d hd => ?_⟩
    · rw [Dump.flush, if_neg hempty, hheader]
      rfl
    · exact ⟨header ++ b.pending, (List.append_assoc _ _ _).symm⟩
    · rw [Dump.flush, if_neg (hd.pending ▸ hempty), hd.address, hd.pending, hheader]
      refine (writeOut_reaches hwriter hd header).bind ⟨b.pending, rfl⟩ fun d₁ hd₁ => ?_
      rw [hd₁.pending]
      refine (writeOut_reaches hwriter hd₁ b.pending).bind List.prefix_rfl fun d₂ hd₂ => ?_
      exact ⟨hd₂.out, hd₂.address, rfl⟩

/-- Putting a pair is a step that every writer follows. -/
theorem put_steps (hwriter : Appends writer content) (w : Write) (b : Dump Bytes) :
    ∃ b', Steps content b b' (Dump.put buffer b w) fun d => Dump.put writer d w := by
  obtain ⟨b', hflush⟩ := flush_steps hwriter
    { b with pending := b.pending ++ w.slot.bytes ++ w.value.bytes }
  have hnext : ∀ d, Follows content d b →
      Follows content { d with pending := d.pending ++ w.slot.bytes ++ w.value.bytes }
        { b with pending := b.pending ++ w.slot.bytes ++ w.value.bytes } :=
    fun d hd => ⟨hd.out, hd.address, by rw [hd.pending]⟩
  by_cases hfull : (b.pending ++ w.slot.bytes ++ w.value.bytes).length = dumpBlockPairs * dumpPair
  · refine ⟨b', (if_pos hfull).trans hflush.buffer, hflush.grows, fun d hd => ?_⟩
    rw [Dump.put, if_pos (hd.pending ▸ hfull)]
    exact hflush.follows _ (hnext d hd)
  · refine ⟨_, if_neg hfull, List.prefix_rfl, fun d hd => ?_⟩
    rw [Dump.put, if_neg (hd.pending ▸ hfull)]
    exact hnext d hd

/-- Putting pairs one after another, by induction on them. -/
theorem puts_steps (hwriter : Appends writer content) (writes : List Write) (b : Dump Bytes) :
    ∃ b', Steps content b b' (emitAll (Dump.put buffer) b writes)
      fun d => emitAll (Dump.put writer) d writes := by
  induction writes generalizing b with
  | nil => exact ⟨b, rfl, List.prefix_rfl, fun d hd => hd⟩
  | cons w writes ih =>
    obtain ⟨b₁, hput⟩ := put_steps hwriter w b
    obtain ⟨b₂, hputs⟩ := ih b₁
    refine ⟨b₂, ?_, hput.grows.trans hputs.grows, fun d hd => ?_⟩
    · rw [emitAll_cons, hput.buffer]
      exact hputs.buffer
    · rw [emitAll_cons]
      exact (hput.follows d hd).bind hputs.grows hputs.follows

/-- **A dump goes as far as its writer.** -/
theorem dumpAll_reaches (hwriter : Appends writer content) {out : σ} (hempty : content out = [])
    (address : Address) (writes : List Write) :
    ∃ b, dumpAll buffer [] address writes = .ok b ∧
      Reaches content (dumpAll writer out address writes) b := by
  obtain ⟨b₁, hputs⟩ := puts_steps hwriter writes (newDump [] address)
  obtain ⟨b₂, hclose⟩ := flush_steps hwriter b₁
  refine ⟨b₂, ?_, ?_⟩
  · rw [dumpAll, hputs.buffer]
    exact hclose.buffer
  · rw [dumpAll]
    exact (hputs.follows (newDump out address) ⟨hempty, rfl, rfl⟩).bind hclose.grows hclose.follows

end Writing

/-! ## A dump that was cut -/

/-- A dump that starts with a block reads as that block and the rest. -/
theorem readDump_cons {b : Block} (h : b.pairs.length < 2 ^ 64) (rest : Bytes) :
    readDump (blockBytes b ++ rest) = (readDump rest).map (b :: ·) := by
  have hread := readBlock_blockBytes h rest
  have hne : blockBytes b ++ rest ≠ [] := fun e => by
    have hlength := congrArg List.length e
    rw [blockBytes, List.length_append, List.length_append, length_blockHeader, dumpHeader,
      List.length_nil] at hlength
    omega
  rw [readDump, if_neg hne]
  split
  · rename_i hnone
    rw [hread] at hnone
    cases hnone
  · rename_i b' rest' hsome
    rw [hread] at hsome
    cases hsome
    rfl

/-- A block that ends too early is refused: its header counts more pairs than follow. -/
theorem readBlock_cut {b : Block} (h : b.pairs.length < 2 ^ 64) {cut rest : Bytes}
    (hcut : cut <+: blockBytes b ++ rest) (hshort : cut.length < (blockBytes b).length) :
    readBlock cut = none := by
  unfold readBlock
  split
  · rename_i hlong
    have hheader := length_blockHeader b.address (UInt64.ofNat b.pairs.length)
    rw [dumpHeader] at hheader
    have hstart : blockHeader b.address (UInt64.ofNat b.pairs.length) <+: cut := by
      refine List.prefix_of_prefix_length_le ?_ hcut (by omega)
      rw [blockBytes, List.append_assoc]
      exact List.prefix_append _ _
    obtain ⟨more, rfl⟩ := hstart
    obtain ⟨-, -, -, -, hpairs⟩ := fields_blockHeader b.address (UInt64.ofNat b.pairs.length) more
    have hcount : headerCount (blockHeader b.address (UInt64.ofNat b.pairs.length) ++ more) =
        b.pairs.length := by
      rw [headerCount, hpairs, Eth.putUint64, Eth.beNat_beBytes, UInt64.toNat_ofNat', Nat.mod_eq_of_lt h]
      exact Nat.mod_eq_of_lt h
    rw [blockBytes, List.length_append, List.length_append, length_flatMap_pairBytes] at hshort
    rw [if_neg]
    rintro ⟨-, -, -, hfits⟩
    rw [hcount, List.length_drop, List.length_append] at hfits
    omega
  · rfl

/-- **A cut dump reads as leading blocks, or not at all.** The induction is on the blocks of the whole
dump. -/
theorem readDump_cut {blocks read : List Block} (h : ∀ b ∈ blocks, b.pairs.length < 2 ^ 64) {cut : Bytes}
    (hcut : cut <+: blocks.flatMap blockBytes) (hread : readDump cut = some read) : read <+: blocks := by
  induction blocks generalizing cut read with
  | nil =>
    rw [List.flatMap_nil, List.prefix_nil] at hcut
    rw [hcut, readDump, if_pos rfl] at hread
    cases hread
    exact List.prefix_rfl
  | cons b blocks ih =>
    obtain ⟨hb, hblocks⟩ := List.forall_mem_cons.mp h
    rw [List.flatMap_cons] at hcut
    by_cases hshort : cut.length < (blockBytes b).length
    · -- the cut is inside the first block
      have hnone := readBlock_cut hb hcut hshort
      rw [readDump] at hread
      split at hread
      · cases hread
        exact List.nil_prefix
      · split at hread
        · cases hread
        · rename_i b' rest hsome
          rw [hnone] at hsome
          cases hsome
    · obtain ⟨cut', rfl⟩ := List.prefix_of_prefix_length_le (List.prefix_append _ _) hcut
        (Nat.le_of_not_lt hshort)
      rw [readDump_cons hb] at hread
      obtain ⟨read', hread', rfl⟩ := Option.map_eq_some_iff.mp hread
      exact (List.prefix_cons_inj b).mpr
        (ih hblocks ((List.prefix_append_right_inj _).mp hcut) hread')

/-! ## The pipeline -/

/-- `evmlayout.Migrate(ctx, k, dump.Put)`, then `dump.Close()`. -/
def dumpStore {σ : Type} (env : Env) (s : Store) (writer : Writer σ) (out : σ) (address : Address) :
    Outcome (Dump σ) (Dump σ) := do
  let d ← migrate env s (Dump.put writer) (newDump out address)
  d.close writer

/-- `readDump` of `dump_test.go`, which parses as the loader does: every block is for the account, and a
slot that comes twice is refused. -/
def loadDump (address : Address) (raw : Bytes) : Option Storage := do
  let blocks ← readDump raw
  let pairs := blocks.flatMap Block.pairs
  if (∀ b ∈ blocks, b.address = address) ∧ (pairs.map Write.slot).Nodup then some (written pairs)
  else none

/-- Of blocks for one account, the loader asks only whether a slot comes twice. -/
theorem loadDump_of_blocks {address : Address} {raw : Bytes} {blocks : List Block}
    (hread : readDump raw = some blocks) (haddress : ∀ b ∈ blocks, b.address = address) :
    loadDump address raw =
      if ((blocks.flatMap Block.pairs).map Write.slot).Nodup
      then some (written (blocks.flatMap Block.pairs)) else none := by
  rw [loadDump, hread]
  exact if_congr ⟨fun h => h.2, fun h => ⟨haddress, h⟩⟩ rfl rfl

/-- **A dump carries the migration, or a first part of it.** Of a reachable store there is one whole
dump, for its account, whose pairs are the writes of the migration; it is loaded where no slot is written
twice, as the storage the migration writes, and refused where one is. A writer that does not fail gets
it. Whatever the writer does, it gets a first part of it; and where such a part is read at all, it is a
first part of the migration's writes. -/
theorem dump_pipeline {env : Env} {s : Store} (h : Reachable env Set.univ s) {σ : Type}
    {writer : Writer σ} {content : σ → Bytes} (hwriter : Appends writer content) {out : σ}
    (hempty : content out = []) (address : Address) :
    ∃ (writes : List Write) (blocks : List Block) (raw : Bytes),
      migrate env s collect [] = .ok writes ∧ readDump raw = some blocks ∧
      (∀ b ∈ blocks, b.address = address) ∧ blocks.flatMap Block.pairs = writes ∧
      loadDump address raw =
        (if (writes.map Write.slot).Nodup then some (written writes) else none) ∧
      (∀ d, dumpStore env s writer out address = .ok d → content d.out = raw) ∧
      (∀ e d, dumpStore env s writer out address = .error (e, d) → content d.out <+: raw) ∧
      ((∀ out p, ∃ out', writer out p = .ok out') → ∃ d, dumpStore env s writer out address = .ok d) ∧
      ∀ cut read, cut <+: raw → readDump cut = some read → read.flatMap Block.pairs <+: writes := by
  obtain ⟨count, hcount, hdense⟩ := h.storeInv.registries
  obtain ⟨admin, hm⟩ := migratable_of_storedInv h.any.storedInv ⟨hcount, hdense⟩
  have hcollected := migrate_collect hm
  rw [← kept_storeWrites hm] at hcollected
  generalize hwrites : kept (storeWrites env s admin count) = writes at hcollected
  have hleft : leftBy (dumpStore env s writer out address) =
      leftBy (dumpAll writer out address writes) := by
    rw [dumpStore, dumpAll, leftBy_bind, leftBy_bind, leftBy_migrate env hm, emitAll_skipZero, hwrites]
  obtain ⟨b, hbuffer, hreaches⟩ := dumpAll_reaches hwriter hempty address writes
  obtain ⟨d, blocks, hdump, hout, hpairs, hblocks, -⟩ :=
    dumpAll_blocks neverFails_buffer rfl address writes
  cases hdump.symm.trans hbuffer
  have hsizes : ∀ b ∈ blocks, b.pairs.length < 2 ^ 64 := fun b hb =>
    lt_of_le_dumpBlockPairs (hblocks b hb).2.2
  have hread : readDump b.out = some blocks := by
    rw [← readDump_blocks hsizes, ← hout]
    rfl
  rw [Reaches, ← hleft] at hreaches
  have haddress : ∀ b ∈ blocks, b.address = address := fun b hb => (hblocks b hb).1
  refine ⟨writes, blocks, b.out, hcollected, hread, haddress, hpairs, ?_, ?_, ?_, ?_, ?_⟩
  · rw [loadDump_of_blocks hread haddress, hpairs]
  · intro d hd
    rw [hd] at hreaches
    exact hreaches.out
  · intro e d hd
    rw [hd] at hreaches
    exact hreaches
  · intro htotal
    have hnever : NeverFails writer content := by
      intro out p
      obtain ⟨out', hwrite⟩ := htotal out p
      exact ⟨out', hwrite, hwriter.ok _ _ _ hwrite⟩
    obtain ⟨d, _, hwritten, -⟩ := dumpAll_blocks hnever hempty address writes
    rw [hwritten] at hleft
    exact ⟨d, mapError_eq_ok.mp hleft⟩
  · intro cut read hcut hread'
    have hprefix := readDump_cut hsizes (hout ▸ hcut) hread'
    obtain ⟨rest, hrest⟩ := hprefix
    rw [← hpairs, ← hrest, List.flatMap_append]
    exact List.prefix_append _ _

/-- A disk that is full after some bytes. -/
def disk (room : Nat) : Writer Bytes := fun out p =>
  if out.length + p.length ≤ room then .ok (out ++ p)
  else .error (.text (str "no space left on device"), out ++ p.take (room - out.length))

theorem appends_disk (room : Nat) : Appends (disk room) id where
  ok out p out' h := by
    unfold disk at h
    split at h
    · exact (Except.ok.inj h).symm
    · cases h
  error out p e out' h := by
    unfold disk at h
    split at h
    · cases h
    · cases h
      exact ⟨_, List.take_prefix _ _, rfl⟩

/-- The bytes on the disk where the dump failed. -/
def failedBytes (x : Outcome (Dump Bytes) (Dump Bytes)) : Option Bytes :=
  match x with
  | .ok _ => none
  | .error (_, d) => some d.out

/-- The account of the dumps below. -/
def dumpAddress : Address := ⟨List.replicate 20 7, rfl⟩

/-- Of the dump of a registry and a record, which is loaded as the migrated storage, a disk of 1000 bytes
gets the block header, fifteen pairs, and no more. -/
theorem dump_pipeline_deeds :
    ∃ (writes : List Write) (blocks : List Block) (raw : Bytes),
      migrate cubeEnv deedsStore collect [] = .ok writes ∧ writes.length = 25 ∧
      readDump raw = some blocks ∧ blocks.flatMap Block.pairs = writes ∧
      loadDump dumpAddress raw = some (written writes) ∧
      ∃ e d, dumpStore cubeEnv deedsStore (disk 1000) [] dumpAddress = .error (e, d) ∧
        d.out <+: raw ∧ d.out.length = 1000 := by
  obtain ⟨writes, blocks, raw, hmigrate, hread, -, hpairs, hload, -, hpart, -⟩ :=
    @dump_pipeline cubeEnv _ reachable_deedsStore Bytes (disk 1000) id (appends_disk 1000) [] rfl
      dumpAddress
  have hslots : (leftBy (migrate cubeEnv deedsStore collect [])).toOption.map
      (fun writes => (writes.length, decide (writes.map Write.slot).Nodup)) = some (25, true) := by
    decide +kernel
  rw [hmigrate] at hslots
  obtain ⟨hlength, hnodup⟩ := Prod.mk.inj (Option.some.inj hslots)
  rw [if_pos (of_decide_eq_true hnodup)] at hload
  have hfailed : (failedBytes (dumpStore cubeEnv deedsStore (disk 1000) [] dumpAddress)).map
      List.length = some 1000 := by decide +kernel
  refine ⟨writes, blocks, raw, hmigrate, hlength, hread, hpairs, hload, ?_⟩
  cases hdump : dumpStore cubeEnv deedsStore (disk 1000) [] dumpAddress with
  | ok d =>
    rw [hdump] at hfailed
    cases hfailed
  | error failed =>
    rw [hdump] at hfailed
    exact ⟨failed.1, failed.2, rfl, hpart _ _ hdump, Option.some.inj hfailed⟩

end Nvnmchain.Evmlayout
