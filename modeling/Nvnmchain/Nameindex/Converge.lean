import Nvnmchain.Anchoring.Numbering
import Nvnmchain.Nameindex.Store

/-!
# The name index converges to the chain

A run of a node: blocks are committed, and the listener sees their change sets or misses them; the
node is restarted, and the backfill goes through or fails. Whatever was missed, a row of the index is
the row of a registry of the chain (`Synced`), and after a backfill every registry has its row
(`Exact`).

The backfill decides by counting. It may take a table for complete when the table has as many rows as
the counter says, and that is right because of two facts of every run: the rows are rows of
registries, and the registries, whose ids lie between one and the counter, are at most as many as it
says. Where the genesis left gaps in the ids the two numbers never meet, and the backfill writes
everything again.

**What it does not establish.** Nothing is said of a run in which a counter of the chain wraps, nor
that a backfill succeeds: a registry whose id does not fit an SQLite integer makes it fail every time
(`backfill_succeeds` says when it does not).
-/

set_option autoImplicit false

namespace Nvnmchain

open Go (Bytes str)
open Collections

/-! ## The registries of a chain -/

/-- Every registry is stored under its own id, and the ids lie between one and the counter. -/
structure RegistriesCounted (s : Store) : Prop where
  key : ∀ (r : UInt64) (registry : Registry), s.registries[r]? = some registry → registry.id = r
  count : ∃ n, s.registryCount = some n ∧ ∀ r ∈ s.registries, 1 ≤ r ∧ r ≤ n

/-- The registries of one store are registries of the other. -/
def Grows (s s' : Store) : Prop :=
  ∀ (r : UInt64) (registry : Registry), s.registries[r]? = some registry →
    s'.registries[r]? = some registry

namespace RegistriesCounted

/-- An imported store counts its registries. -/
theorem imported {env : Env} {gs : GenesisState} (order : GenesisOrder gs) (hl : gs.Loadable env) :
    RegistriesCounted (gs.imported order) := by
  have hregistries := imported_registries order hl
  obtain ⟨n, hn, hlargest⟩ := (imported_rebuilt order hl).registryCount
  refine ⟨fun r registry h => hl.registryKey r registry (hregistries ▸ h), n, hn, fun r hr => ?_⟩
  obtain ⟨registry, h⟩ := Map.mem_iff.mp hr
  rw [hregistries] at h
  have hid := hl.registryKey r registry h
  refine ⟨?_, hlargest.1 r ⟨registry, h, hid⟩⟩
  obtain ⟨_, hpos, -⟩ := bind_eq_ok.mp (hl.registryValid r registry h)
  have hzero : ¬ r ≤ 0 := by simpa [hid] using refuseIf_eq_ok.mp hpos
  rw [UInt64.le_iff_toNat_le] at hzero ⊢
  rw [UInt64.toNat_zero] at hzero
  exact Nat.lt_of_not_le hzero

/-- The next id is free, as long as the counter does not wrap. -/
theorem next_notMem {s : Store} (h : RegistriesCounted s) {n : UInt64}
    (hn : s.registryCount = some n) (hmax : n ≠ counterMax) : n + 1 ∉ s.registries := by
  obtain ⟨n', hn', hle⟩ := h.count
  cases hn.symm.trans hn'
  exact fun hm => UInt64.not_le.mpr (lt_add_one_of_ne_counterMax hmax) (hle _ hm).2

/-- A message keeps the count, and only adds registries. -/
theorem delivered {env : Env} {ctx : Ctx} {msg : Msg} {s s' : Store} (h : RegistriesCounted s)
    (hmax : s.CountersBelowMax) (hd : Delivered env ctx s msg s') :
    RegistriesCounted s' ∧ Grows s s' := by
  rcases hd.registries_cases with ⟨hregistries, hcount⟩ | ⟨n, new, hn, hid, hregistries, hcount⟩
  · refine ⟨⟨?_, ?_⟩, ?_⟩
    · rw [hregistries]
      exact h.key
    · rw [hregistries, hcount]
      exact h.count
    · intro r registry hr
      rw [hregistries]
      exact hr
  · have hne := hmax.registries n hn
    have hfree := h.next_notMem hn hne
    obtain ⟨n', hn', hle⟩ := h.count
    cases hn.symm.trans hn'
    refine ⟨⟨fun r registry hr => ?_, n + 1, hcount, fun r hr => ?_⟩, fun r registry hr => ?_⟩
    · rw [hregistries, Map.get?_insert] at hr
      split at hr
      · rename_i e
        cases hr
        exact hid.trans e
      · exact h.key r registry hr
    · rw [hregistries] at hr
      have hnext := lt_add_one_of_ne_counterMax hne
      rcases Map.mem_insert.mp hr with rfl | hr
      · exact ⟨by grind, UInt64.le_refl _⟩
      · exact ⟨(hle r hr).1, UInt64.le_of_lt (UInt64.lt_of_le_of_lt (hle r hr).2 hnext)⟩
    · rw [hregistries]
      exact Map.get?_insert_of_notMem hfree hr

/-- The messages of a block. -/
theorem block {env : Env} {s s' : Store} (h : RegistriesCounted s)
    (run : Relation.ReflTransGen (BoundedStep env Set.univ) s s') :
    RegistriesCounted s' ∧ Grows s s' := by
  induction run with
  | refl => exact ⟨h, fun _ _ hr => hr⟩
  | tail run step ih =>
    obtain ⟨hmax, ctx, msg, -, rfl⟩ := step
    obtain ⟨hcounted, hgrows⟩ := ih
    obtain ⟨hcounted', hgrows'⟩ := hcounted.delivered hmax (Nvnmchain.delivered env ctx msg _)
    exact ⟨hcounted', fun r registry hr => hgrows' r registry (hgrows r registry hr)⟩

/-- There are at most as many registries as the counter says. -/
theorem size_le {s : Store} (h : RegistriesCounted s) {n : UInt64} (hn : s.registryCount = some n) :
    s.registries.size ≤ n.toNat := by
  obtain ⟨n', hn', hle⟩ := h.count
  cases hn.symm.trans hn'
  have hnodup : (s.registries.keys.map UInt64.toNat).Nodup :=
    Std.ExtTreeMap.nodup_keys.map fun _ _ => UInt64.toNat_inj.mp
  have hsub : s.registries.keys.map UInt64.toNat ⊆ List.range' 1 n.toNat := by
    intro k hk
    obtain ⟨r, hr, rfl⟩ := List.mem_map.mp hk
    have hr' := hle r (Std.ExtTreeMap.mem_keys.mp hr)
    rw [List.mem_range'_1]
    have h₁ : 1 ≤ r.toNat := UInt64.le_iff_toNat_le.mp hr'.1
    have h₂ : r.toNat ≤ n.toNat := UInt64.le_iff_toNat_le.mp hr'.2
    omega
  have hlen := (List.subperm_of_subset hnodup hsub).length_le
  rwa [List.length_map, Std.ExtTreeMap.length_keys, List.length_range'] at hlen

end RegistriesCounted

namespace NameIndex

/-! ## Change sets -/

/-- A pair of a change set of the committed store: a write of a registry it holds, a write of another
collection of the module, a write of another module, or a deletion. -/
inductive PairOf (lib : Env) (s : Nvnmchain.Store) : StoreKVPair → Prop where
  | registry {r : UInt64} {reg : Registry} {value : Bytes} (held : s.registries[r]? = some reg)
      (encodes : lib.marshal reg = .ok value) : PairOf lib s ⟨storeKey, false, registryKey r, value⟩
  | collection {keyPrefix : Bytes} (other : keyPrefix ∈ otherKeyPrefixes) (key value : Bytes) :
      PairOf lib s ⟨storeKey, false, keyPrefix ++ key, value⟩
  | otherModule {module : Bytes} (other : module ≠ storeKey) (delete : Bool) (key value : Bytes) :
      PairOf lib s ⟨module, delete, key, value⟩
  | deletion (module key value : Bytes) : PairOf lib s ⟨module, true, key, value⟩

/-- The change set of a block: the registries it added are in it, among other writes. -/
structure ChangeSetOf (lib : Env) (s s' : Nvnmchain.Store) (changeSet : List StoreKVPair) :
    Prop where
  pairs : ∀ pair ∈ changeSet, PairOf lib s' pair
  added : ∀ (r : UInt64) (reg : Registry), s'.registries[r]? = some reg → r ∉ s.registries →
    ∃ value, lib.marshal reg = .ok value ∧ ⟨storeKey, false, registryKey r, value⟩ ∈ changeSet

/-! ## Runs -/

/-- A node: the committed state of the chain, and its index. -/
structure Node where
  store : Nvnmchain.Store
  table : Table

/-- A block or a restart. The messages of a block meet no counter at its last value. A writer of the
index that fails, or that is not called, leaves the index as it was. -/
inductive Step (env : Nvnmchain.Env) (lib : Env) (node : Node) : Node → Prop where
  | commit {store : Nvnmchain.Store} {changeSet : List StoreKVPair} {table : Table}
      (block : Relation.ReflTransGen (BoundedStep env Set.univ) node.store store)
      (changes : ChangeSetOf lib node.store store changeSet)
      (listens : table = node.table ∨ listenCommit lib changeSet node.table = .ok table) :
      Step env lib node ⟨store, table⟩
  | restart {table : Table}
      (backfills : table = node.table ∨
        backfillNameIndex lib node.store (some node.table) = .ok (some table)) :
      Step env lib node ⟨node.store, table⟩

/-! ## The invariant -/

/-- Every row is the row of a registry. -/
def Synced (lib : Env) (s : Nvnmchain.Store) (table : Table) : Prop :=
  ∀ (r : UInt64) (row : Row), table[r]? = some row →
    ∃ reg, s.registries[r]? = some reg ∧ rowOf lib reg = .ok row

/-- The rows are those of the registries. -/
structure Exact (lib : Env) (s : Nvnmchain.Store) (table : Table) : Prop where
  sound : Synced lib s table
  complete : ∀ (r : UInt64) (reg : Registry), s.registries[r]? = some reg →
    ∃ row, rowOf lib reg = .ok row ∧ table[r]? = some row

variable {lib : Env} {s s' : Nvnmchain.Store} {table table' : Table}

namespace Synced

/-- An empty table says nothing wrong. -/
theorem empty : Synced lib s ∅ := by
  intro r row h
  rw [Std.ExtTreeMap.getElem?_empty] at h
  exact nomatch h

/-- A synced table lists existing registries only. -/
theorem mem (h : Synced lib s table) {r : UInt64} (hr : r ∈ table) : r ∈ s.registries := by
  obtain ⟨row, hrow⟩ := Map.mem_iff.mp hr
  obtain ⟨reg, hreg, -⟩ := h r row hrow
  exact Map.mem_of_get? hreg

/-- A table stays synced while registries are only added. -/
theorem grows (h : Synced lib s table) (hgrows : Grows s s') : Synced lib s' table := by
  intro r row hrow
  obtain ⟨reg, hreg, hrowOf⟩ := h r row hrow
  exact ⟨reg, hgrows r reg hreg, hrowOf⟩

/-- A table with a row under every id is exact. -/
theorem exact (h : Synced lib s table) (hall : ∀ r ∈ s.registries, r ∈ table) : Exact lib s table := by
  refine ⟨h, fun r reg hreg => ?_⟩
  obtain ⟨row, hrow⟩ := Map.mem_iff.mp (hall r (Map.mem_of_get? hreg))
  obtain ⟨reg', hreg', hrowOf⟩ := h r row hrow
  cases hreg.symm.trans hreg'
  exact ⟨row, hrowOf, hrow⟩

/-- A batch of registries of the chain: the rows stay rows of registries, none is lost, and every
registry of the batch has one. -/
theorem foldlM_upsert (h : Synced lib s table) {regs : List Registry}
    (hregs : ∀ reg ∈ regs, s.registries[reg.id]? = some reg)
    (hok : regs.foldlM (upsert lib) table = .ok table') :
    Synced lib s table' ∧ ∀ r, r ∈ table ∨ (∃ reg ∈ regs, reg.id = r) → r ∈ table' := by
  induction regs generalizing table with
  | nil =>
    cases hok
    refine ⟨h, fun r hr => hr.resolve_right ?_⟩
    rintro ⟨reg, hreg, -⟩
    exact absurd hreg List.not_mem_nil
  | cons reg rest ih =>
    rw [List.foldlM_cons] at hok
    obtain ⟨table₁, hupsert, hrest⟩ := bind_eq_ok.mp hok
    obtain ⟨row, hrow, -, rfl⟩ := upsert_eq_ok.mp hupsert
    have hsynced : Synced lib s (table.insert reg.id row) := by
      intro r row' hrow'
      rw [Map.get?_insert] at hrow'
      split at hrow'
      · rename_i e
        cases hrow'
        exact ⟨reg, e ▸ hregs reg List.mem_cons_self, hrow⟩
      · exact h r row' hrow'
    obtain ⟨hfinal, hmem⟩ := ih hsynced (fun reg' hreg' => hregs reg' (List.mem_cons_of_mem _ hreg'))
      hrest
    refine ⟨hfinal, fun r hr => hmem r ?_⟩
    rcases hr with hr | ⟨reg', hreg', hid⟩
    · exact .inl (Map.mem_insert.mpr (.inr hr))
    · rcases List.mem_cons.mp hreg' with rfl | hreg'
      · exact .inl (Map.mem_insert.mpr (.inl hid))
      · exact .inr ⟨reg', hreg', hid⟩

end Synced

/-! ## The listener -/

/-- Only the writes of registries are decoded, and they are registries of the chain. -/
theorem registryWrites_spec
    (codec : ∀ reg value, lib.marshal reg = .ok value → lib.unmarshal value = .ok reg)
    {changeSet : List StoreKVPair} (hpairs : ∀ pair ∈ changeSet, PairOf lib s pair)
    {regs : List Registry} (hok : registryWrites lib changeSet = .ok regs) :
    ∀ reg ∈ regs, ∃ r : UInt64, s.registries[r]? = some reg := by
  induction changeSet generalizing regs with
  | nil =>
    cases hok
    exact fun reg hreg => absurd hreg List.not_mem_nil
  | cons pair rest ih =>
    obtain ⟨hpair, hrest⟩ := List.forall_mem_cons.mp hpairs
    -- a pair that is skipped leaves the rest
    have skipped : (pair.storeKey ≠ storeKey || pair.delete ||
        !registriesKeyPrefix.isPrefixOf pair.key) = true →
        ∀ reg ∈ regs, ∃ r : UInt64, s.registries[r]? = some reg := by
      intro hskip
      rw [registryWrites, if_pos hskip] at hok
      exact ih hrest hok
    cases hpair with
    | @registry r reg value held encodes =>
      have htaken : registriesKeyPrefix.isPrefixOf (registryKey r) = true :=
        List.isPrefixOf_iff_prefix.mpr (List.prefix_append _ _)
      rw [registryWrites, if_neg (by simp [htaken])] at hok
      obtain ⟨reg', hreg', hok⟩ := bind_eq_ok.mp hok
      obtain ⟨regs', hregs', e⟩ := bind_eq_ok.mp hok
      cases e
      cases (codec reg value encodes).symm.trans (wrapf_eq_ok.mp hreg')
      exact List.forall_mem_cons.mpr ⟨⟨r, held⟩, ih hrest hregs'⟩
    | @collection keyPrefix other key value =>
      -- the prefixes are single bytes, and no other collection has the registries' one
      have hprefixes : ∀ p ∈ otherKeyPrefixes, ∃ b : UInt8, p = [b] ∧ b ≠ 1 := by decide
      obtain ⟨b, rfl, hb⟩ := hprefixes keyPrefix other
      exact skipped (by simp [registriesKeyPrefix, List.isPrefixOf, Ne.symm hb])
    | otherModule other delete key value => exact skipped (by simp [other])
    | deletion module key value => exact skipped (by simp)

/-! ## The backfill -/

/-- **A backfill leaves an exact table.** -/
theorem backfill_exact (hcounted : RegistriesCounted s) (h : Synced lib s table)
    (hok : backfillNameIndex lib s (some table) = .ok (some table')) : Exact lib s table' := by
  obtain ⟨n, hn, -⟩ := hcounted.count
  unfold backfillNameIndex at hok
  rw [hn, Option.getD_some] at hok
  dsimp only at hok
  split at hok
  · -- as many rows as the counter says: no registry is without one
    rename_i hcount
    cases hok
    have hle := Map.size_le fun r => h.mem (r := r)
    have hregs := hcounted.size_le hn
    have hsize : table.size = n.toNat := by
      rw [← hcount, count, UInt64.toNat_ofNat_of_lt' (lt_of_le_of_lt (hle.trans hregs) n.toNat_lt)]
    exact h.exact fun r hr => Map.mem_of_size_le (fun r => h.mem (r := r)) (by omega) hr
  · -- everything is written again
    obtain ⟨batch, hwalk, e⟩ := bind_eq_ok.mp hok
    cases e
    have hregs : ∀ reg ∈ s.registries.toList.map Prod.snd, s.registries[reg.id]? = some reg := by
      intro reg hreg
      obtain ⟨⟨r, reg'⟩, hentry, rfl⟩ := List.mem_map.mp hreg
      have hget := (Iteration.sorted s.registries).mem_entries.mp hentry
      exact (hcounted.key r reg' hget).symm ▸ hget
    obtain ⟨hsynced, hmem⟩ := h.foldlM_upsert hregs ((walk_backfillRegistry _).mp hwalk)
    refine hsynced.exact fun r hr => hmem r (.inr ?_)
    obtain ⟨reg, hreg⟩ := Map.mem_iff.mp hr
    exact ⟨reg, List.mem_map.mpr ⟨(r, reg), (Iteration.sorted s.registries).mem_entries.mpr hreg, rfl⟩,
      hcounted.key r reg hreg⟩

/-- A backfill goes through when the registries can be encoded and their ids fit. -/
theorem backfill_succeeds (hcounted : RegistriesCounted s)
    (hfits : ∀ (r : UInt64) (reg : Registry), s.registries[r]? = some reg →
      r.toNat < 2 ^ 63 ∧ ∃ row, rowOf lib reg = .ok row) (table : Table) :
    ∃ table', backfillNameIndex lib s (some table) = .ok (some table') := by
  -- by induction over the registries still to write
  have hbatch : ∀ (regs : List Registry) (table : Table),
      (∀ reg ∈ regs, reg.id.toNat < 2 ^ 63 ∧ ∃ row, rowOf lib reg = .ok row) →
      ∃ table', regs.foldlM (upsert lib) table = .ok table' := by
    intro regs
    induction regs with
    | nil => exact fun table _ => ⟨table, rfl⟩
    | cons reg rest ih =>
      intro table hregs
      obtain ⟨⟨hid, row, hrow⟩, hrest⟩ := List.forall_mem_cons.mp hregs
      obtain ⟨table', htable'⟩ := ih (table.insert reg.id row) hrest
      refine ⟨table', ?_⟩
      rw [List.foldlM_cons]
      exact bind_eq_ok.mpr ⟨_, upsert_eq_ok.mpr ⟨row, hrow, hid, rfl⟩, htable'⟩
  obtain ⟨table', hok⟩ := hbatch (s.registries.toList.map Prod.snd) table fun reg hreg => by
    obtain ⟨⟨r, reg'⟩, hentry, rfl⟩ := List.mem_map.mp hreg
    have hget := (Iteration.sorted s.registries).mem_entries.mp hentry
    exact hcounted.key r reg' hget ▸ hfits r reg' hget
  unfold backfillNameIndex
  dsimp only
  split
  · exact ⟨table, rfl⟩
  · exact ⟨table', bind_eq_ok.mpr ⟨table', (walk_backfillRegistry _).mpr hok, rfl⟩⟩

/-! ## Every run -/

/-- The registries are counted, and the rows are rows of registries, in every state of a run. -/
theorem run_synced {env : Nvnmchain.Env}
    (codec : ∀ reg value, lib.marshal reg = .ok value → lib.unmarshal value = .ok reg)
    {first last : Node} (hcounted : RegistriesCounted first.store)
    (hsynced : Synced lib first.store first.table)
    (run : Relation.ReflTransGen (Step env lib) first last) :
    RegistriesCounted last.store ∧ Synced lib last.store last.table := by
  induction run with
  | refl => exact ⟨hcounted, hsynced⟩
  | tail run step ih =>
    obtain ⟨hcounted, hsynced⟩ := ih
    cases step with
    | commit block changes listens =>
      obtain ⟨hcounted', hgrows⟩ := hcounted.block block
      have hkept := hsynced.grows hgrows
      rcases listens with rfl | hok
      · exact ⟨hcounted', hkept⟩
      · obtain ⟨regs, hregs, hok⟩ := bind_eq_ok.mp hok
        split at hok
        · cases hok
          exact ⟨hcounted', hkept⟩
        · refine ⟨hcounted', (hkept.foldlM_upsert (fun reg hreg => ?_) hok).1⟩
          obtain ⟨r, hr⟩ := registryWrites_spec codec changes.pairs hregs reg hreg
          exact (hcounted'.key r reg hr).symm ▸ hr
    | restart backfills =>
      rcases backfills with rfl | hok
      · exact ⟨hcounted, hsynced⟩
      · exact ⟨hcounted, (backfill_exact hcounted hsynced hok).sound⟩

/-- **The name index converges to the chain.** From every genesis that loads and an empty index, and
in every run of blocks, seen or missed by the listener, and of restarts: every row is the row of a
registry, and after a backfill the rows are those of the registries. -/
theorem name_index_converges {env : Nvnmchain.Env} {gs : GenesisState} {order : GenesisOrder gs}
    {s₀ : Nvnmchain.Store} (hgenesis : initGenesis env gs order Store.empty = .ok s₀)
    (codec : ∀ reg value, lib.marshal reg = .ok value → lib.unmarshal value = .ok reg)
    {node : Node} (run : Relation.ReflTransGen (Step env lib) ⟨s₀, ∅⟩ node) :
    Synced lib node.store node.table ∧
      ∀ table, backfillNameIndex lib node.store (some node.table) = .ok (some table) →
        Exact lib node.store table := by
  obtain ⟨hl, -, rfl⟩ := initGenesis_eq_ok.mp hgenesis
  obtain ⟨hcounted, hsynced⟩ := run_synced codec (.imported order hl) .empty run
  exact ⟨hsynced, fun table hok => backfill_exact hcounted hsynced hok⟩

/-! ## A chain with gaps -/

/-- The registry that account 2 creates on the gapped chain. -/
def titles : Registry where
  id := 8
  name := str "titles"
  description := []
  creator := str "nvnm1qgcx23ru"
  createdAt := smallCtx.blockTime
  metadata := []

/-- A codec for three registries. -/
def smallCodec : List (Bytes × Registry) :=
  [([1], smallRegistry 1), ([7], smallRegistry 7), ([8], titles)]

def smallLib : Env := listedLib smallCodec

theorem codec_smallLib (reg : Registry) (value : Bytes) (h : smallLib.marshal reg = .ok value) :
    smallLib.unmarshal value = .ok reg :=
  unmarshal_listedLib (by decide +kernel) h

/-- Registries 1 and 7, loaded; the counter stands at 7. -/
def gappedStore : Nvnmchain.Store := gappedGenesis.imported (.sorted _)

/-- The block that adds registry 8. -/
def titledStore : Nvnmchain.Store := deliver smallEnv addTitles.1 addTitles.2 gappedStore

theorem initGenesis_gappedStore :
    initGenesis smallEnv gappedGenesis (.sorted _) Store.empty = .ok gappedStore := by
  have hvalid : gappedGenesis.validate smallEnv (.sorted _) = .ok () := by decide +kernel
  exact (validate_eq_ok.mp hvalid).initGenesis_eq (by decide) (by decide +kernel)

/-- The block is one message. -/
theorem block_titledStore :
    Relation.ReflTransGen (BoundedStep smallEnv Set.univ) gappedStore titledStore :=
  .single ⟨countersBelowMax_iff.mp (by decide +kernel), _, _, fun _ _ => Set.mem_univ _, rfl⟩

/-- What the block writes. -/
def titledChanges : List StoreKVPair := [⟨storeKey, false, registryKey 8, [8]⟩]

/-- The new registry is the one change of the block. -/
theorem changes_titledStore : ChangeSetOf smallLib gappedStore titledStore titledChanges := by
  have htitles : titledStore.registries[(8 : UInt64)]? = some titles := by decide +kernel
  have hmarshal : smallLib.marshal titles = .ok [8] := by decide +kernel
  refine ⟨fun pair hpair => ?_, fun r reg hreg hnew => ?_⟩
  · cases List.mem_singleton.mp hpair
    exact .registry htitles hmarshal
  · rcases (delivered smallEnv addTitles.1 addTitles.2 gappedStore).registries_cases with
      ⟨hsame, -⟩ | ⟨n, registry, hn, -, hregistries, -⟩
    · exact absurd (hsame ▸ Map.mem_of_get? hreg) hnew
    · have hseven : gappedStore.registryCount = some 7 := by decide +kernel
      cases hn.symm.trans hseven
      have hmem : r ∈ gappedStore.registries.insert (7 + 1) registry :=
        hregistries ▸ Map.mem_of_get? hreg
      cases (Map.mem_insert.mp hmem).resolve_right hnew
      cases htitles.symm.trans hreg
      exact ⟨[8], hmarshal, List.mem_singleton.mpr rfl⟩

/-- The listener misses the block of registry 8, and the next start of the node finds no rows: the
backfill writes all three, although the counter stands at 8. -/
theorem name_index_converges_gapped :
    ∃ table, backfillNameIndex smallLib titledStore (some ∅) = .ok (some table) ∧
      table.size = 3 ∧ Exact smallLib titledStore table := by
  have hrun : Relation.ReflTransGen (Step smallEnv smallLib) ⟨gappedStore, ∅⟩ ⟨titledStore, ∅⟩ :=
    .single (.commit block_titledStore changes_titledStore (.inl rfl))
  have hsize : (backfillNameIndex smallLib titledStore (some ∅)).toOption.join.map (·.size) = some 3 := by
    decide +kernel
  obtain ⟨table, hok, hthree⟩ := Option.map_eq_some_iff.mp hsize
  have hfill : backfillNameIndex smallLib titledStore (some ∅) = .ok (some table) := by
    cases hres : backfillNameIndex smallLib titledStore (some ∅) with
    | error e => rw [hres] at hok; exact nomatch hok
    | ok o => rw [hres] at hok; exact congrArg Except.ok hok
  exact ⟨table, hfill, hthree, (name_index_converges initGenesis_gappedStore codec_smallLib hrun).2 table hfill⟩

end NameIndex

end Nvnmchain
