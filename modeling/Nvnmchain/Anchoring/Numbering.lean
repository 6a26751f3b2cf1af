import Nvnmchain.Anchoring.GenesisRebuilt

/-!
# Numbers that come back

Registry ids, record ids and version indices are 64-bit and are counted on without a check. A genesis
may leave any gaps, and the import sets each counter to the largest number it saw. So a genesis that
names the largest number of all lets the counter come back at once, to numbers that are in use.

`Fresh` is what a message that adds something should satisfy: the numbers it is given were free.
`numbers_fresh_iff` says of every run from a loaded genesis when each of its messages is fresh: while
each counter has room. A counter that hands out as many numbers as lie between the largest number in
use and, past `2^64`, the smallest, gives the next call a number that is in use.
-/

set_option autoImplicit false

namespace Nvnmchain

open Go (Bytes str)
open Collections
open Counter (Issued LargestOrZero room)

/-! ## Fresh numbers -/

/-- The message is given free numbers. A new registry's id names no registry. A new version's key names
no version, and where the message's checksum is new to its registry, the record id it gets has no
version yet. -/
def Fresh (env : Env) (ctx : Ctx) (s : Store) : Msg → Prop
  | .addRegistry req => ∀ (registryId : UInt64) (s' : Store),
    handle env ctx (.addRegistry req) s = .ok (.addRegistry registryId, s') →
      registryId ∉ s.registries
  | .addRecord (some m) => ∀ (record : Record) (k i : UInt64) (s' : Store),
    m.record = some record → handle env ctx (.addRecord (some m)) s = .ok (.addRecord k, s') →
      s'.recordIndices[(record.registryId, k)]? = some i →
      (record.registryId, k, i) ∉ s.records ∧
        ((record.registryId, record.checksum) ∉ s.recordIdByRegistryAndChecksum →
          (record.registryId, k) ∉ s.recordIndices)
  | _ => True

/-- Every message of a run is given free numbers. -/
def FreshRun (env : Env) : List (Ctx × Msg) → Store → Prop
  | [], _ => True
  | (ctx, msg) :: rest, s => Fresh env ctx s msg ∧ FreshRun env rest (deliver env ctx msg s)

/-! ## Counting what a run adds -/

/-- What a run has added: registries, records of each registry, and versions of each record. -/
structure Added where
  registries : Nat
  records : UInt64 → Nat
  versions : UInt64 × UInt64 → Nat

def Added.zero : Added := ⟨0, fun _ => 0, fun _ => 0⟩

/-- One version more of a record, and one record more if its checksum is new to the registry. -/
def Added.withVersion (a : Added) (s : Store) (record : Record) (k : UInt64) : Added :=
  { a with
    records := fun r =>
      if record.registryId = r ∧
        (record.registryId, record.checksum) ∉ s.recordIdByRegistryAndChecksum
      then a.records r + 1 else a.records r
    versions := fun gk =>
      if (record.registryId, k) = gk then a.versions gk + 1 else a.versions gk }

/-- What has been added after a message that meets a store. -/
def Added.after (env : Env) (ctx : Ctx) (s : Store) (a : Added) : Msg → Added
  | .addRegistry req =>
    match handle env ctx (.addRegistry req) s with
    | .ok _ => { a with registries := a.registries + 1 }
    | .error _ => a
  | .addRecord (some m) =>
    match m.record, handle env ctx (.addRecord (some m)) s with
    | some record, .ok (.addRecord k, _) => a.withVersion s record k
    | _, _ => a
  | _ => a

/-- What a run adds. -/
def addedBy (env : Env) : List (Ctx × Msg) → Store → Added → Added
  | [], _, a => a
  | (ctx, msg) :: rest, s, a => addedBy env rest (deliver env ctx msg s) (a.after env ctx s msg)

/-- The registry ids of a genesis. -/
def GenesisState.registryIds (gs : GenesisState) : List UInt64 := gs.registries.keys

/-- The record ids of a registry in a genesis. -/
def GenesisState.recordIds (gs : GenesisState) (r : UInt64) : List UInt64 :=
  (gs.records.filter (·.registryId = r)).map Record.recordId

/-- The indices of a record in a genesis. -/
def GenesisState.indices (gs : GenesisState) (gk : UInt64 × UInt64) : List UInt64 :=
  (groupRecords gs.records gk).map Record.index

/-- No counter has handed out all its free numbers and one more. -/
structure GenesisState.HasRoom (gs : GenesisState) (a : Added) : Prop where
  registries : a.registries < room gs.registryIds
  records : ∀ r, a.records r < room (gs.recordIds r)
  versions : ∀ gk, a.versions gk < room (gs.indices gk)

section Room

variable {gs : GenesisState} {a : Added}

/-- There is room for one more registry. -/
theorem GenesisState.HasRoom.withRegistry_iff (h : gs.HasRoom a) :
    gs.HasRoom { a with registries := a.registries + 1 } ↔
      a.registries + 1 < room gs.registryIds :=
  ⟨fun h' => h'.registries, fun hroom => ⟨hroom, h.records, h.versions⟩⟩

/-- There is room for one more version, and for one more record if the checksum is new. -/
theorem GenesisState.HasRoom.withVersion_iff (h : gs.HasRoom a) {s : Store} {record : Record}
    {k : UInt64} :
    gs.HasRoom (a.withVersion s record k) ↔
      a.versions (record.registryId, k) + 1 < room (gs.indices (record.registryId, k)) ∧
        ((record.registryId, record.checksum) ∉ s.recordIdByRegistryAndChecksum →
          a.records record.registryId + 1 < room (gs.recordIds record.registryId)) := by
  constructor
  · intro h'
    refine ⟨?_, fun hnew => ?_⟩
    · have hversions := h'.versions (record.registryId, k)
      simpa only [Added.withVersion, if_true] using hversions
    · have hrecords := h'.records record.registryId
      simpa only [Added.withVersion, true_and, if_pos hnew] using hrecords
  · rintro ⟨hversions, hrecords⟩
    refine ⟨h.registries, fun r => ?_, fun gk => ?_⟩
    · simp only [Added.withVersion]
      split
      · rename_i hnew
        exact hnew.1 ▸ hrecords hnew.2
      · exact h.records r
    · simp only [Added.withVersion]
      split
      · rename_i hgk
        exact hgk ▸ hversions
      · exact h.versions gk

/-- What was added before a message was added after it. -/
theorem GenesisState.HasRoom.of_after {env : Env} {ctx : Ctx} {s : Store} {msg : Msg}
    (h : gs.HasRoom (a.after env ctx s msg)) : gs.HasRoom a := by
  have hle : a.registries ≤ (a.after env ctx s msg).registries ∧
      (∀ r, a.records r ≤ (a.after env ctx s msg).records r) ∧
      ∀ gk, a.versions gk ≤ (a.after env ctx s msg).versions gk := by
    unfold Added.after
    split
    · split
      · exact ⟨Nat.le_succ _, fun _ => Nat.le_refl _, fun _ => Nat.le_refl _⟩
      · exact ⟨Nat.le_refl _, fun _ => Nat.le_refl _, fun _ => Nat.le_refl _⟩
    · split
      · refine ⟨Nat.le_refl _, fun r => ?_, fun gk => ?_⟩
        · simp only [Added.withVersion]
          split <;> omega
        · simp only [Added.withVersion]
          split <;> omega
      · exact ⟨Nat.le_refl _, fun _ => Nat.le_refl _, fun _ => Nat.le_refl _⟩
    · exact ⟨Nat.le_refl _, fun _ => Nat.le_refl _, fun _ => Nat.le_refl _⟩
  exact ⟨Nat.lt_of_le_of_lt hle.1 h.registries,
    fun r => Nat.lt_of_le_of_lt (hle.2.1 r) (h.records r),
    fun gk => Nat.lt_of_le_of_lt (hle.2.2 gk) (h.versions gk)⟩

/-- Where there is room at the end of a run, there was room at its start. -/
theorem GenesisState.HasRoom.of_addedBy {env : Env} {msgs : List (Ctx × Msg)} {s : Store}
    (h : gs.HasRoom (addedBy env msgs s a)) : gs.HasRoom a := by
  induction msgs generalizing s a with
  | nil => exact h
  | cons m rest ih => exact (ih h).of_after

end Room

/-! ## The counters of a run -/

/-- The counters of a store stand where the genesis and the added numbers put them, and the numbers in
use are the genesis's and the added ones. -/
structure Numbered (gs : GenesisState) (s : Store) (a : Added) : Prop where
  registries : ∃ n, s.registryCount = some n ∧
    Issued gs.registryIds a.registries n (· ∈ s.registries)
  counted : ∀ r, r ∈ s.recordsCountByRegistry → r ∈ s.registries
  records : ∀ r, Issued (gs.recordIds r) (a.records r) (s.recordsCountByRegistry[r]?.getD 0)
    fun k => (r, k) ∈ s.recordIndices
  versions : ∀ r k, Issued (gs.indices (r, k)) (a.versions (r, k))
    (s.recordIndices[(r, k)]?.getD 0) fun i => (r, k, i) ∈ s.records
  found : ∀ (r k : UInt64) (c : Bytes), s.recordIdByRegistryAndChecksum[(r, c)]? = some k →
    (r, k) ∈ s.recordIndices

/-! ## One message -/

/-- What storing a version writes, in terms of keys and counters. -/
theorem storeVersion_numbers {ctx : Ctx} {k : UInt64} {record : Record} {s s' : Store}
    (stored : s.storeVersion ctx k record = .ok s') :
    s'.recordIndices = s.recordIndices.insert (record.registryId, k)
        (s.recordIndices[(record.registryId, k)]?.getD 0 + 1) ∧
      (∀ key, key ∈ s'.records ↔
        (record.registryId, k, s.recordIndices[(record.registryId, k)]?.getD 0 + 1) = key ∨
          key ∈ s.records) ∧
      s'.registries = s.registries ∧ s'.registryCount = s.registryCount ∧
      s'.recordsCountByRegistry = s.recordsCountByRegistry ∧
      s'.recordIdByRegistryAndChecksum = s.recordIdByRegistryAndChecksum := by
  have hnext : s.nextIndex record.registryId k =
      s.recordIndices[(record.registryId, k)]?.getD 0 + 1 := by
    unfold Store.nextIndex
    cases s.recordIndices[(record.registryId, k)]? with
    | none => rfl
    | some i => rfl
  rcases storeVersion_eq_ok.mp stored with ⟨_, rfl⟩ | ⟨_, prev, hprev, rfl⟩
  · rw [hnext]
    exact ⟨rfl, fun key => Map.mem_insert, rfl, rfl, rfl, rfl⟩
  · rw [hnext] at hprev ⊢
    refine ⟨rfl, fun key => ?_, rfl, rfl, rfl, rfl⟩
    refine Map.mem_insert.trans ⟨?_, fun h => .inr (Map.mem_insert.mpr h)⟩
    rintro (rfl | h)
    · exact .inr (Map.mem_of_get? hprev)
    · exact Map.mem_insert.mp h

section Outcome

variable {env : Env} {ctx : Ctx} {s s' : Store}

/-- A refused message adds nothing. -/
theorem Added.after_refused {msg : Msg} {e : Err} (failed : handle env ctx msg s = .error e)
    (a : Added) : a.after env ctx s msg = a := by
  unfold Added.after
  split
  · rw [failed]
  · rw [failed]
    split
    · rename_i hok
      cases hok
    · rfl
  · rfl

/-- A refused message is given no numbers. -/
theorem fresh_of_refused {msg : Msg} {e : Err} (failed : handle env ctx msg s = .error e) :
    Fresh env ctx s msg := by
  unfold Fresh
  split
  · rw [failed]
    exact nofun
  · rw [failed]
    exact nofun
  · trivial

/-- A new registry is fresh if no registry has its id. -/
theorem fresh_addRegistry_iff {req : Option MsgAddRegistry} {registryId : UInt64}
    (accepted : handle env ctx (.addRegistry req) s = .ok (.addRegistry registryId, s')) :
    Fresh env ctx s (.addRegistry req) ↔ registryId ∉ s.registries := by
  constructor
  · intro fresh
    exact fresh _ _ accepted
  · intro hfree id s'' hs''
    cases accepted.symm.trans hs''
    exact hfree

/-- A new version is fresh if nothing is stored under its key. -/
theorem fresh_addRecord_iff {m : MsgAddRecord} {record : Record} {k i : UInt64}
    (carries : m.record = some record)
    (accepted : handle env ctx (.addRecord (some m)) s = .ok (.addRecord k, s'))
    (indexed : s'.recordIndices[(record.registryId, k)]? = some i) :
    Fresh env ctx s (.addRecord (some m)) ↔ (record.registryId, k, i) ∉ s.records ∧
      ((record.registryId, record.checksum) ∉ s.recordIdByRegistryAndChecksum →
        (record.registryId, k) ∉ s.recordIndices) := by
  constructor
  · intro fresh
    exact fresh record k i s' carries accepted indexed
  · intro hfree record' k' i' s'' hrecord' hs'' hi
    cases carries.symm.trans hrecord'
    cases accepted.symm.trans hs''
    cases indexed.symm.trans hi
    exact hfree

end Outcome

namespace Numbered

variable {gs : GenesisState} {env : Env} {ctx : Ctx} {s s₁ s₂ : Store} {a : Added}

/-- A new registry. Its record counter starts at zero, which is where a registry without one counts
from. -/
theorem withRegistry (h : Numbered gs s a) {registry : Registry} {creator : Bytes} {n : UInt64}
    (counted : s.registryCount = some n) (hid : registry.id = n + 1) (hfree : n + 1 ∉ s.registries) :
    Numbered gs (s.withRegistry env registry creator) { a with registries := a.registries + 1 } := by
  obtain ⟨n', hn', hissued⟩ := h.registries
  cases counted.symm.trans hn'
  have hzero : s.recordsCountByRegistry[n + 1]? = none :=
    Map.notMem_iff.mp fun hm => hfree (h.counted _ hm)
  refine ⟨⟨n + 1, congrArg some hid, hissued.next fun r => ?_⟩, fun r hr => ?_, fun r => ?_,
    h.versions, h.found⟩
  · rw [← hid]
    exact Map.mem_insert
  · exact Map.mem_insert.mpr ((Map.mem_insert.mp hr).imp id (h.counted r))
  · have hsame : (s.recordsCountByRegistry.insert registry.id 0)[r]?.getD 0 =
        s.recordsCountByRegistry[r]?.getD 0 := by
      rw [hid, Map.get?_insert]
      split
      · rename_i hr
        rw [← hr, hzero]
        rfl
      · rfl
    exact (congrArg (Issued _ _ · _) hsame).mpr (h.records r)

/-- A new version, once its record id was chosen. -/
theorem withVersion (h : Numbered gs s a) {record : Record} {k : UInt64} {recs : UInt64 → Nat}
    (stored : s₁.storeVersion ctx k record = .ok s₂) (hrecords : s₁.records = s.records)
    (hindices : s₁.recordIndices = s.recordIndices) (hregistries : s₁.registries = s.registries)
    (hcount : s₁.registryCount = s.registryCount)
    (counted : ∀ r, r ∈ s₁.recordsCountByRegistry → r ∈ s.registries)
    (records : ∀ r, Issued (gs.recordIds r) (recs r) (s₁.recordsCountByRegistry[r]?.getD 0)
      fun k' => (record.registryId, k) = (r, k') ∨ (r, k') ∈ s.recordIndices)
    (found : ∀ (r k' : UInt64) (c : Bytes), s₁.recordIdByRegistryAndChecksum[(r, c)]? = some k' →
      (record.registryId, k) = (r, k') ∨ (r, k') ∈ s.recordIndices) :
    Numbered gs s₂ { a with
      records := recs
      versions := fun gk =>
        if (record.registryId, k) = gk then a.versions gk + 1 else a.versions gk } := by
  obtain ⟨hindices₂, hrecords₂, hregistries₂, hcount₂, hcounts₂, hfound₂⟩ :=
    storeVersion_numbers stored
  rw [hrecords, hindices] at hrecords₂
  rw [hindices] at hindices₂
  refine ⟨?_, ?_, fun r => ?_, fun r k' => ?_, ?_⟩
  · rw [hregistries₂, hregistries, hcount₂, hcount]
    exact h.registries
  · rw [hregistries₂, hregistries, hcounts₂]
    exact counted
  · rw [hcounts₂, hindices₂]
    exact (records r).congr fun k' => Map.mem_insert
  · by_cases hkey : (record.registryId, k) = (r, k')
    · cases hkey
      simp only [if_true, hindices₂, Std.ExtTreeMap.getElem?_insert_self, Option.getD_some]
      refine (h.versions _ _).next fun i => (hrecords₂ _).trans (or_congr_left ?_)
      simp only [Prod.mk.injEq, true_and]
    · simp only [if_neg hkey, hindices₂, Map.get?_insert_ne _ _ hkey]
      refine (h.versions r k').congr fun i => (hrecords₂ _).trans (or_iff_right fun e => hkey ?_)
      simp only [Prod.mk.injEq] at e
      rw [e.1, e.2.1]
  · rw [hfound₂, hindices₂]
    exact fun r k' c hk => Map.mem_insert.mpr (found r k' c hk)

/-- The numbers `AddRecord` gives out are free exactly while their counters have room. -/
theorem addRecord_fresh_iff (h : Numbered gs s a) (hroom : gs.HasRoom a) {record : Record} {k : UInt64}
    (assigned : s.assignRecordId record.registryId record.checksum = .ok (k, s₁)) :
    ((record.registryId, k, s.recordIndices[(record.registryId, k)]?.getD 0 + 1) ∉ s.records ∧
      ((record.registryId, record.checksum) ∉ s.recordIdByRegistryAndChecksum →
        (record.registryId, k) ∉ s.recordIndices)) ↔ gs.HasRoom (a.withVersion s record k) := by
  rw [hroom.withVersion_iff]
  refine and_congr ((h.versions _ _).fresh_iff (hroom.versions _)) (imp_congr_right fun hnew => ?_)
  rcases assignRecordId_eq_ok.mp assigned with ⟨hk, _⟩ | ⟨_, count, hcount, _, rfl, _⟩
  · exact absurd (Map.mem_of_get? hk) hnew
  · have hfresh := (h.records record.registryId).fresh_iff (hroom.records _)
    rwa [hcount, Option.getD_some] at hfresh

/-- Both halves of `AddRecord`. -/
theorem addRecord (h : Numbered gs s a) {record : Record} {k : UInt64}
    (known : record.registryId ∈ s.registries)
    (assigned : s.assignRecordId record.registryId record.checksum = .ok (k, s₁))
    (stored : s₁.storeVersion ctx k record = .ok s₂) :
    Numbered gs s₂ (a.withVersion s record k) := by
  rcases assignRecordId_eq_ok.mp assigned with ⟨hk, rfl⟩ | ⟨hnone, count, hcount, _, rfl, rfl⟩
  · have hin := h.found _ _ _ hk
    refine h.withVersion stored rfl rfl rfl rfl h.counted (fun r => ?_)
      fun r k' c hc => .inr (h.found r k' c hc)
    rw [if_neg fun e => e.2 (Map.mem_of_get? hk)]
    exact (h.records r).congr fun k' => or_iff_right_of_imp fun e => e ▸ hin
  · refine h.withVersion stored rfl rfl rfl rfl (fun r hr => ?_) (fun r => ?_) fun r k' c hc => ?_
    · exact (Map.mem_insert.mp hr).elim (fun e => e ▸ known) (h.counted r)
    · have hnew := Map.notMem_iff.mpr hnone
      by_cases hr : record.registryId = r
      · subst hr
        rw [if_pos ⟨rfl, hnew⟩]
        have hissued := h.records record.registryId
        rw [hcount, Option.getD_some] at hissued
        have hcurrent : (s.withChecksum record.registryId record.checksum
            (count + 1)).recordsCountByRegistry[record.registryId]? = some (count + 1) :=
          Std.ExtTreeMap.getElem?_insert_self
        rw [hcurrent, Option.getD_some]
        refine hissued.next fun k' => or_congr_left ?_
        simp only [Prod.mk.injEq, true_and]
      · rw [if_neg fun e => hr e.1]
        have hcurrent : (s.withChecksum record.registryId record.checksum
            (count + 1)).recordsCountByRegistry[r]? = s.recordsCountByRegistry[r]? :=
          Map.get?_insert_ne _ _ hr
        rw [hcurrent]
        exact (h.records r).congr fun k' => or_iff_right fun e => hr (Prod.mk.inj e).1
    · have hc' : (s.recordIdByRegistryAndChecksum.insert (record.registryId, record.checksum)
          (count + 1))[(r, c)]? = some k' := hc
      rw [Map.get?_insert] at hc'
      split at hc'
      · rename_i hkey
        rw [(Prod.mk.inj hkey).1, Option.some.inj hc']
        exact .inl rfl
      · exact .inr (h.found r k' c hc')

/-- Rewriting a stored version changes no number. -/
theorem withRecord (h : Numbered gs s a) {key : UInt64 × UInt64 × UInt64} {old record : Record}
    (found : s.records[key]? = some old) : Numbered gs (s.withRecord key record) a := by
  refine ⟨h.registries, h.counted, h.records, fun r k => (h.versions r k).congr fun i => ?_, h.found⟩
  exact Map.mem_insert.trans (or_iff_right_of_imp fun e => e ▸ Map.mem_of_get? found)

/-- **One message.** It is fresh exactly while its counters have room, and then the counters stand
where they should. -/
theorem delivered (h : Numbered gs s a) (hroom : gs.HasRoom a) {msg : Msg}
    (hd : Delivered env ctx s msg s₂) :
    (Fresh env ctx s msg ↔ gs.HasRoom (a.after env ctx s msg)) ∧
      (gs.HasRoom (a.after env ctx s msg) → Numbered gs s₂ (a.after env ctx s msg)) := by
  cases hd with
  | refused failed =>
    rw [Added.after_refused failed]
    exact ⟨⟨fun _ => hroom, fun _ => fresh_of_refused failed⟩, fun _ => h⟩
  | @addRegistry m sender creator count accepted signer valid counted creates =>
    obtain ⟨n, hn, hissued⟩ := h.registries
    cases counted.symm.trans hn
    have hafter : a.after env ctx s (.addRegistry (some m)) =
        { a with registries := a.registries + 1 } := by
      simp only [Added.after, accepted]
    have hiff := hissued.fresh_iff hroom.registries
    rw [hafter, fresh_addRegistry_iff accepted, hroom.withRegistry_iff]
    exact ⟨hiff, fun hmore => h.withRegistry counted rfl (hiff.mpr hmore)⟩
  | @addRecord m record sender recordId s₁ _ accepted signer carries valid known permitted assigned
      stored =>
    have hafter : a.after env ctx s (.addRecord (some m)) = a.withVersion s record recordId := by
      simp only [Added.after, accepted, carries]
    obtain ⟨hindices, -⟩ := storeVersion_numbers stored
    have hindex : s₂.recordIndices[(record.registryId, recordId)]? =
        some (s.recordIndices[(record.registryId, recordId)]?.getD 0 + 1) := by
      rw [hindices, (assigned_frame assigned).2, Std.ExtTreeMap.getElem?_insert_self]
    rw [hafter, fresh_addRecord_iff carries accepted hindex]
    exact ⟨h.addRecord_fresh_iff hroom assigned, fun _ => h.addRecord known assigned stored⟩
  | updateRecordStatus accepted signer valid found permitted =>
    exact ⟨⟨fun _ => hroom, fun _ => trivial⟩, fun _ => h.withRecord found⟩
  | grantRole signer grants nonzero inScope allowed =>
    exact ⟨⟨fun _ => hroom, fun _ => trivial⟩,
      fun _ => ⟨h.registries, h.counted, h.records, h.versions, h.found⟩⟩
  | revokeRole signer revokes nonzero inScope held notLast administered allowed =>
    exact ⟨⟨fun _ => hroom, fun _ => trivial⟩,
      fun _ => ⟨h.registries, h.counted, h.records, h.versions, h.found⟩⟩
  | updateParams signer stored authorized valid =>
    exact ⟨⟨fun _ => hroom, fun _ => trivial⟩,
      fun _ => ⟨h.registries, h.counted, h.records, h.versions, h.found⟩⟩

/-- A run is fresh exactly while its counters have room. -/
theorem freshRun_iff (h : Numbered gs s a) (hroom : gs.HasRoom a) (msgs : List (Ctx × Msg)) :
    FreshRun env msgs s ↔ gs.HasRoom (addedBy env msgs s a) := by
  induction msgs generalizing s a with
  | nil => exact ⟨fun _ => hroom, fun _ => trivial⟩
  | cons m rest ih =>
    obtain ⟨ctx, msg⟩ := m
    obtain ⟨hfresh, hnext⟩ := h.delivered hroom (Nvnmchain.delivered env ctx msg s)
    constructor
    · rintro ⟨hf, hrest⟩
      have hroom' := hfresh.mp hf
      exact (ih (hnext hroom') hroom').mp hrest
    · intro hend
      have hroom' : gs.HasRoom (a.after env ctx s msg) := GenesisState.HasRoom.of_addedBy hend
      exact ⟨hfresh.mpr hroom', (ih (hnext hroom') hroom').mpr hend⟩

end Numbered

/-! ## The first counters -/

section Genesis

variable {env : Env} {gs : GenesisState}

theorem mem_recordIds {r k : UInt64} :
    k ∈ gs.recordIds r ↔ ∃ record ∈ gs.records, record.registryId = r ∧ record.recordId = k := by
  simp only [GenesisState.recordIds, List.mem_map, List.mem_filter, decide_eq_true_eq, and_assoc]

theorem mem_indices {r k i : UInt64} :
    i ∈ gs.indices (r, k) ↔ ∃ record ∈ gs.records,
      record.registryId = r ∧ record.recordId = k ∧ record.index = i := by
  simp only [GenesisState.indices, groupRecords, List.mem_map, List.mem_filter, decide_eq_true_eq,
    Record.group, Prod.mk.injEq, and_assoc]

/-- The imported registry count is the largest id of the genesis. -/
theorem imported_registryIds (order : GenesisOrder gs) (hl : gs.Loadable env) :
    ∃ n, (gs.imported order).registryCount = some n ∧ LargestOrZero (· ∈ gs.registryIds) n := by
  obtain ⟨n, hn, hlargest⟩ := (imported_rebuilt order hl).registryCount
  refine ⟨n, hn, hlargest.congr fun r => ?_⟩
  rw [GenesisState.registryIds, Std.ExtTreeMap.mem_keys, Map.mem_iff]
  constructor
  · rintro ⟨registry, hget, -⟩
    exact ⟨registry, hget⟩
  · rintro ⟨registry, hget⟩
    exact ⟨registry, hget, hl.registryKey r registry hget⟩

/-- The imported record count of a registry is its largest record id; what is no registry has
none. -/
theorem imported_recordIds (order : GenesisOrder gs) (hl : gs.Loadable env) (r : UInt64) :
    LargestOrZero (· ∈ gs.recordIds r) ((gs.imported order).recordsCountByRegistry[r]?.getD 0) := by
  by_cases hr : r ∈ gs.registries
  · obtain ⟨n, hn, hlargest⟩ := (imported_rebuilt order hl).recordsCount r hr
    rw [hn, Option.getD_some]
    exact hlargest.congr fun k => mem_recordIds.symm
  · rw [Map.notMem_iff.mp fun hcount => hr ((mem_imported_counts order hl).mp hcount)]
    refine .of_bound (fun k hk => ?_) (.inr rfl)
    obtain ⟨record, hrecord, rfl, -⟩ := mem_recordIds.mp hk
    exact absurd (hl.recordKnown record hrecord) hr

/-- The imported index of a record is its largest one; what is no record has none. -/
theorem imported_recordIndices (order : GenesisOrder gs) (hl : gs.Loadable env) (r k : UInt64) :
    LargestOrZero (· ∈ gs.indices (r, k)) ((gs.imported order).recordIndices[(r, k)]?.getD 0) := by
  by_cases hk : ∃ record ∈ gs.records, record.registryId = r ∧ record.recordId = k
  · obtain ⟨n, hlatest, hlargest⟩ := (imported_rebuilt order hl).recordIndices r k hk
    rw [hlatest.index, Option.getD_some]
    exact hlargest.congr fun i => mem_indices.symm
  · rw [Map.notMem_iff.mp fun hindex => hk ((mem_imported_indices order).mp hindex)]
    refine .of_bound (fun i hi => ?_) (.inr rfl)
    obtain ⟨record, hrecord, hr, hk', -⟩ := mem_indices.mp hi
    exact absurd ⟨record, hrecord, hr, hk'⟩ hk

/-- An imported store goes on from the ids of its file. -/
theorem imported_numbered (order : GenesisOrder gs) (hl : gs.Loadable env) :
    Numbered gs (gs.imported order) .zero where
  registries := by
    obtain ⟨n, hn, hlargest⟩ := imported_registryIds order hl
    refine ⟨n, hn, .start hlargest fun r => ?_⟩
    rw [imported_registries order hl, GenesisState.registryIds, Std.ExtTreeMap.mem_keys]
  counted r hr := by
    rw [imported_registries order hl]
    exact (mem_imported_counts order hl).mp hr
  records r := .start (imported_recordIds order hl r) fun k =>
    (mem_imported_indices order).trans mem_recordIds.symm
  versions r k := .start (imported_recordIndices order hl r k) fun i => by
    rw [mem_indices, Map.mem_iff]
    simp only [(imported_rebuilt order hl).records]
  found r k c hk := by
    rw [mem_imported_indices]
    rw [imported_byRegistry] at hk
    rcases Map.get?_assign_cases hk with ⟨record, hrecord, hkey, rfl⟩ | ⟨_, hnone⟩
    · exact ⟨record, hrecord, (Prod.mk.inj hkey).1, rfl⟩
    · rw [Std.ExtTreeMap.getElem?_empty] at hnone
      cases hnone

/-- Before anything is added, every counter has room. -/
theorem hasRoom_zero (gs : GenesisState) : gs.HasRoom .zero where
  registries := Counter.room_pos _
  records _ := Counter.room_pos _
  versions _ := Counter.room_pos _

end Genesis

/-- **The numbers of a run are free exactly while the counters have room.** From every genesis that
loads, and for every list of messages: each accepted `AddRegistry` answers an id that names no
registry and each accepted `AddRecord` stores at a key that names no version, exactly when fewer
registries, records of each registry and versions of each record are added than lie between the
largest number of the genesis and, past `2^64`, its smallest. -/
theorem numbers_fresh_iff {env : Env} {gs : GenesisState} {order : GenesisOrder gs} {s₀ : Store}
    (h : initGenesis env gs order Store.empty = .ok s₀) (msgs : List (Ctx × Msg)) :
    FreshRun env msgs s₀ ↔ gs.HasRoom (addedBy env msgs s₀ .zero) := by
  obtain ⟨hl, -, rfl⟩ := initGenesis_eq_ok.mp h
  exact (imported_numbered order hl).freshRun_iff (hasRoom_zero gs) msgs

/-! ## A genesis that names the last number -/

/-- Registry 1 with a record, and the registry of the last id. -/
def edgeGenesis : GenesisState where
  params := smallParams
  registries := Map.assign Registry.id id ∅ [smallRegistry 1, smallRegistry counterMax]
  records := [{ smallRecord "c0" with recordId := 1, index := 1, isLatest := true }]
  roleAdmins := ∅
  roleMembers := ∅

/-- The store it loads as. -/
def edgeStore : Store := edgeGenesis.imported (.sorted _)

/-- Account 2 creates a registry. -/
def addTitles : Ctx × Msg :=
  (smallCtx, .addRegistry (some ⟨str "nvnm1qgcx23ru", str "titles", [], []⟩))

theorem initGenesis_edgeGenesis :
    initGenesis smallEnv edgeGenesis (.sorted _) Store.empty = .ok edgeStore := by
  have hvalid : edgeGenesis.validate smallEnv (.sorted _) = .ok () := by decide +kernel
  exact (validate_eq_ok.mp hvalid).initGenesis_eq (by decide) (by decide +kernel)

/-- The first new registry of the edge genesis is fresh and the second is not. -/
theorem numbers_fresh_edge :
    FreshRun smallEnv [addTitles] edgeStore ∧ ¬ FreshRun smallEnv [addTitles, addTitles] edgeStore := by
  have hrecords : (addedBy smallEnv [addTitles] edgeStore .zero).records = fun _ => 0 := by
    simp only [addedBy, addTitles, Added.after]
    split <;> rfl
  have hversions : (addedBy smallEnv [addTitles] edgeStore .zero).versions = fun _ => 0 := by
    simp only [addedBy, addTitles, Added.after]
    split <;> rfl
  constructor
  · refine (numbers_fresh_iff initGenesis_edgeGenesis _).mpr ⟨by decide +kernel, fun r => ?_,
      fun gk => ?_⟩
    · rw [hrecords]
      exact Counter.room_pos _
    · rw [hversions]
      exact Counter.room_pos _
  · intro hfresh
    have hroom := ((numbers_fresh_iff initGenesis_edgeGenesis _).mp hfresh).registries
    exact absurd hroom (by decide +kernel)

/-- `Validate` accepts the edge genesis, and the import loads it. The second new registry is answered
with id 1: it replaces the registry of that id and sets its record counter to zero. -/
theorem registry_overwritten :
    edgeGenesis.validate smallEnv (.sorted _) = .ok () ∧
      initGenesis smallEnv edgeGenesis (.sorted _) Store.empty = .ok edgeStore ∧
      (edgeStore.registries[(1 : UInt64)]?.map (·.name)) = some (str "deeds") ∧
      edgeStore.recordsCountByRegistry[(1 : UInt64)]? = some 1 ∧
      (handle smallEnv addTitles.1 addTitles.2 (deliver smallEnv addTitles.1 addTitles.2
        edgeStore)).map Prod.fst = .ok (.addRegistry 1) ∧
      ((runMsgs smallEnv [addTitles, addTitles] edgeStore).registries[(1 : UInt64)]?.map (·.name)) =
        some (str "titles") ∧
      (runMsgs smallEnv [addTitles, addTitles] edgeStore).recordsCountByRegistry[(1 : UInt64)]? =
        some 0 := by
  refine ⟨?_, initGenesis_edgeGenesis, ?_, ?_, ?_, ?_, ?_⟩ <;> decide +kernel

end Nvnmchain
