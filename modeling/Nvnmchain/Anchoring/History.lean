import Nvnmchain.Anchoring.StoreInv

/-!
# Anchored history is append-only

Two handlers write over stored versions. `AddRecord` takes `IsLatest` from the version before the new
one, and `UpdateRecordStatus` sets the status of any version. Nothing else of a version, and nothing
of a registry, changes after it was stored.

`VersionChange` lists what one message can make of a stored version, and `Extends` is what every
later store of a run keeps of an earlier one. The two fields that do change are accounted for message
by message (`latest_lost_iff`, `status_changed`).
-/

set_option autoImplicit false

namespace Nvnmchain

open Go (Bytes str)
open Collections

/-- Two versions agree on the fields that anchoring fixes. -/
structure Record.SameAnchor (v w : Record) : Prop where
  uri : w.uri = v.uri
  checksum : w.checksum = v.checksum
  checksumAlgo : w.checksumAlgo = v.checksumAlgo
  metadata : w.metadata = v.metadata
  timestamp : w.timestamp = v.timestamp
  recordId : w.recordId = v.recordId
  index : w.index = v.index
  registryId : w.registryId = v.registryId

theorem Record.SameAnchor.refl (v : Record) : v.SameAnchor v := ⟨rfl, rfl, rfl, rfl, rfl, rfl, rfl, rfl⟩

theorem Record.SameAnchor.trans {u v w : Record} (h : u.SameAnchor v) (h' : v.SameAnchor w) :
    u.SameAnchor w where
  uri := h'.uri.trans h.uri
  checksum := h'.checksum.trans h.checksum
  checksumAlgo := h'.checksumAlgo.trans h.checksumAlgo
  metadata := h'.metadata.trans h.metadata
  timestamp := h'.timestamp.trans h.timestamp
  recordId := h'.recordId.trans h.recordId
  index := h'.index.trans h.index
  registryId := h'.registryId.trans h.registryId

/-- The later store keeps every registry, and every version up to its status and to losing
`IsLatest`. -/
structure Extends (s s' : Store) : Prop where
  registries : ∀ (r : UInt64) (registry : Registry), s.registries[r]? = some registry →
    s'.registries[r]? = some registry
  records : ∀ (r k i : UInt64) (v : Record), s.records[(r, k, i)]? = some v →
    ∃ w, s'.records[(r, k, i)]? = some w ∧ v.SameAnchor w ∧ (w.isLatest = true → v.isLatest = true)

namespace Extends

/-- A store with the same registries and records has the same history. -/
theorem of_eq {s s' : Store} (hregistries : s'.registries = s.registries)
    (hrecords : s'.records = s.records) : Extends s s' where
  registries r registry h := by rw [hregistries]; exact h
  records r k i v h := ⟨v, by rw [hrecords]; exact h, .refl v, fun hl => hl⟩

theorem refl (s : Store) : Extends s s := of_eq rfl rfl

theorem trans {a b c : Store} (h : Extends a b) (h' : Extends b c) : Extends a c where
  registries r registry hr := h'.registries r registry (h.registries r registry hr)
  records r k i v hv := by
    obtain ⟨w, hw, hsame, hlatest⟩ := h.records r k i v hv
    obtain ⟨x, hx, hsame', hlatest'⟩ := h'.records r k i w hw
    exact ⟨x, hx, hsame.trans hsame', fun hl => hlatest (hlatest' hl)⟩

end Extends

/-! ## What one message does to a stored version -/

section Step

variable {env : Env} {ctx : Ctx} {s s' : Store} {msg : Msg} {r k i : UInt64}

/-- What a message made of the version under a key: nothing; a version that is not the latest any
more, since the message added the next one; or a version with the status the message gave it. -/
inductive VersionChange (env : Env) (ctx : Ctx) (s : Store) (msg : Msg) (s' : Store)
    (r k i : UInt64) (v : Record) : Record → Prop
  | same : VersionChange env ctx s msg s' r k i v v
  | superseded {req : Option MsgAddRecord} (request : msg = .addRecord req)
    (accepted : handle env ctx msg s = .ok (.addRecord k, s'))
    (free : (r, k, i + 1) ∉ s.records) (stored : (r, k, i + 1) ∈ s'.records) :
    VersionChange env ctx s msg s' r k i v { v with isLatest := false }
  | restated {m : MsgUpdateRecordStatus} (request : msg = .updateRecordStatus (some m))
    (accepted : handle env ctx msg s = .ok (.empty, s'))
    (named : m.registryId = r ∧ m.recordId = k ∧ m.index = i) :
    VersionChange env ctx s msg s' r k i v { v with status := m.status }

/-- A version that is stored stays stored, changed in one of the listed ways or not at all. -/
theorem StoreInv.version_after (h : StoreInv s) (hmax : s.CountersBelowMax)
    (hd : Delivered env ctx s msg s') {v : Record} (hv : s.records[(r, k, i)]? = some v) :
    ∃ w, s'.records[(r, k, i)]? = some w ∧ VersionChange env ctx s msg s' r k i v w := by
  cases hd with
  | refused failed => exact ⟨v, hv, .same⟩
  | addRegistry accepted signer valid counted creates => exact ⟨v, hv, .same⟩
  | @addRecord m record _ recordId _ _ accepted signer carries valid known permitted assigned stored =>
    cases h.anchored hmax assigned stored with
    | first fresh counted encodes =>
      have hnew := h.first_notMem counted (hmax.records _ _ counted) 1
      exact ⟨v, Map.get?_insert_of_notMem hnew hv, .same⟩
    | @next _ i' prev numbered indexed previous =>
      have hnew := h.next_notMem indexed (hmax.versions _ _ _ indexed)
      have hkept := Map.get?_insert_of_notMem (v := record.versioned ctx recordId (i' + 1)) hnew hv
      by_cases hkey : (record.registryId, recordId, i') = (r, k, i)
      · cases hkey
        cases previous.symm.trans hv
        refine ⟨_, Std.ExtTreeMap.getElem?_insert_self, .superseded rfl accepted hnew ?_⟩
        exact Map.mem_insert.mpr (.inr (Map.mem_insert.mpr (.inl rfl)))
      · exact ⟨v, (Map.get?_insert_ne _ _ hkey).trans hkept, .same⟩
  | @updateRecordStatus m record _ accepted signer valid found permitted =>
    by_cases hkey : (m.registryId, m.recordId, m.index) = (r, k, i)
    · cases hkey
      cases found.symm.trans hv
      exact ⟨_, Std.ExtTreeMap.getElem?_insert_self, .restated rfl accepted ⟨rfl, rfl, rfl⟩⟩
    · exact ⟨v, (Map.get?_insert_ne _ _ hkey).trans hv, .same⟩
  | grantRole signer grants nonzero inScope allowed => exact ⟨v, hv, .same⟩
  | revokeRole signer revokes nonzero inScope held notLast administered allowed => exact ⟨v, hv, .same⟩
  | updateParams signer stored authorized valid => exact ⟨v, hv, .same⟩

/-- No change touches what was anchored. -/
theorem VersionChange.sameAnchor {v w : Record} (h : VersionChange env ctx s msg s' r k i v w) :
    v.SameAnchor w := by
  cases h <;> exact ⟨rfl, rfl, rfl, rfl, rfl, rfl, rfl, rfl⟩

/-- No change makes an old version the latest again. -/
theorem VersionChange.latest {v w : Record} (h : VersionChange env ctx s msg s' r k i v w)
    (hw : w.isLatest = true) : v.isLatest = true := by
  cases h with
  | same => exact hw
  | superseded request accepted free stored => cases hw
  | restated request accepted named => exact hw

/-- One message keeps the history. -/
theorem StoreInv.extends (h : StoreInv s) (hmax : s.CountersBelowMax)
    (hd : Delivered env ctx s msg s') : Extends s s' := by
  refine ⟨fun r registry hr => ?_, fun r k i v hv => ?_⟩
  · cases hd with
    | addRegistry accepted signer valid counted creates =>
      exact Map.get?_insert_of_notMem (h.registry_notMem counted (hmax.registries _ counted)) hr
    | addRecord accepted signer carries valid known permitted assigned stored =>
      cases h.anchored hmax assigned stored <;> exact hr
    | _ => exact hr
  · obtain ⟨w, hw, hchange⟩ := h.version_after hmax hd hv
    exact ⟨w, hw, hchange.sameAnchor, hchange.latest⟩

/-- A version stops being the latest exactly when an accepted `AddRecord` stores the next one. -/
theorem StoreInv.latest_lost_iff (h : StoreInv s) (hmax : s.CountersBelowMax)
    (hd : Delivered env ctx s msg s') {v w : Record} (hv : s.records[(r, k, i)]? = some v)
    (hw : s'.records[(r, k, i)]? = some w) :
    (v.isLatest = true ∧ w.isLatest = false) ↔
      (∃ req, msg = .addRecord req ∧ handle env ctx msg s = .ok (.addRecord k, s')) ∧
        (r, k, i + 1) ∉ s.records ∧ (r, k, i + 1) ∈ s'.records := by
  constructor
  · rintro ⟨hlatest, hlost⟩
    obtain ⟨w', hw', hchange⟩ := h.version_after hmax hd hv
    cases hw.symm.trans hw'
    cases hchange with
    | same => rw [hlatest] at hlost; cases hlost
    | superseded request accepted free stored => exact ⟨⟨_, request, accepted⟩, free, stored⟩
    | restated request accepted named => cases hlatest.symm.trans hlost
  · rintro ⟨_, hfree, hstored⟩
    have hlatest : v.isLatest = true := by
      rw [← Bool.not_eq_false, h.not_latest_iff hv]
      exact hfree
    exact ⟨hlatest, ((h.delivered hmax hd).not_latest_iff hw).mpr hstored⟩

/-- A status changes only by an accepted `UpdateRecordStatus` that names the version. -/
theorem StoreInv.status_changed (h : StoreInv s) (hmax : s.CountersBelowMax)
    (hd : Delivered env ctx s msg s') {v w : Record} (hv : s.records[(r, k, i)]? = some v)
    (hw : s'.records[(r, k, i)]? = some w) (hne : w.status ≠ v.status) :
    ∃ m : MsgUpdateRecordStatus, msg = .updateRecordStatus (some m) ∧
      handle env ctx msg s = .ok (.empty, s') ∧
        m.registryId = r ∧ m.recordId = k ∧ m.index = i ∧ m.status = w.status := by
  obtain ⟨w', hw', hchange⟩ := h.version_after hmax hd hv
  cases hw.symm.trans hw'
  cases hchange with
  | same => exact absurd rfl hne
  | superseded request accepted free stored => exact absurd rfl hne
  | restated request accepted named =>
    exact ⟨_, request, accepted, named.1, named.2.1, named.2.2, rfl⟩

end Step

/-! ## Every run -/

section Run

variable {env : Env} {names : Set Bytes} {s s' : Store}

/-- **A run only extends the history.** -/
theorem Reachable.extends (h : Reachable env names s)
    (run : Relation.ReflTransGen (BoundedStep env names) s s') : Extends s s' := by
  refine Transition.Reachable.history Extends.refl (fun _ _ _ => Extends.trans) ?_ h run
  rintro a b ha ⟨hmax, ctx, msg, _, rfl⟩
  exact (Reachable.storeInv ha).extends hmax (delivered env ctx msg a)

/-- A status that differs later was changed on the way, by a message that names the version. -/
theorem Reachable.status_changed (h : Reachable env names s)
    (run : Relation.ReflTransGen (BoundedStep env names) s s') {r k i : UInt64} {v w : Record}
    (hv : s.records[(r, k, i)]? = some v) (hw : s'.records[(r, k, i)]? = some w)
    (hne : w.status ≠ v.status) :
    ∃ (a : Store) (ctx : Ctx) (m : MsgUpdateRecordStatus),
      Relation.ReflTransGen (BoundedStep env names) s a ∧
      Relation.ReflTransGen (BoundedStep env names)
        (deliver env ctx (.updateRecordStatus (some m)) a) s' ∧
      handle env ctx (.updateRecordStatus (some m)) a =
        .ok (.empty, deliver env ctx (.updateRecordStatus (some m)) a) ∧
      m.registryId = r ∧ m.recordId = k ∧ m.index = i := by
  -- on the last message: it changed the status, or the status had changed before it
  induction run generalizing w with
  | refl => cases hv.symm.trans hw; exact absurd rfl hne
  | @tail b c before step ih =>
    obtain ⟨hmax, ctx, msg, hnames, rfl⟩ := step
    have hb : Reachable env names b := Transition.Reachable.trans h before
    obtain ⟨u, hu, -, -⟩ := (h.extends before).records r k i v hv
    by_cases hlast : w.status = u.status
    · obtain ⟨a, ctx', m, hbefore, hafter, hok, hkey⟩ := ih hu (fun e => hne (hlast.trans e))
      exact ⟨a, ctx', m, hbefore, hafter.tail ⟨hmax, ctx, msg, hnames, rfl⟩, hok, hkey⟩
    · obtain ⟨m, rfl, hok, hr, hk, hi, _⟩ :=
        hb.storeInv.status_changed hmax (delivered env ctx msg b) hu hw hlast
      exact ⟨b, ctx, m, before, .refl, hok, hr, hk, hi⟩

end Run

/-- **Anchored history is append-only.** For every store of a run in which no counter wraps: what
each message may do to a registry and to a stored version, and what every later store keeps of
them. -/
theorem history_append_only {env : Env} {s : Store} (h : Reachable env Set.univ s) :
    (∀ (ctx : Ctx) (msg : Msg), s.CountersBelowMax →
      (∀ (r : UInt64) (registry : Registry), s.registries[r]? = some registry →
        (deliver env ctx msg s).registries[r]? = some registry) ∧
      ∀ (r k i : UInt64) (v : Record), s.records[(r, k, i)]? = some v →
        ∃ w, (deliver env ctx msg s).records[(r, k, i)]? = some w ∧ v.SameAnchor w ∧
          (w.isLatest = true → v.isLatest = true) ∧
          ((v.isLatest = true ∧ w.isLatest = false) ↔
            (∃ req, msg = .addRecord req ∧
              handle env ctx msg s = .ok (.addRecord k, deliver env ctx msg s)) ∧
            (r, k, i + 1) ∉ s.records ∧ (r, k, i + 1) ∈ (deliver env ctx msg s).records) ∧
          (w.status ≠ v.status → ∃ m : MsgUpdateRecordStatus,
            msg = .updateRecordStatus (some m) ∧
            handle env ctx msg s = .ok (.empty, deliver env ctx msg s) ∧
            m.registryId = r ∧ m.recordId = k ∧ m.index = i ∧ m.status = w.status)) ∧
    ∀ s' : Store, Relation.ReflTransGen (BoundedStep env Set.univ) s s' →
      (∀ (r : UInt64) (registry : Registry), s.registries[r]? = some registry →
        s'.registries[r]? = some registry) ∧
      ∀ (r k i : UInt64) (v : Record), s.records[(r, k, i)]? = some v →
        ∃ w, s'.records[(r, k, i)]? = some w ∧ v.SameAnchor w ∧
          (w.isLatest = true → v.isLatest = true) ∧
          (w.isLatest = false ↔ (r, k, i + 1) ∈ s'.records) ∧
          (w.status ≠ v.status → ∃ (a : Store) (ctx : Ctx) (m : MsgUpdateRecordStatus),
            Relation.ReflTransGen (BoundedStep env Set.univ) s a ∧
            Relation.ReflTransGen (BoundedStep env Set.univ)
              (deliver env ctx (.updateRecordStatus (some m)) a) s' ∧
            handle env ctx (.updateRecordStatus (some m)) a =
              .ok (.empty, deliver env ctx (.updateRecordStatus (some m)) a) ∧
            m.registryId = r ∧ m.recordId = k ∧ m.index = i) := by
  have inv := h.storeInv
  refine ⟨fun ctx msg hmax => ?_, fun s' run => ?_⟩
  · have hd := delivered env ctx msg s
    have hext := inv.extends hmax hd
    refine ⟨hext.registries, fun r k i v hv => ?_⟩
    obtain ⟨w, hw, hsame, hlatest⟩ := hext.records r k i v hv
    exact ⟨w, hw, hsame, hlatest, inv.latest_lost_iff hmax hd hv hw,
      inv.status_changed hmax hd hv hw⟩
  · have hext := h.extends run
    refine ⟨hext.registries, fun r k i v hv => ?_⟩
    obtain ⟨w, hw, hsame, hlatest⟩ := hext.records r k i v hv
    have inv' : StoreInv s' := Reachable.storeInv (Transition.Reachable.trans h run)
    exact ⟨w, hw, hsame, hlatest, inv'.not_latest_iff hw, h.status_changed run hv hw⟩

/-- Adding the record of the small run once more keeps its second version, as one that is not the
latest. -/
theorem history_append_only_smallStore :
    smallStore.CountersBelowMax ∧
      ∀ (r k i : UInt64) (v : Record), smallStore.records[(r, k, i)]? = some v →
        ∃ w, (deliver smallEnv smallCtx (.addRecord (some ⟨str "nvnm1qyfcvmjm",
          some (smallRecord "c0")⟩)) smallStore).records[(r, k, i)]? = some w ∧ v.SameAnchor w := by
  have hmax : smallStore.CountersBelowMax := by decide +kernel
  refine ⟨hmax, fun r k i v hv => ?_⟩
  obtain ⟨w, hw, hsame, -⟩ := ((history_append_only reachable_smallStore).1 smallCtx
    (.addRecord (some ⟨str "nvnm1qyfcvmjm", some (smallRecord "c0")⟩)) hmax).2 r k i v hv
  exact ⟨w, hw, hsame⟩

end Nvnmchain
