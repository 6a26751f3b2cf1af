import Nvnmchain.Anchoring.Represents
import Nvnmchain.Anchoring.Stored
import Nvnmchain.Anchoring.Commute

/-!
# The message server is the ledger

From stores of a run that hold a ledger, the message server and the ledger do alike: both refuse a
message, or both answer it the same and the store left holds the ledger left (`handle_alike`). So over
a whole run the message server gives the answers of the ledger (`anchoring_refines_ledger`).

Nothing is left out of a store but the admins of roles (`store_determined`): two stores of runs that
hold one ledger differ in no other collection, so nothing a message or a query reads tells them apart.

The hash has to tell apart the role names that the run reads or writes, and no counter may stand at
its last value. Which error a refused message gets is not part of the ledger.
-/

set_option autoImplicit false

namespace Nvnmchain

open Go (Bytes str)
open Collections
open NumberedList
open Ledger
open Simulation (Alike)

/-- The ledger answers the requests it accepts. -/
theorem Ledger.machine_eq_some {env : Env} {ctx : Ctx} {msg : Msg} {L L' : Ledger} {o : Response} :
    Ledger.machine env (ctx, msg) L = some (o, L') ↔
      ∃ q, msg.request env ctx = some q ∧ L.Accepts q ∧ L.answer q = o ∧ L.apply q = L' := by
  unfold Ledger.machine
  rw [Option.bind_eq_some_iff]
  refine exists_congr fun q => and_congr_right fun _ => ?_
  constructor
  · intro e
    split at e
    · rename_i haccepts
      cases e
      exact ⟨haccepts, rfl, rfl⟩
    · cases e
  · rintro ⟨haccepts, rfl, rfl⟩
    exact if_pos haccepts

/-- What it takes for a handler and the ledger to do alike: an accepted message is a request that the
ledger accepts and answers the same, and a request that the ledger accepts is accepted. -/
theorem alike_of_accepted {env : Env} {names : Set Bytes} {ctx : Ctx} {msg : Msg} {s : Store}
    {L : Ledger}
    (forward : ∀ r s', handle env ctx msg s = .ok (r, s') → ∃ q, msg.request env ctx = some q ∧
      L.Accepts q ∧ L.answer q = r ∧ Represents env names s' (L.apply q))
    (backward : ∀ q, msg.request env ctx = some q → L.Accepts q → ∃ out, handle env ctx msg s = .ok out) :
    Alike (Represents env names) (handle env ctx msg s).toOption (Ledger.machine env (ctx, msg) L) := by
  cases hrun : handle env ctx msg s with
  | ok out =>
    obtain ⟨r, s'⟩ := out
    obtain ⟨q, hq, haccepts, rfl, hrep⟩ := forward r s' hrun
    rw [Ledger.machine_eq_some.mpr ⟨q, hq, haccepts, rfl, rfl⟩]
    exact .answered _ hrep
  | error e =>
    cases hledger : Ledger.machine env (ctx, msg) L with
    | none => exact .refused
    | some out =>
      obtain ⟨q, hq, haccepts, -⟩ := Ledger.machine_eq_some.mp hledger
      obtain ⟨out', hok⟩ := backward q hq haccepts
      cases hrun.symm.trans hok

/-! ## Permissions -/

/-- A grant without a checksum is one of the registry. -/
theorem name_registry (r : UInt64) (role account : Bytes) :
    (Grant.mk r [] role account).name = registryRoleName r role := by
  simp [Grant.name, MsgServer.scopedRoleName, MsgServer.isRecordRole]

/-- A grant with a checksum is one of the record. -/
theorem name_record {r : UInt64} {checksum : Bytes} (hr : r ≠ 0) (hc : checksum ≠ [])
    (role account : Bytes) : (Grant.mk r checksum role account).name = recordRoleName r checksum role := by
  simp [Grant.name, MsgServer.scopedRoleName, MsgServer.isRecordRole, hr, hc]

/-- A permission check passes when the account holds a required role in either scope. -/
theorem checkPermission_eq_ok {env : Env} {s : Store} {sender checksum : Bytes} {r : UInt64}
    {roles : List Bytes} {u : Unit} (hc : checksum ≠ []) (hroles : roles ≠ []) :
    checkPermission env s sender r checksum roles = .ok u ↔
      ∃ role ∈ roles, s.rbac.hasRole (recordRole env r checksum role) sender = true ∨
        s.rbac.hasRole (registryRole env r role) sender = true := by
  have hlen : roles.length ≠ 0 := fun e => hroles (List.length_eq_zero_iff.mp e)
  unfold checkPermission checkRecordRoles checkRegistryRoles
  rw [if_neg (not_or.mpr ⟨hc, hlen⟩), if_neg hlen]
  simp only [and_or_left, exists_or, ← List.any_eq_true]
  split
  · rename_i hrecord
    exact ⟨fun _ => .inl hrecord, fun _ => rfl⟩
  · rename_i hrecord
    split
    · rename_i hregistry
      exact ⟨fun _ => .inr hregistry, fun _ => rfl⟩
    · rename_i hregistry
      constructor
      · intro e
        cases e
      · intro hany
        exact absurd hany (not_or.mpr ⟨hrecord, hregistry⟩)

/-- Two members make an admin not the only one. -/
theorem isSoleAdmin_false {k : Rbac} {role : Role} {a b : Bytes} (ha : k.hasRole role a = true)
    (hb : k.hasRole role b = true) (hne : a ≠ b) : k.isSoleAdmin role = .ok false := by
  have hmem : ∀ x, k.hasRole role x = true → ∃ v, ((role, x), v) ∈ k.roleMembers.prefixed role := by
    intro x hx
    obtain ⟨v, hv⟩ := Map.mem_iff.mp (Rbac.hasRole_iff.mp hx)
    exact ⟨v, List.mem_filter.mpr
      ⟨Std.ExtTreeMap.mem_toList_iff_getElem?_eq_some.mpr hv, by simp⟩⟩
  rw [Rbac.isSoleAdmin_eq]
  refine congrArg Except.ok (decide_eq_false fun hone => hne ?_)
  obtain ⟨e, he⟩ := List.length_eq_one_iff.mp hone
  obtain ⟨v, hv⟩ := hmem a ha
  obtain ⟨w, hw⟩ := hmem b hb
  rw [he, List.mem_singleton] at hv hw
  exact congrArg (fun e => e.1.2) (hv.trans hw.symm)

namespace Represents

variable {env : Env} {names : Set Bytes} {s : Store} {L : Ledger}

/-- The permission check of the keeper is the ledger's rule for edits. -/
theorem mayEdit_iff (h : Represents env names s L) (hcf : Set.InjOn env.keccak256 names)
    {r : UInt64} {checksum account : Bytes} {u : Unit} (hr : r ≠ 0) (hc : checksum ≠ [])
    (hnames : ∀ name ∈ permissionNames r checksum, name ∈ names) :
    checkPermission env s account r checksum [roleAdmin, roleEditor] = .ok u ↔
      L.MayEdit r checksum account := by
  rw [checkPermission_eq_ok hc (List.cons_ne_nil _ _)]
  refine exists_congr fun role => and_congr_right fun hrole => or_congr ?_ ?_
  · have hname : (Grant.mk r checksum role account).name ∈ names := by
      rw [name_record hr hc]
      refine hnames _ ?_
      simp only [List.mem_cons, List.not_mem_nil, or_false] at hrole
      rcases hrole with rfl | rfl
      · simp [permissionNames]
      · simp [permissionNames]
    rw [← h.hasRole_iff hcf hname hr, name_record hr hc]
    rfl
  · have hname : (Grant.mk r [] role account).name ∈ names := by
      rw [name_registry]
      refine hnames _ ?_
      simp only [List.mem_cons, List.not_mem_nil, or_false] at hrole
      rcases hrole with rfl | rfl
      · simp [permissionNames]
      · simp [permissionNames]
    rw [← h.hasRole_iff hcf hname hr, name_registry]
    rfl

/-- The admin role of the keeper is the ledger's grant. -/
theorem isAdmin_iff (h : Represents env names s L) (hcf : Set.InjOn env.keccak256 names)
    {r : UInt64} {account : Bytes} (hr : r ≠ 0) (hname : registryRoleName r roleAdmin ∈ names) :
    s.rbac.hasRole (registryRole env r roleAdmin) account = true ↔ L.IsAdmin r account := by
  have hadmin : (adminGrant r account).name ∈ names := (name_adminGrant r account).symm ▸ hname
  rw [Ledger.IsAdmin, ← h.hasRole_iff hcf hadmin hr, name_adminGrant]
  rfl

/-- The scope check is the ledger's, where every indexed checksum encodes as a key. -/
theorem inScope_iff (h : Represents env names s L) (hstored : StoredInv env s) {g : Grant} {u : Unit}
    (hr : g.registryId ≠ 0) :
    MsgServer.ensureRoleScopeExists s g.registryId g.checksum = .ok u ↔ L.InScope g := by
  rw [ensureRoleScopeExists_eq_ok hr, h.mem_registries, Option.isSome_iff_exists]
  constructor
  · rintro ⟨⟨b, hb⟩, hscope⟩
    refine ⟨b, hb, fun hc => (h.mem_checksums hb).mp ?_⟩
    have hindexed := (hscope hc).2
    rw [Std.ExtTreeMap.mem_iff_isSome_getElem?, h.swapped] at hindexed
    exact Std.ExtTreeMap.mem_iff_isSome_getElem?.mpr hindexed
  · rintro ⟨b, hb, hscope⟩
    refine ⟨⟨b, hb⟩, fun hc => ?_⟩
    have hindexed := (h.mem_checksums hb).mpr (hscope hc)
    refine ⟨hstored.checksums _ _ hindexed, ?_⟩
    rw [Std.ExtTreeMap.mem_iff_isSome_getElem?, h.swapped]
    exact Std.ExtTreeMap.mem_iff_isSome_getElem?.mp hindexed

end Represents

/-! ## The six messages -/

section Messages

variable {env : Env} {names : Set Bytes} {ctx : Ctx} {s : Store} {L : Ledger}

/-- `UpdateParams` hands the ledger over. -/
theorem alike_updateParams (h : Represents env names s L) (hstored : StoredInv env s)
    (m : MsgUpdateParams) :
    Alike (Represents env names) (handle env ctx (.updateParams m) s).toOption
      (Ledger.machine env (ctx, .updateParams m) L) := by
  refine alike_of_accepted (fun r s' hrun => ?_) (fun q hq haccepts => ?_)
  · obtain ⟨s₂, hrun, e⟩ := bind_eq_ok.mp hrun
    cases e
    obtain ⟨_, hauthority, hrun⟩ := bind_eq_ok.mp hrun
    obtain ⟨params, hparams, hrun⟩ := bind_eq_ok.mp hrun
    obtain ⟨_, hsigner, hrun⟩ := bind_eq_ok.mp hrun
    obtain ⟨params', hparams', hrun⟩ := bind_eq_ok.mp hrun
    obtain ⟨_, hvalid, hrun⟩ := bind_eq_ok.mp hrun
    cases hrun
    rw [h.params] at hparams hparams'
    cases hparams
    cases hparams'
    have hsigner : m.authority = L.admin := by simpa using require_eq_ok.mp hsigner
    by_cases hadmin : m.admin = []
    · refine ⟨.handOver m.authority none, ?_, hsigner, rfl, ?_⟩
      · simp only [Msg.request, Option.bind_eq_bind, Option.bind_eq_some_iff, toOption_eq_some, hadmin,
          if_true]
        exact ⟨_, mapError_eq_ok.mp hauthority, rfl⟩
      · simp only [hadmin, ne_eq, not_true_eq_false, if_false]
        exact h.handOver L.admin
    · refine ⟨.handOver m.authority (some m.admin), ?_, hsigner, rfl, ?_⟩
      · simp only [ne_eq, hadmin, not_false_eq_true, if_true] at hvalid
        simp only [Msg.request, Option.bind_eq_bind, Option.bind_eq_some_iff, toOption_eq_some, hadmin,
          if_false]
        exact ⟨_, mapError_eq_ok.mp hauthority, (), hvalid, rfl⟩
      · simp only [ne_eq, hadmin, not_false_eq_true, if_true]
        exact h.handOver m.admin
  · simp only [Msg.request, Option.bind_eq_bind, Option.bind_eq_some_iff, toOption_eq_some] at hq
    obtain ⟨account, hauthority, hq⟩ := hq
    have hvalid : (if m.admin ≠ [] then ({ admin := m.admin } : Params)
        else ⟨L.admin⟩).validate env = .ok () := by
      obtain ⟨params, hparams, hvalid⟩ := hstored.params
      cases h.params.symm.trans hparams
      split
      · rename_i hadmin
        rw [if_neg hadmin] at hq
        obtain ⟨_, hnew, -⟩ := Option.bind_eq_some_iff.mp hq
        exact toOption_eq_some.mp hnew
      · exact hvalid
    have hsigner : m.authority = L.admin := by
      split at hq
      · cases hq
        exact haccepts
      · obtain ⟨_, _, e⟩ := Option.bind_eq_some_iff.mp hq
        cases e
        exact haccepts
    refine ⟨_, bind_eq_ok.mpr ⟨_, bind_eq_ok.mpr ⟨account, mapError_eq_ok.mpr hauthority,
      bind_eq_ok.mpr ⟨⟨L.admin⟩, getOrNotFound_eq_ok.mpr h.params, bind_eq_ok.mpr ⟨(),
        require_eq_ok.mpr (by simpa using hsigner), bind_eq_ok.mpr ⟨⟨L.admin⟩,
          getOrNotFound_eq_ok.mpr h.params, bind_eq_ok.mpr ⟨(), hvalid, rfl⟩⟩⟩⟩⟩, rfl⟩⟩

/-- `AddRegistry` opens a book. -/
theorem alike_addRegistry (h : Represents env names s L) (hmax : s.CountersBelowMax)
    (req : Option MsgAddRegistry)
    (hnames : ∀ name ∈ (Msg.addRegistry req).namesUsed s, name ∈ names) :
    Alike (Represents env names) (handle env ctx (.addRegistry req) s).toOption
      (Ledger.machine env (ctx, .addRegistry req) L) := by
  obtain ⟨n, hn, hlen⟩ := h.exists_count
  have hname : registryRoleName (n + 1) roleAdmin ∈ names :=
    hnames _ (by simp [Msg.namesUsed, Msg.roleNames, hn])
  refine alike_of_accepted (fun r s' hrun => ?_) (fun q hq _ => ?_)
  · obtain ⟨⟨id, s₂⟩, hrun, e⟩ := bind_eq_ok.mp hrun
    cases e
    cases req with
    | none => cases hrun
    | some m =>
      obtain ⟨_, hvalid, hrun⟩ := bind_eq_ok.mp hrun
      obtain ⟨sender, hsender, hrun⟩ := bind_eq_ok.mp hrun
      obtain ⟨_, _, hrun⟩ := bind_eq_ok.mp hrun
      obtain ⟨count, hcount, hrun⟩ := bind_eq_ok.mp hrun
      obtain ⟨creator, hcreator, hrun⟩ := bind_eq_ok.mp hrun
      cases hrun
      cases hn.symm.trans (getOrNotFound_eq_ok.mp hcount)
      have hid : UInt64.ofNat (L.books.length + 1) = n + 1 := by
        rw [← hlen, ← Represents.toNat_add_one (hmax.registries n hn), UInt64.ofNat_toNat]
      refine ⟨.create creator (m.entry env ctx sender), ?_, trivial, ?_,
        h.create hn (hmax.registries n hn) hname (m.entry env ctx sender) creator⟩
      · simp only [Msg.request, Option.bind_eq_bind, Option.bind_eq_some_iff, toOption_eq_some]
        exact ⟨(), wrapInvalidRequest_eq_ok.mp hvalid, sender, hsender, creator, hcreator, rfl⟩
      · simp only [Ledger.answer, hid]
  · cases req with
    | none => cases hq
    | some m =>
      simp only [Msg.request, Option.bind_eq_bind, Option.bind_eq_some_iff, toOption_eq_some] at hq
      obtain ⟨_, hvalid, sender, hsender, creator, hcreator, -⟩ := hq
      obtain ⟨_, _, hcreate⟩ := bind_eq_ok.mp hvalid
      refine ⟨_, bind_eq_ok.mpr ⟨_, bind_eq_ok.mpr ⟨(), wrapInvalidRequest_eq_ok.mpr hvalid,
        bind_eq_ok.mpr ⟨sender, hsender, bind_eq_ok.mpr ⟨(), wrapInvalidRequest_eq_ok.mpr hcreate,
          bind_eq_ok.mpr ⟨n, getOrNotFound_eq_ok.mpr hn,
            bind_eq_ok.mpr ⟨creator, hcreator, rfl⟩⟩⟩⟩⟩, rfl⟩⟩

/-- The document of a checksum is found under its number. -/
theorem recordId_of_numbered {b : Book} {k : UInt64} {d : Document}
    (hd : numbered b.documents k = some d) : b.recordId d.checksum = k := by
  have hk : k ≠ 0 := by
    rintro rfl
    cases hd
  have hpos := toNat_pos hk
  rw [numbered_of_ne_zero _ hk] at hd
  obtain ⟨hlt, hget⟩ := List.getElem?_eq_some_iff.mp hd
  have hidx : b.documents.findIdx (·.checksum = d.checksum) = k.toNat - 1 := by
    refine (List.findIdx_eq hlt).mpr ⟨by simp [hget], fun j hj => ?_⟩
    have hne := List.pairwise_iff_getElem.mp b.distinct j (k.toNat - 1)
      (by simp; omega) (by simpa using hlt) hj
    simpa [hget] using hne
  rw [Book.recordId, hidx, Nat.sub_add_cancel hpos, UInt64.ofNat_toNat]

/-- A checksum that is not in a book gets the next number. -/
theorem recordId_of_new {b : Book} {c : Bytes} (hc : c ∉ b.checksums) :
    b.recordId c = .ofNat (b.documents.length + 1) := by
  have hidx : b.documents.findIdx (·.checksum = c) = b.documents.length := by
    refine List.findIdx_eq_length.mpr fun d hd => ?_
    have hne : d.checksum ≠ c := fun e => hc (e ▸ List.mem_map_of_mem hd)
    simpa using hne
  rw [Book.recordId, hidx]

/-- A store in good order takes a record of every registry it has, unless its checksum is no key. -/
theorem StoreInv.exists_anchored {s : Store} (hstore : StoreInv s) (hmax : s.CountersBelowMax)
    (ctx : Ctx) {record : Record} (known : record.registryId ∈ s.registries)
    (encodes : (0 : UInt8) ∉ record.checksum) :
    ∃ k s₁ s₂, s.assignRecordId record.registryId record.checksum = .ok (k, s₁) ∧
      s₁.storeVersion ctx k record = .ok s₂ := by
  cases hk : s.recordIdByRegistryAndChecksum[(record.registryId, record.checksum)]? with
  | some k =>
    obtain ⟨i, hi⟩ := Map.mem_iff.mp ((hstore.numbered record.registryId k).mp ⟨_, hk⟩)
    obtain ⟨prev, hprev⟩ := hstore.latest_stored hi
    have hnext : s.nextIndex record.registryId k = i + 1 := by simp only [Store.nextIndex, hi]
    have hlt := lt_add_one_of_ne_counterMax (hmax.versions _ _ _ hi)
    have hgt : i + 1 > 1 := UInt64.lt_of_le_of_lt (hstore.versioned _ _ _ hi) hlt
    have hsub : i + 1 - 1 = i := by grind
    refine ⟨k, s, _, assignRecordId_eq_ok.mpr (.inl ⟨hk, rfl⟩), storeVersion_eq_ok.mpr (.inr ⟨?_, prev, ?_, rfl⟩)⟩
    · rw [hnext]
      exact hgt
    · rw [hnext, hsub]
      exact hprev
  | none =>
    obtain ⟨count, hcount⟩ := Map.mem_iff.mp ((hstore.counts _).mpr known)
    have hnext : (s.withChecksum record.registryId record.checksum (count + 1)).nextIndex
        record.registryId (count + 1) = 1 := by
      simp only [Store.nextIndex, Store.withChecksum,
        hstore.index_none hcount (hmax.records _ _ hcount)]
    refine ⟨count + 1, _, _, assignRecordId_eq_ok.mpr (.inr ⟨hk, count, hcount, encodes, rfl, rfl⟩),
      storeVersion_eq_ok.mpr (.inl ⟨?_, rfl⟩)⟩
    rw [hnext]
    decide

/-- The record of a message that passed its checks passes the keeper's. -/
theorem validateRecordForCreate_of_validateBasic {m : MsgAddRecord} {record : Record}
    (h : m.validateBasic env = .ok record) : validateRecordForCreate record = .ok () := by
  have hcarries := record_of_validateBasic h
  obtain ⟨_, _, h⟩ := bind_eq_ok.mp h
  rw [hcarries] at h
  obtain ⟨_, hvalid, _⟩ := bind_eq_ok.mp h
  exact hvalid

/-- `AddRecord` anchors a version. -/
theorem alike_addRecord (hcf : Set.InjOn env.keccak256 names) (h : Represents env names s L)
    (hstore : StoreInv s) (hinv : StoredInv env s) (hmax : s.CountersBelowMax)
    (req : Option MsgAddRecord)
    (hnames : ∀ name ∈ (Msg.addRecord req).namesUsed s, name ∈ names) :
    Alike (Represents env names) (handle env ctx (.addRecord req) s).toOption
      (Ledger.machine env (ctx, .addRecord req) L) := by
  refine alike_of_accepted (fun r s' hrun => ?_) (fun q hq haccepts => ?_)
  · obtain ⟨⟨id, s₂⟩, hrun, e⟩ := bind_eq_ok.mp hrun
    cases e
    cases req with
    | none => cases hrun
    | some m =>
      obtain ⟨record, hvalid, hrun⟩ := bind_eq_ok.mp hrun
      obtain ⟨sender, hsender, hrun⟩ := bind_eq_ok.mp hrun
      obtain ⟨_, hcreate, hrun⟩ := bind_eq_ok.mp hrun
      obtain ⟨registry, hknown, hrun⟩ := bind_eq_ok.mp hrun
      obtain ⟨_, hpermitted, hrun⟩ := bind_eq_ok.mp hrun
      obtain ⟨⟨k, s₁⟩, hassigned, hrun⟩ := bind_eq_ok.mp hrun
      obtain ⟨s₂, hstored, hrun⟩ := bind_eq_ok.mp hrun
      cases hrun
      have hvalid := wrapInvalidRequest_eq_ok.mp hvalid
      have hcreatable := validateRecordForCreate_eq_ok.mp (wrapInvalidRequest_eq_ok.mp hcreate)
      have hused : ∀ name ∈ permissionNames record.registryId record.checksum, name ∈ names := by
        simpa [Msg.namesUsed, record_of_validateBasic hvalid] using hnames
      have hedit := (h.mayEdit_iff hcf hcreatable.registryId hcreatable.checksum hused).mp hpermitted
      have hsome := h.mem_registries.mp (Map.mem_of_get? (getOrNotFound_eq_ok.mp hknown))
      obtain ⟨b, hb⟩ := Option.isSome_iff_exists.mp hsome
      refine ⟨.anchor sender record.registryId record.checksum (record.version ctx), ?_, ?_⟩
      · simp only [Msg.request, Option.bind_eq_bind, Option.bind_eq_some_iff, toOption_eq_some]
        exact ⟨record, hvalid, sender, hsender, rfl⟩
      · cases hstore.anchored hmax hassigned hstored with
        | @first count fresh counted encodes =>
          have hnew : record.checksum ∉ b.checksums := fun hc =>
            Map.notMem_iff.mpr fresh ((h.mem_checksums hb).mpr hc)
          have hcountMax := hmax.records _ _ counted
          refine ⟨⟨hsome, hedit, encodes⟩, ?_, h.anchor_first hb fresh counted hcountMax sender⟩
          obtain ⟨n, hn, hlen⟩ := h.exists_documents hb
          cases counted.symm.trans hn
          simp only [Ledger.answer, hb, Option.map_some, Option.getD_some, recordId_of_new hnew, ← hlen,
            ← Represents.toNat_add_one hcountMax, UInt64.ofNat_toNat]
        | next numbered indexed previous =>
          obtain ⟨d, hd, hchecksum⟩ := (h.checksums _ _ _).mp numbered
          have hbd := (Represents.document?_eq hb _).symm.trans hd
          have hencodes := hinv.checksums _ _ (Map.mem_of_get? numbered)
          refine ⟨⟨hsome, hedit, hencodes⟩, ?_,
            h.anchor_next numbered indexed previous (hmax.versions _ _ _ indexed) sender⟩
          simp only [Ledger.answer, hb, Option.map_some, Option.getD_some, ← hchecksum,
            recordId_of_numbered hbd]
  · cases req with
    | none => cases hq
    | some m =>
      simp only [Msg.request, Option.bind_eq_bind, Option.bind_eq_some_iff, toOption_eq_some] at hq
      obtain ⟨record, hvalid, sender, hsender, e⟩ := hq
      cases e
      obtain ⟨hsome, hedit, hencodes⟩ := haccepts
      have hcreate := validateRecordForCreate_of_validateBasic hvalid
      have hcreatable := validateRecordForCreate_eq_ok.mp hcreate
      have hused : ∀ name ∈ permissionNames record.registryId record.checksum, name ∈ names := by
        simpa [Msg.namesUsed, record_of_validateBasic hvalid] using hnames
      have hknown := h.mem_registries.mpr hsome
      obtain ⟨registry, hregistry⟩ := Map.mem_iff.mp hknown
      have hpermitted := (h.mayEdit_iff (u := ()) hcf hcreatable.registryId hcreatable.checksum hused).mpr hedit
      obtain ⟨k, s₁, s₂, hassigned, hstored⟩ := hstore.exists_anchored hmax ctx hknown hencodes
      exact ⟨_, bind_eq_ok.mpr ⟨_, bind_eq_ok.mpr ⟨record, wrapInvalidRequest_eq_ok.mpr hvalid,
        bind_eq_ok.mpr ⟨sender, hsender, bind_eq_ok.mpr ⟨(), wrapInvalidRequest_eq_ok.mpr hcreate,
          bind_eq_ok.mpr ⟨registry, getOrNotFound_eq_ok.mpr hregistry, bind_eq_ok.mpr ⟨(), hpermitted,
            bind_eq_ok.mpr ⟨(k, s₁), hassigned, bind_eq_ok.mpr ⟨s₂, hstored, rfl⟩⟩⟩⟩⟩⟩⟩, rfl⟩⟩

/-- A status message that passed its checks names a registry, and a status that can be set. -/
theorem updateRecordStatus_checked {m : MsgUpdateRecordStatus} {u : Unit}
    (h : m.validateBasic env = .ok u) :
    m.registryId ≠ 0 ∧ validateRecordStatus m.status = .ok () := by
  obtain ⟨_, _, h⟩ := bind_eq_ok.mp h
  obtain ⟨_, _, h⟩ := bind_eq_ok.mp h
  obtain ⟨_, hstatus, h⟩ := bind_eq_ok.mp h
  obtain ⟨_, hid, _⟩ := bind_eq_ok.mp h
  exact ⟨by simpa using refuseIf_eq_ok.mp hid, hstatus⟩

/-- A stored record is a version of a document with its checksum. -/
theorem Represents.exists_version (h : Represents env names s L) {r k i : UInt64} {record : Record}
    (hrecord : s.records[(r, k, i)]? = some record) :
    ∃ d ∈ L.document? r k, (numbered d.versions i).isSome ∧ d.checksum = record.checksum := by
  obtain ⟨d, hd, hdi⟩ := Option.bind_eq_some_iff.mp ((h.records r k i).symm.trans hrecord)
  obtain ⟨v, hv, rfl⟩ := Option.map_eq_some_iff.mp hdi
  exact ⟨d, hd, Option.isSome_iff_exists.mpr ⟨v, hv⟩, rfl⟩

/-- `UpdateRecordStatus` sets the status of a version. -/
theorem alike_updateRecordStatus (hcf : Set.InjOn env.keccak256 names)
    (h : Represents env names s L) (hinv : StoredInv env s) (req : Option MsgUpdateRecordStatus)
    (hnames : ∀ name ∈ (Msg.updateRecordStatus req).namesUsed s, name ∈ names) :
    Alike (Represents env names) (handle env ctx (.updateRecordStatus req) s).toOption
      (Ledger.machine env (ctx, .updateRecordStatus req) L) := by
  refine alike_of_accepted (fun r s' hrun => ?_) (fun q hq haccepts => ?_)
  · obtain ⟨s₂, hrun, e⟩ := bind_eq_ok.mp hrun
    cases e
    cases req with
    | none => cases hrun
    | some m =>
      obtain ⟨_, hvalid, hrun⟩ := bind_eq_ok.mp hrun
      obtain ⟨editor, heditor, hrun⟩ := bind_eq_ok.mp hrun
      obtain ⟨_, _, hrun⟩ := bind_eq_ok.mp hrun
      obtain ⟨record, hfound, hrun⟩ := bind_eq_ok.mp hrun
      obtain ⟨_, hpermitted, hrun⟩ := bind_eq_ok.mp hrun
      cases hrun
      have hvalid := wrapInvalidRequest_eq_ok.mp hvalid
      have hfound := getOrNotFound_eq_ok.mp hfound
      have hid := (updateRecordStatus_checked hvalid).1
      have hused : ∀ name ∈ permissionNames m.registryId record.checksum, name ∈ names := by
        simpa [Msg.namesUsed, hfound] using hnames
      obtain ⟨d, hd, hversion, hchecksum⟩ := h.exists_version hfound
      have hedit := (h.mayEdit_iff hcf hid (hinv.records _ _ _ _ hfound).creatable.checksum hused).mp
        hpermitted
      refine ⟨.setStatus editor m.registryId m.recordId m.index m.status, ?_,
        ⟨d, hd, hversion, hchecksum ▸ hedit⟩, rfl, h.setStatus hfound editor m.status⟩
      simp only [Msg.request, Option.bind_eq_bind, Option.bind_eq_some_iff, toOption_eq_some]
      exact ⟨(), hvalid, editor, heditor, rfl⟩
  · cases req with
    | none => cases hq
    | some m =>
      simp only [Msg.request, Option.bind_eq_bind, Option.bind_eq_some_iff, toOption_eq_some] at hq
      obtain ⟨_, hvalid, editor, heditor, e⟩ := hq
      cases e
      obtain ⟨d, hd, hversion, hedit⟩ := haccepts
      obtain ⟨hid, hstatus⟩ := updateRecordStatus_checked hvalid
      obtain ⟨v, hv⟩ := Option.isSome_iff_exists.mp hversion
      have hd : L.document? m.registryId m.recordId = some d := hd
      have hfound : s.records[(m.registryId, m.recordId, m.index)]? = some (v.record d.checksum
          m.registryId m.recordId m.index (m.index.toNat = d.versions.length)) := by
        rw [h.records, hd, Option.bind_some, Document.record?, hv, Option.map_some]
      have hused : ∀ name ∈ permissionNames m.registryId d.checksum, name ∈ names := by
        simpa [Msg.namesUsed, hfound, Version.record] using hnames
      have hpermitted := (h.mayEdit_iff (u := ()) hcf hid
        (hinv.records _ _ _ _ hfound).creatable.checksum hused).mpr hedit
      exact ⟨_, bind_eq_ok.mpr ⟨_, bind_eq_ok.mpr ⟨(), wrapInvalidRequest_eq_ok.mpr hvalid,
        bind_eq_ok.mpr ⟨editor, heditor, bind_eq_ok.mpr ⟨(), wrapInvalidRequest_eq_ok.mpr hstatus,
          bind_eq_ok.mpr ⟨_, getOrNotFound_eq_ok.mpr hfound,
            bind_eq_ok.mpr ⟨(), hpermitted, rfl⟩⟩⟩⟩⟩, rfl⟩⟩

/-- The module admin may make an account a registry's admin, and a registry's admin may grant every
role of the registry. -/
theorem grantRole_succeeds {m : MsgGrantRole} {granter grantee : Bytes} {params : Params}
    (hvalid : m.validateBasic env = .ok ()) (hgranter : env.stringToBytes m.admin = .ok granter)
    (hgrantee : env.stringToBytes m.address = .ok grantee)
    (inScope : MsgServer.ensureRoleScopeExists s m.registryId m.checksum = .ok ())
    (hparams : s.params = some params)
    (hallowed : (m.checksum = [] ∧ m.role = roleAdmin ∧ params.admin = m.admin) ∨
      s.rbac.hasRole (registryRole env m.registryId roleAdmin) granter = true) :
    ∃ s', MsgServer.grantRole env (some m) s = .ok s' := by
  have nonzero := registryId_ne_zero_of_validateRoleMsg hvalid
  by_cases hmodule : m.checksum = [] ∧ m.role = roleAdmin ∧ params.admin = m.admin
  · obtain ⟨hchecksum, hrole, hadmin⟩ := hmodule
    refine ⟨_, bind_eq_ok.mpr ⟨(), wrapInvalidRequest_eq_ok.mpr hvalid, bind_eq_ok.mpr ⟨granter, hgranter,
      bind_eq_ok.mpr ⟨grantee, hgrantee, bind_eq_ok.mpr ⟨(), inScope,
        bind_eq_ok.mpr ⟨true, ?_, rfl⟩⟩⟩⟩⟩⟩
    simp only [isRecordRole_eq nonzero, hchecksum, hrole, ne_eq, not_true_eq_false, decide_false,
      Bool.not_false, decide_true, Bool.and_self, if_true]
    exact bind_eq_ok.mpr ⟨params, getOrNotFound_eq_ok.mpr hparams,
      congrArg Except.ok (decide_eq_true hadmin)⟩
  · have hhas := hallowed.resolve_left hmodule
    have hgrant : ∀ role, (s.rbac.setRoleAdmin role (registryRole env m.registryId
        roleAdmin)).grantRole env role grantee granter = .ok ((s.rbac.setRoleAdmin role
          (registryRole env m.registryId roleAdmin)).grantRoleUnchecked role grantee) := fun role =>
      Rbac.grantRole_eq_ok.mpr ⟨⟨_, Std.ExtTreeMap.getElem?_insert_self,
        by rw [Eth.bytesToHash_bytes]; exact hhas⟩, rfl⟩
    refine ⟨_, bind_eq_ok.mpr ⟨(), wrapInvalidRequest_eq_ok.mpr hvalid, bind_eq_ok.mpr ⟨granter, hgranter,
      bind_eq_ok.mpr ⟨grantee, hgrantee, bind_eq_ok.mpr ⟨(), inScope, bind_eq_ok.mpr ⟨false, ?_,
        bind_eq_ok.mpr ⟨_, hgrant _, rfl⟩⟩⟩⟩⟩⟩⟩
    rw [isRecordRole_eq nonzero]
    split
    · rename_i hcond
      simp only [Bool.and_eq_true, Bool.not_eq_true', decide_eq_false_iff_not, decide_eq_true_eq,
        ne_eq, not_not] at hcond
      exact bind_eq_ok.mpr ⟨params, getOrNotFound_eq_ok.mpr hparams,
        congrArg Except.ok (decide_eq_false fun e => hmodule ⟨hcond.1, hcond.2, e⟩)⟩
    · rfl

/-- `GrantRole` adds a grant. -/
theorem alike_grantRole (hcf : Set.InjOn env.keccak256 names) (h : Represents env names s L)
    (hinv : StoredInv env s) (req : Option MsgGrantRole)
    (hnames : ∀ name ∈ (Msg.grantRole req).namesUsed s, name ∈ names) :
    Alike (Represents env names) (handle env ctx (.grantRole req) s).toOption
      (Ledger.machine env (ctx, .grantRole req) L) := by
  refine alike_of_accepted (fun r s' hrun => ?_) (fun q hq haccepts => ?_)
  · obtain ⟨s₂, hrun', e⟩ := bind_eq_ok.mp hrun
    cases e
    cases req with
    | none => cases hrun'
    | some m =>
      obtain ⟨_, hvalid, _⟩ := bind_eq_ok.mp hrun'
      have hvalid := wrapInvalidRequest_eq_ok.mp hvalid
      have hadmin : registryRoleName m.registryId roleAdmin ∈ names :=
        hnames _ (by simp [Msg.namesUsed, Msg.roleNames])
      have hd := delivered_grantRole hrun
      cases hd with
      | refused failed => cases failed.symm.trans hrun
      | @grantRole _ granter grantee signer grants nonzero inScope allowed =>
        refine ⟨.grant m.admin granter ⟨m.registryId, m.checksum, m.role, grantee⟩, ?_,
          ⟨(h.inScope_iff hinv nonzero).mp inScope, ?_⟩, rfl, ?_⟩
        · simp only [Msg.request, Option.bind_eq_bind, Option.bind_eq_some_iff, toOption_eq_some]
          exact ⟨(), hvalid, granter, signer, grantee, grants, rfl⟩
        · rcases allowed with ⟨hchecksum, hrole, params, hparams, hsigner⟩ | hhas
          · cases h.params.symm.trans hparams
            exact .inl ⟨hchecksum, hrole, hsigner.symm⟩
          · exact .inr ((h.isAdmin_iff hcf nonzero hadmin).mp hhas)
        · rw [MsgServer.scopedRole_eq]
          exact h.grant (g := ⟨m.registryId, m.checksum, m.role, grantee⟩)
            (hnames _ (by simp [Msg.namesUsed, Msg.roleNames, Grant.name])) nonzero _
  · cases req with
    | none => cases hq
    | some m =>
      simp only [Msg.request, Option.bind_eq_bind, Option.bind_eq_some_iff, toOption_eq_some] at hq
      obtain ⟨_, hvalid, granter, hgranter, grantee, hgrantee, e⟩ := hq
      cases e
      have nonzero := registryId_ne_zero_of_validateRoleMsg hvalid
      have hadmin : registryRoleName m.registryId roleAdmin ∈ names :=
        hnames _ (by simp [Msg.namesUsed, Msg.roleNames])
      obtain ⟨hscope, hallowed⟩ := haccepts
      have inScope := (h.inScope_iff (u := ()) hinv nonzero).mpr hscope
      obtain ⟨s', hs'⟩ := grantRole_succeeds hvalid hgranter hgrantee inScope h.params
        (hallowed.imp (fun hmodule => ⟨hmodule.1, hmodule.2.1, hmodule.2.2.symm⟩)
          (h.isAdmin_iff hcf nonzero hadmin).mpr)
      exact ⟨_, bind_eq_ok.mpr ⟨s', hs', rfl⟩⟩

/-- An admin of a registry may revoke a role of it, unless it is the last admin's. -/
theorem revokeRole_succeeds {m : MsgRevokeRole} {revoker revokee : Bytes}
    (hvalid : m.validateBasic env = .ok ()) (hrevoker : env.stringToBytes m.admin = .ok revoker)
    (hrevokee : env.stringToBytes m.address = .ok revokee)
    (inScope : MsgServer.ensureRoleScopeExists s m.registryId m.checksum = .ok ())
    (held : s.rbac.hasRole (MsgServer.scopedRole env m.registryId m.checksum m.role) revokee = true)
    (notLast : m.checksum = [] → m.role = roleAdmin →
      s.rbac.isSoleAdmin (registryRole env m.registryId roleAdmin) = .ok false)
    (administered : s.rbac.roleAdmins[MsgServer.scopedRole env m.registryId m.checksum m.role]? =
      some (registryRole env m.registryId roleAdmin).bytes)
    (allowed : s.rbac.hasRole (registryRole env m.registryId roleAdmin) revoker = true) :
    ∃ s', MsgServer.revokeRole env (some m) s = .ok s' := by
  have nonzero := registryId_ne_zero_of_validateRoleMsg hvalid
  have hrevoke : s.rbac.revokeRole env (MsgServer.scopedRole env m.registryId m.checksum m.role)
      revokee revoker = .ok (s.rbac.revokeRoleUnchecked
        (MsgServer.scopedRole env m.registryId m.checksum m.role) revokee) :=
    Rbac.revokeRole_eq_ok.mpr ⟨⟨_, administered, by rw [Eth.bytesToHash_bytes]; exact allowed⟩, rfl⟩
  refine ⟨_, bind_eq_ok.mpr ⟨(), wrapInvalidRequest_eq_ok.mpr hvalid, bind_eq_ok.mpr ⟨revoker, hrevoker,
    bind_eq_ok.mpr ⟨revokee, hrevokee, bind_eq_ok.mpr ⟨(), inScope, bind_eq_ok.mpr ⟨(),
      require_eq_ok.mpr held, bind_eq_ok.mpr ⟨false, ?_, bind_eq_ok.mpr ⟨(), rfl,
        bind_eq_ok.mpr ⟨_, hrevoke, rfl⟩⟩⟩⟩⟩⟩⟩⟩⟩
  rw [isRecordRole_eq nonzero]
  split
  · rename_i hcond
    simp only [Bool.and_eq_true, Bool.not_eq_true', decide_eq_false_iff_not, decide_eq_true_eq,
      ne_eq, not_not] at hcond
    exact notLast hcond.1 hcond.2
  · rfl

/-- `RevokeRole` takes a grant away. -/
theorem alike_revokeRole (hcf : Set.InjOn env.keccak256 names) (h : Represents env names s L)
    (hinv : StoredInv env s) (hroles : RoleInv env names s) (req : Option MsgRevokeRole)
    (hnames : ∀ name ∈ (Msg.revokeRole req).namesUsed s, name ∈ names) :
    Alike (Represents env names) (handle env ctx (.revokeRole req) s).toOption
      (Ledger.machine env (ctx, .revokeRole req) L) := by
  refine alike_of_accepted (fun r s' hrun => ?_) (fun q hq haccepts => ?_)
  · obtain ⟨s₂, hrun', e⟩ := bind_eq_ok.mp hrun
    cases e
    cases req with
    | none => cases hrun'
    | some m =>
      obtain ⟨_, hvalid, _⟩ := bind_eq_ok.mp hrun'
      have hvalid := wrapInvalidRequest_eq_ok.mp hvalid
      have hadmin : registryRoleName m.registryId roleAdmin ∈ names :=
        hnames _ (by simp [Msg.namesUsed, Msg.roleNames])
      have hscoped : MsgServer.scopedRoleName m.registryId m.checksum m.role ∈ names :=
        hnames _ (by simp [Msg.namesUsed, Msg.roleNames])
      cases delivered_revokeRole hrun with
      | refused failed => cases failed.symm.trans hrun
      | @revokeRole _ revoker revokee bz signer revokes nonzero inScope held notLast administered allowed =>
        rw [MsgServer.scopedRole_eq] at held administered ⊢
        have hheld := (h.hasRole_iff hcf (g := ⟨m.registryId, m.checksum, m.role, revokee⟩) hscoped
          nonzero).mp held
        -- the table names the registry's own admin role
        have htable := (hroles.admin_of_scopedTo hcf hscoped (scopedTo_scopedRoleName _ _ _) held).2
        cases htable.symm.trans administered
        rw [Eth.bytesToHash_bytes] at allowed
        refine ⟨.revoke revoker ⟨m.registryId, m.checksum, m.role, revokee⟩, ?_,
          ⟨(h.inScope_iff hinv nonzero).mp inScope, hheld, (h.isAdmin_iff hcf nonzero hadmin).mp allowed,
            ?_⟩, rfl, h.revoke (g := ⟨m.registryId, m.checksum, m.role, revokee⟩) hcf hscoped nonzero⟩
        · simp only [Msg.request, Option.bind_eq_bind, Option.bind_eq_some_iff, toOption_eq_some]
          exact ⟨(), hvalid, revoker, signer, revokee, revokes, rfl⟩
        · intro hself
          obtain ⟨-, hchecksum, hrole, -⟩ := Grant.mk.inj hself
          have hheld : L.IsAdmin m.registryId revokee := by
            rw [Ledger.IsAdmin, ← hself]
            exact hheld
          obtain ⟨other, hother, hhas⟩ := Rbac.exists_other_member
            ((h.isAdmin_iff hcf nonzero hadmin).mpr hheld) (notLast hchecksum hrole)
          refine ⟨adminGrant m.registryId other, (h.isAdmin_iff hcf nonzero hadmin).mp hhas, ?_, rfl⟩
          exact fun e => hother (congrArg Grant.account e)
  · cases req with
    | none => cases hq
    | some m =>
      simp only [Msg.request, Option.bind_eq_bind, Option.bind_eq_some_iff, toOption_eq_some] at hq
      obtain ⟨_, hvalid, revoker, hrevoker, revokee, hrevokee, e⟩ := hq
      cases e
      have nonzero := registryId_ne_zero_of_validateRoleMsg hvalid
      have hadmin : registryRoleName m.registryId roleAdmin ∈ names :=
        hnames _ (by simp [Msg.namesUsed, Msg.roleNames])
      have hscoped : MsgServer.scopedRoleName m.registryId m.checksum m.role ∈ names :=
        hnames _ (by simp [Msg.namesUsed, Msg.roleNames])
      obtain ⟨hscope, hheld, hallowed, hlast⟩ := haccepts
      have held := (h.hasRole_iff hcf (g := ⟨m.registryId, m.checksum, m.role, revokee⟩) hscoped
        nonzero).mpr hheld
      have htable := (hroles.admin_of_scopedTo hcf hscoped (scopedTo_scopedRoleName _ _ _) held).2
      have notLast : m.checksum = [] → m.role = roleAdmin →
          s.rbac.isSoleAdmin (registryRole env m.registryId roleAdmin) = .ok false := by
        intro hchecksum hrole
        have hself : (⟨m.registryId, m.checksum, m.role, revokee⟩ : Grant) =
            adminGrant m.registryId revokee := by rw [hchecksum, hrole]; rfl
        obtain ⟨g', hg', hne, hother⟩ := hlast hself
        rw [hself] at hheld hne
        refine isSoleAdmin_false (a := g'.account) (b := revokee)
          ((h.isAdmin_iff hcf nonzero hadmin).mpr (hother ▸ hg'))
          ((h.isAdmin_iff hcf nonzero hadmin).mpr hheld) fun e => hne ?_
        rw [hother, e]
      obtain ⟨s', hs'⟩ := revokeRole_succeeds hvalid hrevoker hrevokee
        ((h.inScope_iff (u := ()) hinv nonzero).mpr hscope)
        ((MsgServer.scopedRole_eq env _ _ _).symm ▸ held) notLast
        ((MsgServer.scopedRole_eq env _ _ _).symm ▸ htable)
        ((h.isAdmin_iff hcf nonzero hadmin).mpr hallowed)
      exact ⟨_, bind_eq_ok.mpr ⟨s', hs', rfl⟩⟩

/-- **The message server and the ledger do alike.** -/
theorem handle_alike (hcf : Set.InjOn env.keccak256 names) (h : Represents env names s L)
    (hreach : Reachable env names s) (hmax : s.CountersBelowMax) (msg : Msg)
    (hnames : ∀ name ∈ msg.namesUsed s, name ∈ names) :
    Alike (Represents env names) (handle env ctx msg s).toOption
      (Ledger.machine env (ctx, msg) L) := by
  have hinv := hreach.any.storedInv
  cases msg with
  | updateParams m => exact alike_updateParams h hinv m
  | addRegistry req => exact alike_addRegistry h hmax req hnames
  | addRecord req => exact alike_addRecord hcf h hreach.storeInv hinv hmax req hnames
  | updateRecordStatus req => exact alike_updateRecordStatus hcf h hinv req hnames
  | grantRole req => exact alike_grantRole hcf h hinv req hnames
  | revokeRole req => exact alike_revokeRole hcf h hinv hreach.roleInv req hnames

end Messages

/-! ## Runs -/

/-- The message server as a machine that answers messages. -/
def server (env : Env) : Simulation.Machine (Ctx × Msg) Response Store := fun input s =>
  (handle env input.1 input.2 s).toOption

/-- A message uses names of a set only, and meets no counter at its last value. -/
def Within (names : Set Bytes) (input : Ctx × Msg) (s : Store) : Prop :=
  s.CountersBelowMax ∧ ∀ name ∈ input.2.namesUsed s, name ∈ names

instance (names : Set Bytes) [DecidablePred (· ∈ names)] (input : Ctx × Msg) (s : Store) :
    Decidable (Within names input s) :=
  haveI : Decidable (∀ name ∈ input.2.namesUsed s, name ∈ names) := List.decidableBAll _ _
  inferInstanceAs (Decidable (_ ∧ _))

section Runs

variable {env : Env} {names : Set Bytes} {ctx : Ctx} {s t : Store} {L : Ledger}

/-- A step of the machine is a delivered message. -/
theorem next_server (env : Env) (ctx : Ctx) (msg : Msg) (s : Store) :
    Simulation.next (server env) (ctx, msg) s = deliver env ctx msg s := by
  unfold Simulation.next server deliver
  cases handle env ctx msg s with
  | ok out => rfl
  | error e => rfl

/-- A run of the machine is a run of messages. -/
theorem after_server (env : Env) (msgs : List (Ctx × Msg)) (s : Store) :
    Simulation.after (server env) msgs s = runMsgs env msgs s := by
  induction msgs generalizing s with
  | nil => rfl
  | cons input rest ih =>
    obtain ⟨ctx, msg⟩ := input
    rw [Simulation.after, next_server, ih]
    rfl

/-- A message uses the names of the roles it writes. -/
theorem roleNames_subset (msg : Msg) (s : Store) {name : Bytes} (h : name ∈ msg.roleNames s) :
    name ∈ msg.namesUsed s := by
  cases msg with
  | updateParams m => exact h
  | addRegistry req => exact h
  | addRecord req =>
    cases req with
    | none => exact h
    | some m => cases h
  | updateRecordStatus req =>
    cases req with
    | none => exact h
    | some m => cases h
  | grantRole req =>
    cases req with
    | none => exact h
    | some m => exact h
  | revokeRole req =>
    cases req with
    | none => exact h
    | some m => exact h

/-- A message within its limits goes on with a run. -/
theorem Reachable.deliver (h : Reachable env names s) {msg : Msg} (hwithin : Within names (ctx, msg) s) :
    Reachable env names (deliver env ctx msg s) :=
  h.tail ⟨hwithin.1, ctx, msg, fun _ hname => hwithin.2 _ (roleNames_subset msg s hname), rfl⟩

/-- A store of a run that holds a ledger. -/
def Holds (env : Env) (names : Set Bytes) (s : Store) (L : Ledger) : Prop :=
  Reachable env names s ∧ Represents env names s L

/-- An accepted message goes on with the run. -/
theorem Reachable.server (h : Reachable env names s) {input : Ctx × Msg}
    (hwithin : Within names input s) (o : Response) (s' : Store)
    (hs' : Nvnmchain.server env input s = some (o, s')) : Reachable env names s' := by
  have hnext := h.deliver hwithin
  rw [← next_server, Simulation.next, hs'] at hnext
  exact hnext

/-- **Message by message, the server does what the ledger does.** -/
theorem simulates (hcf : Set.InjOn env.keccak256 names) :
    Simulation.Simulates (Within names) (Holds env names) (server env) (Ledger.machine env) := by
  rintro ⟨ctx, msg⟩ s L hwithin ⟨hreach, hrep⟩
  exact (handle_alike hcf hrep hreach hwithin.1 msg hwithin.2).and fun o s' hs' =>
    hreach.server hwithin o s' hs'

/-- **The message server is the ledger.** Over a run from genesis, it answers and refuses the messages
the ledger does, with the same answers, and the store it leaves holds the ledger's books and grants. -/
theorem anchoring_refines_ledger {params : Params} {msgs : List (Ctx × Msg)}
    (hcf : Set.InjOn env.keccak256 names) (hparams : params.validate env = .ok ())
    (hmsgs : Simulation.Along (server env) (Within names) msgs (Store.initial params)) :
    Simulation.answers (server env) msgs (Store.initial params) =
        Simulation.answers (Ledger.machine env) msgs (Ledger.initial params) ∧
      Represents env names (runMsgs env msgs (Store.initial params))
        (Simulation.after (Ledger.machine env) msgs (Ledger.initial params)) := by
  have hfirst : Holds env names (Store.initial params) (Ledger.initial params) :=
    ⟨Transition.Reachable.of_init (initial_iff.mpr ⟨params, hparams, rfl⟩), .initial params⟩
  refine ⟨(simulates hcf).answers_eq hfirst hmsgs, ?_⟩
  rw [← after_server]
  exact ((simulates hcf).after hfirst hmsgs).2

end Runs

/-- The role names of registry 1 and of a document in it. -/
def ledgerNames : Set Bytes := {name | name ∈ permissionNames 1 (str "c0")}

instance : DecidablePred (· ∈ ledgerNames) := fun name =>
  inferInstanceAs (Decidable (name ∈ permissionNames 1 (str "c0")))

theorem injOn_ledgerNames : Set.InjOn smallEnv.keccak256 ledgerNames := by
  have all : ∀ a ∈ permissionNames 1 (str "c0"), ∀ b ∈ permissionNames 1 (str "c0"),
      smallEnv.keccak256 a = smallEnv.keccak256 b → a = b := by decide +kernel
  exact fun a ha b hb => all a ha b hb

/-- A registry, a record, an editor for it and two changes of admin, as the ledger answers them. -/
theorem anchoring_refines_ledger_small :
    Simulation.answers (server smallEnv) smallRoleMsgs (Store.initial smallParams) =
        [some (.addRegistry 1), some (.addRecord 1), some .empty, some .empty, some .empty] ∧
      Represents smallEnv ledgerNames smallRoleStore
        (Simulation.after (Ledger.machine smallEnv) smallRoleMsgs (.initial smallParams)) := by
  obtain ⟨hanswers, hholds⟩ := @anchoring_refines_ledger smallEnv ledgerNames smallParams smallRoleMsgs
    injOn_ledgerNames rfl (by decide +kernel)
  exact ⟨hanswers.trans (by decide +kernel), hholds⟩

/-! ## What a ledger leaves open

A ledger says nothing of the table of role admins, and everything else.
-/

/-- A store with its table of role admins left out. -/
def Store.withoutRoleAdmins (s : Store) : Store := { s with rbac := { s.rbac with roleAdmins := ∅ } }

section Whole

variable {env : Env} {names : Set Bytes} {s t : Store} {L : Ledger}

theorem map_toNat_inj {a b : Option UInt64} (h : a.map UInt64.toNat = b.map UInt64.toNat) : a = b :=
  Option.map_injective (fun _ _ => UInt64.toNat_inj.mp) h

/-- **A ledger is the whole store** but for the table. -/
theorem Represents.determines (hs : Represents env names s L) (ht : Represents env names t L) :
    s.withoutRoleAdmins = t.withoutRoleAdmins := by
  have hchecksums : s.recordIdByRegistryAndChecksum = t.recordIdByRegistryAndChecksum :=
    Std.ExtTreeMap.ext_getElem? fun {key} => Option.ext fun k =>
      (hs.checksums key.1 k key.2).trans (ht.checksums key.1 k key.2).symm
  refine Store.ext ?_ ?_ ?_ ?_ hchecksums ?_ ?_ ?_ ?_
  · exact hs.params.trans ht.params.symm
  · exact Std.ExtTreeMap.ext_getElem? fun {r} => (hs.registries r).trans (ht.registries r).symm
  · exact map_toNat_inj (hs.registryCount.trans ht.registryCount.symm)
  · exact Std.ExtTreeMap.ext_getElem? fun {key} =>
      (hs.records key.1 key.2.1 key.2.2).trans (ht.records key.1 key.2.1 key.2.2).symm
  · exact Std.ExtTreeMap.ext_getElem? fun {r} => map_toNat_inj ((hs.counts r).trans (ht.counts r).symm)
  · exact Std.ExtTreeMap.ext_getElem? fun {key} =>
      map_toNat_inj ((hs.indices key.1 key.2).trans (ht.indices key.1 key.2).symm)
  · refine Std.ExtTreeMap.ext_getElem? fun {key} => (hs.swapped key.2 key.1).trans ?_
    rw [hchecksums]
    exact (ht.swapped key.2 key.1).symm
  · have hmembers : s.rbac.roleMembers = t.rbac.roleMembers :=
      Std.ExtTreeMap.ext_getElem? fun {key} => Option.ext fun v =>
        (hs.members key.1 key.2 v).trans (ht.members key.1 key.2 v).symm
    show Rbac.mk ∅ s.rbac.roleMembers = Rbac.mk ∅ t.rbac.roleMembers
    rw [hmembers]

/-- A message leaves a store that holds a ledger. -/
theorem Represents.delivered (hL : Represents env names s L) (hcf : Set.InjOn env.keccak256 names)
    (hstore : StoreInv s) (hmax : s.CountersBelowMax) {ctx : Ctx} {msg : Msg} {s' : Store}
    (hnames : ∀ name ∈ msg.roleNames s, name ∈ names) (hd : Delivered env ctx s msg s') :
    ∃ L', Represents env names s' L' := by
  cases hd with
  | refused failed => exact ⟨L, hL⟩
  | @addRegistry m sender creator count accepted signer valid counted creates =>
    exact ⟨_, hL.create counted (hmax.registries _ counted)
      (hnames _ (by simp [Msg.roleNames, counted])) (m.entry env ctx sender) creator⟩
  | @addRecord m record sender recordId s₁ s₂ accepted signer carries valid known permitted assigned stored =>
    obtain ⟨b, hb⟩ := Option.isSome_iff_exists.mp (hL.mem_registries.mp known)
    cases hstore.anchored hmax assigned stored with
    | first fresh counted encodes =>
      exact ⟨_, hL.anchor_first hb fresh counted (hmax.records _ _ counted) sender⟩
    | next numbered indexed previous =>
      exact ⟨_, hL.anchor_next numbered indexed previous (hmax.versions _ _ _ indexed) sender⟩
  | @updateRecordStatus m record sender accepted signer valid found permitted =>
    exact ⟨_, hL.setStatus found sender m.status⟩
  | @grantRole m granter grantee signer grants nonzero inScope allowed =>
    rw [MsgServer.scopedRole_eq]
    exact ⟨_, hL.grant (g := ⟨m.registryId, m.checksum, m.role, grantee⟩)
      (hnames _ (by simp [Msg.roleNames, Grant.name])) nonzero _⟩
  | @revokeRole m revoker revokee bz signer revokes nonzero inScope held notLast administered allowed =>
    rw [MsgServer.scopedRole_eq]
    exact ⟨_, hL.revoke (g := ⟨m.registryId, m.checksum, m.role, revokee⟩) hcf
      (hnames _ (by simp [Msg.roleNames, Grant.name])) nonzero⟩
  | @updateParams m sender current params signer stored authorized valid => exact ⟨_, hL.handOver params.admin⟩

/-- Every store of a run holds a ledger. -/
theorem Reachable.exists_ledger (hcf : Set.InjOn env.keccak256 names) (h : Reachable env names s) :
    ∃ L, Represents env names s L := by
  have hkept : ∀ s s' ctx msg, Reachable env names s → (∃ L, Represents env names s L) →
      s.CountersBelowMax → (∀ name ∈ msg.roleNames s, name ∈ names) → Delivered env ctx s msg s' →
        ∃ L, Represents env names s' L := by
    rintro s s' ctx msg hreach ⟨L, hL⟩ hmax hnames hd
    exact hL.delivered hcf hreach.storeInv hmax hnames hd
  exact h.invariant (fun params _ => ⟨_, .initial params⟩) hkept

end Whole

/-- Account 1 creates a registry. -/
def openedMsgs : List (Ctx × Msg) := smallRoleMsgs.take 1

def openedStore : Store := runMsgs smallEnv openedMsgs (Store.initial smallParams)

/-- A run of the small chain holds the ledger of its messages. -/
theorem holds_smallRun {msgs : List (Ctx × Msg)}
    (hmsgs : Simulation.Along (server smallEnv) (Within ledgerNames) msgs (Store.initial smallParams)) :
    Holds smallEnv ledgerNames (runMsgs smallEnv msgs (Store.initial smallParams))
      (Simulation.after (Ledger.machine smallEnv) msgs (.initial smallParams)) := by
  rw [← after_server]
  exact (simulates injOn_ledgerNames).after
    ⟨Transition.Reachable.of_init initial_smallParams, .initial smallParams⟩ hmsgs

end Nvnmchain
