import Nvnmchain.Anchoring.Ledger
import Nvnmchain.Anchoring.StoreInv
import Nvnmchain.Anchoring.RoleScope

/-!
# Stores that hold a ledger

`Represents` says how the collections of a store hold a ledger. Each collection is one reading of it:
the registries are the entries of the books, the counters are lengths, the records are the versions
of the documents with their positions written into them, the checksum indexes look a document up by
its checksum, and the role members are the grants under the hashes of their names.

The table of role admins is not read: no grant depends on it. Nor is there an invariant here beside
the relation. What a collection may hold is what a ledger can be.

Each change a handler makes to a store is one change of the ledger, and the relation follows it.
-/

set_option autoImplicit false

namespace Nvnmchain

open Go (Bytes)
open Collections
open NumberedList

/-! ## Readings of a ledger -/

namespace Ledger

/-- The registry an entry is stored as. -/
def Entry.registry (e : Entry) (r : UInt64) : Registry where
  id := r
  name := e.name
  description := e.description
  creator := e.creator
  createdAt := e.createdAt
  metadata := e.metadata

/-- The record a version is stored as. -/
def Version.record (v : Version) (checksum : Bytes) (r k i : UInt64) (isLatest : Bool) : Record where
  uri := v.uri
  checksum := checksum
  checksumAlgo := v.checksumAlgo
  metadata := v.metadata
  timestamp := v.timestamp
  status := v.status
  recordId := k
  index := i
  isLatest := isLatest
  registryId := r

/-- The record of a version of a document: the last one is the latest. -/
def Document.record? (d : Document) (r k i : UInt64) : Option Record :=
  (numbered d.versions i).map fun v =>
    v.record d.checksum r k i (i.toNat = d.versions.length)

/-- The name that is hashed for the role of a grant. -/
def Grant.name (g : Grant) : Bytes := MsgServer.scopedRoleName g.registryId g.checksum g.role

end Ledger

open Ledger

/-- A store holds a ledger, whose role names are among those of a set. -/
structure Represents (env : Env) (names : Set Bytes) (s : Store) (L : Ledger) : Prop where
  params : s.params = some ⟨L.admin⟩
  registryCount : s.registryCount.map UInt64.toNat = some L.books.length
  registries : ∀ r : UInt64, s.registries[r]? = (numbered L.books r).map (·.entry.registry r)
  counts : ∀ r : UInt64, s.recordsCountByRegistry[r]?.map UInt64.toNat =
    (numbered L.books r).map (·.documents.length)
  indices : ∀ r k : UInt64, s.recordIndices[(r, k)]?.map UInt64.toNat =
    (L.document? r k).map (·.versions.length)
  records : ∀ r k i : UInt64, s.records[(r, k, i)]? = (L.document? r k).bind (·.record? r k i)
  checksums : ∀ (r k : UInt64) (c : Bytes), s.recordIdByRegistryAndChecksum[(r, c)]? = some k ↔
    ∃ d ∈ L.document? r k, d.checksum = c
  swapped : ∀ (r : UInt64) (c : Bytes),
    s.recordIdByChecksumAndRegistry[(c, r)]? = s.recordIdByRegistryAndChecksum[(r, c)]?
  members : ∀ (role : Role) (account v : Bytes), s.rbac.roleMembers[(role, account)]? = some v ↔
    v = [] ∧ ∃ g ∈ L.held, newRoleHash env g.name = role ∧ g.account = account
  named : ∀ g ∈ L.held, g.name ∈ names ∧ g.registryId ≠ 0

namespace Represents

variable {env : Env} {names : Set Bytes} {s : Store} {L : Ledger}

/-- A chain starts with an empty ledger. -/
theorem initial (params : Params) : Represents env names (Store.initial params) (.initial params) where
  params := rfl
  registryCount := rfl
  registries _ := by simp [Store.initial, Store.empty, Ledger.initial]
  counts _ := by simp [Store.initial, Store.empty, Ledger.initial]
  indices _ _ := by simp [Store.initial, Store.empty, Ledger.initial, Ledger.document?]
  records _ _ _ := by simp [Store.initial, Store.empty, Ledger.initial, Ledger.document?]
  checksums _ _ _ := by simp [Store.initial, Store.empty, Ledger.initial, Ledger.document?]
  swapped _ _ := by simp [Store.initial, Store.empty]
  members _ _ _ := by simp [Store.initial, Store.empty, Ledger.initial]
  named _ h := by simp [Ledger.initial] at h

/-! ## What is read off a ledger -/

/-- The registry counter counts the books. -/
theorem exists_count (h : Represents env names s L) :
    ∃ n, s.registryCount = some n ∧ n.toNat = L.books.length :=
  Option.map_eq_some_iff.mp h.registryCount

/-- The record counter of a registry counts its documents. -/
theorem exists_documents (h : Represents env names s L) {r : UInt64} {b : Book}
    (hb : numbered L.books r = some b) :
    ∃ n, s.recordsCountByRegistry[r]? = some n ∧ n.toNat = b.documents.length := by
  have hcount := h.counts r
  rw [hb, Option.map_some] at hcount
  exact Option.map_eq_some_iff.mp hcount

/-- The index of a record counts its versions. -/
theorem exists_versions (h : Represents env names s L) {r k : UInt64} {d : Document}
    (hd : L.document? r k = some d) :
    ∃ n, s.recordIndices[(r, k)]? = some n ∧ n.toNat = d.versions.length := by
  have hindex := h.indices r k
  rw [hd, Option.map_some] at hindex
  exact Option.map_eq_some_iff.mp hindex

/-- The registries are the books. -/
theorem mem_registries (h : Represents env names s L) {r : UInt64} :
    r ∈ s.registries ↔ (numbered L.books r).isSome := by
  rw [Std.ExtTreeMap.mem_iff_isSome_getElem?, h.registries, Option.isSome_map]

/-- A checksum is indexed when its book has it. -/
theorem mem_checksums (h : Represents env names s L) {r : UInt64} {b : Book}
    (hb : numbered L.books r = some b) {c : Bytes} :
    (r, c) ∈ s.recordIdByRegistryAndChecksum ↔ c ∈ b.checksums := by
  rw [Map.mem_iff]
  constructor
  · rintro ⟨k, hk⟩
    obtain ⟨d, hd, rfl⟩ := (h.checksums r k c).mp hk
    rw [Ledger.document?, hb] at hd
    exact List.mem_map_of_mem (mem_of_numbered hd)
  · intro hc
    obtain ⟨d, hd, rfl⟩ := List.mem_map.mp hc
    obtain ⟨n, -, hn⟩ := h.exists_documents hb
    obtain ⟨k, hk⟩ := exists_numbered (hn ▸ n.toNat_lt) hd
    refine ⟨k, (h.checksums r k d.checksum).mpr ⟨d, ?_, rfl⟩⟩
    rw [Ledger.document?, hb]
    exact hk

/-- **Roles are grants**, where the hash tells the names apart. -/
theorem hasRole_iff (h : Represents env names s L) (hcf : Set.InjOn env.keccak256 names) {g : Grant}
    (hname : g.name ∈ names) (hr : g.registryId ≠ 0) :
    s.rbac.hasRole (newRoleHash env g.name) g.account = true ↔ g ∈ L.held := by
  rw [Rbac.hasRole_iff, Map.mem_iff]
  constructor
  · rintro ⟨v, hv⟩
    obtain ⟨-, g', hg', hrole, haccount⟩ := (h.members _ _ v).mp hv
    have hsame : g.name = g'.name := (hcf (h.named g' hg').1 hname hrole).symm
    obtain ⟨hid, hchecksum, hstr⟩ := scopedRoleName_inj hr hsame
    have heq : g = g' := by
      cases g
      cases g'
      simp_all
    exact heq ▸ hg'
  · intro hg
    exact ⟨[], (h.members _ _ _).mpr ⟨rfl, g, hg, rfl, rfl⟩⟩

/-! ## The changes of the roles -/

/-- One grant more. -/
theorem grant (h : Represents env names s L) {g : Grant} (hname : g.name ∈ names)
    (hr : g.registryId ≠ 0) (adminRole : Role) :
    Represents env names { s with rbac := (s.rbac.setRoleAdmin (newRoleHash env g.name)
      adminRole).grantRoleUnchecked (newRoleHash env g.name) g.account }
      { L with held := insert g L.held } where
  params := h.params
  registryCount := h.registryCount
  registries := h.registries
  counts := h.counts
  indices := h.indices
  records := h.records
  checksums := h.checksums
  swapped := h.swapped
  members role account v := by
    simp only [Rbac.grantRoleUnchecked, Rbac.setRoleAdmin, Map.get?_insert, Finset.mem_insert]
    by_cases hkey : (newRoleHash env g.name, g.account) = (role, account)
    · rw [if_pos hkey]
      obtain ⟨hrole, haccount⟩ := Prod.mk.inj hkey
      constructor
      · intro hv
        exact ⟨(Option.some.inj hv).symm, g, .inl rfl, hrole, haccount⟩
      · rintro ⟨rfl, -⟩
        rfl
    · rw [if_neg hkey, h.members]
      refine and_congr_right fun _ => exists_congr fun g' => and_congr_left fun hg' => ?_
      constructor
      · exact Or.inr
      · rintro (rfl | hold)
        · exact absurd (Prod.ext hg'.1 hg'.2) hkey
        · exact hold
  named g' hg' := by
    rcases Finset.mem_insert.mp hg' with rfl | hold
    · exact ⟨hname, hr⟩
    · exact h.named g' hold

/-- A revoked role is gone; no other grant has its hash and its account. -/
theorem revoke (h : Represents env names s L) (hcf : Set.InjOn env.keccak256 names) {g : Grant}
    (hname : g.name ∈ names) (hr : g.registryId ≠ 0) :
    Represents env names
      { s with rbac := s.rbac.revokeRoleUnchecked (newRoleHash env g.name) g.account }
      { L with held := L.held.erase g } where
  params := h.params
  registryCount := h.registryCount
  registries := h.registries
  counts := h.counts
  indices := h.indices
  records := h.records
  checksums := h.checksums
  swapped := h.swapped
  members role account v := by
    by_cases hkey : (newRoleHash env g.name, g.account) = (role, account)
    · obtain ⟨rfl, rfl⟩ := Prod.mk.inj hkey
      have hnone : (s.rbac.revokeRoleUnchecked (newRoleHash env g.name)
          g.account).roleMembers[(newRoleHash env g.name, g.account)]? = none :=
        Std.ExtTreeMap.getElem?_erase_self
      rw [hnone]
      constructor
      · intro hv
        cases hv
      · rintro ⟨-, g', hg', hrole, haccount⟩
        obtain ⟨hne, hheld⟩ := Finset.mem_erase.mp hg'
        have hsame : g.name = g'.name := (hcf (h.named g' hheld).1 hname hrole).symm
        obtain ⟨hid, hchecksum, hstr⟩ := scopedRoleName_inj hr hsame
        refine absurd ?_ hne
        cases g
        cases g'
        simp_all
    · have hget := Map.get?_erase_ne s.rbac.roleMembers hkey
      have hmem := h.members role account v
      rw [← hget] at hmem
      refine hmem.trans (and_congr_right fun _ => exists_congr fun g' => and_congr_left fun hg' => ?_)
      rw [Finset.mem_erase]
      constructor
      · intro hheld
        exact ⟨fun e => hkey (e ▸ Prod.ext hg'.1 hg'.2), hheld⟩
      · exact And.right
  named g' hg' := h.named g' (Finset.mem_of_mem_erase hg')

/-- Another module admin. -/
theorem handOver (h : Represents env names s L) (admin : Bytes) :
    Represents env names { s with params := some ⟨admin⟩ } { L with admin } :=
  { h with params := rfl }

/-! ## A new registry -/

/-- A counter that is not at its last value does not wrap. -/
theorem toNat_add_one {n : UInt64} (h : n ≠ counterMax) : (n + 1).toNat = n.toNat + 1 := by
  have hlt := UInt64.lt_iff_toNat_lt.mp (lt_add_one_of_ne_counterMax h)
  have hn := n.toNat_lt
  rw [UInt64.toNat_add, UInt64.toNat_one] at hlt ⊢
  omega

/-- A blank book has no documents to look up. -/
theorem document?_blank (L : Ledger) (entry : Entry) (r k : UInt64) :
    ({ L with books := L.books ++ [.blank entry] } : Ledger).document? r k = L.document? r k := by
  simp only [Ledger.document?, numbered_concat]
  split
  · rename_i hr
    rw [numbered_eq_none (l := L.books) (by omega)]
    exact numbered_nil k
  · rfl

/-- One book more. -/
theorem book (h : Represents env names s L) {n : UInt64} (hn : s.registryCount = some n)
    (hmax : n ≠ counterMax) (entry : Entry) :
    Represents env names { s with
      registries := s.registries.insert (n + 1) (entry.registry (n + 1))
      recordsCountByRegistry := s.recordsCountByRegistry.insert (n + 1) 0
      registryCount := some (n + 1) }
      { L with books := L.books ++ [.blank entry] } := by
  have hlen : (n + 1).toNat = L.books.length + 1 := by
    obtain ⟨n', hn', hlen⟩ := h.exists_count
    cases hn.symm.trans hn'
    rw [toNat_add_one hmax, hlen]
  constructor
  case params => exact h.params
  case registryCount =>
    rw [Option.map_some, hlen, List.length_append, List.length_singleton]
  case registries =>
    intro r
    simp only [Map.get?_insert, numbered_concat_eq hlen, h.registries]
    split
    · rename_i hr
      rw [Option.map_some, hr]
      rfl
    · rfl
  case counts =>
    intro r
    simp only [Map.get?_insert, numbered_concat_eq hlen]
    split
    · rfl
    · exact h.counts r
  case indices =>
    intro r k
    rw [document?_blank]
    exact h.indices r k
  case records =>
    intro r k i
    rw [document?_blank]
    exact h.records r k i
  case checksums =>
    intro r k c
    rw [document?_blank]
    exact h.checksums r k c
  case swapped => exact h.swapped
  case members => exact h.members
  case named => exact h.named

theorem name_adminGrant (r : UInt64) (account : Bytes) :
    (adminGrant r account).name = registryRoleName r roleAdmin := by
  simp [Grant.name, adminGrant, MsgServer.scopedRoleName, MsgServer.isRecordRole]

/-- `AddRegistry` opens a book, and makes its creator its admin. -/
theorem create (h : Represents env names s L) {n : UInt64} (hn : s.registryCount = some n)
    (hmax : n ≠ counterMax) (hname : registryRoleName (n + 1) roleAdmin ∈ names) (entry : Entry)
    (creator : Bytes) :
    Represents env names (s.withRegistry env (entry.registry (n + 1)) creator)
      (L.apply (.create creator entry)) := by
  have hlen : (n + 1).toNat = L.books.length + 1 := by
    obtain ⟨n', hn', hlen⟩ := h.exists_count
    cases hn.symm.trans hn'
    rw [toNat_add_one hmax, hlen]
  have hid : UInt64.ofNat (L.books.length + 1) = n + 1 := by rw [← hlen, UInt64.ofNat_toNat]
  have hne : n + 1 ≠ 0 := by
    intro e
    rw [e, UInt64.toNat_zero] at hlen
    omega
  have hgrant := (h.book hn hmax entry).grant (g := adminGrant (n + 1) creator)
    ((name_adminGrant _ _).symm ▸ hname) hne (registryRole env (n + 1) roleAdmin)
  rw [name_adminGrant] at hgrant
  simp only [Ledger.apply, hid]
  exact hgrant

/-! ## The versions of a document -/

/-- A ledger with a book changed, and what is left alone. -/
theorem numbered_books_change {L : Ledger} {r r' : UInt64} {f : Book → Book} {α : Type}
    {view : Book → α} (hview : ∀ b, view (f b) = view b) :
    (numbered (change L.books r f) r').map view = (numbered L.books r').map view := by
  rw [numbered_change]
  split
  · rw [Option.map_map]
    exact congrArg (Option.map · _) (funext hview)
  · rfl

/-- The documents of a ledger with a book changed. -/
theorem document?_change (L : Ledger) (r r' k : UInt64) (f : Book → Book) :
    ({ L with books := change L.books r f } : Ledger).document? r' k =
      if r' = r then (numbered L.books r').bind fun b => numbered (f b).documents k
      else L.document? r' k := by
  simp only [Ledger.document?, numbered_change]
  split
  · rw [Option.bind_map]
    rfl
  · rfl

/-- One document put in its place, or replaced by one of the same checksum. -/
theorem withDocument (h : Represents env names s L) {s' : Store} {r k : UInt64} {d : Document}
    {f : Book → Book} (hentry : ∀ b, (f b).entry = b.entry)
    (hparams : s'.params = s.params) (hregistries : s'.registries = s.registries)
    (hcount : s'.registryCount = s.registryCount) (hrbac : s'.rbac = s.rbac)
    (hcounts : ∀ r' : UInt64, s'.recordsCountByRegistry[r']?.map UInt64.toNat =
      (numbered (change L.books r f) r').map (·.documents.length))
    (hdocument : ∀ r' k', ({ L with books := change L.books r f } : Ledger).document? r' k' =
      if (r, k) = (r', k') then some d else L.document? r' k')
    (hsame : ∀ k', ∀ d' ∈ L.document? r k', d'.checksum = d.checksum ↔ k' = k)
    (hindices : ∀ r' k' : UInt64, s'.recordIndices[(r', k')]?.map UInt64.toNat =
      if (r, k) = (r', k') then some d.versions.length else s.recordIndices[(r', k')]?.map UInt64.toNat)
    (hrecords : ∀ r' k' i : UInt64, s'.records[(r', k', i)]? =
      if (r, k) = (r', k') then d.record? r k i else s.records[(r', k', i)]?)
    (hchecksums : ∀ (r' : UInt64) (c : Bytes), s'.recordIdByRegistryAndChecksum[(r', c)]? =
      if (r, d.checksum) = (r', c) then some k else s.recordIdByRegistryAndChecksum[(r', c)]?)
    (hswapped : ∀ (r' : UInt64) (c : Bytes), s'.recordIdByChecksumAndRegistry[(c, r')]? =
      if (r, d.checksum) = (r', c) then some k else s.recordIdByChecksumAndRegistry[(c, r')]?) :
    Represents env names s' { L with books := change L.books r f } := by
  constructor
  case params => exact hparams.trans h.params
  case registryCount =>
    rw [hcount, length_change]
    exact h.registryCount
  case registries =>
    intro r'
    rw [hregistries, h.registries]
    exact (numbered_books_change fun b => by rw [hentry]).symm
  case counts => exact hcounts
  case indices =>
    intro r' k'
    rw [hindices, hdocument]
    split
    · rfl
    · exact h.indices r' k'
  case records =>
    intro r' k' i
    rw [hrecords, hdocument]
    split
    · rename_i hkey
      cases hkey
      rfl
    · exact h.records r' k' i
  case checksums =>
    intro r' k' c
    rw [hchecksums, hdocument]
    by_cases hc : (r, d.checksum) = (r', c)
    · cases hc
      rw [if_pos rfl]
      by_cases hk : k = k'
      · simp [hk]
      · have hkey : (r, k) ≠ (r, k') := fun e => hk (Prod.mk.inj e).2
        rw [if_neg hkey]
        constructor
        · intro e
          exact absurd (Option.some.inj e) hk
        · rintro ⟨d', hd', hc'⟩
          exact absurd ((hsame k' d' hd').mp hc').symm hk
    · rw [if_neg hc, h.checksums]
      by_cases hkey : (r, k) = (r', k')
      · cases hkey
        rw [if_pos rfl]
        have hne : d.checksum ≠ c := fun e => hc (e ▸ rfl)
        constructor
        · rintro ⟨d', hd', rfl⟩
          exact absurd ((hsame k d' hd').mpr rfl).symm hne
        · rintro ⟨d', hd', rfl⟩
          cases hd'
          exact absurd rfl hne
      · rw [if_neg hkey]
  case swapped =>
    intro r' c
    rw [hswapped, hchecksums]
    split
    · rfl
    · exact h.swapped r' c
  case members =>
    rw [hrbac]
    exact h.members
  case named => exact h.named

/-- In a registry a checksum is one document's. -/
theorem checksum_eq_iff (h : Represents env names s L) {r k k' : UInt64} {d d' : Document}
    (hd : L.document? r k = some d) (hd' : L.document? r k' = some d') :
    d'.checksum = d.checksum ↔ k' = k := by
  constructor
  · intro hc
    have hk := (h.checksums r k d.checksum).mpr ⟨d, hd, rfl⟩
    have hk' := (h.checksums r k' d.checksum).mpr ⟨d', hd', hc⟩
    exact Option.some.inj (hk'.symm.trans hk)
  · rintro rfl
    rw [hd] at hd'
    rw [Option.some.inj hd']

theorem document?_eq {L : Ledger} {r : UInt64} {b : Book} (hb : numbered L.books r = some b)
    (k : UInt64) : L.document? r k = numbered b.documents k := by
  rw [Ledger.document?, hb]
  rfl

/-- The record of the only version of a document. -/
theorem record?_first (ctx : Ctx) (record : Record) (k i : UInt64) :
    (Document.first record.checksum (record.version ctx)).record? record.registryId k i =
      if 1 = i then some (record.versioned ctx k 1) else none := by
  have hone : numbered [record.version ctx] i = if 1 = i then some (record.version ctx) else none := by
    rw [← List.nil_append [record.version ctx], numbered_concat_eq UInt64.toNat_one, numbered_nil]
  rw [Document.record?, Document.first, hone]
  split
  · rename_i hi
    cases hi
    rfl
  · rfl

/-- A checksum that is new to a registry becomes its next document. -/
theorem anchor_first (h : Represents env names s L) {ctx : Ctx} {record : Record} {count : UInt64}
    {b : Book} (hb : numbered L.books record.registryId = some b)
    (fresh : s.recordIdByRegistryAndChecksum[(record.registryId, record.checksum)]? = none)
    (counted : s.recordsCountByRegistry[record.registryId]? = some count) (hmax : count ≠ counterMax)
    (account : Bytes) :
    Represents env names
      ((s.withChecksum record.registryId record.checksum (count + 1)).withVersion
        (record.versioned ctx (count + 1) 1))
      (L.apply (.anchor account record.registryId record.checksum (record.version ctx))) := by
  have hnew : record.checksum ∉ b.checksums := fun hc =>
    Map.notMem_iff.mpr fresh ((h.mem_checksums hb).mpr hc)
  have hlen : (count + 1).toNat = b.documents.length + 1 := by
    obtain ⟨n, hn, hlen⟩ := h.exists_documents hb
    cases counted.symm.trans hn
    rw [toNat_add_one hmax, hlen]
  have hdocuments := Book.documents_anchor_of_new hnew (record.version ctx)
  refine h.withDocument (k := count + 1) (d := .first record.checksum (record.version ctx))
    (fun _ => rfl) rfl rfl rfl rfl ?counts ?document ?same ?indices ?records ?checksums ?swapped
  case counts =>
    intro r'
    simp only [Store.withVersion, Store.withChecksum, Map.get?_insert, numbered_change]
    by_cases hr : record.registryId = r'
    · rw [if_pos hr, if_pos hr.symm, ← hr, hb, Option.map_some, Option.map_some, Option.map_some,
        hdocuments, List.length_append, List.length_singleton, hlen]
    · rw [if_neg hr, if_neg fun e => hr e.symm]
      exact h.counts r'
  case document =>
    intro r' k'
    rw [document?_change]
    by_cases hr : r' = record.registryId
    · rw [if_pos hr, hr, hb, document?_eq hb, Option.bind_some, hdocuments, numbered_concat_eq hlen]
      simp only [Prod.mk.injEq, true_and]
    · rw [if_neg hr, if_neg fun e => hr (Prod.mk.inj e).1.symm]
  case same =>
    intro k' d' hd'
    have hd' : numbered b.documents k' = some d' := (document?_eq hb k').symm.trans hd'
    constructor
    · intro (hc : d'.checksum = record.checksum)
      exact absurd (hc ▸ List.mem_map_of_mem (mem_of_numbered hd')) hnew
    · rintro rfl
      rw [numbered_eq_none (by omega)] at hd'
      cases hd'
  case indices =>
    intro r' k'
    simp only [Store.withVersion, Store.withChecksum, Record.versioned, Map.get?_insert]
    split
    · rfl
    · rfl
  case records =>
    intro r' k' i
    simp only [Store.withVersion, Store.withChecksum, Map.get?_insert, record?_first]
    by_cases hkey : (record.registryId, count + 1) = (r', k')
    · cases hkey
      rw [if_pos rfl]
      have hnone : s.records[(record.registryId, count + 1, i)]? = none := by
        rw [h.records, document?_eq hb, numbered_eq_none (by omega)]
        rfl
      rw [hnone]
      simp only [Record.versioned, Prod.mk.injEq, true_and]
    · have hne : ¬((record.versioned ctx (count + 1) 1).registryId,
          (record.versioned ctx (count + 1) 1).recordId,
          (record.versioned ctx (count + 1) 1).index) = (r', k', i) := by
        intro e
        cases e
        exact hkey rfl
      rw [if_neg hne, if_neg hkey]
  case checksums =>
    intro r' c
    exact Map.get?_insert _ _ _ _
  case swapped =>
    intro r' c
    simp only [Store.withVersion, Store.withChecksum, Map.get?_insert, Prod.mk.injEq, and_comm,
      Document.first]

/-- A document with a version more: the new record is the latest, and no other is. -/
theorem record?_extend {d : Document} {ctx : Ctx} {record : Record} {i : UInt64}
    (hchecksum : d.checksum = record.checksum) (hi : i.toNat = d.versions.length)
    (hmax : i ≠ counterMax) (k i' : UInt64) :
    (d.extend record.checksum (record.version ctx)).record? record.registryId k i' =
      if i + 1 = i' then some (record.versioned ctx k (i + 1))
      else (d.record? record.registryId k i').map ({ · with isLatest := false }) := by
  have hlen : (i + 1).toNat = d.versions.length + 1 := by rw [toNat_add_one hmax, hi]
  simp only [Document.extend, if_pos hchecksum, Document.record?, numbered_concat_eq hlen,
    List.length_append, List.length_singleton]
  split
  · rename_i hlast
    rw [Option.map_some, ← hlast, hlen]
    simp only [decide_true, hchecksum]
    rfl
  · rename_i hold
    rw [Option.map_map]
    cases hv : numbered d.versions i' with
    | none => rfl
    | some v =>
      have hne : i'.toNat ≠ d.versions.length + 1 := fun e => hold (UInt64.toNat_inj.mp (hlen.trans e.symm))
      simp only [Option.map_some, Function.comp, hne, decide_false]
      rfl

/-- A version that is not the last is stored as one. -/
theorem map_notLatest {d : Document} {r k i i' : UInt64} (hi : i.toNat = d.versions.length)
    (hne : i' ≠ i) : (d.record? r k i').map ({ · with isLatest := false }) = d.record? r k i' := by
  have hlast : i'.toNat ≠ d.versions.length := fun e => hne (UInt64.toNat_inj.mp (e.trans hi.symm))
  rw [Document.record?, Option.map_map]
  simp only [hlast, decide_false]
  rfl

/-- A document that is there is in a book. -/
theorem exists_book {L : Ledger} {r k : UInt64} {d : Document} (hd : L.document? r k = some d) :
    ∃ b, numbered L.books r = some b ∧ numbered b.documents k = some d :=
  Option.bind_eq_some_iff.mp hd

/-- A checksum that a registry has gets a version more. -/
theorem anchor_next (h : Represents env names s L) {ctx : Ctx} {record prev : Record} {k i : UInt64}
    (hnumber : s.recordIdByRegistryAndChecksum[(record.registryId, record.checksum)]? = some k)
    (hindex : s.recordIndices[(record.registryId, k)]? = some i)
    (hprev : s.records[(record.registryId, k, i)]? = some prev) (hmax : i ≠ counterMax)
    (account : Bytes) :
    Represents env names
      ((s.withVersion (record.versioned ctx k (i + 1))).withRecord (record.registryId, k, i)
        { prev with isLatest := false })
      (L.apply (.anchor account record.registryId record.checksum (record.version ctx))) := by
  obtain ⟨d, hd, hchecksum⟩ := (h.checksums _ _ _).mp hnumber
  obtain ⟨b, hb, hbd⟩ := exists_book hd
  have hlen : i.toNat = d.versions.length := by
    obtain ⟨n, hn, hlen⟩ := h.exists_versions hd
    cases hindex.symm.trans hn
    exact hlen
  have hold : record.checksum ∈ b.checksums := hchecksum ▸ List.mem_map_of_mem (mem_of_numbered hbd)
  have hdocuments := Book.documents_anchor_of_mem hold (record.version ctx)
  have hchecksum' : (d.extend record.checksum (record.version ctx)).checksum = record.checksum :=
    (d.checksum_extend _ _).trans hchecksum
  refine h.withDocument (k := k) (d := d.extend record.checksum (record.version ctx))
    (fun _ => rfl) rfl rfl rfl rfl ?counts ?document ?same ?indices ?records ?checksums ?swapped
  case counts =>
    intro r'
    simp only [Store.withRecord, Store.withVersion, numbered_change]
    by_cases hr : r' = record.registryId
    · rw [if_pos hr, hr, h.counts, hb, Option.map_some, Option.map_some, Option.map_some, hdocuments,
        List.length_map]
    · rw [if_neg hr]
      exact h.counts r'
  case document =>
    intro r' k'
    rw [document?_change]
    by_cases hr : r' = record.registryId
    · rw [if_pos hr, hr, hb, document?_eq hb, Option.bind_some, hdocuments, numbered_map]
      by_cases hk : k = k'
      · rw [← hk, hbd, if_pos rfl, Option.map_some]
      · rw [if_neg fun e => hk (Prod.mk.inj e).2]
        cases hd' : numbered b.documents k' with
        | none => rfl
        | some d' =>
          -- another document has another checksum, and is left as it is
          have hother : d'.checksum ≠ record.checksum := fun e =>
            hk ((h.checksum_eq_iff hd ((document?_eq hb k').trans hd')).mp (e.trans hchecksum.symm)).symm
          rw [Option.map_some, Document.extend, if_neg hother]
    · rw [if_neg hr, if_neg fun e => hr (Prod.mk.inj e).1.symm]
  case same =>
    intro k' d' hd'
    rw [hchecksum', ← hchecksum]
    exact h.checksum_eq_iff hd hd'
  case indices =>
    intro r' k'
    have hext : (d.extend record.checksum (record.version ctx)).versions.length = (i + 1).toNat := by
      rw [Document.extend, if_pos hchecksum, toNat_add_one hmax, hlen]
      exact List.length_append
    simp only [Store.withRecord, Store.withVersion, Record.versioned, Map.get?_insert, hext]
    split
    · rfl
    · rfl
  case records =>
    intro r' k' i'
    simp only [Store.withRecord, Store.withVersion, Map.get?_insert]
    by_cases hkey : (record.registryId, k) = (r', k')
    · cases hkey
      rw [if_pos rfl, record?_extend hchecksum hlen hmax]
      have hrecord : ∀ i', s.records[(record.registryId, k, i')]? = d.record? record.registryId k i' :=
        fun i' => by rw [h.records, hd, Option.bind_some]
      by_cases hi : i = i'
      · have hnext : ¬i + 1 = i' := by
          rw [← hi]
          exact (UInt64.ne_of_lt (lt_add_one_of_ne_counterMax hmax)).symm
        rw [if_pos (by rw [hi]), if_neg hnext, ← hi, ← hrecord, hprev, Option.map_some]
      · rw [if_neg fun e => hi (Prod.mk.inj (Prod.mk.inj e).2).2, hrecord,
          map_notLatest hlen fun e => hi e.symm]
        simp only [Record.versioned, Prod.mk.injEq, true_and]
    · rw [if_neg fun e => hkey (by cases e; rfl), if_neg fun e => hkey (by cases e; rfl), if_neg hkey]
  case checksums =>
    intro r' c
    rw [hchecksum']
    split
    · rename_i hkey
      rw [← hkey]
      exact hnumber
    · rfl
  case swapped =>
    intro r' c
    rw [hchecksum']
    split
    · rename_i hkey
      cases hkey
      exact (h.swapped _ _).trans hnumber
    · rfl

/-- The records of a document with a status changed. -/
theorem record?_setStatus (d : Document) (r k i i' : UInt64) (status : Bytes) :
    (d.setStatus i status).record? r k i' =
      if i' = i then (d.record? r k i').map ({ · with status }) else d.record? r k i' := by
  simp only [Document.setStatus, Document.record?, numbered_change, length_change]
  split
  · rw [Option.map_map, Option.map_map]
    rfl
  · rfl

/-- Another status of a version. -/
theorem setStatus (h : Represents env names s L) {r k i : UInt64} {record : Record}
    (hrecord : s.records[(r, k, i)]? = some record) (account status : Bytes) :
    Represents env names (s.withRecord (r, k, i) { record with status })
      (L.apply (.setStatus account r k i status)) := by
  have hstored := (h.records r k i).symm.trans hrecord
  obtain ⟨d, hd, hdi⟩ := Option.bind_eq_some_iff.mp hstored
  obtain ⟨b, hb, hbd⟩ := exists_book hd
  have hversions : (d.setStatus i status).versions.length = d.versions.length := length_change _ _ _
  refine h.withDocument (k := k) (d := d.setStatus i status)
    (fun _ => rfl) rfl rfl rfl rfl ?counts ?document ?same ?indices ?records ?checksums ?swapped
  case counts =>
    intro r'
    rw [numbered_books_change fun b => length_change b.documents _ _]
    exact h.counts r'
  case document =>
    intro r' k'
    rw [document?_change]
    by_cases hr : r' = r
    · rw [if_pos hr, hr, hb, document?_eq hb, Option.bind_some, Book.setStatus, numbered_change]
      by_cases hk : k = k'
      · rw [if_pos hk.symm, ← hk, hbd, if_pos rfl, Option.map_some]
      · rw [if_neg fun e => hk e.symm, if_neg fun e => hk (Prod.mk.inj e).2]
    · rw [if_neg hr, if_neg fun e => hr (Prod.mk.inj e).1.symm]
  case same =>
    intro k' d' hd'
    show d'.checksum = d.checksum ↔ k' = k
    exact h.checksum_eq_iff hd hd'
  case indices =>
    intro r' k'
    rw [hversions]
    split
    · rename_i hkey
      cases hkey
      exact (h.indices r k).trans (by rw [hd, Option.map_some])
    · rfl
  case records =>
    intro r' k' i'
    simp only [Store.withRecord, Map.get?_insert, record?_setStatus]
    by_cases hkey : (r, k) = (r', k')
    · cases hkey
      have hi' : s.records[(r, k, i')]? = d.record? r k i' := by rw [h.records, hd, Option.bind_some]
      rw [if_pos rfl, hi']
      by_cases hi : i = i'
      · rw [if_pos (by rw [hi]), if_pos hi.symm, ← hi, hdi, Option.map_some]
      · rw [if_neg fun e => hi (Prod.mk.inj (Prod.mk.inj e).2).2, if_neg fun e => hi e.symm]
    · rw [if_neg fun e => hkey (by cases e; rfl), if_neg hkey]
  case checksums =>
    intro r' c
    split
    · rename_i hkey
      cases hkey
      exact (h.checksums r k _).mpr ⟨d, hd, rfl⟩
    · rfl
  case swapped =>
    intro r' c
    split
    · rename_i hkey
      cases hkey
      exact (h.swapped r _).trans ((h.checksums r k _).mpr ⟨d, hd, rfl⟩)
    · rfl

end Represents

end Nvnmchain
