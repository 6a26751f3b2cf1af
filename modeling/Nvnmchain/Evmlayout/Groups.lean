import Nvnmchain.Anchoring.Run
import Nvnmchain.Evmlayout.Collected

/-!
# Which stores are migrated, and what is grouped

The migration checks two things: that the registries have the ids from 1 to the count, with no gap,
and that the admin of the params is an address. `migrate_succeeds_iff` says that nothing else is
refused, for every store, whether a chain can reach it or not.

The contract keeps three things the chain does not: the registries under each checksum, the registries
under each folded name, and the number of members of each role. `migrate_groups` says that what is
written is the grouping of the collections: one rising list for each key there is, and no other. The
number of members is counted in 64 bits; a role of `2^64` members would be written none
(`crowded_role_uncounted`).
-/

set_option autoImplicit false

namespace Nvnmchain.Evmlayout

open Go (Bytes str)
open Eth (Hash bytesToHash)
open Collections
open Runs (Groups)

section Accepted

variable {σ : Type} (env : Env) (s : Store) (st : σ)

/-- **Which stores are migrated.** To a sink that never fails, a store with params and a registry
count is migrated exactly when its registries have the ids from 1 to the count and the admin of the
params decodes as an address. -/
theorem migrate_succeeds_iff {sink : Sink σ} (total : ∀ st w, ∃ st', sink st w = .ok st')
    {count : UInt64} (hcount : s.registryCount = some count) {params : Params}
    (hparams : s.params = some params) :
    (∃ st', migrate env s sink st = .ok st') ↔
      (∀ r, r ∈ s.registries ↔ 1 ≤ r ∧ r ≤ count) ∧
        ∃ admin, env.accAddressFromBech32 params.admin = .ok admin := by
  simp only [migrate_eq_ok]
  constructor
  · rintro ⟨st', params', admin, count', hparams', hadmin, hdense, -⟩
    cases hparams.symm.trans hparams'
    cases hcount.symm.trans hdense.counted
    exact ⟨hdense.dense, admin, hadmin⟩
  · rintro ⟨hdense, admin, hadmin⟩
    obtain ⟨st', hst'⟩ := emitAll_total (skipZero sink) st (skipZero_total total)
      (storeWrites env s admin count)
    exact ⟨st', params, admin, count, hparams, hadmin, ⟨hcount, hdense⟩, hst'⟩

end Accepted

/-- A registry of the small chain, under a name. -/
def namedRegistry (id : UInt64) (name : String) : Registry :=
  ⟨id, str name, [], str "nvnm1qyfcvmjm", [], []⟩

/-- Registries 1 and 2, and a count that may be wrong. -/
def twoRegistries (count : UInt64) : Store :=
  { Store.initial smallParams with
    registries := (∅ : Map UInt64 Registry).insert 1 (namedRegistry 1 "Deeds") |>.insert 2
      (namedRegistry 2 "deeds")
    registryCount := some count }

/-- Two registries are migrated under the count 2 and refused under the count 3. -/
theorem migrate_succeeds_iff_two :
    (∃ writes, migrate smallEnv (twoRegistries 2) collect [] = .ok writes) ∧
      ¬ ∃ writes, migrate smallEnv (twoRegistries 3) collect [] = .ok writes := by
  have total : ∀ (st : List Write) (w : Write), ∃ st', collect st w = .ok st' := fun _ _ => ⟨_, rfl⟩
  constructor
  · refine (migrate_succeeds_iff smallEnv (twoRegistries 2) [] total rfl rfl).mpr
      ⟨fun r => ?_, [2], by decide +kernel⟩
    have hmem : r ∈ (twoRegistries 2).registries ↔ 2 = r ∨ 1 = r ∨ r ∈ (∅ : Map UInt64 Registry) :=
      Map.mem_insert.trans (or_congr_right Map.mem_insert)
    rw [hmem]
    simp only [Std.ExtTreeMap.not_mem_empty, or_false]
    constructor
    · rintro (rfl | rfl)
      · decide
      · decide
    · rintro ⟨hone, htwo⟩
      grind
  · intro haccepted
    have hdense := ((migrate_succeeds_iff smallEnv (twoRegistries 3) [] total rfl rfl).mp haccepted).1
    exact absurd ((hdense 3).mpr (by decide)) (by decide +kernel)

/-! ## Groups -/

/-- A name has a list if a registry has the name. -/
theorem mem_idsByName {l : List (UInt64 × Registry)} {m : Map Bytes (List UInt64)} {key : Bytes} :
    key ∈ idsByName l m ↔ (∃ e ∈ l, asciiLower e.2.name = key) ∨ key ∈ m := by
  induction l generalizing m with
  | nil => simp only [idsByName, List.foldl_nil, List.not_mem_nil, false_and, exists_false, false_or]
  | cons e rest ih =>
    have hcons : idsByName (e :: rest) m = idsByName rest (m.insert (asciiLower e.2.name)
      (m[asciiLower e.2.name]?.getD [] ++ [e.1])) := rfl
    rw [hcons, ih, Map.mem_insert, List.exists_mem_cons_iff, or_assoc, or_left_comm]

/-- The ids the walk gathers under each name are the groups of the registries by their folded name. -/
theorem groups_idsByName (s : Store) :
    Groups (· < ·)
      (fun name id => ∃ registry, s.registries[id]? = some registry ∧ asciiLower registry.name = name)
      (idsByName s.registries.toList ∅).toList := by
  have hentry : ∀ id registry, (id, registry) ∈ s.registries.toList ↔
      s.registries[id]? = some registry :=
    fun _ _ => Std.ExtTreeMap.mem_toList_iff_getElem?_eq_some
  have hids : ∀ g ∈ (idsByName s.registries.toList ∅).toList,
      g.2 = (s.registries.toList.filter (asciiLower ·.2.name = g.1)).map Prod.fst := by
    intro g hg
    have hget := Std.ExtTreeMap.mem_toList_iff_getElem?_eq_some.mp hg
    have hsplit := get?_idsByName s.registries.toList ∅ g.1
    rw [hget, Option.getD_some, Std.ExtTreeMap.getElem?_empty, Option.getD_none,
      List.nil_append] at hsplit
    exact hsplit
  refine ⟨?_, fun g hg => ?_, fun g hg id => ?_, fun name => ?_⟩
  · rw [Std.ExtTreeMap.map_fst_toList_eq_keys]
    exact Std.ExtTreeMap.nodup_keys
  · rw [hids g hg]
    exact (sorted_registryIds s).sublist (List.filter_sublist.map Prod.fst)
  · rw [hids g hg]
    simp only [List.mem_map, List.mem_filter, decide_eq_true_eq, Prod.exists, hentry]
    constructor
    · rintro ⟨id', registry, ⟨hget, hname⟩, rfl⟩
      exact ⟨registry, hget, hname⟩
    · rintro ⟨registry, hget, hname⟩
      exact ⟨id, registry, ⟨hget, hname⟩, rfl⟩
  · have hkey : (∃ g ∈ (idsByName s.registries.toList ∅).toList, g.1 = name) ↔
        name ∈ idsByName s.registries.toList ∅ := by
      rw [← Std.ExtTreeMap.mem_keys, ← Std.ExtTreeMap.map_fst_toList_eq_keys, List.mem_map]
    rw [hkey, mem_idsByName]
    simp only [Std.ExtTreeMap.not_mem_empty, or_false, Prod.exists, hentry]

/-- One count is written for a role, its number of members modulo `2^64`; none where that is zero. -/
def CountWritten (env : Env) (role : Role) (members : Nat) (writes : List Write) : Prop :=
  if members % 2 ^ 64 = 0 then writes = []
  else ∃ value : Hash, value.big = members % 2 ^ 64 ∧ value ≠ .zero ∧
    writes = [⟨mapHash env role (word slotRoleMemberCount), value⟩]

/-- The count of a role's members is written modulo 2^64. -/
theorem countWritten_ofNat (env : Env) (role : Role) (members : Nat) :
    CountWritten env role members (countWrites env role (UInt64.ofNat members)) := by
  have hnat : (UInt64.ofNat members).toNat = members % 2 ^ 64 := UInt64.toNat_ofNat'
  have hzero : UInt64.ofNat members = 0 ↔ members % 2 ^ 64 = 0 := by
    rw [← hnat, ← UInt64.toNat_inj, UInt64.toNat_zero]
  unfold CountWritten countWrites
  by_cases h : members % 2 ^ 64 = 0
  · rw [if_pos h, if_pos (hzero.mpr h)]
  · rw [if_neg h, if_neg fun e => h (hzero.mp e)]
    have hlt : members % 2 ^ 64 < 2 ^ 256 :=
      Nat.lt_trans (Nat.mod_lt members (by decide)) (by decide)
    have hbig : (word (UInt64.ofNat members)).big = members % 2 ^ 64 := by
      rw [word_eq, Eth.big_bigToHash, hnat, Nat.mod_eq_of_lt hlt]
    refine ⟨_, hbig, fun e => h ?_, rfl⟩
    rw [← hbig, e]
    decide

/-- **What the migration groups.** For every store that is migrated: the lists under the names and the
checksums are the groups of the registries and of the checksum index, rising and complete, one for
each key there is; each role that has members is counted once; and to every sink the migration hands
over these and the other collections, and nothing else, without the zero words. -/
theorem migrate_groups {env : Env} {s : Store} {τ : Type} {sink₀ : Sink τ} {st₀ st₁ : τ}
    (h : migrate env s sink₀ st₀ = .ok st₁) :
    ∃ (admin : Bytes) (count : UInt64) (names checksums : List (Bytes × List UInt64))
      (roles : List (Role × List Bytes)),
      Groups (· < ·) (fun name id => ∃ registry, s.registries[id]? = some registry ∧
        asciiLower registry.name = name) names ∧
      Groups (· < ·) (fun c r => (c, r) ∈ s.recordIdByChecksumAndRegistry) checksums ∧
      Groups (fun a b => compare a b = .lt) (fun role account => (role, account) ∈ s.rbac.roleMembers)
        roles ∧
      (∀ g ∈ roles,
        CountWritten env g.1 g.2.length (countWrites env g.1 (UInt64.ofNat g.2.length))) ∧
      ∀ (σ : Type) (sink : Sink σ) (st st' : σ), migrate env s sink st = .ok st' ↔
        emitAll (skipZero sink) st (handedOver env s admin count names checksums roles) = .ok st' := by
  obtain ⟨params, admin, count, hparams, hadmin, hdense, -⟩ := (migrate_eq_ok env s st₀).mp h
  have hchecksums := Runs.groups_runs_toList s.recordIdByChecksumAndRegistry
  refine ⟨admin, count, _, _, _, groups_idsByName s, ⟨hchecksums.keys, fun g hg => ?_, hchecksums.mem,
    hchecksums.present⟩, Runs.groups_runs_toList s.rbac.roleMembers,
    fun g _ => countWritten_ofNat env g.1 g.2.length, fun σ sink st st' => ?_⟩
  · exact (hchecksums.rising g hg).imp Std.compare_eq_lt.mp
  · rw [migrate_eq_ok]
    constructor
    · rintro ⟨params', admin', count', hparams', hadmin', hdense', hemit⟩
      cases hparams.symm.trans hparams'
      cases hadmin.symm.trans hadmin'
      cases hdense.counted.symm.trans hdense'.counted
      exact hemit
    · intro hemit
      exact ⟨params, admin, count, hparams, hadmin, hdense, hemit⟩

/-- The two registries stand under one folded name. -/
theorem migrate_groups_two :
    ∃ names : List (Bytes × List UInt64), Groups (· < ·)
        (fun name id => ∃ registry, (twoRegistries 2).registries[id]? = some registry ∧
          asciiLower registry.name = name) names ∧
      ∃ g ∈ names, g.1 = str "deeds" ∧ 1 ∈ g.2 ∧ 2 ∈ g.2 := by
  have hok : ∃ writes, migrate smallEnv (twoRegistries 2) collect [] = .ok writes := by
    cases h : migrate smallEnv (twoRegistries 2) collect [] with
    | ok writes => exact ⟨writes, rfl⟩
    | error e =>
      have hisOk : (migrate smallEnv (twoRegistries 2) collect []).isOk = true := by decide +kernel
      rw [h] at hisOk
      cases hisOk
  obtain ⟨writes, hok⟩ := hok
  obtain ⟨admin, count, names, checksums, roles, hnames, -⟩ := migrate_groups hok
  have hone : ∃ registry, (twoRegistries 2).registries[(1 : UInt64)]? = some registry ∧
      asciiLower registry.name = str "deeds" := ⟨namedRegistry 1 "Deeds", by decide +kernel⟩
  have htwo : ∃ registry, (twoRegistries 2).registries[(2 : UInt64)]? = some registry ∧
      asciiLower registry.name = str "deeds" := ⟨namedRegistry 2 "deeds", by decide +kernel⟩
  obtain ⟨g, hg, hkey⟩ := (hnames.present (str "deeds")).mpr ⟨1, hone⟩
  exact ⟨names, hnames, g, hg, hkey, (hnames.mem g hg 1).mpr (hkey ▸ hone),
    (hnames.mem g hg 2).mpr (hkey ▸ htwo)⟩

/-! ## A role too large to count -/

/-- A role. -/
def crowdedRole : Role := bytesToHash [7]

/-- The first accounts of eight bytes. -/
def accountsBelow (n : Nat) : List Bytes := (List.range n).map (Eth.beBytes 8)

/-- A store with one role, held by the first accounts. -/
def crowdedStore (n : Nat) : Store :=
  { Store.initial smallParams with
    rbac := {
      roleAdmins := ∅
      roleMembers := Map.assign (fun account => (crowdedRole, account)) (fun _ => []) ∅
        (accountsBelow n) } }

theorem nodup_accountsBelow {n : Nat} (hn : n ≤ 2 ^ 64) : (accountsBelow n).Nodup := by
  refine List.Nodup.map_on (fun i hi j hj e => ?_) List.nodup_range
  have hi' : i < 256 ^ 8 := Nat.lt_of_lt_of_le (List.mem_range.mp hi) hn
  have hj' : j < 256 ^ 8 := Nat.lt_of_lt_of_le (List.mem_range.mp hj) hn
  have hback := congrArg Eth.beNat e
  rwa [Eth.beNat_beBytes, Eth.beNat_beBytes, Nat.mod_eq_of_lt hi', Nat.mod_eq_of_lt hj'] at hback

/-- The crowded store has one role, with as many members as it takes. -/
theorem mem_crowdedStore {n : Nat} {role : Role} {account : Bytes} :
    (role, account) ∈ (crowdedStore n).rbac.roleMembers ↔
      role = crowdedRole ∧ account ∈ accountsBelow n := by
  have hassign : (role, account) ∈ (crowdedStore n).rbac.roleMembers ↔
      (∃ a ∈ accountsBelow n, (crowdedRole, a) = (role, account)) ∨
        (role, account) ∈ (∅ : Map (Role × Bytes) Bytes) := Map.mem_assign
  rw [hassign]
  simp only [Std.ExtTreeMap.not_mem_empty, or_false, Prod.mk.injEq]
  constructor
  · rintro ⟨a, ha, rfl, rfl⟩
    exact ⟨rfl, ha⟩
  · rintro ⟨rfl, ha⟩
    exact ⟨account, ha, rfl, rfl⟩

/-- The one group of the crowded store has all the accounts. -/
theorem length_crowded {n : Nat} (hn : n ≤ 2 ^ 64) {g : Role × List Bytes}
    (hg : g ∈ Runs.runs ((crowdedStore n).rbac.roleMembers.toList.map Prod.fst)) :
    g.1 = crowdedRole ∧ g.2.length = n := by
  have hgroups := Runs.groups_runs_toList (crowdedStore n).rbac.roleMembers
  obtain ⟨account, hmember⟩ := (hgroups.present g.1).mp ⟨g, hg, rfl⟩
  have hrole : g.1 = crowdedRole := (mem_crowdedStore.mp hmember).1
  have hnodup : g.2.Nodup := (hgroups.rising g hg).imp fun {a b} hlt e => by
    subst e
    have hself : compare a a = .eq := Std.ReflCmp.compare_self
    rw [hself] at hlt
    cases hlt
  have hperm : g.2.Perm (accountsBelow n) := by
    refine (List.perm_ext_iff_of_nodup hnodup (nodup_accountsBelow hn)).mpr fun a => ?_
    rw [hgroups.mem g hg, mem_crowdedStore]
    exact and_iff_right hrole
  refine ⟨hrole, ?_⟩
  rw [hperm.length_eq, accountsBelow, List.length_map, List.length_range]

/-- Besides the members there is only the header. -/
theorem storeWrites_crowdedStore (n : Nat) :
    storeWrites smallEnv (crowdedStore n) [2] 0 = ⟨word slotHeader, headerWord [2] 0⟩ ::
      (Runs.runs ((crowdedStore n).rbac.roleMembers.toList.map Prod.fst)).flatMap
        (roleWrites smallEnv) := rfl

/-- The small chain's hash keeps the last word of what it hashes. -/
theorem mapHash_smallEnv (key parent : Hash) : mapHash smallEnv key parent = parent := by
  have hlength : (key.bytes ++ parent.bytes).length = 64 := by
    rw [List.length_append, key.length_bytes, parent.length_bytes]
  refine Hash.ext_bytes ?_
  show List.replicate (32 - (key.bytes ++ parent.bytes).length) 0 ++
    (key.bytes ++ parent.bytes).drop ((key.bytes ++ parent.bytes).length - 32) = parent.bytes
  rw [hlength]
  exact List.drop_left' key.length_bytes

/-- A role with `2^64` members. It is migrated, and no count is written for the role. -/
theorem crowded_role_uncounted :
    (crowdedRole, Eth.beBytes 8 0) ∈ (crowdedStore (2 ^ 64)).rbac.roleMembers ∧
      ∃ writes, migrate smallEnv (crowdedStore (2 ^ 64)) collect [] = .ok writes ∧
        ∀ w ∈ writes, w.slot ≠ mapHash smallEnv crowdedRole (word slotRoleMemberCount) := by
  have hmember : Eth.beBytes 8 0 ∈ accountsBelow (2 ^ 64) :=
    List.mem_map.mpr ⟨0, List.mem_range.mpr (by decide), rfl⟩
  refine ⟨mem_crowdedStore.mpr ⟨rfl, hmember⟩, ?_⟩
  have hdense : DenseRegistries (crowdedStore (2 ^ 64)) 0 :=
    ⟨rfl, fun r => ⟨fun hr => absurd hr Std.ExtTreeMap.not_mem_empty, by grind⟩⟩
  refine ⟨_, (migrate_eq_ok smallEnv (crowdedStore (2 ^ 64)) []).mpr ⟨smallParams, [2], 0, rfl,
    by decide +kernel, hdense, emitAll_collect _ _⟩, ?_⟩
  intro w hw
  rw [List.nil_append] at hw
  rw [mapHash_smallEnv]
  have hwrites := (List.mem_filter.mp hw).1
  rw [storeWrites_crowdedStore, List.mem_cons, List.mem_flatMap] at hwrites
  rcases hwrites with rfl | ⟨g, hg, hwg⟩
  · decide +kernel
  · obtain ⟨hrole, hlength⟩ := length_crowded (Nat.le_refl _) hg
    rw [roleWrites, hlength, List.mem_append] at hwg
    rcases hwg with hmembers | hcount
    · obtain ⟨account, -, rfl⟩ := List.mem_map.mp hmembers
      rw [memberWrite, mapHash_smallEnv, mapHash_smallEnv]
      decide +kernel
    · have hzero : UInt64.ofNat (2 ^ 64) = 0 := by decide
      rw [hzero] at hcount
      exact absurd hcount List.not_mem_nil

end Nvnmchain.Evmlayout
