import Nvnmchain.Evmlayout.Migrate
import Nvnmchain.Lib.Runs

/-!
# What the migration hands over, to any sink

A step of the migration does two things: it checks the store, and it hands over writes. Neither
depends on the sink. So a step is known by its writes: to every sink, failing ones included, it does
what handing over that list does (`migrateChecksumIndex_eq`, `migrateRoles_eq` and the others), and
the steps that check say when they go on (`migrateRegistries_eq_ok`, `migrateHeader_eq_ok`). For the
whole migration both are in `migrate_eq_ok`.

The steps that only walk and emit are one lemma (`emitEach_eq`). The others carry more through their
walks: the registries the last id and the names, the checksum index and the role members the group
they are in, which a change of key ends. The groups are the runs of the walk's keys.
-/

set_option autoImplicit false

namespace Nvnmchain.Evmlayout

open Go (Bytes str)
open Eth (Hash bytesToHash)
open Collections

/-! ## Emitting -/

section Emit

variable {σ : Type} (emit : Sink σ) (st : σ)

/-- Lists of writes are handed over one after the other. -/
theorem emitAll_append (a b : List Write) :
    emitAll emit st (a ++ b) = emitAll emit st a >>= fun st => emitAll emit st b :=
  List.foldlM_append

theorem emitAll_cons (w : Write) (writes : List Write) :
    emitAll emit st (w :: writes) = emit st w >>= fun st => emitAll emit st writes :=
  List.foldlM_cons

theorem emitAll_singleton (w : Write) : emitAll emit st [w] = emit st w := by
  rw [emitAll, List.foldlM_cons]
  cases emit st w with
  | ok st' => rfl
  | error e => rfl

/-- Handing over lists one after another is handing over their concatenation. -/
theorem foldlM_emitAll {α : Type} (f : α → List Write) (l : List α) :
    l.foldlM (fun st e => emitAll emit st (f e)) st = emitAll emit st (l.flatMap f) := by
  induction l generalizing st with
  | nil => rfl
  | cons e rest ih =>
    rw [List.foldlM_cons, List.flatMap_cons, emitAll_append]
    exact congrArg (emitAll emit st (f e) >>= ·) (funext fun st => ih st)

/-- A walk that hands over some writes for each entry hands over all of them. -/
theorem emitEach_eq {κ ν : Type} (f : κ → ν → List Write) (l : List (κ × ν)) :
    emitEach emit f st l = emitAll emit st (l.flatMap fun e => f e.1 e.2) := by
  induction l generalizing st with
  | nil => rfl
  | cons e rest ih =>
    obtain ⟨k, v⟩ := e
    rw [List.flatMap_cons, emitAll_append, emitEach, walk]
    cases emitAll emit st (f k v) with
    | ok st' => exact ih st'
    | error e => rfl

/-- A sink that never fails takes every list. -/
theorem emitAll_total (total : ∀ st w, ∃ st', emit st w = .ok st') (writes : List Write) :
    ∃ st', emitAll emit st writes = .ok st' := by
  induction writes generalizing st with
  | nil => exact ⟨st, rfl⟩
  | cons w rest ih =>
    obtain ⟨st₁, h₁⟩ := total st w
    obtain ⟨st₂, h₂⟩ := ih st₁
    refine ⟨st₂, ?_⟩
    rw [emitAll, List.foldlM_cons, h₁]
    exact h₂

end Emit

/-- Leaving out zero words does not make a sink fail. -/
theorem skipZero_total {σ : Type} {sink : Sink σ} (total : ∀ st w, ∃ st', sink st w = .ok st')
    (st : σ) (w : Write) : ∃ st', skipZero sink st w = .ok st' := by
  unfold skipZero
  split
  · exact ⟨st, rfl⟩
  · exact total st w

/-! ## Registries -/

/-- Ids that run on one by one, and the last of them. -/
def Consecutive : UInt64 → List UInt64 → UInt64 → Prop
  | p, [], n => p = n
  | p, id :: rest, n => id = p + 1 ∧ Consecutive id rest n

/-- The sorted list of the ids after `p` up to `n` runs on one by one. -/
theorem consecutive_of_dense {l : List UInt64} {p n : UInt64} (hsorted : l.Pairwise (· < ·))
    (hpn : p ≤ n) (hdense : ∀ r, r ∈ l ↔ p < r ∧ r ≤ n) : Consecutive p l n := by
  induction l generalizing p with
  | nil =>
    refine UInt64.le_antisymm hpn (UInt64.not_lt.mp fun hlt => ?_)
    exact List.not_mem_nil ((hdense n).mpr ⟨hlt, UInt64.le_refl n⟩)
  | cons id rest ih =>
    obtain ⟨hfirst, hsorted⟩ := List.pairwise_cons.mp hsorted
    obtain ⟨hpid, hidn⟩ := (hdense id).mp List.mem_cons_self
    have hnext : p < p + 1 ∧ p + 1 ≤ id := by grind
    have hid : id = p + 1 := by
      rcases List.mem_cons.mp ((hdense (p + 1)).mpr ⟨hnext.1, UInt64.le_trans hnext.2 hidn⟩) with
        heq | hlater
      · exact heq.symm
      · exact absurd (hfirst _ hlater) (UInt64.not_lt.mpr hnext.2)
    refine ⟨hid, ih hsorted hidn fun r => ?_⟩
    constructor
    · intro hr
      exact ⟨hfirst r hr, ((hdense r).mp (List.mem_cons_of_mem _ hr)).2⟩
    · rintro ⟨hidr, hrn⟩
      have hmem := (hdense r).mpr ⟨UInt64.lt_trans hpid hidr, hrn⟩
      exact (List.mem_cons.mp hmem).resolve_left fun e => UInt64.lt_irrefl id (e ▸ hidr)

/-- A sorted list that runs on one by one is the list of the ids after `p` up to `n`. The ids cannot
come back to zero: each is above the one before. -/
theorem dense_of_consecutive {l : List UInt64} {p n : UInt64} (hsorted : (p :: l).Pairwise (· < ·))
    (h : Consecutive p l n) : p ≤ n ∧ ∀ r, r ∈ l ↔ p < r ∧ r ≤ n := by
  induction l generalizing p with
  | nil =>
    have hpn : p = n := h
    subst hpn
    refine ⟨UInt64.le_refl p, fun r => ⟨fun hr => absurd hr List.not_mem_nil, ?_⟩⟩
    rintro ⟨hlt, hle⟩
    exact absurd hlt (UInt64.not_lt.mpr hle)
  | cons id rest ih =>
    obtain ⟨hid, hrest⟩ := h
    obtain ⟨hfirst, hsorted⟩ := List.pairwise_cons.mp hsorted
    obtain ⟨hidn, hmem⟩ := ih hsorted hrest
    have hpid : p < id := hfirst id List.mem_cons_self
    refine ⟨UInt64.le_trans (UInt64.le_of_lt hpid) hidn, fun r => ?_⟩
    rw [List.mem_cons, hmem]
    constructor
    · rintro (rfl | ⟨hlt, hle⟩)
      · exact ⟨hpid, hidn⟩
      · exact ⟨UInt64.lt_trans hpid hlt, hle⟩
    · rintro ⟨hlt, hle⟩
      by_cases hr : r = id
      · exact .inl hr
      · exact .inr ⟨by grind, hle⟩

/-- Registries with the ids from 1 to the count. -/
structure DenseRegistries (s : Store) (count : UInt64) : Prop where
  counted : s.registryCount = some count
  dense : ∀ r, r ∈ s.registries ↔ 1 ≤ r ∧ r ≤ count

/-- The registries are walked by rising ids. -/
theorem sorted_registryIds (s : Store) : (s.registries.toList.map Prod.fst).Pairwise (· < ·) := by
  refine List.pairwise_map.mpr (Std.ExtTreeMap.ordered_keys_toList.imp fun {a b} h => ?_)
  exact Std.compare_eq_lt.mp h

theorem mem_registryIds {s : Store} {r : UInt64} :
    r ∈ s.registries.toList.map Prod.fst ↔ r ∈ s.registries := by
  rw [Std.ExtTreeMap.map_fst_toList_eq_keys, Std.ExtTreeMap.mem_keys]

/-- The walk's check, each id one after the other and the last the count, is the statement about the
set of ids. -/
theorem consecutive_iff_dense {s : Store} {count : UInt64} :
    Consecutive 0 (s.registries.toList.map Prod.fst) count ↔
      ∀ r, r ∈ s.registries ↔ 1 ≤ r ∧ r ≤ count := by
  have hsorted := sorted_registryIds s
  have hone : ∀ r : UInt64, 0 < r ∧ r ≤ count ↔ 1 ≤ r ∧ r ≤ count := by
    intro r
    exact and_congr_left fun _ => by grind
  constructor
  · intro h r
    have hpos : ∀ id ∈ s.registries.toList.map Prod.fst, 0 < id := by
      intro id hid
      cases hl : s.registries.toList.map Prod.fst with
      | nil => rw [hl] at hid; exact absurd hid List.not_mem_nil
      | cons first rest =>
        rw [hl] at hid h hsorted
        have hfirst : first = 0 + 1 := h.1
        rcases List.mem_cons.mp hid with rfl | hlater
        · rw [hfirst]
          decide
        · exact UInt64.lt_of_le_of_lt UInt64.zero_le ((List.pairwise_cons.mp hsorted).1 id hlater)
    obtain ⟨-, hmem⟩ := dense_of_consecutive (List.pairwise_cons.mpr ⟨hpos, hsorted⟩) h
    rw [← mem_registryIds, hmem, hone]
  · intro h
    refine consecutive_of_dense hsorted UInt64.zero_le fun r => ?_
    rw [mem_registryIds, h, hone]

/-- The ids of the registries under each folded name, in the order of the walk. -/
def idsByName (l : List (UInt64 × Registry)) (byName : Map Bytes (List UInt64)) :
    Map Bytes (List UInt64) :=
  l.foldl (fun m e => m.insert (asciiLower e.2.name) (m[asciiLower e.2.name]?.getD [] ++ [e.1])) byName

/-- Every list of ids under a name is part of the walk. -/
theorem get?_idsByName (l : List (UInt64 × Registry)) (m : Map Bytes (List UInt64)) (key : Bytes) :
    (idsByName l m)[key]?.getD [] =
      m[key]?.getD [] ++ (l.filter (asciiLower ·.2.name = key)).map Prod.fst := by
  induction l generalizing m with
  | nil => simp [idsByName]
  | cons e rest ih =>
    have hcons : idsByName (e :: rest) m = idsByName rest (m.insert (asciiLower e.2.name)
      (m[asciiLower e.2.name]?.getD [] ++ [e.1])) := rfl
    rw [hcons, ih]
    by_cases hkey : asciiLower e.2.name = key
    · rw [hkey, Std.ExtTreeMap.getElem?_insert_self, Option.getD_some,
        List.filter_cons_of_pos (by simpa using hkey), List.map_cons, List.append_assoc]
      rfl
    · rw [Map.get?_insert_ne _ _ hkey, List.filter_cons_of_neg (by simpa using hkey)]

section Steps

variable {σ : Type} (env : Env) (s : Store) (emit : Sink σ) (st : σ)

/-- The walk goes on while the ids do. -/
theorem walk_registries_eq_ok {l : List (UInt64 × Registry)} {w w' : RegistryWalk σ} :
    walk (migrateRegistry env emit) w l = .ok w' ↔
      Consecutive w.previous (l.map Prod.fst) w'.previous ∧ w'.byName = idsByName l w.byName ∧
        emitAll emit w.sink (l.flatMap fun e => registryWrites env (registryBase env e.1) e.2) =
          .ok w'.sink := by
  induction l generalizing w with
  | nil =>
    obtain ⟨previous, byName, sink⟩ := w
    obtain ⟨previous', byName', sink'⟩ := w'
    simp only [walk, List.map_nil, List.flatMap_nil, Consecutive, idsByName, List.foldl_nil, emitAll,
      List.foldlM_nil, pure, Except.pure, Except.ok.injEq, RegistryWalk.mk.injEq]
    exact and_congr_right fun _ => and_congr_left fun _ => eq_comm
  | cons e rest ih =>
    obtain ⟨id, registry⟩ := e
    rw [walk, migrateRegistry, List.map_cons, List.flatMap_cons, emitAll_append, Consecutive]
    by_cases hid : id = w.previous + 1
    · rw [if_neg (not_not.mpr hid)]
      cases emitAll emit w.sink (registryWrites env (registryBase env id) registry) with
      | ok sink =>
        refine ih.trans ?_
        exact (and_iff_right hid).symm.trans and_assoc.symm
      | error e => exact ⟨(fun h => nomatch h), (fun h => nomatch h.2.2)⟩
    · rw [if_pos hid]
      exact ⟨(fun h => nomatch h), (fun h => absurd h.1.1 hid)⟩

/-- A step that succeeded leaves no sink behind. -/
theorem leaving_eq_ok {α : Type} {x : Except Err α} {a : α} : leaving st x = .ok a ↔ x = .ok a := by
  cases x with
  | ok b => simp only [leaving, Except.ok.injEq]
  | error e => exact ⟨(fun h => nomatch h), (fun h => nomatch h)⟩

/-- **Registries.** The step goes on exactly when the ids run from 1 to the count, and then it hands
over each registry and the list of each name. -/
theorem migrateRegistries_eq_ok {st' : σ} :
    migrateRegistries env s emit st = .ok st' ↔ ∃ count, DenseRegistries s count ∧
      emitAll emit st
        ((s.registries.toList.flatMap fun e => registryWrites env (registryBase env e.1) e.2) ++
          (idsByName s.registries.toList ∅).toList.flatMap fun e =>
            idsWrites env (word slotRegistriesByName) e.1 e.2) = .ok st' := by
  rw [migrateRegistries, bind_eq_ok]
  constructor
  · rintro ⟨w, hw, h⟩
    obtain ⟨hids, hnames, hsink⟩ := (walk_registries_eq_ok env emit).mp hw
    obtain ⟨count, hcount, h⟩ := bind_eq_ok.mp h
    rw [leaving_eq_ok, getOrNotFound_eq_ok] at hcount
    split at h
    · exact nomatch h
    · rename_i hsame
      rw [not_ne_iff.mp hsame] at hcount
      refine ⟨w.previous, ⟨hcount, consecutive_iff_dense.mp hids⟩, ?_⟩
      rw [foldlM_emitAll, hnames] at h
      rw [emitAll_append]
      exact bind_eq_ok.mpr ⟨w.sink, hsink, h⟩
  · rintro ⟨count, hdense, h⟩
    rw [emitAll_append] at h
    obtain ⟨sink, hsink, h⟩ := bind_eq_ok.mp h
    refine ⟨⟨count, idsByName s.registries.toList ∅, sink⟩, ?_, ?_⟩
    · exact (walk_registries_eq_ok env emit).mpr
        ⟨consecutive_iff_dense.mpr hdense.dense, rfl, hsink⟩
    · refine bind_eq_ok.mpr ⟨count, ?_, ?_⟩
      · rw [leaving_eq_ok, getOrNotFound_eq_ok]
        exact hdense.counted
      · rw [if_neg (not_ne_iff.mpr rfl), foldlM_emitAll]
        exact h

/-! ## The other steps -/

/-- What `migrateRecordCounts` hands over. -/
theorem migrateRecordCounts_eq : migrateRecordCounts env s emit st = emitAll emit st
    (s.recordsCountByRegistry.toList.flatMap fun e =>
      [⟨mapUint64 env e.1 (word slotRecordCount), word e.2⟩]) :=
  emitEach_eq emit st _ _

/-- What `migrateRecords` hands over. -/
theorem migrateRecords_eq : migrateRecords env s emit st = emitAll emit st
    (s.records.toList.flatMap fun e =>
      recordWrites env (recordBase env e.1.1 e.1.2.1 e.1.2.2) e.2) :=
  emitEach_eq emit st _ _

/-- What `migrateLatestIndexes` hands over. -/
theorem migrateLatestIndexes_eq : migrateLatestIndexes env s emit st = emitAll emit st
    (s.recordIndices.toList.flatMap fun e =>
      [⟨mapUint64 env e.1.2 (mapUint64 env e.1.1 (word slotLatestIndex)), word e.2⟩]) :=
  emitEach_eq emit st _ _

/-- What `migrateRecordIDs` hands over. -/
theorem migrateRecordIDs_eq : migrateRecordIDs env s emit st = emitAll emit st
    (s.recordIdByRegistryAndChecksum.toList.flatMap fun e =>
      [⟨mapString env e.1.2 (mapUint64 env e.1.1 (word slotRecordIDByChecksum)), word e.2⟩]) :=
  emitEach_eq emit st _ _

/-- **The header.** The step goes on exactly when the admin is an address. -/
theorem migrateHeader_eq_ok {st' : σ} :
    migrateHeader env s emit st = .ok st' ↔ ∃ params admin count, s.params = some params ∧
      env.accAddressFromBech32 params.admin = .ok admin ∧ s.registryCount = some count ∧
      emit st ⟨word slotHeader, headerWord admin count⟩ = .ok st' := by
  simp only [migrateHeader, bind_eq_ok, leaving_eq_ok, getOrNotFound_eq_ok, wrapf_eq_ok]
  constructor
  · rintro ⟨params, hparams, admin, hadmin, count, hcount, h⟩
    exact ⟨params, admin, count, hparams, hadmin, hcount, h⟩
  · rintro ⟨params, admin, count, hparams, hadmin, hcount, h⟩
    exact ⟨params, hparams, admin, hadmin, count, hcount, h⟩

/-- The list of a checksum's registries. -/
def checksumWrites (g : Bytes × List UInt64) : List Write :=
  idsWrites env (word slotRegistriesByChecksum) g.1 g.2

/-- A flush hands over the run that ends, and leaves the runs after it. -/
theorem flushIds_eq (w : ChecksumWalk σ) (rest : List (Bytes × UInt64))
    (hrest : ∀ e ∈ rest.head?, e.1 ≠ w.current) :
    ∃ writes, flushIds env emit w = emitAll emit w.sink writes ∧
      (Runs.runs (w.registries.map (w.current, ·) ++ rest)).flatMap (checksumWrites env) =
        writes ++ (Runs.runs rest).flatMap (checksumWrites env) := by
  by_cases hempty : w.registries = []
  · refine ⟨[], ?_, by rw [hempty]; rfl⟩
    rw [flushIds, hempty]
    rfl
  · refine ⟨checksumWrites env (w.current, w.registries), ?_, ?_⟩
    · rw [flushIds, if_neg fun e => hempty (List.eq_nil_of_length_eq_zero e)]
      rfl
    · rw [Runs.runs_append hempty hrest, List.flatMap_cons]

/-- The walk over the checksum index and its last flush hand over a list for each run of a checksum.
The runs begin with the entries of the run the walk is in. -/
theorem walk_checksums {l : List ((Bytes × UInt64) × UInt64)} {w : ChecksumWalk σ} :
    (walk (migrateChecksum env emit) w l >>= flushIds env emit) = emitAll emit w.sink
      ((Runs.runs (w.registries.map (w.current, ·) ++ l.map Prod.fst)).flatMap
        (checksumWrites env)) := by
  induction l generalizing w with
  | nil =>
    obtain ⟨writes, hflush, hruns⟩ := flushIds_eq env emit w [] (fun _ he => by cases he)
    rw [List.map_nil, hruns]
    refine hflush.trans ?_
    rw [Runs.runs, List.flatMap_nil, List.append_nil]
  | cons e rest ih =>
    obtain ⟨⟨c, r⟩, v⟩ := e
    rw [walk, migrateChecksum, bind_assoc]
    by_cases hc : c = w.current
    · -- the run goes on
      have hlist : w.registries.map (w.current, ·) ++ (((c, r), v) :: rest).map Prod.fst =
          (w.registries ++ [r]).map (w.current, ·) ++ rest.map Prod.fst := by
        rw [hc, List.map_append, List.append_assoc]
        rfl
      rw [if_neg (not_not.mpr hc), hlist]
      exact ih (w := { w with registries := w.registries ++ [r] })
    · -- the run ends, and the next begins with this entry
      obtain ⟨writes, hflush, hruns⟩ := flushIds_eq env emit w ((((c, r), v) :: rest).map Prod.fst)
        (fun e he => by cases he; exact hc)
      rw [if_pos hc, hruns, emitAll_append, hflush]
      cases emitAll emit w.sink writes with
      | ok sink => exact ih (w := ⟨c, [r], sink⟩)
      | error e => rfl

/-- What `migrateChecksumIndex` hands over: one list for each run of a checksum. -/
theorem migrateChecksumIndex_eq : migrateChecksumIndex env s emit st = emitAll emit st
    ((Runs.runs (s.recordIdByChecksumAndRegistry.toList.map Prod.fst)).flatMap
      (checksumWrites env)) :=
  walk_checksums env emit (w := ⟨[], [], st⟩)

/-- The membership of an account. -/
def memberWrite (role : Role) (account : Bytes) : Write :=
  ⟨mapHash env (bytesToHash account) (mapHash env role (word slotRoleMembers)), word 1⟩

/-- The number of a role's members, which is not written when it is zero. -/
def countWrites (role : Role) (count : UInt64) : List Write :=
  if count = 0 then [] else [⟨mapHash env role (word slotRoleMemberCount), word count⟩]

/-- The members of a role, then their number. -/
def roleWrites (g : Role × List Bytes) : List Write :=
  g.2.map (memberWrite env g.1) ++ countWrites env g.1 (UInt64.ofNat g.2.length)

/-- A finished role hands over its member count. -/
theorem flushCount_eq (w : MemberWalk σ) :
    flushCount env emit w = emitAll emit w.sink (countWrites env w.current w.members) := by
  unfold flushCount countWrites
  split
  · rfl
  · exact (emitAll_singleton emit w.sink _).symm

/-- A flush completes the run that ends, whose members were handed over, and leaves the runs after
it. The run the walk starts in is empty, and nothing is written for it. -/
theorem runs_flushed {role : Role} {accounts : List Bytes} {rest : List (Role × Bytes)}
    (hrest : ∀ e ∈ rest.head?, e.1 ≠ role) :
    (Runs.runs (accounts.map (role, ·) ++ rest)).flatMap (roleWrites env) =
      accounts.map (memberWrite env role) ++ countWrites env role (UInt64.ofNat accounts.length) ++
        (Runs.runs rest).flatMap (roleWrites env) := by
  by_cases hempty : accounts = []
  · rw [hempty]
    rfl
  · rw [Runs.runs_append hempty hrest, List.flatMap_cons, roleWrites]

/-- What the walk hands over from a count of the current role on: each member, and the count of a role
where the next one begins. -/
def memberWrites : Role → UInt64 → List (Role × Bytes) → List Write
  | current, members, [] => countWrites env current members
  | current, members, (role, account) :: rest =>
    if role = current then memberWrite env role account :: memberWrites role (members + 1) rest
    else countWrites env current members ++ memberWrite env role account :: memberWrites role 1 rest

/-- The walk over the members hands over flags, and a count after each role. -/
theorem walk_members {l : List ((Role × Bytes) × Bytes)} {w : MemberWalk σ} :
    (walk (migrateMember env emit) w l >>= flushCount env emit) =
      emitAll emit w.sink (memberWrites env w.current w.members (l.map Prod.fst)) := by
  induction l generalizing w with
  | nil => exact flushCount_eq env emit w
  | cons e rest ih =>
    obtain ⟨⟨role, account⟩, v⟩ := e
    rw [walk, migrateMember, bind_assoc, List.map_cons, memberWrites]
    by_cases hrole : role = w.current
    · rw [if_neg (not_not.mpr hrole), if_pos hrole, emitAll_cons, hrole]
      dsimp only [memberWrite, pure, Except.pure, bind, Except.bind]
      cases emit w.sink ⟨mapHash env (bytesToHash account)
          (mapHash env w.current (word slotRoleMembers)), word 1⟩ with
      | ok sink => exact ih (w := ⟨w.current, w.members + 1, sink⟩)
      | error e => rfl
    · rw [if_pos hrole, if_neg hrole, emitAll_append, flushCount_eq]
      cases emitAll emit w.sink (countWrites env w.current w.members) with
      | ok sink =>
        dsimp only [bind, Except.bind, pure, Except.pure]
        rw [emitAll_cons]
        dsimp only [memberWrite, bind, Except.bind]
        cases emit sink ⟨mapHash env (bytesToHash account)
            (mapHash env role (word slotRoleMembers)), word 1⟩ with
        | ok sink => exact ih (w := ⟨role, 1, sink⟩)
        | error e => rfl
      | error e => rfl

/-- After some members of a role, what follows completes the runs. -/
theorem memberWrites_eq_runs (role : Role) (accounts : List Bytes) (l : List (Role × Bytes)) :
    accounts.map (memberWrite env role) ++
        memberWrites env role (UInt64.ofNat accounts.length) l =
      (Runs.runs (accounts.map (role, ·) ++ l)).flatMap (roleWrites env) := by
  induction l generalizing role accounts with
  | nil =>
    rw [runs_flushed env (fun _ he => by cases he), memberWrites]
    exact (List.append_nil _).symm
  | cons e rest ih =>
    obtain ⟨role', account⟩ := e
    rw [memberWrites]
    by_cases hrole : role' = role
    · have hnext := ih role (accounts ++ [account])
      rw [List.map_append, List.append_assoc, List.length_append, List.length_singleton,
        UInt64.ofNat_add, List.map_append, List.append_assoc] at hnext
      rw [if_pos hrole, hrole]
      exact hnext
    · rw [if_neg hrole, runs_flushed env fun e he => by cases he; exact hrole, List.append_assoc]
      exact congrArg (fun writes => _ ++ (_ ++ writes)) (ih role' [account])

/-- **Roles.** The step hands over each role's administrator, and for each run of the member keys the
members and their number. -/
theorem migrateRoles_eq : migrateRoles env s emit st = emitAll emit st
    ((s.rbac.roleAdmins.toList.flatMap fun e =>
        [⟨mapHash env e.1 (word slotRoleAdmin), bytesToHash e.2⟩]) ++
      (Runs.runs (s.rbac.roleMembers.toList.map Prod.fst)).flatMap (roleWrites env)) := by
  rw [migrateRoles, emitEach_eq, emitAll_append]
  refine congrArg (_ >>= ·) (funext fun st => ?_)
  refine (walk_members env emit).trans (congrArg (emitAll emit st) ?_)
  exact memberWrites_eq_runs env (bytesToHash []) [] _

/-! ## The whole migration -/

/-- What a migration hands over, for the groups of names, checksums and role members. -/
def handedOver (admin : Bytes) (count : UInt64) (names checksums : List (Bytes × List UInt64))
    (roles : List (Role × List Bytes)) : List Write :=
  (s.registries.toList.flatMap fun e => registryWrites env (registryBase env e.1) e.2) ++
    (names.flatMap fun g => idsWrites env (word slotRegistriesByName) g.1 g.2) ++
    (s.recordsCountByRegistry.toList.flatMap fun e =>
      [⟨mapUint64 env e.1 (word slotRecordCount), word e.2⟩]) ++
    (s.records.toList.flatMap fun e =>
      recordWrites env (recordBase env e.1.1 e.1.2.1 e.1.2.2) e.2) ++
    (s.recordIndices.toList.flatMap fun e =>
      [⟨mapUint64 env e.1.2 (mapUint64 env e.1.1 (word slotLatestIndex)), word e.2⟩]) ++
    (s.recordIdByRegistryAndChecksum.toList.flatMap fun e =>
      [⟨mapString env e.1.2 (mapUint64 env e.1.1 (word slotRecordIDByChecksum)), word e.2⟩]) ++
    [⟨word slotHeader, headerWord admin count⟩] ++
    checksums.flatMap (checksumWrites env) ++
    (s.rbac.roleAdmins.toList.flatMap fun e =>
      [⟨mapHash env e.1 (word slotRoleAdmin), bytesToHash e.2⟩]) ++
    roles.flatMap (roleWrites env)

/-- The groups the walks make. -/
def storeWrites (admin : Bytes) (count : UInt64) : List Write :=
  handedOver env s admin count (idsByName s.registries.toList ∅).toList
    (Runs.runs (s.recordIdByChecksumAndRegistry.toList.map Prod.fst))
    (Runs.runs (s.rbac.roleMembers.toList.map Prod.fst))

/-- The name of a step goes into its error only. -/
theorem migrating_eq_ok {α : Type} {what : String} {x : Outcome σ α} {a : α} :
    migrating what x = .ok a ↔ x = .ok a := by
  cases x with
  | ok b => simp only [migrating, Except.ok.injEq]
  | error e => exact ⟨(fun h => nomatch h), (fun h => nomatch h)⟩

/-- **The migration, to any sink.** It succeeds exactly when the store passes the two checks and the
sink takes every write that is not zero. -/
theorem migrate_eq_ok {sink : Sink σ} {st' : σ} :
    migrate env s sink st = .ok st' ↔ ∃ params admin count, s.params = some params ∧
      env.accAddressFromBech32 params.admin = .ok admin ∧ DenseRegistries s count ∧
      emitAll (skipZero sink) st (storeWrites env s admin count) = .ok st' := by
  simp only [migrate, steps, List.foldlM_cons, List.foldlM_nil, bind_eq_ok, migrating_eq_ok,
    migrateRegistries_eq_ok, migrateHeader_eq_ok, migrateRecordCounts_eq, migrateRecords_eq,
    migrateLatestIndexes_eq, migrateRecordIDs_eq, migrateChecksumIndex_eq, migrateRoles_eq,
    storeWrites, handedOver, emitAll_append, emitAll_singleton]
  constructor
  · rintro ⟨_, ⟨count, hdense, _, hregistries, hnames⟩, _, hcounts, _, hrecords, _, hindexes, _, hids,
      _, ⟨params, admin, count', hparams, hadmin, hcounted, hheader⟩, _, hchecksums, _,
      ⟨_, hadmins, hroles⟩, hdone⟩
    cases hdense.counted.symm.trans hcounted
    cases hdone
    exact ⟨params, admin, count, hparams, hadmin, hdense, _, ⟨_, ⟨_, ⟨_, ⟨_, ⟨_, ⟨_, ⟨_, ⟨_, hregistries,
      hnames⟩, hcounts⟩, hrecords⟩, hindexes⟩, hids⟩, hheader⟩, hchecksums⟩, hadmins⟩, hroles⟩
  · rintro ⟨params, admin, count, hparams, hadmin, hdense, _, ⟨_, ⟨_, ⟨_, ⟨_, ⟨_, ⟨_, ⟨_, ⟨_, hregistries,
      hnames⟩, hcounts⟩, hrecords⟩, hindexes⟩, hids⟩, hheader⟩, hchecksums⟩, hadmins⟩, hroles⟩
    exact ⟨_, ⟨count, hdense, _, hregistries, hnames⟩, _, hcounts, _, hrecords, _, hindexes, _, hids,
      _, ⟨params, admin, count, hparams, hadmin, hdense.counted, hheader⟩, _, hchecksums, _,
      ⟨_, hadmins, hroles⟩, rfl⟩

end Steps

end Nvnmchain.Evmlayout
