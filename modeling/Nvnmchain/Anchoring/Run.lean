import Nvnmchain.Lib.Transition
import Nvnmchain.Anchoring.Genesis
import Nvnmchain.Anchoring.Delivery

/-!
# Runs of the module

A run starts at the store `InitGenesis` leaves for a genesis with valid params and nothing else, and
goes on with any messages in any contexts.

Two assumptions of the results are attached to the step and not to the results.

- **Counters.** Ids are 64-bit and wrap. `BoundedStep` asks that no counter stands at its last value
  when a message arrives; `Step` does not.
- **Role names.** A role is the hash of a name, and a 32-byte hash cannot be injective on all byte
  strings. A run is therefore over a set of names: each message writes roles of names in the set.
  A result that needs collision-freedom assumes it on that set only. A result that does not is
  stated over all names.
-/

set_option autoImplicit false

namespace Nvnmchain

open Go (Bytes str)
open Collections

/-! ## The first store -/

/-- The genesis with params and nothing else. -/
def GenesisState.ofParams (params : Params) : GenesisState where
  params := params
  registries := ∅
  records := []
  roleAdmins := ∅
  roleMembers := ∅

/-- The stores a run may start from. -/
def Initial (env : Env) (s₀ : Store) : Prop :=
  ∃ (params : Params) (order : GenesisOrder (.ofParams params)),
    params.validate env = .ok () ∧
      initGenesis env (.ofParams params) order Store.empty = .ok s₀

/-- The store that holds params and a registry count of zero. -/
def Store.initial (params : Params) : Store :=
  { Store.empty with params := some params, registryCount := some 0 }

/-- A genesis file with nothing but params loads as the initial store. -/
theorem initGenesis_ofParams (env : Env) (params : Params) (order : GenesisOrder (.ofParams params)) :
    initGenesis env (.ofParams params) order Store.empty = .ok (Store.initial params) := by
  have hregistries : order.registries.entries = [] := order.registries.entries_empty
  have hgroups : (order.groups ∅).entries = [] := (order.groups ∅).entries_empty
  have hadmins : order.roleAdmins.entries = [] := order.roleAdmins.entries_empty
  have hmembers : order.roleMembers.entries = [] := order.roleMembers.entries_empty
  unfold initGenesis
  simp only [hregistries, hadmins, hmembers, initRegistries, initRoleAdmins, initRoleMembers,
    GenesisState.ofParams, initRecords, bind, Except.bind, hgroups, checkGroups]
  rfl

/-- A chain starts from valid params. -/
theorem initial_iff {env : Env} {s₀ : Store} :
    Initial env s₀ ↔ ∃ params, params.validate env = .ok () ∧ s₀ = Store.initial params := by
  constructor
  · rintro ⟨params, order, hvalid, h⟩
    rw [initGenesis_ofParams] at h
    exact ⟨params, hvalid, (Except.ok.inj h).symm⟩
  · rintro ⟨params, hvalid, rfl⟩
    exact ⟨params, .sorted _, hvalid, initGenesis_ofParams env params _⟩

/-! ## Steps -/

/-- The last value of a 64-bit counter. -/
def counterMax : UInt64 := 18446744073709551615

/-- A counter below its last value counts on. -/
theorem lt_add_one_of_ne_counterMax {n : UInt64} (h : n ≠ counterMax) : n < n + 1 := by
  have hn : n ≠ 18446744073709551615 := h
  grind

/-- One more than a counter that is not at its last value is the one new id. -/
theorem le_add_one_iff_of_ne_counterMax {n k : UInt64} (h : n ≠ counterMax) :
    k ≤ n + 1 ↔ k ≤ n ∨ k = n + 1 := by
  have hn : n ≠ 18446744073709551615 := h
  grind

/-- No counter stands at its last value. -/
structure Store.CountersBelowMax (s : Store) : Prop where
  registries : ∀ n, s.registryCount = some n → n ≠ counterMax
  records : ∀ (r n : UInt64), s.recordsCountByRegistry[r]? = some n → n ≠ counterMax
  versions : ∀ (r k n : UInt64), s.recordIndices[(r, k)]? = some n → n ≠ counterMax

/-- The names of the roles a message names: the role it grants or revokes and the admin role of its
registry, or the admin role of the registry it creates. -/
def Msg.roleNames (s : Store) : Msg → List Bytes
  | .addRegistry _ => [registryRoleName (s.registryCount.getD 0 + 1) roleAdmin]
  | .grantRole (some m) =>
    [MsgServer.scopedRoleName m.registryId m.checksum m.role, registryRoleName m.registryId roleAdmin]
  | .revokeRole (some m) =>
    [MsgServer.scopedRoleName m.registryId m.checksum m.role, registryRoleName m.registryId roleAdmin]
  | _ => []

/-- One message, in any context, over a set of role names. -/
def Step (env : Env) (names : Set Bytes) (s s' : Store) : Prop :=
  ∃ ctx msg, (∀ name ∈ msg.roleNames s, name ∈ names) ∧ s' = deliver env ctx msg s

/-- One message that meets no counter at its last value. -/
def BoundedStep (env : Env) (names : Set Bytes) (s s' : Store) : Prop :=
  s.CountersBelowMax ∧ Step env names s s'

/-- The stores of the runs over a set of role names in which no counter wraps. -/
def Reachable (env : Env) (names : Set Bytes) (s : Store) : Prop :=
  Transition.Reachable (Initial env) (BoundedStep env names) s

/-- The stores of all runs over a set of role names, those in which a counter wraps among them. -/
def AnyReachable (env : Env) (names : Set Bytes) (s : Store) : Prop :=
  Transition.Reachable (Initial env) (Step env names) s

/-- A bounded run is a run. -/
theorem Reachable.any {env : Env} {names : Set Bytes} {s : Store} (h : Reachable env names s) :
    AnyReachable env names s :=
  Transition.Reachable.mono (fun _ _ hstep => hstep.2) h

/-- The invariant rule for the module: first the stores of genesis, then each case of `Delivered`. -/
theorem Reachable.invariant {env : Env} {names : Set Bytes} {P : Store → Prop}
    (first : ∀ params : Params, params.validate env = .ok () → P (Store.initial params))
    (kept : ∀ s s' ctx msg, Reachable env names s → P s → s.CountersBelowMax →
      (∀ name ∈ msg.roleNames s, name ∈ names) → Delivered env ctx s msg s' → P s')
    {s : Store} (h : Reachable env names s) : P s := by
  refine Transition.Reachable.invariant ?_ ?_ h
  · intro s₀ h₀
    obtain ⟨params, hvalid, rfl⟩ := initial_iff.mp h₀
    exact first params hvalid
  · rintro s s' hs hP ⟨hbounded, ctx, msg, hnames, rfl⟩
    exact kept s _ ctx msg hs hP hbounded hnames (delivered env ctx msg s)

/-- The invariant rule for runs in which a counter may wrap. -/
theorem AnyReachable.invariant {env : Env} {names : Set Bytes} {P : Store → Prop}
    (first : ∀ params : Params, params.validate env = .ok () → P (Store.initial params))
    (kept : ∀ s s' ctx msg, P s → (∀ name ∈ msg.roleNames s, name ∈ names) →
      Delivered env ctx s msg s' → P s')
    {s : Store} (h : AnyReachable env names s) : P s := by
  refine Transition.Reachable.invariant ?_ ?_ h
  · intro s₀ h₀
    obtain ⟨params, hvalid, rfl⟩ := initial_iff.mp h₀
    exact first params hvalid
  · rintro s s' - hP ⟨ctx, msg, hnames, rfl⟩
    exact kept s _ ctx msg hP hnames (delivered env ctx msg s)

/-! ## Runs as lists of messages -/

/-- The check that no counter stands at its last value. -/
def Store.countersBelowMax (s : Store) : Bool :=
  s.registryCount.all (· ≠ counterMax) && s.recordsCountByRegistry.toList.all (·.2 ≠ counterMax) &&
    s.recordIndices.toList.all (·.2 ≠ counterMax)

/-- The check decides whether a counter is at its last value. -/
theorem countersBelowMax_iff {s : Store} : s.countersBelowMax = true ↔ s.CountersBelowMax := by
  simp only [Store.countersBelowMax, Bool.and_eq_true, List.all_eq_true, Option.all_eq_true,
    decide_eq_true_eq]
  constructor
  · rintro ⟨⟨hr, hc⟩, hi⟩
    exact ⟨fun n hn => hr n hn,
      fun r n h => hc (r, n) (Std.ExtTreeMap.mem_toList_iff_getElem?_eq_some.mpr h),
      fun r k n h => hi ((r, k), n) (Std.ExtTreeMap.mem_toList_iff_getElem?_eq_some.mpr h)⟩
  · intro h
    exact ⟨⟨fun n hn => h.registries n hn,
      fun _ he => h.records _ _ (Std.ExtTreeMap.mem_toList_iff_getElem?_eq_some.mp he)⟩,
      fun _ he => h.versions _ _ _ (Std.ExtTreeMap.mem_toList_iff_getElem?_eq_some.mp he)⟩

instance (s : Store) : Decidable s.CountersBelowMax := decidable_of_iff _ countersBelowMax_iff

/-- The store after a list of messages. -/
def runMsgs (env : Env) : List (Ctx × Msg) → Store → Store
  | [], s => s
  | (ctx, msg) :: rest, s => runMsgs env rest (deliver env ctx msg s)

/-- Each message of the list is over the names and meets no counter at its last value. -/
def Admissible (env : Env) (names : Set Bytes) : List (Ctx × Msg) → Store → Prop
  | [], _ => True
  | (ctx, msg) :: rest, s => s.CountersBelowMax ∧ (∀ name ∈ msg.roleNames s, name ∈ names) ∧
      Admissible env names rest (deliver env ctx msg s)

instance decidableAdmissible (env : Env) (names : Set Bytes) [DecidablePred (· ∈ names)] :
    (msgs : List (Ctx × Msg)) → (s : Store) → Decidable (Admissible env names msgs s)
  | [], _ => .isTrue trivial
  | (ctx, msg) :: rest, s =>
    haveI := decidableAdmissible env names rest (deliver env ctx msg s)
    haveI : Decidable (∀ name ∈ msg.roleNames s, name ∈ names) := List.decidableBAll _ _
    inferInstanceAs (Decidable (_ ∧ _ ∧ _))

/-- The store after an admissible list of messages is reachable. -/
theorem Reachable.runMsgs {env : Env} {names : Set Bytes} {msgs : List (Ctx × Msg)} {s : Store}
    (h : Reachable env names s) (hmsgs : Admissible env names msgs s) :
    Reachable env names (runMsgs env msgs s) := by
  induction msgs generalizing s with
  | nil => exact h
  | cons m rest ih =>
    obtain ⟨ctx, msg⟩ := m
    obtain ⟨hbounded, hnames, hrest⟩ := hmsgs
    exact ih (h.tail ⟨hbounded, ctx, msg, hnames, rfl⟩) hrest

/-! ## A small chain

An environment for concrete runs. The addresses are three short accounts in the chain's own bech32
form. The hash stands in for Keccak: it tells apart the role names of the runs below. -/

/-- Accounts of one and two bytes, under the prefix `nvnm`. -/
def smallAccounts : List (Bytes × Bytes) :=
  [(str "nvnm1qyfcvmjm", [1]), (str "nvnm1qqqskyhdqc", [0, 1]), (str "nvnm1qgcx23ru", [2])]

/-- The account of a text of the table. -/
def smallDecode (text : Bytes) : Except Err Bytes :=
  match smallAccounts.find? (·.1 = text) with
  | some (_, account) => .ok account
  | none => .error (.text (str "decoding bech32 failed"))

/-- The text of an account of the table. -/
def smallEncode (account : Bytes) : Bytes :=
  match smallAccounts.find? (·.2 = account) with
  | some (text, _) => text
  | none => []

theorem length_smallEncode (account : Bytes) : (smallEncode account).length < 2 ^ 63 := by
  unfold smallEncode
  split
  · rename_i text _ h
    have hmem := List.mem_of_find?_eq_some h
    have hall : ∀ e ∈ smallAccounts, e.1.length < 2 ^ 63 := by decide
    exact hall _ hmem
  · decide

def smallEnv : Env where
  keccak256 := Eth.bytesToHash
  stringToBytes := smallDecode
  accAddressFromBech32 := smallDecode
  accAddressString := smallEncode
  length_accAddressString := length_smallEncode
  quote := fun s => str "\"" ++ s ++ str "\""

def smallCtx : Ctx := ⟨str "2026-01-01 00:00:00 +0000 UTC", by decide⟩

/-- The params of the small chain: its module admin is account 2. -/
def smallParams : Params := ⟨str "nvnm1qgcx23ru"⟩

/-- A record of registry 1. -/
def smallRecord (checksum : String) : Record where
  uri := str "ipfs://doc"
  checksum := str checksum
  checksumAlgo := str "sha256"
  metadata := str "m"
  timestamp := []
  status := str "ok"
  recordId := 0
  index := 0
  isLatest := false
  registryId := 1

/-- Account 1 creates a registry, anchors a record in it and anchors the record again. -/
def smallMsgs : List (Ctx × Msg) :=
  [(smallCtx, .addRegistry (some ⟨str "nvnm1qyfcvmjm", str "deeds", [], []⟩)),
   (smallCtx, .addRecord (some ⟨str "nvnm1qyfcvmjm", some (smallRecord "c0")⟩)),
   (smallCtx, .addRecord (some ⟨str "nvnm1qyfcvmjm", some (smallRecord "c0")⟩))]

/-- The store the small run leaves. -/
def smallStore : Store := runMsgs smallEnv smallMsgs (Store.initial smallParams)

theorem initial_smallParams : Initial smallEnv (Store.initial smallParams) :=
  initial_iff.mpr ⟨smallParams, rfl, rfl⟩

theorem admissible_smallMsgs :
    Admissible smallEnv Set.univ smallMsgs (Store.initial smallParams) := by decide +kernel

theorem reachable_smallStore : Reachable smallEnv Set.univ smallStore := by
  unfold smallStore
  exact Reachable.runMsgs (Transition.Reachable.of_init initial_smallParams) admissible_smallMsgs

/-- Account 1 creates a registry and anchors two records in it. -/
def twoRecords : List (Ctx × Msg) :=
  [(smallCtx, .addRegistry (some ⟨str "nvnm1qyfcvmjm", str "deeds", [], []⟩)),
   (smallCtx, .addRecord (some ⟨str "nvnm1qyfcvmjm", some (smallRecord "c0")⟩)),
   (smallCtx, .addRecord (some ⟨str "nvnm1qyfcvmjm", some (smallRecord "c1")⟩))]

/-- The store that run leaves. -/
def twoRecordStore : Store := runMsgs smallEnv twoRecords (Store.initial smallParams)

theorem reachable_twoRecordStore : Reachable smallEnv Set.univ twoRecordStore := by
  unfold twoRecordStore
  exact Reachable.runMsgs (Transition.Reachable.of_init initial_smallParams) (by decide +kernel)

end Nvnmchain
