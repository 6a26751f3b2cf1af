import Nvnmchain.Anchoring.LedgerRefines
import Nvnmchain.Anchoring.Isolation

/-!
# Outsiders stay outsiders

One message of an account without a role on a registry leaves the registry alone. That says nothing
yet about many accounts and many messages: an account might be given a role by a second one that
got it from a third. Here whole runs are considered. If no signer of a run holds a role of a registry
or is the module admin when the run starts, everything that belongs to the registry is the same when
it ends, both role tables included, and so is the module admin; what the signers do elsewhere gives
them nothing here.

The argument is a loop invariant. Whoever is an outsider of a store is one of every store that agrees
with it on the registry and on the params (`IsOutsider.of_same`), a message of an outsider leads to such
a store (`Foreign.deliver`), and the run follows by induction.
-/

set_option autoImplicit false

namespace Nvnmchain

open Go (Bytes str)
open Collections

section Runs

variable {env : Env} {names : Set Bytes} {ctx : Ctx} {s s' : Store} {r : UInt64} {account : Bytes}
  {msg : Msg}

/-- An account is not the module admin and holds no role of a registry, over a set of role names. -/
structure IsOutsider (env : Env) (names : Set Bytes) (s : Store) (r : UInt64) (account : Bytes) :
    Prop where
  notAdmin : ∀ params ∈ s.params, env.stringToBytes params.admin ≠ .ok account
  holdsNone : ∀ name ∈ names, ScopedTo r name → s.rbac.hasRole (newRoleHash env name) account = false

/-- The outsiders of a registry are those of any store that agrees on it and on the module admin. -/
theorem IsOutsider.of_same (h : IsOutsider env names s r account) (hsame : SameRegistry env names r s s')
    (hparams : s'.params = s.params) : IsOutsider env names s' r account where
  notAdmin := hparams ▸ h.notAdmin
  holdsNone name hname hscope :=
    (hsame.hasRole hname hscope account).trans (h.holdsNone name hname hscope)

/-- The signer of a message is an outsider of a registry, if it has an account at all. -/
def Foreign (env : Env) (names : Set Bytes) (s : Store) (r : UInt64) (msg : Msg) : Prop :=
  ∀ account, env.stringToBytes msg.sender = .ok account → IsOutsider env names s r account

namespace Foreign

/-- A foreign message looks up no role of the registry that its signer holds. -/
theorem powerless (h : Foreign env names s r msg) (hnames : ∀ name ∈ msg.namesUsed s, name ∈ names) :
    msg.Powerless env s r := by
  intro sender hsender checksum name hname hused
  exact (h sender hsender).holdsNone name (hnames name hused) (scopedTo_permissionNames hname)

/-- A foreign message is not from the module admin. -/
theorem not_admin (h : Foreign env names s r msg) (params : Params) (account : Bytes)
    (hparams : s.params = some params) (hadmin : env.stringToBytes params.admin = .ok account) :
    env.stringToBytes msg.sender ≠ .ok account :=
  fun hsender => (h account hsender).notAdmin params hparams hadmin

/-- A foreign message does not hand the module over. -/
theorem params_eq (h : Foreign env names s r msg) (hd : Delivered env ctx s msg s') :
    s'.params = s.params := by
  cases hd with
  | refused failed => rfl
  | addRegistry accepted signer valid counted creates => rfl
  | addRecord accepted signer carries valid known permitted assigned stored =>
    exact (addRecord_frame assigned stored).1
  | updateRecordStatus accepted signer valid found permitted => rfl
  | grantRole signer grants nonzero inScope allowed => rfl
  | revokeRole signer revokes nonzero inScope held notLast administered allowed => rfl
  | updateParams signer stored authorized valid =>
    exact absurd signer (h.not_admin _ _ stored (authorized ▸ signer))

/-- **A foreign message leaves the registry and the module admin alone.** -/
theorem deliver (h : Foreign env names s r msg) (hcf : Set.InjOn env.keccak256 names)
    (hreach : Reachable env names s) (hwithin : Within names (ctx, msg) s) (hr : r ∈ s.registries) :
    SameRegistry env names r s (deliver env ctx msg s) ∧ (deliver env ctx msg s).params = s.params := by
  have hd := delivered env ctx msg s
  have hnames : ∀ name ∈ msg.roleNames s, name ∈ names := fun name hname =>
    hwithin.2 name (roleNames_subset msg s hname)
  exact ⟨sameRegistry_of_delivered hreach.storeInv hreach.roleInv hwithin.1 hcf hnames hr h.not_admin
    (h.powerless hwithin.2) hd, h.params_eq hd⟩

end Foreign

/-- **A coalition of outsiders is powerless.** Over any run of messages, none of whose signers holds a
role of a registry or is the module admin when the run starts, everything that belongs to the registry
stays as it was, and so does the module admin. -/
theorem outsiders_powerless {msgs : List (Ctx × Msg)} (hcf : Set.InjOn env.keccak256 names)
    (h : Reachable env names s) (hmsgs : Simulation.Along (server env) (Within names) msgs s)
    (hr : r ∈ s.registries)
    (hsigners : ∀ input ∈ msgs, ∀ account, env.stringToBytes input.2.sender = .ok account →
      IsOutsider env names s r account) :
    SameRegistry env names r s (runMsgs env msgs s) ∧ (runMsgs env msgs s).params = s.params := by
  induction msgs generalizing s with
  | nil => exact ⟨.refl s, rfl⟩
  | cons input rest ih =>
    obtain ⟨ctx, msg⟩ := input
    obtain ⟨hwithin, hrest⟩ := hmsgs
    rw [next_server] at hrest
    have hforeign : Foreign env names s r msg := hsigners (ctx, msg) List.mem_cons_self
    obtain ⟨hsame, hparams⟩ := hforeign.deliver hcf h hwithin hr
    have hmem : r ∈ (deliver env ctx msg s).registries := (delivered env ctx msg s).mem_registries hr
    -- the later signers are outsiders of the store they meet
    obtain ⟨hsame', hparams'⟩ := ih (h.deliver hwithin) hrest hmem fun input hinput account haccount =>
      (hsigners input (List.mem_cons_of_mem _ hinput) account haccount).of_same hsame hparams
    exact ⟨hsame.trans hsame', hparams'.trans hparams⟩

end Runs

/-- The role names of registries 1 and 2 and of a document in each. -/
def bothNameList : List Bytes := permissionNames 1 (str "c0") ++ permissionNames 2 (str "c0")

/-- The names as a set. -/
def bothNames : Set Bytes := {name | name ∈ bothNameList}

instance : DecidablePred (· ∈ bothNames) := fun name =>
  inferInstanceAs (Decidable (name ∈ bothNameList))

/-- A third account opens a registry of its own and makes itself an editor there, and then tries to add
a record to registry 1, to become its editor, to revoke its admin and to become the module admin. -/
def intruderMsgs : List (Ctx × Msg) :=
  [(smallCtx, .addRegistry (some ⟨str "nvnm1qqqskyhdqc", str "mine", [], []⟩)),
   (smallCtx, .grantRole (some ⟨str "nvnm1qqqskyhdqc", str "nvnm1qqqskyhdqc", 2, [], roleEditor⟩)),
   (smallCtx, .addRecord (some ⟨str "nvnm1qqqskyhdqc", some (smallRecord "c0")⟩)),
   (smallCtx, .grantRole (some ⟨str "nvnm1qqqskyhdqc", str "nvnm1qqqskyhdqc", 1, [], roleEditor⟩)),
   (smallCtx, .revokeRole (some ⟨str "nvnm1qqqskyhdqc", str "nvnm1qyfcvmjm", 1, [], roleAdmin⟩)),
   (smallCtx, .updateParams ⟨str "nvnm1qqqskyhdqc", str "nvnm1qqqskyhdqc"⟩)]

/-- The intruder gets a registry, and nothing of registry 1. -/
theorem outsiders_powerless_intruder :
    Simulation.answers (server smallEnv) intruderMsgs openedStore =
        [some (.addRegistry 2), some .empty, none, none, none, none] ∧
      SameRegistry smallEnv bothNames 1 openedStore (runMsgs smallEnv intruderMsgs openedStore) ∧
      (runMsgs smallEnv intruderMsgs openedStore).params = openedStore.params := by
  have hcf : Set.InjOn smallEnv.keccak256 bothNames := by
    have all : ∀ a ∈ bothNameList, ∀ b ∈ bothNameList,
        smallEnv.keccak256 a = smallEnv.keccak256 b → a = b := by decide +kernel
    exact fun a ha b hb => all a ha b hb
  have hrun : Admissible smallEnv bothNames openedMsgs (Store.initial smallParams) := by decide +kernel
  have hreach : Reachable smallEnv bothNames openedStore :=
    Reachable.runMsgs (Transition.Reachable.of_init initial_smallParams) hrun
  have hnone : ∀ name ∈ bothNameList,
      openedStore.rbac.hasRole (newRoleHash smallEnv name) [0, 1] = false := by decide +kernel
  have hout : IsOutsider smallEnv bothNames openedStore 1 [0, 1] :=
    ⟨by decide +kernel, fun name hname _ => hnone name hname⟩
  have hsigners : ∀ input ∈ intruderMsgs, smallEnv.stringToBytes input.2.sender = .ok [0, 1] := by
    decide +kernel
  have hwithin : Simulation.Along (server smallEnv) (Within bothNames) intruderMsgs openedStore := by
    decide +kernel
  refine ⟨by decide +kernel, outsiders_powerless hcf hreach hwithin (by decide +kernel) ?_⟩
  intro input hinput account haccount
  cases haccount.symm.trans (hsigners input hinput)
  exact hout

end Nvnmchain
