import Nvnmchain.Precompile.Gates

/-!
# The methods that write are the message handlers

A method that writes builds a message from its arguments and the caller's address, hands it to the
message handler, and adds one log. Three things could set it apart from the handler. `revokeRole`
refuses an empty role by itself, as the handler would. `addRecord` does not get the index of its log
from the handler, but reads it from the store the handler left; what it finds is the index of the
version that was just added. And a call is charged gas, for the message and for that lookup, and stops
when it runs out.

Apart from gas, then, a method succeeds when the handler does, answers the id the handler answers and
leaves the store the handler leaves (`Refines`), in every store.
-/

set_option autoImplicit false

namespace Nvnmchain.Precompile

open Go (Bytes str)
open Eth (Address)
open Collections
open Effects

/-- What is relied on in the address codec: every account of 20 bytes has a text, which is decoded as
the account. -/
structure CodecLaws (env : Env) : Prop where
  bytesToString_ok : ∀ a : Address, ∃ text, env.bytesToString a.bytes = .ok text
  stringToBytes_bytesToString : ∀ (a : Address) (text : Bytes), env.bytesToString a.bytes = .ok text →
    env.stringToBytes text = .ok a.bytes

/-- The context with another gas limit. -/
def Context.withGasLimit (ctx : Context) (gasLimit : Nat) : Context := { ctx with gasLimit }

/-- The ABI encoding of an event succeeds. -/
def Encodes (k : Keeper) (ev : Event) : Prop := ∃ r, k.env.abi.encodeEvent ev = .ok r

/-- The logs with one more, of an event. -/
def Logged (k : Keeper) (ctx : Context) (ev : Event) (logs logs' : List Log) : Prop :=
  ∃ topics data, k.env.abi.encodeEvent ev = .ok (topics, data) ∧
    logs' = logs ++ [⟨anchoringPrecompileAddress, topics, data, ctx.blockHeight.toUInt64⟩]

/-- A method refines a handler, and logs an event of the answer and the store left: unless its gas
runs out, it succeeds when the handler does; when it succeeds, it answers what the handler answers,
leaves the store the handler leaves, and adds one log; and there is a limit from which on its gas does
not run out. -/
structure Refines {α : Type} (k : Keeper) (ctx : Context) (method : Context → Call α)
    (run : Store → Except Err (α × Store)) (event : α → Store → Event) (w : World) : Prop where
  succeeds_iff : (outcome (method ctx) w).1 ≠ .error .outOfGas →
    ((∃ answer, (outcome (method ctx) w).1 = .ok answer) ↔ ∃ r, run w.store = .ok r)
  same : ∀ answer w', outcome (method ctx) w = (.ok answer, w') →
    run w.store = .ok (answer, w'.store) ∧ Logged k ctx (event answer w'.store) w.logs w'.logs
  affordable : ∃ need, ∀ gasLimit, need ≤ gasLimit →
    (outcome (method (ctx.withGasLimit gasLimit)) w).1 ≠ .error .outOfGas

/-! ## The parts of a method -/

section Parts

variable {α : Type} {k : Keeper} {ctx : Context} {msg : Msg} {run : Store → Except Err (α × Store)}
  {w : World}

/-- Gas that runs out. -/
theorem outcome_consumeGas_out (ctx : Context) {amount : Nat} (h : ctx.gasLimit < w.gas + amount) :
    outcome (consumeGas ctx amount) w = (.error .outOfGas, { w with gas := w.gas + amount }) := by
  rw [outcome_consumeGas, if_pos h]

/-- Gas that suffices. -/
theorem outcome_consumeGas_ok (ctx : Context) {amount : Nat} (h : ¬ ctx.gasLimit < w.gas + amount) :
    outcome (consumeGas ctx amount) w = (.ok (), { w with gas := w.gas + amount }) := by
  rw [outcome_consumeGas, if_neg h]

/-- The gas consumed once a message was charged. -/
def gasAfter (k : Keeper) (ctx : Context) (msg : Msg) (w : World) : Nat :=
  w.gas + k.meter.message ctx.toCtx msg w.store

/-- A call of the message server that runs out of gas. -/
theorem outcome_viaMsgServer_outOfGas (h : ctx.gasLimit < gasAfter k ctx msg w) :
    outcome (viaMsgServer k ctx msg run) w = (.error .outOfGas, { w with gas := gasAfter k ctx msg w }) := by
  rw [viaMsgServer, outcome_bind_ok (outcome_get w), outcome_bind_error (outcome_consumeGas_out ctx h)]
  rfl

/-- A call of the message server that has its gas answers as the handler does. -/
theorem outcome_viaMsgServer (ctx : Context) (run : Store → Except Err (α × Store))
    (h : ¬ ctx.gasLimit < gasAfter k ctx msg w) :
    outcome (viaMsgServer k ctx msg run) w =
      match run w.store with
      | .ok (answer, store) => (.ok answer, { w with store, gas := gasAfter k ctx msg w })
      | .error e => (.error (.err e), { w with gas := gasAfter k ctx msg w }) := by
  rw [viaMsgServer, outcome_bind_ok (outcome_get w), outcome_bind_ok (outcome_consumeGas_ok ctx h)]
  cases run w.store with
  | ok r => rfl
  | error e => rfl

/-- An event that encodes is logged under the contract's address. -/
theorem outcome_emitEvent {db : StateDB} {ev : Event} {topics : List Eth.Hash} {data : Bytes}
    (h : k.env.abi.encodeEvent ev = .ok (topics, data)) :
    outcome (emitEvent k ctx (some db) ev) w =
      (.ok (), { w with
        logs := w.logs ++ [⟨anchoringPrecompileAddress, topics, data, ctx.blockHeight.toUInt64⟩] }) := by
  simp only [emitEvent, h]
  rfl

end Parts

/-- What a method does after its handler: it spends some gas, and adds a log of an event. -/
def Emits (k : Keeper) (ctx : Context) (after : Context → Call Unit) (ev : Event) (store : Store) : Prop :=
  ∃ cost, ∀ gasLimit gas logs, gas ≤ gasLimit →
    (gasLimit < gas + cost → outcome (after (ctx.withGasLimit gasLimit)) ⟨store, logs, gas⟩ =
      (.error .outOfGas, ⟨store, logs, gas + cost⟩)) ∧
    (gas + cost ≤ gasLimit → ∃ logs',
      outcome (after (ctx.withGasLimit gasLimit)) ⟨store, logs, gas⟩ =
        (.ok (), ⟨store, logs', gas + cost⟩) ∧ Logged k ctx ev logs logs')

/-! ## From the parts to the method -/

section Method

variable {α : Type} {k : Keeper} {ctx : Context} {msg : Msg} {run : Store → Except Err (α × Store)}
  {event : α → Store → Event} {method : Context → Call α} {after : Context → α → Call Unit} {w : World}

/-- The shape of a method: its handler, what follows it, and the handler's answer. -/
def IsMethod (k : Keeper) (ctx : Context) (msg : Msg) (run : Store → Except Err (α × Store))
    (after : Context → α → Call Unit) (method : Context → Call α) : Prop :=
  ∀ gasLimit, method (ctx.withGasLimit gasLimit) = (do
    let answer ← viaMsgServer k (ctx.withGasLimit gasLimit) msg run
    after (ctx.withGasLimit gasLimit) answer
    pure answer)

/-- The outcomes of a method: out of gas, the handler's error, or the handler's answer and a log. -/
theorem outcome_method
    (hmethod : IsMethod k ctx msg run after method)
    (hafter : ∀ answer store, run w.store = .ok (answer, store) →
      Emits k ctx (after · answer) (event answer store) store) :
    (outcome (method ctx) w).1 = .error .outOfGas ∨
    (∃ e, run w.store = .error e ∧ (outcome (method ctx) w).1 = .error (.err e)) ∨
    ∃ answer w', run w.store = .ok (answer, w'.store) ∧ outcome (method ctx) w = (.ok answer, w') ∧
      Logged k ctx (event answer w'.store) w.logs w'.logs := by
  have hself : method ctx = (do
    let answer ← viaMsgServer k ctx msg run
    after ctx answer
    pure answer) := hmethod ctx.gasLimit
  rw [hself]
  by_cases hgas : ctx.gasLimit < gasAfter k ctx msg w
  · rw [outcome_bind_error (outcome_viaMsgServer_outOfGas hgas)]
    exact .inl rfl
  · have hhandler := outcome_viaMsgServer ctx run hgas
    cases hrun : run w.store with
    | error e =>
      rw [hrun] at hhandler
      rw [outcome_bind_error hhandler]
      exact .inr (.inl ⟨e, rfl, rfl⟩)
    | ok r =>
      obtain ⟨answer, store⟩ := r
      rw [hrun] at hhandler
      rw [outcome_bind_ok hhandler]
      obtain ⟨cost, hcost⟩ := hafter answer store hrun
      obtain ⟨hout, hdone⟩ := hcost ctx.gasLimit (gasAfter k ctx msg w) w.logs (Nat.le_of_not_lt hgas)
      by_cases hlimit : ctx.gasLimit < gasAfter k ctx msg w + cost
      · have hstop : outcome (after ctx answer) _ = _ := hout hlimit
        rw [outcome_bind_error hstop]
        exact .inl rfl
      · obtain ⟨logs', hemit, hlogged⟩ := hdone (Nat.le_of_not_lt hlimit)
        refine .inr (.inr ⟨answer, ⟨store, logs', gasAfter k ctx msg w + cost⟩, rfl, ?_, hlogged⟩)
        have hemit : outcome (after ctx answer) _ = _ := hemit
        rw [outcome_bind_ok hemit, outcome_pure]

/-- A method whose handler and log are paid for does not run out of gas. -/
theorem method_affordable
    (hmethod : IsMethod k ctx msg run after method)
    (hafter : ∀ answer store, run w.store = .ok (answer, store) →
      Emits k ctx (after · answer) (event answer store) store) :
    ∃ need, ∀ gasLimit, need ≤ gasLimit →
      (outcome (method (ctx.withGasLimit gasLimit)) w).1 ≠ .error .outOfGas := by
  cases hrun : run w.store with
  | error e =>
    refine ⟨gasAfter k ctx msg w, fun gasLimit hlimit => ?_⟩
    have hhandler := outcome_viaMsgServer (ctx.withGasLimit gasLimit) run
      (Nat.not_lt_of_le hlimit)
    rw [hrun] at hhandler
    rw [hmethod, outcome_bind_error hhandler]
    exact fun h => nomatch h
  | ok r =>
    obtain ⟨answer, store⟩ := r
    obtain ⟨cost, hcost⟩ := hafter answer store hrun
    refine ⟨gasAfter k ctx msg w + cost, fun gasLimit hlimit => ?_⟩
    have hpaid : gasAfter k ctx msg w ≤ gasLimit := Nat.le_of_add_right_le hlimit
    have hhandler := outcome_viaMsgServer (ctx.withGasLimit gasLimit) run
      (Nat.not_lt_of_le hpaid)
    rw [hrun] at hhandler
    obtain ⟨logs', hemit, _⟩ := (hcost gasLimit _ w.logs hpaid).2 hlimit
    have hemit : outcome (after (ctx.withGasLimit gasLimit) answer)
      ⟨store, w.logs, gasAfter k (ctx.withGasLimit gasLimit) msg w⟩ = _ := hemit
    rw [hmethod, outcome_bind_ok hhandler, outcome_bind_ok hemit]
    exact fun h => nomatch h

/-- **A method refines its handler.** -/
theorem refines_of_emits (msg : Msg) (after : Context → α → Call Unit)
    (hmethod : IsMethod k ctx msg run after method)
    (hafter : ∀ answer store, run w.store = .ok (answer, store) →
      Emits k ctx (after · answer) (event answer store) store) :
    Refines k ctx method run event w := by
  have hcases := outcome_method hmethod hafter
  refine ⟨fun hgas => ?_, fun answer w' hout => ?_, ?_⟩
  · rcases hcases with hout | ⟨e, hrun, hout⟩ | ⟨answer, w', hrun, hout, _⟩
    · exact absurd hout hgas
    · rw [hout, hrun]
      exact ⟨(fun ⟨_, h⟩ => nomatch h), (fun ⟨_, h⟩ => nomatch h)⟩
    · rw [hout, hrun]
      exact ⟨fun _ => ⟨_, rfl⟩, fun _ => ⟨_, rfl⟩⟩
  · rcases hcases with h | ⟨e, _, h⟩ | ⟨answer', w'', hrun, h, hlogged⟩
    · rw [hout] at h
      exact nomatch h
    · rw [hout] at h
      exact nomatch h
    · cases hout.symm.trans h
      exact ⟨hrun, hlogged⟩
  · exact method_affordable hmethod hafter

end Method

/-! ## The logs -/

section Logs

variable {k : Keeper} {ctx : Context} {db : StateDB}

theorem emits_emitEvent {ev : Event} (hencode : Encodes k ev) (store : Store) :
    Emits k ctx (fun ctx => emitEvent k ctx (some db) ev) ev store := by
  obtain ⟨⟨topics, data⟩, hev⟩ := hencode
  refine ⟨0, fun gasLimit gas logs hgas => ⟨fun h => absurd h (Nat.not_lt_of_le hgas), fun _ => ?_⟩⟩
  exact ⟨_, outcome_emitEvent hev, topics, data, hev, rfl⟩

/-- The event of a record names the index the store has by then. -/
theorem emits_emitAddRecordEvent {caller : Address} {registryId recordId index : UInt64}
    {checksum : Bytes} {store : Store}
    (hencode : Encodes k (.addRecord caller registryId recordId index checksum))
    (hindex : store.recordIndices[(registryId, recordId)]? = some index) :
    Emits k ctx (fun ctx => emitAddRecordEvent k ctx (some db) caller registryId recordId checksum)
      (.addRecord caller registryId recordId index checksum) store := by
  obtain ⟨⟨topics, data⟩, hev⟩ := hencode
  refine ⟨k.meter.recordIndex registryId recordId store, fun gasLimit gas logs _ => ⟨fun h => ?_,
    fun h => ?_⟩⟩
  · have hout := outcome_consumeGas_out (ctx.withGasLimit gasLimit) (w := ⟨store, logs, gas⟩) h
    show outcome (emitAddRecordEvent k _ _ _ _ _ _) _ = _
    rw [emitAddRecordEvent, outcome_bind_ok (outcome_get _), outcome_bind_error hout]
  · have hpaid := outcome_consumeGas_ok (ctx.withGasLimit gasLimit) (w := ⟨store, logs, gas⟩)
      (Nat.not_lt_of_le h)
    have hfound : ofErr (getOrNotFound store.recordIndices[(registryId, recordId)]?) = pure index := by
      rw [hindex]
      rfl
    refine ⟨_, ?_, topics, data, hev, rfl⟩
    show outcome (emitAddRecordEvent k _ _ _ _ _ _) _ = _
    rw [emitAddRecordEvent, outcome_bind_ok (outcome_get _), outcome_bind_ok hpaid, hfound, pure_bind,
      outcome_emitEvent hev]
    rfl

end Logs

/-! ## What the handlers leave -/

/-- A registry that was added is there, with its name and its creator. -/
theorem addRegistry_stored {env : Nvnmchain.Env} {ctx : Ctx} {m : MsgAddRegistry} {s s' : Store}
    {registryId : UInt64} {account : Bytes} (haccount : env.stringToBytes m.sender = .ok account)
    (h : MsgServer.addRegistry env ctx (some m) s = .ok (registryId, s')) :
    ∃ registry, s'.registries[registryId]? = some registry ∧ registry.id = registryId ∧
      registry.name = m.name ∧ registry.creator = env.accAddressString account := by
  obtain ⟨_, _, h⟩ := bind_eq_ok.mp h
  obtain ⟨sender, hsender, h⟩ := bind_eq_ok.mp h
  cases haccount.symm.trans hsender
  obtain ⟨_, _, h⟩ := bind_eq_ok.mp h
  obtain ⟨count, _, h⟩ := bind_eq_ok.mp h
  obtain ⟨creator, _, h⟩ := bind_eq_ok.mp h
  cases h
  exact ⟨_, Std.ExtTreeMap.getElem?_insert_self, rfl, rfl, rfl⟩

/-- A record that was added is there, under the index its record id now has, as its latest version. -/
theorem addRecord_stored {env : Nvnmchain.Env} {ctx : Ctx} {sender : Bytes} {record : Record}
    {s s' : Store} {recordId : UInt64}
    (h : MsgServer.addRecord env ctx (some ⟨sender, some record⟩) s = .ok (recordId, s')) :
    ∃ index, s'.recordIndices[(record.registryId, recordId)]? = some index ∧
      s'.records[(record.registryId, recordId, index)]? = some (record.versioned ctx recordId index) := by
  obtain ⟨record', hvalid, h⟩ := bind_eq_ok.mp h
  cases record_of_validateBasic (wrapInvalidRequest_eq_ok.mp hvalid)
  obtain ⟨_, _, h⟩ := bind_eq_ok.mp h
  obtain ⟨_, _, h⟩ := bind_eq_ok.mp h
  obtain ⟨_, _, h⟩ := bind_eq_ok.mp h
  obtain ⟨_, _, h⟩ := bind_eq_ok.mp h
  obtain ⟨⟨id, s₁⟩, hassigned, h⟩ := bind_eq_ok.mp h
  obtain ⟨s₂, hstored, h⟩ := bind_eq_ok.mp h
  cases h
  refine ⟨s₁.nextIndex record.registryId recordId, ?_⟩
  rcases storeVersion_eq_ok.mp hstored with ⟨_, rfl⟩ | ⟨_, prev, _, rfl⟩
  · exact ⟨Std.ExtTreeMap.getElem?_insert_self, Std.ExtTreeMap.getElem?_insert_self⟩
  · refine ⟨Std.ExtTreeMap.getElem?_insert_self, ?_⟩
    -- the version before is rewritten under another key
    have hne : (record.registryId, recordId, s₁.nextIndex record.registryId recordId - 1) ≠
        (record.registryId, recordId, s₁.nextIndex record.registryId recordId) := by
      simp only [ne_eq, Prod.mk.injEq, true_and]
      grind
    exact (Map.get?_insert_ne _ _ hne).trans Std.ExtTreeMap.getElem?_insert_self

/-! ## The five methods -/

/-- A method that refuses what its handler refuses refines it. -/
theorem refines_of_refused {α : Type} {k : Keeper} {ctx : Context} {method : Context → Call α}
    {run : Store → Except Err (α × Store)} {event : α → Store → Event} {w : World} {e : Err}
    (hmethod : ∀ ctx, (outcome (method ctx) w).1 = .error (.err e))
    (hrun : ∀ r, run w.store ≠ .ok r) : Refines k ctx method run event w := by
  refine ⟨fun _ => ?_, fun answer w' hout => ?_, 0, fun gasLimit _ => ?_⟩
  · rw [hmethod]
    exact ⟨(fun ⟨_, h⟩ => nomatch h), fun ⟨r, h⟩ => absurd h (hrun r)⟩
  · have h := hmethod ctx
    rw [hout] at h
    exact nomatch h
  · rw [hmethod]
    exact fun h => nomatch h

/-- The handler refuses an empty role too. -/
theorem revokeRole_empty {env : Nvnmchain.Env} {m : MsgRevokeRole} {s : Store} {r : Unit × Store}
    (hrole : m.role = []) : noAnswer (MsgServer.revokeRole env (some m)) s ≠ .ok r := by
  intro h
  obtain ⟨_, h, _⟩ := bind_eq_ok.mp h
  obtain ⟨_, hvalid, _⟩ := bind_eq_ok.mp h
  obtain ⟨_, _, hvalid⟩ := bind_eq_ok.mp (wrapInvalidRequest_eq_ok.mp hvalid)
  obtain ⟨_, _, hvalid⟩ := bind_eq_ok.mp hvalid
  obtain ⟨_, _, hvalid⟩ := bind_eq_ok.mp hvalid
  obtain ⟨_, _, hvalid⟩ := bind_eq_ok.mp hvalid
  rw [refuseIf_eq_ok, hrole] at hvalid
  exact nomatch hvalid

/-- The event of an added record, with the index the store holds. -/
def addRecordEvent (caller : Address) (input : Record) (recordId : UInt64) (s : Store) : Event :=
  .addRecord caller input.registryId recordId
    ((s.recordIndices[(input.registryId, recordId)]?).getD 0) input.checksum

section Methods

variable {k : Keeper} {ctx : Context} {db : StateDB} {contract : Contract} {sender : Bytes} {w : World}
  (hsender : ofErr (k.env.bytesToString contract.caller.bytes) = pure sender)

include hsender

/-- `addRegistry` is the message, then its event. -/
theorem refines_addRegistry (input : AddRegistryCall)
    (hencode : ∀ registryId, Encodes k (.addRegistry contract.caller registryId input.name)) :
    Refines k ctx (addRegistry k · (some db) contract input)
      (MsgServer.addRegistry k.env.toEnv ctx.toCtx
        (some ⟨sender, input.name, input.description, input.metadata⟩))
      (fun registryId _ => .addRegistry contract.caller registryId input.name) w := by
  refine refines_of_emits
    (.addRegistry (some ⟨sender, input.name, input.description, input.metadata⟩))
    (fun ctx registryId =>
      emitEvent k ctx (some db) (.addRegistry contract.caller registryId input.name)) ?_ ?_
  · intro gasLimit
    simp only [addRegistry, hsender, pure_bind]
    rfl
  · exact fun registryId store _ => emits_emitEvent (hencode registryId) store

/-- `addRecord` is the message, then its event. -/
theorem refines_addRecord (input : AddRecordCall)
    (hencode : ∀ recordId index, Encodes k
      (.addRecord contract.caller input.record.registryId recordId index input.record.checksum)) :
    Refines k ctx (addRecord k · (some db) contract input)
      (MsgServer.addRecord k.env.toEnv ctx.toCtx (some ⟨sender, some (fromABIRecord input.record)⟩))
      (addRecordEvent contract.caller (fromABIRecord input.record)) w := by
  refine refines_of_emits (.addRecord (some ⟨sender, some (fromABIRecord input.record)⟩))
    (fun ctx recordId => emitAddRecordEvent k ctx (some db) contract.caller input.record.registryId
      recordId input.record.checksum) ?_ ?_
  · intro gasLimit
    simp only [addRecord, hsender, pure_bind]
    rfl
  · intro recordId store hrun
    obtain ⟨index, hindex, _⟩ := addRecord_stored hrun
    rw [addRecordEvent, hindex]
    exact emits_emitAddRecordEvent (hencode recordId index) hindex

/-- `updateRecordStatus` is the message, then its event. -/
theorem refines_updateRecordStatus (input : UpdateRecordStatusCall)
    (hencode : Encodes k (.updateRecordStatus contract.caller input.registryId input.recordId
      input.index input.status)) :
    Refines k ctx (updateRecordStatus k · (some db) contract input)
      (noAnswer (MsgServer.updateRecordStatus k.env.toEnv
        (some ⟨sender, input.registryId, input.recordId, input.index, input.status⟩)))
      (fun _ _ => .updateRecordStatus contract.caller input.registryId input.recordId input.index
        input.status) w := by
  refine refines_of_emits
    (.updateRecordStatus
      (some ⟨sender, input.registryId, input.recordId, input.index, input.status⟩))
    (fun ctx _ => emitEvent k ctx (some db) (.updateRecordStatus contract.caller
      input.registryId input.recordId input.index input.status)) ?_ ?_
  · intro gasLimit
    simp only [updateRecordStatus, hsender, pure_bind, bind_pure_unit]
  · exact fun _ store _ => emits_emitEvent hencode store

variable {address : Bytes} {input : RoleCall}
  (haddress : ofErr (k.env.bytesToString input.account.bytes) = pure address)

include haddress

/-- `grantRole` is the message, then its event. -/
theorem refines_grantRole (hencode : Encodes k (.grantRole contract.caller input.registryId
      input.checksum input.account input.role)) :
    Refines k ctx (grantRole k · (some db) contract input)
      (noAnswer (MsgServer.grantRole k.env.toEnv
        (some ⟨sender, address, input.registryId, input.checksum, input.role⟩)))
      (fun _ _ => .grantRole contract.caller input.registryId input.checksum input.account input.role)
      w := by
  refine refines_of_emits
    (.grantRole (some ⟨sender, address, input.registryId, input.checksum, input.role⟩))
    (fun ctx _ => emitEvent k ctx (some db) (.grantRole contract.caller input.registryId
      input.checksum input.account input.role)) ?_ ?_
  · intro gasLimit
    simp only [grantRole, hsender, haddress, pure_bind, bind_pure_unit]
  · exact fun _ store _ => emits_emitEvent hencode store

/-- `revokeRole` is the message, then its event. -/
theorem refines_revokeRole (hencode : Encodes k (.revokeRole contract.caller input.registryId
      input.checksum input.account input.role)) :
    Refines k ctx (revokeRole k · (some db) contract input)
      (noAnswer (MsgServer.revokeRole k.env.toEnv
        (some ⟨sender, address, input.registryId, input.checksum, input.role⟩)))
      (fun _ _ => .revokeRole contract.caller input.registryId input.checksum input.account input.role)
      w := by
  by_cases hrole : input.role = []
  · refine refines_of_refused (e := .text (str "role cannot be empty")) (fun ctx => ?_)
      fun r => revokeRole_empty hrole
    simp only [revokeRole, hrole, decide_true]
    rfl
  · refine refines_of_emits
      (.revokeRole (some ⟨sender, address, input.registryId, input.checksum, input.role⟩))
      (fun ctx _ => emitEvent k ctx (some db) (.revokeRole contract.caller input.registryId
        input.checksum input.account input.role)) ?_ ?_
    · intro gasLimit
      have hnamed : ofErr (refuseIf (input.role = []) "role cannot be empty") = pure () := by
        rw [decide_eq_false hrole]
        rfl
      simp only [revokeRole, hnamed, hsender, haddress, pure_bind, bind_pure_unit]
    · exact fun _ store _ => emits_emitEvent hencode store

end Methods

/-- **The precompile refines the message handlers, and its logs are true.** In every store and for
every caller, each of the five methods that write refines the handler of the message it builds, sent
by the caller. The log of an added registry names the key of a registry with the logged name, created
by the caller. The log of an added record names the key of its latest version, with the fields that
were submitted. -/
theorem precompile_refines {k : Keeper} (laws : CodecLaws k.env) (ctx : Context) (db : StateDB)
    (contract : Contract) (w : World) :
    ∃ sender, k.env.bytesToString contract.caller.bytes = .ok sender ∧
      (∀ input : AddRegistryCall,
        (∀ registryId, Encodes k (.addRegistry contract.caller registryId input.name)) →
        Refines k ctx (addRegistry k · (some db) contract input)
          (MsgServer.addRegistry k.env.toEnv ctx.toCtx
            (some ⟨sender, input.name, input.description, input.metadata⟩))
          (fun registryId _ => .addRegistry contract.caller registryId input.name) w ∧
        ∀ registryId w', outcome (addRegistry k ctx (some db) contract input) w = (.ok registryId, w') →
          ∃ registry, w'.store.registries[registryId]? = some registry ∧ registry.id = registryId ∧
            registry.name = input.name ∧
            registry.creator = k.env.accAddressString contract.caller.bytes) ∧
      (∀ input : AddRecordCall,
        (∀ recordId index, Encodes k
          (.addRecord contract.caller input.record.registryId recordId index input.record.checksum)) →
        Refines k ctx (addRecord k · (some db) contract input)
          (MsgServer.addRecord k.env.toEnv ctx.toCtx (some ⟨sender, some (fromABIRecord input.record)⟩))
          (addRecordEvent contract.caller (fromABIRecord input.record)) w ∧
        ∀ recordId w', outcome (addRecord k ctx (some db) contract input) w = (.ok recordId, w') →
          ∃ index record,
            Logged k ctx (.addRecord contract.caller input.record.registryId recordId index
              input.record.checksum) w.logs w'.logs ∧
            w'.store.records[(input.record.registryId, recordId, index)]? = some record ∧
            record.isLatest = true ∧ record.uri = input.record.uri ∧
            record.checksum = input.record.checksum ∧
            record.checksumAlgo = input.record.checksumAlgo ∧
            record.metadata = input.record.metadata ∧ record.status = input.record.status) ∧
      (∀ input : UpdateRecordStatusCall,
        Encodes k (.updateRecordStatus contract.caller input.registryId input.recordId input.index
          input.status) →
        Refines k ctx (updateRecordStatus k · (some db) contract input)
          (noAnswer (MsgServer.updateRecordStatus k.env.toEnv
            (some ⟨sender, input.registryId, input.recordId, input.index, input.status⟩)))
          (fun _ _ => .updateRecordStatus contract.caller input.registryId input.recordId input.index
            input.status) w) ∧
      ∀ input : RoleCall, ∃ address, k.env.bytesToString input.account.bytes = .ok address ∧
        (Encodes k (.grantRole contract.caller input.registryId input.checksum input.account
            input.role) →
          Refines k ctx (grantRole k · (some db) contract input)
            (noAnswer (MsgServer.grantRole k.env.toEnv
              (some ⟨sender, address, input.registryId, input.checksum, input.role⟩)))
            (fun _ _ => .grantRole contract.caller input.registryId input.checksum input.account
              input.role) w) ∧
        (Encodes k (.revokeRole contract.caller input.registryId input.checksum input.account
            input.role) →
          Refines k ctx (revokeRole k · (some db) contract input)
            (noAnswer (MsgServer.revokeRole k.env.toEnv
              (some ⟨sender, address, input.registryId, input.checksum, input.role⟩)))
            (fun _ _ => .revokeRole contract.caller input.registryId input.checksum input.account
              input.role) w) := by
  obtain ⟨sender, hsender⟩ := laws.bytesToString_ok contract.caller
  have hcaller : ofErr (k.env.bytesToString contract.caller.bytes) = pure sender := by
    rw [hsender]
    rfl
  refine ⟨sender, hsender, fun input hencode => ?_, fun input hencode => ?_, fun input hencode => ?_,
    fun input => ?_⟩
  · have hrefines := @refines_addRegistry k ctx db contract sender w hcaller input hencode
    refine ⟨hrefines, fun registryId w' hout => ?_⟩
    exact addRegistry_stored (laws.stringToBytes_bytesToString _ _ hsender) (hrefines.same _ _ hout).1
  · have hrefines := @refines_addRecord k ctx db contract sender w hcaller input hencode
    refine ⟨hrefines, fun recordId w' hout => ?_⟩
    obtain ⟨hrun, hlogged⟩ := hrefines.same _ _ hout
    obtain ⟨index, hindex, hrecord⟩ := addRecord_stored hrun
    rw [addRecordEvent, hindex] at hlogged
    exact ⟨index, _, hlogged, hrecord, rfl, rfl, rfl, rfl, rfl, rfl⟩
  · exact refines_updateRecordStatus hcaller input hencode
  · obtain ⟨address, haddress⟩ := laws.bytesToString_ok input.account
    have haccount : ofErr (k.env.bytesToString input.account.bytes) = pure address := by
      rw [haddress]
      rfl
    exact ⟨address, haddress, refines_grantRole hcaller haccount, refines_revokeRole hcaller haccount⟩

/-! ## A small caller -/

theorem codecLaws_plainKeeper : CodecLaws plainKeeper.env where
  bytesToString_ok a := ⟨_, rfl⟩
  stringToBytes_bytesToString a text h := by
    have htext : plainEncode a.bytes = text := Except.ok.inj h
    rw [← htext, plainEncode, if_pos (by rw [a.length_bytes]; decide)]
    rfl

/-- A registry, added by the account without code. -/
def plainWorld : World :=
  (outcome (addRegistry plainKeeper plainContext (some ⟨fun _ => []⟩) ⟨smallOrigin, none, []⟩
    ⟨str "deeds", [], []⟩) ⟨Store.initial smallParams, [], 0⟩).2

/-- The outcome of that account's call to add a record to it. -/
def plainOutcome : Except Fault UInt64 × World :=
  outcome (addRecord plainKeeper plainContext (some ⟨fun _ => []⟩) ⟨smallOrigin, none, []⟩
    ⟨toABIRecord (smallRecord "c0")⟩) plainWorld

/-- The log of a record with a short checksum is encoded. -/
theorem encodes_plainKeeper (recordId index : UInt64) :
    Encodes plainKeeper (.addRecord smallOrigin 1 recordId index (str "c0")) := by
  have hsize : (Generated.recordEventData strictGoAbi).size (1, recordId, index, str "c0", ()) = 192 := rfl
  refine Generated.encodeEventAs_ok strictGoAbi ?_
  rw [AbiCodec.Codec.length_bytes, hsize]
  decide +kernel

/-- The record is added, and there is one log more, of its key. -/
theorem precompile_refines_plain :
    plainOutcome.1 = .ok 1 ∧
      ∃ index record,
        Logged plainKeeper plainContext (.addRecord smallOrigin 1 1 index (str "c0")) plainWorld.logs
          plainOutcome.2.logs ∧
        plainOutcome.2.store.records[((1, 1, index) : UInt64 × UInt64 × UInt64)]? = some record ∧
        record.isLatest = true ∧ record.uri = str "ipfs://doc" := by
  have hanswer : plainOutcome.1 = .ok 1 := by decide +kernel
  have hout : plainOutcome = (.ok 1, plainOutcome.2) := by rw [← hanswer]
  obtain ⟨_, _, _, hrecord, _⟩ := precompile_refines codecLaws_plainKeeper plainContext ⟨fun _ => []⟩
    ⟨smallOrigin, none, []⟩ plainWorld
  obtain ⟨index, record, hlogged, hkey, hlatest, huri, _⟩ :=
    (hrecord ⟨toABIRecord (smallRecord "c0")⟩ encodes_plainKeeper).2 1 plainOutcome.2 hout
  exact ⟨hanswer, index, record, hlogged, hkey, hlatest, huri⟩

end Nvnmchain.Precompile
