import Nvnmchain.Precompile.Refine

/-!
# What a successful call did

`Precompile.Execute` from its end: a call that answered bytes kept the store and the logs, or it was
one message of its caller, which the message handler accepted, and one log that says so
(`execute_ok`). The message is the one its selector, its arguments and its caller make
(`Contract.message`). `Writes` lists the five messages with their logs.

Nothing is asked of the codecs here. An event that does not encode fails its call.
-/

set_option autoImplicit false

namespace Nvnmchain.Precompile

open Go (Bytes str)
open Eth (Address)
open Effects

/-- A message of a caller, the handler's answer to it, the store left, and the event that is logged. -/
inductive Writes (k : Keeper) (caller : Address) : Msg → Response → Store → Event → Prop
  | addRegistry {sender : Bytes} {input : AddRegistryCall} {registryId : UInt64} {s : Store}
    (signs : k.env.bytesToString caller.bytes = .ok sender) :
    Writes k caller (.addRegistry (some ⟨sender, input.name, input.description, input.metadata⟩))
      (.addRegistry registryId) s (.addRegistry caller registryId input.name)
  | addRecord {sender : Bytes} {record : Record} {recordId index : UInt64} {s : Store}
    (signs : k.env.bytesToString caller.bytes = .ok sender)
    (indexed : s.recordIndices[(record.registryId, recordId)]? = some index) :
    Writes k caller (.addRecord (some ⟨sender, some record⟩)) (.addRecord recordId) s
      (.addRecord caller record.registryId recordId index record.checksum)
  | updateRecordStatus {sender : Bytes} {input : UpdateRecordStatusCall} {s : Store}
    (signs : k.env.bytesToString caller.bytes = .ok sender) :
    Writes k caller (.updateRecordStatus
        (some ⟨sender, input.registryId, input.recordId, input.index, input.status⟩)) .empty s
      (.updateRecordStatus caller input.registryId input.recordId input.index input.status)
  | grantRole {sender address : Bytes} {input : RoleCall} {s : Store}
    (signs : k.env.bytesToString caller.bytes = .ok sender)
    (grants : k.env.bytesToString input.account.bytes = .ok address) :
    Writes k caller (.grantRole
        (some ⟨sender, address, input.registryId, input.checksum, input.role⟩)) .empty s
      (.grantRole caller input.registryId input.checksum input.account input.role)
  | revokeRole {sender address : Bytes} {input : RoleCall} {s : Store}
    (signs : k.env.bytesToString caller.bytes = .ok sender)
    (revokes : k.env.bytesToString input.account.bytes = .ok address) :
    Writes k caller (.revokeRole
        (some ⟨sender, address, input.registryId, input.checksum, input.role⟩)) .empty s
      (.revokeRole caller input.registryId input.checksum input.account input.role)

/-- A message of a caller was accepted by its handler, and there is one log that says so. -/
def Wrote (k : Keeper) (ctx : Context) (caller : Address) (msg : Msg) (w w' : World) : Prop :=
  ∃ r ev, Writes k caller msg r w'.store ev ∧
    handle k.env.toEnv ctx.toCtx msg w.store = .ok (r, w'.store) ∧ Logged k ctx ev w.logs w'.logs

/-- The message a method makes of its caller and its encoded arguments, if it makes one. -/
def Method.message (k : Keeper) (caller : Address) (input : Bytes) : Method → Option Msg
  | .addRegistry => do
    let args ← (k.env.abi.decodeAddRegistry input).toOption
    let sender ← (k.env.bytesToString caller.bytes).toOption
    pure (.addRegistry (some ⟨sender, args.name, args.description, args.metadata⟩))
  | .addRecord => do
    let args ← (k.env.abi.decodeAddRecord input).toOption
    let sender ← (k.env.bytesToString caller.bytes).toOption
    pure (.addRecord (some ⟨sender, some (fromABIRecord args.record)⟩))
  | .updateRecordStatus => do
    let args ← (k.env.abi.decodeUpdateRecordStatus input).toOption
    let sender ← (k.env.bytesToString caller.bytes).toOption
    pure (.updateRecordStatus (some ⟨sender, args.registryId, args.recordId, args.index, args.status⟩))
  | .grantRole => do
    let args ← (k.env.abi.decodeGrantRole input).toOption
    let sender ← (k.env.bytesToString caller.bytes).toOption
    let address ← (k.env.bytesToString args.account.bytes).toOption
    pure (.grantRole (some ⟨sender, address, args.registryId, args.checksum, args.role⟩))
  | .revokeRole => do
    let args ← (k.env.abi.decodeRevokeRole input).toOption
    let sender ← (k.env.bytesToString caller.bytes).toOption
    let address ← (k.env.bytesToString args.account.bytes).toOption
    pure (.revokeRole (some ⟨sender, address, args.registryId, args.checksum, args.role⟩))
  | .records | .registries | .registriesByName => none

/-- The message of a call: that of the method its selector names. -/
def Contract.message (k : Keeper) (contract : Contract) : Option Msg :=
  (splitMethodID contract.input).toOption.bind fun parsed =>
    (Method.ofID parsed.1).bind (Method.message k contract.caller parsed.2)

/-! ## The parts of a call -/

section Parts

variable {α : Type} {k : Keeper} {ctx : Context} {w w' : World}

/-- A computation that touches nothing succeeded. -/
theorem outcome_ofErr_eq_ok {x : Except Err α} {a : α} (h : outcome (ofErr x) w = (.ok a, w')) :
    x = .ok a ∧ w' = w := by
  cases x with
  | ok b =>
    cases h
    exact ⟨rfl, rfl⟩
  | error e => cases h

/-- A value the call goes on with. -/
theorem outcome_ofErr_bind_eq_ok {β : Type} {x : Except Err α} {f : α → Call β} {b : β}
    (h : outcome (ofErr x >>= f) w = (.ok b, w')) : ∃ a, x = .ok a ∧ outcome (f a) w = (.ok b, w') := by
  obtain ⟨a, w₁, hx, hf⟩ := outcome_bind_eq_ok h
  obtain ⟨hx, hw⟩ := outcome_ofErr_eq_ok hx
  exact ⟨a, hx, hw ▸ hf⟩

/-- Gas that was consumed changes nothing else. -/
theorem outcome_consumeGas_eq_ok {amount : Nat} {u : Unit}
    (h : outcome (consumeGas ctx amount) w = (.ok u, w')) :
    w' = { w with gas := w.gas + amount } ∧ w.gas + amount ≤ ctx.gasLimit := by
  rw [outcome_consumeGas] at h
  obtain ⟨hgas, hw⟩ := Prod.mk.inj h
  split at hgas
  · cases hgas
  · rename_i hle
    exact ⟨hw.symm, Nat.le_of_not_lt hle⟩

/-- A call of the message server that answered left its store, and no log. -/
theorem outcome_viaMsgServer_eq_ok {msg : Msg} {run : Store → Except Err (α × Store)} {a : α}
    (h : outcome (viaMsgServer k ctx msg run) w = (.ok a, w')) :
    run w.store = .ok (a, w'.store) ∧ w'.logs = w.logs := by
  obtain ⟨_, _, hget, hrest⟩ := outcome_bind_eq_ok h
  cases hget
  obtain ⟨_, w₁, hgas, hrest⟩ := outcome_bind_eq_ok hrest
  rw [(outcome_consumeGas_eq_ok hgas).1] at hrest
  obtain ⟨⟨answer, store⟩, hrun, hrest⟩ := outcome_ofErr_bind_eq_ok hrest
  cases hrest
  exact ⟨hrun, rfl⟩

/-- An event that was emitted left one log, and the store. -/
theorem outcome_emitEvent_eq_ok {db : StateDB} {ev : Event} {u : Unit}
    (h : outcome (emitEvent k ctx (some db) ev) w = (.ok u, w')) :
    w'.store = w.store ∧ Logged k ctx ev w.logs w'.logs := by
  obtain ⟨⟨topics, data⟩, hencode, hrest⟩ := outcome_ofErr_bind_eq_ok h
  cases hrest
  exact ⟨rfl, topics, data, hencode, rfl⟩

/-- A method that answered decoded its arguments and encoded its result. -/
theorem outcome_runMethod_eq_ok {ι ο : Type} {decoded : Except Err ι} {method : ι → Call ο}
    {encode : ο → Except Err Bytes} {bytes : Bytes}
    (h : outcome (runMethod decoded method encode) w = (.ok bytes, w')) :
    ∃ input out, decoded = .ok input ∧ outcome (method input) w = (.ok out, w') ∧
      encode out = .ok bytes := by
  obtain ⟨input, hdecoded, hrest⟩ := outcome_ofErr_bind_eq_ok h
  obtain ⟨out, w₁, hmethod, hrest⟩ := outcome_bind_eq_ok hrest
  obtain ⟨hencode, hw⟩ := outcome_ofErr_eq_ok hrest
  exact ⟨input, out, hdecoded, hw ▸ hmethod, hencode⟩

end Parts

/-! ## The methods that write -/

section Methods

variable {k : Keeper} {ctx : Context} {db : StateDB} {contract : Contract} {w w' : World}

/-- A handler that answers nothing, as a message. -/
theorem handle_of_noAnswer {run : Store → Except Err Store} {s s' : Store} {u : Unit}
    (h : noAnswer run s = .ok (u, s')) : run s = .ok s' := by
  obtain ⟨s₁, hrun, e⟩ := bind_eq_ok.mp h
  cases e
  exact hrun

/-- What an `addRegistry` call that answered wrote. -/
theorem addRegistry_wrote {input : AddRegistryCall} {registryId : UInt64}
    (h : outcome (addRegistry k ctx (some db) contract input) w = (.ok registryId, w')) :
    ∃ sender, k.env.bytesToString contract.caller.bytes = .ok sender ∧
      Wrote k ctx contract.caller
        (.addRegistry (some ⟨sender, input.name, input.description, input.metadata⟩)) w w' := by
  obtain ⟨sender, hsender, h⟩ := outcome_ofErr_bind_eq_ok h
  obtain ⟨id, w₁, hrun, h⟩ := outcome_bind_eq_ok h
  obtain ⟨hrun, hlogs⟩ := outcome_viaMsgServer_eq_ok hrun
  obtain ⟨_, w₂, hemit, h⟩ := outcome_bind_eq_ok h
  obtain ⟨hstore, hlogged⟩ := outcome_emitEvent_eq_ok hemit
  cases h
  refine ⟨sender, hsender, _, _, .addRegistry hsender, bind_eq_ok.mpr ⟨(registryId, w'.store), ?_, rfl⟩, hlogs ▸ hlogged⟩
  rw [hstore]
  exact hrun

/-- What an `addRecord` call that answered wrote. -/
theorem addRecord_wrote {input : AddRecordCall} {recordId : UInt64}
    (h : outcome (addRecord k ctx (some db) contract input) w = (.ok recordId, w')) :
    ∃ sender, k.env.bytesToString contract.caller.bytes = .ok sender ∧
      Wrote k ctx contract.caller (.addRecord (some ⟨sender, some (fromABIRecord input.record)⟩)) w w' := by
  obtain ⟨sender, hsender, h⟩ := outcome_ofErr_bind_eq_ok h
  obtain ⟨id, w₁, hrun, h⟩ := outcome_bind_eq_ok h
  obtain ⟨hrun, hlogs⟩ := outcome_viaMsgServer_eq_ok hrun
  obtain ⟨_, w₂, hemit, h⟩ := outcome_bind_eq_ok h
  cases h
  -- the index is read back from the store the handler left
  obtain ⟨_, _, hget, hemit⟩ := outcome_bind_eq_ok hemit
  cases hget
  obtain ⟨_, w₃, hgas, hemit⟩ := outcome_bind_eq_ok hemit
  rw [(outcome_consumeGas_eq_ok hgas).1] at hemit
  obtain ⟨index, hindex, hemit⟩ := outcome_ofErr_bind_eq_ok hemit
  obtain ⟨hstore, hlogged⟩ := outcome_emitEvent_eq_ok hemit
  have hstore : w'.store = w₁.store := hstore
  have hindexed : w'.store.recordIndices[(input.record.registryId, recordId)]? = some index := by
    rw [hstore]
    exact getOrNotFound_eq_ok.mp hindex
  refine ⟨sender, hsender, _, _, .addRecord hsender hindexed, bind_eq_ok.mpr ⟨(recordId, w'.store), ?_, rfl⟩,
    hlogs ▸ hlogged⟩
  rw [hstore]
  exact hrun

/-- What an `updateRecordStatus` call that answered wrote. -/
theorem updateRecordStatus_wrote {input : UpdateRecordStatusCall} {u : Unit}
    (h : outcome (updateRecordStatus k ctx (some db) contract input) w = (.ok u, w')) :
    ∃ sender, k.env.bytesToString contract.caller.bytes = .ok sender ∧
      Wrote k ctx contract.caller (.updateRecordStatus
        (some ⟨sender, input.registryId, input.recordId, input.index, input.status⟩)) w w' := by
  obtain ⟨sender, hsender, h⟩ := outcome_ofErr_bind_eq_ok h
  obtain ⟨_, w₁, hrun, h⟩ := outcome_bind_eq_ok h
  obtain ⟨hrun, hlogs⟩ := outcome_viaMsgServer_eq_ok hrun
  obtain ⟨hstore, hlogged⟩ := outcome_emitEvent_eq_ok h
  refine ⟨sender, hsender, _, _, .updateRecordStatus hsender, bind_eq_ok.mpr ⟨w'.store, ?_, rfl⟩, hlogs ▸ hlogged⟩
  rw [hstore]
  exact handle_of_noAnswer hrun

/-- What a `grantRole` call that answered wrote. -/
theorem grantRole_wrote {input : RoleCall} {u : Unit}
    (h : outcome (grantRole k ctx (some db) contract input) w = (.ok u, w')) :
    ∃ sender address, k.env.bytesToString contract.caller.bytes = .ok sender ∧
      k.env.bytesToString input.account.bytes = .ok address ∧
      Wrote k ctx contract.caller
        (.grantRole (some ⟨sender, address, input.registryId, input.checksum, input.role⟩)) w w' := by
  obtain ⟨sender, hsender, h⟩ := outcome_ofErr_bind_eq_ok h
  obtain ⟨address, haddress, h⟩ := outcome_ofErr_bind_eq_ok h
  obtain ⟨_, w₁, hrun, h⟩ := outcome_bind_eq_ok h
  obtain ⟨hrun, hlogs⟩ := outcome_viaMsgServer_eq_ok hrun
  obtain ⟨hstore, hlogged⟩ := outcome_emitEvent_eq_ok h
  refine ⟨sender, address, hsender, haddress, _, _, .grantRole hsender haddress, bind_eq_ok.mpr ⟨w'.store, ?_, rfl⟩, hlogs ▸ hlogged⟩
  rw [hstore]
  exact handle_of_noAnswer hrun

/-- What a `revokeRole` call that answered wrote. -/
theorem revokeRole_wrote {input : RoleCall} {u : Unit}
    (h : outcome (revokeRole k ctx (some db) contract input) w = (.ok u, w')) :
    ∃ sender address, k.env.bytesToString contract.caller.bytes = .ok sender ∧
      k.env.bytesToString input.account.bytes = .ok address ∧
      Wrote k ctx contract.caller
        (.revokeRole (some ⟨sender, address, input.registryId, input.checksum, input.role⟩)) w w' := by
  obtain ⟨_, -, h⟩ := outcome_ofErr_bind_eq_ok h
  obtain ⟨sender, hsender, h⟩ := outcome_ofErr_bind_eq_ok h
  obtain ⟨address, haddress, h⟩ := outcome_ofErr_bind_eq_ok h
  obtain ⟨_, w₁, hrun, h⟩ := outcome_bind_eq_ok h
  obtain ⟨hrun, hlogs⟩ := outcome_viaMsgServer_eq_ok hrun
  obtain ⟨hstore, hlogged⟩ := outcome_emitEvent_eq_ok h
  refine ⟨sender, address, hsender, haddress, _, _, .revokeRole hsender haddress, bind_eq_ok.mpr ⟨w'.store, ?_, rfl⟩, hlogs ▸ hlogged⟩
  rw [hstore]
  exact handle_of_noAnswer hrun

/-- A method that writes and answers has written the message it makes. -/
theorem dispatch_wrote {txOrigin : Address} {input bytes : Bytes} {method : Method}
    (hwrites : method.writes = true)
    (h : outcome (dispatch k ctx (some db) contract txOrigin input method) w = (.ok bytes, w')) :
    ∃ msg, method.message k contract.caller input = some msg ∧ Wrote k ctx contract.caller msg w w' := by
  cases method with
  | addRegistry =>
    obtain ⟨args, _, hargs, h, -⟩ := outcome_runMethod_eq_ok h
    obtain ⟨sender, hsender, hwrote⟩ := addRegistry_wrote h
    refine ⟨_, ?_, hwrote⟩
    rw [Method.message, hargs, hsender]
    rfl
  | addRecord =>
    obtain ⟨args, _, hargs, h, -⟩ := outcome_runMethod_eq_ok h
    obtain ⟨sender, hsender, hwrote⟩ := addRecord_wrote h
    refine ⟨_, ?_, hwrote⟩
    rw [Method.message, hargs, hsender]
    rfl
  | updateRecordStatus =>
    obtain ⟨args, _, hargs, h, -⟩ := outcome_runMethod_eq_ok h
    obtain ⟨sender, hsender, hwrote⟩ := updateRecordStatus_wrote h
    refine ⟨_, ?_, hwrote⟩
    rw [Method.message, hargs, hsender]
    rfl
  | grantRole =>
    obtain ⟨args, _, hargs, h, -⟩ := outcome_runMethod_eq_ok h
    obtain ⟨sender, address, hsender, haddress, hwrote⟩ := grantRole_wrote h
    refine ⟨_, ?_, hwrote⟩
    simp only [Method.message, hargs, hsender, Except.toOption, Option.bind_eq_bind, Option.bind_some,
      haddress]
    rfl
  | revokeRole =>
    obtain ⟨args, _, hargs, h, -⟩ := outcome_runMethod_eq_ok h
    obtain ⟨sender, address, hsender, haddress, hwrote⟩ := revokeRole_wrote h
    refine ⟨_, ?_, hwrote⟩
    simp only [Method.message, hargs, hsender, Except.toOption, Option.bind_eq_bind, Option.bind_some,
      haddress]
    rfl
  | records => exact absurd hwrites (by decide)
  | registries => exact absurd hwrites (by decide)
  | registriesByName => exact absurd hwrites (by decide)

end Methods

/-- **A successful call kept the store and the logs, or was its message, accepted, and its log.** -/
theorem execute_ok {k : Keeper} {ctx : Context} {db : StateDB} {contract : Contract} {readOnly : Bool}
    {txOrigin : Address} {bytes : Bytes} {w w' : World}
    (h : outcome (execute k ctx (some db) (some contract) readOnly txOrigin) w = (.ok bytes, w')) :
    (w'.store = w.store ∧ w'.logs = w.logs) ∨
      ∃ msg, contract.message k = some msg ∧ Wrote k ctx contract.caller msg w w' := by
  cases hparse : parseMethod contract.input readOnly with
  | error fault =>
    have hfault : outcome (ofFault (parseMethod contract.input readOnly)) w = (.error fault, w) := by
      rw [hparse]
      rfl
    rw [execute, outcome_bind_error hfault] at h
    cases h
  | ok parsed =>
    obtain ⟨methodID, rest⟩ := parsed
    have hsplit := (parseMethod_eq_ok hparse).1
    rw [execute_parsed hparse] at h
    split at h
    · cases h
    · split at h
      · cases h
      · unfold executeMethod at h
        split at h
        · rename_i method hmethod
          cases hwrites : method.writes with
          | true =>
            obtain ⟨msg, hmsg, hwrote⟩ := dispatch_wrote hwrites h
            refine .inr ⟨msg, ?_, hwrote⟩
            rw [Contract.message, hsplit]
            exact Option.bind_eq_some_iff.mpr ⟨_, rfl, Option.bind_eq_some_iff.mpr ⟨method, hmethod, hmsg⟩⟩
          | false =>
            have hquiet := quiet_dispatch k ctx (some db) contract txOrigin rest hwrites w
            rw [h] at hquiet
            exact .inl (Prod.ext_iff.mp hquiet)
        · cases h

end Nvnmchain.Precompile
