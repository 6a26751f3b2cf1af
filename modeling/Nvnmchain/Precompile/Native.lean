import Nvnmchain.Precompile.Called

/-!
# Running a call in the EVM

`RunNativeAction` of `precompiles/common.go`, and `Run` of the precompile. The EVM hands over a
contract with some gas. The call gets a meter of its own with that gas as its limit, on which the gas
that was consumed before is counted first; afterwards the contract pays for what the call consumed.

A call that answers has paid exactly what was charged. Its last check, that the contract can pay, never
fails: the meter has stopped the call before (`run_gas_exact`).

The state database of the EVM is outside. It takes the snapshot by which a call that fails is undone,
and it may refuse to. What it does to the contract's gas after a panic of the meter is
`HandleGasError`'s, and is given.
-/

set_option autoImplicit false

namespace Nvnmchain.Precompile

open Go (Bytes str)
open Eth (Address)
open Effects

/-- What is asked of the EVM: its state database, and whether it is the one of the EVM module; the
context of its cache, and the gas consumed in it so far; whether the journal takes the snapshot and
the cache the changes so far; and the origin of the transaction. -/
structure Evm where
  stateDB : StateDB
  isStateDB : Bool
  getCacheContext : Except Err Context
  gasConsumed : Nat
  addPrecompileFn : Except Err Unit
  flushToCacheCtx : Except Err Unit
  txOrigin : Address
  handleGasError : Nat → Nat

/-- What a call of the EVM leaves: an answer or a fault, the world, and the gas of the contract. -/
structure Returned where
  answer : Except Fault Bytes
  world : World
  gas : Nat

/-- `RunNativeAction` before the meter: the context the action runs in. -/
def Evm.enter (evm : Evm) : Except Err Context := do
  if !evm.isStateDB then .error (.text (str "not run in EVM"))
  let ctx ← evm.getCacheContext
  evm.addPrecompileFn
  evm.flushToCacheCtx
  pure ctx

/-- `RunNativeAction`. -/
def runNativeAction (evm : Evm) (gas : Nat) (action : Context → Call Bytes) (w : World) : Returned :=
  match evm.enter with
  | .error e => ⟨.error (.err e), w, gas⟩
  | .ok ctx =>
    let initialGas := evm.gasConsumed
    let ctx := ctx.withGasLimit gas
    let metered : Call Bytes := do
      consumeGas ctx initialGas
      action ctx
    match outcome metered { w with gas := 0 } with
    | (.error .outOfGas, w') => ⟨.error .outOfGas, w', evm.handleGasError gas⟩
    | (.error e, w') => ⟨.error e, w', gas⟩
    | (.ok bz, w') =>
      let cost := w'.gas - initialGas
      -- `UseGas` refuses a cost above the contract's gas
      if gas < cost then ⟨.error .outOfGas, w', gas⟩ else ⟨.ok bz, w', gas - cost⟩

/-- `Precompile.Run`. -/
def run (k : Keeper) (evm : Evm) (contract : Contract) (gas : Nat) (readOnly : Bool) (w : World) :
    Returned :=
  runNativeAction evm gas
    (fun ctx => execute k ctx (some evm.stateDB) (some contract) readOnly evm.txOrigin) w

/-! ## The meter -/

/-- The gas consumed does not fall, and stays within a limit. -/
def Metered (limit : Nat) (w w' : World) : Prop := w.gas ≤ w'.gas ∧ (w.gas ≤ limit → w'.gas ≤ limit)

/-- Gas is counted over two parts. -/
theorem Metered.trans {limit : Nat} {w₁ w₂ w₃ : World} (h : Metered limit w₁ w₂)
    (h' : Metered limit w₂ w₃) : Metered limit w₁ w₃ :=
  ⟨Nat.le_trans h.1 h'.1, fun hle => h'.2 (h.2 hle)⟩

/-- Every success of a part of a call is metered. -/
def Charged {α : Type} (ctx : Context) (c : Call α) : Prop := Ensures (Metered ctx.gasLimit) c

section Meter

variable {α β : Type} {k : Keeper} {ctx : Context}

/-- A part of a call that keeps the meter's count. -/
theorem charged_of_keeps {c : Call α} (h : Keeps World.gas c) : Charged ctx c :=
  h.ensures fun _ _ hgas => ⟨Nat.le_of_eq hgas.symm, fun hle => hgas ▸ hle⟩

/-- A sequence of charged parts is charged. -/
theorem Charged.bind {c : Call α} {f : α → Call β} (hc : Charged ctx c) (hf : ∀ a, Charged ctx (f a)) :
    Charged ctx (c >>= f) :=
  Ensures.bind hc hf Metered.trans

/-- Consuming gas counts it. -/
theorem charged_consumeGas (amount : Nat) : Charged ctx (consumeGas ctx amount) := by
  intro w u w' h
  obtain ⟨rfl, hle⟩ := outcome_consumeGas_eq_ok h
  exact ⟨Nat.le_add_right _ _, fun _ => hle⟩

theorem charged_ofErr (x : Except Err α) : Charged ctx (ofErr x) :=
  charged_of_keeps (keeps_mk _)

theorem charged_ofFault (x : Except Fault α) : Charged ctx (ofFault x) :=
  charged_of_keeps (keeps_mk _)

theorem charged_get : Charged ctx (get : Call World) := charged_of_keeps keeps_get

theorem charged_pure (a : α) : Charged ctx (pure a : Call α) :=
  charged_of_keeps (keeps_pure a)

/-- A call of the message server counts its gas. -/
theorem charged_viaMsgServer {msg : Msg} {handler : Store → Except Err (α × Store)} :
    Charged ctx (viaMsgServer k ctx msg handler) := by
  refine charged_get.bind fun w => (charged_consumeGas _).bind fun _ => (charged_ofErr _).bind fun r => ?_
  obtain ⟨answer, store⟩ := r
  have hstore : Keeps World.gas (modify fun w => { w with store } : Call PUnit) :=
    keeps_modify fun _ => rfl
  exact (charged_of_keeps hstore).bind fun _ => charged_pure answer

/-- Emitting an event counts no gas. -/
theorem charged_emitEvent (stateDB : Option StateDB) (ev : Event) :
    Charged ctx (emitEvent k ctx stateDB ev) := by
  cases stateDB with
  | none => exact charged_pure ()
  | some db => exact (charged_ofErr _).bind fun _ => charged_of_keeps (keeps_modify fun _ => rfl)

/-- Charging for an index read counts its gas. -/
theorem charged_chargeIndexReadGas (regs : List AbiRegistry) :
    Charged ctx (chargeIndexReadGas ctx regs) := by
  induction regs with
  | nil => exact charged_pure ()
  | cons reg rest ih => exact (charged_consumeGas _).bind fun _ => ih

/-- A method that is charged stays so behind its codecs. -/
theorem charged_runMethod {ι ο : Type} {decoded : Except Err ι} {method : ι → Call ο}
    {encode : ο → Except Err Bytes} (h : ∀ input, Charged ctx (method input)) :
    Charged ctx (runMethod decoded method encode) :=
  (charged_ofErr decoded).bind fun input => (h input).bind fun out => charged_ofErr (encode out)

/-- Every path of the dispatcher is charged. -/
theorem charged_dispatch (stateDB : Option StateDB) (contract : Contract) (txOrigin : Address)
    (input : Bytes) (method : Method) :
    Charged ctx (dispatch k ctx stateDB contract txOrigin input method) := by
  cases method with
  | addRegistry =>
    exact charged_runMethod fun _ => (charged_ofErr _).bind fun _ =>
      charged_viaMsgServer.bind fun _ => (charged_emitEvent _ _).bind fun _ => charged_pure _
  | addRecord =>
    exact charged_runMethod fun _ => (charged_ofErr _).bind fun _ =>
      charged_viaMsgServer.bind fun _ =>
        (charged_get.bind fun _ => (charged_consumeGas _).bind fun _ =>
          (charged_ofErr _).bind fun _ => charged_emitEvent _ _).bind fun _ => charged_pure _
  | updateRecordStatus =>
    exact charged_runMethod fun _ => (charged_ofErr _).bind fun _ =>
      charged_viaMsgServer.bind fun _ => charged_emitEvent _ _
  | records =>
    exact charged_runMethod fun _ => charged_get.bind fun _ => (charged_consumeGas _).bind fun _ =>
      (charged_ofFault _).bind fun _ => charged_pure _
  | registries =>
    exact charged_runMethod fun _ => charged_get.bind fun _ => (charged_consumeGas _).bind fun _ =>
      (charged_ofFault _).bind fun _ => charged_pure _
  | registriesByName =>
    simp only [dispatch]
    cases registriesByNameGate k ctx stateDB contract txOrigin with
    | some reason => exact ensures_throw _
    | none =>
      exact charged_runMethod fun _ => (charged_ofErr _).bind fun _ =>
        (charged_ofFault _).bind fun _ => (charged_chargeIndexReadGas _).bind fun _ =>
          charged_pure _
  | grantRole =>
    exact charged_runMethod fun _ => (charged_ofErr _).bind fun _ => (charged_ofErr _).bind fun _ =>
      charged_viaMsgServer.bind fun _ => charged_emitEvent _ _
  | revokeRole =>
    exact charged_runMethod fun _ => (charged_ofErr _).bind fun _ => (charged_ofErr _).bind fun _ =>
      (charged_ofErr _).bind fun _ => charged_viaMsgServer.bind fun _ => charged_emitEvent _ _

/-- A call stays within its meter. -/
theorem charged_execute (stateDB : Option StateDB) (contract : Contract) (readOnly : Bool)
    (txOrigin : Address) :
    Charged ctx (execute k ctx stateDB (some contract) readOnly txOrigin) := by
  refine (charged_ofFault (parseMethod contract.input readOnly)).bind fun parsed => ?_
  obtain ⟨methodID, input⟩ := parsed
  dsimp only
  split
  · exact ensures_throw _
  · split
    · exact ensures_throw _
    · unfold executeMethod
      split
      · exact charged_dispatch _ _ _ _ _
      · exact ensures_throw _

end Meter

/-! ## The gas of a call -/

section Gas

variable {k : Keeper} {evm : Evm} {contract : Contract} {gas : Nat} {readOnly : Bool} {w : World}

/-- What a call in a context answers, with the gas consumed before already counted. -/
def inside (k : Keeper) (evm : Evm) (ctx : Context) (contract : Contract) (gas : Nat) (readOnly : Bool)
    (w : World) : Except Fault Bytes × World :=
  outcome (execute k (ctx.withGasLimit gas) (some evm.stateDB) (some contract) readOnly evm.txOrigin)
    { w with gas := evm.gasConsumed }

/-- With less gas than was consumed before, the call does not start. -/
theorem run_of_lt {ctx : Context} (henter : evm.enter = .ok ctx) (hgas : gas < evm.gasConsumed) :
    run k evm contract gas readOnly w =
      ⟨.error .outOfGas, { w with gas := evm.gasConsumed }, evm.handleGasError gas⟩ := by
  have hout : outcome (consumeGas (ctx.withGasLimit gas) evm.gasConsumed) { w with gas := 0 } =
      (.error .outOfGas, { w with gas := 0 + evm.gasConsumed }) :=
    outcome_consumeGas_out _ ((Nat.zero_add _).symm ▸ hgas)
  rw [Nat.zero_add] at hout
  simp only [run, runNativeAction, henter, outcome_bind_error hout]

/-- Otherwise the answer of the call is never replaced: the contract can pay. -/
theorem run_of_le {ctx : Context} (henter : evm.enter = .ok ctx) (hgas : evm.gasConsumed ≤ gas) :
    (run k evm contract gas readOnly w).answer = (inside k evm ctx contract gas readOnly w).1 ∧
    (run k evm contract gas readOnly w).world = (inside k evm ctx contract gas readOnly w).2 ∧
    ∀ bz, (run k evm contract gas readOnly w).answer = .ok bz →
      evm.gasConsumed ≤ (run k evm contract gas readOnly w).world.gas ∧
      (run k evm contract gas readOnly w).world.gas ≤ gas ∧
      (run k evm contract gas readOnly w).gas +
        ((run k evm contract gas readOnly w).world.gas - evm.gasConsumed) = gas := by
  have hin : outcome (consumeGas (ctx.withGasLimit gas) evm.gasConsumed) { w with gas := 0 } =
      (.ok (), { w with gas := 0 + evm.gasConsumed }) :=
    outcome_consumeGas_ok _ (Nat.not_lt_of_le ((Nat.zero_add _).symm ▸ hgas))
  rw [Nat.zero_add] at hin
  have hmeter := @charged_execute k (ctx.withGasLimit gas) (some evm.stateDB) contract readOnly
    evm.txOrigin { w with gas := evm.gasConsumed }
  simp only [run, runNativeAction, henter, outcome_bind_ok hin, inside]
  cases hcall : outcome (execute k (ctx.withGasLimit gas) (some evm.stateDB) (some contract) readOnly
    evm.txOrigin) { w with gas := evm.gasConsumed } with
  | mk answer w' =>
    cases answer with
    | error fault =>
      cases fault with
      | outOfGas => exact ⟨rfl, rfl, fun _ h => by cases h⟩
      | err e => exact ⟨rfl, rfl, fun _ h => by cases h⟩
      | status code desc => exact ⟨rfl, rfl, fun _ h => by cases h⟩
      | writeProtection => exact ⟨rfl, rfl, fun _ h => by cases h⟩
      | executionReverted reason => exact ⟨rfl, rfl, fun _ h => by cases h⟩
    | ok bz =>
      obtain ⟨hfrom, hto⟩ := hmeter bz w' hcall
      have hto := hto hgas
      dsimp only at hfrom
      have hpays : ¬ gas < w'.gas - evm.gasConsumed := by
        have : w'.gas ≤ gas := hto
        omega
      simp only [if_neg hpays, true_and]
      exact fun _ _ => ⟨hfrom, hto, by omega⟩

end Gas

/-- **A call pays exactly what was charged.** A call that cannot be entered, or has less gas than was
consumed before, changes no store and no logs. Otherwise it answers what `Execute` answers, also when
it fails; and when it answers bytes, the gas left and the gas the meter counted during the call make up
the gas it was given. -/
theorem run_gas_exact (k : Keeper) (evm : Evm) (contract : Contract) (gas : Nat) (readOnly : Bool)
    (w : World) :
    let out := run k evm contract gas readOnly w
    (∀ e, evm.enter = .error e → out = ⟨.error (.err e), w, gas⟩) ∧
    ∀ ctx, evm.enter = .ok ctx →
      (gas < evm.gasConsumed → out.answer = .error .outOfGas ∧ out.world.store = w.store ∧
        out.world.logs = w.logs) ∧
      (evm.gasConsumed ≤ gas →
        out.answer = (inside k evm ctx contract gas readOnly w).1 ∧
        out.world = (inside k evm ctx contract gas readOnly w).2 ∧
        ∀ bz, out.answer = .ok bz → evm.gasConsumed ≤ out.world.gas ∧ out.world.gas ≤ gas ∧
          out.gas + (out.world.gas - evm.gasConsumed) = gas) := by
  refine ⟨fun e henter => ?_, fun ctx henter => ⟨fun hgas => ?_, fun hgas => run_of_le henter hgas⟩⟩
  · simp only [run, runNativeAction, henter]
  · rw [run_of_lt henter hgas]
    exact ⟨rfl, rfl, rfl⟩

end Nvnmchain.Precompile
