import Nvnmchain.Lib.Effects
import Nvnmchain.Precompile.Consensus

/-!
# The gates of the methods that write

A call changes the store or the logs only through the five methods that write, and these are reached
through five gates: the selector names one of them, the call is not read-only, it carries no value,
its caller is the origin of the transaction, and the origin is an account of its own, without code or
with a delegation. Everything else a call can do keeps the store and the logs (`Quiet`).

The gate of the value has a hole. `ensureNoValue` asks for the `Sign` of a 256-bit word, which the
library reads as a signed number: a value of `2^255` or more counts as negative and passes, and then
changes nothing about the call (`execute_gated_below`).
-/

set_option autoImplicit false

namespace Nvnmchain.Precompile

open Go (Bytes str)
open Eth (Address)
open Effects

/-! ## What keeps the store and the logs -/

/-- A part of a call that keeps the store and the logs. -/
abbrev Quiet {α : Type} (c : Call α) : Prop := Keeps (fun w : World => (w.store, w.logs)) c

/-- Gas is counted, also where it runs out. -/
theorem outcome_consumeGas (ctx : Context) (amount : Nat) (w : World) :
    outcome (consumeGas ctx amount) w =
      (if ctx.gasLimit < w.gas + amount then .error .outOfGas else .ok (),
        { w with gas := w.gas + amount }) := by
  rw [consumeGas, outcome_bind_ok (outcome_get w), outcome_bind_ok (outcome_set w _)]
  split
  · rfl
  · rfl

theorem quiet_consumeGas (ctx : Context) (amount : Nat) : Quiet (consumeGas ctx amount) := by
  intro w
  rw [outcome_consumeGas]

theorem quiet_ofErr {α : Type} (x : Except Err α) : Quiet (ofErr x) := keeps_mk _

theorem quiet_ofFault {α : Type} (x : Except Fault α) : Quiet (ofFault x) := keeps_mk _

/-- A method that is quiet stays so behind its codecs. -/
theorem quiet_runMethod {ι ο : Type} {decoded : Except Err ι} {method : ι → Call ο}
    {encode : ο → Except Err Bytes} (h : ∀ input, Quiet (method input)) :
    Quiet (runMethod decoded method encode) :=
  (quiet_ofErr decoded).bind fun input => (h input).bind fun out => quiet_ofErr (encode out)

/-- `records` changes neither store nor logs. -/
theorem quiet_records (k : Keeper) (ctx : Context) (input : RecordsCall) :
    Quiet (records k ctx input) :=
  keeps_get.bind fun _ => (quiet_consumeGas ctx _).bind fun _ => (quiet_ofFault _).bind fun _ =>
    keeps_pure _

/-- `registries` changes neither store nor logs. -/
theorem quiet_registries (k : Keeper) (ctx : Context) (input : RegistriesCall) :
    Quiet (registries k ctx input) :=
  keeps_get.bind fun _ => (quiet_consumeGas ctx _).bind fun _ => (quiet_ofFault _).bind fun _ =>
    keeps_pure _

/-- Charging for an index read changes neither store nor logs. -/
theorem quiet_chargeIndexReadGas (ctx : Context) (regs : List AbiRegistry) :
    Quiet (chargeIndexReadGas ctx regs) := by
  induction regs with
  | nil => exact keeps_pure ()
  | cons reg rest ih => exact (quiet_consumeGas ctx _).bind fun _ => ih

/-- `registriesByName` changes neither store nor logs. -/
theorem quiet_registriesByName (k : Keeper) (ctx : Context) (input : RegistriesByNameCall) :
    Quiet (registriesByName k ctx input) :=
  (quiet_ofErr _).bind fun _ => (quiet_ofFault _).bind fun rsp =>
    (quiet_chargeIndexReadGas ctx (rsp.registries.map toABIRegistry)).bind fun _ => keeps_pure _

/-- The methods that write. -/
def Method.writes : Method → Bool
  | .addRegistry | .addRecord | .updateRecordStatus | .grantRole | .revokeRole => true
  | .records | .registries | .registriesByName => false

/-- The methods that read keep the store and the logs. -/
theorem quiet_dispatch (k : Keeper) (ctx : Context) (stateDB : Option StateDB) (contract : Contract)
    (txOrigin : Address) (input : Bytes) {method : Method} (h : method.writes = false) :
    Quiet (dispatch k ctx stateDB contract txOrigin input method) := by
  cases method with
  | records => exact quiet_runMethod (quiet_records k ctx)
  | registries => exact quiet_runMethod (quiet_registries k ctx)
  | registriesByName =>
    simp only [dispatch]
    cases registriesByNameGate k ctx stateDB contract txOrigin with
    | some reason => exact keeps_throw _
    | none => exact quiet_runMethod (quiet_registriesByName k ctx)
  | addRegistry => exact absurd h (by decide)
  | addRecord => exact absurd h (by decide)
  | updateRecordStatus => exact absurd h (by decide)
  | grantRole => exact absurd h (by decide)
  | revokeRole => exact absurd h (by decide)

/-! ## The gates -/

/-- A selector finds the method that has it. -/
theorem id_of_ofID {methodID : UInt32} {method : Method} (h : Method.ofID methodID = some method) :
    method.id = methodID := by
  simpa using List.find?_some h

/-- The methods that write are those behind the gates for transactions. -/
theorem isTransactionID_id (method : Method) : isTransactionID method.id = method.writes := by
  cases method <;> decide

/-- The gates a call passed, but for the one of the value. -/
structure Gated (k : Keeper) (stateDB : Option StateDB) (contract : Contract) (readOnly : Bool)
    (txOrigin : Address) : Prop where
  selector : ∃ (method : Method) (rest : Bytes), method.writes = true ∧
    splitMethodID contract.input = .ok (method.id, rest)
  writable : readOnly = false
  direct : contract.caller = txOrigin
  account : ∃ db, stateDB = some db ∧
    (db.getCode txOrigin = [] ∨ k.env.parseDelegation (db.getCode txOrigin) = true)

/-- What the gate for contract callers checked. -/
theorem ensureEOACaller_eq_true {k : Keeper} {stateDB : Option StateDB} {contract : Contract}
    {txOrigin : Address} (h : ensureEOACaller k stateDB contract txOrigin = true) :
    contract.caller = txOrigin ∧ ∃ db, stateDB = some db ∧
      (db.getCode txOrigin = [] ∨ k.env.parseDelegation (db.getCode txOrigin) = true) := by
  cases stateDB with
  | none => exact nomatch h
  | some db =>
    simp only [ensureEOACaller, isEOACode, Bool.and_eq_true, Bool.or_eq_true, decide_eq_true_eq,
      List.isEmpty_iff] at h
    exact ⟨h.1, db, rfl, h.2⟩

/-- What the gate for read-only calls checked. -/
theorem parseMethod_eq_ok {input rest : Bytes} {readOnly : Bool} {methodID : UInt32}
    (h : parseMethod input readOnly = .ok (methodID, rest)) :
    splitMethodID input = .ok (methodID, rest) ∧ (readOnly && isTransactionID methodID) = false := by
  obtain ⟨⟨id, rest'⟩, hsplit, h⟩ := bind_eq_ok.mp h
  cases hprotected : readOnly && isTransactionID id with
  | true =>
    simp only [hprotected, if_true] at h
    exact nomatch h
  | false =>
    simp only [hprotected, Bool.false_eq_true, if_false] at h
    cases h
    exact ⟨hsplit, hprotected⟩

/-- A call whose input parses goes through the other gates. -/
theorem execute_parsed {k : Keeper} {ctx : Context} {stateDB : Option StateDB} {contract : Contract}
    {readOnly : Bool} {txOrigin : Address} {methodID : UInt32} {rest : Bytes}
    (h : parseMethod contract.input readOnly = .ok (methodID, rest)) :
    execute k ctx stateDB (some contract) readOnly txOrigin =
      match receivedValue contract with
      | some value => revert k (str "cannot receive funds, received: " ++ Go.fmtUint value.toNat)
      | none =>
        if isTransactionID methodID && !ensureEOACaller k stateDB contract txOrigin then
          revert k errSenderNoEOA
        else executeMethod k ctx stateDB contract txOrigin methodID rest := by
  have hparsed : ofFault (parseMethod contract.input readOnly) = pure (methodID, rest) := by
    rw [h]
    rfl
  rw [execute, hparsed]
  exact pure_bind _ _

/-- **The gates.** A call keeps the store and the logs, or it passed all of them. -/
theorem execute_quiet_or_gated (k : Keeper) (ctx : Context) (stateDB : Option StateDB)
    (contract : Contract) (readOnly : Bool) (txOrigin : Address) :
    Quiet (execute k ctx stateDB (some contract) readOnly txOrigin) ∨
      receivedValue contract = none ∧ Gated k stateDB contract readOnly txOrigin := by
  cases hparse : parseMethod contract.input readOnly with
  | error fault =>
    refine .inl fun w => ?_
    have hfault : outcome (ofFault (parseMethod contract.input readOnly)) w = (.error fault, w) := by
      rw [hparse]
      rfl
    rw [execute, outcome_bind_error hfault]
  | ok parsed =>
    obtain ⟨methodID, rest⟩ := parsed
    obtain ⟨hsplit, hprotected⟩ := parseMethod_eq_ok hparse
    rw [execute_parsed hparse]
    cases hvalue : receivedValue contract with
    | some value => exact .inl (keeps_throw _)
    | none =>
      cases hrefused : isTransactionID methodID && !ensureEOACaller k stateDB contract txOrigin with
      | true => exact .inl (keeps_throw _)
      | false =>
        simp only [Bool.false_eq_true, if_false, executeMethod]
        cases hmethod : Method.ofID methodID with
        | none => exact .inl (keeps_throw _)
        | some method =>
          cases hwrites : method.writes with
          | false => exact .inl (quiet_dispatch k ctx stateDB contract txOrigin rest hwrites)
          | true =>
            have hid := id_of_ofID hmethod
            have htransaction : isTransactionID methodID = true := by
              rw [← hid, isTransactionID_id, hwrites]
            rw [htransaction] at hprotected hrefused
            have hcaller : ensureEOACaller k stateDB contract txOrigin = true := by
              simpa using hrefused
            obtain ⟨hdirect, haccount⟩ := ensureEOACaller_eq_true hcaller
            exact .inr ⟨trivial, ⟨method, rest, hwrites, hid ▸ hsplit⟩, by simpa using hprotected, hdirect,
              haccount⟩

/-! ## The value -/

/-- What passes the gate of the value: none, zero, and what reads as a negative number. -/
theorem receivedValue_eq_none {contract : Contract} :
    receivedValue contract = none ↔ ∀ v, contract.value = some v → v = 0 ∨ 2 ^ 255 ≤ v.toNat := by
  rw [receivedValue, Option.filter_eq_none_iff]
  refine forall₂_congr fun v _ => ?_
  have hlt := v.isLt
  have hzero : v = 0 ↔ v.toNat = 0 := by rw [← BitVec.toNat_inj]; rfl
  rw [decide_eq_true_eq, BitVec.toInt_eq_toNat_cond, hzero]
  split <;> omega

/-- No method looks at the value. -/
theorem dispatch_value (k : Keeper) (ctx : Context) (stateDB : Option StateDB) (contract : Contract)
    (value : Option (BitVec 256)) (txOrigin : Address) (input : Bytes) (method : Method) :
    dispatch k ctx stateDB { contract with value } txOrigin input method =
      dispatch k ctx stateDB contract txOrigin input method := by
  cases method <;> rfl

/-- The gate of the value is all that looks at it. -/
theorem execute_value {k : Keeper} {ctx : Context} {stateDB : Option StateDB} (contract : Contract)
    (value : Option (BitVec 256)) {readOnly : Bool} {txOrigin : Address}
    (h : receivedValue contract = none) (hvalue : receivedValue { contract with value } = none) :
    execute k ctx stateDB (some { contract with value }) readOnly txOrigin =
      execute k ctx stateDB (some contract) readOnly txOrigin := by
  have hmethod : executeMethod k ctx stateDB { contract with value } txOrigin =
      executeMethod k ctx stateDB contract txOrigin := by
    funext methodID input
    simp only [executeMethod, dispatch_value]
  have hcaller : ensureEOACaller k stateDB { contract with value } txOrigin =
      ensureEOACaller k stateDB contract txOrigin := rfl
  simp only [execute, h, hvalue, hmethod, hcaller]

/-! ## One call -/

/-- What is asked of one call: it keeps the store and the logs, or it carries no value, or a zero, and
passed the other gates. -/
def WritesGated (k : Keeper) (ctx : Context) (stateDB : Option StateDB) (contract : Option Contract)
    (readOnly : Bool) (txOrigin : Address) (w : World) : Prop :=
  let w' := (outcome (execute k ctx stateDB contract readOnly txOrigin) w).2
  (w'.store = w.store ∧ w'.logs = w.logs) ∨
    ∃ c, contract = some c ∧ (∀ v, c.value = some v → v = 0) ∧ Gated k stateDB c readOnly txOrigin

/-- **The gates hold for every call whose value is below `2^255`**, or that would not pass the others:
it keeps the store and the logs unless its selector is one of a method that writes, it is not read-only,
its value is nil or zero, its caller is the origin of the transaction, and the origin has no code or a
delegation. A call with a larger value that passes the other gates has the outcome of the same call
without a value, so it writes what that one writes. -/
theorem execute_gated_below (k : Keeper) (ctx : Context) (stateDB : Option StateDB)
    (contract : Option Contract) (readOnly : Bool) (txOrigin : Address) (w : World) :
    ((∀ c v, contract = some c → c.value = some v → v.toNat < 2 ^ 255) ∨
        (∀ c, contract = some c → ¬ Gated k stateDB c readOnly txOrigin) →
      WritesGated k ctx stateDB contract readOnly txOrigin w) ∧
    ∀ c v, contract = some c → Gated k stateDB c readOnly txOrigin → c.value = some v →
      2 ^ 255 ≤ v.toNat →
      outcome (execute k ctx stateDB contract readOnly txOrigin) w =
        outcome (execute k ctx stateDB (some { c with value := none }) readOnly txOrigin) w := by
  constructor
  · intro h
    cases contract with
    | none => exact .inl ⟨rfl, rfl⟩
    | some c =>
      rcases execute_quiet_or_gated k ctx stateDB c readOnly txOrigin with hquiet | ⟨hpass, hgated⟩
      · exact .inl (Prod.ext_iff.mp (hquiet w))
      · have hsmall := h.resolve_right fun hnot => hnot c rfl hgated
        refine .inr ⟨c, rfl, fun v hv => ?_, hgated⟩
        exact (receivedValue_eq_none.mp hpass v hv).resolve_right (Nat.not_le_of_lt (hsmall c v rfl hv))
  · rintro c v rfl hgated hv hlarge
    have hpass : receivedValue c = none := by
      refine receivedValue_eq_none.mpr fun v' hv' => ?_
      cases hv.symm.trans hv'
      exact .inr hlarge
    exact congrArg (outcome · w) (execute_value c none hpass rfl).symm

/-! ## A call that carries a value -/

/-- A call that adds a registry. -/
def paidInput : Bytes :=
  ((MethodCall.addRegistry ⟨str "paid", [], []⟩).encode strictGoAbi).toOption.getD []

/-- The account without code sends it, with a value. -/
def paidCall (value : Option (BitVec 256)) : Contract := ⟨smallOrigin, value, paidInput⟩

/-- The world after that call. -/
def paidWorld (value : Option (BitVec 256)) : World :=
  (outcome (execute plainKeeper plainContext (some ⟨fun _ => []⟩) (some (paidCall value)) false
    smallOrigin) ⟨smallStore, [], 0⟩).2

/-- Without a value the call writes, and is gated; with a value of one it does not write. -/
theorem execute_gated_below_paid :
    (paidWorld none).logs.length = 1 ∧
      WritesGated plainKeeper plainContext (some ⟨fun _ => []⟩) (some (paidCall none)) false smallOrigin
        ⟨smallStore, [], 0⟩ ∧
      WritesGated plainKeeper plainContext (some ⟨fun _ => []⟩) (some (paidCall (some 1))) false smallOrigin
        ⟨smallStore, [], 0⟩ := by
  refine ⟨by decide +kernel, (execute_gated_below _ _ _ _ _ _ _).1 (.inl fun c v hc hv => ?_),
    (execute_gated_below _ _ _ _ _ _ _).1 (.inl fun c v hc hv => ?_)⟩
  · cases hc
    cases hv
  · cases hc
    cases hv
    decide

/-- **A call that carries `2^255` adds a registry and a log**: the property of one call fails. -/
theorem execute_receives_value :
    (paidWorld (some (2 ^ 255))).store.registryCount = some 2 ∧ smallStore.registryCount = some 1 ∧
      (paidWorld (some (2 ^ 255))).logs.length = 1 ∧
      ¬ WritesGated plainKeeper plainContext (some ⟨fun _ => []⟩) (some (paidCall (some (2 ^ 255)))) false
        smallOrigin ⟨smallStore, [], 0⟩ := by
  have hlogs : (paidWorld (some (2 ^ 255))).logs.length = 1 := by decide +kernel
  refine ⟨by decide +kernel, by decide +kernel, hlogs, fun h => ?_⟩
  unfold WritesGated at h
  rw [paidWorld] at hlogs
  rcases h with ⟨-, hnone⟩ | ⟨c, hc, hzero, -⟩
  · rw [hnone] at hlogs
    cases hlogs
  · cases hc
    have hpaid : (2 ^ 255 : BitVec 256) = 0 := hzero _ rfl
    exact absurd hpaid (by decide +kernel)

end Nvnmchain.Precompile
