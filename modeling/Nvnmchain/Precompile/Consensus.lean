import Nvnmchain.Nameindex.Converge
import Nvnmchain.Nameindex.Literal
import Nvnmchain.Precompile.Generated

/-!
# Block execution does not see the name index

The name index is a node's own: one node has it, another has not, a third is behind. A call that runs
in a block must do the same on all of them. The index is read in two places, by the gate of
`registriesByName` and by the search behind it, and in a block the gate refuses before it looks
(`registriesByNameGate_block`). Every other path through the dispatcher is the same program on every
node, whatever the input.

So the calls of a block answer the same bytes and faults, and leave the same store, logs and gas, also
where the tables of the nodes change differently between the calls (`runCalls_congr`).

**What it does not establish.** In a query context the answers do differ, and are meant to. The
context decides, and that a block's context is never one of a query is up to the SDK.
-/

set_option autoImplicit false

namespace Nvnmchain.Precompile

open Go (Bytes str)
open Eth (Address)
open NameIndex (Table)

/-- The keeper of a node with a table of its own, or with none. -/
def Keeper.withIndex (k : Keeper) (table : Option Table) : Keeper := { k with nameIndex := table }

section Block

variable {k : Keeper} {ctx : Context} (hblock : ctx.isCheckTx = false)

include hblock

/-- In a block the gate refuses, with one reason, before it looks at the index. -/
theorem registriesByNameGate_block (stateDB : Option StateDB) (contract : Contract)
    (txOrigin : Address) :
    registriesByNameGate k ctx stateDB contract txOrigin =
      some (str "registriesByName is query-only: use eth_call, not a transaction") := by
  unfold registriesByNameGate
  rw [hblock]
  rfl

/-- No method sees the table. -/
theorem dispatch_withIndex (table table' : Option Table) (stateDB : Option StateDB)
    (contract : Contract) (txOrigin : Address) (input : Bytes) (method : Method) :
    dispatch (k.withIndex table) ctx stateDB contract txOrigin input method =
      dispatch (k.withIndex table') ctx stateDB contract txOrigin input method := by
  cases method with
  | registriesByName =>
    simp only [dispatch, registriesByNameGate_block hblock]
    rfl
  | addRegistry => rfl
  | addRecord => rfl
  | updateRecordStatus => rfl
  | records => rfl
  | registries => rfl
  | grantRole => rfl
  | revokeRole => rfl

/-- Nor does any other path of a call: not the checks before the method, not an id that names none,
not malformed input. -/
theorem execute_withIndex (table table' : Option Table) (stateDB : Option StateDB)
    (contract : Option Contract) (readOnly : Bool) (txOrigin : Address) :
    execute (k.withIndex table) ctx stateDB contract readOnly txOrigin =
      execute (k.withIndex table') ctx stateDB contract readOnly txOrigin := by
  have hmethod : executeMethod (k.withIndex table) ctx stateDB =
      executeMethod (k.withIndex table') ctx stateDB := by
    funext contract txOrigin methodID input
    unfold executeMethod
    cases Method.ofID methodID with
    | none => rfl
    | some method => exact dispatch_withIndex hblock table table' stateDB contract txOrigin input method
  cases contract with
  | none => rfl
  | some contract =>
    unfold execute
    rw [hmethod]
    rfl

end Block

/-- **Block execution does not depend on the name index.** For every input, caller, value, read-only
flag, origin, state database and world, and in every context of a block: two nodes that differ only in
the index answer the same, and leave the same store, logs and gas. -/
theorem execute_index_independent (k : Keeper) (ctx : Context) (hblock : ctx.isCheckTx = false)
    (table table' : Option Table) (stateDB : Option StateDB) (contract : Option Contract)
    (readOnly : Bool) (txOrigin : Address) (w : World) :
    let out := (execute (k.withIndex table) ctx stateDB contract readOnly txOrigin).run.run w
    let out' := (execute (k.withIndex table') ctx stateDB contract readOnly txOrigin).run.run w
    out.1 = out'.1 ∧ out.2.store = out'.2.store ∧ out.2.logs = out'.2.logs ∧
      out.2.gas = out'.2.gas := by
  rw [execute_withIndex hblock table table']
  exact ⟨rfl, rfl, rfl, rfl⟩

/-! ## The calls of a block -/

/-- A call of a block. -/
structure BlockCall where
  ctx : Context
  inBlock : ctx.isCheckTx = false
  stateDB : Option StateDB
  contract : Option Contract
  readOnly : Bool
  txOrigin : Address

/-- The calls of a block on a node, one after another; the node's table may be another one at each. -/
def runCalls (k : Keeper) : List (BlockCall × Option Table) → World → List (Except Fault Bytes) × World
  | [], w => ([], w)
  | (call, table) :: rest, w =>
    let out := (execute (k.withIndex table) call.ctx call.stateDB call.contract call.readOnly
      call.txOrigin).run.run w
    let outs := runCalls k rest out.2
    (out.1 :: outs.1, outs.2)

/-- Two nodes that run the same calls stay in the same world, whatever becomes of their tables. -/
theorem runCalls_congr (k : Keeper) {calls calls' : List (BlockCall × Option Table)}
    (hcalls : calls.map Prod.fst = calls'.map Prod.fst) (w : World) :
    runCalls k calls w = runCalls k calls' w := by
  induction calls generalizing calls' w with
  | nil =>
    rw [List.map_nil, eq_comm, List.map_eq_nil_iff] at hcalls
    rw [hcalls]
  | cons first rest ih =>
    obtain ⟨call, table⟩ := first
    cases calls' with
    | nil => exact nomatch hcalls
    | cons first' rest' =>
      obtain ⟨call', table'⟩ := first'
      obtain ⟨hcall, hrest⟩ := List.cons.inj hcalls
      cases hcall
      simp only [runCalls, execute_withIndex call.inBlock table table', ih hrest]

/-! ## A search in a block -/

/-- The text of an account: its bytes after a letter. -/
def plainEncode (account : Bytes) : Bytes := if account.length ≤ 255 then 120 :: account else []

/-- The account of a text. -/
def plainDecode : Bytes → Except Err Bytes
  | 120 :: account => .ok account
  | _ => errorf "decoding bech32 failed"

theorem length_plainEncode (account : Bytes) : (plainEncode account).length < 2 ^ 63 := by
  unfold plainEncode
  split
  · rw [List.length_cons]
    omega
  · decide

/-- A node without an index, with those texts and the generated codecs, whose calls are free. -/
def plainKeeper : Keeper where
  env :=
    { smallEnv with
      stringToBytes := plainDecode
      accAddressFromBech32 := plainDecode
      accAddressString := plainEncode
      length_accAddressString := length_plainEncode
      bytesToString := fun account => .ok (plainEncode account)
      abi := generatedAbi strictGoAbi
      lib := NameIndex.selectEnv NameIndex.smallLib
      paginate := fun _ _ => .ok ([], none)
      revertReasonBytes := .ok
      parseDelegation := fun _ => false }
  meter := ⟨fun _ _ _ => 0, fun _ _ => 0, fun _ _ => 0, fun _ _ _ => 0⟩
  nameIndex := none

/-- The context of a block. -/
def plainContext : Context := ⟨smallCtx, false, 2, 100000⟩

/-- An account without code. -/
def smallOrigin : Address := ⟨List.replicate 19 0 ++ [0xe1], by decide⟩

/-- A search for the name of registry 8, exactly, as the contract is called. -/
def titlesInput : Bytes :=
  ((MethodCall.registriesByName ⟨str "TITLES", 1, ⟨[], 0, 0, false, false⟩⟩).encode
    strictGoAbi).toOption.getD []

/-- The answer with that registry. -/
def titlesAnswer : Bytes :=
  ((Tuple.registriesByNameReturn.encode strictGoAbi ([toABIRegistry NameIndex.titles], ⟨[], 0⟩)).toOption).getD
    []

/-- The outcome of a search by that account, in a block or as a query, with a table. -/
def searchOutcome (isCheckTx : Bool) (table : Option Table) : Except Fault Bytes × World :=
  (execute (plainKeeper.withIndex table) ⟨smallCtx, isCheckTx, 2, 100000⟩ (some ⟨fun _ => []⟩)
    (some ⟨smallOrigin, none, titlesInput⟩) false smallOrigin).run.run ⟨NameIndex.titledStore, [], 0⟩

/-- The row of registry 8. -/
def titlesTable : Table := (∅ : Table).insert 8 ⟨str "titles", str "seltit", [8]⟩

/-- The search is answered by a node that has the row and refused by one without an index; in a block
both refuse it alike. -/
theorem execute_index_independent_search :
    (searchOutcome true (some titlesTable)).1 = .ok titlesAnswer ∧
      (searchOutcome true none).1 ≠ .ok titlesAnswer ∧
      (searchOutcome false (some titlesTable)).1 = (searchOutcome false none).1 ∧
      (searchOutcome false (some titlesTable)).2.gas = (searchOutcome false none).2.gas := by
  obtain ⟨hanswer, -, -, hgas⟩ := execute_index_independent plainKeeper ⟨smallCtx, false, 2, 100000⟩ rfl
    (some titlesTable) none (some ⟨fun _ => []⟩) (some ⟨smallOrigin, none, titlesInput⟩) false smallOrigin
    ⟨NameIndex.titledStore, [], 0⟩
  refine ⟨by decide +kernel, by decide +kernel, ?_, ?_⟩
  · unfold searchOutcome
    exact hanswer
  · unfold searchOutcome
    exact hgas

end Nvnmchain.Precompile
