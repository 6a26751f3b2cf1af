import Nvnmchain.Anchoring.LedgerRefines
import Nvnmchain.Precompile.Native

/-!
# Messages and calls on one chain

The store of the module is changed from two sides: by messages of the SDK, and by calls of the contract
from inside transactions of the EVM. A transaction is a tree of frames. A call that fails is undone,
and so is a whole frame that is reverted, with the calls in it that had succeeded.

Undoing is the state database's: `RunNativeAction` enters every call in its journal, and reverting to a
snapshot then brings back the store and the logs of that moment. `Snapshots` is that assumption; what
becomes of the gas is left open.

What happened and was not undone are the `Deed`s of a run. They lead from its first world to its last
(`Chained.ops`), each from the world the one before left. So whatever the interleaving and whatever is
reverted, a run is explained by accepted messages, one after another (`chain_explained`): the store is
what the message server makes of them, and the logs are theirs. Each comes from one deed: it is a message
of the SDK and has no log, or it is the message of a call that answered and was not reverted, sent by
the call's caller, and has its log.
-/

set_option autoImplicit false

namespace Nvnmchain.Precompile

open Go (Bytes str)
open Eth (Address)
open Effects

/-! ## Runs of the chain -/

/-- What is assumed of the EVM's state database: reverting from a world to the snapshot of an earlier
one brings back the store and the logs of that one. -/
structure Snapshots where
  revertToSnapshot : World → World → World
  store_revertToSnapshot : ∀ before after, (revertToSnapshot before after).store = before.store
  logs_revertToSnapshot : ∀ before after, (revertToSnapshot before after).logs = before.logs

/-- A call of the contract in a transaction. -/
structure EvmCall where
  evm : Evm
  contract : Contract
  gas : Nat
  readOnly : Bool

/-- `Run` of a call. -/
def EvmCall.run (k : Keeper) (c : EvmCall) (w : World) : Returned :=
  Precompile.run k c.evm c.contract c.gas c.readOnly w

/-- What happens in a transaction of the EVM, as far as the contract is called: calls, and frames with
what happens in them. -/
inductive Trace where
  | done
  | call (c : EvmCall) (rest : Trace)
  | frame (inner : Trace) (reverted : Bool) (rest : Trace)

/-- What happens on the chain: a message, or a transaction of the EVM. -/
inductive Op where
  | message (ctx : Ctx) (msg : Msg)
  | transaction (trace : Trace)

/-- The world a transaction leaves. -/
def Trace.run (k : Keeper) (db : Snapshots) : Trace → World → World
  | done, w => w
  | call c rest, w =>
    let out := c.run k w
    rest.run k db (match out.answer with
      | .ok _ => out.world
      | .error _ => db.revertToSnapshot w out.world)
  | frame inner reverted rest, w =>
    let w' := inner.run k db w
    rest.run k db (if reverted then db.revertToSnapshot w w' else w')

/-- The world an op leaves. -/
def Op.run (k : Keeper) (db : Snapshots) : Op → World → World
  | message ctx msg, w => { w with store := deliver k.env.toEnv ctx msg w.store }
  | transaction trace, w => trace.run k db w

/-- The chain after some time. -/
def runOps (k : Keeper) (db : Snapshots) : List Op → World → World
  | [], w => w
  | op :: rest, w => runOps k db rest (op.run k db w)

/-! ## What was not undone -/

/-- A message of the SDK, or a call of the contract, with the world it met. -/
inductive Deed where
  | message (ctx : Ctx) (msg : Msg) (w : World)
  | call (c : EvmCall) (w : World)

namespace Deed

/-- The world a deed met. -/
def before : Deed → World
  | message _ _ w => w
  | call _ w => w

/-- The world a deed left. -/
def after (k : Keeper) : Deed → World
  | message ctx msg w => { w with store := deliver k.env.toEnv ctx msg w.store }
  | call c w => (c.run k w).world

/-- A call answered. -/
def Answered (k : Keeper) : Deed → Prop
  | message _ _ _ => True
  | call c w => ∃ bz, (c.run k w).answer = .ok bz

end Deed

/-- The calls of a transaction that answered, outside the frames that were reverted. -/
def Trace.deeds (k : Keeper) (db : Snapshots) : Trace → World → List Deed
  | done, _ => []
  | call c rest, w =>
    let out := c.run k w
    match out.answer with
    | .ok _ => .call c w :: rest.deeds k db out.world
    | .error _ => rest.deeds k db (db.revertToSnapshot w out.world)
  | frame inner reverted rest, w =>
    let w' := inner.run k db w
    if reverted then rest.deeds k db (db.revertToSnapshot w w')
    else inner.deeds k db w ++ rest.deeds k db w'

/-- The deeds of an op. -/
def Op.deeds (k : Keeper) (db : Snapshots) : Op → World → List Deed
  | message ctx msg, w => [.message ctx msg w]
  | transaction trace, w => trace.deeds k db w

/-- The deeds of a run. -/
def deedsOf (k : Keeper) (db : Snapshots) : List Op → World → List Deed
  | [], _ => []
  | op :: rest, w => op.deeds k db w ++ deedsOf k db rest (op.run k db w)

/-- The same store and the same logs. -/
def World.Alike (w w' : World) : Prop := w'.store = w.store ∧ w'.logs = w.logs

/-- Deeds lead from a world to another: each one meets the store and the logs the one before left. -/
inductive Chained (k : Keeper) : World → List Deed → World → Prop
  | nil {w w' : World} (alike : w.Alike w') : Chained k w [] w'
  | cons {d : Deed} {ds : List Deed} {w w' : World} (meets : w.Alike d.before) (answered : d.Answered k)
      (rest : Chained k (d.after k) ds w') : Chained k w (d :: ds) w'

namespace Chained

variable {k : Keeper} {db : Snapshots} {ds ds' : List Deed} {w w₁ w₂ w₃ : World}

/-- A run that is met after another world, alike to its first. -/
theorem of_alike (h : Chained k w₁ ds w₂) (halike : w.Alike w₁) : Chained k w ds w₂ := by
  cases h with
  | nil alike => exact .nil ⟨alike.1.trans halike.1, alike.2.trans halike.2⟩
  | cons meets answered rest =>
    exact .cons ⟨meets.1.trans halike.1, meets.2.trans halike.2⟩ answered rest

/-- One run after another. -/
theorem append (h : Chained k w₁ ds w₂) (h' : Chained k w₂ ds' w₃) : Chained k w₁ (ds ++ ds') w₃ := by
  induction h with
  | nil alike => exact h'.of_alike alike
  | cons meets answered rest ih => exact .cons meets answered (ih h')

/-- What was reverted leaves nothing behind. -/
theorem alike_revert (db : Snapshots) (w w' : World) : w.Alike (db.revertToSnapshot w w') :=
  ⟨db.store_revertToSnapshot w w', db.logs_revertToSnapshot w w'⟩

/-- The calls of a transaction that were not undone lead from its first world to its last. -/
theorem trace (k : Keeper) (db : Snapshots) (t : Trace) (w : World) :
    Chained k w (t.deeds k db w) (t.run k db w) := by
  induction t generalizing w with
  | done => exact .nil ⟨rfl, rfl⟩
  | call c rest ih =>
    simp only [Trace.deeds, Trace.run]
    cases hanswer : (c.run k w).answer with
    | error fault => exact (ih _).of_alike (alike_revert db w _)
    | ok bz => exact .cons ⟨rfl, rfl⟩ ⟨bz, hanswer⟩ (ih _)
  | frame inner reverted rest ihInner ihRest =>
    cases reverted with
    | true => exact (ihRest _).of_alike (alike_revert db w _)
    | false => exact (ihInner w).append (ihRest _)

/-- **What was not undone leads from the first world of a run to its last.** -/
theorem ops (k : Keeper) (db : Snapshots) (ops : List Op) (w : World) :
    Chained k w (deedsOf k db ops w) (runOps k db ops w) := by
  induction ops generalizing w with
  | nil => exact .nil ⟨rfl, rfl⟩
  | cons op rest ih =>
    refine Chained.append ?_ (ih (op.run k db w))
    cases op with
    | message ctx msg => exact .cons ⟨rfl, rfl⟩ trivial (.nil ⟨rfl, rfl⟩)
    | transaction t => exact trace k db t w

end Chained

/-! ## What explains a run -/

/-- An accepted message; and, if it came through the contract, the caller and the log. -/
structure Entry where
  ctx : Ctx
  msg : Msg
  through : Option (Address × Log)

/-- What the message server takes. -/
def Entry.input (e : Entry) : Ctx × Msg := (e.ctx, e.msg)

/-- The log of an entry. -/
def Entry.log (e : Entry) : Option Log := e.through.map Prod.snd

/-- A log of the contract says an event. -/
def Log.Says (k : Keeper) (log : Log) (ev : Event) : Prop :=
  log.address = anchoringPrecompileAddress ∧ k.env.abi.encodeEvent ev = .ok (log.topics, log.data)

/-- The message was accepted, and its log, if it has one, is what the contract says of it. -/
def Entry.Takes (k : Keeper) (e : Entry) (w w' : World) : Prop :=
  ∃ r, handle k.env.toEnv e.ctx e.msg w.store = .ok (r, w'.store) ∧ w'.logs = w.logs ++ e.log.toList ∧
    ∀ caller log, e.through = some (caller, log) →
      ∃ ev, Writes k caller e.msg r w'.store ev ∧ log.Says k ev

/-- The entries, one after another, lead from a world to another. Only stores and logs count. -/
inductive Explains (k : Keeper) : List Entry → World → World → Prop
  | nil {w w' : World} (alike : w.Alike w') : Explains k [] w w'
  | cons {e : Entry} {es : List Entry} {w w₁ w₂ : World} (takes : e.Takes k w w₁)
      (rest : Explains k es w₁ w₂) : Explains k (e :: es) w w₂

namespace Explains

variable {k : Keeper} {es es' : List Entry} {w w₁ w₂ w₃ : World}

/-- Entries that are met after another world, alike to their first. -/
theorem of_alike (h : Explains k es w₁ w₂) (halike : w.Alike w₁) : Explains k es w w₂ := by
  cases h with
  | nil alike => exact .nil ⟨alike.1.trans halike.1, alike.2.trans halike.2⟩
  | cons takes rest =>
    refine .cons ?_ rest
    rw [Entry.Takes, ← halike.1, ← halike.2]
    exact takes

/-- Entries after entries. -/
theorem append (h : Explains k es w₁ w₂) (h' : Explains k es' w₂ w₃) : Explains k (es ++ es') w₁ w₃ := by
  induction h with
  | nil alike => exact h'.of_alike alike
  | cons takes _ ih => exact .cons takes (ih h')

/-- The store is what the message server makes of the messages. -/
theorem store (h : Explains k es w₁ w₂) :
    w₂.store = runMsgs k.env.toEnv (es.map Entry.input) w₁.store := by
  induction h with
  | nil alike => exact alike.1
  | @cons e es w w' w'' takes rest ih =>
    obtain ⟨r, hhandle, -⟩ := takes
    have hdeliver : deliver k.env.toEnv e.ctx e.msg w.store = w'.store := by
      rw [deliver, hhandle]
    rw [ih, ← hdeliver]
    rfl

/-- The logs are those of the entries. -/
theorem logs (h : Explains k es w₁ w₂) : w₂.logs = w₁.logs ++ es.filterMap Entry.log := by
  induction h with
  | nil alike => rw [alike.2, List.filterMap_nil, List.append_nil]
  | @cons e es w w' w'' takes rest ih =>
    obtain ⟨r, -, hlogs, -⟩ := takes
    rw [ih, hlogs, List.append_assoc]
    cases hlog : e.log with
    | none => rw [List.filterMap_cons_none hlog]; rfl
    | some log => rw [List.filterMap_cons_some hlog]; rfl

end Explains

/-! ## Every deed is explained -/

/-- What a deed gives: an accepted message of the SDK is an entry without a log, a refused one gives
none. A call that wrote is an entry, of the message its bytes and its caller make, in the context the
call was entered in, with its caller and its log; a call that kept the store and the logs gives none. -/
inductive Deed.Gives (k : Keeper) : Deed → List Entry → Prop
  | accepted {ctx : Ctx} {msg : Msg} {w : World} {out : Response × Store}
      (accepts : handle k.env.toEnv ctx msg w.store = .ok out) :
      Gives k (.message ctx msg w) [⟨ctx, msg, none⟩]
  | refused {ctx : Ctx} {msg : Msg} {w : World} {e : Err}
      (refuses : handle k.env.toEnv ctx msg w.store = .error e) : Gives k (.message ctx msg w) []
  | wrote {c : EvmCall} {ctx : Context} {msg : Msg} {w : World} {log : Log}
      (entered : c.evm.enter = .ok ctx) (carries : c.contract.message k = some msg)
      (logs : (c.run k w).world.logs = w.logs ++ [log]) :
      Gives k (.call c w) [⟨ctx.toCtx, msg, some (c.contract.caller, log)⟩]
  | kept {c : EvmCall} {w : World} (alike : w.Alike (c.run k w).world) : Gives k (.call c w) []

section Explained

variable {k : Keeper}

/-- A call that answered was entered, and ran to its end with the gas it had. -/
theorem run_eq_ok {evm : Evm} {contract : Contract} {gas : Nat} {readOnly : Bool} {w : World} {bz : Bytes}
    (h : (run k evm contract gas readOnly w).answer = .ok bz) :
    ∃ ctx, evm.enter = .ok ctx ∧
      outcome (execute k (ctx.withGasLimit gas) (some evm.stateDB) (some contract) readOnly evm.txOrigin)
        { w with gas := evm.gasConsumed } = (.ok bz, (run k evm contract gas readOnly w).world) := by
  cases henter : evm.enter with
  | error e =>
    simp only [run, runNativeAction, henter] at h
    cases h
  | ok ctx =>
    by_cases hgas : gas < evm.gasConsumed
    · rw [run_of_lt henter hgas] at h
      cases h
    · obtain ⟨hanswer, hworld, -⟩ := @run_of_le k evm contract gas readOnly w ctx henter
        (Nat.le_of_not_lt hgas)
      refine ⟨ctx, rfl, ?_⟩
      rw [← h, hanswer, hworld]
      rfl

/-- **A deed is explained by what it gives.** -/
theorem Deed.explained {d : Deed} (h : d.Answered k) :
    ∃ es, d.Gives k es ∧ Explains k es d.before (d.after k) := by
  cases d with
  | message ctx msg w =>
    cases hhandle : handle k.env.toEnv ctx msg w.store with
    | error e =>
      have hstore : deliver k.env.toEnv ctx msg w.store = w.store := by rw [deliver, hhandle]
      exact ⟨[], .refused hhandle, .nil ⟨hstore, rfl⟩⟩
    | ok out =>
      obtain ⟨r, s⟩ := out
      have hstore : deliver k.env.toEnv ctx msg w.store = s := by rw [deliver, hhandle]
      have htakes : (⟨ctx, msg, none⟩ : Entry).Takes k w (Deed.after k (.message ctx msg w)) := by
        refine ⟨r, ?_, (List.append_nil _).symm, fun caller log hthrough => ?_⟩
        · rw [hhandle, Deed.after, hstore]
        · cases hthrough
      exact ⟨_, .accepted hhandle, .cons htakes (.nil ⟨rfl, rfl⟩)⟩
  | call c w =>
    obtain ⟨bz, hanswer⟩ := h
    obtain ⟨ctx, henter, hcall⟩ := run_eq_ok hanswer
    rcases execute_ok hcall with hkept | ⟨msg, hmsg, r, ev, hwrites, hhandle, topics, data, hencode, hlogs⟩
    · exact ⟨[], .kept hkept, .nil hkept⟩
    · refine ⟨_, .wrote henter hmsg hlogs, .cons ⟨r, hhandle, hlogs, ?_⟩ (.nil ⟨rfl, rfl⟩)⟩
      intro caller log hthrough
      cases hthrough
      exact ⟨ev, hwrites, rfl, hencode⟩

/-- What chained deeds give explains where they lead. -/
theorem Chained.explained {ds : List Deed} {w w' : World} (h : Chained k w ds w') :
    ∃ ess, List.Forall₂ (Deed.Gives k) ds ess ∧ Explains k ess.flatten w w' := by
  induction h with
  | nil alike => exact ⟨[], .nil, .nil alike⟩
  | @cons d ds w w' meets answered rest ih =>
    obtain ⟨es, hgives, hexplains⟩ := d.explained answered
    obtain ⟨ess, hall, hrest⟩ := ih
    exact ⟨es :: ess, .cons hgives hall, (hexplains.of_alike meets).append hrest⟩

end Explained

/-- **A run of the chain is a run of messages, and the logs are theirs.** For every interleaving of
messages and transactions, with calls that fail and frames that are reverted anywhere: each message of
the SDK, and each call that answered and was not reverted, gives an accepted message or none. From these,
in order, the message server makes the store; and the logs added are those of the messages that came
through the contract, one each. -/
theorem chain_explained (k : Keeper) (db : Snapshots) (ops : List Op) (w : World) :
    ∃ ess, List.Forall₂ (Deed.Gives k) (deedsOf k db ops w) ess ∧
      Explains k ess.flatten w (runOps k db ops w) ∧
      (runOps k db ops w).store = runMsgs k.env.toEnv (ess.flatten.map Entry.input) w.store ∧
      (runOps k db ops w).logs = w.logs ++ ess.flatten.filterMap Entry.log := by
  obtain ⟨ess, hgives, hexplains⟩ := (Chained.ops k db ops w).explained
  exact ⟨ess, hgives, hexplains, hexplains.store, hexplains.logs⟩

end Nvnmchain.Precompile
