import Nvnmchain.Lib.Coins
import Nvnmchain.Anchoring.MsgServer

/-!
# The tax module

`x/tax`: one stored value, the parameters, which hold the share of the collected fees that is taken
at the end of each block and the account it goes to. The account named there is the only one that
may change them. `UpdateParams` checks a message three times: `ValidateBasic` on the message alone,
the handler on each field it takes over, and `Params.Validate` on the result, which goes through the
text of the decimal.

The bank and account modules are outside. They are the interfaces of `expected_keepers.go`, over a
bank state of any type; `GetBalance` and `BurnCoins` are part of the interface and never called.
-/

set_option autoImplicit false

namespace Nvnmchain.Tax

open Go (Bytes str)
open Sdk

/-! ## Parameters and messages -/

/-- The functions of other libraries the module calls: the address codecs, and the text form of a
decimal. -/
structure Env extends Nvnmchain.Env where
  newDecFromStr : Bytes → Except Err LegacyDec
  decString : LegacyDec → Bytes

/-- `types.Params`. -/
structure Params where
  tax : LegacyDec
  taxAddress : Bytes
deriving DecidableEq

/-- `types.MsgUpdateParams`; an empty field leaves its parameter as it is. -/
structure MsgUpdateParams where
  authority : Bytes
  tax : Bytes
  taxAddress : Bytes

/-- `types.MaxTax`. -/
def maxTax : LegacyDec := .one

/-- `ValidateTax`. -/
def validateTax (env : Env) (v : Bytes) : Except Err Unit := do
  let tax ← wrapText "invalid tax" (env.newDecFromStr v)
  refuseIf tax.isNegative "tax cannot be negative"
  require (!tax.gt maxTax) (.text (str "tax cannot exceed maximum of " ++ env.decString maxTax))

/-- `ValidateTaxAddress`. -/
def validateTaxAddress (env : Env) (address : Bytes) : Except Err Unit :=
  validateAddress env.toEnv address "tax address cannot be empty" "invalid tax address"

/-- `Params.Validate`. -/
def Params.validate (env : Env) (p : Params) : Except Err Unit := do
  validateTax env (env.decString p.tax)
  validateTaxAddress env p.taxAddress

/-- The refusal of a tax above the maximum, which names both. -/
def exceedsMaximum (env : Env) (tax : LegacyDec) : Err :=
  .text (str "tax " ++ env.decString tax ++ str " cannot exceed maximum of " ++ env.decString maxTax)

/-- The tax of a message, when it has one. -/
def MsgUpdateParams.validateTax (env : Env) (msg : MsgUpdateParams) : Except Err Unit :=
  if msg.tax = [] then pure ()
  else do
    let tax ← wrapText "invalid tax" (env.newDecFromStr msg.tax)
    refuseIf tax.isNegative "tax cannot be negative"
    require (!tax.gt maxTax) (exceedsMaximum env tax)

/-- The tax address of a message, when it has one. -/
def MsgUpdateParams.validateTaxAddress (env : Env) (msg : MsgUpdateParams) : Except Err Unit :=
  if msg.taxAddress = [] then pure ()
  else do
    let _ ← wrapText "invalid tax address" (env.accAddressFromBech32 msg.taxAddress)

/-- `MsgUpdateParams.ValidateBasic`. -/
def MsgUpdateParams.validateBasic (env : Env) (msg : MsgUpdateParams) : Except Err Unit := do
  validateAddress env.toEnv msg.authority "authority address cannot be empty"
    "invalid authority address"
  msg.validateTax env
  msg.validateTaxAddress env

/-- `types.GenesisState`. -/
structure GenesisState where
  params : Params

/-- `GenesisState.Validate`. -/
def GenesisState.validate (env : Env) (gs : GenesisState) : Except Err Unit := gs.params.validate env

/-! ## The keeper -/

/-- The module's store: `Params` is a `collections.Item`. -/
structure Store where
  params : Option Params

/-- `InitGenesis`. -/
def initGenesis (gs : GenesisState) (_ : Store) : Store := ⟨some gs.params⟩

/-- `types.BankKeeper`, over a bank state. -/
structure BankKeeper (β : Type) where
  getAllBalances : β → Bytes → Coins
  sendCoinsFromModuleToAccount : β → Bytes → Bytes → Coins → Except Err β
  blockedAddr : Bytes → Bool

/-- `keeper.Keeper`. The account keeper is only asked for the address of a module account. -/
structure Keeper (β : Type) where
  env : Env
  moduleAddress : Bytes → Bytes
  bankKeeper : BankKeeper β
  feeCollectorName : Bytes

/-- An event and its attributes. -/
structure Event where
  name : Bytes
  attributes : List (Bytes × Bytes)
deriving DecidableEq

namespace Keeper

variable {β : Type}

/-- The event of a transfer. -/
def taxEvent (env : Env) (amount : Coins) (taxAddress : Bytes) : Event :=
  ⟨str "tax", [(str "amount", Coins.string amount),
    (str "recipient", env.accAddressString taxAddress)]⟩

/-- `Keeper.AllocateTax`: the bank it leaves, and the events. -/
def allocateTax (k : Keeper β) (bank : β) (tax : LegacyDec) (taxAddress : Bytes) :
    Except Err (β × List Event) := do
  let feeCollector := k.moduleAddress k.feeCollectorName
  let feesCollectedInt := k.bankKeeper.getAllBalances bank feeCollector
  let feesCollected := newDecCoinsFromCoins feesCollectedInt
  require (!(tax.isNegative || tax.gt maxTax)) (.text (str "invalid tax: " ++ k.env.decString tax))
  let taxAllocation := (feesCollected.mulDec tax).truncateDecimal
  if taxAllocation.isZero then pure (bank, [])
  else do
    let bank ← k.bankKeeper.sendCoinsFromModuleToAccount bank k.feeCollectorName taxAddress
      taxAllocation
    pure (bank, [taxEvent k.env taxAllocation taxAddress])

/-- The tax an `UpdateParams` takes over. -/
def updateTax (k : Keeper β) (req : MsgUpdateParams) (p : Params) : Except Err Params :=
  if req.tax = [] then pure p
  else do
    let tax ← k.env.newDecFromStr req.tax
    require (!tax.gt maxTax) (exceedsMaximum k.env tax)
    pure { p with tax }

/-- The tax address an `UpdateParams` takes over. -/
def updateTaxAddress (k : Keeper β) (req : MsgUpdateParams) (p : Params) : Except Err Params :=
  if req.taxAddress = [] then pure p
  else do
    let taxAddr ← wrapf (str "invalid tax address") (k.env.stringToBytes req.taxAddress)
    require (!k.bankKeeper.blockedAddr taxAddr)
      (.text (str "tax address " ++ req.taxAddress ++ str " is blocked"))
    pure { p with taxAddress := req.taxAddress }

/-- `msgServer.UpdateParams`. -/
def updateParams (k : Keeper β) (req : Option MsgUpdateParams) (s : Store) : Except Err Store :=
  match req with
  | none => MsgServer.emptyRequest
  | some req => do
    wrapInvalidRequest (req.validateBasic k.env)
    let _ ← wrapf (str "invalid authority address") (k.env.stringToBytes req.authority)
    let params ← getOrNotFound s.params
    require (req.authority = params.taxAddress) (.wrap (.sentinel .invalidSigner)
      (str "invalid sender; expected taxAddress " ++ params.taxAddress ++ str ", got " ++
        req.authority))
    let updateParams ← getOrNotFound s.params
    let updateParams ← k.updateTax req updateParams
    let updateParams ← k.updateTaxAddress req updateParams
    updateParams.validate k.env
    pure ⟨some updateParams⟩

/-- `EndBlocker`. -/
def endBlocker (k : Keeper β) (s : Store) (blockHeight : Int) (bank : β) :
    Except Err (β × List Event) := do
  let params ← getOrNotFound s.params
  -- if the tax is zero, no need to continue
  if params.tax.isZero then pure (bank, [])
  else if 1 < blockHeight then do
    let taxAddress ← k.env.accAddressFromBech32 params.taxAddress
    k.allocateTax bank params.tax taxAddress
  else pure (bank, [])

end Keeper

end Nvnmchain.Tax
