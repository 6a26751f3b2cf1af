import Nvnmchain.Anchoring.Run
import Nvnmchain.Tax.Keeper

/-!
# What the tax takes

`AllocateTax` turns the fee collector's coins into decimals, multiplies them by the tax and drops the
decimals again. The product of a whole number and a decimal needs no rounding, so what is left is the
share rounded down, of every denom: never more than the fee collector has. A bank that keeps its
`Ledger` moves that share and nothing else.
-/

set_option autoImplicit false

namespace Nvnmchain.Tax

open Go (Bytes str)
open Sdk

variable {β : Type} {k : Keeper β} {bank : β} {tax : LegacyDec} {account : Bytes}

namespace Keeper

/-- What an account holds of a denom. -/
def balance (k : Keeper β) (bank : β) (account denom : Bytes) : Int :=
  amountOf (k.bankKeeper.getAllBalances bank account) denom

/-- The fee collector's account. -/
def feeCollector (k : Keeper β) : Bytes := k.moduleAddress k.feeCollectorName

/-- The coins `AllocateTax` sends. -/
def taxAllocation (k : Keeper β) (bank : β) (tax : LegacyDec) : Coins :=
  ((newDecCoinsFromCoins (k.bankKeeper.getAllBalances bank k.feeCollector)).mulDec
    tax).truncateDecimal

/-- The share of a denom, rounded down. -/
def share (k : Keeper β) (bank : β) (tax : LegacyDec) (denom : Bytes) : Int :=
  ⌊k.balance bank k.feeCollector denom * tax.toRat⌋

end Keeper

/-- The coins are positive amounts that a module account covers. -/
def Covered (k : Keeper β) (bank : β) (name : Bytes) (amt : Coins) : Prop :=
  ∀ (denom : Bytes) (n : Int), amt[denom]? = some n →
    0 < n ∧ n ≤ k.balance bank (k.moduleAddress name) denom

/-- Balances are not negative, and the bank carries out a transfer that the module account covers,
unless the recipient is blocked. -/
structure Transfers (k : Keeper β) : Prop where
  balance_nonneg : ∀ bank account denom, 0 ≤ k.balance bank account denom
  send_covered : ∀ bank name recipient amt, k.bankKeeper.blockedAddr recipient = false →
    Covered k bank name amt →
    ∃ bank', k.bankKeeper.sendCoinsFromModuleToAccount bank name recipient amt = .ok bank'

/-- The bank's books: a transfer that is carried out takes the amounts from the one, gives them to the
other and leaves every other balance. -/
structure Ledger (k : Keeper β) : Prop extends Transfers k where
  send_moves : ∀ bank name recipient amt bank', k.bankKeeper.blockedAddr recipient = false →
    Covered k bank name amt →
    k.bankKeeper.sendCoinsFromModuleToAccount bank name recipient amt = .ok bank' →
    ∀ account denom, k.balance bank' account denom = k.balance bank account denom
      - (if account = k.moduleAddress name then amountOf amt denom else 0)
      + (if account = recipient then amountOf amt denom else 0)

/-! ## The amounts -/

/-- The amount of a denom, as the decimals compute it. -/
theorem amountOf_taxAllocation (denom : Bytes) :
    amountOf (k.taxAllocation bank tax) denom =
      ((LegacyDec.ofInt (k.balance bank k.feeCollector denom)).mul tax).truncateInt :=
  amountOf_truncateDecimal_mulDec _ tax denom

/-- Of a share between zero and one, every coin is positive and covered. -/
theorem taxAllocation_covered (hbalance : ∀ denom, 0 ≤ k.balance bank k.feeCollector denom)
    (hnonneg : 0 ≤ tax.i) (hle : tax.i ≤ maxTax.i) {denom : Bytes} {n : Int}
    (hn : (k.taxAllocation bank tax)[denom]? = some n) :
    0 < n ∧ n ≤ k.balance bank k.feeCollector denom := by
  have hamount : n =
      ((LegacyDec.ofInt (k.balance bank k.feeCollector denom)).mul tax).truncateInt := by
    rw [← amountOf_taxAllocation, amountOf, hn, Option.getD_some]
  have hpos : 0 ≤ n := hamount ▸ LegacyDec.truncateInt_mul_nonneg (hbalance denom) hnonneg
  have hcover := hamount ▸ LegacyDec.truncateInt_mul_le (hbalance denom) hnonneg hle
  have hne : n ≠ 0 := fun e => noZero_mapCoins _ _ denom (e ▸ hn)
  exact ⟨by omega, hcover⟩

/-- The amount of a denom is the share, rounded down. -/
theorem amountOf_taxAllocation_eq_share
    (hbalance : ∀ denom, 0 ≤ k.balance bank k.feeCollector denom) (hnonneg : 0 ≤ tax.i)
    (denom : Bytes) : amountOf (k.taxAllocation bank tax) denom = k.share bank tax denom := by
  rw [amountOf_taxAllocation]
  exact LegacyDec.truncateInt_mul_eq_floor (hbalance denom) hnonneg

/-! ## The transfer -/

/-- A tax outside `[0, 1]` is refused before the bank is asked for anything but the balances. -/
theorem allocateTax_invalid (h : tax.i < 0 ∨ maxTax.i < tax.i) :
    k.allocateTax bank tax account = .error (.text (str "invalid tax: " ++ k.env.decString tax)) := by
  have hrange : ¬ (!(tax.isNegative || tax.gt maxTax)) = true := by
    simpa only [LegacyDec.isNegative, LegacyDec.gt, Bool.not_eq_true', Bool.not_eq_false,
      Bool.or_eq_true, decide_eq_true_eq] using h
  simp only [Keeper.allocateTax, require, if_neg hrange]
  rfl

/-- With a tax in `[0, 1]`, the allocation is sent unless it is zero. -/
theorem allocateTax_valid (hnonneg : 0 ≤ tax.i) (hle : tax.i ≤ maxTax.i) :
    k.allocateTax bank tax account =
      if (k.taxAllocation bank tax).isZero then .ok (bank, [])
      else (k.bankKeeper.sendCoinsFromModuleToAccount bank k.feeCollectorName account
        (k.taxAllocation bank tax)).map fun bank' =>
          (bank', [Keeper.taxEvent k.env (k.taxAllocation bank tax) account]) := by
  have hrange : (!(tax.isNegative || tax.gt maxTax)) = true := by
    simp [LegacyDec.isNegative, LegacyDec.gt, hnonneg, hle]
  simp only [Keeper.allocateTax, require, if_pos hrange]
  rfl

/-- What an allocation of a tax in `[0, 1]` did. -/
structure Allocated (k : Keeper β) (tax : LegacyDec) (account : Bytes) (bank bank' : β)
    (events : List Event) : Prop where
  /-- The share is a share of what is there. -/
  share_bounds : ∀ denom, 0 ≤ k.share bank tax denom ∧
    k.share bank tax denom ≤ k.balance bank k.feeCollector denom
  /-- It goes from the fee collector to the account, and nothing else moves. -/
  moved : ∀ a denom, k.balance bank' a denom = k.balance bank a denom
    - (if a = k.feeCollector then k.share bank tax denom else 0)
    + (if a = account then k.share bank tax denom else 0)
  /-- The supply of a denom, over any accounts the two are among, is what it was. -/
  supply : ∀ (accounts : Finset Bytes) (denom : Bytes), k.feeCollector ∈ accounts →
    account ∈ accounts →
    ∑ a ∈ accounts, k.balance bank' a denom = ∑ a ∈ accounts, k.balance bank a denom
  /-- When every share is zero the bank is not called and there is no event. -/
  nothing : (∀ denom, k.share bank tax denom = 0) → bank' = bank ∧ events = []
  /-- Otherwise there is one event, with the coins moved. -/
  event : (∃ denom, k.share bank tax denom ≠ 0) →
    ∃ coins, (∀ denom, amountOf coins denom = k.share bank tax denom) ∧
      events = [Keeper.taxEvent k.env coins account]
  /-- No product is rounded, and the product of a balance below `2^256` stays below `2^256`. -/
  product : ∀ denom,
    ((LegacyDec.ofInt (k.balance bank k.feeCollector denom)).mul tax).toRat =
      k.balance bank k.feeCollector denom * tax.toRat ∧
    (k.balance bank k.feeCollector denom < 2 ^ 256 →
      ((LegacyDec.ofInt (k.balance bank k.feeCollector denom)).mul tax).toRat < 2 ^ 256)

/-- A transfer between two of some accounts keeps their sum. -/
theorem sum_transfer {accounts : Finset Bytes} {before after : Bytes → Int} {source target : Bytes}
    {amount : Int} (hsource : source ∈ accounts) (htarget : target ∈ accounts)
    (hmoved : ∀ a, after a = before a - (if a = source then amount else 0)
      + (if a = target then amount else 0)) :
    ∑ a ∈ accounts, after a = ∑ a ∈ accounts, before a := by
  rw [Finset.sum_congr rfl fun a _ => hmoved a, Finset.sum_add_distrib, Finset.sum_sub_distrib,
    Finset.sum_ite_eq', Finset.sum_ite_eq', if_pos hsource, if_pos htarget, sub_add_cancel]

theorem toRat_le_one (hle : tax.i ≤ maxTax.i) : tax.toRat ≤ 1 := by
  have hunits : (tax.i : ℚ) ≤ (10 ^ 18 : ℕ) := by exact_mod_cast hle
  exact div_le_one_of_le₀ hunits (Nat.cast_nonneg _)

variable (bank) in
/-- The transfer, from the books' law: what is left of an allocation is the bank's answer. -/
theorem Ledger.allocated (ledger : Ledger k) (hfree : k.bankKeeper.blockedAddr account = false)
    (hnonneg : 0 ≤ tax.i) (hle : tax.i ≤ maxTax.i) :
    ∃ bank' events, k.allocateTax bank tax account = .ok (bank', events) ∧
      (∀ a denom, k.balance bank' a denom = k.balance bank a denom
        - (if a = k.feeCollector then k.share bank tax denom else 0)
        + (if a = account then k.share bank tax denom else 0)) ∧
      ((∀ denom, k.share bank tax denom = 0) → bank' = bank ∧ events = []) ∧
      ((∃ denom, k.share bank tax denom ≠ 0) →
        events = [Keeper.taxEvent k.env (k.taxAllocation bank tax) account]) := by
  have hbalance := ledger.balance_nonneg bank k.feeCollector
  have hshare : ∀ denom, amountOf (k.taxAllocation bank tax) denom = k.share bank tax denom :=
    amountOf_taxAllocation_eq_share hbalance hnonneg
  have hzero : (k.taxAllocation bank tax).isZero = true ↔ ∀ denom, k.share bank tax denom = 0 := by
    simp only [Coins.isZero_iff, hshare]
  rw [allocateTax_valid hnonneg hle]
  by_cases hnone : ∀ denom, k.share bank tax denom = 0
  · refine ⟨bank, [], if_pos (hzero.mpr hnone), ?_, fun _ => ⟨rfl, rfl⟩, ?_⟩
    · intro a denom
      simp only [hnone denom, ite_self, sub_zero, add_zero]
    · rintro ⟨denom, hne⟩
      exact absurd (hnone denom) hne
  · have hcovered : Covered k bank k.feeCollectorName (k.taxAllocation bank tax) :=
      fun denom n hn => taxAllocation_covered hbalance hnonneg hle hn
    obtain ⟨bank', hsend⟩ := ledger.send_covered bank k.feeCollectorName account _ hfree hcovered
    have hmoved := ledger.send_moves bank k.feeCollectorName account _ bank' hfree hcovered hsend
    refine ⟨bank', _, ?_, ?_, fun h => absurd h hnone, fun _ => rfl⟩
    · rw [if_neg (mt hzero.mp hnone), hsend]
      rfl
    · intro a denom
      rw [hmoved, hshare]
      rfl

/-- **The tax takes its share of the fees, rounded down.** A tax outside `[0, 1]` is refused, whatever
the bank does with a transfer. Any other tax is taken: of every denom the share of the fee collector's
balance, rounded down, goes to the tax account, whatever the balances are. -/
theorem allocateTax_exact (ledger : Ledger k) (hfree : k.bankKeeper.blockedAddr account = false) :
    (tax.i < 0 ∨ LegacyDec.one.i < tax.i →
      k.allocateTax bank tax account =
        .error (.text (str "invalid tax: " ++ k.env.decString tax))) ∧
    (0 ≤ tax.i ∧ tax.i ≤ LegacyDec.one.i →
      ∃ bank' events, k.allocateTax bank tax account = .ok (bank', events) ∧
        Allocated k tax account bank bank' events) := by
  refine ⟨allocateTax_invalid, fun ⟨hnonneg, hle⟩ => ?_⟩
  have hbalance := ledger.balance_nonneg bank k.feeCollector
  obtain ⟨bank', events, hok, hmoved, hnothing, hevent⟩ :=
    ledger.allocated bank hfree hnonneg hle
  refine ⟨bank', events, hok, ?_, hmoved, ?_, hnothing, ?_, ?_⟩
  · intro denom
    rw [Keeper.share, ← LegacyDec.truncateInt_mul_eq_floor (hbalance denom) hnonneg]
    exact ⟨LegacyDec.truncateInt_mul_nonneg (hbalance denom) hnonneg,
      LegacyDec.truncateInt_mul_le (hbalance denom) hnonneg hle⟩
  · exact fun accounts denom hsource htarget =>
      sum_transfer hsource htarget fun a => hmoved a denom
  · exact fun hsome => ⟨_, amountOf_taxAllocation_eq_share hbalance hnonneg, hevent hsome⟩
  · intro denom
    refine ⟨LegacyDec.toRat_mul_ofInt _ tax, fun hlimit => ?_⟩
    rw [LegacyDec.toRat_mul_ofInt]
    have hcast : (0 : ℚ) ≤ k.balance bank k.feeCollector denom := by exact_mod_cast hbalance denom
    calc (k.balance bank k.feeCollector denom : ℚ) * tax.toRat
        ≤ k.balance bank k.feeCollector denom := mul_le_of_le_one_right hcast (toRat_le_one hle)
      _ < 2 ^ 256 := by exact_mod_cast hlimit

/-! ## A small bank -/

/-- The coins of every account. -/
abbrev Books := Bytes → Collections.Map Bytes Nat

/-- Coins leave an account. -/
def debit (account : Bytes) (amt : Coins) (books : Books) : Books := fun a =>
  if a = account then Std.ExtTreeMap.map (fun denom n => n - (amountOf amt denom).toNat) (books a)
  else books a

/-- Coins reach an account. -/
def credit (account : Bytes) (amt : Coins) (books : Books) : Books := fun a =>
  if a = account then amt.toList.foldl (addMapped Int.toNat) (books a) else books a

/-- A bank that blocks account 1, with account 9 for every module. -/
def bookBank : BankKeeper Books where
  getAllBalances books account := Std.ExtTreeMap.map (fun _ (n : Nat) => (n : Int)) (books account)
  sendCoinsFromModuleToAccount books _ recipient amt :=
    if recipient = [1] then .error (.sentinel .unauthorized)
    else if amt.toList.all fun coin => coin.2 ≤ amountOf (books [9]) coin.1 then
      .ok (credit recipient amt (debit [9] amt books))
    else errorf "insufficient funds"
  blockedAddr account := account = [1]

/-- The texts of three decimals, and of no other. -/
def smallTexts : List (Bytes × LegacyDec) :=
  [(str "0.400000000000000000", ⟨4 * 10 ^ 17⟩), (str "1.000000000000000000", ⟨10 ^ 18⟩),
   (str "1.100000000000000000", ⟨11 * 10 ^ 17⟩)]

def bookKeeper : Keeper Books where
  env := { smallEnv with
    newDecFromStr := fun text => (smallTexts.lookup text).elim (errorf "unknown decimal") .ok
    decString := fun d => (smallTexts.find? (·.2 = d)).elim [] Prod.fst }
  moduleAddress _ := [9]
  bankKeeper := bookBank
  feeCollectorName := str "fee_collector"

/-- The small bank answers from its books. -/
theorem balance_bookKeeper (books : Books) (a denom : Bytes) :
    bookKeeper.balance books a denom = amountOf (books a) denom := by
  simp only [Keeper.balance, bookKeeper, bookBank, amountOf, Std.ExtTreeMap.getElem?_map]
  cases (books a)[denom]? with
  | none => rfl
  | some n => rfl

/-- What is left after a debit. -/
theorem amountOf_debit (account : Bytes) (amt : Coins) (books : Books) (a denom : Bytes) :
    amountOf (debit account amt books a) denom =
      amountOf (books a) denom - (if a = account then (amountOf amt denom).toNat else 0) := by
  unfold debit
  split
  · simp only [amountOf, Std.ExtTreeMap.getElem?_map]
    cases (books a)[denom]? with
    | none => exact (Nat.zero_sub _).symm
    | some n => rfl
  · rfl

/-- What is there after a credit. -/
theorem amountOf_credit (account : Bytes) (amt : Coins) (books : Books) (a denom : Bytes) :
    amountOf (credit account amt books a) denom =
      amountOf (books a) denom + (if a = account then (amountOf amt denom).toNat else 0) := by
  unfold credit
  split
  · exact amountOf_foldl rfl _ _ _
  · rfl

/-- What is covered is there. -/
theorem covered_bookKeeper {books : Books} {name : Bytes} {amt : Coins}
    (hcovered : Covered bookKeeper books name amt) :
    amt.toList.all (fun coin => coin.2 ≤ amountOf (books [9]) coin.1) = true := by
  refine List.all_eq_true.mpr fun coin hcoin => decide_eq_true ?_
  have hget : amt[coin.1]? = some coin.2 := (Collections.Iteration.sorted amt).mem_entries.mp hcoin
  exact balance_bookKeeper books [9] coin.1 ▸ (hcovered coin.1 coin.2 hget).2

/-- A transfer to an open account that is covered. -/
theorem send_bookKeeper {books : Books} {name recipient : Bytes} {amt : Coins}
    (hfree : bookKeeper.bankKeeper.blockedAddr recipient = false)
    (hcovered : Covered bookKeeper books name amt) :
    bookKeeper.bankKeeper.sendCoinsFromModuleToAccount books name recipient amt =
      .ok (credit recipient amt (debit [9] amt books)) := by
  have hopen : recipient ≠ [1] := by simpa [bookKeeper, bookBank] using hfree
  exact (if_neg hopen).trans (if_pos (covered_bookKeeper hcovered))

theorem ledger_bookKeeper : Ledger bookKeeper where
  balance_nonneg books a denom := by
    rw [balance_bookKeeper]
    exact Int.natCast_nonneg _
  send_covered books name recipient amt hfree hcovered := ⟨_, send_bookKeeper hfree hcovered⟩
  send_moves books name recipient amt books' hfree hcovered hsend a denom := by
    cases (send_bookKeeper hfree hcovered).symm.trans hsend
    have hamount : 0 ≤ amountOf amt denom ∧ amountOf amt denom ≤ amountOf (books [9]) denom := by
      cases hget : amt[denom]? with
      | none => simp [amountOf, hget]
      | some n =>
        have hn := balance_bookKeeper books [9] denom ▸ hcovered denom n hget
        rw [amountOf, hget, Option.getD_some]
        exact ⟨hn.1.le, hn.2⟩
    simp only [balance_bookKeeper, amountOf_credit, amountOf_debit]
    change _ = _ - (if a = [9] then _ else 0) + _
    grind

/-- The fee collector's coins, and nothing else. -/
def bookFees : Books := fun account =>
  if account = [9] then .ofList [(str "uom", 1000003), (str "dust", 1)] else ∅

/-- Four tenths of the fees go to account 2, less the fraction of a coin, and all of the dust stays; a
tax of eleven tenths is refused. -/
theorem allocateTax_exact_bookFees :
    bookKeeper.allocateTax bookFees ⟨11 * 10 ^ 17⟩ [2] = .error (.text (str "invalid tax: 1.100000000000000000")) ∧
    (∃ books events, bookKeeper.allocateTax bookFees ⟨4 * 10 ^ 17⟩ [2] = .ok (books, events) ∧
      Allocated bookKeeper ⟨4 * 10 ^ 17⟩ [2] bookFees books events) ∧
    (bookKeeper.taxAllocation bookFees ⟨4 * 10 ^ 17⟩).toList = [(str "uom", 400001)] := by
  refine ⟨?_, ?_, by decide +kernel⟩
  · exact (allocateTax_exact ledger_bookKeeper (by decide)).1 (.inr (by decide))
  · exact (allocateTax_exact ledger_bookKeeper (by decide)).2 (by decide)

end Nvnmchain.Tax
