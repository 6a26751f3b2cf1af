import Nvnmchain.Lib.OrderedMap
import Nvnmchain.Lib.GoBytes

/-!
# Fixed-point decimals and coins

The decimals of the chain SDK count units of `10^-18`. A product has twice as many decimals and is
rounded back to eighteen, half to even; a truncation drops all of them. Coins are amounts by denom,
and an amount of zero is the same as none, so `amountOf` is what they are compared by.

The product of a whole number and a decimal needs no rounding (`mul_ofInt`). A share of at most one
of a whole amount is therefore rounded down once (`truncateInt_mul_eq_floor`), and lies between zero
and the amount (`truncateInt_mul_le`).

The library panics when a decimal passes its size limit. Decimals have no limit here.
-/

set_option autoImplicit false

namespace Sdk

open Go (Bytes str fmtUint)
open Collections

/-! ## Decimals -/

/-- `math.LegacyDec`: a number of units of `10^-18`. -/
@[ext]
structure LegacyDec where
  i : Int
deriving DecidableEq

namespace LegacyDec

/-- `precisionReuse`: the units of one. -/
def precisionReuse : Int := 10 ^ 18

/-- `fivePrecision`: the units of one half. -/
def fivePrecision : Int := 5 * 10 ^ 17

theorem precisionReuse_pos : 0 < precisionReuse := by decide

/-- `LegacyNewDecFromInt`. -/
def ofInt (n : Int) : LegacyDec := ⟨n * precisionReuse⟩

/-- `LegacyOneDec`. -/
def one : LegacyDec := ofInt 1

instance : Zero LegacyDec := ⟨⟨0⟩⟩

instance : Add LegacyDec := ⟨fun a b => ⟨a.i + b.i⟩⟩

instance : AddZeroClass LegacyDec where
  zero_add a := LegacyDec.ext (Int.zero_add a.i)
  add_zero a := LegacyDec.ext (Int.add_zero a.i)

/-- `IsNegative`. -/
def isNegative (d : LegacyDec) : Bool := d.i < 0

/-- `IsZero`. -/
def isZero (d : LegacyDec) : Bool := d.i = 0

/-- `GT`. -/
def gt (d e : LegacyDec) : Bool := e.i < d.i

/-- The branch of `chopPrecisionAndRound` for numbers that are not negative. -/
def roundHalfEven (d : Int) : Int :=
  let quo := d.tdiv precisionReuse
  let rem := d.tmod precisionReuse
  if rem = 0 then quo
  else if rem < fivePrecision then quo
  else if fivePrecision < rem then quo + 1
  else if quo % 2 = 0 then quo
  else quo + 1

/-- `chopPrecisionAndRound`: a negative number is rounded as its opposite. -/
def chopPrecisionAndRound (d : Int) : Int := if d < 0 then -roundHalfEven (-d) else roundHalfEven d

/-- `Mul`. -/
def mul (d e : LegacyDec) : LegacyDec := ⟨chopPrecisionAndRound (d.i * e.i)⟩

/-- `TruncateInt`. -/
def truncateInt (d : LegacyDec) : Int := d.i.tdiv precisionReuse

/-- A whole number needs no rounding. -/
theorem roundHalfEven_mul (n : Int) : roundHalfEven (n * precisionReuse) = n := by
  have hrem : (n * precisionReuse).tmod precisionReuse = 0 := Int.mul_tmod_left n precisionReuse
  have hquo : (n * precisionReuse).tdiv precisionReuse = n :=
    Int.mul_tdiv_cancel n precisionReuse_pos.ne'
  simp only [roundHalfEven, hrem, hquo, if_true]

/-- What is a whole number of units is not rounded. -/
theorem chopPrecisionAndRound_mul (n : Int) : chopPrecisionAndRound (n * precisionReuse) = n := by
  unfold chopPrecisionAndRound
  split
  · rw [← Int.neg_mul, roundHalfEven_mul, Int.neg_neg]
  · exact roundHalfEven_mul n

/-- **A whole number of decimals is exact.** -/
theorem mul_ofInt (n : Int) (d : LegacyDec) : (ofInt n).mul d = ⟨n * d.i⟩ := by
  have hunits : n * precisionReuse * d.i = n * d.i * precisionReuse := Int.mul_right_comm _ _ _
  rw [mul, ofInt, hunits, chopPrecisionAndRound_mul]

theorem mul_zero_left (d : LegacyDec) : (0 : LegacyDec).mul d = 0 := by
  have hzero : (0 : LegacyDec) = ofInt 0 := by decide
  rw [hzero, mul_ofInt, Int.zero_mul, ← hzero]
  rfl

/-- A share of a whole amount is not negative. -/
theorem truncateInt_mul_nonneg {n : Int} {d : LegacyDec} (hn : 0 ≤ n) (hd : 0 ≤ d.i) :
    0 ≤ ((ofInt n).mul d).truncateInt := by
  rw [mul_ofInt]
  exact Int.tdiv_nonneg (Int.mul_nonneg hn hd) precisionReuse_pos.le

/-- A share of at most one of a whole amount is at most the amount. -/
theorem truncateInt_mul_le {n : Int} {d : LegacyDec} (hn : 0 ≤ n) (hd : 0 ≤ d.i)
    (hone : d.i ≤ one.i) : ((ofInt n).mul d).truncateInt ≤ n := by
  have hunits : n * d.i ≤ n * precisionReuse :=
    Int.mul_le_mul_of_nonneg_left (by simpa [one, ofInt] using hone) hn
  rw [mul_ofInt, truncateInt, Int.tdiv_eq_ediv_of_nonneg (Int.mul_nonneg hn hd)]
  exact Int.ediv_le_of_le_mul precisionReuse_pos hunits

/-- The number a decimal stands for. -/
def toRat (d : LegacyDec) : ℚ := d.i / (10 ^ 18 : ℕ)

/-- The product of a whole number and a decimal is exact. -/
theorem toRat_mul_ofInt (n : Int) (d : LegacyDec) : ((ofInt n).mul d).toRat = n * d.toRat := by
  rw [mul_ofInt, toRat, toRat, Int.cast_mul, mul_div_assoc]

/-- **A share of a whole amount is rounded down, once.** -/
theorem truncateInt_mul_eq_floor {n : Int} {d : LegacyDec} (hn : 0 ≤ n) (hd : 0 ≤ d.i) :
    ((ofInt n).mul d).truncateInt = ⌊n * d.toRat⌋ := by
  rw [← toRat_mul_ofInt, mul_ofInt, toRat, Rat.floor_intCast_div_natCast, truncateInt,
    Int.tdiv_eq_ediv_of_nonneg (Int.mul_nonneg hn hd)]
  rfl

end LegacyDec

/-! ## Coins -/

section Amounts

variable {ν ω : Type} [AddZeroClass ν] [DecidableEq ν] [AddZeroClass ω]

/-- `AmountOf`: the amount of a denom, zero when there is none. -/
def amountOf (coins : Map Bytes ω) (denom : Bytes) : ω := (coins[denom]?).getD 0

/-- `Coins.Add` and `DecCoins.Add` of one coin. A sum of zero is dropped. -/
def addCoin (coins : Map Bytes ν) (denom : Bytes) (amount : ν) : Map Bytes ν :=
  let sum := amountOf coins denom + amount
  if sum = 0 then coins.erase denom else coins.insert denom sum

/-- One turn of the loop the coin operations share: a coin is turned into another of its denom, and
added unless that is zero. -/
def addMapped (f : ω → ν) (res : Map Bytes ν) (coin : Bytes × ω) : Map Bytes ν :=
  let amount := f coin.2
  if amount = 0 then res else addCoin res coin.1 amount

/-- The loop the coin operations share. -/
def mapCoins (f : ω → ν) (coins : Map Bytes ω) : Map Bytes ν := coins.toList.foldl (addMapped f) ∅

omit [DecidableEq ν] in
theorem amountOf_empty (d : Bytes) : amountOf (∅ : Map Bytes ν) d = 0 := by
  rw [amountOf, Std.ExtTreeMap.getElem?_empty, Option.getD_none]

/-- Adding a coin adds to its denom. -/
theorem amountOf_addCoin (coins : Map Bytes ν) (denom d : Bytes) (amount : ν) :
    amountOf (addCoin coins denom amount) d =
      if denom = d then amountOf coins denom + amount else amountOf coins d := by
  unfold addCoin
  by_cases hd : denom = d
  · subst hd
    rw [if_pos rfl]
    dsimp only
    split
    · rename_i hsum
      rw [amountOf, Std.ExtTreeMap.getElem?_erase_self, hsum]
      rfl
    · rw [amountOf, Std.ExtTreeMap.getElem?_insert_self]
      rfl
  · rw [if_neg hd]
    dsimp only
    split
    · rw [amountOf, Map.get?_erase_ne _ hd, amountOf]
    · rw [amountOf, Map.get?_insert_ne _ _ hd, amountOf]

/-- Every coin kept is a coin of some amount. -/
def NoZero (coins : Map Bytes ν) : Prop := ∀ denom : Bytes, coins[denom]? ≠ some 0

/-- A coin that adds up to zero is dropped. -/
theorem NoZero.addCoin {coins : Map Bytes ν} (h : NoZero coins) (denom : Bytes) (amount : ν) :
    NoZero (addCoin coins denom amount) := by
  intro d
  unfold Sdk.addCoin
  dsimp only
  split
  · rw [Std.ExtTreeMap.getElem?_erase]
    split
    · exact Option.some_ne_none _ ∘ Eq.symm
    · exact h d
  · rename_i hsum
    rw [Map.get?_insert]
    split
    · exact fun e => hsum (Option.some.inj e)
    · exact h d

section Loop

variable {f : ω → ν} {l : List (Bytes × ω)}

omit [AddZeroClass ω] in
/-- A mapped coin adds to its denom. -/
theorem amountOf_addMapped (res : Map Bytes ν) (coin : Bytes × ω) (d : Bytes) :
    amountOf (addMapped f res coin) d =
      if coin.1 = d then amountOf res coin.1 + f coin.2 else amountOf res d := by
  unfold addMapped
  dsimp only
  split
  · rename_i hf
    split
    · rename_i hd
      rw [hf, add_zero, hd]
    · rfl
  · exact amountOf_addCoin res coin.1 d (f coin.2)

omit [AddZeroClass ω] in
/-- Coins of other denoms add nothing. -/
theorem amountOf_foldl_of_ne {res : Map Bytes ν} {d : Bytes} (h : ∀ coin ∈ l, coin.1 ≠ d) :
    amountOf (l.foldl (addMapped f) res) d = amountOf res d := by
  induction l generalizing res with
  | nil => rfl
  | cons coin rest ih =>
    rw [List.foldl_cons, ih fun c hc => h c (List.mem_cons_of_mem _ hc), amountOf_addMapped,
      if_neg (h coin List.mem_cons_self)]

omit [AddZeroClass ω] in
/-- Of coins with different denoms, each adds its own amount. -/
theorem amountOf_foldl_of_mem (res : Map Bytes ν) {coin : Bytes × ω}
    (hnodup : (l.map Prod.fst).Nodup) (hcoin : coin ∈ l) :
    amountOf (l.foldl (addMapped f) res) coin.1 = amountOf res coin.1 + f coin.2 := by
  induction l generalizing res with
  | nil => exact absurd hcoin List.not_mem_nil
  | cons c rest ih =>
    obtain ⟨hfresh, hnodup⟩ := List.nodup_cons.mp hnodup
    have hne : ∀ c' ∈ rest, c'.1 ≠ c.1 := fun c' hc' e => hfresh (e ▸ List.mem_map_of_mem hc')
    rw [List.foldl_cons]
    rcases List.mem_cons.mp hcoin with rfl | hrest
    · rw [amountOf_foldl_of_ne hne, amountOf_addMapped, if_pos rfl]
    · rw [ih _ hnodup hrest, amountOf_addMapped, if_neg (hne coin hrest).symm]

/-- **The amounts a loop leaves.** A function that keeps zero acts on every amount. -/
theorem amountOf_foldl (hf : f 0 = 0) (res : Map Bytes ν) (coins : Map Bytes ω) (d : Bytes) :
    amountOf (coins.toList.foldl (addMapped f) res) d = amountOf res d + f (amountOf coins d) := by
  cases hget : coins[d]? with
  | none =>
    have hne : ∀ coin ∈ coins.toList, coin.1 ≠ d := by
      intro coin hcoin hd
      have hsome : coins[coin.1]? = some coin.2 := (Iteration.sorted coins).mem_entries.mp hcoin
      rw [hd, hget] at hsome
      exact nomatch hsome
    rw [amountOf_foldl_of_ne hne, amountOf.eq_def coins, hget, Option.getD_none, hf, add_zero]
  | some a =>
    have hcoin : (d, a) ∈ coins.toList := (Iteration.sorted coins).mem_entries.mpr hget
    have hnodup : (coins.toList.map Prod.fst).Nodup := (Iteration.sorted coins).nodup_keys
    have hloop : amountOf (coins.toList.foldl (addMapped f) res) d = amountOf res d + f a :=
      amountOf_foldl_of_mem res hnodup hcoin
    rw [hloop, amountOf.eq_def coins, hget, Option.getD_some]

/-- Mapping coins maps each amount. -/
theorem amountOf_mapCoins (hf : f 0 = 0) (coins : Map Bytes ω) (d : Bytes) :
    amountOf (mapCoins f coins) d = f (amountOf coins d) := by
  rw [mapCoins, amountOf_foldl hf, amountOf_empty, zero_add]

omit [AddZeroClass ω] in
theorem NoZero.foldl {res : Map Bytes ν} (h : NoZero res) : NoZero (l.foldl (addMapped f) res) := by
  induction l generalizing res with
  | nil => exact h
  | cons coin rest ih =>
    refine ih ?_
    unfold addMapped
    dsimp only
    split
    · exact h
    · exact h.addCoin coin.1 _

omit [AddZeroClass ω] in
/-- Mapped coins have no zero amounts. -/
theorem noZero_mapCoins (f : ω → ν) (coins : Map Bytes ω) : NoZero (mapCoins f coins) := by
  refine NoZero.foldl fun d => ?_
  rw [Std.ExtTreeMap.getElem?_empty]
  exact Option.some_ne_none _ ∘ Eq.symm

end Loop

end Amounts

/-- `sdk.Coins`. -/
abbrev Coins := Map Bytes Int

/-- `sdk.DecCoins`. -/
abbrev DecCoins := Map Bytes LegacyDec

/-- `NewDecCoinsFromCoins`; `NewCoins` drops the coins of amount zero. -/
def newDecCoinsFromCoins (coins : Coins) : DecCoins := mapCoins LegacyDec.ofInt coins

/-- `DecCoins.MulDec`. -/
def DecCoins.mulDec (coins : DecCoins) (d : LegacyDec) : DecCoins := mapCoins (·.mul d) coins

/-- `DecCoins.TruncateDecimal`, without the change it also answers. -/
def DecCoins.truncateDecimal (coins : DecCoins) : Coins := mapCoins LegacyDec.truncateInt coins

/-- `Coins.IsZero`. -/
def Coins.isZero (coins : Coins) : Bool := coins.toList.all fun coin => coin.2 = 0

/-- Coins are zero when they hold nothing of any denom. -/
theorem Coins.isZero_iff (coins : Coins) : coins.isZero = true ↔ ∀ denom, amountOf coins denom = 0 := by
  simp only [Coins.isZero, List.all_eq_true, decide_eq_true_eq]
  constructor
  · intro h denom
    rw [amountOf]
    cases hget : coins[denom]? with
    | none => rfl
    | some n => exact h (denom, n) ((Iteration.sorted coins).mem_entries.mpr hget)
  · intro h coin hcoin
    have hget : coins[coin.1]? = some coin.2 := (Iteration.sorted coins).mem_entries.mp hcoin
    simpa only [amountOf, hget, Option.getD_some] using h coin.1

/-- `Coins.String`. -/
def Coins.string (coins : Coins) : Bytes :=
  (str ",").intercalate (coins.toList.map fun coin =>
    (if coin.2 < 0 then str "-" else []) ++ fmtUint coin.2.natAbs ++ coin.1)

/-- **The share of coins.** Of every denom, the truncated share of its amount. -/
theorem amountOf_truncateDecimal_mulDec (coins : Coins) (d : LegacyDec) (denom : Bytes) :
    amountOf (((newDecCoinsFromCoins coins).mulDec d).truncateDecimal) denom =
      ((LegacyDec.ofInt (amountOf coins denom)).mul d).truncateInt := by
  rw [DecCoins.truncateDecimal, amountOf_mapCoins (by decide), DecCoins.mulDec,
    amountOf_mapCoins (LegacyDec.mul_zero_left d), newDecCoinsFromCoins,
    amountOf_mapCoins (by decide)]

end Sdk
