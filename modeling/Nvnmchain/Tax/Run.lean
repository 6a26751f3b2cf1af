import Nvnmchain.Tax.Allocation

/-!
# No block fails on the tax

An error of `EndBlocker` stops the chain. It is returned when the parameters are missing, when the
tax address does not decode, when the tax is outside `[0, 1]` and when the bank refuses the transfer,
which it does for a blocked recipient or an amount the fee collector does not have. A run changes the
parameters through `UpdateParams` alone, and what it stores keeps clear of all of these: `Sound`. The
amount is covered by the arithmetic, whatever the fee collector holds.

What is assumed of the modules outside is `Laws`.
-/

set_option autoImplicit false

namespace Nvnmchain.Tax

open Go (Bytes str)
open Sdk

variable {β : Type}

/-- What the module relies on outside. The bank carries out the transfers that are covered. A decimal's
text is read, where it is read, as that decimal. A text that both codecs decode names one account: the
keeper's codec also takes a hex address, which is no bech32 text. -/
structure Laws (k : Keeper β) : Prop extends Transfers k where
  newDecFromStr_decString : ∀ d t, k.env.newDecFromStr (k.env.decString d) = .ok t → t = d
  same_account : ∀ text a b, k.env.stringToBytes text = .ok a →
    k.env.accAddressFromBech32 text = .ok b → a = b

/-- Parameters with which a block cannot fail. -/
structure Sound (k : Keeper β) (p : Params) : Prop where
  tax_nonneg : 0 ≤ p.tax.i
  tax_le : p.tax.i ≤ maxTax.i
  account : ∃ a, k.env.accAddressFromBech32 p.taxAddress = .ok a ∧ k.bankKeeper.blockedAddr a = false

/-! ## What the checks establish -/

/-- A tax that passes is a decimal between zero and one. -/
theorem validateTax_spec {env : Env} {v : Bytes} {u : Unit} (h : validateTax env v = .ok u) :
    ∃ t, env.newDecFromStr v = .ok t ∧ 0 ≤ t.i ∧ t.i ≤ maxTax.i := by
  obtain ⟨t, ht, h⟩ := bind_eq_ok.mp h
  obtain ⟨_, hneg, hgt⟩ := bind_eq_ok.mp h
  refine ⟨t, wrapText_eq_ok.mp ht, ?_, ?_⟩
  · simpa [LegacyDec.isNegative] using hneg
  · simpa [LegacyDec.gt] using hgt

/-- A tax address that passes decodes. -/
theorem validateTaxAddress_spec {env : Env} {address : Bytes} {u : Unit}
    (h : validateTaxAddress env address = .ok u) :
    ∃ a, env.accAddressFromBech32 address = .ok a := by
  obtain ⟨_, _, h⟩ := bind_eq_ok.mp h
  obtain ⟨a, ha, _⟩ := bind_eq_ok.mp h
  exact ⟨a, wrapText_eq_ok.mp ha⟩

/-- Valid parameters are sound, as long as their account is not blocked. -/
theorem Laws.sound {k : Keeper β} (laws : Laws k) {p : Params} {u : Unit}
    (hvalid : p.validate k.env = .ok u)
    (hfree : ∀ a, k.env.accAddressFromBech32 p.taxAddress = .ok a →
      k.bankKeeper.blockedAddr a = false) : Sound k p := by
  obtain ⟨_, htax, haddr⟩ := bind_eq_ok.mp hvalid
  obtain ⟨t, ht, hnonneg, hle⟩ := validateTax_spec htax
  obtain ⟨a, ha⟩ := validateTaxAddress_spec haddr
  cases laws.newDecFromStr_decString _ _ ht
  exact ⟨hnonneg, hle, a, ha, hfree a ha⟩

/-- Another tax leaves the address. -/
theorem updateTax_taxAddress {k : Keeper β} {req : MsgUpdateParams} {p p' : Params}
    (h : k.updateTax req p = .ok p') : p'.taxAddress = p.taxAddress := by
  unfold Keeper.updateTax at h
  split at h
  · cases h
    rfl
  · obtain ⟨_, _, h⟩ := bind_eq_ok.mp h
    obtain ⟨_, _, e⟩ := bind_eq_ok.mp h
    cases e
    rfl

/-- The tax address after an update is the one before, or one whose account was looked up and is not
blocked. -/
theorem updateTaxAddress_cases {k : Keeper β} {req : MsgUpdateParams} {p p' : Params}
    (h : k.updateTaxAddress req p = .ok p') :
    p'.taxAddress = p.taxAddress ∨ ∃ a, k.env.stringToBytes p'.taxAddress = .ok a ∧
      k.bankKeeper.blockedAddr a = false := by
  unfold Keeper.updateTaxAddress at h
  split at h
  · cases h
    exact .inl rfl
  · obtain ⟨a, ha, h⟩ := bind_eq_ok.mp h
    obtain ⟨_, hfree, e⟩ := bind_eq_ok.mp h
    cases e
    exact .inr ⟨a, wrapf_eq_ok.mp ha, by simpa using hfree⟩

/-- What an accepted `UpdateParams` did. -/
theorem updateParams_spec {k : Keeper β} {req : Option MsgUpdateParams} {s s' : Store}
    (h : k.updateParams req s = .ok s') :
    ∃ p p', s.params = some p ∧ s' = ⟨some p'⟩ ∧ p'.validate k.env = .ok () ∧
      (p'.taxAddress = p.taxAddress ∨ ∃ a, k.env.stringToBytes p'.taxAddress = .ok a ∧
        k.bankKeeper.blockedAddr a = false) := by
  cases req with
  | none => exact nomatch h
  | some req =>
    obtain ⟨_, _, h⟩ := bind_eq_ok.mp h
    obtain ⟨_, _, h⟩ := bind_eq_ok.mp h
    obtain ⟨_, _, h⟩ := bind_eq_ok.mp h
    obtain ⟨_, _, h⟩ := bind_eq_ok.mp h
    obtain ⟨p, hp, h⟩ := bind_eq_ok.mp h
    obtain ⟨p₁, htax, h⟩ := bind_eq_ok.mp h
    obtain ⟨p₂, haddr, h⟩ := bind_eq_ok.mp h
    obtain ⟨_, hvalid, e⟩ := bind_eq_ok.mp h
    cases e
    have hsame := updateTax_taxAddress htax
    exact ⟨p, p₂, getOrNotFound_eq_ok.mp hp, rfl, hvalid, hsame ▸ updateTaxAddress_cases haddr⟩

/-- **An accepted update keeps the parameters sound.** -/
theorem Laws.sound_updateParams {k : Keeper β} (laws : Laws k) {req : Option MsgUpdateParams}
    {s s' : Store} {p : Params} (hp : s.params = some p) (hsound : Sound k p)
    (h : k.updateParams req s = .ok s') : ∃ p', s'.params = some p' ∧ Sound k p' := by
  obtain ⟨q, p', hq, rfl, hvalid, haddr⟩ := updateParams_spec h
  cases hp.symm.trans hq
  refine ⟨p', rfl, laws.sound hvalid fun b hb => ?_⟩
  rcases haddr with hsame | ⟨a, ha, hfree⟩
  · -- the address stays: its account is the one that was not blocked
    obtain ⟨a, ha, hfree⟩ := hsound.account
    rw [hsame, ha] at hb
    cases hb
    exact hfree
  · -- a new address: the codec that checked it and the one that is used agree
    cases laws.same_account _ _ _ ha hb
    exact hfree

/-! ## The end of a block -/

/-- A tax between zero and one to an account that is not blocked is allocated. -/
theorem Laws.allocateTax_ok {k : Keeper β} (laws : Laws k) (bank : β) {tax : LegacyDec}
    (hnonneg : 0 ≤ tax.i) (hle : tax.i ≤ maxTax.i) {account : Bytes}
    (hfree : k.bankKeeper.blockedAddr account = false) :
    ∃ r, k.allocateTax bank tax account = .ok r := by
  obtain ⟨bank', hsend⟩ := laws.send_covered bank k.feeCollectorName account _ hfree
    fun denom n hn => taxAllocation_covered (laws.balance_nonneg bank k.feeCollector) hnonneg hle hn
  rw [allocateTax_valid hnonneg hle]
  split
  · exact ⟨_, rfl⟩
  · rw [hsend]
    exact ⟨_, rfl⟩

/-- With sound parameters the end of a block succeeds, at every height and for every bank. -/
theorem Laws.endBlocker_ok {k : Keeper β} (laws : Laws k) {s : Store} {p : Params}
    (hp : s.params = some p) (hsound : Sound k p) (blockHeight : Int) (bank : β) :
    ∃ r, k.endBlocker s blockHeight bank = .ok r := by
  obtain ⟨a, ha, hfree⟩ := hsound.account
  obtain ⟨r, hr⟩ := laws.allocateTax_ok bank hsound.tax_nonneg hsound.tax_le hfree
  have hget := getOrNotFound_eq_ok.mpr hp
  by_cases hzero : p.tax.isZero = true
  · exact ⟨_, bind_eq_ok.mpr ⟨p, hget, if_pos hzero⟩⟩
  · by_cases hheight : 1 < blockHeight
    · exact ⟨r, bind_eq_ok.mpr ⟨p, hget, (if_neg hzero).trans
        ((if_pos hheight).trans (bind_eq_ok.mpr ⟨a, ha, hr⟩))⟩⟩
    · exact ⟨_, bind_eq_ok.mpr ⟨p, hget, (if_neg hzero).trans (if_neg hheight)⟩⟩

/-! ## Runs -/

/-- What a run carries: the module's store, and the bank. -/
structure State (β : Type) where
  store : Store
  bank : β

/-- One message: the store the handler leaves, or, when it fails, the store as it was. -/
def deliver (k : Keeper β) (req : Option MsgUpdateParams) (s : Store) : Store :=
  match k.updateParams req s with
  | .ok s' => s'
  | .error _ => s

/-- The steps of a run: a message, the end of a block, and whatever the rest of the chain does to the
bank. -/
inductive Step (k : Keeper β) : State β → State β → Prop where
  | updateParams (s : State β) (req : Option MsgUpdateParams) :
      Step k s { s with store := deliver k req s.store }
  | endBlock (s : State β) (blockHeight : Int) {bank : β} {events : List Event}
      (h : k.endBlocker s.store blockHeight s.bank = .ok (bank, events)) :
      Step k s { s with bank }
  | others (s : State β) (bank : β) : Step k s { s with bank }

/-- The states of the runs that start with a genesis, over any bank. -/
def Reachable (k : Keeper β) (gs : GenesisState) : State β → Prop :=
  Transition.Reachable (fun s => ∃ store, s.store = initGenesis gs store) (Step k)

/-- A run goes on with any list of messages. -/
theorem Reachable.foldl_deliver {k : Keeper β} {gs : GenesisState} {store : Store} {bank : β}
    (h : Reachable k gs ⟨store, bank⟩) (reqs : List (Option MsgUpdateParams)) :
    Reachable k gs ⟨reqs.foldl (fun s req => deliver k req s) store, bank⟩ := by
  induction reqs generalizing store with
  | nil => exact h
  | cons req rest ih => exact ih (Transition.Reachable.tail h (.updateParams _ req))

/-- Every state of a run holds sound parameters. -/
theorem Laws.reachable_sound {k : Keeper β} (laws : Laws k) {gs : GenesisState}
    (hgenesis : Sound k gs.params) {s : State β} (h : Reachable k gs s) :
    ∃ p, s.store.params = some p ∧ Sound k p := by
  refine Transition.Reachable.invariant
    (P := fun s : State β => ∃ p, s.store.params = some p ∧ Sound k p) ?_ ?_ h
  · rintro s ⟨store, hstore⟩
    exact ⟨gs.params, by rw [hstore]; rfl, hgenesis⟩
  · rintro s s' - ⟨p, hp, hsound⟩ hstep
    cases hstep with
    | updateParams req =>
      dsimp only [deliver]
      split
      · rename_i s' hok
        exact laws.sound_updateParams hp hsound hok
      · exact ⟨p, hp, hsound⟩
    | endBlock => exact ⟨p, hp, hsound⟩
    | others => exact ⟨p, hp, hsound⟩

/-- **The tax never stops the chain.** From every genesis that passes `Validate` and whose tax address
is not blocked, and in every run of messages, ends of blocks and movements of coins: the tax lies in
`[0, 1]`, the tax address decodes and is not blocked, and `EndBlocker` succeeds at every height over
every bank. -/
theorem endBlocker_never_fails {k : Keeper β} (laws : Laws k) {gs : GenesisState}
    (hvalid : gs.validate k.env = .ok ())
    (hfree : ∀ a, k.env.accAddressFromBech32 gs.params.taxAddress = .ok a →
      k.bankKeeper.blockedAddr a = false)
    {s : State β} (h : Reachable k gs s) :
    (∃ p a, s.store.params = some p ∧ 0 ≤ p.tax.i ∧ p.tax.i ≤ LegacyDec.one.i ∧
      k.env.accAddressFromBech32 p.taxAddress = .ok a ∧ k.bankKeeper.blockedAddr a = false) ∧
    ∀ blockHeight bank, ∃ r, k.endBlocker s.store blockHeight bank = .ok r := by
  obtain ⟨p, hp, hsound⟩ := laws.reachable_sound (laws.sound hvalid hfree) h
  obtain ⟨a, ha, hafree⟩ := hsound.account
  exact ⟨⟨p, a, hp, hsound.tax_nonneg, hsound.tax_le, ha, hafree⟩,
    fun blockHeight bank => laws.endBlocker_ok hp hsound blockHeight bank⟩

/-! ## A small chain -/

theorem laws_bookKeeper : Laws bookKeeper where
  toTransfers := ledger_bookKeeper.toTransfers
  newDecFromStr_decString d t h := by
    dsimp only [bookKeeper] at h
    cases hfind : smallTexts.find? (·.2 = d) with
    | none =>
      rw [hfind] at h
      exact nomatch h
    | some e =>
      have hread : ∀ e ∈ smallTexts, smallTexts.lookup e.1 = some e.2 := by decide +kernel
      have hd : e.2 = d := by simpa using List.find?_some hfind
      rw [hfind, Option.elim_some, hread e (List.mem_of_find?_eq_some hfind), hd] at h
      exact (Except.ok.inj h).symm
  same_account _ _ _ ha hb := Except.ok.inj (ha.symm.trans hb)

/-- Account 2 receives four tenths. -/
def smallGenesis : GenesisState := ⟨⟨4 * 10 ^ 17⟩, str "nvnm1qgcx23ru"⟩

/-- Account 2 names account 1, which is blocked; then it takes everything, for the account of two
bytes. -/
def smallReqs : List (Option MsgUpdateParams) :=
  [some ⟨str "nvnm1qgcx23ru", [], str "nvnm1qyfcvmjm"⟩,
   some ⟨str "nvnm1qgcx23ru", str "1.000000000000000000", str "nvnm1qqqskyhdqc"⟩]

def smallStore : Store :=
  smallReqs.foldl (fun s req => deliver bookKeeper req s) (initGenesis smallGenesis ⟨none⟩)

theorem reachable_smallStore : Reachable bookKeeper smallGenesis ⟨smallStore, bookFees⟩ :=
  Reachable.foldl_deliver (Transition.Reachable.of_init ⟨⟨none⟩, rfl⟩) smallReqs

/-- The first message of that run is refused, the second accepted, and the block after them ends. -/
theorem endBlocker_never_fails_smallStore :
    smallStore.params = some ⟨⟨10 ^ 18⟩, str "nvnm1qqqskyhdqc"⟩ ∧
    ∃ r, bookKeeper.endBlocker smallStore 2 bookFees = .ok r := by
  have haccount : bookKeeper.env.accAddressFromBech32 smallGenesis.params.taxAddress = .ok [2] := by
    decide +kernel
  have hfree : ∀ a, bookKeeper.env.accAddressFromBech32 smallGenesis.params.taxAddress = .ok a →
      bookKeeper.bankKeeper.blockedAddr a = false := by
    intro a ha
    cases haccount.symm.trans ha
    decide
  refine ⟨by decide +kernel, ?_⟩
  exact (endBlocker_never_fails laws_bookKeeper (by decide +kernel) hfree
    reachable_smallStore).2 2 bookFees

end Nvnmchain.Tax
