import ChainLens.Domain.Decimal
import ChainLens.Intelligence.Address
import ChainLens.Intelligence.Graph

/-!
# Amounts before their display

Amounts are stored as decimals of up to 78 digits and parsed to integers of 128 bits before they
are shown. An amount that does not fit counts as zero, and a fee is a product of two integers. The
analysis that is to point out large totals comes to no end.

## Main definitions

* `displayedFee`: the integer a fee is shown from
* `ExactAmounts`: no amount is lost on the way

## Main results

* `exactAmounts_iff`: which amounts are exact
-/

namespace ChainLens

/-! ## Parsed amounts -/

/-- A stored number is read back if it fits, and is zero else. -/
theorem weiValue_toString (n : ℕ) : weiValue (toString n) = if n ≤ u128Max then n else 0 := by
  rw [weiValue, parseU128_toString]
  split <;> rfl

theorem weiValue_eq_iff (n : ℕ) : weiValue (toString n) = n ↔ n ≤ u128Max := by
  rw [weiValue_toString]
  split
  next h => simp [h]
  next h =>
    have hpos : 0 ≠ n := by omega
    simp [h, hpos]

/-- The integer the fee is shown from, unless the product panics. -/
def displayedFee (setup : Setup) (gasUsed : ℕ) (gasPrice : Option Numeric) : Option ℕ :=
  let fee := feeWei gasUsed gasPrice
  if u128Max < fee ∧ setup.overflowChecks then none else some (fee % (u128Max + 1))

theorem calculateTxFee_eq (setup : Setup) (gasUsed : ℕ) (gasPrice : Option Numeric) :
    calculateTxFee setup gasUsed gasPrice =
      match displayedFee setup gasUsed gasPrice with
      | some fee => .ok (formatFixed 6 (Float.ofNat fee / 1e18))
      | none => .error (.panic "attempt to multiply with overflow") := by
  unfold calculateTxFee displayedFee
  dsimp only
  split <;> rfl

/-- A price that fits leads to the fee if the product fits as well. -/
theorem displayedFee_eq_iff (setup : Setup) (gasUsed : ℕ) {price : ℕ} (hprice : price ≤ u128Max) :
    displayedFee setup gasUsed (some (toString price)) = some (gasUsed * price) ↔
      gasUsed * price ≤ u128Max := by
  have hfee : feeWei gasUsed (some (toString price)) = gasUsed * price := by
    rw [feeWei, Option.map_some, Option.getD_some, (weiValue_eq_iff price).mpr hprice]
  unfold displayedFee
  rw [hfee]
  dsimp only
  constructor
  · intro h
    by_contra hover
    split at h
    · cases h
    · -- The remainder fits.
      have hlt : gasUsed * price % (u128Max + 1) < u128Max + 1 := Nat.mod_lt _ (Nat.succ_pos _)
      rw [Option.some.inj h] at hlt
      omega
  · intro hle
    rw [if_neg (fun h => absurd h.1 (Nat.not_lt.mpr hle)), Nat.mod_eq_of_lt (Nat.lt_succ_of_le hle)]

/-! ## Totals -/

namespace Db

variable (address : Bytes) (db : Db)

def weiSent : ℕ := ((db.sentBy address).map fun tx => numericValue tx.value).sum

def weiReceived : ℕ := ((db.receivedBy address).map fun tx => numericValue tx.value).sum

end Db

/-- A stored value and price, and their fee for the gas, are shown as they are; and the analysis of
the address of a text points out totals of more than one ether. -/
structure ExactAmounts (setup : Setup) (pool : PgPool) (path : String) (wei gasPrice : U256)
    (gasUsed : ℕ) : Prop where
  value : weiValue (u256ToNumeric wei) = wei.toNat
  price : weiValue (u256ToNumeric gasPrice) = gasPrice.toNat
  fee : displayedFee setup gasUsed (some (u256ToNumeric gasPrice)) =
    some (gasUsed * gasPrice.toNat)
  feeText : calculateTxFee setup gasUsed (some (u256ToNumeric gasPrice)) =
    .ok (formatFixed 6 (Float.ofNat (gasUsed * gasPrice.toNat) / 1e18))
  highValue : ∀ k, hexDecodeTrimmed path = some k →
    1000000000000000000 < pool.db.weiSent k ∨ 1000000000000000000 < pool.db.weiReceived k →
      ∃ intel pool', (analyzeAddress setup path).runOn pool = (.ok intel, pool') ∧
        "high_value_transfer" ∈ intel.behaviorClassifications

/-- The value, the price and the fee have 128 bits, and there is no large total to point out. -/
structure AmountsFit (db : Db) (path : String) (wei gasPrice : U256) (gasUsed : ℕ) : Prop where
  value : wei.toNat ≤ u128Max
  price : gasPrice.toNat ≤ u128Max
  fee : gasUsed * gasPrice.toNat ≤ u128Max
  sent : ∀ k, hexDecodeTrimmed path = some k → db.weiSent k ≤ 1000000000000000000
  received : ∀ k, hexDecodeTrimmed path = some k → db.weiReceived k ≤ 1000000000000000000

/-- **Which amounts are exact**: those that fit. -/
theorem exactAmounts_iff (setup : Setup) (pool : PgPool) (path : String) (wei gasPrice : U256)
    (gasUsed : ℕ) : ExactAmounts setup pool path wei gasPrice gasUsed ↔
      AmountsFit pool.db path wei gasPrice gasUsed := by
  constructor
  · intro hexact
    have hprice := (weiValue_eq_iff _).mp hexact.price
    -- No analysis ends, so that no total may be large.
    have hsmall : ∀ k, hexDecodeTrimmed path = some k →
        ¬ (1000000000000000000 < pool.db.weiSent k ∨
          1000000000000000000 < pool.db.weiReceived k) := by
      intro k hpath hlarge
      obtain ⟨intel, pool', hrun, -⟩ := hexact.highValue k hpath hlarge
      exact Session.runOn_ne_ok (analyzeAddress_fails setup path) intel pool' hrun
    have hfee := (displayedFee_eq_iff setup gasUsed hprice).mp hexact.fee
    refine ⟨(weiValue_eq_iff _).mp hexact.value, hprice, hfee, fun k hpath => ?_,
      fun k hpath => ?_⟩
    · exact Nat.not_lt.mp fun hlarge => hsmall k hpath (.inl hlarge)
    · exact Nat.not_lt.mp fun hlarge => hsmall k hpath (.inr hlarge)
  · intro hfit
    have hfee : displayedFee setup gasUsed (some (u256ToNumeric gasPrice)) =
        some (gasUsed * gasPrice.toNat) :=
      (displayedFee_eq_iff setup gasUsed hfit.price).mpr hfit.fee
    refine ⟨(weiValue_eq_iff _).mpr hfit.value, (weiValue_eq_iff _).mpr hfit.price, hfee, ?_,
      fun k hpath hlarge => ?_⟩
    · rw [calculateTxFee_eq, hfee]
    · have hsent := hfit.sent k hpath
      have hreceived := hfit.received k hpath
      omega

/-! ## Small and large amounts -/

/-- A transaction of two ether from the first address to the second. -/
def twoEther : PgPool :=
  ⟨{ Db.migrated with
    blocks := [Links.blockRow]
    transactions := [{ Links.transactionRow 0 [1] [2] with value := "2000000000000000000" }] },
    [], 0⟩

/-- A value of 129 bits is shown as zero, and so is a fee of 129 bits where overflows wrap; and no
analysis points out two ether. -/
theorem large_amounts_lost :
    weiValue (u256ToNumeric (BitVec.ofNat 256 (2 ^ 128))) = 0 ∧
      displayedFee { Links.setup with overflowChecks := false } 2
        (some (u256ToNumeric (BitVec.ofNat 256 (2 ^ 127)))) = some 0 ∧
      1000000000000000000 < twoEther.db.weiSent [1] ∧
      ∀ intel pool', (analyzeAddress Links.setup "0x01").runOn twoEther ≠ (.ok intel, pool') := by
  have hvalue : u256ToNumeric (BitVec.ofNat 256 (2 ^ 128)) = toString (2 ^ 128) := rfl
  have hprice : u256ToNumeric (BitVec.ofNat 256 (2 ^ 127)) = toString (2 ^ 127) := rfl
  refine ⟨?_, ?_, by decide +kernel, Session.runOn_ne_ok (analyzeAddress_fails _ _)⟩
  · rw [hvalue, weiValue_toString]
    decide
  · rw [hprice, displayedFee, feeWei, Option.map_some, weiValue_toString]
    decide

end ChainLens
