import N42.PriceHeaps
import N42.SenderBinding

/-!
What a transaction pays the producer of a block for each unit of gas, and the tip by which
the pool and the price oracle sort transactions.
-/

namespace N42.GasTips

open ChainTypes HeaderSealing Transactions MessageCalls TransactionExecution
open PriceHeaps SenderBinding

inductive TipError where
  | gasFeeCapTooLow
deriving DecidableEq

def effectiveGasTip (tx : Transaction) (baseFee : Option Uint256) :
    Uint256 × Option TipError :=
  match baseFee with
  | none => (tx.gasTipCap, none)
  | some baseFee =>
    (uint256Min tx.gasTipCap (tx.gasFeeCap - baseFee),
      if tx.gasFeeCap < baseFee then some .gasFeeCapTooLow else none)

def oracleLess (baseFee : Option Uint256) (a b : Transaction) : Bool :=
  (effectiveGasTip a baseFee).1 < (effectiveGasTip b baseFee).1

def earned (tx : Transaction) (baseFee : Uint256) : Nat :=
  min tx.gasTipCap.toNat (tx.gasFeeCap.toNat - baseFee.toNat)

/-- The effective tip is the tip a producer earns, or an error without a wrapped difference. -/
def Reports (tx : Transaction) (baseFee : Uint256) : Prop :=
  (baseFee ≤ tx.gasFeeCap → (effectiveGasTip tx (some baseFee)).1.toNat = earned tx baseFee ∧
    (effectiveGasTip tx (some baseFee)).2 = none) ∧
  (tx.gasFeeCap < baseFee → (effectiveGasTip tx (some baseFee)).2 = some .gasFeeCapTooLow ∧
    (effectiveGasTip tx (some baseFee)).1 ≠ tx.gasFeeCap - baseFee)

/-- The two numbers whose minimum should be taken are equal, or the difference has wrapped
around to one below the tip. -/
def Level (tx : Transaction) (baseFee : Uint256) : Prop :=
  (baseFee ≤ tx.gasFeeCap ∧ tx.gasTipCap.toNat = tx.gasFeeCap.toNat - baseFee.toNat) ∨
    (tx.gasFeeCap < baseFee ∧
      2 ^ 256 - (baseFee.toNat - tx.gasFeeCap.toNat) < tx.gasTipCap.toNat)

section Tips

variable {tx a b : Transaction} {baseFee : Uint256}

theorem toNat_uint256Min (x y : Uint256) : (uint256Min x y).toNat = max x.toNat y.toNat := by
  rw [uint256Min]
  split
  · rename_i h
    exact (Nat.max_eq_left (Nat.le_of_lt h)).symm
  · rename_i h
    exact (Nat.max_eq_right (Nat.not_lt.mp h)).symm

theorem toNat_effectiveGasTip (h : baseFee ≤ tx.gasFeeCap) :
    (effectiveGasTip tx (some baseFee)).1.toNat =
      max tx.gasTipCap.toNat (tx.gasFeeCap.toNat - baseFee.toNat) := by
  rw [effectiveGasTip]
  dsimp only
  rw [toNat_uint256Min, BitVec.toNat_sub_of_le h]

theorem reports_iff_of_le (h : baseFee ≤ tx.gasFeeCap) :
    Reports tx baseFee ↔ tx.gasTipCap.toNat = tx.gasFeeCap.toNat - baseFee.toNat := by
  have hlow : ¬ tx.gasFeeCap < baseFee := BitVec.not_lt.mpr h
  have herror : (effectiveGasTip tx (some baseFee)).2 = none := if_neg hlow
  rw [Reports, toNat_effectiveGasTip h, earned]
  constructor
  · rintro ⟨hvalue, -⟩
    have hequal := (hvalue h).1
    omega
  · intro hequal
    refine ⟨fun _ => ⟨?_, herror⟩, fun hbelow => absurd hbelow hlow⟩
    omega

theorem reports_iff_of_lt (h : tx.gasFeeCap < baseFee) :
    Reports tx baseFee ↔
      2 ^ 256 - (baseFee.toNat - tx.gasFeeCap.toNat) < tx.gasTipCap.toNat := by
  have hhigh : ¬ baseFee ≤ tx.gasFeeCap := BitVec.not_le.mpr h
  have herror : (effectiveGasTip tx (some baseFee)).2 = some .gasFeeCapTooLow := if_pos h
  have hwrapped : (tx.gasFeeCap - baseFee).toNat =
      2 ^ 256 - (baseFee.toNat - tx.gasFeeCap.toNat) := by
    have hfee := baseFee.isLt
    have hlt := BitVec.lt_def.mp h
    rw [BitVec.toNat_sub]
    omega
  rw [← hwrapped]
  constructor
  · rintro ⟨-, hvalue⟩
    by_contra hnot
    refine (hvalue h).2 ?_
    exact if_neg (fun hlt => hnot (BitVec.lt_def.mp hlt))
  · intro hlt
    refine ⟨fun hle => absurd hle hhigh, fun _ => ⟨herror, ?_⟩⟩
    intro hvalue
    have hmin : (effectiveGasTip tx (some baseFee)).1 = tx.gasTipCap :=
      if_pos (BitVec.lt_def.mpr hlt)
    rw [hmin] at hvalue
    rw [hvalue] at hlt
    exact Nat.lt_irrefl _ hlt

theorem reports_iff : Reports tx baseFee ↔ Level tx baseFee := by
  rcases Decidable.em (baseFee ≤ tx.gasFeeCap) with h | h
  · have hlow : ¬ tx.gasFeeCap < baseFee := BitVec.not_lt.mpr h
    rw [reports_iff_of_le h, Level]
    simp [h, hlow]
  · have hlt : tx.gasFeeCap < baseFee := BitVec.not_le.mp h
    rw [reports_iff_of_lt hlt, Level]
    simp [h, hlt]

theorem toNat_min256 (x y : Uint256) : (min256 x y).toNat = min x.toNat y.toNat := by
  rw [min256]
  split
  · rename_i h
    exact (Nat.min_eq_left (Nat.le_of_lt h)).symm
  · rename_i h
    exact (Nat.min_eq_right (Nat.not_lt.mp h)).symm

theorem effectiveTip_eq_earned {ξ : Type} {evm : EVM ξ} {msg : Message}
    (hlondon : evm.chainRules.isLondon = true) (hcap : msg.feeCap = tx.gasFeeCap)
    (htip : msg.tip = tx.gasTipCap) :
    (effectiveTip evm msg).toNat = earned tx evm.context.baseFee := by
  rw [effectiveTip, if_pos hlondon, earned, hcap, htip]
  split
  · rename_i hlt
    rw [toNat_min256, BitVec.toNat_sub_of_le (Nat.le_of_lt hlt)]
  · rename_i hge
    have hle : tx.gasFeeCap.toNat ≤ evm.context.baseFee.toNat := Nat.not_lt.mp hge
    rw [Nat.sub_eq_zero_of_le hle, Nat.min_zero]
    rfl

theorem effectiveTip_of_message {ξ : Type} {env : Environment ξ} {evm : EVM ξ} {msg : Message}
    (hmessage : env.message tx = .ok (msg, evm)) (hfee : env.header.baseFee = some baseFee)
    (hlondon : env.chainConfig.isLondon env.header.number64 = true) :
    (effectiveTip evm msg).toNat = earned tx baseFee := by
  obtain ⟨context, hcontext, hmessage⟩ := FallibleRuns.bind_eq_ok_iff.mp hmessage
  split at hmessage
  · cases hmessage
  · rename_i derived hderived
    obtain ⟨sender, -, rfl⟩ := Option.map_eq_some_iff.mp hderived
    cases hmessage
    rw [Environment.blockContext] at hcontext
    split at hcontext
    · cases hcontext
    · cases hcontext
      refine (effectiveTip_eq_earned ?_ rfl rfl).trans ?_
      · exact hlondon
      · dsimp only
        rw [hfee]
        rfl

theorem toNat_of_level (hle : baseFee ≤ tx.gasFeeCap) (h : Level tx baseFee) :
    (effectiveGasTip tx (some baseFee)).1.toNat = earned tx baseFee :=
  ((reports_iff.mpr h).1 hle).1

theorem less_of_earned_lt (ha : baseFee ≤ a.gasFeeCap) (hb : baseFee ≤ b.gasFeeCap)
    (hla : Level a baseFee) (hlb : Level b baseFee) :
    (oracleLess (some baseFee) a b = true ↔ earned a baseFee < earned b baseFee) ∧
      (earned a baseFee < earned b baseFee → less (some baseFee) a b = true) := by
  have hiff : (effectiveGasTip a (some baseFee)).1 < (effectiveGasTip b (some baseFee)).1 ↔
      earned a baseFee < earned b baseFee := by
    rw [BitVec.lt_def, toNat_of_level ha hla, toNat_of_level hb hlb]
  constructor
  · rw [oracleLess, decide_eq_true_iff]
    exact hiff
  · intro hlt
    have htips : PriceHeaps.effectiveGasTip a baseFee < PriceHeaps.effectiveGasTip b baseFee :=
      hiff.mpr hlt
    rw [less, PriceHeaps.cmp, Option.elim_some, cmpFees, if_pos htips]
    rfl

end Tips

/-- The effective tip is what the producer of a block earns just where the two numbers
compared are equal; the execution credits what is earned; and where the tips of two
transactions are right, the pool and the oracle put the lower one first. -/
theorem effectiveGasTip_exact (tx : Transaction) (baseFee : Uint256) :
    (Reports tx baseFee ↔ Level tx baseFee) ∧
    (∀ (ξ : Type) (env : Environment ξ) (evm : EVM ξ) (msg : Message),
      env.message tx = .ok (msg, evm) → env.header.baseFee = some baseFee →
      env.chainConfig.isLondon env.header.number64 = true →
      (effectiveTip evm msg).toNat = earned tx baseFee) ∧
    ∀ other : Transaction, baseFee ≤ tx.gasFeeCap → baseFee ≤ other.gasFeeCap →
      Level tx baseFee → Level other baseFee →
      (oracleLess (some baseFee) tx other = true ↔ earned tx baseFee < earned other baseFee) ∧
        (earned tx baseFee < earned other baseFee → less (some baseFee) tx other = true) :=
  ⟨reports_iff, fun _ _ _ _ => effectiveTip_of_message, fun _ => less_of_earned_lt⟩

def toyTransfer (tip cap : Nat) : Transaction :=
  .dynamicFee
    { chainID := 0
      nonce := 0
      gasTipCap := BitVec.ofNat 256 tip
      gasFeeCap := BitVec.ofNat 256 cap
      gas := 21000
      toAddress := some (toyAddress 3)
      fromAddress := some (toyAddress 1)
      value := 0
      data := []
      accessList := []
      v := 0
      r := 1
      s := 2 }

def toyLondon : Environment Unit :=
  { toyEnvironment with
    chainConfig := { ChainConfig.unforked with londonBlock := some 0 }
    header := { toyEnvironment.header with baseFee := some 5 } }

theorem effectiveGasTip_exact_level :
    Reports (toyTransfer 2 7) 5 ∧
      (∃ msg evm, toyLondon.message (toyTransfer 2 7) = .ok (msg, evm) ∧
        (effectiveTip evm msg).toNat = 2) ∧
      less (some 5) (toyTransfer 2 7) (toyTransfer 3 8) = true := by
  have hlow : Level (toyTransfer 2 7) 5 := .inl ⟨by decide, by decide⟩
  have hhigh : Level (toyTransfer 3 8) 5 := .inl ⟨by decide, by decide⟩
  obtain ⟨hreports, hearned, horder⟩ := effectiveGasTip_exact (toyTransfer 2 7) 5
  refine ⟨hreports.mpr hlow, ⟨_, _, rfl, ?_⟩, ?_⟩
  · exact hearned Unit toyLondon _ _ rfl rfl (by decide)
  · exact (horder _ (by decide) (by decide) hlow hhigh).2 (by decide)

/-- A tip of two below a cap of ten counts as five; it is put behind a tip of three, which
earns more; and with a cap of four the value is almost two to the power of 256. -/
theorem effectiveGasTip_too_high :
    (effectiveGasTip (toyTransfer 2 10) (some 5)).1 = 5 ∧ earned (toyTransfer 2 10) 5 = 2 ∧
      earned (toyTransfer 3 8) 5 = 3 ∧
      less (some 5) (toyTransfer 3 8) (toyTransfer 2 10) = true ∧
      effectiveGasTip (toyTransfer 2 4) (some 5) =
        (BitVec.ofNat 256 (2 ^ 256 - 1), some .gasFeeCapTooLow) := by
  decide +kernel

end N42.GasTips
