import N42.BlockHeader

/-!
The rules for gas limits and base fees along a chain.
-/

namespace N42.FeeMarket

open ChainTypes BlockHeader

def elasticityMultiplier : UInt64 := 2

def baseFeeChangeDenominator : Nat := 8

def initialBaseFee : Nat := 1000000000

def gasLimitBoundDivisor : UInt64 := 1024

def minGasLimit : UInt64 := 5000

/-- The values in an error are those printed in its text.  The text on a wrong base fee
prints the expected one as the one at hand. -/
inductive FeeError where
  | invalidGasLimit (given want delta : UInt64)
  | gasLimitBelowMinimum
  | missingBaseFee
  | invalidBaseFee (given want : Nat) (parentBaseFee : Option Uint256) (parentGasUsed : UInt64)
  | panic
deriving DecidableEq

/-- `VerifyGaslimit`; the difference is a signed 64-bit integer. -/
def verifyGaslimit (parentGasLimit headerGasLimit : UInt64) : Except FeeError Unit :=
  let diff := parentGasLimit - headerGasLimit
  let diff := if 2 ^ 63 ≤ diff.toNat then 0 - diff else diff
  let limit := parentGasLimit / gasLimitBoundDivisor
  if limit ≤ diff then .error (.invalidGasLimit headerGasLimit parentGasLimit (limit - 1))
  else if headerGasLimit < minGasLimit then .error .gasLimitBelowMinimum
  else .ok ()

/-- `CalcBaseFee`; a missing base fee and a gas target of zero panic. -/
def calcBaseFee (rules : ChainConfig) (parent : Header) : Except FeeError Nat :=
  if !rules.isLondon parent.number64 then .ok initialBaseFee
  else
    let target := (parent.gasLimit / elasticityMultiplier).toNat
    match parent.baseFee with
    | none => .error .panic
    | some baseFee =>
      if parent.gasUsed.toNat = target then .ok baseFee.toNat
      else if target = 0 then .error .panic
      else if target < parent.gasUsed.toNat then
        let delta := baseFee.toNat * (parent.gasUsed.toNat - target) / target
        .ok (baseFee.toNat + max (delta / baseFeeChangeDenominator) 1)
      else
        let delta := baseFee.toNat * (target - parent.gasUsed.toNat) / target
        .ok (baseFee.toNat - delta / baseFeeChangeDenominator)

def verifyEip1559Header (rules : ChainConfig) (parent header : Header) :
    Except FeeError Unit := do
  let parentGasLimit :=
    if !rules.isLondon parent.number64 then parent.gasLimit * elasticityMultiplier
    else parent.gasLimit
  verifyGaslimit parentGasLimit header.gasLimit
  match header.baseFee with
  | none => .error .missingBaseFee
  | some baseFee =>
    let expected ← calcBaseFee rules parent
    if baseFee.toNat ≠ expected then
      .error (.invalidBaseFee expected baseFee.toNat parent.baseFee parent.gasUsed)
    else .ok ()

section

variable (parentGasLimit gasLimit : UInt64)

def gasDistance : Nat :=
  ((parentGasLimit.toNat : Int) - gasLimit.toNat).natAbs

theorem gasDistance_lt : gasDistance parentGasLimit gasLimit < 2 ^ 64 := by
  have hparent := parentGasLimit.toNat_lt
  have hlimit := gasLimit.toNat_lt
  rw [gasDistance]
  omega

theorem toNat_signedDifference :
    (if 2 ^ 63 ≤ (parentGasLimit - gasLimit).toNat then 0 - (parentGasLimit - gasLimit)
      else parentGasLimit - gasLimit).toNat = min (gasDistance parentGasLimit gasLimit)
        (2 ^ 64 - gasDistance parentGasLimit gasLimit) := by
  have hparent := parentGasLimit.toNat_lt
  have hlimit := gasLimit.toNat_lt
  have hsub : (parentGasLimit - gasLimit).toNat =
      (2 ^ 64 - gasLimit.toNat + parentGasLimit.toNat) % 2 ^ 64 := UInt64.toNat_sub _ _
  rw [gasDistance]
  split
  · have hneg : (0 - (parentGasLimit - gasLimit)).toNat =
        (2 ^ 64 - (parentGasLimit - gasLimit).toNat + 0) % 2 ^ 64 := UInt64.toNat_sub _ _
    omega
  · omega

end

theorem verifyGaslimit_eq_ok_iff {parentGasLimit gasLimit : UInt64} :
    verifyGaslimit parentGasLimit gasLimit = .ok () ↔ min (gasDistance parentGasLimit gasLimit)
          (2 ^ 64 - gasDistance parentGasLimit gasLimit) < parentGasLimit.toNat / 1024 ∧
        5000 ≤ gasLimit.toNat := by
  rw [← toNat_signedDifference, verifyGaslimit]
  generalize (if 2 ^ 63 ≤ (parentGasLimit - gasLimit).toNat then
    0 - (parentGasLimit - gasLimit) else parentGasLimit - gasLimit) = diff
  have hlimit : (parentGasLimit / gasLimitBoundDivisor).toNat = parentGasLimit.toNat / 1024 :=
    UInt64.toNat_div _ _
  split
  · rename_i hfar
    rw [UInt64.le_iff_toNat_le, hlimit] at hfar
    simp [Nat.not_lt.mpr hfar]
  · rename_i hnear
    rw [UInt64.le_iff_toNat_le, hlimit] at hnear
    have hbound : minGasLimit.toNat = 5000 := rfl
    split
    · rename_i hlow
      rw [UInt64.lt_iff_toNat_lt, hbound] at hlow
      simp [Nat.not_le.mpr hlow]
    · rename_i hhigh
      rw [UInt64.lt_iff_toNat_lt, hbound] at hhigh
      simp [Nat.not_le.mp hnear, Nat.not_lt.mp hhigh]

end N42.FeeMarket
