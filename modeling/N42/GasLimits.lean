import N42.HeaderPreparation

/-!
Gas limits at the edge of the 64-bit numbers.  The check of a gas limit takes the difference
of two limits as a signed number, so it measures the shorter way around, and the proposed
limit of the next block may be the sum of two numbers that wraps around.
-/

namespace N42.GasLimits

open FeeMarket HeaderPreparation

def Admissible (parentGasLimit gasLimit : UInt64) : Prop :=
  gasDistance parentGasLimit gasLimit < parentGasLimit.toNat / 1024 ∧ 5000 ≤ gasLimit.toNat

instance (parentGasLimit gasLimit : UInt64) : Decidable (Admissible parentGasLimit gasLimit) :=
  inferInstanceAs (Decidable (_ ∧ _))

def Around (parentGasLimit gasLimit : UInt64) : Prop :=
  5000 ≤ gasLimit.toNat ∧ 2 ^ 64 < gasDistance parentGasLimit gasLimit + parentGasLimit.toNat / 1024

/-- The limit above the parent's wraps around to one below the minimum. -/
def Overflows (parentGasLimit desiredLimit : UInt64) : Prop :=
  parentGasLimit < desiredLimit ∧
    2 ^ 64 ≤ parentGasLimit.toNat + (parentGasLimit.toNat / 1024 - 1) ∧
    parentGasLimit.toNat + (parentGasLimit.toNat / 1024 - 1) < 2 ^ 64 + 5000

def Accepted (gasLimit : UInt64) : Prop :=
  ∃ parentGasLimit, verifyGaslimit parentGasLimit gasLimit = .ok ()

theorem Accepted.min {gasLimit : UInt64} (h : Accepted gasLimit) : minGasLimit ≤ gasLimit := by
  obtain ⟨parentGasLimit, h⟩ := h
  exact minGasLimit_le_of_verifyGaslimit h

variable {parentGasLimit gasLimit : UInt64}

theorem not_admissible_of_around (h : Around parentGasLimit gasLimit) :
    ¬ Admissible parentGasLimit gasLimit := by
  have hparent := parentGasLimit.toNat_lt
  rintro ⟨hnear, -⟩
  have hfar := h.2
  omega

theorem verifyGaslimit_eq_ok_iff_or :
    verifyGaslimit parentGasLimit gasLimit = .ok () ↔
      Admissible parentGasLimit gasLimit ∨ Around parentGasLimit gasLimit := by
  have hdistance := gasDistance_lt parentGasLimit gasLimit
  rw [verifyGaslimit_eq_ok_iff, Admissible, Around]
  constructor
  · rintro ⟨hnear, hmin⟩
    rcases Nat.lt_or_ge (gasDistance parentGasLimit gasLimit) (parentGasLimit.toNat / 1024)
      with hway | hway
    · exact .inl ⟨hway, hmin⟩
    · refine .inr ⟨hmin, ?_⟩
      omega
  · rintro (⟨hnear, hmin⟩ | ⟨hmin, hfar⟩)
    · exact ⟨by omega, hmin⟩
    · exact ⟨by omega, hmin⟩

variable {parentGasLimit desiredLimit : UInt64}

section

variable {parentGasLimit : UInt64} (hmin : minGasLimit ≤ parentGasLimit)
include hmin

theorem calcGasLimit_of_lt (hup : parentGasLimit < desiredLimit) :
    (calcGasLimit parentGasLimit desiredLimit).toNat =
      min ((parentGasLimit.toNat + (parentGasLimit.toNat / 1024 - 1)) % 2 ^ 64)
        desiredLimit.toNat := by
  have hdesired : ¬ desiredLimit < minGasLimit := by
    intro hlow
    exact UInt64.lt_irrefl _ (UInt64.lt_of_lt_of_le (UInt64.lt_trans hup hlow) hmin)
  have hsum : (parentGasLimit + (parentGasLimit / gasLimitBoundDivisor - 1)).toNat =
      (parentGasLimit.toNat + (parentGasLimit.toNat / 1024 - 1)) % 2 ^ 64 := by
    rw [UInt64.toNat_add, toNat_gasDelta hmin]
  rw [calcGasLimit, if_neg hdesired, if_pos hup, ← hsum]
  dsimp only
  split
  · rename_i hover
    rw [gt_iff_lt, UInt64.lt_iff_toNat_lt] at hover
    omega
  · rename_i hwithin
    rw [gt_iff_lt, UInt64.lt_iff_toNat_lt] at hwithin
    omega

theorem le_calcGasLimit_of_ge (hdown : ¬ parentGasLimit < desiredLimit) :
    minGasLimit ≤ calcGasLimit parentGasLimit desiredLimit := by
  have hdesired : minGasLimit ≤ if desiredLimit < minGasLimit then minGasLimit
      else desiredLimit := by
    split
    · exact UInt64.le_refl _
    · rename_i hhigh
      exact UInt64.not_lt.mp hhigh
  have hbelow : ¬ parentGasLimit < if desiredLimit < minGasLimit then minGasLimit
      else desiredLimit := by
    split
    · exact UInt64.not_lt.mpr hmin
    · exact hdown
  rw [calcGasLimit, if_neg hbelow]
  dsimp only
  generalize (if desiredLimit < minGasLimit then minGasLimit else desiredLimit) = desired
    at hdesired
  split
  · split
    · exact hdesired
    · rename_i habove
      exact UInt64.le_trans hdesired (UInt64.not_lt.mp habove)
  · exact hmin

theorem minGasLimit_le_calcGasLimit_iff (desiredLimit : UInt64) :
    minGasLimit ≤ calcGasLimit parentGasLimit desiredLimit ↔
      ¬ Overflows parentGasLimit desiredLimit := by
  have hfloor := UInt64.le_iff_toNat_le.mp hmin
  have hlt := parentGasLimit.toNat_lt
  rw [minGasLimit_toNat] at hfloor
  rcases Decidable.em (parentGasLimit < desiredLimit) with hup | hdown
  · have hdesired := UInt64.lt_iff_toNat_lt.mp hup
    rw [UInt64.le_iff_toNat_le, minGasLimit_toNat, calcGasLimit_of_lt hmin hup, Overflows]
    constructor
    · rintro hlimit ⟨-, hwraps, hlow⟩
      omega
    · intro hfits
      by_contra hlow
      exact hfits ⟨hup, by omega, by omega⟩
  · exact iff_of_true (le_calcGasLimit_of_ge hmin hdown) fun h => hdown h.1

end

/-- The check follows the rule over the integers for exactly the limits that are not near to
each other around the end of the numbers; the limit the miner proposes after an accepted one
passes the check unless its sum wraps around to a value below the minimum. -/
theorem verifyGaslimit_rule (parentGasLimit gasLimit desiredLimit : UInt64) :
    ((verifyGaslimit parentGasLimit gasLimit = .ok () ↔ Admissible parentGasLimit gasLimit) ↔
      ¬ Around parentGasLimit gasLimit) ∧
    (Accepted parentGasLimit →
      (verifyGaslimit parentGasLimit (calcGasLimit parentGasLimit desiredLimit) = .ok () ↔
        ¬ Overflows parentGasLimit desiredLimit)) := by
  constructor
  · rw [verifyGaslimit_eq_ok_iff_or]
    constructor
    · intro hrule haround
      exact not_admissible_of_around haround (hrule.mp (.inr haround))
    · intro haround
      exact or_iff_left haround
  · intro haccepted
    rw [verifyGaslimit_calcGasLimit haccepted.min, minGasLimit_le_calcGasLimit_iff haccepted.min]

theorem verifyGaslimit_rule_thirty_million :
    Accepted 30000000 ∧ verifyGaslimit 30000000 (calcGasLimit 30000000 40000000) = .ok () := by
  have haccepted : Accepted 30000000 := ⟨30000000, by decide⟩
  refine ⟨haccepted, ((verifyGaslimit_rule 30000000 0 40000000).2 haccepted).mpr ?_⟩
  rintro ⟨-, hwraps, -⟩
  revert hwraps
  decide

/-- The highest gas limit may be followed by the lowest one, and a limit that is accepted
after itself may be followed by zero. -/
theorem verifyGaslimit_rule_fails :
    (verifyGaslimit 0xffffffffffffffff 5000 = .ok () ∧ ¬ Admissible 0xffffffffffffffff 5000) ∧
    verifyGaslimit 18428747250223005713 18428747250223005713 = .ok () ∧
    calcGasLimit 18428747250223005713 0xffffffffffffffff = 0 ∧
    verifyGaslimit 18428747250223005713
      (calcGasLimit 18428747250223005713 0xffffffffffffffff) ≠ .ok () := by
  decide +kernel

end N42.GasLimits
