import Mathlib
import N42.PoolAdmission

/-!
When a transaction takes the place of another one with the same nonce.  The thresholds are
computed in machine words; the rule that they stand for is about integers.
-/

namespace N42.FeeReplacement

open ChainTypes Transactions PoolAdmission PoolAdmission.TxsList

def bumped (priceBump : UInt64) (fee : Uint256) : Nat :=
  fee.toNat * (100 + priceBump.toNat) / 100

structure Raised (priceBump : UInt64) (old new : Uint256) : Prop where
  higher : old.toNat < new.toNat
  reaches : bumped priceBump old ≤ new.toNat

instance (priceBump : UInt64) (old new : Uint256) : Decidable (Raised priceBump old new) :=
  decidable_of_iff (old.toNat < new.toNat ∧ bumped priceBump old ≤ new.toNat)
    ⟨fun h => ⟨h.1, h.2⟩, fun h => ⟨h.higher, h.reaches⟩⟩

def Outbids (priceBump : UInt64) (old tx : Transaction) : Prop :=
  Raised priceBump old.gasFeeCap tx.gasFeeCap ∧ Raised priceBump old.gasTipCap tx.gasTipCap

/-- The rule: a transaction is replaced only by one that outbids it, and otherwise the list
stays as it is. -/
def Follows (priceBump : UInt64) (l : TxsList) (old tx : Transaction) : Prop :=
  (∀ l' replaced, l.add tx priceBump = some (l', replaced) →
    replaced = some old ∧ Outbids priceBump old tx) ∧
  (¬ Outbids priceBump old tx → l.add tx priceBump = none)

structure Passes (priceBump : UInt64) (old new : Uint256) : Prop where
  notLower : old.toNat ≤ new.toNat
  reaches : (threshold priceBump old).toNat ≤ new.toNat

variable {priceBump : UInt64} {l : TxsList} {old tx : Transaction}

theorem replaces_iff : replaces priceBump old tx = true ↔
    Passes priceBump old.gasFeeCap tx.gasFeeCap ∧ Passes priceBump old.gasTipCap tx.gasTipCap := by
  simp only [replaces, Bool.and_eq_true, decide_eq_true_eq, BitVec.le_def]
  constructor
  · rintro ⟨⟨⟨hcap, htip⟩, hcap'⟩, htip'⟩
    exact ⟨⟨hcap, hcap'⟩, htip, htip'⟩
  · rintro ⟨hcap, htip⟩
    exact ⟨⟨⟨hcap.notLower, htip.notLower⟩, hcap.reaches⟩, htip.reaches⟩

theorem add_eq_none_iff (hold : l.get tx.nonce = some old) :
    l.add tx priceBump = none ↔ replaces priceBump old tx = false := by
  rw [TxsList.add, hold]
  simp

theorem replaced_of_add (hold : l.get tx.nonce = some old) {l' : TxsList}
    {replaced : Option Transaction} (h : l.add tx priceBump = some (l', replaced)) :
    replaced = some old := by
  rw [TxsList.add, hold] at h
  simp only [Option.ite_none_right_eq_some, Option.some.injEq, Prod.mk.injEq] at h
  exact h.2.2.symm

def toyFees (feeCap tip : Uint256) : Transaction :=
  .dynamicFee ⟨0, 0, tip, feeCap, 21000, none, none, 0, [], [], 0, 0, 0⟩

def toyFeeList (feeCap tip : Uint256) : TxsList :=
  ⟨true, [toyFees feeCap tip], 0, 0⟩

theorem get_toyFeeList (feeCap tip : Uint256) :
    (toyFeeList feeCap tip).get 0 = some (toyFees feeCap tip) :=
  rfl

end N42.FeeReplacement
