import N42.PoolSoundness

/-!
What `Filter` takes out of the list of an account, over every history of the list.  The caps
bound the costs as they are computed, so the scan they save would find nothing; the costs
themselves are computed modulo 2 ^ 256.
-/

namespace N42.FilteredLists

open ChainTypes Transactions PoolAdmission PoolLists PoolSoundness

inductive ListOperation where
  | add (tx : Transaction) (priceBump : UInt64)
  | forward (threshold : UInt64)
  | filter (costLimit : Uint256) (gasLimit : UInt64)
  | cap (threshold : Nat)
  | remove (tx : Transaction)
  | ready (start : UInt64)

def ListOperation.apply (l : TxsList) : ListOperation → TxsList
  | .add tx priceBump => (l.add tx priceBump).elim l Prod.fst
  | .forward threshold => (PoolLists.forward threshold l).2
  | .filter costLimit gasLimit => (PoolLists.filter costLimit gasLimit l).2
  | .cap threshold => (PoolLists.cap threshold l).2
  | .remove tx => (l.remove tx).elim l Prod.fst
  | .ready start => (PoolLists.ready start l).2

def built (strict : Bool) (history : List ListOperation) : TxsList :=
  history.foldl ListOperation.apply (.new strict)

def integerCost (tx : Transaction) : Nat :=
  tx.value.toNat + tx.gasPrice.toNat * tx.gas.toNat

def exceedsIntegers (costLimit : Uint256) (gasLimit : UInt64) (tx : Transaction) : Bool :=
  gasLimit < tx.gas || costLimit.toNat < integerCost tx

def invalidated (p : Transaction → Bool) (l : TxsList) (tx : Transaction) : Bool :=
  l.strict && l.txs.any fun other => p other && other.nonce < tx.nonce

/-- The filter gives up what meets the condition and what that invalidates, and keeps the
rest. -/
structure Separates (p : Transaction → Bool) (costLimit : Uint256) (gasLimit : UInt64)
    (l : TxsList) : Prop where
  removed : (filter costLimit gasLimit l).1.1 = l.txs.filter p
  invalids : (filter costLimit gasLimit l).1.2 =
    l.txs.filter fun tx => !p tx && invalidated p l tx
  kept : (filter costLimit gasLimit l).2.txs =
    l.txs.filter fun tx => !p tx && !invalidated p l tx

section Histories

variable {l : TxsList}

theorem capped_remove {tx : Transaction} {l' : TxsList} {invalids : List Transaction}
    (h : l.remove tx = some (l', invalids)) (hcap : Capped l) : Capped l' := by
  rw [TxsList.remove] at h
  split at h
  · cases h
  · dsimp only at h
    split at h
    · cases h
      refine Capped.of_subset hcap (fun other hother => ?_) rfl rfl
      exact (List.mem_filter.mp (List.mem_filter.mp hother).1).1
    · cases h
      exact Capped.of_subset hcap (fun other hother => (List.mem_filter.mp hother).1) rfl rfl

theorem capped_ready (start : UInt64) (hcap : Capped l) : Capped (ready start l).2 := by
  rw [ready]
  split
  · exact hcap
  · rename_i tx txs hflat
    split
    · exact hcap
    · refine Capped.of_subset hcap (fun other hother => ?_) rfl rfl
      refine (perm_flatten l).mem_iff.mp ?_
      rw [hflat]
      exact List.mem_of_mem_drop hother

theorem capped_apply (operation : ListOperation) (hcap : Capped l) :
    Capped (operation.apply l) := by
  cases operation with
  | add tx priceBump =>
    cases hadd : l.add tx priceBump with
    | none =>
      rw [ListOperation.apply, hadd]
      exact hcap
    | some result =>
      rw [ListOperation.apply, hadd]
      exact (capped_of_add hadd hcap).2.2.2
  | forward threshold =>
    exact Capped.of_subset hcap (fun other hother => (List.mem_filter.mp hother).1) rfl rfl
  | filter costLimit gasLimit => exact capped_filter hcap
  | cap threshold =>
    rw [ListOperation.apply, cap_eq]
    refine Capped.of_subset hcap (fun other hother => ?_) rfl rfl
    exact (perm_cap threshold l).mem_iff.mp (List.mem_append_right _ hother)
  | remove tx =>
    cases hremove : l.remove tx with
    | none =>
      rw [ListOperation.apply, hremove]
      exact hcap
    | some result =>
      rw [ListOperation.apply, hremove]
      exact capped_remove hremove hcap
  | ready start => exact capped_ready start hcap

theorem capped_built (strict : Bool) (history : List ListOperation) :
    Capped (built strict history) :=
  List.foldlRecOn history ListOperation.apply (capped_new strict)
    fun _ hcap operation _ => capped_apply operation hcap

end Histories

section Scan

variable {costLimit : Uint256} {gasLimit : UInt64} {l : TxsList}

theorem lowestNonce_lt_iff {txs : List Transaction} {nonce : UInt64} :
    lowestNonce txs < nonce ↔ ∃ tx ∈ txs, tx.nonce < nonce := by
  constructor
  · intro hlt
    rcases eq_or_ne txs [] with rfl | hne
    · have hmax : maxNonce < nonce := hlt
      have hbound := nonce.toNat_lt
      rw [UInt64.lt_iff_toNat_lt] at hmax
      have htop : maxNonce.toNat = 2 ^ 64 - 1 := rfl
      omega
    · obtain ⟨tx, htx, hnonce⟩ := exists_lowestNonce hne
      exact ⟨tx, htx, by rw [hnonce]; exact hlt⟩
  · rintro ⟨tx, htx, hlt⟩
    exact UInt64.lt_of_le_of_lt (lowestNonce_le htx) hlt

variable {p : Transaction → Bool}

theorem invalidated_eq_false (h : ∀ tx ∈ l.txs, p tx = false) (tx : Transaction) :
    invalidated p l tx = false := by
  rw [invalidated, Bool.and_eq_false_iff]
  right
  rw [List.any_eq_false]
  intro other hother
  simp [h other hother]

theorem separates_of_idle (hp : ∀ tx ∈ l.txs, p tx = false)
    (hresult : (filter costLimit gasLimit l).1 = ([], []))
    (htxs : (filter costLimit gasLimit l).2.txs = l.txs) :
    Separates p costLimit gasLimit l := by
  refine ⟨?_, ?_, ?_⟩
  · rw [hresult, List.filter_eq_nil_iff.mpr fun tx htx => by simp [hp tx htx]]
  · rw [hresult, List.filter_eq_nil_iff.mpr fun tx _ => by simp [invalidated_eq_false hp tx]]
  · rw [htxs, List.filter_eq_self.mpr fun tx htx => by
      simp [hp tx htx, invalidated_eq_false hp tx]]

theorem invalidated_iff (hstrict : l.strict = true) (tx : Transaction) :
    invalidated p l tx = decide (lowestNonce (l.txs.filter p) < tx.nonce) := by
  rw [Bool.eq_iff_iff, decide_eq_true_iff, lowestNonce_lt_iff, invalidated, hstrict,
    Bool.true_and, List.any_eq_true]
  constructor
  · rintro ⟨other, hother, hboth⟩
    obtain ⟨hp, hlt⟩ := Bool.and_eq_true_iff.mp hboth
    exact ⟨other, List.mem_filter.mpr ⟨hother, hp⟩, of_decide_eq_true hlt⟩
  · rintro ⟨other, hother, hlt⟩
    obtain ⟨hmem, hp⟩ := List.mem_filter.mp hother
    exact ⟨other, hmem, Bool.and_eq_true_iff.mpr ⟨hp, decide_eq_true hlt⟩⟩

theorem separates_exceeds (hcap : Capped l) :
    Separates (exceeds costLimit gasLimit) costLimit gasLimit l := by
  rcases Decidable.em (l.costcap ≤ costLimit ∧ l.gascap ≤ gasLimit) with hcaps | hcaps
  · have hp : ∀ tx ∈ l.txs, exceeds costLimit gasLimit tx = false := fun tx htx =>
      exceeds_eq_false_iff.mpr ⟨BitVec.le_trans (hcap tx htx).1 hcaps.1,
        UInt64.le_trans (hcap tx htx).2 hcaps.2⟩
    refine separates_of_idle hp ?_ ?_
    · rw [filter, if_pos hcaps]
    · rw [filter, if_pos hcaps]
  · rcases Bool.eq_false_or_eq_true (l.txs.filter (exceeds costLimit gasLimit)).isEmpty
      with hnone | hsome
    · refine separates_of_idle (filter_exceeds_eq_nil hnone) ?_ ?_
      · rw [filter, if_neg hcaps]
        dsimp only
        rw [if_pos hnone]
      · rw [filter, if_neg hcaps]
        dsimp only
        rw [if_pos hnone]
    · rcases Bool.eq_false_or_eq_true l.strict with hstrict | hstrict
      · have hfilter : (filter costLimit gasLimit l).1 =
            (l.txs.filter (exceeds costLimit gasLimit),
              (l.txs.filter fun tx => !exceeds costLimit gasLimit tx).filter fun tx =>
                lowestNonce (l.txs.filter (exceeds costLimit gasLimit)) < tx.nonce) ∧
            (filter costLimit gasLimit l).2.txs =
              (l.txs.filter fun tx => !exceeds costLimit gasLimit tx).filter fun tx =>
                ¬ lowestNonce (l.txs.filter (exceeds costLimit gasLimit)) < tx.nonce := by
          rw [filter, if_neg hcaps]
          dsimp only
          rw [hsome, hstrict]
          exact ⟨rfl, rfl⟩
        refine ⟨by rw [hfilter.1], ?_, ?_⟩
        · rw [hfilter.1, List.filter_filter]
          refine List.filter_congr fun tx _ => ?_
          rw [invalidated_iff hstrict, Bool.and_comm]
        · rw [hfilter.2, List.filter_filter]
          refine List.filter_congr fun tx _ => ?_
          rw [invalidated_iff hstrict, Bool.and_comm, decide_not]
      · have hfilter : (filter costLimit gasLimit l).1 =
            (l.txs.filter (exceeds costLimit gasLimit), []) ∧
            (filter costLimit gasLimit l).2.txs =
              l.txs.filter fun tx => !exceeds costLimit gasLimit tx := by
          rw [filter, if_neg hcaps]
          dsimp only
          rw [hsome, hstrict]
          exact ⟨rfl, rfl⟩
        have hlax : ∀ tx, invalidated (exceeds costLimit gasLimit) l tx = false := fun tx => by
          rw [invalidated, hstrict, Bool.false_and]
        refine ⟨by rw [hfilter.1], ?_, ?_⟩
        · rw [hfilter.1]
          refine (List.filter_eq_nil_iff.mpr fun tx _ => ?_).symm
          simp [hlax tx]
        · rw [hfilter.2]
          refine List.filter_congr fun tx _ => ?_
          rw [hlax tx, Bool.not_false, Bool.and_true]

end Scan

section Costs

variable {costLimit : Uint256} {gasLimit : UInt64} {l : TxsList} {tx : Transaction}

theorem toNat_cost (tx : Transaction) : tx.cost.toNat = integerCost tx % 2 ^ 256 := by
  have hgas : (BitVec.ofNat 256 tx.gas.toNat).toNat = tx.gas.toNat := by
    rw [BitVec.toNat_ofNat]
    exact Nat.mod_eq_of_lt (Nat.lt_trans tx.gas.toNat_lt (by decide))
  rw [Transaction.cost, BitVec.toNat_add, BitVec.toNat_mul, hgas, integerCost, Nat.add_comm,
    Nat.add_mod_mod]

/-- No transaction with room in the block has a cost above the limit that wraps around to
one within it. -/
def Unwrapped (costLimit : Uint256) (gasLimit : UInt64) (l : TxsList) : Prop :=
  ∀ tx ∈ l.txs, tx.gas ≤ gasLimit → tx.cost ≤ costLimit → integerCost tx ≤ costLimit.toNat

theorem exceeds_eq_iff : exceeds costLimit gasLimit tx = exceedsIntegers costLimit gasLimit tx ↔
    (tx.gas ≤ gasLimit → tx.cost ≤ costLimit → integerCost tx ≤ costLimit.toNat) := by
  have hcost : tx.cost ≤ costLimit ↔ integerCost tx % 2 ^ 256 ≤ costLimit.toNat := by
    rw [BitVec.le_def, toNat_cost]
  have hgas : gasLimit < tx.gas ↔ ¬ tx.gas ≤ gasLimit := UInt64.not_le.symm
  have hlt : costLimit < tx.cost ↔ ¬ tx.cost ≤ costLimit := BitVec.not_le.symm
  have hmod := Nat.mod_le (integerCost tx) (2 ^ 256)
  rw [exceeds, exceedsIntegers, Bool.eq_iff_iff, Bool.or_eq_true_iff, Bool.or_eq_true_iff,
    decide_eq_true_iff, decide_eq_true_iff, decide_eq_true_iff, hgas, hlt, hcost]
  rcases Decidable.em (tx.gas ≤ gasLimit) with hroom | hroom
  · simp only [hroom, not_true_eq_false, false_or, true_imp_iff]
    omega
  · simp [hroom]

theorem filter_eq_filter_iff {p q : Transaction → Bool} {txs : List Transaction} :
    txs.filter p = txs.filter q ↔ ∀ tx ∈ txs, p tx = q tx := by
  constructor
  · intro heq tx htx
    have hmem : tx ∈ txs.filter p ↔ tx ∈ txs.filter q := by rw [heq]
    rw [List.mem_filter, List.mem_filter, and_iff_right htx, and_iff_right htx] at hmem
    exact Bool.eq_iff_iff.mpr hmem
  · exact fun heq => List.filter_congr heq

theorem invalidated_congr {p q : Transaction → Bool} (h : ∀ tx ∈ l.txs, p tx = q tx)
    (tx : Transaction) : invalidated p l tx = invalidated q l tx := by
  rw [invalidated, invalidated]
  congr 1
  rw [Bool.eq_iff_iff, List.any_eq_true, List.any_eq_true]
  exact exists_congr fun other => and_congr_right fun hother => by rw [h other hother]

theorem separates_iff (hcap : Capped l) :
    Separates (exceedsIntegers costLimit gasLimit) costLimit gasLimit l ↔
      Unwrapped costLimit gasLimit l := by
  have hscan : Separates (exceeds costLimit gasLimit) costLimit gasLimit l :=
    separates_exceeds hcap
  constructor
  · intro hexact tx htx
    refine exceeds_eq_iff.mp ?_
    exact filter_eq_filter_iff.mp (hscan.removed.symm.trans hexact.removed) tx htx
  · intro hunwrapped
    have hsame : ∀ tx ∈ l.txs, exceeds costLimit gasLimit tx =
        exceedsIntegers costLimit gasLimit tx := fun tx htx =>
      exceeds_eq_iff.mpr (hunwrapped tx htx)
    refine ⟨hscan.removed.trans (List.filter_congr hsame), hscan.invalids.trans ?_,
      hscan.kept.trans ?_⟩
    · refine List.filter_congr fun tx htx => ?_
      rw [hsame tx htx, invalidated_congr hsame]
    · refine List.filter_congr fun tx htx => ?_
      rw [hsame tx htx, invalidated_congr hsame]

end Costs

/-- With every history of a list, the caps save only scans that find nothing, and the filter
removes what exceeds the limits over the integers just if no cost wraps around. -/
theorem filter_exact (strict : Bool) (history : List ListOperation) (costLimit : Uint256)
    (gasLimit : UInt64) :
    Separates (exceeds costLimit gasLimit) costLimit gasLimit (built strict history) ∧
      (Separates (exceedsIntegers costLimit gasLimit) costLimit gasLimit (built strict history) ↔
        Unwrapped costLimit gasLimit (built strict history)) :=
  ⟨separates_exceeds (capped_built strict history), separates_iff (capped_built strict history)⟩

def toyTransfer (gasPrice : Nat) : Transaction :=
  .legacy
    { nonce := 0
      gasPrice := BitVec.ofNat 256 gasPrice
      gas := 2
      toAddress := none
      fromAddress := none
      value := 5
      data := []
      v := 27
      r := 1
      s := 2 }

/-- A price of one half of 2 ^ 256 for two units of gas costs nothing but the value, so an
account with a balance of five keeps the transaction. -/
theorem filter_keeps_wrapped :
    (filter 5 21000 (built true [.add (toyTransfer (2 ^ 255)) 10])).2.txs =
        [toyTransfer (2 ^ 255)] ∧
      exceedsIntegers 5 21000 (toyTransfer (2 ^ 255)) = true := by
  decide +kernel

end N42.FilteredLists
