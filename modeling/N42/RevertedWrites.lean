import N42.RevisionSafety
import N42.CommittedWrites

/-!
A run that was reverted leaves nothing behind for the commit, unless it destroyed a contract
of the same block: that it was new is then forgotten.
-/

namespace N42.RevertedWrites

open ChainTypes HeaderSealing StateObjects IntraBlock StateOperations
open StateFinalization StateLoading StateCovers StateMoves StateBoundaries
open RevisionRuns RevisionSafety CommittedWrites UndoLogs

variable {db : Backend} {s t : IntraBlockState db}

/-- The end of the transaction, the commit of the block and the root are those of the state
in which the snapshot was taken. -/
theorem reverted_run_commits_nothing {before after : List Step}
    (hbefore : Run True (IntraBlockState.new db) before s)
    (hafter : Run True s.snapshot.2 after t)
    (hvalid : s.snapshot.1 ∈ t.validRevisions.map Mark.id) (rules rules' : Rules) :
    ∃ u, t.revertToSnapshot s.snapshot.1 = some u ∧
      finalValues (finalizeTx rules u).1 = finalValues (finalizeTx rules s).1 ∧
      finalValues (commitBlock rules' (finalizeTx rules u).2).1 =
        finalValues (commitBlock rules' (finalizeTx rules s).2).1 ∧
      rootHash (finalizeTx rules u).2 = rootHash (finalizeTx rules s).2 ∧
      rootHash (commitBlock rules' (finalizeTx rules u).2).2 =
        rootHash (commitBlock rules' (finalizeTx rules s).2).2 := by
  obtain ⟨u, hu, hcovers, hsound, -⟩ := revert_covers hbefore hafter hvalid
  obtain ⟨htx, hafterTx⟩ := finalizeTx_covers rules hcovers hsound
  obtain ⟨hblock, hafterBlock⟩ := commitBlock_covers rules' hafterTx (sound_finalizeTx rules hsound)
  exact ⟨u, hu, htx, hblock, rootHash_covers hafterTx, rootHash_covers hafterBlock⟩

def toyContract : IntraBlockState toyBackend :=
  setState (toyAddress 2) default 1 (setNonce (toyAddress 2) 1
    (createAccount (toyAddress 2) true (IntraBlockState.new toyBackend)))

def toyRules : Rules where
  isHomestead := true
  isSpuriousDragon := true
  isIstanbul := true
  isBerlin := true
  isLondon := true
  isShanghai := false
  isEip1559FeeCollector := false
  isAura := false

/-- The contract is destroyed and the destruction is reverted.  Without it the commit creates
the contract, after it the commit does not. -/
theorem reverted_destruction_drops_creation :
    ((commitBlock toyRules (finalizeTx toyRules toyContract).2).1
        (toyAddress 2)).createContract = true ∧
      ((selfdestruct (toyAddress 2) toyContract.snapshot.2).2.revertToSnapshot
        toyContract.snapshot.1).map (fun u =>
          ((commitBlock toyRules (finalizeTx toyRules u).2).1
            (toyAddress 2)).createContract) = some false := by
  decide +kernel

theorem edits_commit_nothing :
    ((finalizeTx toyRules (toyEdits (IntraBlockState.new toyBackend).snapshot.2)).1
        (toyAddress 1)).updateAccountData.isSome = true ∧
      ∃ u, (toyEdits (IntraBlockState.new toyBackend).snapshot.2).revertToSnapshot
          (IntraBlockState.new toyBackend).snapshot.1 = some u ∧
        finalValues (finalizeTx toyRules u).1 =
          finalValues (finalizeTx toyRules (IntraBlockState.new toyBackend)).1 ∧
        rootHash (finalizeTx toyRules u).2 =
          rootHash (finalizeTx toyRules (IntraBlockState.new toyBackend)).2 := by
  refine ⟨by decide +kernel, ?_⟩
  obtain ⟨u, hu, htx, -, hroot, -⟩ := reverted_run_commits_nothing (.nil _)
    (run_toyEdits True) (by decide +kernel) toyRules toyRules
  exact ⟨u, hu, htx, hroot⟩

end N42.RevertedWrites
