import N42.RevisionRuns
import N42.HeaderSealing

/-!
After a revert every question is answered as it was when the snapshot was taken, as long as
what happened since was journaled in full.  An increase that was transferred to an account
of the database is not.
-/

namespace N42.RevisionSafety

open HeaderSealing StateObjects IntraBlock IntraBlock.IntraBlockState
open StateOperations StateFinalization StateCovers StateMoves StateSoundness
open StateBoundaries StateAnswers StateLoading StateViews RevisionRuns UndoLogs

variable {db : Backend} {deep : Prop} {s t : IntraBlockState db}
  {saved : Nat → IntraBlockState db}

theorem findIdx_id {marks : List Mark} {m : Mark}
    (hids : marks.Pairwise fun m n => m.id < n.id) (hm : m ∈ marks) :
    marks[marks.findIdx fun rev => m.id ≤ rev.id]? = some m := by
  induction marks with
  | nil => cases hm
  | cons first rest ih =>
    obtain ⟨hfirst, hrest⟩ := List.pairwise_cons.mp hids
    rcases List.mem_cons.mp hm with rfl | hm
    · simp [List.findIdx_cons]
    · have hlt := hfirst m hm
      have hbelow : decide (m.id ≤ first.id) = false := by
        rw [decide_eq_false_iff_not]
        omega
      rw [List.findIdx_cons, hbelow]
      simpa using ih hrest hm

theorem revertToSnapshot_eq_some {revid : Nat} (h : s.revertToSnapshot revid = some t) :
    ∃ rev idx x, s.validRevisions[idx]? = some rev ∧ rev.id = revid ∧
      undoAll undoEntry (above s.entries rev) s = some x ∧ t = cutBack x rev.depth idx := by
  unfold revertToSnapshot at h
  simp only at h
  split at h
  · cases h
  · rename_i rev hrev
    split at h
    · rename_i hid
      obtain ⟨y, hy, rfl⟩ := Option.map_eq_some_iff.mp h
      obtain ⟨x, hx, rfl⟩ := Option.map_eq_some_iff.mp hy
      exact ⟨rev, _, x, hrev, hid, hx, rfl⟩
    · cases h

theorem exists_revertToSnapshot {m : Mark} (h : Restorable deep saved s)
    (hm : m ∈ s.validRevisions) : ∃ t, s.revertToSnapshot m.id = some t := by
  obtain ⟨x, hx, -⟩ := h.recovers.restores m hm
  have hrev := findIdx_id h.ids hm
  unfold revertToSnapshot
  simp only [hrev, if_true]
  have hjournal : s.revertJournal m.depth = some
      { x with entries := x.entries.drop (x.entries.length - m.depth) } := by
    unfold revertJournal
    rw [above] at hx
    rw [hx]
    rfl
  rw [hjournal]
  exact ⟨_, rfl⟩

theorem Restorable.reverted {revid : Nat} (h : Restorable deep saved s)
    (hrevert : s.revertToSnapshot revid = some t) :
    Covers deep (saved revid) t ∧ Restorable deep saved t ∧
      t.nextRevisionID = s.nextRevisionID := by
  obtain ⟨rev, idx, x, hrev, rfl, hx, rfl⟩ := revertToSnapshot_eq_some hrevert
  obtain ⟨hcovers, hrestorable⟩ := h.back hrev hx
  exact ⟨hcovers, hrestorable, (longer_undoAll hx).nextRevisionID⟩

def Extends (next : Nat) (saved saved' : Nat → IntraBlockState db) : Prop :=
  ∀ id < next, saved' id = saved id

theorem restorable_step {x : Step} (h : Restorable deep saved s) (hallowed : Allowed deep s x)
    (hstep : step s x = some t) :
    ∃ saved', Restorable deep saved' t ∧ s.nextRevisionID ≤ t.nextRevisionID ∧
      Extends s.nextRevisionID saved saved' := by
  have hkeep : ∀ {id}, Extends id saved saved := fun _ _ => rfl
  cases x with
  | op op =>
    by_cases hmark : op = .snapshot
    · subst hmark
      cases hstep
      exact ⟨_, h.snapshot, Nat.le_succ _,
        fun id hid => Function.update_of_ne (Nat.ne_of_lt hid) _ _⟩
    · by_cases hback : ∃ revid, op = .revertToSnapshot revid
      · obtain ⟨revid, rfl⟩ := hback
        obtain ⟨-, hrestorable, hnext⟩ := Restorable.reverted h hstep
        exact ⟨saved, hrestorable, Nat.le_of_eq hnext.symm, hkeep⟩
      · have hmoves := perform_moves hallowed.1 hallowed.2 hmark
          (fun revid hop => hback ⟨revid, hop⟩) hstep
        exact ⟨saved, h.moves hmoves, Nat.le_of_eq (moves_revisions hmoves).2.symm, hkeep⟩
  | prepare thash bhash txIndex =>
    cases hstep
    have hsound : Sound deep (prepare thash bhash txIndex s) :=
      ⟨h.sound.objects, h.sound.increases, AccessLists.AccessList.placed_new,
        h.sound.dirties, h.sound.stateObjectsDirty⟩
    exact ⟨saved, restorable_of_none hsound hallowed, Nat.le_refl _, hkeep⟩
  | finalizeTx rules =>
    cases hstep
    exact ⟨saved, restorable_of_none (sound_finalizeTx rules h.sound) rfl,
      Nat.le_of_eq (moves_revisions (loadPending_moves deep s)).2.symm, hkeep⟩
  | softFinalise =>
    cases hstep
    exact ⟨saved, restorable_of_none (sound_softFinalise h.sound) rfl, Nat.le_refl _, hkeep⟩

theorem restorable_run {xs : List Step} (hrun : Run deep s xs t)
    (h : Restorable deep saved s) :
    ∃ saved', Restorable deep saved' t ∧ Extends s.nextRevisionID saved saved' := by
  induction hrun generalizing saved with
  | nil s => exact ⟨saved, h, fun _ _ => rfl⟩
  | cons hallowed hstep hrest ih =>
    obtain ⟨saved₁, h₁, hle, hext₁⟩ := restorable_step h hallowed hstep
    obtain ⟨saved₂, h₂, hext₂⟩ := ih h₁
    exact ⟨saved₂, h₂, fun id hid =>
      (hext₂ id (Nat.lt_of_lt_of_le hid hle)).trans (hext₁ id hid)⟩

theorem restorable_new (saved : Nat → IntraBlockState db) :
    Restorable deep saved (IntraBlockState.new db) :=
  restorable_of_none (Sound.new db) rfl

/-- Whatever happened before the snapshot and since: going back leads to a state that can
stand for the one in which the snapshot was taken. -/
theorem revert_covers {before after : List Step}
    (hbefore : Run deep (IntraBlockState.new db) before s)
    (hafter : Run deep s.snapshot.2 after t)
    (hvalid : s.snapshot.1 ∈ t.validRevisions.map Mark.id) :
    ∃ u, t.revertToSnapshot s.snapshot.1 = some u ∧ Covers deep s u ∧ Sound deep s ∧
      Sound deep u := by
  obtain ⟨saved₁, h₁, -⟩ := restorable_run hbefore (restorable_new fun _ => IntraBlockState.new db)
  obtain ⟨saved₂, h₂, hext⟩ := restorable_run hafter h₁.snapshot
  obtain ⟨m, hm, hid⟩ := List.mem_map.mp hvalid
  obtain ⟨u, hu⟩ := exists_revertToSnapshot h₂ hm
  rw [hid] at hu
  obtain ⟨hcovers, hrestorable, -⟩ := Restorable.reverted h₂ hu
  have hsaved : saved₂ s.snapshot.1 = s.snapshot.2 :=
    (hext s.snapshot.1 (Nat.lt_succ_self _)).trans (Function.update_self _ _ _)
  rw [hsaved] at hcovers
  have hsnapshot : Covers deep s s.snapshot.2 :=
    covers_of_same rfl rfl rfl ⟨rfl, rfl⟩ rfl fun _ => ⟨rfl, rfl⟩
  exact ⟨u, hu, hsnapshot.trans hcovers, h₁.sound, hrestorable.sound⟩

/-- Every question is answered as it was when the snapshot was taken. -/
theorem revertToSnapshot_restores {before after : List Step}
    (hbefore : Run False (IntraBlockState.new db) before s)
    (hafter : Run False s.snapshot.2 after t)
    (hvalid : s.snapshot.1 ∈ t.validRevisions.map Mark.id) :
    ∃ u, t.revertToSnapshot s.snapshot.1 = some u ∧ ∀ q : Query, (ask u q).1 = (ask s q).1 := by
  obtain ⟨u, hu, hcovers, -⟩ := revert_covers hbefore hafter hvalid
  exact ⟨u, hu, ask_covers hcovers⟩

def performAll (s : IntraBlockState db) (ops : List Operation) : Option (IntraBlockState db) :=
  ops.foldlM perform s

def toyBackend : Backend where
  lib := toyPrimitives
  reader :=
    { readAccountData := fun a =>
        .ok (if a = toyAddress 1 then some ⟨true, 0, 5, default, default, 0⟩ else none)
      readAccountStorage := fun _ _ _ => .ok none
      readAccountCode := fun _ _ _ => .ok none
      readAccountCodeSize := fun _ _ _ => .ok 0
      readAccountIncarnation := fun _ => .ok 0 }

/-- The balance of an unread account is increased by ten and then read.  The revert takes the
increase back, but not from the object that has it by then. -/
theorem reverted_increase_remains :
    (getBalance (toyAddress 1) (IntraBlockState.new toyBackend)).1 = 5 ∧
      ((performAll (IntraBlockState.new toyBackend).snapshot.2
        [.addBalance (toyAddress 1) 10, .ask (.getBalance (toyAddress 1))]).bind
          (revertToSnapshot (IntraBlockState.new toyBackend).snapshot.1)).map
        (fun u => (getBalance (toyAddress 1) u).1) = some 15 := by
  decide +kernel

def toyEdits (s : IntraBlockState toyBackend) : IntraBlockState toyBackend :=
  setCode (toyAddress 2) (some [1]) (addBalance (toyAddress 2) 4 (setNonce (toyAddress 1) 3 s))

theorem run_toyEdits (deep : Prop) : Run deep (IntraBlockState.new toyBackend).snapshot.2
    [.op (.setNonce (toyAddress 1) 3), .op (.addBalance (toyAddress 2) 4),
      .op (.setCode (toyAddress 2) (some [1]))]
    (toyEdits (IntraBlockState.new toyBackend).snapshot.2) := by
  have hread : exposed (IntraBlockState.new toyBackend).snapshot.2 (toyAddress 1) = false := by
    decide +kernel
  have hnone : (effective (addBalance (toyAddress 2) 4 (setNonce (toyAddress 1) 3
      (IntraBlockState.new toyBackend).snapshot.2)) (toyAddress 2)).map
        (codeNow toyBackend (toyAddress 2)) = some none := by
    decide +kernel
  refine .cons ⟨fun _ => hread, fun _ => trivial⟩ rfl
    (.cons ⟨fun _ hripemd => absurd hripemd (by decide), fun _ => trivial⟩ rfl
      (.cons ⟨fun _ => ⟨by decide +kernel, fun _ so hso => ?_⟩, fun _ => trivial⟩ rfl (.nil _)))
  rw [hso] at hnone
  exact Or.inr (Or.inr (Option.some.inj hnone))

theorem edits_restored :
    (getNonce (toyAddress 1) (toyEdits (IntraBlockState.new toyBackend).snapshot.2)).1 = 3 ∧
      ∃ u, (toyEdits (IntraBlockState.new toyBackend).snapshot.2).revertToSnapshot
          (IntraBlockState.new toyBackend).snapshot.1 = some u ∧
        ∀ q : Query, (ask u q).1 = (ask (IntraBlockState.new toyBackend) q).1 := by
  refine ⟨by decide +kernel, ?_⟩
  exact revertToSnapshot_restores (.nil _) (run_toyEdits False) (by decide +kernel)

end N42.RevisionSafety
