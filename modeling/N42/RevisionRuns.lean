import N42.StateAnswers
import N42.StateBoundaries
import N42.StateRecovery

/-!
Runs of operations with snapshots and reverts, through any number of transactions.  Going
back to a snapshot restores what could be seen when it was taken.
-/

namespace N42.RevisionRuns

open ChainTypes StateObjects IntraBlock IntraBlock.IntraBlockState
open StateOperations StateFinalization StateLoading StateCovers
open EntryReversal StateMoves StateSoundness StateRecovery UndoLogs
open Relation (ReflTransGen)

variable {db : Backend} {deep safe : Prop} {s t : IntraBlockState db} {a : Address}

inductive Step where
  | op (op : Operation)
  | prepare (thash bhash : Hash) (txIndex : Nat)
  | finalizeTx (rules : Rules)
  | softFinalise

def step (s : IntraBlockState db) : Step → Option (IntraBlockState db)
  | .op op => perform s op
  | .prepare thash bhash txIndex => some (prepare thash bhash txIndex s)
  | .finalizeTx rules => some (finalizeTx rules s).2
  | .softFinalise => some (softFinalise s)

/-- As long as there is a snapshot to go back to, what happens can be reverted. -/
def Allowed (deep : Prop) (s : IntraBlockState db) : Step → Prop
  | .op op => (s.validRevisions ≠ [] → Revertible deep s op) ∧ (deep → Settling s op)
  | .prepare _ _ _ => s.validRevisions = []
  | .finalizeTx _ | .softFinalise => True

inductive Run (deep : Prop) : IntraBlockState db → List Step → IntraBlockState db → Prop
  | nil (s : IntraBlockState db) : Run deep s [] s
  | cons {s t u : IntraBlockState db} {x : Step} {xs : List Step}
      (hallowed : Allowed deep s x) (hstep : step s x = some t) (hrest : Run deep t xs u) :
      Run deep s (x :: xs) u

/-- Every snapshot that is still valid can be gone back to. -/
structure Restorable (deep : Prop) (saved : Nat → IntraBlockState db)
    (s : IntraBlockState db) : Prop where
  sound : Sound deep s
  recovers : Recovers undoEntry (Covers deep) saved s.validRevisions s.entries s
  saved_sound : ∀ m ∈ s.validRevisions, Sound deep (saved m.id)
  ids : s.validRevisions.Pairwise fun m n => m.id < n.id
  bound : ∀ m ∈ s.validRevisions, m.id < s.nextRevisionID

variable {saved : Nat → IntraBlockState db}

theorem restorable_of_none (h : Sound deep s) (hnone : s.validRevisions = []) :
    Restorable deep saved s := by
  refine ⟨h, ?_, ?_, ?_, ?_⟩
  · rw [hnone]
    exact recovers_nil _ _
  · rw [hnone]
    exact fun m hm => absurd hm List.not_mem_nil
  · rw [hnone]
    exact .nil
  · rw [hnone]
    exact fun m hm => absurd hm List.not_mem_nil

theorem move_revisions (h : Move deep safe s t) :
    t.validRevisions = s.validRevisions ∧ t.nextRevisionID = s.nextRevisionID := by
  cases h with
  | quiet hchanges =>
    exact ⟨congrArg Changes.validRevisions hchanges, congrArg Changes.nextRevisionID hchanges⟩
  | load a hsafe => exact (getStateObject_frame s a).revisions
  | remember hlive hcovers => exact ⟨rfl, rfl⟩
  | edit hlive hedit => exact ⟨rfl, rfl⟩
  | create hlive hfresh =>
    rw [settled_eq]
    exact ⟨rfl, rfl⟩
  | reset hlive hfresh =>
    rw [settled_eq]
    exact ⟨rfl, rfl⟩
  | increase hlive amount => exact ⟨rfl, rfl⟩
  | touch hlive hsafe =>
    unfold touch
    simp only
    split
    · exact ⟨rfl, rfl⟩
    · exact ⟨rfl, rfl⟩
  | refund refund => exact ⟨rfl, rfl⟩
  | log log => exact ⟨rfl, rfl⟩
  | address a =>
    unfold addAddressToAccessList
    split
    · exact ⟨rfl, rfl⟩
    · exact ⟨rfl, rfl⟩
  | slot hadd =>
    obtain ⟨⟨addrMod, slotMod, al⟩, hal, rfl⟩ := Option.map_eq_some_iff.mp hadd
    simp only
    rw [appendIf_eq _ _ rfl, appendIf_eq _ _ rfl]
    exact ⟨rfl, rfl⟩
  | setStorage hlive storage hsafe => exact ⟨rfl, rfl⟩
  | setIncarnation hlive incarnation hsafe hdeep => exact ⟨rfl, rfl⟩

theorem moves_revisions (h : ReflTransGen (Move deep safe) s t) :
    t.validRevisions = s.validRevisions ∧ t.nextRevisionID = s.nextRevisionID := by
  induction h with
  | refl => exact ⟨rfl, rfl⟩
  | tail _ hmove ih =>
    obtain ⟨hvalid, hnext⟩ := move_revisions hmove
    exact ⟨hvalid.trans ih.1, hnext.trans ih.2⟩

theorem Restorable.moves (h : Restorable deep saved s)
    (hmoves : ReflTransGen (Move deep (s.validRevisions ≠ [])) s t) :
    Restorable deep saved t := by
  obtain ⟨hvalid, hnext⟩ := moves_revisions hmoves
  have hsound := moves_sound hmoves h.sound
  by_cases hnone : s.validRevisions = []
  · exact restorable_of_none hsound (hvalid.trans hnone)
  · have htrue : (s.validRevisions ≠ []) = True := eq_true hnone
    rw [htrue] at hmoves
    obtain ⟨changes, hentries, hundoes⟩ := undone_of_moves hmoves h.sound
    refine ⟨hsound, ?_, ?_, ?_, ?_⟩
    · rw [hvalid, hentries]
      exact h.recovers.extend (undoEntry_respects db deep) Covers.trans hundoes
    · rw [hvalid]
      exact h.saved_sound
    · rw [hvalid]
      exact h.ids
    · rw [hvalid, hnext]
      exact h.bound

theorem Restorable.snapshot (h : Restorable deep saved s) :
    Restorable deep (Function.update saved s.nextRevisionID s.snapshot.2) s.snapshot.2 := by
  have hcovers : Covers deep s s.snapshot.2 :=
    covers_of_same rfl rfl rfl ⟨rfl, rfl⟩ rfl fun _ => ⟨rfl, rfl⟩
  have hsound := h.sound.of_covers hcovers
  have hextended : Recovers undoEntry (Covers deep) saved s.validRevisions s.entries s.snapshot.2 :=
    h.recovers.extend (undoEntry_respects db deep) Covers.trans (undoes_nil hcovers)
  have hfresh : ∀ m ∈ s.validRevisions, m.id ≠ s.nextRevisionID :=
    fun m hm => Nat.ne_of_lt (h.bound m hm)
  have hmem : ∀ m ∈ s.snapshot.2.validRevisions,
      m ∈ s.validRevisions ∨ m = ⟨s.nextRevisionID, s.entries.length⟩ := by
    intro m hm
    simpa [IntraBlockState.snapshot] using hm
  refine ⟨hsound, hextended.mark hfresh (Covers.refl _), fun m hm => ?_, ?_, fun m hm => ?_⟩
  · rcases hmem m hm with hold | rfl
    · rw [Function.update_of_ne (hfresh m hold)]
      exact h.saved_sound m hold
    · rw [Function.update_self]
      exact hsound
  · refine List.pairwise_append.mpr ⟨h.ids, List.pairwise_singleton _ _, ?_⟩
    intro m hm n hn
    rw [List.mem_singleton.mp hn]
    exact h.bound m hm
  · rcases hmem m hm with hold | rfl
    · exact Nat.lt_succ_of_lt (h.bound m hold)
    · exact Nat.lt_succ_self _

/-- Reverting adds to the journal at most, and leaves the snapshots alone. -/
structure Longer (s t : IntraBlockState db) : Prop where
  entries : ∃ changes, t.entries = changes ++ s.entries
  validRevisions : t.validRevisions = s.validRevisions
  nextRevisionID : t.nextRevisionID = s.nextRevisionID

theorem Longer.trans {u : IntraBlockState db} (h : Longer s t) (h' : Longer t u) : Longer s u := by
  obtain ⟨older, holder⟩ := h.entries
  obtain ⟨newer, hnewer⟩ := h'.entries
  exact ⟨⟨newer ++ older, by rw [hnewer, holder, List.append_assoc]⟩,
    h'.validRevisions.trans h.validRevisions, h'.nextRevisionID.trans h.nextRevisionID⟩

theorem longer_of_same (hentries : t.entries = s.entries)
    (hvalid : t.validRevisions = s.validRevisions)
    (hnext : t.nextRevisionID = s.nextRevisionID) : Longer s t :=
  ⟨⟨[], hentries⟩, hvalid, hnext⟩

theorem longer_getStateObject (s : IntraBlockState db) (a : Address) :
    Longer s (s.getStateObject a).2 := by
  have hframe := getStateObject_frame s a
  exact ⟨⟨_, hframe.entries⟩, hframe.revisions.1, hframe.revisions.2⟩

theorem longer_put (so : StateObject) : Longer s (s.put a so) :=
  longer_of_same rfl rfl rfl

theorem longer_modifyObject {f : StateObject → StateObject}
    (h : s.modifyObject a f = some t) : Longer s t := by
  rw [modifyObject_eq] at h
  obtain ⟨so, -, rfl⟩ := Option.map_eq_some_iff.mp h
  exact (longer_getStateObject s a).trans (longer_put _)

theorem longer_settled : Longer s (settled s a) := by
  rw [settled_eq]
  refine ⟨?_, rfl, rfl⟩
  unfold settled
  split
  · rw [setTransferred_eq]
    exact ⟨[.balanceIncreaseTransfer a], rfl⟩
  · exact ⟨[], rfl⟩

theorem longer_revertEntry {e : JournalEntry} (h : s.revertEntry e = some t) : Longer s t := by
  cases e with
  | createObjectChange a =>
    cases h
    exact longer_of_same rfl rfl rfl
  | resetObjectChange a prev =>
    cases h
    rw [setStateObject_snd]
    exact longer_settled.trans (longer_put _)
  | selfdestructChange a prev balance =>
    rw [revertEntry_selfdestruct] at h
    cases h
    cases effective s a with
    | none => exact longer_getStateObject s a
    | some so => exact (longer_getStateObject s a).trans (longer_put _)
  | balanceChange a prev => exact longer_modifyObject h
  | balanceIncrease a increase =>
    cases h
    unfold revertIncrease
    split
    · exact longer_of_same rfl rfl rfl
    · exact longer_of_same rfl rfl rfl
  | balanceIncreaseTransfer a =>
    cases h
    rw [setTransferred_eq]
    exact longer_of_same rfl rfl rfl
  | nonceChange a prev => exact longer_modifyObject h
  | storageChange a key prevalue => exact longer_modifyObject h
  | fakeStorageChange a key prevalue =>
    rw [revertEntry_fakeStorage] at h
    obtain ⟨so, -, hmap⟩ := Option.bind_eq_some_iff.mp h
    obtain ⟨fake, -, rfl⟩ := Option.map_eq_some_iff.mp hmap
    exact (longer_getStateObject s a).trans (longer_put _)
  | codeChange a prevhash prevcode => exact longer_modifyObject h
  | refundChange prev =>
    cases h
    exact longer_of_same rfl rfl rfl
  | addLogChange txhash =>
    have hlog : s.revertLog txhash = some t := h
    unfold revertLog at hlog
    split at hlog
    · cases hlog
    · cases hlog
      exact longer_of_same rfl rfl rfl
  | touchChange a =>
    cases h
    exact longer_of_same rfl rfl rfl
  | accessListAddAccountChange a =>
    cases h
    exact longer_of_same rfl rfl rfl
  | accessListAddSlotChange a slot =>
    obtain ⟨al, -, rfl⟩ := Option.map_eq_some_iff.mp h
    exact longer_of_same rfl rfl rfl

theorem longer_undoAll {log : List JournalEntry} (h : undoAll undoEntry log s = some t) :
    Longer s t := by
  induction log generalizing s with
  | nil =>
    cases h
    exact longer_of_same rfl rfl rfl
  | cons e log ih =>
    obtain ⟨m, hm, hrest⟩ := Option.bind_eq_some_iff.mp h
    rw [undoEntry_eq] at hm
    obtain ⟨x, hx, rfl⟩ := Option.map_eq_some_iff.mp hm
    have hdrop : Longer x (dropDirty e.dirtied x) := longer_of_same rfl rfl rfl
    exact ((longer_revertEntry hx).trans hdrop).trans (ih hrest)

theorem drop_longer {changes log : List JournalEntry} {depth : Nat}
    (h : depth ≤ log.length) :
    (changes ++ log).drop ((changes ++ log).length - depth) = log.drop (log.length - depth) := by
  have hlen : (changes ++ log).length - depth = changes.length + (log.length - depth) := by
    rw [List.length_append]
    omega
  rw [hlen, List.drop_length_add_append]

def cutBack (x : IntraBlockState db) (depth idx : Nat) : IntraBlockState db :=
  { x with
    entries := x.entries.drop (x.entries.length - depth)
    validRevisions := x.validRevisions.take idx }

theorem covers_cutBack (x : IntraBlockState db) (depth idx : Nat) :
    Covers deep x (cutBack x depth idx) :=
  covers_of_same rfl rfl rfl ⟨rfl, rfl⟩ rfl fun _ => ⟨rfl, rfl⟩

theorem Restorable.back {idx : Nat} {rev : Mark} {x : IntraBlockState db}
    (h : Restorable deep saved s) (hrev : s.validRevisions[idx]? = some rev)
    (hx : undoAll undoEntry (above s.entries rev) s = some x) :
    Covers deep (saved rev.id) (cutBack x rev.depth idx) ∧
      Restorable deep saved (cutBack x rev.depth idx) := by
  obtain ⟨hlt, hget⟩ := List.getElem?_eq_some_iff.mp hrev
  have hsplit : s.validRevisions = s.validRevisions.take idx ++
      rev :: s.validRevisions.drop (idx + 1) := by
    rw [← hget, List.cons_getElem_drop_succ, List.take_append_drop]
  have hmem : rev ∈ s.validRevisions := hget ▸ List.getElem_mem hlt
  have hlonger := longer_undoAll hx
  obtain ⟨changes, hchanges⟩ := hlonger.entries
  obtain ⟨hcovers, hrecovers⟩ := h.recovers.back (undoEntry_respects db deep) Covers.trans
    hsplit hx (covers_cutBack x rev.depth idx)
  have hentries : (cutBack x rev.depth idx).entries =
      s.entries.drop (s.entries.length - rev.depth) := by
    show x.entries.drop _ = _
    rw [hchanges]
    exact drop_longer (h.recovers.depth_le rev hmem)
  have hvalid : (cutBack x rev.depth idx).validRevisions = s.validRevisions.take idx := by
    show x.validRevisions.take idx = _
    rw [hlonger.validRevisions]
  have hold : ∀ m ∈ s.validRevisions.take idx, m ∈ s.validRevisions :=
    fun m hm => List.mem_of_mem_take hm
  refine ⟨hcovers, (h.saved_sound rev hmem).of_covers hcovers, ?_, ?_, ?_, ?_⟩
  · rw [hvalid, hentries]
    exact hrecovers
  · rw [hvalid]
    exact fun m hm => h.saved_sound m (hold m hm)
  · rw [hvalid]
    exact h.ids.sublist (List.take_sublist idx s.validRevisions)
  · rw [hvalid]
    have hnext : (cutBack x rev.depth idx).nextRevisionID = s.nextRevisionID :=
      hlonger.nextRevisionID
    rw [hnext]
    exact fun m hm => h.bound m (hold m hm)

end N42.RevisionRuns
