import N42.StateCovers

/-!
Reverting a journal entry in two states, one of which can stand for the other, leads to
two such states again.
-/

namespace N42.EntryReversal

open ChainTypes FiniteTables StateObjects IntraBlock
open IntraBlock.IntraBlockState StateViews StateLoading StateCovers
open UndoLogs (Respects)

variable {db : Backend} {deep : Prop} {s t : IntraBlockState db} {a : Address}

def dropDirty (dirtied : Option Address) (s : IntraBlockState db) : IntraBlockState db :=
  { s with dirties := dirtied.elim s.dirties fun account => s.dirties.erase account }

theorem undoEntry_eq (e : JournalEntry) (s : IntraBlockState db) :
    s.undoEntry e = (s.revertEntry e).map (dropDirty e.dirtied) :=
  rfl

theorem mem_of_mem_dropDirty {dirtied : Option Address}
    (h : a ∈ (dropDirty dirtied s).dirties) : a ∈ s.dirties := by
  cases dirtied with
  | none => exact h
  | some account => exact Multiset.mem_of_mem_erase h

theorem covers_dropDirty (dirtied : Option Address) (h : Covers deep s t) :
    Covers deep (dropDirty dirtied s) (dropDirty dirtied t) := by
  refine ⟨h.objects, fun b htracked => h.live b ?_, h.balanceInc, h.refund, h.logs,
    h.accessList, fun hdeep => ?_⟩
  · rcases htracked with hinc | ⟨hdeep, hdirty | hdirty⟩
    · exact Or.inl hinc
    · exact Or.inr ⟨hdeep, Or.inl (mem_of_mem_dropDirty hdirty)⟩
    · exact Or.inr ⟨hdeep, Or.inr hdirty⟩
  · refine ⟨?_, (h.dirty hdeep).2⟩
    show dirtied.elim t.dirties _ = dirtied.elim s.dirties _
    rw [(h.dirty hdeep).1]

theorem modifyObject_eq (f : StateObject → StateObject) :
    s.modifyObject a f = (effective s a).map fun so => (s.getStateObject a).2.put a (f so) := by
  rw [modifyObject, ← (getStateObject_spec s a).1]
  rcases s.getStateObject a with ⟨found, s'⟩
  cases found with
  | none => rfl
  | some so => rfl

variable {s' : IntraBlockState db}

theorem modifyObject_covers {f : StateObject → StateObject}
    (hf : ∀ so so', ObjectCovers db a deep so so' → ObjectCovers db a deep (f so) (f so'))
    (h : Covers deep s t) (hs : s.modifyObject a f = some s') :
    ∃ t', t.modifyObject a f = some t' ∧ Covers deep s' t' := by
  rw [modifyObject_eq, Option.map_eq_some_iff] at hs
  obtain ⟨so, hso, rfl⟩ := hs
  have hobject := h.objects a
  rw [hso] at hobject
  cases ht : effective t a with
  | none =>
    rw [ht] at hobject
    cases hobject
  | some so' =>
    rw [ht] at hobject
    cases hobject with
    | some hcovers =>
      refine ⟨_, by rw [modifyObject_eq, ht]; rfl, ?_⟩
      exact (h.getStateObject a).put (hf so so' hcovers)

theorem covers_balanceInc {m : Table Address BalanceIncrease} (h : Covers deep s t)
    (hother : ∀ b, b ≠ a → m.lookup b = s.balanceInc.lookup b)
    (hlookup : (m.lookup a).isSome = true → (s.balanceInc.lookup a).isSome = true)
    (hlive : (t.stateObjects a).isSome = (s.stateObjects a).isSome) :
    Covers deep { s with balanceInc := m } { t with balanceInc := m } := by
  refine ⟨fun b => ?_, fun b htracked => ?_, rfl, h.refund, h.logs, h.accessList, h.dirty⟩
  · by_cases hb : b = a
    · subst hb
      have hobject := h.objects b
      cases hs : s.stateObjects b with
      | some so =>
        have ht : (t.stateObjects b).isSome = true := by rw [hlive, hs]; rfl
        obtain ⟨so', ht⟩ := Option.isSome_iff_exists.mp ht
        rw [effective_of_live hs, effective_of_live ht] at hobject
        rw [effective_of_live (s := { s with balanceInc := m }) hs,
          effective_of_live (s := { t with balanceInc := m }) ht]
        exact hobject
      | none =>
        have ht : t.stateObjects b = none := by
          rw [← Option.not_isSome_iff_eq_none, hlive, hs]
          simp
        have hsame : effective { t with balanceInc := m } b =
            effective { s with balanceInc := m } b :=
          effective_congr (ht.trans hs.symm) fun _ => rfl
        rw [hsame]
        cases effective { s with balanceInc := m } b with
        | none => exact .none
        | some so => exact .some (.refl so)
    · have hs : effective { s with balanceInc := m } b = effective s b :=
        effective_congr rfl fun _ => hother b hb
      have ht : effective { t with balanceInc := m } b = effective t b :=
        effective_congr rfl fun _ => by
          show m.lookup b = t.balanceInc.lookup b
          rw [hother b hb, h.balanceInc]
      rw [hs, ht]
      exact h.objects b
  · apply h.live b
    rcases htracked with hinc | hdirty
    · left
      by_cases hb : b = a
      · subst hb
        exact hlookup hinc
      · rwa [← hother b hb]
    · exact Or.inr hdirty

theorem setTransferred_covers (flag : Bool) (h : Covers deep s t) :
    Covers deep (s.setTransferred a flag) (t.setTransferred a flag) := by
  rw [setTransferred_eq, setTransferred_eq (s := t), setTransferred_balanceInc h.balanceInc]
  cases hlookup : s.balanceInc.lookup a with
  | none =>
    have hsame : (s.setTransferred a flag).balanceInc = s.balanceInc := by
      rw [setTransferred, hlookup]
    rw [hsame]
    exact (covers_of_same rfl rfl rfl ⟨rfl, rfl⟩ rfl fun _ => ⟨rfl, rfl⟩).trans
      (h.trans (covers_of_same rfl h.balanceInc.symm rfl ⟨rfl, rfl⟩ rfl fun _ => ⟨rfl, rfl⟩))
  | some bi =>
    refine covers_balanceInc h (fun b hb => ?_) (fun _ => by rw [hlookup]; rfl)
      (h.live a (Or.inl (by rw [hlookup]; rfl)))
    rw [setTransferred_lookup, Function.update_of_ne hb]

theorem revertIncrease_covers (increase : Uint256) (h : Covers deep s t) :
    Covers deep (s.revertIncrease a increase) (t.revertIncrease a increase) := by
  unfold revertIncrease
  rw [h.balanceInc]
  cases hlookup : s.balanceInc.lookup a with
  | none => exact h
  | some bi =>
    refine covers_balanceInc h (fun b hb => ?_) (fun _ => by rw [hlookup]; rfl)
      (h.live a (Or.inl (by rw [hlookup]; rfl)))
    split
    · rw [Table.lookup_erase, Function.update_of_ne hb]
    · rw [Table.lookup_insert, Function.update_of_ne hb]

theorem covers_append_clean {e : JournalEntry} (hclean : e.dirtied = none) :
    Covers deep s (s.append e) :=
  covers_of_same rfl rfl rfl ⟨rfl, rfl⟩ rfl fun _ => ⟨by simp [append, hclean], rfl⟩

theorem append_clean_covers {e : JournalEntry} (hclean : e.dirtied = none) :
    Covers deep (s.append e) s :=
  covers_of_same rfl rfl rfl ⟨rfl, rfl⟩ rfl fun _ => ⟨by simp [append, hclean], rfl⟩

theorem settled_covers (h : Covers deep s t) : Covers deep (settled s a) (settled t a) := by
  unfold settled
  rw [h.pending]
  split
  · exact (append_clean_covers rfl).trans
      ((setTransferred_covers true h).trans (covers_append_clean rfl))
  · exact h

theorem setStateObject_covers (so : StateObject) (h : Covers deep s t) :
    Covers deep (s.setStateObject a so).2 (t.setStateObject a so).2 := by
  rw [setStateObject_snd, setStateObject_snd,
    withPending_of_lookup (s := t) (t := s) (by rw [h.balanceInc])]
  exact (settled_covers h).put (.refl _)

/-- Reverting a creation leaves the account to be loaded again. -/
def uncreate (a : Address) (s : IntraBlockState db) : IntraBlockState db :=
  { s with
    stateObjects := Function.update s.stateObjects a none
    stateObjectsDirty := s.stateObjectsDirty.erase a }

theorem uncreate_covers (h : Covers deep s t) : Covers deep (uncreate a s) (uncreate a t) := by
  refine ⟨fun b => ?_, fun b htracked => ?_, h.balanceInc, h.refund, h.logs, h.accessList,
    fun hdeep => ⟨(h.dirty hdeep).1, ?_⟩⟩
  · by_cases hb : b = a
    · have hsame : effective (uncreate a t) b = effective (uncreate a s) b :=
        effective_congr (by simp [uncreate, hb]) fun _ => by simp [uncreate, h.balanceInc]
      rw [hsame]
      cases effective (uncreate a s) b with
      | none => exact .none
      | some so => exact .some (.refl so)
    · have hs : effective (uncreate a s) b = effective s b :=
        effective_congr (by simp [uncreate, hb]) fun _ => rfl
      have ht : effective (uncreate a t) b = effective t b :=
        effective_congr (by simp [uncreate, hb]) fun _ => rfl
      rw [hs, ht]
      exact h.objects b
  · by_cases hb : b = a
    · simp [uncreate, hb]
    · have hstill : Tracked deep s b := by
        simpa [Tracked, uncreate, hb] using htracked
      simpa [uncreate, hb] using h.live b hstill
  · show t.stateObjectsDirty.erase a = s.stateObjectsDirty.erase a
    rw [(h.dirty hdeep).2]

theorem revertLog_covers {txhash : Hash} (h : Covers deep s t) (hs : s.revertLog txhash = some s') :
    ∃ t', t.revertLog txhash = some t' ∧ Covers deep s' t' := by
  unfold revertLog at hs ⊢
  rw [h.logs.1, h.logs.2]
  cases hlogs : s.logs txhash with
  | nil => simp [hlogs] at hs
  | cons log logs =>
    rw [hlogs] at hs
    cases hs
    exact ⟨_, rfl, h.objects, h.live, h.balanceInc, h.refund, ⟨rfl, rfl⟩, h.accessList, h.dirty⟩

theorem revertEntry_fakeStorage (key : Hash) (value : Uint256) :
    s.revertEntry (.fakeStorageChange a key value) =
      (effective s a).bind fun so => so.fakeStorage.map fun fake =>
        (s.getStateObject a).2.put a (so.setFake fake key value) := by
  rw [← (getStateObject_spec s a).1]
  simp only [IntraBlockState.revertEntry]
  rcases s.getStateObject a with ⟨found, s'⟩
  cases found with
  | none => rfl
  | some so => rfl

theorem revertEntry_selfdestruct (prev : Bool) (balance : Uint256) :
    s.revertEntry (.selfdestructChange a prev balance) =
      some ((effective s a).elim (s.getStateObject a).2 fun so =>
        (s.getStateObject a).2.put a (so.undestroy prev balance)) := by
  rw [← (getStateObject_spec s a).1]
  simp only [IntraBlockState.revertEntry]
  rcases s.getStateObject a with ⟨found, s'⟩
  cases found with
  | none => rfl
  | some so => rfl

theorem fakeStorage_covers {key : Hash} {value : Uint256} (h : Covers deep s t)
    (hs : s.revertEntry (.fakeStorageChange a key value) = some s') :
    ∃ t', t.revertEntry (.fakeStorageChange a key value) = some t' ∧ Covers deep s' t' := by
  have hobject := h.objects a
  rw [revertEntry_fakeStorage] at hs ⊢
  obtain ⟨so, hso, hmap⟩ := Option.bind_eq_some_iff.mp hs
  obtain ⟨fake, hfake, rfl⟩ := Option.map_eq_some_iff.mp hmap
  rw [hso] at hobject
  generalize effective t a = found at hobject ⊢
  cases hobject with
  | @some _ so' hcovers =>
    have hseen : so'.fakeStorage.map Storage.value = so.fakeStorage.map Storage.value :=
      congrArg Seen.fake hcovers.seen_eq
    rw [hfake, Option.map_some, Option.map_eq_some_iff] at hseen
    obtain ⟨fake', hfake', hvalue⟩ := hseen
    exact ⟨_, by rw [Option.bind_some, hfake']; rfl,
      (h.getStateObject a).put (hcovers.setFake key value hvalue)⟩

theorem selfdestruct_covers {prev : Bool} {balance : Uint256} (h : Covers deep s t)
    (hs : s.revertEntry (.selfdestructChange a prev balance) = some s') :
    ∃ t', t.revertEntry (.selfdestructChange a prev balance) = some t' ∧ Covers deep s' t' := by
  have hobject := h.objects a
  rw [revertEntry_selfdestruct] at hs ⊢
  refine ⟨_, rfl, ?_⟩
  obtain rfl := Option.some.inj hs
  generalize effective s a = found at hobject ⊢
  generalize effective t a = found' at hobject ⊢
  cases hobject with
  | none => exact h.getStateObject a
  | some hcovers => exact (h.getStateObject a).put (hcovers.undestroy prev balance)

theorem revertEntry_covers (e : JournalEntry) (h : Covers deep s t) (hs : s.revertEntry e = some s') :
    ∃ t', t.revertEntry e = some t' ∧ Covers deep s' t' := by
  cases e with
  | createObjectChange a =>
    cases hs
    exact ⟨_, rfl, uncreate_covers h⟩
  | resetObjectChange a prev =>
    cases hs
    exact ⟨_, rfl, setStateObject_covers prev h⟩
  | selfdestructChange a prev balance => exact selfdestruct_covers h hs
  | balanceChange a prev =>
    exact modifyObject_covers (fun _ _ hcovers => hcovers.setBalance prev) h hs
  | balanceIncrease a increase =>
    cases hs
    exact ⟨_, rfl, revertIncrease_covers increase h⟩
  | balanceIncreaseTransfer a =>
    cases hs
    exact ⟨_, rfl, setTransferred_covers false h⟩
  | nonceChange a prev =>
    exact modifyObject_covers (fun _ _ hcovers => hcovers.setNonce prev) h hs
  | storageChange a key prevalue =>
    exact modifyObject_covers (fun _ _ hcovers => hcovers.setState key prevalue) h hs
  | fakeStorageChange a key prevalue => exact fakeStorage_covers h hs
  | codeChange a prevhash prevcode =>
    exact modifyObject_covers (fun _ _ hcovers => hcovers.setCode prevhash prevcode) h hs
  | refundChange prev =>
    cases hs
    exact ⟨_, rfl, h.objects, h.live, h.balanceInc, rfl, h.logs, h.accessList, h.dirty⟩
  | addLogChange txhash => exact revertLog_covers h hs
  | touchChange a =>
    cases hs
    exact ⟨_, rfl, h⟩
  | accessListAddAccountChange a =>
    cases hs
    refine ⟨_, rfl, h.objects, h.live, h.balanceInc, h.refund, h.logs, ?_, h.dirty⟩
    show t.accessList.deleteAddress a = s.accessList.deleteAddress a
    rw [h.accessList]
  | accessListAddSlotChange a slot =>
    obtain ⟨al, hal, rfl⟩ := Option.map_eq_some_iff.mp hs
    rw [← h.accessList] at hal
    exact ⟨_, Option.map_eq_some_iff.mpr ⟨al, hal, rfl⟩, h.objects, h.live, h.balanceInc,
      h.refund, h.logs, rfl, h.dirty⟩

theorem undoEntry_respects (db : Backend) (deep : Prop) :
    Respects (@undoEntry db) (Covers deep) := by
  intro e s t s' h hs
  rw [undoEntry_eq, Option.map_eq_some_iff] at hs
  obtain ⟨x, hx, rfl⟩ := hs
  obtain ⟨y, hy, hcovers⟩ := revertEntry_covers e h hx
  refine ⟨_, by rw [undoEntry_eq, hy]; rfl, covers_dropDirty e.dirtied hcovers⟩

end N42.EntryReversal
