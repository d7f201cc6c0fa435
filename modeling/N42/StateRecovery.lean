import N42.StateSoundness

/-!
The journal entries of a move undo it: reverting them leads to a state that can stand for
the one before the move.
-/

namespace N42.StateRecovery

open ChainTypes AccessLists FiniteTables StateObjects IntraBlock
open IntraBlock.IntraBlockState StateOperations StateViews StateLoading
open StateCovers EntryReversal StateMoves StateSoundness UndoLogs
open Relation (ReflTransGen)

section Objects

variable {db : Backend} {a : Address} {deep : Prop} {so : StateObject}

theorem setBalance_back (amount : Uint256) (h : so.data.initialised = true) :
    (so.setBalance amount).setBalance so.data.balance = so := by
  obtain ⟨data, original, code, origin, blockOrigin, dirty, fake, dirtyCode, selfdestructed,
    deleted, created⟩ := so
  obtain ⟨initialised, nonce, balance, root, codeHash, incarnation⟩ := data
  obtain rfl : initialised = true := h
  rfl

theorem undestroy_destroy (hcreated : so.created = false) (h : so.data.initialised = true) :
    so.destroy.undestroy so.selfdestructed so.data.balance = so := by
  obtain ⟨data, original, code, origin, blockOrigin, dirty, fake, dirtyCode, selfdestructed,
    deleted, created⟩ := so
  obtain ⟨initialised, nonce, balance, root, codeHash, incarnation⟩ := data
  obtain rfl : initialised = true := h
  obtain rfl : created = false := hcreated
  rfl

theorem setCode_back (hash : Hash) (code : Option Bytes)
    (hsafe : deep → so.dirtyCode = true ∨ codeNow db a so = none) :
    ObjectCovers db a deep so
      ((so.setCode hash code).setCode so.data.codeHash (codeNow db a so)) := by
  have hcode : codeNow db a ((so.setCode hash code).setCode so.data.codeHash (codeNow db a so)) =
        codeNow db a so :=
    codeOf_codeOf _ _ _
  refine ⟨Seen.ext rfl rfl hcode rfl rfl rfl rfl rfl rfl, fun hdeep => ?_⟩
  refine ⟨fun _ h => Or.inl h, fun _ h => h, fun _ => Or.inl rfl, fun _ => Or.inl rfl,
    fun _ => Or.inl hcode.symm, ?_⟩
  have hnew : newCode db a ((so.setCode hash code).setCode so.data.codeHash (codeNow db a so)) =
        codeNow db a so :=
    hcode
  rw [hnew, newCode]
  rcases hsafe hdeep with hdirty | hnone
  · rw [if_pos hdirty]
  · rw [hnone]
    split
    · rfl
    · rfl

theorem setState_back (key : Hash) (value : Uint256)
    (hclean : deep → Clean db a so) (hread : SlotRead db a so key) :
    ObjectCovers db a deep so ((so.setState key value).setState key (current db a so key)) := by
  refine ⟨?_, fun hdeep => ?_⟩
  · rw [seen_setState, seen_setState]
    refine Seen.ext rfl rfl rfl rfl ?_ rfl rfl rfl rfl
    show Function.update (Function.update (current db a so) key value) key
      (current db a so key) = current db a so
    rw [Function.update_idem, Function.update_eq_self]
  · have hvalue := (hclean hdeep).start_of_read hread
    refine ⟨fun other hdirty => ?_, fun other hdirty => ?_, fun _ => Or.inl rfl,
      fun _ => Or.inl rfl, fun h => Or.inr ⟨h, rfl⟩, rfl⟩
    · by_cases heq : other = key
      · subst heq
        exact Or.inr hvalue
      · left
        simpa [StateObject.setState, heq] using hdirty
    · by_cases heq : other = key
      · simp [StateObject.setState, heq]
      · simpa [StateObject.setState, heq] using hdirty

theorem setFake_back {fake : Storage} (key : Hash) (value : Uint256)
    (hfake : so.fakeStorage = some fake) :
    ObjectCovers db a deep so
      ((so.setFake fake key value).setFake (Function.update fake key (some value)) key
        (fake.value key)) := by
  have hback : Storage.value (Function.update (Function.update fake key (some value)) key
      (some (fake.value key))) = fake.value := by
    rw [fake_value_update, fake_value_update, Function.update_idem, Function.update_eq_self]
  refine ⟨Seen.ext rfl rfl rfl rfl rfl ?_ rfl rfl rfl, fun _ => ?_⟩
  · show some (Storage.value _) = so.fakeStorage.map Storage.value
    rw [hback, hfake]
    rfl
  · exact ⟨fun _ h => Or.inl h, fun _ h => h, fun _ => Or.inl rfl, fun _ => Or.inl rfl,
      fun h => Or.inr ⟨h, rfl⟩, rfl⟩

end Objects

section States

variable {db : Backend} {deep : Prop} {s t : IntraBlockState db} {a : Address}
  {so so' : StateObject}

def Undone (deep : Prop) (s t : IntraBlockState db) : Prop :=
  ∃ changes, t.entries = changes ++ s.entries ∧ Undoes undoEntry (Covers deep) s changes t

theorem undone_of_covers (h : Covers deep s t) (hentries : t.entries = s.entries) :
    Undone deep s t :=
  ⟨[], hentries, undoes_nil h⟩

theorem Undone.trans {u : IntraBlockState db} (h : Undone deep s t) (h' : Undone deep t u) :
    Undone deep s u := by
  obtain ⟨older, holder, hundoes⟩ := h
  obtain ⟨newer, hnewer, hundoes'⟩ := h'
  refine ⟨newer ++ older, ?_, hundoes.trans (undoEntry_respects db deep) Covers.trans hundoes'⟩
  rw [hnewer, holder, List.append_assoc]

theorem undone_of_changes (h : t.toChanges = s.toChanges) : Undone deep s t :=
  undone_of_covers (covers_of_changes h) (congrArg Changes.entries h)

theorem getStateObject_live (h : s.stateObjects a = some so) :
    s.getStateObject a = (some so, s) := by
  unfold getStateObject
  rw [h]

theorem live_put : (s.put a so).stateObjects a = some so :=
  Function.update_self a _ _

theorem put_self (h : s.stateObjects a = some so) : s.put a so = s := by
  unfold put
  rw [← h, Function.update_eq_self]

theorem covers_put_live (hlive : s.stateObjects a = some so)
    (h : ObjectCovers db a deep so so') : Covers deep s (s.put a so') := by
  have hput := (Covers.refl s).put h
  rwa [put_self hlive] at hput

variable {e : JournalEntry}

theorem undone_edit {so'' : StateObject} (hlive : s.stateObjects a = some so)
    (hdirtied : e.dirtied = some a) (hback : ((s.append e).put a so').revertEntry e =
      some (((s.append e).put a so').put a so'')) (hcovers : ObjectCovers db a deep so so'') :
    Undone deep s ((s.append e).put a so') := by
  refine ⟨[e], rfl, dropDirty (some a) (((s.append e).put a so').put a so''), ?_, ?_⟩
  · rw [undoAll, undoEntry_eq, hback, hdirtied]
    rfl
  · refine (covers_put_live hlive hcovers).trans ?_
    rw [put_put]
    refine covers_of_same rfl rfl rfl ⟨rfl, rfl⟩ rfl fun _ => ⟨?_, rfl⟩
    show (((s.append e).put a so'').dirties).erase a = s.dirties
    simp [put, append, hdirtied]

theorem revertEntry_modify {f : StateObject → StateObject}
    (h : ((s.append e).put a so').revertEntry e = ((s.append e).put a so').modifyObject a f) :
    ((s.append e).put a so').revertEntry e = some (((s.append e).put a so').put a (f so')) := by
  rw [h, modifyObject, getStateObject_live live_put]

theorem undone_of_edit (h : Sound deep s) (hlive : s.stateObjects a = some so)
    (hedit : Edit db deep True a so e so') :
    Undone deep s ((s.append e).put a so') := by
  have hsound := h.objects a so (effective_of_live hlive)
  cases hedit with
  | balance amount =>
    refine undone_edit hlive rfl (revertEntry_modify rfl) ?_
    rw [setBalance_back amount hsound.initialised]
    exact .refl so
  | nonce nonce => exact undone_edit hlive rfl (revertEntry_modify rfl) (.refl so)
  | code code hsafe =>
    exact undone_edit hlive rfl (revertEntry_modify rfl) (setCode_back _ code (hsafe trivial))
  | storage key value hread =>
    exact undone_edit hlive rfl (revertEntry_modify rfl)
      (setState_back key value hsound.clean hread)
  | @fakeStorage key value fake hfake =>
    refine undone_edit hlive rfl ?_ (setFake_back key value hfake)
    rw [revertEntry_fakeStorage, effective_of_live live_put, getStateObject_live live_put]
    rfl
  | destroy hsafe =>
    have hcovers : ObjectCovers db a deep so
        (so.destroy.undestroy so.selfdestructed so.data.balance) := by
      rw [undestroy_destroy (hsafe (Or.inl trivial)) hsound.initialised]
      exact .refl so
    refine undone_edit hlive rfl ?_ hcovers
    rw [revertEntry_selfdestruct, effective_of_live live_put, getStateObject_live live_put]
    rfl

theorem covers_fresh (h : Sound deep s) (hlive : s.stateObjects a = none)
    (hpending : s.hasPending a = false) (hsome : effective s a = some so) :
    Covers deep s (s.put a so) := by
  have hlookup := h.live_of_transferred hlive hpending
  have huntracked : ¬ Tracked deep s a := by
    rintro (hinc | ⟨hdeep, hdirty | hdirty⟩)
    · rw [hlookup] at hinc
      cases hinc
    · have hcase := h.dirties hdeep a hdirty
      rw [hlive, hlookup] at hcase
      simp at hcase
    · have hcase := h.stateObjectsDirty hdeep a hdirty
      rw [hlive] at hcase
      cases hcase
  refine ⟨fun b => ?_, fun b htracked => ?_, rfl, rfl, ⟨rfl, rfl⟩, rfl, fun _ => ⟨rfl, rfl⟩⟩
  · rw [effective_put, ← hsome, Function.update_eq_self]
    cases effective s b with
    | none => exact .none
    | some x => exact .some (.refl x)
  · have hb : b ≠ a := fun hb => huntracked (hb ▸ htracked)
    simp [hb]

theorem erase_notMem_dirty (h : Sound deep s) (hlive : s.stateObjects a = none)
    (hdeep : deep) : s.stateObjectsDirty.erase a = s.stateObjectsDirty := by
  apply Finset.erase_eq_of_notMem
  intro hmem
  have hcase := h.stateObjectsDirty hdeep a hmem
  rw [hlive] at hcase
  cases hcase

theorem setTransferred_back (hpending : s.hasPending a = true)
    (hmarked : t.balanceInc = (s.setTransferred a true).balanceInc) :
    (t.setTransferred a false).balanceInc = s.balanceInc := by
  apply Table.ext_lookup
  rw [setTransferred_lookup, hmarked, setTransferred_lookup, Function.update_self,
    Function.update_idem]
  cases hlookup : s.balanceInc.lookup a with
  | none => simp [hasPending, hlookup] at hpending
  | some bi =>
    have hflag : bi.transferred = false := by simpa [hasPending, hlookup] using hpending
    have hsame : ({ ({ bi with transferred := true } : BalanceIncrease) with
        transferred := false } : BalanceIncrease) = bi := by
      rw [← hflag]
    rw [Option.map_some, Option.map_some, hsame, ← hlookup, Function.update_eq_self]

section

variable (h : Sound deep s)
include h

theorem undone_create (hlive : s.stateObjects a = none) :
    Undone deep s ((settled (s.append (.createObjectChange a)) a).put a so) := by
  have hback : ∀ x : IntraBlockState db,
      x.stateObjects = Function.update s.stateObjects a (some so) →
      x.balanceInc = s.balanceInc → x.refund = s.refund →
      x.logs = s.logs ∧ x.logSize = s.logSize → x.accessList = s.accessList →
      x.dirties = a ::ₘ s.dirties → x.stateObjectsDirty = s.stateObjectsDirty →
      Covers deep s (dropDirty (some a) (uncreate a x)) := by
    intro x hobjects hinc hrefund hlogs hlist hdirties hdirty
    refine covers_of_same ?_ hinc hrefund hlogs hlist fun hdeep => ⟨?_, ?_⟩
    · show Function.update x.stateObjects a none = s.stateObjects
      rw [hobjects, Function.update_idem, ← hlive, Function.update_eq_self]
    · show x.dirties.erase a = s.dirties
      rw [hdirties, Multiset.erase_cons_head]
    · show x.stateObjectsDirty.erase a = s.stateObjectsDirty
      rw [hdirty, erase_notMem_dirty h hlive hdeep]
  unfold settled
  by_cases hpending : s.hasPending a = true
  · have hstill : (s.append (.createObjectChange a)).hasPending a = true := hpending
    have hinc : (s.append (.createObjectChange a)).balanceInc = s.balanceInc := rfl
    have hmarked := setTransferred_balanceInc (a := a) hinc true
    rw [if_pos hstill, setTransferred_eq, hmarked]
    refine ⟨[.balanceIncreaseTransfer a, .createObjectChange a], rfl, _, rfl, ?_⟩
    rw [setTransferred_eq]
    exact hback _ rfl (setTransferred_back hpending rfl) rfl ⟨rfl, rfl⟩ rfl rfl rfl
  · have hstill : ¬ (s.append (.createObjectChange a)).hasPending a = true := hpending
    rw [if_neg hstill]
    exact ⟨[.createObjectChange a], rfl, _, rfl, hback _ rfl rfl rfl ⟨rfl, rfl⟩ rfl rfl rfl⟩

theorem not_pending_of_live (hlive : s.stateObjects a = some so) : s.hasPending a = false := by
  cases hlookup : s.balanceInc.lookup a with
  | none => simp [hasPending, hlookup]
  | some bi =>
    have hflag := (h.increases a bi hlookup).1
    rw [hlive] at hflag
    have htransferred : bi.transferred = true := hflag
    simp [hasPending, hlookup, htransferred]

theorem undone_reset (hlive : s.stateObjects a = some so) :
    Undone deep s ((settled (s.append (.resetObjectChange a so)) a).put a so') := by
  have hpending := not_pending_of_live h hlive
  have hstill : ¬ (s.append (.resetObjectChange a so)).hasPending a = true := by
    show ¬ s.hasPending a = true
    rw [hpending]
    exact Bool.false_ne_true
  have hthen : ¬ ((s.append (.resetObjectChange a so)).put a so').hasPending a = true := hstill
  rw [settled, if_neg hstill]
  refine ⟨[.resetObjectChange a so], rfl, _, rfl, ?_⟩
  rw [setStateObject, if_neg hthen, put_put]
  refine covers_of_same ?_ rfl rfl ⟨rfl, rfl⟩ rfl fun _ => ⟨rfl, rfl⟩
  show Function.update s.stateObjects a (some so) = s.stateObjects
  rw [← hlive, Function.update_eq_self]

theorem revertIncrease_back (amount : Uint256) :
    (revertIncrease a amount (increaseBalance a amount s)).balanceInc = s.balanceInc := by
  apply Table.ext_lookup
  have hlookup : (increaseBalance a amount s).balanceInc.lookup a =
      some { (s.balanceInc.lookup a).getD ⟨0, false, 0⟩ with
        increase := ((s.balanceInc.lookup a).getD ⟨0, false, 0⟩).increase + amount
        count := ((s.balanceInc.lookup a).getD ⟨0, false, 0⟩).count + 1 } := by
    simp [increaseBalance]
  simp only [revertIncrease, hlookup, Nat.add_sub_cancel]
  cases hold : s.balanceInc.lookup a with
  | none =>
    show Function.update (Function.update s.balanceInc.lookup a _) a none = _
    rw [Function.update_idem, ← hold, Function.update_eq_self]
  | some bi =>
    have hcount := (h.increases a bi hold).2
    simp only [Option.getD_some, if_neg hcount, Table.lookup_insert, BitVec.add_sub_cancel]
    show Function.update (Function.update s.balanceInc.lookup a _) a (some bi) = _
    rw [Function.update_idem, ← hold, Function.update_eq_self]

theorem undone_increase (amount : Uint256) : Undone deep s (increaseBalance a amount s) := by
  refine ⟨[.balanceIncrease a amount], rfl, _, rfl, ?_⟩
  have hframe : revertIncrease a amount (increaseBalance a amount s) =
      { increaseBalance a amount s with
        balanceInc := (revertIncrease a amount (increaseBalance a amount s)).balanceInc } := by
    unfold revertIncrease
    split
    · rfl
    · rfl
  rw [hframe, revertIncrease_back h]
  refine covers_of_same rfl rfl rfl ⟨rfl, rfl⟩ rfl fun _ => ⟨?_, rfl⟩
  show (a ::ₘ s.dirties).erase a = s.dirties
  rw [Multiset.erase_cons_head]

end

theorem undone_touch (hsafe : deep → a ≠ ripemd) : Undone deep s (touch a s) := by
  unfold touch
  split
  · rename_i hripemd
    refine ⟨[.touchChange a], rfl, _, rfl, ?_⟩
    exact covers_of_same rfl rfl rfl ⟨rfl, rfl⟩ rfl fun hdeep => absurd hripemd (hsafe hdeep)
  · refine ⟨[.touchChange a], rfl, _, rfl, ?_⟩
    refine covers_of_same rfl rfl rfl ⟨rfl, rfl⟩ rfl fun _ => ⟨?_, rfl⟩
    show (a ::ₘ s.dirties).erase a = s.dirties
    rw [Multiset.erase_cons_head]

theorem undone_log (log : MessageCalls.Log) : Undone deep s (addLog log s) := by
  refine ⟨[.addLogChange s.thash], rfl, dropDirty none { addLog log s with
      logs := Function.update (addLog log s).logs s.thash ((addLog log s).logs s.thash).dropLast
      logSize := (addLog log s).logSize - 1 }, ?_, ?_⟩
  · have hback : (addLog log s).revertLog s.thash = some { addLog log s with
          logs := Function.update (addLog log s).logs s.thash ((addLog log s).logs s.thash).dropLast
          logSize := (addLog log s).logSize - 1 } := by
      unfold revertLog
      cases hlogs : (addLog log s).logs s.thash with
      | nil => simp [addLog] at hlogs
      | cons first rest => rfl
    show ((((addLog log s).revertLog s.thash).map _).bind _) = _
    rw [hback]
    rfl
  · refine covers_of_same rfl rfl rfl ⟨?_, rfl⟩ rfl fun _ => ⟨rfl, rfl⟩
    show Function.update (addLog log s).logs s.thash _ = s.logs
    simp [addLog]

theorem undone_address (a : Address) : Undone deep s (addAddressToAccessList a s) := by
  have hback : s.accessList.addresses a = none →
      (s.accessList.addAddress a).2.deleteAddress a = s.accessList :=
    AccessList.deleteAddress_addAddress
  unfold addAddressToAccessList
  cases hadd : s.accessList.addAddress a with
  | mk changed al =>
    cases changed with
    | false => exact undone_of_changes rfl
    | true =>
      have habsent : s.accessList.addresses a = none := by
        unfold AccessList.addAddress AccessList.containsAddress at hadd
        cases haddr : s.accessList.addresses a with
        | none => rfl
        | some place => simp [haddr] at hadd
      rw [hadd] at hback
      refine ⟨[.accessListAddAccountChange a], rfl, _, rfl, ?_⟩
      exact covers_of_same rfl rfl rfl ⟨rfl, rfl⟩ (hback habsent) fun _ => ⟨rfl, rfl⟩

def withAccessList (s : IntraBlockState db) (al : AccessList) (changes : List JournalEntry) :
    IntraBlockState db :=
  { s with accessList := al, entries := changes ++ s.entries }

variable {changes : List JournalEntry}

theorem undoEntry_slot {al al' : AccessList} {slot : Hash} (h : al.deleteSlot a slot = some al') :
    undoEntry (.accessListAddSlotChange a slot) (withAccessList s al changes) =
      some (withAccessList s al' changes) := by
  show (((al.deleteSlot a slot).map _).map _) = _
  rw [h]
  rfl

theorem undoEntry_address {al : AccessList} :
    undoEntry (.accessListAddAccountChange a) (withAccessList s al changes) =
      some (withAccessList s (al.deleteAddress a) changes) :=
  rfl

theorem undone_withAccessList {al : AccessList}
    (h : undoAll undoEntry changes (withAccessList s al changes) =
      some (withAccessList s s.accessList changes)) :
    Undone deep s (withAccessList s al changes) :=
  ⟨changes, rfl, _, h, covers_of_same rfl rfl rfl ⟨rfl, rfl⟩ rfl fun _ => ⟨rfl, rfl⟩⟩

theorem undone_slot {slot : Hash} (h : Sound deep s)
    (hadd : addSlotToAccessList a slot s = some t) : Undone deep s t := by
  obtain ⟨⟨addrMod, slotMod, al⟩, hal, rfl⟩ := Option.map_eq_some_iff.mp hadd
  unfold AccessList.addSlot at hal
  cases haddr : s.accessList.addresses a with
  | none =>
    rw [haddr] at hal
    cases hal
    show Undone deep s (withAccessList s (s.accessList.addSlots a slot)
      [.accessListAddSlotChange a slot, .accessListAddAccountChange a])
    apply undone_withAccessList
    rw [undoAll, undoEntry_slot AccessList.deleteSlot_addSlots, Option.bind_some, undoAll,
      undoEntry_address, Option.bind_some, undoAll, AccessList.deleteAddress,
      Function.update_idem, ← haddr, Function.update_eq_self]
  | some place =>
    rw [haddr] at hal
    cases place with
    | none =>
      cases hal
      show Undone deep s (withAccessList s (s.accessList.addSlots a slot)
        [.accessListAddSlotChange a slot])
      apply undone_withAccessList
      rw [undoAll, undoEntry_slot AccessList.deleteSlot_addSlots, Option.bind_some,
        undoAll, ← haddr, Function.update_eq_self]
    | some idx =>
      obtain ⟨slotmap, hslots, hcase⟩ := Option.map_eq_some_iff.mp hal
      split at hcase
      · cases hcase
        exact undone_of_changes rfl
      · rename_i hnew
        cases hcase
        obtain ⟨found, hfound, hne⟩ := h.accessList a idx haddr
        obtain rfl : slotmap = found := Option.some.inj (hslots.symm.trans hfound)
        show Undone deep s (withAccessList s
          { s.accessList with slots := s.accessList.slots.set idx (insert slot slotmap) }
          [.accessListAddSlotChange a slot])
        apply undone_withAccessList
        rw [undoAll, undoEntry_slot (AccessList.deleteSlot_set haddr hslots hne hnew)]
        rfl

theorem undone_load (h : Sound deep s) (hsafe : exposed s a = false) :
    Undone deep s (s.getStateObject a).2 := by
  refine Undone.trans ?_ (undone_of_changes (getStateObject_spec s a).2)
  have hloads := loads_loaded s a
  generalize loaded s a = u at hloads ⊢
  cases hloads with
  | live hlive => exact undone_of_changes rfl
  | absent hlive hnone => exact undone_of_changes rfl
  | fresh hlive hpending hsome =>
    exact undone_of_covers (covers_fresh h hlive hpending hsome) rfl
  | credited hlive hpending hread hsome =>
    simp [exposed, transfers, hlive, hpending, hsome, unknown, hread] at hsafe
  | created hlive hpending hread hsome => exact undone_create h hlive

theorem undone_of_move (hmove : Move deep True s t) (h : Sound deep s) : Undone deep s t := by
  cases hmove with
  | quiet hchanges => exact undone_of_changes hchanges
  | load a hsafe => exact undone_load h (hsafe trivial)
  | @remember a so so' hlive hcovers =>
    exact undone_of_covers
      (covers_put_live hlive ⟨hcovers.seen_eq, fun _ => hcovers.hidden trivial⟩) rfl
  | edit hlive hedit => exact undone_of_edit h hlive hedit
  | create hlive hfresh => exact undone_create h hlive
  | reset hlive hfresh => exact undone_reset h hlive
  | increase hlive amount => exact undone_increase h amount
  | touch hlive hsafe => exact undone_touch (hsafe trivial)
  | refund refund =>
    refine ⟨[.refundChange s.refund], rfl, _, rfl, ?_⟩
    exact covers_of_same rfl rfl rfl ⟨rfl, rfl⟩ rfl fun _ => ⟨rfl, rfl⟩
  | log log => exact undone_log log
  | address a => exact undone_address a
  | slot hadd => exact undone_slot h hadd
  | setStorage hlive storage hsafe => exact absurd trivial hsafe
  | setIncarnation hlive incarnation hsafe hdeep => exact absurd trivial hsafe

theorem undone_of_moves (hmoves : ReflTransGen (Move deep True) s t) (h : Sound deep s) :
    Undone deep s t := by
  induction hmoves with
  | refl => exact undone_of_changes rfl
  | tail hmoves hmove ih => exact ih.trans (undone_of_move hmove (moves_sound hmoves h))

end States

end N42.StateRecovery
