import N42.StateBoundaries
import N42.StateAnswers

/-!
What is written at the end of a transaction and of a block, and the root, depend only on
what can be seen of the state: a state that can stand for another one is committed in the
same way.
-/

namespace N42.CommittedWrites

open ChainTypes FiniteTables StateObjects IntraBlock
open IntraBlock.IntraBlockState StateOperations StateFinalization StateViews
open StateLoading StateCovers StateMoves StateSoundness StateBoundaries

/-- The writes that change something: a slot that gets the value it had at the start of the
block is left out, as the writers do. -/
def finalWrites (w : AccountWrites) : AccountWrites :=
  { w with writeAccountStorage := fun key =>
      (w.writeAccountStorage key).filter fun x => x.2.1 ≠ x.2.2 }

def finalValues (writes : WriteSet) : WriteSet :=
  fun a => finalWrites (writes a)

section Objects

variable {db : Backend} {a : Address} {so so' : StateObject}

theorem current_of_dirty {key : Hash} {value : Uint256}
    (h : so.dirtyStorage key = some value) : current db a so key = value := by
  rw [current, h]
  rfl

theorem current_of_clean {key : Hash} (h : so.dirtyStorage key = none) :
    current db a so key = committed db a so key := by
  rw [current, h]
  rfl

theorem final_storageWrites (h : Clean db a so) (key : Hash) :
    ((storageWrites so key).filter fun x => x.2.1 ≠ x.2.2) =
      if startValue db a so key = current db a so key then none
      else some (so.data.incarnation, startValue db a so key, current db a so key) := by
  unfold storageWrites
  cases hdirty : so.dirtyStorage key with
  | some value =>
    have hstart := h.start key (Or.inl (by rw [hdirty]; exact Option.some_ne_none value))
    rw [current_of_dirty hdirty, Option.map_some, hstart, Option.filter_some]
    by_cases heq : startValue db a so key = value
    · simp [heq]
    · simp [heq]
  | none =>
    have hsame : startValue db a so key = current db a so key := by
      rw [current_of_clean hdirty, committed]
      rcases h.origin key hdirty with hnone | hsome
      · rw [hnone]
        rfl
      · rw [hsome]
        rfl
    rw [if_pos hsame]
    rfl

theorem codeWrite_eq (h : Clean db a so) :
    codeWrite so = (newCode db a so).map fun code =>
      (so.data.incarnation, so.data.codeHash, code) := by
  unfold codeWrite newCode
  split
  · rename_i hdirty
    rw [h.code hdirty]
  · rfl

theorem emptyRemoval_eq (rules : Rules) (hseen : seen db a so' = seen db a so) :
    emptyRemoval db.lib rules a so' = emptyRemoval db.lib rules a so := by
  have hdata : so'.data = so.data := congrArg Seen.data hseen
  simp only [emptyRemoval, StateObject.empty, hdata]

theorem removes_eq (rules : Rules) (isDirty : Bool) (hseen : seen db a so' = seen db a so) :
    removes db.lib rules a so' isDirty = removes db.lib rules a so isDirty := by
  have hdestroyed : so'.selfdestructed = so.selfdestructed := congrArg Seen.selfdestructed hseen
  rw [removes, removes, hdestroyed, emptyRemoval_eq rules hseen]

theorem updates_eq (rules : Rules) (isDirty : Bool) (hseen : seen db a so' = seen db a so) :
    updates db.lib rules a so' isDirty = updates db.lib rules a so isDirty := by
  have hdestroyed : so'.selfdestructed = so.selfdestructed := congrArg Seen.selfdestructed hseen
  have hcreated : so'.created = so.created := congrArg Seen.created hseen
  rw [updates, updates, hdestroyed, hcreated, emptyRemoval_eq rules hseen]

theorem final_updateAccount (rules : Rules) (isDirty : Bool)
    (h : ObjectCovers db a True so so') (hclean : Clean db a so) :
    finalWrites (updateAccount db.lib rules a so' isDirty).1 =
      finalWrites (updateAccount db.lib rules a so isDirty).1 := by
  have hseen := h.seen_eq
  have hclean' := hclean.of_hidden (h.hidden trivial) hseen
  have hdata : so'.data = so.data := congrArg Seen.data hseen
  have horiginal : so'.original = so.original := congrArg Seen.original hseen
  have hcreated : so'.created = so.created := congrArg Seen.created hseen
  have hcurrent : current db a so' = current db a so := congrArg Seen.current hseen
  have hcode : codeWrite so' = codeWrite so := by
    rw [codeWrite_eq hclean', codeWrite_eq hclean, (h.hidden trivial).newCode, hdata]
  have hstorage : (fun key => (storageWrites so' key).filter fun x => x.2.1 ≠ x.2.2) =
      fun key => (storageWrites so key).filter fun x => x.2.1 ≠ x.2.2 := by
    funext key
    rw [final_storageWrites hclean', final_storageWrites hclean, startValue_eq hseen, hcurrent,
      hdata]
  unfold updateAccount
  simp only [removes_eq rules isDirty hseen, updates_eq rules isDirty hseen, horiginal]
  split
  · simp only [finalWrites, hcode, hcreated, hdata]
    rw [hstorage]
  · rfl

theorem flush_origin (so : StateObject) (key : Hash) :
    (flushStorage so).originStorage key =
      (so.dirtyStorage key).elim (so.originStorage key) some := by
  unfold flushStorage
  simp only
  cases so.dirtyStorage key with
  | none => rfl
  | some value => rfl

theorem committed_flush (so : StateObject) :
    committed db a (flushStorage so) = current db a so := by
  funext key
  rw [committed, flush_origin]
  cases hdirty : so.dirtyStorage key with
  | none =>
    rw [current_of_clean hdirty]
    rfl
  | some value =>
    rw [current_of_dirty hdirty]
    rfl

theorem current_flush (so : StateObject) : current db a (flushStorage so) = current db a so := by
  funext key
  have hdirty : (flushStorage so).dirtyStorage key = so.dirtyStorage key := rfl
  rw [current, hdirty, committed_flush]
  cases hvalue : so.dirtyStorage key with
  | none => rfl
  | some value =>
    rw [current_of_dirty hvalue]
    rfl

theorem seen_flush (so : StateObject) :
    seen db a (flushStorage so) = { seen db a so with committed := (seen db a so).current } :=
  Seen.ext rfl rfl rfl (committed_flush so) (current_flush so) rfl rfl rfl rfl

theorem hidden_flush (hseen : seen db a so' = seen db a so) (h : Hidden db a so so') :
    Hidden db a (flushStorage so) (flushStorage so') := by
  have hcurrent : ∀ key, current db a so' key = current db a so key :=
    fun key => congrArg (fun x => x.current key) hseen
  refine ⟨h.dirty, h.dirty_kept, h.blockOrigin, fun key => ?_, h.code, h.newCode⟩
  rw [flush_origin, flush_origin]
  cases hdirty : so.dirtyStorage key with
  | some value =>
    obtain ⟨value', hdirty'⟩ := Option.ne_none_iff_exists'.mp
      (h.dirty_kept key (by rw [hdirty]; exact Option.some_ne_none value))
    have hsame := hcurrent key
    rw [current_of_dirty hdirty, current_of_dirty hdirty'] at hsame
    left
    rw [hdirty', hsame]
    rfl
  | none =>
    cases hdirty' : so'.dirtyStorage key with
    | none => exact h.origin key
    | some value' =>
      have hstart : so'.blockOriginStorage.value key = startValue db a so key := by
        rcases h.dirty key (by rw [hdirty']; exact Option.some_ne_none value') with
          hbefore | hvalue
        · exact absurd hdirty hbefore
        · exact hvalue
      have hsame := hcurrent key
      rw [current_of_clean hdirty, current_of_dirty hdirty', committed] at hsame
      cases horigin : so.originStorage key with
      | none =>
        rw [horigin] at hsame
        exact Or.inr ⟨rfl, congrArg some hsame, hstart⟩
      | some value =>
        rw [horigin] at hsame
        exact Or.inl (congrArg some hsame)

theorem objectCovers_flush {deep : Prop} (h : ObjectCovers db a deep so so') :
    ObjectCovers db a deep (flushStorage so) (flushStorage so') :=
  ⟨by rw [seen_flush, seen_flush, h.seen_eq], fun hdeep => hidden_flush h.seen_eq (h.hidden hdeep)⟩

theorem objectCovers_withDeleted {deep : Prop} (deleted : Bool)
    (h : ObjectCovers db a deep so so') :
    ObjectCovers db a deep { so with deleted := deleted } { so' with deleted := deleted } := by
  refine ⟨congrArg (fun x : Seen => { x with deleted := deleted }) h.seen_eq, ?_⟩
  intro hdeep
  have hh := h.hidden hdeep
  exact ⟨hh.dirty, hh.dirty_kept, hh.blockOrigin, hh.origin, hh.code, hh.newCode⟩

theorem updateAccount_snd (lib : Primitives) (rules : Rules) (isDirty : Bool) :
    (updateAccount lib rules a so isDirty).2 =
      if updates lib rules a so isDirty then flushStorage { so with deleted := false }
      else { so with deleted := so.deleted || removes lib rules a so isDirty } := by
  unfold updateAccount
  simp only
  split
  · rfl
  · cases removes lib rules a so isDirty with
    | true => rfl
    | false => rfl

theorem objectCovers_updateAccount {deep : Prop} (rules : Rules) (isDirty : Bool)
    (h : ObjectCovers db a deep so so') :
    ObjectCovers db a deep (updateAccount db.lib rules a so isDirty).2
      (updateAccount db.lib rules a so' isDirty).2 := by
  have hdeleted : so'.deleted = so.deleted := congrArg Seen.deleted h.seen_eq
  rw [updateAccount_snd, updateAccount_snd, removes_eq rules isDirty h.seen_eq,
    updates_eq rules isDirty h.seen_eq, hdeleted]
  split
  · exact objectCovers_flush (objectCovers_withDeleted false h)
  · exact objectCovers_withDeleted _ h

theorem updateAccount_idle (lib : Primitives) (rules : Rules)
    (h : so.selfdestructed = false) :
    updateAccount lib rules a so false = (.nothing, so) := by
  have hremoves : removes lib rules a so false = false := by simp [removes, h]
  have hupdates : updates lib rules a so false = false := by simp [updates]
  unfold updateAccount
  simp only [hremoves, hupdates]
  simp [AccountWrites.nothing]

end Objects

section States

theorem selfdestructed_unloaded {db : Backend} {s : IntraBlockState db} {a : Address}
    {so : StateObject} (h : unloaded s a = some so) : so.selfdestructed = false := by
  have hpending : ∀ x : StateObject, x.selfdestructed = false →
      (withPending s a x).selfdestructed = false := by
    intro x hx
    unfold withPending
    split
    · exact hx
    · exact hx
  unfold unloaded at h
  split at h
  · cases h
  · split at h
    · cases h
      exact hpending _ rfl
    · cases h
  · cases h
    exact hpending _ rfl

variable {db : Backend} {s t : IntraBlockState db} {a : Address}

theorem covers_loadPending (h : Covers True s t) : Covers True (loadPending s) (loadPending t) := by
  have hfold : ∀ (addresses : List Address) (s t : IntraBlockState db), Covers True s t →
      Covers True
        (addresses.foldl (fun s a => if s.hasPending a then (s.getStateObject a).2 else s) s)
        (addresses.foldl (fun s a => if s.hasPending a then (s.getStateObject a).2 else s) t) := by
    intro addresses
    induction addresses with
    | nil => exact fun s t h => h
    | cons a rest ih =>
      intro s t h
      rw [List.foldl_cons, List.foldl_cons, h.pending]
      split
      · exact ih _ _ (h.getStateObject a)
      · exact ih _ _ h
  unfold loadPending
  rw [h.balanceInc]
  exact hfold _ s t h

theorem not_destroyed {so : StateObject} (h : Covers True s t)
    (hmissing : s.stateObjects a = none ∨ t.stateObjects a = none)
    (hso : effective s a = some so ∨ effective t a = some so) :
    so.selfdestructed = false := by
  have hobject := h.objects a
  generalize hx : effective s a = x at hobject hso
  generalize hy : effective t a = y at hobject hso
  cases hobject with
  | none => simp at hso
  | @some so₁ so₂ hcovers =>
    have hsame : so₂.selfdestructed = so₁.selfdestructed :=
      congrArg Seen.selfdestructed hcovers.seen_eq
    have hfalse : so₁.selfdestructed = false := by
      rcases hmissing with hmissing | hmissing
      · rw [effective_of_missing hmissing] at hx
        exact selfdestructed_unloaded hx
      · rw [effective_of_missing hmissing] at hy
        exact hsame.symm.trans (selfdestructed_unloaded hy)
    rcases hso with hso | hso
    · cases hso
      exact hfalse
    · cases hso
      exact hsame.trans hfalse

variable (rules : Rules) {chosen dirty : Address → Bool}

theorem effective_updateObjects :
    effective (updateObjects rules chosen dirty s).2 a =
      if chosen a = true ∧ (s.stateObjects a).isSome = true then
        (effective s a).map fun so => (updateAccount db.lib rules a so (dirty a)).2
      else effective s a := by
  have hobjects : (updateObjects rules chosen dirty s).2.stateObjects a =
      if chosen a then
        (s.stateObjects a).map fun so => (updateAccount db.lib rules a so (dirty a)).2
      else s.stateObjects a :=
    rfl
  cases hlive : s.stateObjects a with
  | some so =>
    by_cases hchosen : chosen a = true
    · rw [if_pos ⟨hchosen, rfl⟩, effective_of_live hlive]
      rw [hlive, if_pos hchosen] at hobjects
      exact effective_of_live hobjects
    · rw [if_neg fun h => hchosen h.1, effective_of_live hlive]
      rw [hlive, if_neg hchosen] at hobjects
      exact effective_of_live hobjects
  | none =>
    rw [if_neg fun h => Bool.false_ne_true h.2]
    refine effective_congr ?_ fun _ => rfl
    rw [hobjects, hlive]
    simp

theorem covers_updateObjects (h : Covers True s t)
    (hchosen : ∀ a, chosen a = true → Tracked True s a ∨ dirty a = false) :
    Covers True (updateObjects rules chosen dirty s).2 (updateObjects rules chosen dirty t).2 := by
  refine ⟨fun a => ?_, fun a htracked => ?_, h.balanceInc, h.refund, h.logs, h.accessList, h.dirty⟩
  · have hobject := h.objects a
    rw [effective_updateObjects, effective_updateObjects]
    by_cases hc : chosen a = true
    · by_cases hlive : (t.stateObjects a).isSome = (s.stateObjects a).isSome
      · rw [hlive]
        split
        · generalize effective s a = x at hobject ⊢
          generalize effective t a = y at hobject ⊢
          cases hobject with
          | none => exact .none
          | some hcovers => exact .some (objectCovers_updateAccount rules _ hcovers)
        · exact hobject
      · -- only one of the two has loaded it, so it has not changed
        have hdirty : dirty a = false := by
          rcases hchosen a hc with htracked | hdirty
          · exact absurd (h.live a htracked) hlive
          · exact hdirty
        have hmissing : s.stateObjects a = none ∨ t.stateObjects a = none := by
          cases hs : s.stateObjects a with
          | none => exact Or.inl rfl
          | some so =>
            right
            rw [hs] at hlive
            simpa using hlive
        have hidle : ∀ x, (x = effective s a ∨ x = effective t a) →
            (x.map fun so => (updateAccount db.lib rules a so (dirty a)).2) = x := by
          intro x hx
          cases x with
          | none => rfl
          | some so =>
            have hfalse := not_destroyed h hmissing (hx.imp Eq.symm Eq.symm)
            rw [hdirty, Option.map_some, updateAccount_idle db.lib rules hfalse]
        rw [hidle _ (Or.inl rfl), hidle _ (Or.inr rfl), ite_self, ite_self]
        exact hobject
    · rw [if_neg fun h => hc h.1, if_neg fun h => hc h.1]
      exact hobject
  · rw [isSome_updateObjects, isSome_updateObjects]
    exact h.live a htracked

theorem updateObjects_fst :
    (updateObjects rules chosen dirty s).1 a =
      if chosen a then
        (s.stateObjects a).elim .nothing fun so =>
          (updateAccount db.lib rules a so (dirty a)).1
      else .nothing :=
  rfl

theorem final_updateObjects (h : Covers True s t)
    (hobjects : ∀ a so, effective s a = some so → ObjectSound db a True so)
    (hchosen : ∀ a, chosen a = true → Tracked True s a ∨ dirty a = false) :
    finalValues (updateObjects rules chosen dirty t).1 =
      finalValues (updateObjects rules chosen dirty s).1 := by
  funext a
  simp only [finalValues, updateObjects_fst]
  by_cases hc : chosen a = true
  · rw [if_pos hc, if_pos hc]
    have hobject := h.objects a
    by_cases hlive : (t.stateObjects a).isSome = (s.stateObjects a).isSome
    · cases hs : s.stateObjects a with
      | none =>
        rw [hs] at hlive
        have ht : t.stateObjects a = none := by simpa using hlive
        rw [ht]
      | some so =>
        rw [hs] at hlive
        obtain ⟨so', ht⟩ := Option.isSome_iff_exists.mp hlive
        rw [effective_of_live hs, effective_of_live ht] at hobject
        cases hobject with
        | some hcovers =>
          rw [ht]
          exact final_updateAccount rules _ hcovers
            ((hobjects a so (effective_of_live hs)).clean trivial)
    · have hdirty : dirty a = false := by
        rcases hchosen a hc with htracked | hdirty
        · exact absurd (h.live a htracked) hlive
        · exact hdirty
      have hidle : ∀ so : StateObject, so.selfdestructed = false →
          (updateAccount db.lib rules a so (dirty a)).1 = .nothing := by
        intro so hfalse
        rw [hdirty, updateAccount_idle db.lib rules hfalse]
      cases hs : s.stateObjects a with
      | none =>
        cases ht : t.stateObjects a with
        | none => rfl
        | some so' =>
          exact congrArg finalWrites
            (hidle so' (not_destroyed h (Or.inl hs) (Or.inr (effective_of_live ht))))
      | some so =>
        cases ht : t.stateObjects a with
        | none =>
          exact congrArg finalWrites
            (hidle so (not_destroyed h (Or.inr ht) (Or.inl (effective_of_live hs)))).symm
        | some so' =>
          rw [hs, ht] at hlive
          exact absurd rfl hlive
  · rw [if_neg hc, if_neg hc]

theorem covers_markDirties {dirty dirty' : Finset Address} (h : Covers True s t)
    (hdirty : dirty' = dirty)
    (hlive : ∀ a ∈ dirty, (t.stateObjects a).isSome = (s.stateObjects a).isSome) :
    Covers True (markDirties dirty s) (markDirties dirty' t) := by
  subst hdirty
  refine ⟨h.objects, fun a htracked => ?_, h.balanceInc, h.refund, h.logs, h.accessList,
    fun _ => ⟨(h.dirty trivial).1, ?_⟩⟩
  · rcases htracked with hinc | ⟨hdeep, hdirties | hmarked⟩
    · exact h.live a (Or.inl hinc)
    · exact h.live a (Or.inr ⟨hdeep, Or.inl hdirties⟩)
    · rcases Finset.mem_union.mp hmarked with hold | hnew
      · exact h.live a (Or.inr ⟨hdeep, Or.inr hold⟩)
      · exact hlive a hnew
  · show t.stateObjectsDirty ∪ dirty' = s.stateObjectsDirty ∪ dirty'
    rw [(h.dirty trivial).2]

theorem covers_clear (h : Covers True s t) :
    Covers True (clearJournalAndRefund s) (clearJournalAndRefund t) := by
  refine ⟨h.objects, fun a htracked => ?_, h.balanceInc, rfl, h.logs, h.accessList,
    fun _ => ⟨rfl, (h.dirty trivial).2⟩⟩
  rcases htracked with hinc | ⟨hdeep, hdirties | hmarked⟩
  · exact h.live a (Or.inl hinc)
  · exact absurd hdirties (Multiset.notMem_zero a)
  · exact h.live a (Or.inr ⟨hdeep, Or.inr hmarked⟩)

theorem tracked_of_dirties (h : a ∈ s.dirties) : Tracked True s a :=
  Or.inr ⟨trivial, Or.inl h⟩

theorem liveDirties_eq (h : Covers True s t) : liveDirties t = liveDirties s := by
  unfold liveDirties
  rw [(h.dirty trivial).1]
  refine Finset.filter_congr fun a ha => ?_
  rw [h.live a (tracked_of_dirties (Multiset.mem_toFinset.mp ha))]

theorem finalizeTx_covers (h : Covers True s t) (hsound : Sound True s) :
    finalValues (finalizeTx rules t).1 = finalValues (finalizeTx rules s).1 ∧
      Covers True (finalizeTx rules s).2 (finalizeTx rules t).2 := by
  have hloaded := covers_loadPending h
  have hsound' := moves_sound (loadPending_moves True s) hsound
  have hdirties := (hloaded.dirty trivial).1
  have hchosen : ∀ a, decide (a ∈ (loadPending s).dirties) = true →
      Tracked True (loadPending s) a ∨ (fun _ : Address => true) a = false :=
    fun a ha => Or.inl (tracked_of_dirties (of_decide_eq_true ha))
  have hwrites := final_updateObjects rules hloaded hsound'.objects hchosen
  have hupdated := covers_updateObjects rules hloaded hchosen
  unfold finalizeTx
  simp only [hdirties]
  refine ⟨hwrites, covers_clear (covers_markDirties hupdated (liveDirties_eq hloaded) ?_)⟩
  intro a ha
  rw [isSome_updateObjects, isSome_updateObjects]
  have hmem := Multiset.mem_toFinset.mp (Finset.mem_filter.mp ha).1
  exact hloaded.live a (tracked_of_dirties hmem)

theorem commitBlock_covers (h : Covers True s t) (hsound : Sound True s) :
    finalValues (commitBlock rules t).1 = finalValues (commitBlock rules s).1 ∧
      Covers True (commitBlock rules s).2 (commitBlock rules t).2 := by
  have hloaded := covers_loadPending h
  have hsound' := moves_sound (loadPending_moves True s) hsound
  have hdirties := (hloaded.dirty trivial).1
  have hmarked : Covers True (markDirties (loadPending s).dirties.toFinset (loadPending s))
      (markDirties (loadPending t).dirties.toFinset (loadPending t)) :=
    covers_markDirties hloaded (by rw [hdirties])
      fun a ha => hloaded.live a (tracked_of_dirties (Multiset.mem_toFinset.mp ha))
  have hsame := (hmarked.dirty trivial).2
  have hchosen : ∀ a, (fun _ : Address => true) a = true →
      Tracked True (markDirties (loadPending s).dirties.toFinset (loadPending s)) a ∨
        decide (a ∈ (markDirties (loadPending s).dirties.toFinset
          (loadPending s)).stateObjectsDirty) = false := by
    intro a _
    by_cases hmem : a ∈ (markDirties (loadPending s).dirties.toFinset
        (loadPending s)).stateObjectsDirty
    · exact Or.inl (Or.inr ⟨trivial, Or.inr hmem⟩)
    · exact Or.inr (decide_eq_false hmem)
  have hwrites := final_updateObjects rules hmarked hsound'.objects hchosen
  have hupdated := covers_updateObjects rules hmarked hchosen
  unfold commitBlock makeWriteSet
  simp only [hsame]
  exact ⟨hwrites, covers_clear hupdated⟩

theorem rootRecords_fst (addresses : List Address) (s : IntraBlockState db) :
    (rootRecords addresses s).map Prod.fst =
      addresses.mapM fun a => (effective s a).map StateObject.data := by
  induction addresses generalizing s with
  | nil => rfl
  | cons a rest ih =>
    have hfst := (getStateObject_spec s a).1
    have heffective := effective_getStateObject s a
    rw [rootRecords, List.mapM_cons]
    rcases hget : s.getStateObject a with ⟨found, s'⟩
    rw [hget] at hfst heffective
    rw [← hfst]
    cases found with
    | none => rfl
    | some so =>
      have hrest := ih s'
      rw [heffective] at hrest
      rw [Option.map_some, ← hrest]
      simp only
      cases rootRecords rest s' with
      | none => rfl
      | some found => rfl

theorem rootRecords_covers {deep : Prop} (h : Covers deep s t) (addresses : List Address) :
    (rootRecords addresses t).map Prod.fst = (rootRecords addresses s).map Prod.fst := by
  have hdata : (fun a => (effective t a).map StateObject.data) =
      fun a => (effective s a).map StateObject.data := by
    funext a
    have hobject := h.objects a
    generalize effective s a = x at hobject ⊢
    generalize effective t a = y at hobject ⊢
    cases hobject with
    | none => rfl
    | some hcovers => exact congrArg some (congrArg Seen.data hcovers.seen_eq)
  rw [rootRecords_fst, rootRecords_fst, hdata]

def rootHash (s : IntraBlockState db) : Option Hash :=
  (generateRootHash s).map Prod.fst

theorem rootHash_eq (s : IntraBlockState db) :
    rootHash s =
      if s.stateObjectsDirty = ∅ then some (db.lib.keccak256 [])
      else ((rootRecords (ascending s.stateObjectsDirty) s).map Prod.fst).map
        fun records => db.lib.keccak256 (rootBytes records) := by
  unfold rootHash generateRootHash
  split
  · rfl
  · rw [Option.map_map, Option.map_map]
    rfl

theorem rootHash_covers (h : Covers True s t) : rootHash t = rootHash s := by
  rw [rootHash_eq, rootHash_eq, (h.dirty trivial).2, rootRecords_covers h]

end States

end N42.CommittedWrites
