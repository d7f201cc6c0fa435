import N42.StateSoundness

/-!
The end of a transaction keeps the invariant of the state within a block.
-/

namespace N42.StateBoundaries

open ChainTypes StateObjects IntraBlock StateFinalization StateLoading
open StateMoves StateSoundness
open Relation (ReflTransGen)

variable {db : Backend} {deep : Prop} {s : IntraBlockState db} {a : Address}

theorem loadPending_moves (deep : Prop) (s : IntraBlockState db) :
    ReflTransGen (Move deep False) s (loadPending s) := by
  have hfold : ∀ (addresses : List Address) (t : IntraBlockState db),
      ReflTransGen (Move deep False) s t → ReflTransGen (Move deep False) s (addresses.foldl
        (fun s a => if s.hasPending a then (s.getStateObject a).2 else s) t) := by
    intro addresses
    induction addresses with
    | nil => exact fun t h => h
    | cons a rest ih =>
      intro t h
      rw [List.foldl_cons]
      apply ih
      split
      · exact h.tail (.load a False.elim)
      · exact h
  exact hfold _ s .refl

theorem clean_flushStorage {so : StateObject} (h : Clean db a so) :
    Clean db a (flushStorage so) := by
  have horigin : ∀ key, (flushStorage so).originStorage key =
      (so.dirtyStorage key).elim (so.originStorage key) some := by
    intro key
    unfold flushStorage
    simp only
    cases so.dirtyStorage key with
    | none => rfl
    | some value => rfl
  refine ⟨h.blockOrigin, fun key hused => ?_, fun key hdirty => ?_, h.code⟩
  · apply h.start key
    by_cases hdirty : so.dirtyStorage key = none
    · rw [horigin, hdirty] at hused
      rcases hused with hused | hused
      · exact absurd hdirty hused
      · exact Or.inr hused
    · exact Or.inl hdirty
  · have hnone : so.dirtyStorage key = none := hdirty
    rw [horigin, hnone]
    exact h.origin key hdirty

theorem objectSound_updateAccount {so : StateObject} (rules : Rules) (isDirty : Bool)
    (h : ObjectSound db a deep so) :
    ObjectSound db a deep (updateAccount db.lib rules a so isDirty).2 := by
  unfold updateAccount
  simp only
  split
  · refine ⟨h.initialised, fun hdeep => clean_flushStorage ?_⟩
    have hclean := h.clean hdeep
    exact ⟨hclean.blockOrigin, hclean.start, hclean.origin, hclean.code⟩
  · refine ⟨h.initialised, fun hdeep => ?_⟩
    have hclean := h.clean hdeep
    exact ⟨hclean.blockOrigin, hclean.start, hclean.origin, hclean.code⟩

theorem isSome_updateObjects (rules : Rules) (chosen dirty : Address → Bool) :
    (((updateObjects rules chosen dirty s).2.stateObjects a)).isSome =
      (s.stateObjects a).isSome := by
  unfold updateObjects
  simp only
  split
  · rw [Option.isSome_map]
  · rfl

theorem sound_updateObjects (rules : Rules) (chosen dirty : Address → Bool)
    (h : Sound deep s) : Sound deep (updateObjects rules chosen dirty s).2 := by
  refine ⟨objects_of_live fun a so hso => ?_, fun a bi hbi => ?_, h.accessList,
    fun hdeep a ha => ?_, fun hdeep a ha => ?_⟩
  · unfold StateFinalization.updateObjects at hso
    simp only at hso
    split at hso
    · obtain ⟨old, hold, rfl⟩ := Option.map_eq_some_iff.mp hso
      exact objectSound_updateAccount rules _ (h.objects a old (effective_of_live hold))
    · exact h.objects a so (effective_of_live hso)
  · rw [isSome_updateObjects]
    exact h.increases a bi hbi
  · rw [isSome_updateObjects]
    exact h.dirties hdeep a ha
  · rw [isSome_updateObjects]
    exact h.stateObjectsDirty hdeep a ha

theorem sound_clear {dirty : Finset Address} (h : Sound deep s)
    (hdirty : ∀ a ∈ dirty, (s.stateObjects a).isSome = true) :
    Sound deep (clearJournalAndRefund (markDirties dirty s)) := by
  refine ⟨h.objects, h.increases, h.accessList, fun _ a ha => ?_, fun hdeep a ha => ?_⟩
  · exact absurd ha (Multiset.notMem_zero a)
  · rcases Finset.mem_union.mp ha with hbefore | hmarked
    · exact h.stateObjectsDirty hdeep a hbefore
    · exact hdirty a hmarked

theorem sound_finalizeTx (rules : Rules) (h : Sound deep s) :
    Sound deep (finalizeTx rules s).2 := by
  have hloaded := moves_sound (loadPending_moves deep s) h
  exact sound_clear (sound_updateObjects rules _ _ hloaded) fun a ha =>
    (isSome_updateObjects rules _ _).trans (Finset.mem_filter.mp ha).2

theorem sound_softFinalise (h : Sound deep s) : Sound deep (softFinalise s) :=
  sound_clear h fun _ ha => (Finset.mem_filter.mp ha).2

end N42.StateBoundaries
