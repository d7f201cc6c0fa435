import N42.StateMoves

/-!
The invariant of the state within a block: what its caches say about the start of the
block, and how the increases, the live objects and the sets of changed addresses fit
together.
-/

namespace N42.StateSoundness

open ChainTypes
open MessageCalls (emptyCodeHash)
open AccessLists FiniteTables StateObjects IntraBlock
open IntraBlock.IntraBlockState StateOperations StateViews StateLoading
open StateCovers StateMoves
open Relation (ReflTransGen)

section Objects

variable {db : Backend} {a : Address} {deep safe : Prop} {so so' : StateObject}

/-- What the commit relies on: the slots that are written know their value at the start of
the block, the other slots have that value, and new code is loaded. -/
structure Clean (db : Backend) (a : Address) (so : StateObject) : Prop where
  blockOrigin : ∀ key, so.blockOriginStorage key = none ∨
    so.blockOriginStorage key = some (startValue db a so key)
  start : ∀ key, so.dirtyStorage key ≠ none ∨ so.originStorage key ≠ none →
    so.blockOriginStorage.value key = startValue db a so key
  origin : ∀ key, so.dirtyStorage key = none →
    so.originStorage key = none ∨ so.originStorage key = some (startValue db a so key)
  code : so.dirtyCode = true → so.code = codeNow db a so

structure ObjectSound (db : Backend) (a : Address) (deep : Prop) (so : StateObject) :
    Prop where
  initialised : so.data.initialised = true
  clean : deep → Clean db a so

theorem Clean.of_hidden (h : Clean db a so) (hhidden : Hidden db a so so')
    (hseen : seen db a so' = seen db a so) : Clean db a so' := by
  have hstart := startValue_eq hseen
  refine ⟨fun key => ?_, fun key hused => ?_, fun key hdirty => ?_, fun hdirty => ?_⟩
  · rw [hstart]
    rcases hhidden.blockOrigin key with hsame | hvalue
    · rw [hsame]
      exact h.blockOrigin key
    · exact Or.inr hvalue
  · rw [hstart]
    rcases hused with hdirty | horigin
    · rcases hhidden.dirty key hdirty with hbefore | hvalue
      · exact hhidden.value_eq (h.start key (Or.inl hbefore))
      · exact hvalue
    · rcases hhidden.origin key with hsame | ⟨-, -, hvalue⟩
      · rw [hsame] at horigin
        exact hhidden.value_eq (h.start key (Or.inr horigin))
      · exact hvalue
  · rw [hstart]
    have hbefore : so.dirtyStorage key = none := by
      by_contra hne
      exact hhidden.dirty_kept key hne hdirty
    rcases hhidden.origin key with hsame | ⟨-, hvalue, -⟩
    · rw [hsame]
      exact h.origin key hbefore
    · exact Or.inr hvalue
  · rcases hhidden.code hdirty with hnow | ⟨hbefore, hcode⟩
    · exact hnow
    · rw [hcode, h.code hbefore, codeNow_eq hseen]

theorem ObjectSound.of_covers (h : ObjectSound db a deep so)
    (hcovers : ObjectCovers db a deep so so') : ObjectSound db a deep so' := by
  have hdata : so'.data = so.data := congrArg Seen.data hcovers.seen_eq
  refine ⟨by rw [hdata]; exact h.initialised, fun hdeep => ?_⟩
  exact (h.clean hdeep).of_hidden (hcovers.hidden hdeep) hcovers.seen_eq

theorem objectSound_fresh (h : Fresh so) : ObjectSound db a deep so := by
  refine ⟨h.initialised, fun _ => ⟨fun key => ?_, fun key hused => ?_, fun key _ => ?_,
    fun hdirty => ?_⟩⟩
  · exact Or.inl (by rw [h.blockOrigin]; rfl)
  · rw [h.dirty, h.origin] at hused
    simp [noStorage] at hused
  · exact Or.inl (by rw [h.origin]; rfl)
  · rw [h.code] at hdirty
    cases hdirty

theorem Clean.start_of_read {key : Hash} (h : Clean db a so) (hread : SlotRead db a so key) :
    so.blockOriginStorage.value key = startValue db a so key := by
  rcases hread with hdirty | horigin | hzero
  · exact h.start key (Or.inl hdirty)
  · exact h.start key (Or.inr horigin)
  · rcases h.blockOrigin key with hnone | hsome
    · rw [Storage.value, hnone, hzero]
      rfl
    · rw [Storage.value, hsome]
      rfl

theorem Clean.setState {key : Hash} {value : Uint256} (h : Clean db a so)
    (hread : SlotRead db a so key) : Clean db a (so.setState key value) := by
  refine ⟨h.blockOrigin, fun other hused => ?_, fun other hdirty => ?_, h.code⟩
  · by_cases heq : other = key
    · rw [heq]
      exact h.start_of_read hread
    · simp only [StateObject.setState, Function.update_of_ne heq] at hused
      exact h.start other hused
  · by_cases heq : other = key
    · simp [StateObject.setState, heq] at hdirty
    · simp only [StateObject.setState, Function.update_of_ne heq] at hdirty
      exact h.origin other hdirty

theorem codeNow_setCode (code : Option Bytes) :
    codeNow db a (so.setCode (db.lib.keccak256 (code.getD [])) code) = code := by
  cases code with
  | none => simp [codeNow, codeOf, StateObject.setCode, emptyCodeHash]
  | some code => rfl

theorem objectSound_edit {e : JournalEntry} (h : ObjectSound db a deep so)
    (hedit : Edit db deep safe a so e so') : ObjectSound db a deep so' := by
  cases hedit with
  | balance amount =>
    refine ⟨rfl, fun hdeep => ?_⟩
    have hclean := h.clean hdeep
    exact ⟨hclean.blockOrigin, hclean.start, hclean.origin, hclean.code⟩
  | nonce nonce =>
    refine ⟨h.initialised, fun hdeep => ?_⟩
    have hclean := h.clean hdeep
    exact ⟨hclean.blockOrigin, hclean.start, hclean.origin, hclean.code⟩
  | code code hsafe =>
    refine ⟨h.initialised, fun hdeep => ?_⟩
    have hclean := h.clean hdeep
    exact ⟨hclean.blockOrigin, hclean.start, hclean.origin, fun _ => (codeNow_setCode code).symm⟩
  | storage key value hread =>
    exact ⟨h.initialised, fun hdeep => (h.clean hdeep).setState hread⟩
  | fakeStorage key value hfake =>
    refine ⟨h.initialised, fun hdeep => ?_⟩
    have hclean := h.clean hdeep
    exact ⟨hclean.blockOrigin, hclean.start, hclean.origin, hclean.code⟩
  | destroy hsafe =>
    refine ⟨h.initialised, fun hdeep => ?_⟩
    have hclean := h.clean hdeep
    have hstart : startValue db a so.destroy = startValue db a so := by
      funext key
      rw [startValue, startValue, hsafe (Or.inr hdeep)]
      rfl
    exact ⟨by rw [hstart]; exact hclean.blockOrigin, by rw [hstart]; exact hclean.start,
      by rw [hstart]; exact hclean.origin, hclean.code⟩

theorem objectSound_setStorage (storage : Storage) (h : ObjectSound db a deep so) :
    ObjectSound db a deep (so.setStorage storage) := by
  refine ⟨h.initialised, fun hdeep => ?_⟩
  have hclean := h.clean hdeep
  exact ⟨hclean.blockOrigin, hclean.start, hclean.origin, hclean.code⟩

end Objects

section States

variable {db : Backend} {deep safe : Prop} {s t : IntraBlockState db} {a : Address}
  {so : StateObject}

structure Sound (deep : Prop) (s : IntraBlockState db) : Prop where
  objects : ∀ a so, effective s a = some so → ObjectSound db a deep so
  /-- An increase is transferred when the account is live, and not before. -/
  increases : ∀ a bi, s.balanceInc.lookup a = some bi →
    bi.transferred = (s.stateObjects a).isSome ∧ bi.count ≠ 0
  accessList : s.accessList.Placed
  dirties : deep → ∀ a ∈ s.dirties,
    (s.stateObjects a).isSome = true ∨ (s.balanceInc.lookup a).isSome = true
  stateObjectsDirty : deep → ∀ a ∈ s.stateObjectsDirty, (s.stateObjects a).isSome = true

theorem Sound.of_covers (h : Sound deep s) (hcovers : Covers deep s t) : Sound deep t := by
  refine ⟨fun a so' hso' => ?_, fun a bi hbi => ?_, ?_, fun hdeep a ha => ?_, fun hdeep a ha => ?_⟩
  · have hobject := hcovers.objects a
    rw [hso'] at hobject
    cases hso : effective s a with
    | none =>
      rw [hso] at hobject
      cases hobject
    | some so =>
      rw [hso] at hobject
      cases hobject with
      | some hobjects => exact (h.objects a so hso).of_covers hobjects
  · rw [hcovers.balanceInc] at hbi
    rw [hcovers.live a (Or.inl (by rw [hbi]; rfl))]
    exact h.increases a bi hbi
  · rw [hcovers.accessList]
    exact h.accessList
  · rw [(hcovers.dirty hdeep).1] at ha
    rw [hcovers.balanceInc, hcovers.live a (Or.inr ⟨hdeep, Or.inl ha⟩)]
    exact h.dirties hdeep a ha
  · rw [(hcovers.dirty hdeep).2] at ha
    rw [hcovers.live a (Or.inr ⟨hdeep, Or.inr ha⟩)]
    exact h.stateObjectsDirty hdeep a ha

theorem fresh_unloaded (h : unloaded s a = some so) : Fresh so := by
  unfold unloaded at h
  split at h
  · cases h
  · split at h
    · cases h
      exact (fresh_newObject _ _ _).withPending
    · cases h
  · cases h
    exact (fresh_newObject _ _ _).withPending

theorem objects_of_live
    (h : ∀ a so, s.stateObjects a = some so → ObjectSound db a deep so) :
    ∀ a so, effective s a = some so → ObjectSound db a deep so := by
  intro a so hso
  unfold effective at hso
  cases hlive : s.stateObjects a with
  | some found =>
    rw [hlive] at hso
    cases hso
    exact h a so hlive
  | none =>
    rw [hlive] at hso
    exact objectSound_fresh (fresh_unloaded hso)

theorem Sound.new (db : Backend) : Sound deep (IntraBlockState.new db) := by
  refine ⟨objects_of_live fun a so h => ?_, fun a bi h => ?_, AccessList.placed_new,
    fun _ a h => ?_, fun _ a h => ?_⟩
  · cases h
  · cases h
  · exact absurd h (Multiset.notMem_zero a)
  · exact absurd h (Finset.notMem_empty a)

theorem Sound.live_of_transferred (h : Sound deep s) (hlive : s.stateObjects a = none)
    (hpending : s.hasPending a = false) : s.balanceInc.lookup a = none := by
  cases hlookup : s.balanceInc.lookup a with
  | none => rfl
  | some bi =>
    have hbi := (h.increases a bi hlookup).1
    rw [hlive] at hbi
    have htransferred : bi.transferred = false := hbi
    simp [hasPending, hlookup, htransferred] at hpending

theorem Sound.load (h : Sound deep s) (a : Address) : Sound deep (s.getStateObject a).2 := by
  have hframe := getStateObject_frame s a
  have hkept : ∀ b, (s.stateObjects b).isSome = true →
      ((s.getStateObject a).2.stateObjects b).isSome = true := by
    intro b hlive
    rw [hframe.stateObjects]
    by_cases hb : b = a
    · subst hb
      obtain ⟨so, hso⟩ := Option.isSome_iff_exists.mp hlive
      rw [Function.update_self, effective_of_live hso]
      rfl
    · rwa [Function.update_of_ne hb]
  refine ⟨?_, fun b bi hbi => ?_, ?_, fun hdeep b hb => ?_, fun hdeep b hb => ?_⟩
  · rw [effective_getStateObject]
    exact h.objects
  · rw [hframe.balanceInc] at hbi
    rw [hframe.stateObjects]
    by_cases hb : b = a
    · subst hb
      rw [Function.update_self]
      cases htransfers : transfers s b with
      | true =>
        rw [htransfers, if_pos rfl, setTransferred_lookup, Function.update_self,
          Option.map_eq_some_iff] at hbi
        obtain ⟨old, hold, rfl⟩ := hbi
        have hsome : (effective s b).isSome = true := by
          unfold transfers at htransfers
          simp only [Bool.and_eq_true] at htransfers
          exact htransfers.2
        exact ⟨hsome.symm, (h.increases b old hold).2⟩
      | false =>
        rw [htransfers, if_neg Bool.false_ne_true] at hbi
        obtain ⟨hflag, hcount⟩ := h.increases b bi hbi
        refine ⟨?_, hcount⟩
        rw [hflag]
        cases hlive : s.stateObjects b with
        | some so => rw [effective_of_live hlive]
        | none =>
          rw [hlive] at hflag
          have hpending : s.hasPending b = true := by simp [hasPending, hbi, hflag]
          simpa [transfers, hlive, hpending] using htransfers
    · rw [Function.update_of_ne hb]
      apply h.increases b bi
      split at hbi
      · rwa [setTransferred_lookup, Function.update_of_ne hb] at hbi
      · exact hbi
  · rw [hframe.accessList]
    exact h.accessList
  · rw [hframe.dirties] at hb
    by_cases hba : b = a ∧ transfers s a = true
    · obtain ⟨rfl, htransfers⟩ := hba
      left
      rw [hframe.stateObjects, Function.update_self]
      unfold transfers at htransfers
      simp only [Bool.and_eq_true] at htransfers
      exact htransfers.2
    · have hbefore : b ∈ s.dirties := by
        split at hb
        · rename_i hcreates
          rcases Multiset.mem_cons.mp hb with hb | hb
          · simp only [Bool.and_eq_true] at hcreates
            exact absurd ⟨hb, hcreates.1⟩ hba
          · exact hb
        · exact hb
      rcases h.dirties hdeep b hbefore with hlive | hinc
      · exact Or.inl (hkept b hlive)
      · right
        rw [hframe.balanceInc]
        split
        · rwa [isSome_setTransferred]
        · exact hinc
  · rw [hframe.stateObjectsDirty] at hb
    exact hkept b (h.stateObjectsDirty hdeep b hb)

variable {e : JournalEntry}

theorem Sound.append (h : Sound deep s)
    (hdirtied : ∀ b, e.dirtied = some b → (s.stateObjects b).isSome = true) :
    Sound deep (s.append e) := by
  refine ⟨h.objects, h.increases, h.accessList, fun hdeep b hb => ?_, h.stateObjectsDirty⟩
  cases he : e.dirtied with
  | none =>
    have hbefore : b ∈ s.dirties := by simpa [IntraBlockState.append, he] using hb
    exact h.dirties hdeep b hbefore
  | some account =>
    have hcases : b = account ∨ b ∈ s.dirties := by
      simpa [IntraBlockState.append, he] using hb
    rcases hcases with rfl | hbefore
    · exact Or.inl (hdirtied b he)
    · exact h.dirties hdeep b hbefore

variable {so' : StateObject}

theorem Sound.put (h : Sound deep s) (hlive : (s.stateObjects a).isSome = true)
    (hsound : ObjectSound db a deep so') :
    Sound deep (s.put a so') := by
  have hsame : ∀ b, ((s.put a so').stateObjects b).isSome = (s.stateObjects b).isSome := by
    intro b
    by_cases hb : b = a
    · subst hb
      simp [hlive]
    · simp [hb]
  refine ⟨fun b so hso => ?_, fun b bi hbi => ?_, h.accessList, fun hdeep b hb => ?_,
    fun hdeep b hb => ?_⟩
  · rw [effective_put] at hso
    by_cases hb : b = a
    · subst hb
      rw [Function.update_self] at hso
      cases hso
      exact hsound
    · rw [Function.update_of_ne hb] at hso
      exact h.objects b so hso
  · rw [hsame]
    exact h.increases b bi hbi
  · rw [hsame]
    exact h.dirties hdeep b hb
  · rw [hsame]
    exact h.stateObjectsDirty hdeep b hb

theorem edit_dirtied (h : Edit db deep safe a so e so') : e.dirtied = some a := by
  cases h with
  | balance amount => rfl
  | nonce nonce => rfl
  | code code hsafe => rfl
  | storage key value hread => rfl
  | fakeStorage key value hfake => rfl
  | destroy hsafe => rfl

theorem settled_transferred {bi : BalanceIncrease}
    (h : (settled s a).balanceInc.lookup a = some bi) :
    bi.transferred = true ∧ ∃ old, s.balanceInc.lookup a = some old ∧ old.count = bi.count := by
  unfold settled at h
  by_cases hpending : s.hasPending a = true
  · rw [if_pos hpending] at h
    have hlookup : (s.setTransferred a true).balanceInc.lookup a = some bi := h
    rw [setTransferred_lookup, Function.update_self, Option.map_eq_some_iff] at hlookup
    obtain ⟨old, hold, rfl⟩ := hlookup
    exact ⟨rfl, old, hold, rfl⟩
  · rw [if_neg hpending] at h
    exact ⟨by simpa [hasPending, h] using hpending, bi, h, rfl⟩

theorem settled_eq : settled s a =
    { s with
      balanceInc := (settled s a).balanceInc
      entries := (settled s a).entries } := by
  unfold settled
  split
  · unfold setTransferred
    cases s.balanceInc.lookup a with
    | none => rfl
    | some bi => rfl
  · rfl

theorem isSome_settled (b : Address) :
    ((settled s a).balanceInc.lookup b).isSome = (s.balanceInc.lookup b).isSome := by
  unfold settled
  split
  · exact isSome_setTransferred true b
  · rfl

theorem Sound.created (h : Sound deep s) (hfresh : Fresh so')
    (hdirtied : e.dirtied = none ∨ e.dirtied = some a) :
    Sound deep ((settled (s.append e) a).put a so') := by
  have hstate : (settled (s.append e) a).stateObjects = s.stateObjects := settled_stateObjects
  have hlive : ∀ b, (s.stateObjects b).isSome = true →
      (((settled (s.append e) a).put a so').stateObjects b).isSome = true := by
    intro b hb
    by_cases hba : b = a
    · simp [hba]
    · simpa [hba, hstate] using hb
  refine ⟨fun b so hso => ?_, fun b bi hbi => ?_, ?_, fun hdeep b hb => ?_, fun hdeep b hb => ?_⟩
  · by_cases hb : b = a
    · subst hb
      rw [effective_put, Function.update_self] at hso
      cases hso
      exact objectSound_fresh hfresh
    · have hbefore : effective ((settled (s.append e) a).put a so') b = effective s b :=
        effective_congr (by simp [hb, hstate]) fun _ => settled_lookup_of_ne hb
      rw [hbefore] at hso
      exact h.objects b so hso
  · by_cases hb : b = a
    · subst hb
      obtain ⟨hflag, old, hold, hcount⟩ := settled_transferred hbi
      refine ⟨by rw [hflag]; simp, ?_⟩
      rw [← hcount]
      exact (h.increases b old hold).2
    · have hother : (settled (s.append e) a).balanceInc.lookup b = s.balanceInc.lookup b :=
        settled_lookup_of_ne hb
      have hlookup : s.balanceInc.lookup b = some bi := hother.symm.trans hbi
      have hsame : ((settled (s.append e) a).put a so').stateObjects b = s.stateObjects b := by
        simp [hb, hstate]
      rw [hsame]
      exact h.increases b bi hlookup
  · rw [settled_eq]
    exact h.accessList
  · have hmem : b = a ∨ b ∈ s.dirties := by
      rw [settled_eq] at hb
      rcases hdirtied with hnone | hsome
      · exact Or.inr (by simpa [IntraBlockState.append, IntraBlockState.put, hnone] using hb)
      · simpa [IntraBlockState.append, IntraBlockState.put, hsome] using hb
    rcases hmem with rfl | hbefore
    · exact Or.inl (by simp)
    · rcases h.dirties hdeep b hbefore with hb | hinc
      · exact Or.inl (hlive b hb)
      · right
        show ((settled (s.append e) a).balanceInc.lookup b).isSome = true
        rw [isSome_settled]
        exact hinc
  · rw [settled_eq] at hb
    exact hlive b (h.stateObjectsDirty hdeep b hb)

theorem Sound.increase (h : Sound deep s) (hlive : s.stateObjects a = none)
    (amount : Uint256) : Sound deep (increaseBalance a amount s) := by
  have hlookup : ∀ b, b ≠ a →
      (increaseBalance a amount s).balanceInc.lookup b = s.balanceInc.lookup b := by
    intro b hb
    simp [increaseBalance, hb]
  refine ⟨fun b so hso => ?_, fun b bi hbi => ?_, h.accessList, fun hdeep b hb => ?_,
    h.stateObjectsDirty⟩
  · by_cases hb : b = a
    · subst hb
      have hmissing : (increaseBalance b amount s).stateObjects b = none := hlive
      rw [effective_of_missing hmissing] at hso
      exact objectSound_fresh (fresh_unloaded hso)
    · have hbefore : effective (increaseBalance a amount s) b = effective s b :=
        effective_congr rfl fun _ => hlookup b hb
      rw [hbefore] at hso
      exact h.objects b so hso
  · by_cases hb : b = a
    · subst hb
      have hmissing : (increaseBalance b amount s).stateObjects b = none := hlive
      rw [hmissing]
      simp only [increaseBalance, Table.lookup_insert, Function.update_self,
        Option.some.injEq] at hbi
      subst hbi
      refine ⟨?_, Nat.succ_ne_zero _⟩
      cases hold : s.balanceInc.lookup b with
      | none => rfl
      | some old =>
        have hflag := (h.increases b old hold).1
        rw [hlive] at hflag
        exact hflag
    · rw [hlookup b hb] at hbi
      exact h.increases b bi hbi
  · by_cases hba : b = a
    · exact Or.inr (by simp [increaseBalance, hba])
    · rw [hlookup b hba]
      have hbefore : b ∈ s.dirties := by
        simpa [increaseBalance, IntraBlockState.append, JournalEntry.dirtied, hba] using hb
      exact h.dirties hdeep b hbefore

theorem Sound.touch (h : Sound deep s) (hlive : (s.stateObjects a).isSome = true) :
    Sound deep (touch a s) := by
  have hmem : ∀ b, b ∈ (StateOperations.touch a s).dirties → b = a ∨ b ∈ s.dirties := by
    intro b hb
    unfold StateOperations.touch at hb
    split at hb
    · simpa [IntraBlockState.append, JournalEntry.dirtied] using hb
    · simpa [IntraBlockState.append, JournalEntry.dirtied] using hb
  have hsame : StateOperations.touch a s = { s with
        entries := (StateOperations.touch a s).entries
        dirties := (StateOperations.touch a s).dirties } := by
    unfold StateOperations.touch
    split
    · rfl
    · rfl
  rw [hsame]
  refine ⟨h.objects, h.increases, h.accessList, fun hdeep b hb => ?_, h.stateObjectsDirty⟩
  rcases hmem b hb with rfl | hbefore
  · exact Or.inl hlive
  · exact h.dirties hdeep b hbefore

theorem Sound.address (h : Sound deep s) (a : Address) :
    Sound deep (addAddressToAccessList a s) := by
  have hplaced : (s.accessList.addAddress a).2.Placed := h.accessList.addAddress
  unfold addAddressToAccessList
  split
  · exact h
  · rename_i al hadd
    rw [hadd] at hplaced
    exact ⟨h.objects, h.increases, hplaced, h.dirties, h.stateObjectsDirty⟩

theorem placed_addSlot {al al' : AccessList} {slot : Hash} {addrMod slotMod : Bool}
    (h : al.Placed) (hadd : al.addSlot a slot = some (addrMod, slotMod, al')) :
    al'.Placed := by
  unfold AccessList.addSlot at hadd
  split at hadd
  · cases hadd
    exact h.addSlots
  · cases hadd
    exact h.addSlots
  · obtain ⟨slotmap, hslots, hcase⟩ := Option.map_eq_some_iff.mp hadd
    split at hcase
    · cases hcase
      exact h
    · cases hcase
      exact h.insert

theorem appendIf_eq (changed : Bool) (e : JournalEntry) (hclean : e.dirtied = none) :
    appendIf changed e s = { s with entries := (appendIf changed e s).entries } := by
  unfold appendIf
  split
  · simp [append, hclean]
  · rfl

theorem Sound.slot {slot : Hash} (h : Sound deep s)
    (hadd : addSlotToAccessList a slot s = some t) : Sound deep t := by
  obtain ⟨⟨addrMod, slotMod, al⟩, hal, rfl⟩ := Option.map_eq_some_iff.mp hadd
  simp only
  rw [appendIf_eq _ _ rfl, appendIf_eq _ _ rfl]
  exact ⟨h.objects, h.increases, placed_addSlot h.accessList hal, h.dirties, h.stateObjectsDirty⟩

/-- A move keeps the invariant. -/
theorem Move.sound (hmove : Move deep safe s t) (h : Sound deep s) : Sound deep t := by
  cases hmove with
  | quiet hchanges => exact h.of_covers (covers_of_changes hchanges)
  | load a hsafe => exact h.load a
  | @remember a so so' hlive hcovers =>
    have hobject : ObjectCovers db a deep so so' :=
      ⟨hcovers.seen_eq, fun _ => hcovers.hidden trivial⟩
    exact h.put (by rw [hlive]; rfl) ((h.objects a so (effective_of_live hlive)).of_covers hobject)
  | @edit a so so' e hlive hedit =>
    have hsome : (s.stateObjects a).isSome = true := by rw [hlive]; rfl
    have hentry : Sound deep (s.append e) := h.append fun b hb => by
      rw [edit_dirtied hedit] at hb
      cases hb
      exact hsome
    exact hentry.put hsome (objectSound_edit (h.objects a so (effective_of_live hlive)) hedit)
  | create hlive hfresh => exact h.created hfresh (Or.inr rfl)
  | reset hlive hfresh => exact h.created hfresh (Or.inl rfl)
  | increase hlive amount => exact h.increase hlive amount
  | touch hlive hsafe => exact h.touch hlive
  | refund refund =>
    exact ⟨h.objects, h.increases, h.accessList, h.dirties, h.stateObjectsDirty⟩
  | log log => exact ⟨h.objects, h.increases, h.accessList, h.dirties, h.stateObjectsDirty⟩
  | address a => exact h.address a
  | slot hadd => exact h.slot hadd
  | @setStorage a so hlive storage hsafe =>
    exact h.put (by rw [hlive]; rfl)
      (objectSound_setStorage storage (h.objects a so (effective_of_live hlive)))
  | @setIncarnation a so hlive incarnation hsafe hdeep =>
    exact h.put (by rw [hlive]; rfl)
      ⟨(h.objects a so (effective_of_live hlive)).initialised, fun hd => absurd hd hdeep⟩

theorem moves_sound (hmoves : ReflTransGen (Move deep safe) s t) (h : Sound deep s) :
    Sound deep t := by
  induction hmoves with
  | refl => exact h
  | tail _ hmove ih => exact Move.sound hmove ih

end States

end N42.StateSoundness
