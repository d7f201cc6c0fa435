import N42.StateLoading
import Mathlib.Data.Option.Basic

/-!
When one state within a block can stand for another.  A revert does not bring back the
very state that was marked, since what has been read stays loaded, but a state that answers
every question in the same way and, in the deep sense, is also committed in the same way.
-/

namespace N42.StateCovers

open ChainTypes FiniteTables StateObjects IntraBlock
open IntraBlock.IntraBlockState StateViews StateLoading
open UndoLogs (Respects)

section Objects

variable (db : Backend) (a : Address)

def startValue (so : StateObject) (key : Hash) : Uint256 :=
  baseValue db a so.created so.data.incarnation key

def codeNow (so : StateObject) : Option Bytes :=
  codeOf db a so.code so.data.incarnation so.data.codeHash

def newCode (so : StateObject) : Option Bytes :=
  if so.dirtyCode then codeNow db a so else none

/-- What no reader of the state sees, but the commit does: slots may have been read, or
written and written back, and code may have been set back to none. -/
structure Hidden (so so' : StateObject) : Prop where
  dirty : ∀ key, so'.dirtyStorage key ≠ none →
    so.dirtyStorage key ≠ none ∨ so'.blockOriginStorage.value key = startValue db a so key
  dirty_kept : ∀ key, so.dirtyStorage key ≠ none → so'.dirtyStorage key ≠ none
  blockOrigin : ∀ key, so'.blockOriginStorage key = so.blockOriginStorage key ∨
    so'.blockOriginStorage key = some (startValue db a so key)
  origin : ∀ key, so'.originStorage key = so.originStorage key ∨
    so.originStorage key = none ∧ so'.originStorage key = some (startValue db a so key) ∧
      so'.blockOriginStorage.value key = startValue db a so key
  code : so'.dirtyCode = true →
    so'.code = codeNow db a so' ∨ so.dirtyCode = true ∧ so'.code = so.code
  newCode : newCode db a so' = newCode db a so

structure ObjectCovers (deep : Prop) (so so' : StateObject) : Prop where
  seen_eq : seen db a so' = seen db a so
  hidden : deep → Hidden db a so so'

variable {db a} {deep : Prop} {so so' so'' : StateObject}

theorem Hidden.refl (so : StateObject) : Hidden db a so so :=
  ⟨fun _ h => Or.inl h, fun _ h => h, fun _ => Or.inl rfl, fun _ => Or.inl rfl,
    fun h => Or.inr ⟨h, rfl⟩, rfl⟩

theorem startValue_eq (h : seen db a so' = seen db a so) :
    startValue db a so' = startValue db a so := by
  have hcreated : so'.created = so.created := congrArg Seen.created h
  have hdata : so'.data = so.data := congrArg Seen.data h
  funext key
  rw [startValue, startValue, hcreated, hdata]

theorem codeNow_eq (h : seen db a so' = seen db a so) : codeNow db a so' = codeNow db a so :=
  congrArg Seen.code h

theorem Hidden.value_eq (h : Hidden db a so so') {key : Hash}
    (hvalue : so.blockOriginStorage.value key = startValue db a so key) :
    so'.blockOriginStorage.value key = startValue db a so key := by
  rcases h.blockOrigin key with hsame | hstart
  · rw [Storage.value, hsame]
    exact hvalue
  · rw [Storage.value, hstart]
    rfl

theorem Hidden.trans (hseen : seen db a so' = seen db a so) (h : Hidden db a so so')
    (h' : Hidden db a so' so'') (hseen' : seen db a so'' = seen db a so') :
    Hidden db a so so'' := by
  have hstart := startValue_eq hseen
  refine ⟨fun key hdirty => ?_, fun key hdirty => ?_, fun key => ?_, fun key => ?_, ?_, ?_⟩
  · rcases h'.dirty key hdirty with hdirty' | hvalue
    · rcases h.dirty key hdirty' with hleft | hvalue
      · exact Or.inl hleft
      · rw [← hstart] at hvalue ⊢
        exact Or.inr (h'.value_eq hvalue)
    · rw [hstart] at hvalue
      exact Or.inr hvalue
  · exact h'.dirty_kept key (h.dirty_kept key hdirty)
  · rcases h'.blockOrigin key with hsame | hvalue
    · rw [hsame]
      exact h.blockOrigin key
    · rw [hstart] at hvalue
      exact Or.inr hvalue
  · rcases h'.origin key with hsame | ⟨hnone, hsome, hvalue⟩
    · rcases h.origin key with hsame' | ⟨hnone, hsome, hvalue⟩
      · exact Or.inl (hsame.trans hsame')
      · rw [← hstart] at hvalue
        have hvalue' := h'.value_eq hvalue
        rw [hstart] at hvalue'
        exact Or.inr ⟨hnone, hsame.trans hsome, hvalue'⟩
    · rw [hstart] at hsome hvalue
      rcases h.origin key with hsame' | ⟨-, hsome', -⟩
      · exact Or.inr ⟨hsame'.symm.trans hnone, hsome, hvalue⟩
      · rw [hnone] at hsome'
        cases hsome'
  · intro hdirty
    rcases h'.code hdirty with hnow | ⟨hdirty', hcode⟩
    · exact Or.inl hnow
    · rcases h.code hdirty' with hnow | ⟨hdirty'', hcode'⟩
      · exact Or.inl (by rw [hcode, hnow, codeNow_eq hseen'])
      · exact Or.inr ⟨hdirty'', hcode.trans hcode'⟩
  · exact h'.newCode.trans h.newCode

theorem ObjectCovers.refl (so : StateObject) : ObjectCovers db a deep so so :=
  ⟨rfl, fun _ => .refl so⟩

theorem ObjectCovers.trans (h : ObjectCovers db a deep so so')
    (h' : ObjectCovers db a deep so' so'') : ObjectCovers db a deep so so'' :=
  ⟨h'.seen_eq.trans h.seen_eq,
    fun hdeep => (h.hidden hdeep).trans h.seen_eq (h'.hidden hdeep) h'.seen_eq⟩

theorem seen_setState (key : Hash) (value : Uint256) (so : StateObject) :
    seen db a (so.setState key value) =
      { seen db a so with current := Function.update (seen db a so).current key value } := by
  refine Seen.ext rfl rfl rfl rfl ?_ rfl rfl rfl rfl
  funext other
  by_cases h : other = key
  · simp [seen, current, StateObject.setState, h]
  · simp only [seen, current, StateObject.setState, Function.update_of_ne h]
    rfl

theorem ObjectCovers.setBalance (amount : Uint256) (h : ObjectCovers db a deep so so') :
    ObjectCovers db a deep (so.setBalance amount) (so'.setBalance amount) := by
  refine ⟨congrArg (fun x : Seen =>
    { x with data := { x.data with balance := amount, initialised := true } }) h.seen_eq, ?_⟩
  intro hdeep
  have hh := h.hidden hdeep
  exact ⟨hh.dirty, hh.dirty_kept, hh.blockOrigin, hh.origin, hh.code, hh.newCode⟩

theorem ObjectCovers.setNonce (nonce : UInt64) (h : ObjectCovers db a deep so so') :
    ObjectCovers db a deep (so.setNonce nonce) (so'.setNonce nonce) := by
  refine ⟨congrArg (fun x : Seen =>
    { x with data := { x.data with nonce := nonce } }) h.seen_eq, ?_⟩
  intro hdeep
  have hh := h.hidden hdeep
  exact ⟨hh.dirty, hh.dirty_kept, hh.blockOrigin, hh.origin, hh.code, hh.newCode⟩

theorem ObjectCovers.undestroy (prev : Bool) (balance : Uint256)
    (h : ObjectCovers db a deep so so') :
    ObjectCovers db a deep (so.undestroy prev balance) (so'.undestroy prev balance) := by
  refine ⟨congrArg (fun x : Seen =>
    { x with
      data := { x.data with balance := balance, initialised := true }
      selfdestructed := prev }) h.seen_eq, ?_⟩
  intro hdeep
  have hh := h.hidden hdeep
  exact ⟨hh.dirty, hh.dirty_kept, hh.blockOrigin, hh.origin, hh.code, hh.newCode⟩

theorem ObjectCovers.setCode (hash : Hash) (code : Option Bytes)
    (h : ObjectCovers db a deep so so') :
    ObjectCovers db a deep (so.setCode hash code) (so'.setCode hash code) := by
  have hseen := congrArg (fun x : Seen =>
    { x with
      data := { x.data with codeHash := hash }
      code := codeOf db a code x.data.incarnation hash }) h.seen_eq
  refine ⟨hseen, ?_⟩
  intro hdeep
  have hh := h.hidden hdeep
  exact ⟨hh.dirty, hh.dirty_kept, hh.blockOrigin, hh.origin, fun _ => Or.inr ⟨rfl, rfl⟩,
    codeNow_eq hseen⟩

theorem ObjectCovers.setState (key : Hash) (value : Uint256)
    (h : ObjectCovers db a deep so so') :
    ObjectCovers db a deep (so.setState key value) (so'.setState key value) := by
  refine ⟨by rw [seen_setState, seen_setState, h.seen_eq], ?_⟩
  intro hdeep
  have hh := h.hidden hdeep
  refine ⟨fun other hdirty => ?_, fun other hdirty => ?_, hh.blockOrigin, hh.origin, hh.code,
    hh.newCode⟩
  · by_cases heq : other = key
    · exact Or.inl (by simp [StateObject.setState, heq])
    · simp only [StateObject.setState, Function.update_of_ne heq] at hdirty ⊢
      exact hh.dirty other hdirty
  · by_cases heq : other = key
    · simp [StateObject.setState, heq]
    · simp only [StateObject.setState, Function.update_of_ne heq] at hdirty ⊢
      exact hh.dirty_kept other hdirty

theorem fake_value_update (fake : Storage) (key : Hash) (value : Uint256) :
    Storage.value (Function.update fake key (some value)) =
      Function.update fake.value key value := by
  funext other
  by_cases h : other = key
  · simp [Storage.value, h]
  · simp [Storage.value, h]

theorem ObjectCovers.setFake {fake fake' : Storage} (key : Hash) (value : Uint256)
    (hfake : fake'.value = fake.value) (h : ObjectCovers db a deep so so') :
    ObjectCovers db a deep (so.setFake fake key value) (so'.setFake fake' key value) := by
  have hnew : Storage.value (Function.update fake' key (some value)) =
      Storage.value (Function.update fake key (some value)) := by
    rw [fake_value_update, fake_value_update, hfake]
  refine ⟨?_, ?_⟩
  · have hseen := congrArg (fun x : Seen =>
      { x with fake := some (Storage.value (Function.update fake key (some value))) }) h.seen_eq
    refine Eq.trans ?_ hseen
    exact congrArg (fun f => { seen db a so' with fake := some f }) hnew
  · intro hdeep
    have hh := h.hidden hdeep
    exact ⟨hh.dirty, hh.dirty_kept, hh.blockOrigin, hh.origin, hh.code, hh.newCode⟩

end Objects

section States

variable {db : Backend} {deep : Prop} {s t u s' t' : IntraBlockState db} {a : Address}

/-- The addresses for which it matters whether their objects are live: those with an
increase and, when it comes to the commit, those that have changed. -/
def Tracked (deep : Prop) (s : IntraBlockState db) (a : Address) : Prop :=
  (s.balanceInc.lookup a).isSome = true ∨ deep ∧ (a ∈ s.dirties ∨ a ∈ s.stateObjectsDirty)

structure Covers (deep : Prop) (s t : IntraBlockState db) : Prop where
  objects : ∀ a, Option.Rel (ObjectCovers db a deep) (effective s a) (effective t a)
  live : ∀ a, Tracked deep s a → (t.stateObjects a).isSome = (s.stateObjects a).isSome
  balanceInc : t.balanceInc = s.balanceInc
  refund : t.refund = s.refund
  logs : t.logs = s.logs ∧ t.logSize = s.logSize
  accessList : t.accessList = s.accessList
  dirty : deep → t.dirties = s.dirties ∧ t.stateObjectsDirty = s.stateObjectsDirty

theorem covers_of_same (hobjects : t.stateObjects = s.stateObjects)
    (hinc : t.balanceInc = s.balanceInc) (hrefund : t.refund = s.refund)
    (hlogs : t.logs = s.logs ∧ t.logSize = s.logSize) (hlist : t.accessList = s.accessList)
    (hdirty : deep → t.dirties = s.dirties ∧ t.stateObjectsDirty = s.stateObjectsDirty) :
    Covers deep s t := by
  refine ⟨fun a => ?_, fun a _ => by rw [hobjects], hinc, hrefund, hlogs, hlist, hdirty⟩
  have heffective : effective t a = effective s a :=
    effective_congr (congrFun hobjects a) fun _ => by rw [hinc]
  rw [heffective]
  cases effective s a with
  | none => exact .none
  | some so => exact .some (.refl so)

theorem covers_of_changes (h : t.toChanges = s.toChanges) : Covers deep s t :=
  covers_of_same (congrArg Changes.stateObjects h) (congrArg Changes.balanceInc h)
    (congrArg Changes.refund h) ⟨congrArg Changes.logs h, congrArg Changes.logSize h⟩
    (congrArg Changes.accessList h)
    fun _ => ⟨congrArg Changes.dirties h, congrArg Changes.stateObjectsDirty h⟩

theorem Covers.refl (s : IntraBlockState db) : Covers deep s s :=
  covers_of_changes rfl

theorem Covers.tracked (h : Covers deep s t) : Tracked deep t a ↔ Tracked deep s a := by
  unfold Tracked
  rw [h.balanceInc]
  constructor
  · rintro (hinc | ⟨hdeep, hdirty⟩)
    · exact Or.inl hinc
    · rw [(h.dirty hdeep).1, (h.dirty hdeep).2] at hdirty
      exact Or.inr ⟨hdeep, hdirty⟩
  · rintro (hinc | ⟨hdeep, hdirty⟩)
    · exact Or.inl hinc
    · rw [← (h.dirty hdeep).1, ← (h.dirty hdeep).2] at hdirty
      exact Or.inr ⟨hdeep, hdirty⟩

theorem Covers.trans ⦃s t u : IntraBlockState db⦄ (h : Covers deep s t)
    (h' : Covers deep t u) : Covers deep s u := by
  refine ⟨fun a => ?_, fun a htracked => ?_, h'.balanceInc.trans h.balanceInc,
    h'.refund.trans h.refund, ⟨h'.logs.1.trans h.logs.1, h'.logs.2.trans h.logs.2⟩,
    h'.accessList.trans h.accessList, fun hdeep => ?_⟩
  · have hst := h.objects a
    have htu := h'.objects a
    generalize effective s a = x at hst
    generalize effective t a = y at hst htu
    generalize effective u a = z at htu
    cases hst with
    | none =>
      cases htu
      exact .none
    | some hxy =>
      cases htu with
      | some hyz => exact .some (hxy.trans hyz)
  · exact (h'.live a (h.tracked.mpr htracked)).trans (h.live a htracked)
  · exact ⟨(h'.dirty hdeep).1.trans (h.dirty hdeep).1, (h'.dirty hdeep).2.trans (h.dirty hdeep).2⟩

theorem Covers.pending (h : Covers deep s t) : t.hasPending a = s.hasPending a :=
  hasPending_of_lookup (by rw [h.balanceInc])

theorem Covers.isSome (h : Covers deep s t) : (effective t a).isSome = (effective s a).isSome := by
  have hobject := h.objects a
  generalize effective s a = x at hobject
  generalize effective t a = y at hobject
  cases hobject with
  | none => rfl
  | some _ => rfl

theorem Covers.transfers (h : Covers deep s t) : transfers t a = transfers s a := by
  unfold StateLoading.transfers
  rw [h.pending, h.isSome]
  cases hpending : s.hasPending a with
  | false => simp
  | true =>
    have htracked : Tracked deep s a := by
      left
      unfold hasPending at hpending
      cases hlookup : s.balanceInc.lookup a with
      | none => simp [hlookup] at hpending
      | some bi => rfl
    have hlive := h.live a htracked
    rw [← Option.not_isSome, ← Option.not_isSome, hlive]

theorem setTransferred_balanceInc (h : t.balanceInc = s.balanceInc) (flag : Bool) :
    (t.setTransferred a flag).balanceInc = (s.setTransferred a flag).balanceInc := by
  apply Table.ext_lookup
  rw [setTransferred_lookup, setTransferred_lookup, h]

theorem isSome_setTransferred (flag : Bool) (b : Address) :
    ((s.setTransferred a flag).balanceInc.lookup b).isSome = (s.balanceInc.lookup b).isSome := by
  rw [setTransferred_lookup]
  by_cases h : b = a
  · simp [h]
  · simp [h]

theorem Covers.load (h : Covers deep s t) (hs : LoadFrame s a s') (ht : LoadFrame t a t')
    (hes : effective s' = effective s) (het : effective t' = effective t) :
    Covers deep s' t' := by
  have htransfers := h.transfers (a := a)
  refine ⟨fun b => ?_, fun b htracked => ?_, ?_, ?_, ?_, ?_, ?_⟩
  · rw [hes, het]
    exact h.objects b
  · rw [hs.stateObjects, ht.stateObjects]
    by_cases hb : b = a
    · subst hb
      rw [Function.update_self, Function.update_self]
      exact h.isSome
    · rw [Function.update_of_ne hb, Function.update_of_ne hb]
      apply h.live b
      rcases htracked with hinc | ⟨hdeep, hdirty⟩
      · left
        rw [hs.balanceInc] at hinc
        split at hinc
        · rwa [isSome_setTransferred] at hinc
        · exact hinc
      · right
        refine ⟨hdeep, ?_⟩
        rw [hs.dirties, hs.stateObjectsDirty] at hdirty
        split at hdirty
        · simpa [hb] using hdirty
        · exact hdirty
  · rw [hs.balanceInc, ht.balanceInc, htransfers, h.balanceInc,
      setTransferred_balanceInc h.balanceInc]
  · rw [hs.refund, ht.refund, h.refund]
  · rw [hs.logs.1, hs.logs.2, ht.logs.1, ht.logs.2]
    exact h.logs
  · rw [hs.accessList, ht.accessList, h.accessList]
  · intro hdeep
    rw [hs.dirties, ht.dirties, hs.stateObjectsDirty, ht.stateObjectsDirty, htransfers,
      (h.dirty hdeep).1, (h.dirty hdeep).2]
    exact ⟨rfl, rfl⟩

theorem Covers.getStateObject (h : Covers deep s t) (a : Address) :
    Covers deep (s.getStateObject a).2 (t.getStateObject a).2 :=
  h.load (getStateObject_frame s a) (getStateObject_frame t a)
    (effective_getStateObject s a) (effective_getStateObject t a)

theorem Covers.put (h : Covers deep s t) {so so' : StateObject}
    (hobject : ObjectCovers db a deep so so') : Covers deep (s.put a so) (t.put a so') := by
  refine ⟨fun b => ?_, fun b htracked => ?_, h.balanceInc, h.refund, h.logs, h.accessList, h.dirty⟩
  · rw [effective_put, effective_put]
    by_cases hb : b = a
    · subst hb
      rw [Function.update_self, Function.update_self]
      exact .some hobject
    · rw [Function.update_of_ne hb, Function.update_of_ne hb]
      exact h.objects b
  · by_cases hb : b = a
    · simp [hb]
    · simpa [hb] using h.live b htracked

end States

end N42.StateCovers
