import N42.StateViews

/-!
Loading on demand.  Every address stands for the object that loading it would give, and
loading changes nothing about that.
-/

namespace N42.StateLoading

open ChainTypes FiniteTables StateObjects IntraBlock
open IntraBlock.IntraBlockState

variable {db : Backend}

section

variable (s : IntraBlockState db)

def withPending (a : Address) (so : StateObject) : StateObject :=
  if s.hasPending a then s.credit a so else so

def unloaded (a : Address) : Option StateObject :=
  match db.reader.readAccountData a with
  | .error _ => none
  | .ok none =>
    if s.hasPending a then some (withPending s a (blankObject db none)) else none
  | .ok (some account) => some (withPending s a (newObject db.lib account account))

def effective (a : Address) : Option StateObject :=
  match s.stateObjects a with
  | some so => some so
  | none => unloaded s a

def settled (a : Address) : IntraBlockState db :=
  if s.hasPending a then (s.setTransferred a true).append (.balanceIncreaseTransfer a) else s

def loaded (a : Address) : IntraBlockState db :=
  match s.stateObjects a with
  | some _ => s
  | none =>
    match db.reader.readAccountData a with
    | .error _ => s
    | .ok none => if s.hasPending a then (s.createObject a none).2 else s
    | .ok (some account) => (s.setStateObject a (newObject db.lib account account)).2

end

variable {s t : IntraBlockState db} {a : Address} {so : StateObject}

@[simp] theorem put_stateObjects :
    (s.put a so).stateObjects = Function.update s.stateObjects a (some so) :=
  rfl

theorem effective_of_live (h : s.stateObjects a = some so) : effective s a = some so := by
  rw [effective, h]

theorem effective_of_missing (h : s.stateObjects a = none) : effective s a = unloaded s a := by
  rw [effective, h]

theorem setStateObject_fst (so : StateObject) : (s.setStateObject a so).1 = withPending s a so := by
  unfold setStateObject withPending
  split
  · rfl
  · rfl

theorem hasPending_of_lookup (h : s.balanceInc.lookup a = t.balanceInc.lookup a) :
    s.hasPending a = t.hasPending a := by
  rw [hasPending, hasPending, h]

theorem withPending_of_lookup (h : s.balanceInc.lookup a = t.balanceInc.lookup a)
    (so : StateObject) : withPending s a so = withPending t a so := by
  rw [withPending, withPending, hasPending_of_lookup h, credit, credit, pendingIncrease,
    pendingIncrease, h]

section

variable (h : s.toChanges = t.toChanges)
include h

theorem lookup_of_changes (a : Address) : s.balanceInc.lookup a = t.balanceInc.lookup a :=
  congrArg (fun c => (Changes.balanceInc c).lookup a) h

theorem put_congr (a : Address) (so : StateObject) :
    (s.put a so).toChanges = (t.put a so).toChanges :=
  congrArg (fun c : Changes =>
    { c with stateObjects := Function.update c.stateObjects a (some so) }) h

theorem append_congr (e : JournalEntry) : (s.append e).toChanges = (t.append e).toChanges :=
  congrArg (fun c : Changes =>
    { c with
      entries := e :: c.entries
      dirties := e.dirtied.elim c.dirties fun account => account ::ₘ c.dirties }) h

theorem setTransferred_congr (a : Address) (flag : Bool) :
    (s.setTransferred a flag).toChanges = (t.setTransferred a flag).toChanges := by
  have hinc : s.balanceInc = t.balanceInc := congrArg Changes.balanceInc h
  unfold setTransferred
  rw [hinc]
  cases t.balanceInc.lookup a with
  | none => exact h
  | some bi =>
    exact congrArg (fun c : Changes =>
      { c with balanceInc := t.balanceInc.insert a { bi with transferred := flag } }) h

end

theorem setStateObject_snd (so : StateObject) :
    (s.setStateObject a so).2 = (settled s a).put a (withPending s a so) := by
  unfold setStateObject withPending settled
  split
  · rfl
  · rfl

theorem setStateObject_congr (h : s.toChanges = t.toChanges) (a : Address)
    (so : StateObject) :
    (s.setStateObject a so).2.toChanges = (t.setStateObject a so).2.toChanges := by
  have hlookup := lookup_of_changes h a
  rw [setStateObject_snd, setStateObject_snd, withPending_of_lookup hlookup]
  apply put_congr
  unfold settled
  rw [hasPending_of_lookup hlookup]
  split
  · exact append_congr (setTransferred_congr h a true) _
  · exact h

theorem createObject_congr (h : s.toChanges = t.toChanges) (a : Address)
    (previous : Option StateObject) :
    (s.createObject a previous).2.toChanges = (t.createObject a previous).2.toChanges :=
  setStateObject_congr (append_congr h _) a _

theorem createObject_fst (previous : Option StateObject) :
    (s.createObject a previous).1 = withPending s a (blankObject db previous) :=
  setStateObject_fst _

theorem getStateObject_error {e : ReadError} (hlive : s.stateObjects a = none)
    (hread : db.reader.readAccountData a = .error e) :
    s.getStateObject a = (none, s.setError .database) := by
  have hnil : a ∉ s.nilAccounts := by
    intro hmem
    have hnone := s.nil_sound a hmem
    rw [hread] at hnone
    cases hnone
  unfold getStateObject
  rw [hlive]
  simp only [if_neg hnil]
  split
  · rfl
  · rename_i h
    rw [hread] at h
    cases h
  · rename_i h
    rw [hread] at h
    cases h

theorem getStateObject_unknown (hlive : s.stateObjects a = none)
    (hread : db.reader.readAccountData a = .ok none) :
    ∃ u : IntraBlockState db, u.toChanges = s.toChanges ∧
      s.getStateObject a = u.missingObject a := by
  unfold getStateObject
  rw [hlive]
  by_cases hnil : a ∈ s.nilAccounts
  · exact ⟨s, rfl, if_pos hnil⟩
  · refine ⟨s.rememberNil a hread, rfl, ?_⟩
    simp only [if_neg hnil]
    split
    · rename_i h
      rw [hread] at h
      cases h
    · rfl
    · rename_i h
      rw [hread] at h
      cases h

theorem getStateObject_known {account : StateAccount} (hlive : s.stateObjects a = none)
    (hread : db.reader.readAccountData a = .ok (some account)) :
    s.getStateObject a = (some (s.loadObject a account).1, (s.loadObject a account).2) := by
  have hnil : a ∉ s.nilAccounts := by
    intro hmem
    have hnone := s.nil_sound a hmem
    rw [hread] at hnone
    cases hnone
  unfold getStateObject
  rw [hlive]
  simp only [if_neg hnil]
  split
  · rename_i h
    rw [hread] at h
    cases h
  · rename_i h
    rw [hread] at h
    cases h
  · rename_i found h
    rw [hread] at h
    cases h
    rfl

theorem getStateObject_spec (s : IntraBlockState db) (a : Address) :
    (s.getStateObject a).1 = effective s a ∧
      (s.getStateObject a).2.toChanges = (loaded s a).toChanges := by
  unfold effective loaded unloaded
  cases hlive : s.stateObjects a with
  | some so =>
    unfold getStateObject
    rw [hlive]
    exact ⟨rfl, rfl⟩
  | none =>
    cases hread : db.reader.readAccountData a with
    | error e =>
      rw [getStateObject_error hlive hread]
      exact ⟨rfl, rfl⟩
    | ok found =>
      cases found with
      | none =>
        obtain ⟨u, hu, hget⟩ := getStateObject_unknown hlive hread
        have hlookup := lookup_of_changes hu a
        rw [hget, missingObject, createObject_fst, withPending_of_lookup hlookup,
          hasPending_of_lookup hlookup]
        by_cases hpending : s.hasPending a = true
        · simp only [if_pos hpending]
          exact ⟨trivial, createObject_congr hu a none⟩
        · simp only [if_neg hpending]
          exact ⟨trivial, hu⟩
      | some account =>
        have hnote : (s.addAccount a account).toChanges = s.toChanges := rfl
        rw [getStateObject_known hlive hread]
        exact ⟨congrArg some (setStateObject_fst _), setStateObject_congr hnote a _⟩

theorem effective_congr (hlive : s.stateObjects a = t.stateObjects a)
    (hinc : s.stateObjects a = none → s.balanceInc.lookup a = t.balanceInc.lookup a) :
    effective s a = effective t a := by
  unfold effective
  rw [← hlive]
  cases hobj : s.stateObjects a with
  | some so => rfl
  | none =>
    have hlookup := hinc hobj
    simp only [unloaded, hasPending_of_lookup hlookup, withPending_of_lookup hlookup]

theorem effective_put (so : StateObject) :
    effective (s.put a so) = Function.update (effective s) a (some so) := by
  funext b
  by_cases hb : b = a
  · subst hb
    rw [Function.update_self]
    exact effective_of_live (by simp)
  · rw [Function.update_of_ne hb]
    exact effective_congr (by simp [hb]) fun _ => rfl

theorem effective_append (e : JournalEntry) : effective (s.append e) = effective s :=
  funext fun _ => effective_congr rfl fun _ => rfl

theorem effective_of_changes (h : s.toChanges = t.toChanges) : effective s = effective t :=
  funext fun a => effective_congr (congrArg (fun c => Changes.stateObjects c a) h)
    fun _ => lookup_of_changes h a

inductive Loads (s : IntraBlockState db) (a : Address) : IntraBlockState db → Prop
  | live {so : StateObject} (hlive : s.stateObjects a = some so) : Loads s a s
  | absent (hlive : s.stateObjects a = none) (hnone : effective s a = none) : Loads s a s
  | fresh {so : StateObject} (hlive : s.stateObjects a = none)
      (hpending : s.hasPending a = false) (hsome : effective s a = some so) : Loads s a (s.put a so)
  | credited {so : StateObject} {account : StateAccount} (hlive : s.stateObjects a = none)
      (hpending : s.hasPending a = true) (hread : db.reader.readAccountData a = .ok (some account))
      (hsome : effective s a = some so) : Loads s a ((settled s a).put a so)
  | created {so : StateObject} (hlive : s.stateObjects a = none)
      (hpending : s.hasPending a = true) (hread : db.reader.readAccountData a = .ok none)
      (hsome : effective s a = some so) :
      Loads s a ((settled (s.append (.createObjectChange a)) a).put a so)

theorem loads_loaded (s : IntraBlockState db) (a : Address) : Loads s a (loaded s a) := by
  have heffective : effective s a = effective s a := rfl
  conv at heffective => rhs; unfold effective unloaded
  unfold loaded
  cases hlive : s.stateObjects a with
  | some so => exact .live hlive
  | none =>
    rw [hlive] at heffective
    cases hread : db.reader.readAccountData a with
    | error e =>
      rw [hread] at heffective
      exact .absent hlive heffective
    | ok found =>
      rw [hread] at heffective
      cases found with
      | none =>
        by_cases hpending : s.hasPending a = true
        · simp only [if_pos hpending] at heffective ⊢
          rw [createObject, setStateObject_snd]
          exact .created hlive hpending hread heffective
        · simp only [if_neg hpending] at heffective ⊢
          exact .absent hlive heffective
      | some account =>
        simp only at heffective ⊢
        rw [setStateObject_snd]
        by_cases hpending : s.hasPending a = true
        · exact .credited hlive hpending hread heffective
        · rw [settled, if_neg hpending]
          exact .fresh hlive (Bool.eq_false_iff.mpr hpending) heffective

theorem setTransferred_stateObjects (flag : Bool) :
    (s.setTransferred a flag).stateObjects = s.stateObjects := by
  unfold setTransferred
  split
  · rfl
  · rfl

theorem settled_stateObjects : (settled s a).stateObjects = s.stateObjects := by
  unfold settled
  split
  · exact setTransferred_stateObjects true
  · rfl

theorem setTransferred_lookup (flag : Bool) :
    (s.setTransferred a flag).balanceInc.lookup = Function.update s.balanceInc.lookup a
        ((s.balanceInc.lookup a).map fun bi => { bi with transferred := flag }) := by
  unfold setTransferred
  cases h : s.balanceInc.lookup a with
  | none =>
    have hsame := Function.update_eq_self a s.balanceInc.lookup
    rw [h] at hsame
    exact hsame.symm
  | some bi => rfl

theorem settled_lookup_of_ne {b : Address} (h : b ≠ a) :
    (settled s a).balanceInc.lookup b = s.balanceInc.lookup b := by
  unfold settled
  split
  · show (s.setTransferred a true).balanceInc.lookup b = _
    rw [setTransferred_lookup, Function.update_of_ne h]
  · rfl

theorem effective_settled_put (hsome : effective s a = some so) :
    effective ((settled s a).put a so) = effective s := by
  funext b
  by_cases hb : b = a
  · subst hb
    rw [hsome]
    exact effective_of_live (by simp)
  · exact effective_congr (by simp [hb, settled_stateObjects]) fun _ => settled_lookup_of_ne hb

theorem Loads.effective_eq (h : Loads s a t) : effective t = effective s := by
  cases h with
  | live hlive => rfl
  | absent hlive hnone => rfl
  | fresh hlive hpending hsome =>
    rw [effective_put, ← hsome, Function.update_eq_self]
  | credited hlive hpending hread hsome => exact effective_settled_put hsome
  | created hlive hpending hread hsome =>
    have happend := effective_append (s := s) (.createObjectChange a)
    rw [← happend] at hsome ⊢
    exact effective_settled_put hsome

def unknown (db : Backend) (a : Address) : Bool :=
  match db.reader.readAccountData a with
  | .ok none => true
  | _ => false

def transfers (s : IntraBlockState db) (a : Address) : Bool :=
  (s.stateObjects a).isNone && s.hasPending a && (effective s a).isSome

def loadEntries (s : IntraBlockState db) (a : Address) : List JournalEntry :=
  if transfers s a then
    .balanceIncreaseTransfer a :: if unknown db a then [.createObjectChange a] else []
  else []

structure LoadFrame (s : IntraBlockState db) (a : Address) (t : IntraBlockState db) :
    Prop where
  stateObjects : t.stateObjects = Function.update s.stateObjects a (effective s a)
  balanceInc : t.balanceInc =
    if transfers s a then (s.setTransferred a true).balanceInc else s.balanceInc
  dirties : t.dirties = if transfers s a && unknown db a then a ::ₘ s.dirties else s.dirties
  entries : t.entries = loadEntries s a ++ s.entries
  stateObjectsDirty : t.stateObjectsDirty = s.stateObjectsDirty
  refund : t.refund = s.refund
  place : t.thash = s.thash ∧ t.bhash = s.bhash ∧ t.txIndex = s.txIndex
  logs : t.logs = s.logs ∧ t.logSize = s.logSize
  accessList : t.accessList = s.accessList
  revisions : t.validRevisions = s.validRevisions ∧ t.nextRevisionID = s.nextRevisionID

theorem LoadFrame.of_idle (hobject : s.stateObjects a = effective s a)
    (htransfers : transfers s a = false) : LoadFrame s a s where
  stateObjects := by rw [← hobject, Function.update_eq_self]
  balanceInc := by rw [htransfers]; rfl
  dirties := by rw [htransfers]; rfl
  entries := by rw [loadEntries, htransfers]; rfl
  stateObjectsDirty := rfl
  refund := rfl
  place := ⟨rfl, rfl, rfl⟩
  logs := ⟨rfl, rfl⟩
  accessList := rfl
  revisions := ⟨rfl, rfl⟩

theorem setTransferred_eq (flag : Bool) :
    s.setTransferred a flag = { s with balanceInc := (s.setTransferred a flag).balanceInc } := by
  unfold setTransferred
  split
  · rfl
  · rfl

theorem Loads.frame (h : Loads s a t) : LoadFrame s a t := by
  cases h with
  | live hlive =>
    exact .of_idle (by rw [hlive, effective_of_live hlive]) (by simp [transfers, hlive])
  | absent hlive hnone => exact .of_idle (by rw [hlive, hnone]) (by simp [transfers, hnone])
  | @fresh so hlive hpending hsome =>
    have htransfers : transfers s a = false := by simp [transfers, hpending]
    refine ⟨by rw [hsome]; rfl, ?_, ?_, ?_, rfl, rfl, ⟨rfl, rfl, rfl⟩, ⟨rfl, rfl⟩, rfl, ⟨rfl, rfl⟩⟩
    · rw [htransfers]
      rfl
    · rw [htransfers]
      rfl
    · rw [loadEntries, htransfers]
      rfl
  | @credited so account hlive hpending hread hsome =>
    have htransfers : transfers s a = true := by simp [transfers, hlive, hpending, hsome]
    have hunknown : unknown db a = false := by simp [unknown, hread]
    rw [settled, if_pos hpending, setTransferred_eq]
    refine ⟨by rw [hsome]; rfl, ?_, ?_, ?_, rfl, rfl, ⟨rfl, rfl, rfl⟩, ⟨rfl, rfl⟩, rfl, ⟨rfl, rfl⟩⟩
    · rw [htransfers]
      rfl
    · rw [htransfers, hunknown]
      rfl
    · rw [loadEntries, htransfers, hunknown]
      rfl
  | @created so hlive hpending hread hsome =>
    have htransfers : transfers s a = true := by simp [transfers, hlive, hpending, hsome]
    have hunknown : unknown db a = true := by simp [unknown, hread]
    have hinc : ((s.append (.createObjectChange a)).setTransferred a true).balanceInc =
        (s.setTransferred a true).balanceInc := by
      apply Table.ext_lookup
      rw [setTransferred_lookup, setTransferred_lookup]
      rfl
    have hstill : (s.append (.createObjectChange a)).hasPending a = true := hpending
    rw [settled, if_pos hstill, setTransferred_eq, hinc]
    refine ⟨by rw [hsome]; rfl, ?_, ?_, ?_, rfl, rfl, ⟨rfl, rfl, rfl⟩, ⟨rfl, rfl⟩, rfl, ⟨rfl, rfl⟩⟩
    · rw [htransfers]
      rfl
    · rw [htransfers, hunknown]
      rfl
    · rw [loadEntries, htransfers, hunknown]
      rfl

theorem getStateObject_frame (s : IntraBlockState db) (a : Address) :
    LoadFrame s a (s.getStateObject a).2 := by
  have hframe := (loads_loaded s a).frame
  have hchanges := (getStateObject_spec s a).2
  have hfields := congrArg Changes.stateObjects hchanges
  exact ⟨hfields.trans hframe.stateObjects,
    (congrArg Changes.balanceInc hchanges).trans hframe.balanceInc,
    (congrArg Changes.dirties hchanges).trans hframe.dirties,
    (congrArg Changes.entries hchanges).trans hframe.entries,
    (congrArg Changes.stateObjectsDirty hchanges).trans hframe.stateObjectsDirty,
    (congrArg Changes.refund hchanges).trans hframe.refund,
    ⟨(congrArg Changes.thash hchanges).trans hframe.place.1,
      (congrArg Changes.bhash hchanges).trans hframe.place.2.1,
      (congrArg Changes.txIndex hchanges).trans hframe.place.2.2⟩,
    ⟨(congrArg Changes.logs hchanges).trans hframe.logs.1,
      (congrArg Changes.logSize hchanges).trans hframe.logs.2⟩,
    (congrArg Changes.accessList hchanges).trans hframe.accessList,
    ⟨(congrArg Changes.validRevisions hchanges).trans hframe.revisions.1,
      (congrArg Changes.nextRevisionID hchanges).trans hframe.revisions.2⟩⟩

theorem effective_getStateObject (s : IntraBlockState db) (a : Address) :
    effective (s.getStateObject a).2 = effective s :=
  (effective_of_changes (getStateObject_spec s a).2).trans (loads_loaded s a).effective_eq

theorem stateObjects_getStateObject (s : IntraBlockState db) (a : Address) :
    (s.getStateObject a).2.stateObjects a = effective s a := by
  rw [(getStateObject_frame s a).stateObjects, Function.update_self]

end N42.StateLoading
