import N42.EntryReversal
import Mathlib.Logic.Relation

/-!
The operations on the state within a block come down to a few kinds of moves: reading,
editing a live object, creating one, increasing the balance of an account that is not
loaded, and edits of the other parts.  Invariants are proved move by move.
-/

namespace N42.StateMoves

open ChainTypes
open MessageCalls (Log emptyCodeHash)
open StateObjects IntraBlock IntraBlock.IntraBlockState StateOperations
open StateViews StateLoading StateCovers
open Relation (ReflTransGen)

variable {db : Backend}

/-- Loading transfers an increase to an object that is in the database; a revert takes the
mark back but not the balance. -/
def exposed (s : IntraBlockState db) (a : Address) : Bool :=
  transfers s a && !unknown db a

structure Fresh (so : StateObject) : Prop where
  initialised : so.data.initialised = true
  origin : so.originStorage = noStorage
  blockOrigin : so.blockOriginStorage = noStorage
  dirty : so.dirtyStorage = noStorage
  code : so.dirtyCode = false

def SlotRead (db : Backend) (a : Address) (so : StateObject) (key : Hash) : Prop :=
  so.dirtyStorage key ≠ none ∨ so.originStorage key ≠ none ∨ startValue db a so key = 0

/-- Journaled edits of an object.  With `safe` the entry undoes the edit, with `deep` also
for the commit. -/
inductive Edit (db : Backend) (deep safe : Prop) (a : Address) (so : StateObject) :
    JournalEntry → StateObject → Prop
  | balance (amount : Uint256) :
      Edit db deep safe a so (.balanceChange a so.data.balance) (so.setBalance amount)
  | nonce (nonce : UInt64) :
      Edit db deep safe a so (.nonceChange a so.data.nonce) (so.setNonce nonce)
  | code (code : Option Bytes)
      (hsafe : safe → deep → so.dirtyCode = true ∨ codeNow db a so = none) :
      Edit db deep safe a so (.codeChange a so.data.codeHash (codeNow db a so))
        (so.setCode (db.lib.keccak256 (code.getD [])) code)
  | storage (key : Hash) (value : Uint256) (hread : SlotRead db a so key) :
      Edit db deep safe a so (.storageChange a key (current db a so key)) (so.setState key value)
  | fakeStorage (key : Hash) (value : Uint256) {fake : Storage}
      (hfake : so.fakeStorage = some fake) :
      Edit db deep safe a so (.fakeStorageChange a key (fake.value key)) (so.setFake fake key value)
  | destroy (hsafe : safe ∨ deep → so.created = false) :
      Edit db deep safe a so (.selfdestructChange a so.selfdestructed so.data.balance) so.destroy

inductive Move (deep safe : Prop) (s : IntraBlockState db) : IntraBlockState db → Prop
  | quiet {t : IntraBlockState db} (h : t.toChanges = s.toChanges) : Move deep safe s t
  | load (a : Address) (hsafe : safe → exposed s a = false) :
      Move deep safe s (s.getStateObject a).2
  | remember {a : Address} {so so' : StateObject} (hlive : s.stateObjects a = some so)
      (hcovers : ObjectCovers db a True so so') : Move deep safe s (s.put a so')
  | edit {a : Address} {so so' : StateObject} {e : JournalEntry}
      (hlive : s.stateObjects a = some so) (hedit : Edit db deep safe a so e so') :
      Move deep safe s ((s.append e).put a so')
  | create {a : Address} {so : StateObject} (hlive : s.stateObjects a = none) (hfresh : Fresh so) :
      Move deep safe s ((settled (s.append (.createObjectChange a)) a).put a so)
  | reset {a : Address} {so so' : StateObject} (hlive : s.stateObjects a = some so)
      (hfresh : Fresh so') :
      Move deep safe s ((settled (s.append (.resetObjectChange a so)) a).put a so')
  | increase {a : Address} (hlive : s.stateObjects a = none) (amount : Uint256) :
      Move deep safe s (increaseBalance a amount s)
  | touch {a : Address} (hlive : (s.stateObjects a).isSome = true)
      (hsafe : safe → deep → a ≠ ripemd) : Move deep safe s (touch a s)
  | refund (refund : UInt64) :
      Move deep safe s { s.append (.refundChange s.refund) with refund := refund }
  | log (log : Log) : Move deep safe s (addLog log s)
  | address (a : Address) : Move deep safe s (addAddressToAccessList a s)
  | slot {a : Address} {slot : Hash} {t : IntraBlockState db}
      (h : addSlotToAccessList a slot s = some t) : Move deep safe s t
  | setStorage {a : Address} {so : StateObject} (hlive : s.stateObjects a = some so)
      (storage : Storage) (hsafe : ¬ safe) : Move deep safe s (s.put a (so.setStorage storage))
  | setIncarnation {a : Address} {so : StateObject} (hlive : s.stateObjects a = some so)
      (incarnation : UInt16) (hsafe : ¬ safe) (hdeep : ¬ deep) :
      Move deep safe s (s.put a (so.setIncarnation incarnation))

inductive Reading (safe : Prop) (s : IntraBlockState db) : IntraBlockState db → Prop
  | quiet {t : IntraBlockState db} (h : t.toChanges = s.toChanges) : Reading safe s t
  | load (a : Address) (hsafe : safe → exposed s a = false) : Reading safe s (s.getStateObject a).2
  | remember {a : Address} {so so' : StateObject} (hlive : s.stateObjects a = some so)
      (hcovers : ObjectCovers db a True so so') : Reading safe s (s.put a so')

variable {deep safe : Prop} {s t : IntraBlockState db} {a : Address} {so : StateObject}

theorem Reading.move (h : Reading safe s t) : Move deep safe s t := by
  cases h with
  | quiet hchanges => exact .quiet hchanges
  | load a hsafe => exact .load a hsafe
  | remember hlive hcovers => exact .remember hlive hcovers

theorem reads_moves (h : ReflTransGen (Reading safe) s t) : ReflTransGen (Move deep safe) s t :=
  ReflTransGen.mono (fun _ _ hread => Reading.move hread) s t h

theorem fresh_newObject (lib : Primitives) (data original : StateAccount) :
    Fresh (newObject lib data original) :=
  ⟨rfl, rfl, rfl, rfl, rfl⟩

theorem Fresh.withPending (h : Fresh so) : Fresh (withPending s a so) := by
  unfold StateLoading.withPending
  split
  · exact ⟨h.initialised, h.origin, h.blockOrigin, h.dirty, h.code⟩
  · exact h

theorem fresh_createdObject (contractCreation : Bool) (previous : Option StateObject)
    (h : Fresh so) : Fresh (createdObject db a contractCreation previous so) := by
  have hcarried : Fresh (previous.elim so fun prev => so.setBalance prev.data.balance) := by
    cases previous with
    | none => exact h
    | some prev => exact ⟨rfl, h.origin, h.blockOrigin, h.dirty, h.code⟩
  cases contractCreation with
  | true =>
    exact ⟨hcarried.initialised, hcarried.origin, hcarried.blockOrigin, hcarried.dirty,
      hcarried.code⟩
  | false =>
    exact ⟨hcarried.initialised, hcarried.origin, hcarried.blockOrigin, hcarried.dirty,
      hcarried.code⟩

theorem put_put (so so' : StateObject) : (s.put a so).put a so' = s.put a so' := by
  simp [put]

theorem move_create {so' : StateObject} (hfresh : Fresh so') :
    Move deep safe s ((settled (s.append (creationEntry a (s.stateObjects a))) a).put a so') := by
  cases hlive : s.stateObjects a with
  | none => exact .create hlive hfresh
  | some so => exact .reset hlive hfresh

theorem createObject_snd (previous : Option StateObject) :
    (s.createObject a previous).2 = (settled (s.append (creationEntry a previous)) a).put a
        (withPending s a (blankObject db previous)) := by
  rw [createObject, setStateObject_snd]
  rfl

theorem getOrNewStateObject_eq (s : IntraBlockState db) (a : Address) :
    s.getOrNewStateObject a =
      (effective s a).elim ((s.getStateObject a).2.createObject a none) fun so =>
        if so.deleted then (s.getStateObject a).2.createObject a (some so)
        else (so, (s.getStateObject a).2) := by
  rw [getOrNewStateObject, ← (getStateObject_spec s a).1]
  rcases s.getStateObject a with ⟨found, s'⟩
  cases found with
  | none => rfl
  | some so => rfl

theorem getOrNew_moves (deep : Prop) (hsafe : safe → exposed s a = false) :
    ReflTransGen (Move deep safe) s (s.getOrNewStateObject a).2 ∧
      (s.getOrNewStateObject a).2.stateObjects a = some (s.getOrNewStateObject a).1 := by
  have hload : ReflTransGen (Move deep safe) s (s.getStateObject a).2 := .single (.load a hsafe)
  have hlive := stateObjects_getStateObject s a
  have hcreate : ReflTransGen (Move deep safe) s
      ((s.getStateObject a).2.createObject a (effective s a)).2 := by
    refine hload.tail ?_
    rw [createObject_snd, ← hlive]
    exact move_create (fresh_newObject _ _ _).withPending
  rw [getOrNewStateObject_eq]
  cases hso : effective s a with
  | none =>
    rw [hso] at hcreate
    refine ⟨hcreate, ?_⟩
    rw [Option.elim_none, createObject_snd, createObject_fst, put_stateObjects,
      Function.update_self]
  | some so =>
    rw [hso] at hcreate hlive
    rw [Option.elim_some]
    split
    · refine ⟨hcreate, ?_⟩
      rw [createObject_snd, createObject_fst, put_stateObjects, Function.update_self]
    · exact ⟨hload, hlive⟩

section Reads

theorem objectCovers_loadCode (so : StateObject) :
    ObjectCovers db a deep so (so.loadCode db a).2 := by
  refine ⟨seen_loadCode so, fun _ => ?_⟩
  have hload : (so.loadCode db a).2 = so ∨ _ := loadCode_snd so
  rcases hload with h | h
  · rw [h]
    exact .refl so
  · rw [h]
    refine ⟨fun _ hdirty => Or.inl hdirty, fun _ hdirty => hdirty, fun _ => Or.inl rfl,
      fun _ => Or.inl rfl, fun _ => Or.inl (codeOf_codeOf _ _ _).symm, ?_⟩
    simp only [newCode, codeNow, codeOf_codeOf]

theorem objectCovers_rememberSlot {key : Hash} (h : so.originStorage key = none) :
    ObjectCovers db a deep so (so.rememberSlot key (startValue db a so key)) := by
  refine ⟨seen_rememberSlot h, fun _ => ?_⟩
  have hvalue : (so.rememberSlot key (startValue db a so key)).blockOriginStorage.value key =
      startValue db a so key := by
    simp [StateObject.rememberSlot, Storage.value]
  refine ⟨fun _ hdirty => Or.inl hdirty, fun _ hdirty => hdirty, fun other => ?_,
    fun other => ?_, fun hdirty => Or.inr ⟨hdirty, rfl⟩, rfl⟩
  · by_cases heq : other = key
    · exact Or.inr (by simp [StateObject.rememberSlot, heq])
    · exact Or.inl (by simp [StateObject.rememberSlot, heq])
  · by_cases heq : other = key
    · subst heq
      exact Or.inr ⟨h, by simp [StateObject.rememberSlot], hvalue⟩
    · exact Or.inl (by simp [StateObject.rememberSlot, heq])

theorem objectCovers_getCommittedState (so : StateObject) (key : Hash) :
    ObjectCovers db a deep so (so.getCommittedState db a key).2 := by
  rcases (getCommittedState_cases so key).2 with h | ⟨horigin, h⟩
  · rw [h]
    exact .refl so
  · rw [h]
    exact objectCovers_rememberSlot horigin

theorem objectCovers_getState (so : StateObject) (key : Hash) :
    ObjectCovers db a deep so (so.getState db a key).2 := by
  unfold StateObject.getState
  cases so.fakeStorage with
  | some fake => exact .refl so
  | none =>
    cases so.dirtyStorage key with
    | some value => exact .refl so
    | none => exact objectCovers_getCommittedState so key

theorem slotRead_getState (key : Hash) (hfake : so.fakeStorage = none) :
    SlotRead db a (so.getState db a key).2 key := by
  unfold StateObject.getState
  rw [hfake]
  cases hdirty : so.dirtyStorage key with
  | some value => exact Or.inl (by simp [hdirty])
  | none =>
    unfold StateObject.getCommittedState
    rw [hfake]
    cases horigin : so.originStorage key with
    | some value => exact Or.inr (Or.inl (by simp [horigin]))
    | none =>
      by_cases hcreated : so.created = true
      · exact Or.inr (Or.inr (by simp [startValue, baseValue, hcreated]))
      · simp only [if_neg hcreated]
        cases hread : db.reader.readAccountStorage a so.data.incarnation key with
        | error e =>
          exact Or.inr (Or.inr (by simp [startValue, baseValue, hcreated, slotRead, hread]))
        | ok enc => exact Or.inr (Or.inl (by simp [StateObject.rememberSlot]))

theorem noteCodeRead_changes : (noteCodeRead a so s).toChanges = s.toChanges := by
  unfold noteCodeRead
  split
  · rfl
  · split
    · rfl
    · rfl

theorem noteSlotRead_changes (key : Hash) : (noteSlotRead a key so s).toChanges = s.toChanges := by
  unfold noteSlotRead
  split
  · split
    · rfl
    · rfl
    · rfl
    · rfl
  · rfl

theorem noteStateRead_changes (key : Hash) :
    (noteStateRead a key so s).toChanges = s.toChanges := by
  unfold noteStateRead
  split
  · rfl
  · exact noteSlotRead_changes key

theorem remember_reads {so' : StateObject} (hlive : s.stateObjects a = some so)
    (hcovers : ObjectCovers db a True so so') (hnote : t.toChanges = s.toChanges) :
    ReflTransGen (Reading safe) s (t.put a so') := by
  have hlive' : t.stateObjects a = some so :=
    (congrArg (fun c => Changes.stateObjects c a) hnote).trans hlive
  exact (ReflTransGen.single (.quiet hnote)).tail (.remember hlive' hcovers)

theorem quiet_reads (hnote : t.toChanges = s.toChanges) : ReflTransGen (Reading safe) s t :=
  .single (.quiet hnote)

end Reads

section Operations

/-- The account that a question is about, if it is about one. -/
def loadedFor : Query → Option Address
  | .exist a | .empty a | .getBalance a | .getNonce a | .getCode a | .getCodeHash a
  | .getState a _ | .getCommittedState a _ | .getIncarnation a | .hasSelfdestructed a => some a
  | .getRefund | .getLogs _ | .addressInAccessList _ | .slotInAccessList _ _ => none

/-- Operations after which the caches of an object still fit its place in the database: the
incarnation stays the same and new contracts stay new. -/
def Settling (s : IntraBlockState db) : Operation → Prop
  | .setIncarnation _ _ => False
  | .selfdestruct a => ∀ so, effective s a = some so → so.deleted = true ∨ so.created = false
  | _ => True

/-- Operations whose journal entries undo them, with `deep` also for the commit.  What is
left out: loading a database account whose balance was increased unread, destroying a
contract of this block, storage overrides and incarnations, which are not journaled at all,
and for the commit a new code over an old one and the touch of the precompile. -/
def Revertible (deep : Prop) (s : IntraBlockState db) : Operation → Prop
  | .createAccount a _ | .subBalance a _ | .setBalance a _ | .setNonce a _ | .setState a _ _
  | .getCodeSize a => exposed s a = false
  | .addBalance a amount => a = ripemd → amount = 0 → exposed s a = false ∧ ¬ deep
  | .setCode a _ => exposed s a = false ∧ (deep → ∀ so, effective s a = some so →
        so.deleted = true ∨ so.dirtyCode = true ∨ codeNow db a so = none)
  | .setStorage _ _ | .setIncarnation _ _ => False
  | .selfdestruct a => exposed s a = false ∧
      ∀ so, effective s a = some so → so.deleted = true ∨ so.created = false
  | .ask q => ∀ a, loadedFor q = some a → exposed s a = false
  | .addLog _ | .addRefund _ | .subRefund _ | .addAddressToAccessList _
  | .addSlotToAccessList _ _ | .snapshot | .revertToSnapshot _ => True

section

variable (hsafe : safe → exposed s a = false)
include hsafe

theorem load_reads {found : Option StateObject} {s' : IntraBlockState db}
    (h : s.getStateObject a = (found, s')) :
    ReflTransGen (Reading safe) s s' ∧ s'.stateObjects a = found ∧ effective s a = found := by
  have hfst := (getStateObject_spec s a).1
  have hlive := stateObjects_getStateObject s a
  have hmove : Reading safe s (s.getStateObject a).2 := .load a hsafe
  rw [h] at hfst hlive hmove
  exact ⟨.single hmove, hlive.trans hfst.symm, hfst.symm⟩

theorem inspect_reads {α : Type} {absent : α} {f : StateObject → α} :
    ReflTransGen (Reading safe) s (inspect absent f a s).2 := by
  unfold inspect
  rcases hget : s.getStateObject a with ⟨found, s'⟩
  have hload := (load_reads hsafe hget).1
  cases found with
  | none => exact hload
  | some so => exact hload

theorem getIncarnation_reads : ReflTransGen (Reading safe) s (getIncarnation a s).2 := by
  unfold getIncarnation
  rcases hget : s.getStateObject a with ⟨found, s'⟩
  have hload := (load_reads hsafe hget).1
  cases found with
  | none => exact hload
  | some so => exact hload

theorem getCode_reads : ReflTransGen (Reading safe) s (getCode a s).2 := by
  unfold getCode
  rcases hget : s.getStateObject a with ⟨found, s'⟩
  obtain ⟨hload, hlive, -⟩ := load_reads hsafe hget
  cases found with
  | none => exact hload
  | some so =>
    by_cases hdeleted : so.deleted = true
    · simp only [if_pos hdeleted]
      exact hload
    · simp only [if_neg hdeleted]
      have hput : ReflTransGen (Reading safe) s
          ((noteCodeRead a so s').put a (so.loadCode db a).2) :=
        hload.trans (remember_reads hlive (objectCovers_loadCode so) noteCodeRead_changes)
      split
      · exact hput.trans (quiet_reads rfl)
      · exact hput

theorem getCodeSize_reads : ReflTransGen (Reading safe) s (getCodeSize a s).2 := by
  unfold getCodeSize
  rcases hget : s.getStateObject a with ⟨found, s'⟩
  obtain ⟨hload, hlive, -⟩ := load_reads hsafe hget
  cases found with
  | none => exact hload
  | some so =>
    simp only
    split
    · exact hload
    · split
      · exact hload
      · split
        · exact hload.trans (quiet_reads rfl)
        · split
          · exact hload.trans (quiet_reads rfl)
          · exact hload

end

theorem getCommittedState_reads (key : Hash) (hsafe : safe → exposed s a = false) :
    ReflTransGen (Reading safe) s (StateOperations.getCommittedState a key s).2 := by
  unfold StateOperations.getCommittedState
  rcases hget : s.getStateObject a with ⟨found, s'⟩
  obtain ⟨hload, hlive, -⟩ := load_reads hsafe hget
  cases found with
  | none => exact hload
  | some so =>
    simp only
    split
    · exact hload
    · exact hload.trans (remember_reads hlive (objectCovers_getCommittedState so key)
        (noteSlotRead_changes key))

theorem getState_reads (key : Hash) (hsafe : safe → exposed s a = false) :
    ReflTransGen (Reading safe) s (StateOperations.getState a key s).2 := by
  unfold StateOperations.getState
  rcases hget : s.getStateObject a with ⟨found, s'⟩
  obtain ⟨hload, hlive, -⟩ := load_reads hsafe hget
  cases found with
  | none => exact hload
  | some so =>
    simp only
    split
    · exact hload
    · exact hload.trans (remember_reads hlive (objectCovers_getState so key)
        (noteStateRead_changes key))

theorem ask_reads (q : Query)
    (hsafe : safe → ∀ a, loadedFor q = some a → exposed s a = false) :
    ReflTransGen (Reading safe) s (ask s q).2 := by
  cases q with
  | exist a =>
    show ReflTransGen _ s (exist a s).2
    exact inspect_reads fun h => hsafe h a rfl
  | empty a =>
    show ReflTransGen _ s (StateOperations.empty a s).2
    exact inspect_reads fun h => hsafe h a rfl
  | getBalance a =>
    show ReflTransGen _ s (getBalance a s).2
    exact inspect_reads fun h => hsafe h a rfl
  | getNonce a =>
    show ReflTransGen _ s (getNonce a s).2
    exact inspect_reads fun h => hsafe h a rfl
  | getCode a => exact getCode_reads fun h => hsafe h a rfl
  | getCodeHash a =>
    show ReflTransGen _ s (getCodeHash a s).2
    exact inspect_reads fun h => hsafe h a rfl
  | getState a key => exact getState_reads key fun h => hsafe h a rfl
  | getCommittedState a key => exact getCommittedState_reads key fun h => hsafe h a rfl
  | getIncarnation a => exact getIncarnation_reads fun h => hsafe h a rfl
  | hasSelfdestructed a =>
    show ReflTransGen _ s (hasSelfdestructed a s).2
    exact inspect_reads fun h => hsafe h a rfl
  | getRefund => exact .refl
  | getLogs hash => exact .refl
  | addressInAccessList a => exact .refl
  | slotInAccessList a slot => exact .refl

theorem getOrNew_edit {e : JournalEntry} {so' : StateObject}
    (hsafe : safe → exposed s a = false)
    (hedit : Edit db deep safe a (s.getOrNewStateObject a).1 e so') :
    ReflTransGen (Move deep safe) s (((s.getOrNewStateObject a).2.append e).put a so') := by
  obtain ⟨hmoves, hlive⟩ := getOrNew_moves deep hsafe
  exact hmoves.tail (.edit hlive hedit)

theorem exposed_of_live (h : (s.stateObjects a).isSome = true) : exposed s a = false := by
  obtain ⟨so, hso⟩ := Option.isSome_iff_exists.mp h
  simp [exposed, transfers, hso]

theorem addBalance_moves (amount : Uint256)
    (hsafe : safe → a = ripemd → amount = 0 → exposed s a = false ∧ ¬ deep) :
    ReflTransGen (Move deep safe) s (addBalance a amount s) := by
  unfold addBalance
  split
  · rename_i hdirect
    have hexposed : safe → exposed s a = false := by
      intro h
      rcases hdirect with hlive | ⟨hripemd, hzero⟩
      · exact exposed_of_live hlive
      · exact (hsafe h hripemd hzero).1
    obtain ⟨hmoves, hlive⟩ := getOrNew_moves deep hexposed
    unfold addBalanceTo
    split
    · rename_i hzero
      split
      · refine hmoves.tail (.touch (by rw [hlive]; rfl) ?_)
        intro h hdeep hripemd
        exact (hsafe h hripemd hzero).2 hdeep
      · exact hmoves
    · exact hmoves.tail (.edit hlive (.balance _))
  · rename_i hlazy
    have hmissing : s.stateObjects a = none := by
      rw [← Option.not_isSome_iff_eq_none]
      exact fun h => hlazy (Or.inl h)
    exact .single (.increase hmissing amount)

theorem setCode_object (hash : Hash) (code : Option Bytes) (so : StateObject) :
    (so.loadCode db a).2.setCode hash code = so.setCode hash code := by
  have hload : (so.loadCode db a).2 = so ∨ _ := loadCode_snd so
  rcases hload with h | h
  · rw [h]
  · rw [h]
    rfl

theorem codeNow_blank (previous : Option StateObject) :
    codeNow db a (withPending s a (blankObject db previous)) = none := by
  have hblank : codeNow db a (blankObject db previous) = none := by
    simp [codeNow, blankObject, newObject, StateAccount.zero, codeOf]
  unfold withPending
  split
  · exact hblank
  · exact hblank

theorem setCode_moves (code : Option Bytes) (hsafe : safe → exposed s a = false)
    (hcode : safe → deep → ∀ so, effective s a = some so →
      so.deleted = true ∨ so.dirtyCode = true ∨ codeNow db a so = none) :
    ReflTransGen (Move deep safe) s (setCode a code s) := by
  unfold setCode
  obtain ⟨hmoves, hlive⟩ := getOrNew_moves deep hsafe
  have hnow : safe → deep → (s.getOrNewStateObject a).1.dirtyCode = true ∨
      codeNow db a (s.getOrNewStateObject a).1 = none := by
    intro h hdeep
    rw [getOrNewStateObject_eq]
    cases hso : effective s a with
    | none =>
      right
      rw [Option.elim_none, createObject_fst]
      exact codeNow_blank none
    | some so =>
      rw [Option.elim_some]
      split
      · right
        rw [createObject_fst]
        exact codeNow_blank _
      · rename_i hdeleted
        rcases hcode h hdeep so hso with hdel | hkept
        · exact absurd hdel hdeleted
        · exact hkept
  rcases hget : s.getOrNewStateObject a with ⟨so, s'⟩
  rw [hget] at hmoves hlive hnow
  simp only at hmoves hlive hnow ⊢
  rw [setCode_object, loadCode_fst]
  have hnote : (noteCodeRead a so s').toChanges = s'.toChanges := noteCodeRead_changes
  have hlive' : (noteCodeRead a so s').stateObjects a = some so :=
    (congrArg (fun c => Changes.stateObjects c a) hnote).trans hlive
  exact (hmoves.tail (.quiet hnote)).tail (.edit hlive' (.code code hnow))

theorem setState_moves (key : Hash) (value : Uint256) (hsafe : safe → exposed s a = false) :
    ReflTransGen (Move deep safe) s (setState a key value s) := by
  unfold setState
  obtain ⟨hmoves, hlive⟩ := getOrNew_moves deep hsafe
  rcases hget : s.getOrNewStateObject a with ⟨so, s'⟩
  rw [hget] at hmoves hlive
  unfold setStateOf
  simp only at hmoves hlive ⊢
  cases hfake : so.fakeStorage with
  | some fake => exact hmoves.tail (.edit hlive (.fakeStorage key value hfake))
  | none =>
    simp only
    have hread : ReflTransGen (Move deep safe) s
        ((noteStateRead a key so s').put a (so.getState db a key).2) :=
      hmoves.trans (reads_moves (remember_reads hlive (objectCovers_getState so key)
        (noteStateRead_changes key)))
    have hprev : (so.getState db a key).1 = current db a (so.getState db a key).2 key := by
      have hseen : current db a (so.getState db a key).2 = current db a so :=
        congrArg Seen.current (seen_getState so key)
      rw [hseen, getState_fst, hfake]
      rfl
    split
    · exact hread
    · have hedit : Edit db deep safe a (so.getState db a key).2
          (.storageChange a key (so.getState db a key).1)
          ((so.getState db a key).2.setState key value) := by
        rw [hprev]
        exact .storage key value (slotRead_getState key hfake)
      exact hread.tail (.edit (by simp) hedit)

theorem selfdestruct_moves (hsafe : safe → exposed s a = false)
    (hcreated : safe ∨ deep → ∀ so, effective s a = some so →
      so.deleted = true ∨ so.created = false) :
    ReflTransGen (Move deep safe) s (selfdestruct a s).2 := by
  unfold selfdestruct
  rcases hget : s.getStateObject a with ⟨found, s'⟩
  obtain ⟨hreads, hlive, heffective⟩ := load_reads hsafe hget
  have hload : ReflTransGen (Move deep safe) s s' := reads_moves hreads
  cases found with
  | none => exact hload
  | some so =>
    simp only
    split
    · exact hload
    · rename_i hdeleted
      refine hload.tail (.edit hlive (.destroy fun h => ?_))
      rcases hcreated h so heffective with hdel | hkept
      · exact absurd hdel hdeleted
      · exact hkept

theorem createAccount_moves (contractCreation : Bool) (hsafe : safe → exposed s a = false) :
    ReflTransGen (Move deep safe) s (createAccount a contractCreation s) := by
  unfold createAccount
  rcases hget : s.getStateObject a with ⟨previous, s'⟩
  obtain ⟨hreads, hlive, -⟩ := load_reads hsafe hget
  have hload : ReflTransGen (Move deep safe) s s' := reads_moves hreads
  simp only [createObject_snd, createObject_fst, put_put]
  rw [← hlive]
  exact hload.tail (move_create (fresh_createdObject _ _ (fresh_newObject _ _ _).withPending))

theorem subRefund_changes (gas : UInt64) :
    (subRefund gas s).toChanges =
      { s.append (.refundChange s.refund) with refund := s.refund - gas }.toChanges := by
  unfold subRefund
  simp only
  split
  · rfl
  · rfl

theorem perform_moves {op : Operation} (hsafe : safe → Revertible deep s op)
    (hdeep : deep → Settling s op)
    (hmark : op ≠ .snapshot) (hback : ∀ revid, op ≠ .revertToSnapshot revid)
    (h : perform s op = some t) : ReflTransGen (Move deep safe) s t := by
  cases op with
  | createAccount a contractCreation =>
    cases h
    exact createAccount_moves contractCreation hsafe
  | addBalance a amount =>
    cases h
    exact addBalance_moves amount hsafe
  | subBalance a amount =>
    cases h
    unfold subBalance
    simp only
    split
    · exact (getOrNew_moves deep hsafe).1
    · exact getOrNew_edit hsafe (.balance _)
  | setBalance a amount =>
    cases h
    exact getOrNew_edit hsafe (.balance amount)
  | setNonce a nonce =>
    cases h
    exact getOrNew_edit hsafe (.nonce nonce)
  | setCode a code =>
    cases h
    exact setCode_moves code (fun h => (hsafe h).1) fun h => (hsafe h).2
  | setState a key value =>
    cases h
    exact setState_moves key value hsafe
  | setStorage a storage =>
    cases h
    have hunsafe : ¬ safe := hsafe
    obtain ⟨hmoves, hlive⟩ := getOrNew_moves (s := s) (a := a) deep fun h => absurd h hunsafe
    exact hmoves.tail (.setStorage hlive storage hunsafe)
  | setIncarnation a incarnation =>
    cases h
    have hunsafe : ¬ safe := hsafe
    obtain ⟨hmoves, hlive⟩ := getOrNew_moves (s := s) (a := a) deep fun h => absurd h hunsafe
    exact hmoves.tail (.setIncarnation hlive incarnation hunsafe hdeep)
  | selfdestruct a =>
    cases h
    refine selfdestruct_moves (fun h => (hsafe h).1) fun h => ?_
    rcases h with h | h
    · exact (hsafe h).2
    · exact hdeep h
  | addLog log =>
    cases h
    exact .single (.log log)
  | addRefund gas =>
    cases h
    exact .single (.refund _)
  | subRefund gas =>
    cases h
    exact (ReflTransGen.single (.refund (s.refund - gas))).tail (.quiet (subRefund_changes gas))
  | addAddressToAccessList a =>
    cases h
    exact .single (.address a)
  | addSlotToAccessList a slot => exact .single (.slot h)
  | ask q =>
    cases h
    exact reads_moves (ask_reads q hsafe)
  | getCodeSize a =>
    cases h
    exact reads_moves (getCodeSize_reads hsafe)
  | snapshot => exact absurd rfl hmark
  | revertToSnapshot revid => exact absurd rfl (hback revid)

end Operations

end N42.StateMoves
