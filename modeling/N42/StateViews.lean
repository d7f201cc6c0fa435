import N42.StateFinalization

/-!
What can be seen of the state within a block, however much of it has been loaded.  The
object that an address stands for is the live one, or else the one that loading it would
give.
-/

namespace N42.StateViews

open ChainTypes
open MessageCalls (emptyCodeHash)
open StateObjects

variable (db : Backend) (a : Address)

def slotRead (incarnation : UInt16) (key : Hash) : Uint256 :=
  match db.reader.readAccountStorage a incarnation key with
  | .ok (some enc) => setBytes enc
  | _ => 0

def baseValue (created : Bool) (incarnation : UInt16) (key : Hash) : Uint256 :=
  if created then 0 else slotRead db a incarnation key

def committed (so : StateObject) (key : Hash) : Uint256 :=
  (so.originStorage key).getD (baseValue db a so.created so.data.incarnation key)

def current (so : StateObject) (key : Hash) : Uint256 :=
  (so.dirtyStorage key).getD (committed db a so key)

def codeOf (code : Option Bytes) (incarnation : UInt16) (codeHash : Hash) : Option Bytes :=
  match code with
  | some code => some code
  | none =>
    if codeHash = emptyCodeHash db.lib then none
    else (db.reader.readAccountCode a incarnation codeHash).toOption.getD none

/-- An object without the traces of what has been read of it. -/
@[ext] structure Seen where
  data : StateAccount
  original : StateAccount
  code : Option Bytes
  committed : Hash → Uint256
  current : Hash → Uint256
  fake : Option (Hash → Uint256)
  selfdestructed : Bool
  deleted : Bool
  created : Bool

def seen (so : StateObject) : Seen where
  data := so.data
  original := so.original
  code := codeOf db a so.code so.data.incarnation so.data.codeHash
  committed := committed db a so
  current := current db a so
  fake := so.fakeStorage.map Storage.value
  selfdestructed := so.selfdestructed
  deleted := so.deleted
  created := so.created

variable {db a}

theorem loadCode_fst (so : StateObject) :
    (so.loadCode db a).1 = codeOf db a so.code so.data.incarnation so.data.codeHash := by
  unfold StateObject.loadCode codeOf
  cases so.code with
  | some code => rfl
  | none =>
    by_cases hempty : so.data.codeHash = emptyCodeHash db.lib
    · simp [hempty]
    · cases hread : db.reader.readAccountCode a so.data.incarnation so.data.codeHash with
      | error e => simp [hempty, Except.toOption]
      | ok code => simp [hempty, Except.toOption]

theorem loadCode_snd (so : StateObject) :
    (so.loadCode db a).2 = so ∨ (so.loadCode db a).2 =
        { so with code := codeOf db a so.code so.data.incarnation so.data.codeHash } := by
  rw [← loadCode_fst]
  unfold StateObject.loadCode
  cases so.code with
  | some code => exact Or.inl rfl
  | none =>
    by_cases hempty : so.data.codeHash = emptyCodeHash db.lib
    · simp [hempty]
    · cases db.reader.readAccountCode a so.data.incarnation so.data.codeHash with
      | error e => simp [hempty]
      | ok code => simp [hempty]

theorem codeOf_codeOf (code : Option Bytes) (incarnation : UInt16) (codeHash : Hash) :
    codeOf db a (codeOf db a code incarnation codeHash) incarnation codeHash =
      codeOf db a code incarnation codeHash := by
  cases hcode : codeOf db a code incarnation codeHash with
  | some found => rfl
  | none =>
    cases code with
    | some found => cases hcode
    | none => exact hcode

theorem seen_loadCode (so : StateObject) : seen db a (so.loadCode db a).2 = seen db a so := by
  have hload : (so.loadCode db a).2 = so ∨ _ := loadCode_snd so
  rcases hload with h | h
  · rw [h]
  · rw [h]
    exact Seen.ext rfl rfl (codeOf_codeOf _ _ _) rfl rfl rfl rfl rfl rfl

theorem seen_rememberSlot {so : StateObject} {key : Hash}
    (h : so.originStorage key = none) :
    seen db a (so.rememberSlot key
      (baseValue db a so.created so.data.incarnation key)) = seen db a so := by
  have hcommitted : committed db a (so.rememberSlot key
      (baseValue db a so.created so.data.incarnation key)) = committed db a so := by
    funext other
    by_cases heq : other = key
    · simp [committed, StateObject.rememberSlot, heq, h]
    · simp [committed, StateObject.rememberSlot, heq]
  refine Seen.ext rfl rfl rfl hcommitted ?_ rfl rfl rfl rfl
  funext other
  simp only [seen, current, hcommitted]
  rfl

section

variable (so : StateObject) (key : Hash)

theorem getCommittedState_cases :
    (so.getCommittedState db a key).1 =
        so.fakeStorage.elim (committed db a so key) (fun fake => fake.value key) ∧
      ((so.getCommittedState db a key).2 = so ∨
        so.originStorage key = none ∧ (so.getCommittedState db a key).2 =
          so.rememberSlot key (baseValue db a so.created so.data.incarnation key)) := by
  unfold StateObject.getCommittedState
  cases so.fakeStorage with
  | some fake => exact ⟨rfl, Or.inl rfl⟩
  | none =>
    cases horigin : so.originStorage key with
    | some value => exact ⟨by simp [committed, horigin], Or.inl rfl⟩
    | none =>
      by_cases hcreated : so.created = true
      · simp [hcreated, committed, horigin, baseValue]
      · cases hread : db.reader.readAccountStorage a so.data.incarnation key with
        | error e =>
          simp [hcreated, committed, horigin, baseValue, slotRead, hread]
        | ok enc =>
          have hvalue : (enc.map setBytes).getD 0 =
              baseValue db a so.created so.data.incarnation key := by
            simp only [baseValue, slotRead, hread, hcreated]
            cases enc with
            | none => rfl
            | some enc => rfl
          rw [if_neg hcreated]
          exact ⟨hvalue.trans (by simp [committed, horigin]),
            Or.inr ⟨rfl, congrArg (fun value => so.rememberSlot key value) hvalue⟩⟩

theorem seen_getCommittedState : seen db a (so.getCommittedState db a key).2 = seen db a so := by
  rcases (getCommittedState_cases so key).2 with h | ⟨horigin, h⟩
  · rw [h]
  · rw [h]
    exact seen_rememberSlot horigin

theorem seen_getState : seen db a (so.getState db a key).2 = seen db a so := by
  unfold StateObject.getState
  cases so.fakeStorage with
  | some fake => rfl
  | none =>
    cases so.dirtyStorage key with
    | some value => rfl
    | none => exact seen_getCommittedState so key

theorem getState_fst :
    (so.getState db a key).1 =
      so.fakeStorage.elim (current db a so key) (fun fake => fake.value key) := by
  unfold StateObject.getState
  cases hfake : so.fakeStorage with
  | some fake => rfl
  | none =>
    cases hdirty : so.dirtyStorage key with
    | some value => simp [current, hdirty]
    | none =>
      rw [(getCommittedState_cases so key).1, hfake]
      simp [current, hdirty]

end

end N42.StateViews
