import N42.StateCovers

/-!
The answers of a state within a block depend only on the objects that its addresses stand
for.
-/

namespace N42.StateAnswers

open ChainTypes AccessLists StateObjects IntraBlock StateOperations
open StateViews StateLoading StateCovers

variable {db : Backend} {deep : Prop} {s t : IntraBlockState db} {a : Address}

theorem inspect_fst {α : Type} (absent : α) (f : StateObject → α) :
    (inspect absent f a s).1 =
      (effective s a).elim absent fun so => if so.deleted then absent else f so := by
  unfold inspect
  rw [← (getStateObject_spec s a).1]
  rcases s.getStateObject a with ⟨found, s'⟩
  cases found with
  | none => rfl
  | some so => rfl

theorem elim_covers {α : Type} {f : StateObject → α} {absent : α} (h : Covers deep s t)
    (hf : ∀ so so', seen db a so' = seen db a so → f so' = f so) :
    (effective t a).elim absent f = (effective s a).elim absent f := by
  have hobject := h.objects a
  generalize effective s a = x at hobject ⊢
  generalize effective t a = y at hobject ⊢
  cases hobject with
  | none => rfl
  | some hcovers => exact hf _ _ hcovers.seen_eq

theorem inspect_covers {α : Type} {absent : α} {f : StateObject → α} (h : Covers deep s t)
    (hf : ∀ so so', seen db a so' = seen db a so → f so' = f so) :
    (inspect absent f a t).1 = (inspect absent f a s).1 := by
  rw [inspect_fst, inspect_fst]
  apply elim_covers h
  intro so so' hseen
  have hdeleted : so'.deleted = so.deleted := congrArg Seen.deleted hseen
  rw [hdeleted, hf so so' hseen]

theorem getIncarnation_fst :
    (getIncarnation a s).1 = (effective s a).elim 0 fun so => so.data.incarnation := by
  unfold getIncarnation
  rw [← (getStateObject_spec s a).1]
  rcases s.getStateObject a with ⟨found, s'⟩
  cases found with
  | none => rfl
  | some so => rfl

theorem getCode_fst :
    (getCode a s).1 =
      (effective s a).elim none fun so => if so.deleted then none else codeNow db a so := by
  unfold getCode
  rw [← (getStateObject_spec s a).1]
  rcases s.getStateObject a with ⟨found, s'⟩
  cases found with
  | none => rfl
  | some so =>
    simp only [Option.elim_some]
    split
    · rfl
    · exact loadCode_fst so

theorem getCommittedState_fst (key : Hash) :
    (StateOperations.getCommittedState a key s).1 = (effective s a).elim 0 fun so =>
        if so.deleted then 0
        else so.fakeStorage.elim (committed db a so key) fun fake => fake.value key := by
  unfold StateOperations.getCommittedState
  rw [← (getStateObject_spec s a).1]
  rcases s.getStateObject a with ⟨found, s'⟩
  cases found with
  | none => rfl
  | some so =>
    simp only [Option.elim_some]
    split
    · rfl
    · exact (getCommittedState_cases so key).1

theorem getStateOf_fst (key : Hash) :
    (StateOperations.getState a key s).1 = (effective s a).elim 0 fun so =>
        if so.deleted then 0
        else so.fakeStorage.elim (current db a so key) fun fake => fake.value key := by
  unfold StateOperations.getState
  rw [← (getStateObject_spec s a).1]
  rcases s.getStateObject a with ⟨found, s'⟩
  cases found with
  | none => rfl
  | some so =>
    simp only [Option.elim_some]
    split
    · rfl
    · exact getState_fst so key

theorem fake_elim {so so' : StateObject} {x y : Uint256} {key : Hash}
    (hseen : seen db a so' = seen db a so) (hxy : y = x) :
    (so'.fakeStorage.elim y fun fake => fake.value key) =
      so.fakeStorage.elim x fun fake => fake.value key := by
  have hfake : so'.fakeStorage.map Storage.value = so.fakeStorage.map Storage.value :=
    congrArg Seen.fake hseen
  have helim : ∀ (o : Option Storage) (z : Uint256), (o.elim z fun fake => fake.value key) =
        (o.map Storage.value).elim z fun value => value key := by
    intro o z
    cases o with
    | none => rfl
    | some fake => rfl
  rw [helim, helim, hfake, hxy]

theorem ask_covers (h : Covers deep s t) (q : Query) : (ask t q).1 = (ask s q).1 := by
  cases q with
  | exist a => exact congrArg Answer.flag (inspect_covers h fun _ _ _ => rfl)
  | empty a =>
    refine congrArg Answer.flag (inspect_covers h fun so so' hseen => ?_)
    have hdata : so'.data = so.data := congrArg Seen.data hseen
    simp only [StateObject.empty, hdata]
  | getBalance a =>
    exact congrArg Answer.amount (inspect_covers h fun _ _ hseen =>
      congrArg (fun x => x.data.balance) hseen)
  | getNonce a =>
    exact congrArg Answer.counter (inspect_covers h fun _ _ hseen =>
      congrArg (fun x => x.data.nonce) hseen)
  | getCode a =>
    suffices hcode : (getCode a t).1 = (getCode a s).1 from congrArg Answer.code hcode
    rw [getCode_fst, getCode_fst]
    refine elim_covers h fun so so' hseen => ?_
    have hdeleted : so'.deleted = so.deleted := congrArg Seen.deleted hseen
    rw [hdeleted, codeNow_eq hseen]
  | getCodeHash a =>
    exact congrArg Answer.hash (inspect_covers h fun _ _ hseen =>
      congrArg (fun x => x.data.codeHash) hseen)
  | getState a key =>
    suffices hstate : (StateOperations.getState a key t).1 =
      (StateOperations.getState a key s).1 from congrArg Answer.amount hstate
    rw [getStateOf_fst, getStateOf_fst]
    refine elim_covers h fun so so' hseen => ?_
    have hdeleted : so'.deleted = so.deleted := congrArg Seen.deleted hseen
    have hvalue : current db a so' key = current db a so key :=
      congrArg (fun x => x.current key) hseen
    rw [hdeleted, fake_elim hseen hvalue]
  | getCommittedState a key =>
    suffices hstate : (StateOperations.getCommittedState a key t).1 =
      (StateOperations.getCommittedState a key s).1 from congrArg Answer.amount hstate
    rw [getCommittedState_fst, getCommittedState_fst]
    refine elim_covers h fun so so' hseen => ?_
    have hdeleted : so'.deleted = so.deleted := congrArg Seen.deleted hseen
    have hvalue : committed db a so' key = committed db a so key :=
      congrArg (fun x => x.committed key) hseen
    rw [hdeleted, fake_elim hseen hvalue]
  | getIncarnation a =>
    suffices hinc : (getIncarnation a t).1 = (getIncarnation a s).1 from
      congrArg Answer.incarnation hinc
    rw [getIncarnation_fst, getIncarnation_fst]
    exact elim_covers h fun so so' hseen => congrArg (fun x => x.data.incarnation) hseen
  | hasSelfdestructed a =>
    exact congrArg Answer.flag (inspect_covers h fun _ _ hseen =>
      congrArg (fun x => !x.created && x.selfdestructed) hseen)
  | getRefund => exact congrArg Answer.counter h.refund
  | getLogs hash => exact congrArg (fun logs => Answer.logs (logs hash)) h.logs.1
  | addressInAccessList a =>
    exact congrArg (fun al => Answer.flag (AccessList.containsAddress al a)) h.accessList
  | slotInAccessList a slot =>
    exact congrArg (fun al => Answer.flags (AccessList.contains al a slot)) h.accessList

end N42.StateAnswers
