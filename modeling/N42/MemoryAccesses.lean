import N42.OpcodeCharges

/-!
The accesses of opcodes to the memory of their frame.  The memory is a slice that may have
more capacity than length, so that an access behind its end need not fail; there is none.
-/

namespace N42.MemoryAccesses

open ChainTypes StateObjects VirtualMachine Interpreter MemoryGas
open GasTable InstructionSets OpcodeCharges

inductive MemoryCall where
  | set (offset size : UInt64) (value : Bytes)
  | set32 (offset : UInt64) (val : Uint256)
  | setByte (offset : UInt64) (value : UInt8)
  | getCopy (offset size : Int)
  | getPtr (offset size : Int)

def MemoryCall.offset : MemoryCall → Int
  | .set offset _ _ | .set32 offset _ | .setByte offset _ => offset.toNat
  | .getCopy offset _ | .getPtr offset _ => offset

def MemoryCall.size : MemoryCall → Int
  | .set _ size _ => size.toNat
  | .set32 _ _ => 32
  | .setByte _ _ => 1
  | .getCopy _ size | .getPtr _ size => size

/-- The memory after a method, what it returns, and the bytes that it has read or written. -/
structure Outcome where
  store : Bytes
  result : Bytes
  touched : Option (Nat × Nat)

def overwrite (store : Bytes) (offset : Nat) (value : Bytes) : Bytes :=
  store.take offset ++ value ++ store.drop (offset + value.length)

/-- What a method does to a memory with some spare capacity; none if it panics. -/
def MemoryCall.perform (store spare : Bytes) : MemoryCall → Option Outcome
  | .set offset size value =>
    if size = 0 then some ⟨store, [], none⟩
    else if UInt64.ofNat store.length < offset + size ∨ offset + size < offset then none
    else some ⟨overwrite store offset.toNat (value.take size.toNat), [],
      some (offset.toNat, offset.toNat + (value.take size.toNat).length)⟩
  | .set32 offset val =>
    if UInt64.ofNat store.length < offset + 32 ∨ offset + 32 < offset then none
    else some ⟨overwrite store offset.toNat (BigEndianWords.digits 32 val.toNat), [],
      some (offset.toNat, offset.toNat + 32)⟩
  | .setByte offset value =>
    if store.length ≤ offset.toNat then none
    else some ⟨overwrite store offset.toNat [value], [], some (offset.toNat, offset.toNat + 1)⟩
  | .getCopy offset size =>
    if size = 0 then some ⟨store, [], none⟩
    else if offset < store.length then
      if size < 0 ∨ offset < 0 then none
      else some ⟨store, (store.drop offset.toNat ++ List.replicate size.toNat 0).take size.toNat,
        some (offset.toNat, min store.length (offset + size).toNat)⟩
    else some ⟨store, [], none⟩
  | .getPtr offset size =>
    if size = 0 then some ⟨store, [], none⟩
    else if offset < store.length then
      if offset < 0 ∨ size < 0 ∨ (store ++ spare).length < offset + size then none
      else some ⟨store, ((store ++ spare).drop offset.toNat).take size.toNat,
        some (offset.toNat, (offset + size).toNat)⟩
    else some ⟨store, [], none⟩

/-- The method does not panic, keeps the length of the memory and touches nothing outside of
it; asked for nothing, it touches nothing, and asked for a range, that range is inside. -/
structure Inside (store spare : Bytes) (call : MemoryCall) (outcome : Outcome) : Prop where
  performs : call.perform store spare = some outcome
  length : outcome.store.length = store.length
  touched : ∀ lo hi, outcome.touched = some (lo, hi) → lo ≤ hi ∧ hi ≤ store.length
  nothing : call.size = 0 → outcome.touched = none
  range : call.size ≠ 0 → 0 ≤ call.offset ∧ 0 ≤ call.size ∧ call.offset + call.size ≤ store.length

section Methods

def Allowed (length : Nat) (call : MemoryCall) : Prop :=
  call.size = 0 ∨ (0 ≤ call.offset ∧ 0 ≤ call.size ∧ call.offset + call.size ≤ length)

theorem length_overwrite {store value : Bytes} {offset : Nat}
    (h : offset + value.length ≤ store.length) :
    (overwrite store offset value).length = store.length := by
  rw [overwrite, List.length_append, List.length_append, List.length_take, List.length_drop]
  omega

theorem not_wraps {store : Bytes} {offset size : UInt64} (hstore : store.length < 2 ^ 63)
    (h : offset.toNat + size.toNat ≤ store.length) :
    ¬(UInt64.ofNat store.length < offset + size ∨ offset + size < offset) := by
  have hsum : (offset + size).toNat = offset.toNat + size.toNat := by
    rw [UInt64.toNat_add, Nat.mod_eq_of_lt (by omega)]
  rw [UInt64.lt_iff_toNat_lt, UInt64.lt_iff_toNat_lt, UInt64.toNat_ofNat',
    Nat.mod_eq_of_lt (by omega), hsum]
  omega

theorem inside_of_allowed {store : Bytes} (spare : Bytes) {call : MemoryCall}
    (hstore : store.length < 2 ^ 63) (h : Allowed store.length call) :
    ∃ outcome, Inside store spare call outcome := by
  have hrange : call.size ≠ 0 →
      0 ≤ call.offset ∧ 0 ≤ call.size ∧ call.offset + call.size ≤ store.length :=
    fun hne => h.resolve_left hne
  cases call with
  | set offset size value =>
    rcases Decidable.em (size = 0) with hzero | hne
    · refine ⟨⟨store, [], none⟩, if_pos hzero, rfl, fun _ _ h => (by cases h), fun _ => rfl, hrange⟩
    · have hsize : size.toNat ≠ 0 := fun hzero => hne (UInt64.toNat_inj.mp hzero)
      obtain ⟨-, -, hinside⟩ := hrange (Int.natCast_ne_zero.mpr hsize)
      change (offset.toNat : Int) + (size.toNat : Int) ≤ store.length at hinside
      have htake : (value.take size.toNat).length ≤ size.toNat := List.length_take_le _ _
      have hfits : offset.toNat + (value.take size.toNat).length ≤ store.length := by omega
      refine ⟨_, (if_neg hne).trans (if_neg (not_wraps hstore (by omega))),
        length_overwrite hfits, fun lo hi hlohi => ?_,
        fun hzero => absurd (Int.natCast_eq_zero.mp hzero) hsize, hrange⟩
      cases hlohi
      exact ⟨Nat.le_add_right _ _, hfits⟩
  | set32 offset val =>
    have hne : (MemoryCall.set32 offset val).size ≠ 0 := Int.natCast_ne_zero.mpr (by decide)
    obtain ⟨-, -, hinside⟩ := hrange hne
    change (offset.toNat : Int) + 32 ≤ store.length at hinside
    have hroom : offset.toNat + (32 : UInt64).toNat ≤ store.length := by
      change _ + 32 ≤ _
      omega
    have hdigits : (BigEndianWords.digits 32 val.toNat).length = 32 :=
      BigEndianWords.digits_length _ _
    refine ⟨_, if_neg (not_wraps hstore hroom), length_overwrite (by rw [hdigits]; omega),
      fun lo hi hlohi => ?_, fun hzero => absurd hzero hne, hrange⟩
    cases hlohi
    exact ⟨Nat.le_add_right _ _, by omega⟩
  | setByte offset value =>
    have hne : (MemoryCall.setByte offset value).size ≠ 0 := Int.natCast_ne_zero.mpr (by decide)
    obtain ⟨-, -, hinside⟩ := hrange hne
    change (offset.toNat : Int) + 1 ≤ store.length at hinside
    refine ⟨_, if_neg (by omega), length_overwrite (by change _ + 1 ≤ _; omega),
      fun lo hi hlohi => ?_, fun hzero => absurd hzero hne, hrange⟩
    cases hlohi
    exact ⟨Nat.le_add_right _ _, by omega⟩
  | getCopy offset size =>
    rcases Decidable.em (size = 0) with hzero | hne
    · exact ⟨⟨store, [], none⟩, if_pos hzero, rfl, fun _ _ h => (by cases h), fun _ => rfl, hrange⟩
    · obtain ⟨hlow, hsize, hinside⟩ := hrange hne
      change 0 ≤ offset at hlow
      change 0 ≤ size at hsize
      change offset + size ≤ store.length at hinside
      refine ⟨_, ((if_neg hne).trans (if_pos (by omega))).trans (if_neg (by omega)), rfl,
        fun lo hi hlohi => ?_, fun hzero => absurd hzero hne, hrange⟩
      cases hlohi
      omega
  | getPtr offset size =>
    rcases Decidable.em (size = 0) with hzero | hne
    · exact ⟨⟨store, [], none⟩, if_pos hzero, rfl, fun _ _ h => (by cases h), fun _ => rfl, hrange⟩
    · obtain ⟨hlow, hsize, hinside⟩ := hrange hne
      change 0 ≤ offset at hlow
      change 0 ≤ size at hsize
      change offset + size ≤ store.length at hinside
      have hcapacity : store.length ≤ (store ++ spare).length := by
        rw [List.length_append]
        omega
      refine ⟨_, ((if_neg hne).trans (if_pos (by omega))).trans (if_neg (by omega)), rfl,
        fun lo hi hlohi => ?_, fun hzero => absurd hzero hne, hrange⟩
      cases hlohi
      omega

end Methods

section Opcodes

def low (v : Uint256) : UInt64 :=
  UInt64.ofNat v.toNat

def int64 (v : Uint256) : Int :=
  (low v).toBitVec.toInt

structure Surroundings where
  readOnly : Bool
  returnData : Bytes
  /-- The code of another account. -/
  code : Bytes
  returned : Option Bytes

def opReturnDataCopy (stack : List Uint256) (around : Surroundings) : List MemoryCall :=
  match uint64 (back stack 1) with
  | none => []
  | some offset64 =>
    let endOffset := (back stack 1).toNat + (back stack 2).toNat
    if 2 ^ 256 ≤ endOffset ∨ 2 ^ 64 ≤ endOffset ∨ around.returnData.length < endOffset then []
    else [.set (low (back stack 0)) (low (back stack 2))
      ((around.returnData.take endOffset).drop offset64.toNat)]

def callAccesses (inOffset inSize retOffset retSize : Uint256) (returned : Option Bytes) :
    List MemoryCall :=
  .getPtr (int64 inOffset) (int64 inSize) ::
    (returned.map (MemoryCall.set (low retOffset) (low retSize))).toList

def accesses (scope : Scope) (around : Surroundings) : Opcode → List MemoryCall
  | .keccak256 => [.getPtr (int64 (back scope.stack 0)) (int64 (back scope.stack 1))]
  | .callDataCopy =>
    [.set (low (back scope.stack 0)) (low (back scope.stack 2))
      (getDataBig scope.contract.input (back scope.stack 1) (low (back scope.stack 2)).toNat)]
  | .codeCopy =>
    [.set (low (back scope.stack 0)) (low (back scope.stack 2))
      (getDataBig scope.contract.code (back scope.stack 1) (low (back scope.stack 2)).toNat)]
  | .extCodeCopy =>
    [.set (low (back scope.stack 1)) (low (back scope.stack 3))
      (getDataBig around.code (back scope.stack 2) (low (back scope.stack 3)).toNat)]
  | .returnDataCopy => opReturnDataCopy scope.stack around
  | .mload => [.getPtr (int64 (back scope.stack 0)) 32]
  | .mstore => [.set32 (low (back scope.stack 0)) (back scope.stack 1)]
  | .mstore8 => [.setByte (low (back scope.stack 0)) (low (back scope.stack 1)).toUInt8]
  | .log _ =>
    if around.readOnly then []
    else [.getCopy (int64 (back scope.stack 0)) (int64 (back scope.stack 1))]
  | .create | .create2 =>
    if around.readOnly then []
    else [.getCopy (int64 (back scope.stack 1)) (int64 (back scope.stack 2))]
  | .call =>
    if back scope.stack 2 ≠ 0 ∧ around.readOnly then
      callAccesses (back scope.stack 3) (back scope.stack 4) 0 0 none
    else callAccesses (back scope.stack 3) (back scope.stack 4) (back scope.stack 5)
      (back scope.stack 6) around.returned
  | .callCode =>
    callAccesses (back scope.stack 3) (back scope.stack 4) (back scope.stack 5)
      (back scope.stack 6) around.returned
  | .delegateCall | .staticCall =>
    callAccesses (back scope.stack 2) (back scope.stack 3) (back scope.stack 4)
      (back scope.stack 5) around.returned
  | .return_ | .revert => [.getPtr (int64 (back scope.stack 0)) (int64 (back scope.stack 1))]

def performAll (spare : Bytes) : Bytes → List MemoryCall → Option Bytes
  | store, [] => some store
  | store, call :: calls => (call.perform store spare).bind fun outcome =>
    performAll spare outcome.store calls

theorem performAll_of_allowed (spare : Bytes) {store : Bytes} {calls : List MemoryCall}
    (hstore : store.length < 2 ^ 63) (h : ∀ call ∈ calls, Allowed store.length call) :
    ∃ store', performAll spare store calls = some store' ∧ store'.length = store.length := by
  induction calls generalizing store with
  | nil => exact ⟨store, rfl, rfl⟩
  | cons call calls ih =>
    obtain ⟨outcome, hinside⟩ := inside_of_allowed spare hstore (h call List.mem_cons_self)
    have hlength := hinside.length
    obtain ⟨store', hperform, hsame⟩ := @ih outcome.store (hlength ▸ hstore)
      (fun call hcall => hlength ▸ h call (List.mem_cons_of_mem _ hcall))
    refine ⟨store', ?_, hsame.trans hlength⟩
    rw [performAll, hinside.performs]
    exact hperform

end Opcodes

section Ranges

variable {length : Nat} {off l : Uint256} {bytes : UInt64}

theorem int64_of_lt {v : Uint256} (h : v.toNat < 2 ^ 63) : int64 v = v.toNat := by
  rw [int64, BitVec.toInt_eq_toNat_of_lt]
  · change ((low v).toNat : Int) = _
    rw [low, UInt64.toNat_ofNat', Nat.mod_eq_of_lt (by omega)]
  · change 2 * (low v).toNat < 2 ^ 64
    rw [low, UInt64.toNat_ofNat', Nat.mod_eq_of_lt (by omega)]
    omega

structure Covered (length : Nat) (off l : Uint256) : Prop where
  reaches : ∃ bytes, calcMemSize64 off l = some bytes ∧ bytes.toNat ≤ length

theorem Covered.cases (h : Covered length off l) : l = 0 ∨ off.toNat + l.toNat ≤ length := by
  obtain ⟨bytes, hbytes, hle⟩ := h.reaches
  obtain ⟨-, hzero | hsum⟩ := calcMemSize64_spec hbytes
  · exact .inl hzero
  · exact .inr (hsum ▸ hle)

variable (hlength : length < 2 ^ 63)
include hlength

theorem Covered.signed (h : Covered length off l) :
    int64 l = 0 ∨ (0 ≤ int64 off ∧ 0 ≤ int64 l ∧ int64 off + int64 l ≤ length) := by
  rcases h.cases with rfl | hsum
  · exact .inl (by decide)
  · rw [int64_of_lt (by omega), int64_of_lt (by omega)]
    omega

theorem Covered.allowed_set (h : Covered length off l) (value : Bytes) :
    Allowed length (.set (low off) (low l) value) := by
  rcases h.cases with rfl | hsum
  · exact .inl (show ((low 0).toNat : Int) = 0 by decide)
  · have hoff : (low off).toNat = off.toNat := by
      rw [low, UInt64.toNat_ofNat', Nat.mod_eq_of_lt (by omega)]
    have hl : (low l).toNat = l.toNat := by
      rw [low, UInt64.toNat_ofNat', Nat.mod_eq_of_lt (by omega)]
    right
    change (0 : Int) ≤ (low off).toNat ∧ (0 : Int) ≤ (low l).toNat ∧
      ((low off).toNat : Int) + (low l).toNat ≤ length
    omega

theorem fixed_range {width : UInt64} (hwidth : width ≠ 0)
    (h : calcMemSize64WithUint off width = some bytes) (hle : bytes.toNat ≤ length) :
    (low off).toNat = off.toNat ∧ off.toNat + width.toNat ≤ length := by
  rcases calcMemSize64WithUint_spec h with hzero | hsum
  · exact absurd hzero hwidth
  · refine ⟨?_, by omega⟩
    rw [low, UInt64.toNat_ofNat', Nat.mod_eq_of_lt (by omega)]

theorem allowed_callAccesses {inOffset inSize retOffset retSize : Uint256}
    (h : largerSize retOffset retSize inOffset inSize = some bytes) (hle : bytes.toNat ≤ length)
    (returned : Option Bytes) :
    ∀ call ∈ callAccesses inOffset inSize retOffset retSize returned, Allowed length call := by
  obtain ⟨x, hx, h⟩ := Option.bind_eq_some_iff.mp h
  obtain ⟨y, hy, h⟩ := Option.bind_eq_some_iff.mp h
  -- both sizes are at most the larger one
  have hsizes : x.toNat ≤ bytes.toNat ∧ y.toNat ≤ bytes.toNat := by
    cases h
    split
    · rename_i hlt
      rw [UInt64.lt_iff_toNat_lt] at hlt
      omega
    · rename_i hge
      rw [UInt64.not_lt, UInt64.le_iff_toNat_le] at hge
      omega
  have hret : Covered length retOffset retSize := ⟨x, hx, by omega⟩
  have hin : Covered length inOffset inSize := ⟨y, hy, by omega⟩
  intro call hcall
  rcases List.mem_cons.mp hcall with rfl | hcall
  · exact hin.signed hlength
  · cases returned with
    | none => cases hcall
    | some value =>
      obtain rfl := List.mem_singleton.mp hcall
      exact hret.allowed_set hlength value

theorem allowed_accesses {op : Opcode} {scope : Scope} (around : Surroundings)
    (hneed : memorySizeOf op scope.stack = some bytes) (hle : bytes.toNat ≤ length) :
    ∀ call ∈ accesses scope around op, Allowed length call := by
  have hread : ∀ {off l : Uint256}, calcMemSize64 off l = some bytes →
      ∀ call ∈ [MemoryCall.getPtr (int64 off) (int64 l)], Allowed length call := by
    intro off l h call hcall
    obtain rfl := List.mem_singleton.mp hcall
    exact Covered.signed hlength ⟨bytes, h, hle⟩
  have hcopy : ∀ {off l : Uint256}, calcMemSize64 off l = some bytes →
      ∀ call ∈ (if around.readOnly then [] else [MemoryCall.getCopy (int64 off) (int64 l)]),
        Allowed length call := by
    intro off l h call hcall
    split at hcall
    · cases hcall
    · obtain rfl := List.mem_singleton.mp hcall
      exact Covered.signed hlength ⟨bytes, h, hle⟩
  have hwrite : ∀ {off l : Uint256} {value : Bytes}, calcMemSize64 off l = some bytes →
      ∀ call ∈ [MemoryCall.set (low off) (low l) value], Allowed length call := by
    intro off l value h call hcall
    obtain rfl := List.mem_singleton.mp hcall
    exact Covered.allowed_set hlength ⟨bytes, h, hle⟩ value
  cases op with
  | keccak256 => exact hread hneed
  | return_ => exact hread hneed
  | revert => exact hread hneed
  | callDataCopy => exact hwrite hneed
  | codeCopy => exact hwrite hneed
  | extCodeCopy => exact hwrite hneed
  | returnDataCopy =>
    intro call hcall
    change call ∈ opReturnDataCopy _ _ at hcall
    rw [opReturnDataCopy] at hcall
    split at hcall
    · cases hcall
    · dsimp only at hcall
      split at hcall
      · cases hcall
      · exact hwrite hneed call hcall
  | log topics => exact hcopy hneed
  | create => exact hcopy hneed
  | create2 => exact hcopy hneed
  | mload =>
    intro call hcall
    obtain rfl := List.mem_singleton.mp hcall
    change calcMemSize64WithUint (back scope.stack 0) 32 = some bytes at hneed
    obtain ⟨-, hrange⟩ := fixed_range hlength (by decide) hneed hle
    change _ + 32 ≤ _ at hrange
    right
    change 0 ≤ int64 (back scope.stack 0) ∧ (0 : Int) ≤ 32 ∧
      int64 (back scope.stack 0) + 32 ≤ length
    rw [int64_of_lt (by omega)]
    omega
  | mstore =>
    intro call hcall
    obtain rfl := List.mem_singleton.mp hcall
    change calcMemSize64WithUint (back scope.stack 0) 32 = some bytes at hneed
    obtain ⟨hlow, hrange⟩ := fixed_range hlength (by decide) hneed hle
    change _ + 32 ≤ _ at hrange
    right
    change (0 : Int) ≤ (low (back scope.stack 0)).toNat ∧ (0 : Int) ≤ 32 ∧
      ((low (back scope.stack 0)).toNat : Int) + 32 ≤ length
    omega
  | mstore8 =>
    intro call hcall
    obtain rfl := List.mem_singleton.mp hcall
    change calcMemSize64WithUint (back scope.stack 0) 1 = some bytes at hneed
    obtain ⟨hlow, hrange⟩ := fixed_range hlength (by decide) hneed hle
    change _ + 1 ≤ _ at hrange
    right
    change (0 : Int) ≤ (low (back scope.stack 0)).toNat ∧ (0 : Int) ≤ 1 ∧
      ((low (back scope.stack 0)).toNat : Int) + 1 ≤ length
    omega
  | call =>
    intro call hcall
    change call ∈ ite _ _ _ at hcall
    split at hcall
    · refine allowed_callAccesses hlength hneed hle none call ?_
      exact hcall
    · exact allowed_callAccesses hlength hneed hle _ call hcall
  | callCode => exact allowed_callAccesses hlength hneed hle _
  | delegateCall => exact allowed_callAccesses hlength hneed hle _
  | staticCall => exact allowed_callAccesses hlength hneed hle _

end Ranges

section Machine

variable {store : Bytes} {off l : Uint256}

section

variable (spare : Bytes) (hstore : store.length < 2 ^ 63) (h : Covered store.length off l)
include hstore h

theorem perform_getPtr :
    ((MemoryCall.getPtr (int64 off) (int64 l)).perform store spare).map Outcome.result =
      some (VirtualMachine.getPtr store off l) := by
  rw [VirtualMachine.getPtr, low64, low64]
  rcases h.cases with rfl | hsum
  · exact congrArg some List.take_zero.symm
  · rcases Decidable.em (l = 0) with rfl | hne
    · exact congrArg some List.take_zero.symm
    · have hl : l.toNat ≠ 0 := fun hzero => hne (BitVec.eq_of_toNat_eq hzero)
      rw [MemoryCall.perform, int64_of_lt (by omega), int64_of_lt (by omega),
        if_neg (by omega), if_pos (by omega),
        if_neg (by rw [List.length_append]; omega), Nat.mod_eq_of_lt (by omega),
        Nat.mod_eq_of_lt (by omega), Option.map_some, Int.toNat_natCast, Int.toNat_natCast,
        List.drop_append_of_le_length (by omega),
        List.take_append_of_le_length (by rw [List.length_drop]; omega)]

theorem perform_getCopy :
    ((MemoryCall.getCopy (int64 off) (int64 l)).perform store spare).map Outcome.result =
      some (VirtualMachine.getCopy store off l) := by
  have hnothing : VirtualMachine.getCopy store off 0 = [] := by
    rw [VirtualMachine.getCopy]
    split
    · exact List.take_zero
    · rfl
  rcases h.cases with rfl | hsum
  · exact congrArg some hnothing.symm
  · rcases Decidable.em (l = 0) with rfl | hne
    · exact congrArg some hnothing.symm
    · have hl : l.toNat ≠ 0 := fun hzero => hne (BitVec.eq_of_toNat_eq hzero)
      rw [MemoryCall.perform, int64_of_lt (by omega), int64_of_lt (by omega),
        if_neg (by omega), if_pos (by omega), if_neg (by omega), Option.map_some,
        Int.toNat_natCast, Int.toNat_natCast, VirtualMachine.getCopy, low64, low64,
        Nat.mod_eq_of_lt (by omega), Nat.mod_eq_of_lt (by omega), if_pos (by omega)]

theorem perform_set (value : Bytes) :
    ((MemoryCall.set (low off) (low l) value).perform store spare).map Outcome.store =
      setMemory store (low64 off) (low64 l) value := by
  have hlow : ∀ v : Uint256, (low v).toNat = low64 v := fun v => UInt64.toNat_ofNat'
  obtain ⟨outcome, hinside⟩ := inside_of_allowed spare hstore (h.allowed_set hstore value)
  rw [MemoryCall.perform, setMemory, hlow, hlow]
  rcases Decidable.em (low l = 0) with hzero | hne
  · rw [if_pos hzero, if_pos (by rw [← hlow, hzero]; rfl)]
    rfl
  · have hl : low64 l ≠ 0 := fun hzero =>
      hne (UInt64.toNat_inj.mp ((hlow l).trans hzero))
    have hrange := (hinside.range (Int.natCast_ne_zero.mpr ((hlow l).symm ▸ hl))).2.2
    change ((low off).toNat : Int) + (low l).toNat ≤ store.length at hrange
    rw [if_neg hne, if_neg (not_wraps hstore (by omega)), if_neg hl, if_neg]
    · rfl
    · rw [← hlow, ← hlow]
      omega

/-- In a covered range the methods do what the machine does with its bytes. -/
theorem perform_covered (value : Bytes) :
    ((MemoryCall.getPtr (int64 off) (int64 l)).perform store spare).map Outcome.result =
        some (VirtualMachine.getPtr store off l) ∧
      ((MemoryCall.getCopy (int64 off) (int64 l)).perform store spare).map Outcome.result =
        some (VirtualMachine.getCopy store off l) ∧
      ((MemoryCall.set (low off) (low l) value).perform store spare).map Outcome.store =
        setMemory store (low64 off) (low64 l) value :=
  ⟨perform_getPtr spare hstore h, perform_getCopy spare hstore h,
    perform_set spare hstore h value⟩

end

theorem perform_covered_byte :
    ((MemoryCall.getPtr (int64 0) (int64 1)).perform [7] []).map Outcome.result =
      some (VirtualMachine.getPtr [7] 0 1) :=
  (perform_covered [] (by decide) ⟨1, by decide, by decide⟩ []).1

end Machine

section Frames

variable {db : Backend} {local_ : Opcode → Scope → Bytes → Computed} {forks : Forks}
  {extraEips : List Nat} {op : Opcode} {e : Entry db} {scope scope' : Scope} {m m' : Machine db}

/-- The memories that a frame comes to have when its opcodes pass their checks and use the
memory. -/
inductive FrameMemory (t : Table db) : Bytes → Prop
  | start : FrameMemory t []
  | opcode {op : Opcode} {e : Entry db} {scope scope' : Scope} {m m' : Machine db}
      {store spare : Bytes} {around : Surroundings} (entry : t op = some e)
      (memory : FrameMemory t scope.memory)
      (charged : charge e.info scope m = (.ok (.ok scope'), m'))
      (performed : performAll spare scope'.memory (accesses scope' around op) = some store) :
      FrameMemory t store

/-- The step: what an opcode asks of its memory is there. -/
theorem allowed_of_charge (he : newEVMInterpreter local_ forks extraEips op = some e)
    (hsized : Sized scope.memory) (hcharge : charge e.info scope m = (.ok (.ok scope'), m'))
    (around : Surroundings) :
    Sized scope'.memory ∧
      ∀ call ∈ accesses scope' around op, Allowed scope'.memory.length call := by
  have hfits := fitsAll_newEVMInterpreter extraEips op e he
  obtain ⟨bytes, size, cost, before, between, after, hpassed⟩ :=
    passed_of_charge (show e.info.dynamicGas = some e.dynamicGas.1 from rfl)
      (show e.info.memorySize = some e.memorySize from rfl) hcharge
  obtain ⟨hsized', -, hreach⟩ := hpassed.memory hfits.dynamicGas hsized
  have hneed := hpassed.bytes_eq
  rw [hfits.memorySize] at hneed
  have hstack : scope'.stack = scope.stack := by rw [hpassed.scope_eq]
  have hbounded := hsized'.bounded
  rw [toNat_maxMemSize] at hbounded
  exact ⟨hsized', allowed_accesses (by omega) around (hstack ▸ hneed) hreach⟩

/-- The run: the memory of a frame always has whole words. -/
theorem FrameMemory.sized {store : Bytes}
    (h : FrameMemory (newEVMInterpreter local_ forks extraEips : Table db) store) :
    Sized store := by
  induction h with
  | start => exact ⟨Nat.dvd_zero 32, Nat.zero_le _⟩
  | opcode entry _ charged performed ih =>
    obtain ⟨hsized, hallowed⟩ := allowed_of_charge entry ih charged _
    have hbounded := hsized.bounded
    rw [toNat_maxMemSize] at hbounded
    obtain ⟨store', hperform, hlength⟩ := performAll_of_allowed _ (by omega) hallowed
    rw [performed] at hperform
    cases hperform
    exact ⟨hlength ▸ hsized.words, hlength ▸ hsized.bounded⟩

/-- Whatever the fork, the extra proposals, the stack and the gas: when the checks before an
opcode have passed, everything that it reads and writes is inside the memory, empty ranges
touch nothing, and the memory has whole words before and after it. -/
theorem memory_accesses_inside (he : newEVMInterpreter local_ forks extraEips op = some e)
    (hmemory : FrameMemory (newEVMInterpreter local_ forks extraEips : Table db) scope.memory)
    (hcharge : charge e.info scope m = (.ok (.ok scope'), m')) (around : Surroundings)
    (spare : Bytes) :
    32 ∣ scope'.memory.length ∧
      (∀ call ∈ accesses scope' around op, ∃ outcome, Inside scope'.memory spare call outcome) ∧
      ∃ store, performAll spare scope'.memory (accesses scope' around op) = some store ∧
        store.length = scope'.memory.length := by
  obtain ⟨hsized, hallowed⟩ := allowed_of_charge he hmemory.sized hcharge around
  have hbounded := hsized.bounded
  rw [toNat_maxMemSize] at hbounded
  exact ⟨hsized.words, fun call hcall => inside_of_allowed spare (by omega) (hallowed call hcall),
    performAll_of_allowed spare (by omega) hallowed⟩

end Frames

section Toys

open RevisionSafety (toyBackend)

def toyMachine : Machine toyBackend :=
  ⟨.new _, 0, false, [], 0⟩

def toyScope (memory : Bytes) (gas : UInt64) : Scope :=
  ⟨0, [64, 5], memory, ⟨default, default, [], default, [], gas, 0⟩⟩

def toyLocal (_ : Opcode) (scope : Scope) (returnData : Bytes) : Computed :=
  ⟨scope, [], .next, returnData⟩

def toyStore : Entry toyBackend :=
  ⟨.compute (toyLocal .mstore), 3, frame pureMemoryGascost, 2, 0, memoryMStore⟩

theorem memory_accesses_inside_mstore :
    charge toyStore.info (toyScope [] 100) toyMachine =
        (.ok (.ok (toyScope (List.replicate 96 0) 88)), toyMachine) ∧
      32 ∣ (toyScope (List.replicate 96 0) 88).memory.length ∧
      ∃ outcome, Inside (List.replicate 96 0) [] (.set32 64 5) outcome := by
  have hcharge : charge toyStore.info (toyScope [] 100) toyMachine =
      (.ok (.ok (toyScope (List.replicate 96 0) 88)), toyMachine) := rfl
  obtain ⟨hwords, hinside, -⟩ := @memory_accesses_inside toyBackend toyLocal shanghaiForks []
    .mstore toyStore _ _ _ _ rfl .start hcharge ⟨false, [], [], none⟩ []
  exact ⟨hcharge, hwords, hinside _ (List.mem_singleton.mpr rfl)⟩

end Toys

end N42.MemoryAccesses
