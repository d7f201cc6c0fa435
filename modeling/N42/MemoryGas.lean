import N42.Interpreter

/-!
The memory of a frame and what it costs to expand it.  The memory remembers what has been
paid for it in a counter; the counter is always the fee for the words that the memory has,
so that a frame needs only the bytes.
-/

namespace N42.MemoryGas

open StateObjects ChainTypes VirtualMachine
open Interpreter (toWordSize)

def safeAdd (x y : UInt64) : Option UInt64 :=
  if x.toNat + y.toNat < 2 ^ 64 then some (x + y) else none

def safeMul (x y : UInt64) : Option UInt64 :=
  if x.toNat * y.toNat < 2 ^ 64 then some (x * y) else none

def uint64 (v : Uint256) : Option UInt64 :=
  if v.toNat < 2 ^ 64 then some (UInt64.ofNat v.toNat) else none

/-- The size that memory needs for a range.  An empty range needs none, wherever it is. -/
def calcMemSize64WithUint (off : Uint256) (length64 : UInt64) : Option UInt64 :=
  if length64 = 0 then some 0
  else (uint64 off).bind fun offset64 =>
    if offset64 + length64 < offset64 then none else some (offset64 + length64)

def calcMemSize64 (off l : Uint256) : Option UInt64 :=
  (uint64 l).bind (calcMemSize64WithUint off)

structure Memory where
  store : Bytes
  lastGasCost : UInt64

def Memory.reset : Memory :=
  ⟨[], 0⟩

def Memory.len (mem : Memory) : UInt64 :=
  UInt64.ofNat mem.store.length

def Memory.resize (mem : Memory) (size : UInt64) : Memory :=
  { mem with store := Interpreter.resize mem.store size }

def newTotalFee (newMemSizeWords : UInt64) : UInt64 :=
  newMemSizeWords * 3 + newMemSizeWords * newMemSizeWords / 512

def maxMemSize : UInt64 := 0x1FFFFFFFE0

def memoryGasCost (mem : Memory) (newMemSize : UInt64) : Except VmError (UInt64 × Memory) :=
  if newMemSize = 0 then .ok (0, mem)
  else if maxMemSize < newMemSize then .error .errGasUintOverflow
  else
    let newMemSizeWords := toWordSize newMemSize
    if mem.len < newMemSizeWords * 32 then
      .ok (newTotalFee newMemSizeWords - mem.lastGasCost,
        { mem with lastGasCost := newTotalFee newMemSizeWords })
    else .ok (0, mem)

def Memory.paid (store : Bytes) : Memory :=
  ⟨store, newTotalFee (UInt64.ofNat (store.length / 32))⟩

structure Sized (store : Bytes) : Prop where
  words : 32 ∣ store.length
  bounded : store.length ≤ maxMemSize.toNat

def feeOf (words : Nat) : Nat :=
  words * 3 + words * words / 512

section Arithmetic

variable {x y z : UInt64}

theorem safeAdd_eq_some_iff :
    safeAdd x y = some z ↔ x.toNat + y.toNat < 2 ^ 64 ∧ z.toNat = x.toNat + y.toNat := by
  rw [safeAdd]
  split
  · rename_i hlt
    rw [Option.some_inj, ← UInt64.toNat_inj, UInt64.toNat_add, Nat.mod_eq_of_lt hlt]
    exact ⟨fun h => ⟨hlt, h.symm⟩, fun h => h.2.symm⟩
  · rename_i hlt
    exact ⟨fun h => (by cases h), fun h => absurd h.1 hlt⟩

theorem uint64_eq_some_iff {v : Uint256} : uint64 v = some x ↔ v.toNat = x.toNat := by
  rw [uint64]
  split
  · rename_i hlt
    rw [Option.some_inj, ← UInt64.toNat_inj, UInt64.toNat_ofNat', Nat.mod_eq_of_lt hlt]
  · rename_i hlt
    have := x.toNat_lt
    exact ⟨fun h => (by cases h), fun h => by omega⟩

theorem toNat_toWordSize (size : UInt64) : (toWordSize size).toNat = (size.toNat + 31) / 32 := by
  have hlt := size.toNat_lt
  have hmax : ((0xffffffffffffffff : UInt64) - 31).toNat = 2 ^ 64 - 32 := rfl
  rw [toWordSize]
  split
  · rename_i hbig
    rw [UInt64.lt_iff_toNat_lt, hmax] at hbig
    change 2 ^ 59 = _
    omega
  · rename_i hsmall
    rw [UInt64.not_lt, UInt64.le_iff_toNat_le, hmax] at hsmall
    rw [UInt64.toNat_div, UInt64.toNat_add]
    change (size.toNat + 31) % 2 ^ 64 / 32 = _
    omega

theorem calcMemSize64WithUint_spec {off : Uint256} {length64 size : UInt64}
    (h : calcMemSize64WithUint off length64 = some size) :
    length64 = 0 ∨ off.toNat + length64.toNat = size.toNat := by
  rw [calcMemSize64WithUint] at h
  split at h
  · exact .inl ‹_›
  · obtain ⟨offset64, hoff, h⟩ := Option.bind_eq_some_iff.mp h
    rw [uint64_eq_some_iff] at hoff
    split at h
    · cases h
    · rename_i hwrap
      cases h
      rw [UInt64.not_lt, UInt64.le_iff_toNat_le, UInt64.toNat_add] at hwrap
      rw [hoff, UInt64.toNat_add]
      have hfirst := offset64.toNat_lt
      have hsecond := length64.toNat_lt
      have hpos : length64.toNat ≠ 0 := fun hzero => ‹¬length64 = 0› (UInt64.toNat_inj.mp hzero)
      right
      omega

theorem calcMemSize64_spec {off l : Uint256} {size : UInt64}
    (h : calcMemSize64 off l = some size) :
    l.toNat < 2 ^ 64 ∧ (l = 0 ∨ off.toNat + l.toNat = size.toNat) := by
  obtain ⟨length64, hl, h⟩ := Option.bind_eq_some_iff.mp h
  rw [uint64_eq_some_iff] at hl
  refine ⟨hl ▸ length64.toNat_lt, ?_⟩
  rcases calcMemSize64WithUint_spec h with rfl | hsum
  · exact .inl (BitVec.eq_of_toNat_eq hl)
  · exact .inr (hl ▸ hsum)

end Arithmetic

section Fees

theorem feeOf_mono {v w : Nat} (h : v ≤ w) : feeOf v ≤ feeOf w := by
  have hsquare := Nat.div_le_div_right (c := 512) (Nat.mul_le_mul h h)
  rw [feeOf, feeOf]
  omega

theorem feeOf_lt {words : Nat} (h : words ≤ 2 ^ 32 - 1) : feeOf words < 2 ^ 56 := by
  have hmono := feeOf_mono h
  have hmax : feeOf (2 ^ 32 - 1) < 2 ^ 56 := by decide
  omega

theorem toNat_newTotalFee {words : UInt64} (h : words.toNat ≤ 2 ^ 32 - 1) :
    (newTotalFee words).toNat = feeOf words.toNat := by
  have hsquare := Nat.mul_le_mul h h
  have hfee := feeOf_lt h
  rw [feeOf] at hfee
  rw [newTotalFee, feeOf, UInt64.toNat_add, UInt64.toNat_mul, UInt64.toNat_div, UInt64.toNat_mul]
  change (words.toNat * 3 % 2 ^ 64 + words.toNat * words.toNat % 2 ^ 64 / 512) % 2 ^ 64 = _
  rw [Nat.mod_eq_of_lt (a := words.toNat * words.toNat) (by omega),
    Nat.mod_eq_of_lt (a := words.toNat * 3) (by omega), Nat.mod_eq_of_lt (by omega)]

theorem length_resize (store : Bytes) (size : UInt64) :
    (Interpreter.resize store size).length = max store.length size.toNat := by
  rw [Interpreter.resize, List.length_append, List.length_replicate]
  omega

variable {store : Bytes}

theorem resize_of_le {size : UInt64} (h : size.toNat ≤ store.length) :
    Interpreter.resize store size = store := by
  rw [Interpreter.resize, Nat.sub_eq_zero_of_le h, List.replicate_zero, List.append_nil]

theorem Sized.resize {size : UInt64} (h : Sized store) (hwords : 32 ∣ size.toNat)
    (hsize : size.toNat ≤ maxMemSize.toNat) :
    Sized (Interpreter.resize store size) := by
  have hstore := h.words
  have hbound := h.bounded
  constructor
  · rw [length_resize]
    rcases Nat.le_total store.length size.toNat with hle | hle
    · rwa [Nat.max_eq_right hle]
    · rwa [Nat.max_eq_left hle]
  · rw [length_resize]
    omega

theorem toNat_maxMemSize : maxMemSize.toNat = (2 ^ 32 - 1) * 32 := rfl

theorem toNat_words (h : Sized store) :
    (UInt64.ofNat (store.length / 32)).toNat = store.length / 32 := by
  have hbound := h.bounded
  rw [toNat_maxMemSize] at hbound
  rw [UInt64.toNat_ofNat', Nat.mod_eq_of_lt (by omega)]

theorem memoryGasCost_spec {size gas : UInt64} {mem : Memory} (hsized : Sized store)
    (hwords : 32 ∣ size.toNat) (h : memoryGasCost (.paid store) size = .ok (gas, mem)) :
    size.toNat ≤ maxMemSize.toNat ∧
      gas.toNat + feeOf (store.length / 32) = feeOf (max store.length size.toNat / 32) ∧
      mem.resize size = .paid (Interpreter.resize store size) := by
  have hbound := hsized.bounded
  have hunchanged : size.toNat ≤ store.length →
      (Memory.paid store).resize size = .paid (Interpreter.resize store size) := fun hle => by
    rw [Memory.resize, resize_of_le hle, Memory.paid, resize_of_le hle]
  rw [memoryGasCost] at h
  split at h
  · rename_i hzero
    cases h
    rw [hzero] at hunchanged ⊢
    exact ⟨Nat.zero_le _, by rw [UInt64.toNat_zero, Nat.zero_add, Nat.max_zero],
      hunchanged (Nat.zero_le _)⟩
  · split at h
    · cases h
    · rename_i hmax
      rw [UInt64.not_lt, UInt64.le_iff_toNat_le] at hmax
      have hlen : (Memory.paid store).len.toNat = store.length := by
        change (UInt64.ofNat store.length).toNat = _
        rw [toNat_maxMemSize] at hbound
        rw [UInt64.toNat_ofNat', Nat.mod_eq_of_lt (by omega)]
      have hcount : (toWordSize size).toNat = size.toNat / 32 := by
        rw [toNat_toWordSize]
        omega
      have hbytes : (toWordSize size * 32).toNat = size.toNat := by
        have hlt := size.toNat_lt
        rw [UInt64.toNat_mul, hcount]
        change size.toNat / 32 * 32 % 2 ^ 64 = _
        omega
      dsimp only at h
      split at h
      · rename_i hgrows
        rw [UInt64.lt_iff_toNat_lt, hlen, hbytes] at hgrows
        cases h
        rw [toNat_maxMemSize] at hmax hbound
        have hnew : (newTotalFee (toWordSize size)).toNat = feeOf (size.toNat / 32) := by
          rw [toNat_newTotalFee (by omega), hcount]
        have hold : (Memory.paid store).lastGasCost.toNat = feeOf (store.length / 32) := by
          have hcells := toNat_words hsized
          rw [← hcells]
          exact toNat_newTotalFee (by omega)
        have hmono := feeOf_mono (Nat.div_le_div_right (c := 32) hgrows.le)
        refine ⟨by rw [toNat_maxMemSize]; omega, ?_, ?_⟩
        · rw [UInt64.toNat_sub_of_le, hnew, hold, Nat.max_eq_right hgrows.le]
          · omega
          · rw [UInt64.le_iff_toNat_le, hnew, hold]
            exact hmono
        · have hlength : (Interpreter.resize store size).length = size.toNat := by
            rw [length_resize, Nat.max_eq_right hgrows.le]
          have hcells : UInt64.ofNat (size.toNat / 32) = toWordSize size := by
            rw [← UInt64.toNat_inj, hcount, UInt64.toNat_ofNat', Nat.mod_eq_of_lt (by omega)]
          rw [Memory.resize, Memory.paid, Memory.paid, hlength, hcells]
      · rename_i hfits
        rw [UInt64.not_lt, UInt64.le_iff_toNat_le, hlen, hbytes] at hfits
        cases h
        exact ⟨hmax, by rw [UInt64.toNat_zero, Nat.zero_add, Nat.max_eq_left hfits],
          hunchanged hfits⟩

end Fees

/-- The memories that a frame comes to have: it starts without one, opcodes expand it in whole
words after they have asked for the cost, and overwrite what is there. -/
inductive Reached : Memory → Prop
  | reset : Reached .reset
  | expand {mem mem' : Memory} {size gas : UInt64} (reached : Reached mem)
      (words : 32 ∣ size.toNat) (cost : memoryGasCost mem size = .ok (gas, mem')) :
      Reached (mem'.resize size)
  | write {mem : Memory} {store : Bytes} (reached : Reached mem)
      (length : store.length = mem.store.length) : Reached { mem with store := store }

theorem Reached.eq_paid {mem : Memory} (h : Reached mem) :
    Sized mem.store ∧ mem = .paid mem.store := by
  induction h with
  | reset => exact ⟨⟨Nat.dvd_zero 32, Nat.zero_le _⟩, rfl⟩
  | @expand mem mem' size gas _ words cost ih =>
    obtain ⟨hsized, hpaid⟩ := ih
    rw [hpaid] at cost
    obtain ⟨hmax, -, hresize⟩ := memoryGasCost_spec hsized words cost
    rw [hresize]
    exact ⟨hsized.resize words hmax, rfl⟩
  | @write mem store _ length ih =>
    obtain ⟨⟨hwords, hbounded⟩, hpaid⟩ := ih
    refine ⟨⟨length ▸ hwords, length ▸ hbounded⟩, ?_⟩
    rw [hpaid, Memory.paid, Memory.paid, length]

theorem eq_paid_word : Sized (List.replicate 32 0) ∧
    (⟨List.replicate 32 0, 3⟩ : Memory) = .paid (List.replicate 32 0) :=
  (@Reached.expand .reset _ 32 _ .reset (by decide) rfl).eq_paid

end N42.MemoryGas
