import Mathlib

/-!
The length prefixes of the messages between peers: numbers in groups of seven bits, the
lowest group first, each but the last with its high bit set.
-/

namespace N42.Varints

def maxVarintLength : Nat :=
  10

/-- The bytes that `readVarint` takes from a stream, and the rest of it; none if the stream
ends too early or the last byte that may be read continues the number. -/
def takeVarint : Nat → List UInt8 → Option (List UInt8 × List UInt8)
  | 0, stream => some ([], stream)
  | _ + 1, [] => none
  | left + 1, b :: stream =>
    if b &&& 0x80 = 0 then some ([b], stream)
    else if left = 0 then none
    else (takeVarint left stream).map fun taken => (b :: taken.1, taken.2)

/-- The loop of `DecodeVarint` over the rest of the bytes. -/
def decodeFrom (shift : Nat) (x : UInt64) (n : Nat) : List UInt8 → UInt64 × Nat
  | [] => (0, 0)
  | b :: buf =>
    if shift < 64 then
      let x := x ||| ((b.toUInt64 &&& 0x7F) <<< UInt64.ofNat shift)
      if b &&& 0x80 = 0 then (x, n + 1) else decodeFrom (shift + 7) x (n + 1) buf
    else (0, 0)

def decodeVarint (buf : List UInt8) : UInt64 × Nat :=
  decodeFrom 0 0 0 buf

def readVarint (stream : List UInt8) : Option (UInt64 × List UInt8) := do
  let (b, rest) ← takeVarint maxVarintLength stream
  let (vi, n) := decodeVarint b
  if n ≠ b.length then none else some (vi, rest)

/-- The loop of `EncodeVarint`, with the room that is left in its array. -/
def encodeFrom : Nat → UInt64 → Option (List UInt8)
  | 0, _ => none
  | room + 1, x =>
    if x > 127 then (encodeFrom room (x >>> 7)).map ((0x80 ||| (x &&& 0x7F).toUInt8) :: ·)
    else some [x.toUInt8]

def encodeVarint (x : UInt64) : Option (List UInt8) :=
  encodeFrom maxVarintLength x

/-- The number that the groups stand for over the integers. -/
def value : List UInt8 → Nat
  | [] => 0
  | b :: buf => b.toNat % 128 + 128 * value buf

section Groups

theorem and_high_eq_zero_iff : ∀ b : UInt8, b &&& 0x80 = 0 ↔ b.toNat < 128 := by
  decide +kernel

theorem toNat_addGroup {x : UInt64} {shift : Nat} (b : UInt8) (hshift : shift < 64)
    (hx : x.toNat < 2 ^ shift) :
    (x ||| ((b.toUInt64 &&& 0x7F) <<< UInt64.ofNat shift)).toNat =
      (x.toNat + 2 ^ shift * (b.toNat % 128)) % 2 ^ 64 := by
  have hgroup : (b.toUInt64 &&& 0x7F).toNat = b.toNat % 128 := by
    rw [UInt64.toNat_and, UInt8.toNat_toUInt64]
    exact Nat.and_two_pow_sub_one_eq_mod b.toNat 7
  have hmod : (UInt64.ofNat shift).toNat % 64 = shift := by
    rw [UInt64.toNat_ofNat']
    omega
  have hor : 2 ^ shift * (b.toNat % 128) ||| x.toNat = 2 ^ shift * (b.toNat % 128) + x.toNat :=
    (Nat.two_pow_add_eq_or_of_lt hx _).symm
  rw [UInt64.toNat_or, UInt64.toNat_shiftLeft, hgroup, hmod, Nat.shiftLeft_eq, Nat.mul_comm,
    Nat.or_comm, Nat.add_comm, ← hor, Nat.or_mod_two_pow, Nat.mod_eq_of_lt x.toNat_lt]

theorem toNat_group (x : UInt64) : (0x80 ||| (x &&& 0x7F).toUInt8).toNat = x.toNat % 128 + 128 := by
  have hgroup : ((x &&& 0x7F).toUInt8).toNat = x.toNat % 128 := by
    have hand : (x &&& 0x7F).toNat = x.toNat % 128 := by
      rw [UInt64.toNat_and]
      exact Nat.and_two_pow_sub_one_eq_mod x.toNat 7
    rw [UInt64.toNat_toUInt8, hand]
    omega
  rw [UInt8.toNat_or, hgroup]
  exact (Nat.two_pow_add_eq_or_of_lt (by omega : x.toNat % 128 < 2 ^ 7) 1).symm.trans
    (Nat.add_comm _ _)

end Groups

/-- What is taken from a stream is decoded entirely, up to multiples of two to the 64. -/
theorem decodeFrom_of_takeVarint {left shift n : Nat} {stream buf rest : List UInt8} {x : UInt64}
    (h : takeVarint (left + 1) stream = some (buf, rest)) (hshift : shift + 7 * left ≤ 63)
    (hx : x.toNat < 2 ^ shift) :
    stream = buf ++ rest ∧ (decodeFrom shift x n buf).2 = n + buf.length ∧
      (decodeFrom shift x n buf).1.toNat = (x.toNat + 2 ^ shift * value buf) % 2 ^ 64 := by
  induction stream generalizing left shift n buf x with
  | nil => cases h
  | cons b stream ih =>
    have hadd := toNat_addGroup b (by omega : shift < 64) hx
    rw [takeVarint] at h
    split at h
    · rename_i hlast
      cases h
      rw [decodeFrom, if_pos (by omega)]
      dsimp only
      rw [if_pos hlast, hadd]
      exact ⟨rfl, rfl, rfl⟩
    · rename_i hmore
      cases left with
      | zero => cases h
      | succ left =>
        rw [if_neg (Nat.succ_ne_zero left)] at h
        obtain ⟨taken, htaken, heq⟩ := Option.map_eq_some_iff.mp h
        cases heq
        have hpow : 2 ^ (shift + 7) = 2 ^ shift * 128 := Nat.pow_add 2 shift 7
        have hbound : 2 ^ (shift + 7) ≤ 2 ^ 64 := Nat.pow_le_pow_right (by omega) (by omega)
        have hgroup : 2 ^ shift * (b.toNat % 128) ≤ 2 ^ shift * 127 :=
          Nat.mul_le_mul_left _ (by omega)
        rw [Nat.mod_eq_of_lt (by omega)] at hadd
        obtain ⟨hsplit, hlength, hvalue⟩ := ih (n := n + 1) htaken
          (by omega : shift + 7 + 7 * left ≤ 63) (x := _) (by rw [hadd]; omega)
        rw [decodeFrom, if_pos (by omega)]
        dsimp only
        rw [if_neg hmore, hlength, hvalue, hadd, hpow, value]
        refine ⟨by rw [hsplit]; rfl, by rw [List.length_cons]; omega, ?_⟩
        congr 1
        ring

theorem readVarint_eq (stream : List UInt8) :
    readVarint stream = (takeVarint maxVarintLength stream).map fun taken =>
      (UInt64.ofNat (value taken.1), taken.2) := by
  rw [readVarint]
  cases htake : takeVarint maxVarintLength stream with
  | none => rfl
  | some taken =>
    obtain ⟨-, hlength, hvalue⟩ := decodeFrom_of_takeVarint (n := 0) (x := 0) htake
      (by omega : 0 + 7 * 9 ≤ 63) (by decide)
    have hv : (decodeVarint taken.1).1 = UInt64.ofNat (value taken.1) := by
      apply UInt64.toNat_inj.mp
      rw [decodeVarint, hvalue, UInt64.toNat_ofNat']
      simp
    have hn : (decodeVarint taken.1).2 = taken.1.length := hlength.trans (Nat.zero_add _)
    simp [hv, hn]

theorem takeVarint_eq_none {left : Nat} {stream : List UInt8}
    (h : ∀ b ∈ stream, 128 ≤ b.toNat) : takeVarint (left + 1) stream = none := by
  induction stream generalizing left with
  | nil => rfl
  | cons b stream ih =>
    have hb : ¬ b &&& 0x80 = 0 := by
      rw [and_high_eq_zero_iff, Nat.not_lt]
      exact h b List.mem_cons_self
    rw [takeVarint, if_neg hb]
    cases left with
    | zero => rfl
    | succ left =>
      rw [if_neg (Nat.succ_ne_zero left), ih fun c hc => h c (List.mem_cons_of_mem b hc)]
      rfl

theorem takeVarint_single {x : UInt64} (h : x.toNat < 128) (left : Nat) (stream : List UInt8) :
    value [x.toUInt8] = x.toNat ∧
      takeVarint (left + 1) (x.toUInt8 :: stream) = some ([x.toUInt8], stream) := by
  have hx : x.toUInt8.toNat = x.toNat := by
    rw [UInt64.toNat_toUInt8]
    omega
  rw [takeVarint, if_pos ((and_high_eq_zero_iff _).mpr (by omega)), value, value, hx]
  exact ⟨by omega, rfl⟩

theorem encodeFrom_spec {room : Nat} {x : UInt64} (h : x.toNat < 128 ^ (room + 1)) :
    ∃ bytes, encodeFrom (room + 1) x = some bytes ∧ value bytes = x.toNat ∧
      ∀ left stream, room ≤ left →
        takeVarint (left + 1) (bytes ++ stream) = some (bytes, stream) := by
  induction room generalizing x with
  | zero =>
    have hsmall : ¬ x > 127 := by
      rw [gt_iff_lt, UInt64.lt_iff_toNat_lt]
      exact Nat.not_lt.mpr (Nat.lt_succ_iff.mp h)
    rw [encodeFrom, if_neg hsmall]
    exact ⟨_, rfl, (takeVarint_single h 0 []).1,
      fun left stream _ => (takeVarint_single h left stream).2⟩
  | succ room ih =>
    rw [encodeFrom]
    split
    · have hshift : (x >>> 7).toNat = x.toNat / 128 := by
        rw [UInt64.toNat_shiftRight]
        exact Nat.shiftRight_eq_div_pow x.toNat 7
      have hpow : 128 ^ (room + 1 + 1) = 128 ^ (room + 1) * 128 := pow_succ _ _
      obtain ⟨bytes, hbytes, hvalue, htake⟩ := ih (x := x >>> 7) (by omega)
      have hgroup := toNat_group x
      refine ⟨_ :: bytes, by rw [hbytes]; rfl, ?_, ?_⟩
      · rw [value, hgroup, hvalue, hshift]
        omega
      · intro left stream hle
        have hmore : ¬ (0x80 ||| (x &&& 0x7F).toUInt8) &&& 0x80 = 0 := by
          rw [and_high_eq_zero_iff, hgroup]
          omega
        rw [List.cons_append, takeVarint, if_neg hmore, if_neg (by omega)]
        obtain ⟨less, rfl⟩ : ∃ less, left = less + 1 := ⟨left - 1, by omega⟩
        rw [htake less stream (by omega)]
        rfl
    · rename_i hsmall
      rw [gt_iff_lt, UInt64.lt_iff_toNat_lt, Nat.not_lt] at hsmall
      have hx : x.toNat < 128 := Nat.lt_succ_of_le hsmall
      exact ⟨_, rfl, (takeVarint_single hx 0 []).1,
        fun left stream _ => (takeVarint_single hx left stream).2⟩

def Exact (stream : List UInt8) : Prop :=
  ∀ v rest, readVarint stream = some (v, rest) → ∃ buf, stream = buf ++ rest ∧ v.toNat = value buf

def Fits (stream : List UInt8) : Prop :=
  ∀ buf rest, takeVarint maxVarintLength stream = some (buf, rest) → value buf < 2 ^ 64

theorem varints_exact_iff (stream : List UInt8) :
    (∀ v, ∃ bytes, encodeVarint v = some bytes ∧ readVarint (bytes ++ stream) = some (v, stream)) ∧
    ((∀ b ∈ stream, 128 ≤ b.toNat) → readVarint stream = none) ∧
    (Exact stream ↔ Fits stream) := by
  refine ⟨fun v => ?_, fun h => ?_, ?_⟩
  · obtain ⟨bytes, hbytes, hvalue, htake⟩ :=
      encodeFrom_spec (show v.toNat < 128 ^ (9 + 1) by have hlt := v.toNat_lt; omega)
    have htaken : takeVarint maxVarintLength (bytes ++ stream) = _ := htake 9 stream le_rfl
    refine ⟨bytes, hbytes, ?_⟩
    rw [readVarint_eq, htaken, Option.map_some, hvalue, UInt64.ofNat_toNat]
  · have hnone : takeVarint maxVarintLength stream = none := takeVarint_eq_none h
    rw [readVarint_eq, hnone]
    rfl
  · have hread : ∀ buf rest, takeVarint maxVarintLength stream = some (buf, rest) →
        readVarint stream = some (UInt64.ofNat (value buf), rest) ∧ stream = buf ++ rest := by
      intro buf rest htake
      obtain ⟨hsplit, -, -⟩ := decodeFrom_of_takeVarint (n := 0) (x := 0) htake
        (by omega : 0 + 7 * 9 ≤ 63) (by decide)
      rw [readVarint_eq, htake]
      exact ⟨rfl, hsplit⟩
    constructor
    · intro h buf rest htake
      obtain ⟨hsome, hsplit⟩ := hread buf rest htake
      obtain ⟨buf', hsplit', hvalue⟩ := h _ _ hsome
      obtain rfl : buf = buf' := List.append_cancel_right (hsplit.symm.trans hsplit')
      rw [← hvalue]
      exact UInt64.toNat_lt _
    · intro h v rest hsome
      rw [readVarint_eq] at hsome
      obtain ⟨taken, htake, heq⟩ := Option.map_eq_some_iff.mp hsome
      cases heq
      refine ⟨taken.1, (hread _ _ htake).2, ?_⟩
      rw [UInt64.toNat_ofNat', Nat.mod_eq_of_lt (h _ _ htake)]

/-- Nine groups of zeros and a tenth of 2 stand for two to the 64, but are read as 0. -/
theorem tenth_group_dropped :
    readVarint (List.replicate 9 0x80 ++ [2]) = some (0, []) ∧
      value (List.replicate 9 0x80 ++ [2]) = 2 ^ 64 := by
  decide +kernel

end N42.Varints
