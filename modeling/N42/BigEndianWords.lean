import N42.ByteStrings

/-!
Numbers in a fixed number of bytes, the words that they are read as, and records of
optional halves through which long byte strings are sent.
-/

namespace N42.BigEndianWords

open ByteStrings

def digits : Nat → Nat → List UInt8
  | 0, _ => []
  | k + 1, value => UInt8.ofNat (value / 256 ^ k) :: digits k (value % 256 ^ k)

@[simp] theorem digits_length (k value : Nat) : (digits k value).length = k := by
  induction k generalizing value with
  | zero => rfl
  | succ k ih => rw [digits, List.length_cons, ih]

section

variable (bytes : List UInt8)

theorem foldl_digits (start : Nat) :
    bytes.foldl (fun value b => value * 256 + b.toNat) start =
      start * 256 ^ bytes.length + ofBigEndian bytes := by
  induction bytes generalizing start with
  | nil => simp [ofBigEndian]
  | cons b bytes ih =>
    rw [ofBigEndian, List.foldl_cons, List.foldl_cons, ih, ih (0 * 256 + b.toNat),
      List.length_cons, pow_succ]
    ring

theorem ofBigEndian_cons (b : UInt8) (bytes : List UInt8) :
    ofBigEndian (b :: bytes) = b.toNat * 256 ^ bytes.length + ofBigEndian bytes := by
  rw [ofBigEndian, List.foldl_cons, foldl_digits, Nat.zero_mul, Nat.zero_add]

theorem ofBigEndian_lt : ofBigEndian bytes < 256 ^ bytes.length := by
  induction bytes with
  | nil => exact Nat.one_pos
  | cons b bytes ih =>
    have hb : b.toNat + 1 ≤ 256 := b.toNat_lt
    have hle := Nat.mul_le_mul_right (256 ^ bytes.length) hb
    rw [ofBigEndian_cons, List.length_cons, pow_succ]
    linarith

theorem ofBigEndian_digits {k value : Nat} (h : value < 256 ^ k) :
    ofBigEndian (digits k value) = value := by
  induction k generalizing value with
  | zero =>
    obtain rfl : value = 0 := by simpa using h
    rfl
  | succ k ih =>
    have hpos : 0 < 256 ^ k := by positivity
    have hdigit : value / 256 ^ k < 256 := by
      rw [Nat.div_lt_iff_lt_mul hpos, Nat.mul_comm, ← pow_succ]
      exact h
    have hbyte : (UInt8.ofNat (value / 256 ^ k)).toNat = value / 256 ^ k := by
      simpa using Nat.mod_eq_of_lt hdigit
    rw [digits, ofBigEndian_cons, hbyte, digits_length, ih (Nat.mod_lt value hpos)]
    exact Nat.div_add_mod' value (256 ^ k)

theorem digits_ofBigEndian : digits bytes.length (ofBigEndian bytes) = bytes := by
  induction bytes with
  | nil => rfl
  | cons b bytes ih =>
    have hpos : 0 < 256 ^ bytes.length := by positivity
    have hlt := ofBigEndian_lt bytes
    have hdiv : ofBigEndian (b :: bytes) / 256 ^ bytes.length = b.toNat := by
      rw [ofBigEndian_cons, Nat.mul_comm, Nat.mul_add_div hpos, Nat.div_eq_of_lt hlt, Nat.add_zero]
    have hmod : ofBigEndian (b :: bytes) % 256 ^ bytes.length = ofBigEndian bytes := by
      rw [ofBigEndian_cons, Nat.mul_comm, Nat.mul_add_mod, Nat.mod_eq_of_lt hlt]
    rw [List.length_cons, digits, hdiv, hmod, ih, UInt8.ofNat_toNat]

def putUint64 (word : UInt64) : List UInt8 :=
  digits 8 word.toNat

def putUint32 (word : UInt32) : List UInt8 :=
  digits 4 word.toNat

def uint64 : UInt64 :=
  UInt64.ofNat (ofBigEndian (bytes.take 8))

def uint32 : UInt32 :=
  UInt32.ofNat (ofBigEndian (bytes.take 4))

end

variable {bytes : List UInt8}

theorem digits_take {k : Nat} (h : k ≤ bytes.length) :
    ofBigEndian (bytes.take k) < 256 ^ k ∧
      digits k (ofBigEndian (bytes.take k)) = bytes.take k := by
  have hlen : (bytes.take k).length = k := by simpa using h
  have hlt := ofBigEndian_lt (bytes.take k)
  have hdigits := digits_ofBigEndian (bytes.take k)
  rw [hlen] at hlt hdigits
  exact ⟨hlt, hdigits⟩

theorem putUint64_uint64 (h : 8 ≤ bytes.length) : putUint64 (uint64 bytes) = bytes.take 8 := by
  obtain ⟨hlt, hdigits⟩ := digits_take h
  rw [putUint64, uint64, UInt64.toNat_ofNat_of_lt' hlt, hdigits]

theorem putUint32_uint32 (h : 4 ≤ bytes.length) : putUint32 (uint32 bytes) = bytes.take 4 := by
  obtain ⟨hlt, hdigits⟩ := digits_take h
  rw [putUint32, uint32, UInt32.toNat_ofNat_of_lt' hlt, hdigits]

/-- A message of two halves, either of which may be missing. -/
structure Halves (α β : Type) where
  hi : Option α
  lo : Option β
deriving DecidableEq

variable {α β : Type}

/-- What is written of the first `k` bytes of a string is read back. -/
def Transfers (k : Nat) (write : List UInt8 → α) (read : α → Option (List UInt8)) : Prop :=
  ∀ bytes, k ≤ bytes.length → read (write bytes) = some (bytes.take k)

namespace Halves

/-- The first `k` bytes go into the upper half and those after them into the lower one. -/
def write (k : Nat) (f : List UInt8 → α) (g : List UInt8 → β) (bytes : List UInt8) :
    Halves α β :=
  ⟨some (f bytes), some (g (bytes.drop k))⟩

/-- The bytes of both halves; there is nothing to read if one of them is missing. -/
def read (f : α → Option (List UInt8)) (g : β → Option (List UInt8)) (m : Halves α β) :
    Option (List UInt8) :=
  m.hi.bind fun hi => m.lo.bind fun lo => (f hi).bind fun a => (g lo).map fun b => a ++ b

def Complete (P : α → Prop) (Q : β → Prop) (m : Halves α β) : Prop :=
  (∃ hi, m.hi = some hi ∧ P hi) ∧ ∃ lo, m.lo = some lo ∧ Q lo

theorem transfers {k l : Nat} {f : List UInt8 → α} {g : List UInt8 → β}
    {rf : α → Option (List UInt8)} {rg : β → Option (List UInt8)}
    (hf : Transfers k f rf) (hg : Transfers l g rg) :
    Transfers (k + l) (write k f g) (read rf rg) := by
  intro bytes hlen
  have hhi : rf (f bytes) = some (bytes.take k) := hf bytes (by omega)
  have hlo : rg (g (bytes.drop k)) = some ((bytes.drop k).take l) :=
    hg _ (by rw [List.length_drop]; omega)
  simp only [write, read, Option.bind_some, hhi, hlo, Option.map_some, List.take_add]

theorem isSome_read_iff {f : α → Option (List UInt8)} {g : β → Option (List UInt8)}
    {m : Halves α β} :
    (read f g m).isSome ↔ m.Complete (fun hi => (f hi).isSome) (fun lo => (g lo).isSome) := by
  obtain ⟨hi, lo⟩ := m
  cases hi with
  | none => simp [read, Complete]
  | some hi =>
    cases lo with
    | none => simp [read, Complete]
    | some lo =>
      simp only [read, Complete, Option.bind_some, Option.isSome_iff_exists,
        Option.bind_eq_some_iff, Option.map_eq_some_iff, Option.some.injEq, exists_eq_left']
      constructor
      · rintro ⟨_, a, ha, b, hb, -⟩
        exact ⟨⟨a, ha⟩, b, hb⟩
      · rintro ⟨⟨a, ha⟩, b, hb⟩
        exact ⟨a ++ b, a, ha, b, hb, rfl⟩

end Halves

end N42.BigEndianWords
