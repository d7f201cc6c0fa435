import Mathlib.Data.List.Lex
import Mathlib.Data.Nat.Digits.Lemmas
import Mathlib.Order.Basic

/-!
Byte strings: arrays of a fixed length with their lexicographic order, and the
shortest big-endian representation of a natural number.
-/

namespace N42.ByteStrings

@[ext] structure FixedBytes (n : Nat) where
  bytes : List UInt8
  length_eq : bytes.length = n
deriving DecidableEq

def FixedBytes.zero (n : Nat) : FixedBytes n :=
  ⟨List.replicate n 0, List.length_replicate⟩

instance (n : Nat) : Inhabited (FixedBytes n) := ⟨FixedBytes.zero n⟩

/-- Copy a byte string into a zeroed array: what does not fit is dropped and
what is missing stays zero. -/
def FixedBytes.copy (n : Nat) (source : List UInt8) : FixedBytes n :=
  ⟨(source ++ List.replicate n 0).take n, by simp⟩

theorem FixedBytes.copy_bytes {n : Nat} {source : List UInt8}
    (h : n ≤ source.length) : (FixedBytes.copy n source).bytes = source.take n :=
  List.take_append_of_le_length h

@[simp] theorem FixedBytes.copy_append {n : Nat} (a : FixedBytes n)
    (rest : List UInt8) : FixedBytes.copy n (a.bytes ++ rest) = a := by
  apply FixedBytes.ext
  have hlen : n ≤ (a.bytes ++ rest).length := by
    simp [a.length_eq]
  rw [FixedBytes.copy_bytes hlen, List.take_append_of_le_length a.length_eq.ge,
    List.take_of_length_le a.length_eq.le]

theorem map_toNat_injective {xs ys : List UInt8}
    (h : xs.map UInt8.toNat = ys.map UInt8.toNat) : xs = ys :=
  List.map_injective_iff.mpr (fun _ _ hab => UInt8.toNat_inj.mp hab) h

instance (n : Nat) : LinearOrder (FixedBytes n) :=
  LinearOrder.lift' (fun a => a.bytes.map UInt8.toNat) fun _ _ h =>
    FixedBytes.ext (map_toNat_injective h)

def concat {n : Nat} (xs : List (FixedBytes n)) : List UInt8 :=
  xs.flatMap FixedBytes.bytes

@[simp] theorem concat_length {n : Nat} (xs : List (FixedBytes n)) :
    (concat xs).length = xs.length * n := by
  induction xs with
  | nil => simp [concat]
  | cons x xs ih =>
    simp only [concat, List.flatMap_cons, List.length_append, x.length_eq,
      List.length_cons, Nat.succ_mul] at ih ⊢
    omega

/-- Cut a byte string into `count` consecutive arrays of `n` bytes. -/
def chunks (n : Nat) : Nat → List UInt8 → List (FixedBytes n)
  | 0, _ => []
  | count + 1, source => FixedBytes.copy n source :: chunks n count (source.drop n)

theorem chunks_concat {n : Nat} (xs : List (FixedBytes n)) (rest : List UInt8) :
    chunks n xs.length (concat xs ++ rest) = xs := by
  induction xs with
  | nil => rfl
  | cons x xs ih =>
    have hdrop : ((x.bytes ++ (concat xs ++ rest)).drop n) = concat xs ++ rest := by
      rw [List.drop_append_of_le_length x.length_eq.ge,
        List.drop_of_length_le x.length_eq.le, List.nil_append]
    have hcons : concat (x :: xs) ++ rest = x.bytes ++ (concat xs ++ rest) := by
      simp [concat]
    rw [hcons]
    simp only [List.length_cons, chunks, FixedBytes.copy_append, hdrop, ih]

def bigEndian (value : Nat) : List UInt8 :=
  ((Nat.digits 256 value).map UInt8.ofNat).reverse

def ofBigEndian (bytes : List UInt8) : Nat :=
  bytes.foldl (fun value b => value * 256 + b.toNat) 0

theorem ofBigEndian_reverse (bytes : List UInt8) :
    ofBigEndian bytes.reverse = Nat.ofDigits 256 (bytes.map UInt8.toNat) := by
  rw [ofBigEndian, List.foldl_reverse]
  induction bytes with
  | nil => rfl
  | cons b bytes ih =>
    rw [List.foldr_cons, ih, List.map_cons, Nat.ofDigits_cons]
    omega

theorem ofBigEndian_bigEndian (value : Nat) : ofBigEndian (bigEndian value) = value := by
  have hdigits : ((Nat.digits 256 value).map UInt8.ofNat).map UInt8.toNat =
      Nat.digits 256 value := by
    rw [List.map_map]
    calc
      _ = (Nat.digits 256 value).map id := List.map_congr_left fun d hd => by
        have hlt : d < 256 := Nat.digits_lt_base (by omega) hd
        simpa using Nat.mod_eq_of_lt hlt
      _ = Nat.digits 256 value := List.map_id _
  rw [bigEndian, ofBigEndian_reverse, hdigits, Nat.ofDigits_digits]

theorem bigEndian_injective {a b : Nat} (h : bigEndian a = bigEndian b) : a = b := by
  rw [← ofBigEndian_bigEndian a, h, ofBigEndian_bigEndian]

theorem bigEndian_length_le_iff (value k : Nat) :
    (bigEndian value).length ≤ k ↔ value < 256 ^ k := by
  rw [bigEndian, List.length_reverse, List.length_map]
  exact Nat.digits_length_le_iff (by omega) value

theorem bigEndian_of_lt {value : Nat} (hpos : value ≠ 0) (hlt : value < 256) :
    bigEndian value = [UInt8.ofNat value] := by
  have hdigits : Nat.digits 256 value = [value] := Nat.digits_of_lt 256 value hpos hlt
  simp [bigEndian, hdigits]

end N42.ByteStrings
