import N42.TransactionCodec

/-!
Block numbers as 256-bit counters.  Numbers of blocks that are stored or requested are far
below the end of the counters, where sums and differences are those of natural numbers.
-/

namespace N42.BlockCounters

open ChainTypes TransactionCodec

def addUint64 (x : Uint256) (y : UInt64) : Uint256 :=
  x + BitVec.ofNat 256 y.toNat

def word (n : Nat) : Uint256 :=
  BitVec.ofNat 256 n

theorem toNat_word {n : Nat} (h : n < 2 ^ 65) : (word n).toNat = n := by
  rw [word, BitVec.toNat_ofNat]
  omega

theorem word_toNat (x : Uint256) : word x.toNat = x := by
  simp [word]

theorem low64_word {n : Nat} (h : n < 2 ^ 65) : low64 (word n) = UInt64.ofNat n := by
  rw [low64, toNat_word h]

theorem addUint64_word (n : Nat) (y : UInt64) : addUint64 (word n) y = word (n + y.toNat) := by
  rw [addUint64, word, word, BitVec.ofNat_add]

theorem word_le_word_iff {m n : Nat} (hm : m < 2 ^ 65) (hn : n < 2 ^ 65) :
    word m ≤ word n ↔ m ≤ n := by
  rw [BitVec.le_def, toNat_word hm, toNat_word hn]

theorem word_lt_word_iff {m n : Nat} (hm : m < 2 ^ 65) (hn : n < 2 ^ 65) :
    word m < word n ↔ m < n := by
  rw [BitVec.lt_def, toNat_word hm, toNat_word hn]

theorem word_sub_word {m n : Nat} (h : n ≤ m) (hm : m < 2 ^ 65) :
    word m - word n = word (m - n) := by
  apply BitVec.eq_of_toNat_eq
  rw [BitVec.toNat_sub, toNat_word hm, toNat_word (by omega), toNat_word (by omega)]
  omega

theorem toNat_one_mul_sub_one {x : UInt64} (h : x.toNat ≠ 0) :
    (1 * (x - 1)).toNat = x.toNat - 1 := by
  have hone : (1 : UInt64).toNat = 1 := rfl
  rw [UInt64.one_mul, UInt64.toNat_sub_of_le _ _ (UInt64.le_iff_toNat_le.mpr (by omega)), hone]

end N42.BlockCounters
