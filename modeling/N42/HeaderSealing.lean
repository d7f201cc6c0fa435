import N42.FeeMarket
import N42.RlpEncoding
import Mathlib.Algebra.Order.BigOperators.Group.List

/-!
The part of a header that its sealer signs, and the address recovered from the
signature at the end of the extra data.
-/

namespace N42.HeaderSealing

open ByteStrings RlpEncoding ChainTypes BlockHeader

def extraVanity : Nat := 32

def extraSeal : Nat := 65

def emptyUncleHash : Hash :=
  ⟨[0x1d, 0xcc, 0x4d, 0xe8, 0xde, 0xc7, 0x5d, 0x7a, 0xab, 0x85, 0xb5, 0x67, 0xb6, 0xcc,
    0xd4, 0x1a, 0xd3, 0x12, 0x45, 0x1b, 0x94, 0x8a, 0x74, 0x13, 0xf0, 0xa1, 0x42, 0xfd,
    0x40, 0xd4, 0x93, 0x47], rfl⟩

def Header.unsealedExtra (h : Header) : List UInt8 :=
  h.extra.bytes.take (h.extra.bytes.length - extraSeal)

def Header.sealBytes (h : Header) : List UInt8 :=
  h.extra.bytes.drop (h.extra.bytes.length - extraSeal)

def sigHeaderPayload (h : Header) : List UInt8 :=
  encodeString h.parentHash.bytes ++
  encodeString emptyUncleHash.bytes ++
  encodeString h.coinbase.bytes ++
  encodeString h.root.bytes ++
  encodeString h.txHash.bytes ++
  encodeString h.receiptHash.bytes ++
  encodeString h.bloom.bytes ++
  encodeUint (h.difficulty.getD 0).toNat ++
  encodeUint h.number.toNat ++
  encodeUint h.gasLimit.toNat ++
  encodeUint h.gasUsed.toNat ++
  encodeUint h.time.toNat ++
  encodeString (Header.unsealedExtra h) ++
  encodeString h.mixDigest.bytes ++
  encodeString h.nonce.bytes ++
  match h.baseFee with
  | some baseFee => encodeUint baseFee.toNat
  | none => []

/-- `encodeSigHeader`; slicing the seal off an extra field shorter than it panics. -/
def encodeSigHeader (h : Header) : Option (List UInt8) :=
  if h.extra.bytes.length < extraSeal then none
  else some (encodeListHeader (sigHeaderPayload h).length ++ sigHeaderPayload h)

def sealHash (lib : Primitives) (h : Header) : Option Hash :=
  (encodeSigHeader h).map lib.keccak256

/-- The errors of the consensus engine.  `recoverFailed` stands for the error of the
signature library, `divideByZero` and `panic` for run-time panics. -/
inductive AposError where
  | errUnknownBlock
  | blockInTheFuture
  | errInvalidCheckpointBeneficiary
  | errInvalidVote
  | errInvalidCheckpointVote
  | errMissingVanity
  | errMissingSignature
  | errExtraSigners
  | errInvalidCheckpointSigners
  | errMismatchingCheckpointSigners
  | errInvalidDifficulty
  | errWrongDifficulty
  | errInvalidTimestamp
  | errInvalidVotingChain
  | errUnauthorizedSigner
  | errRecentlySigned
  | sealingPaused
  | mustWaitForOthers
  | invalidGasLimit (given max : UInt64)
  | invalidGasUsed (given gasLimit : UInt64)
  | baseFeeBeforeFork (given : Uint256)
  | fee (e : FeeMarket.FeeError)
  | unknownAncestor
  | recoverFailed
  | divideByZero
  | panic
deriving DecidableEq

/-- `ecrecover` without its cache: the address is the end of the hash of the public
key without its first byte. -/
def ecrecover (lib : Primitives) (h : Header) : Except AposError Address :=
  match sealHash lib h with
  | none => .error .errMissingSignature
  | some hash =>
    match lib.ecrecover hash (Header.sealBytes h) with
    | none => .error .recoverFailed
    | some pubkey =>
      .ok (FixedBytes.copy 20 ((lib.keccak256 (pubkey.drop 1)).bytes.drop 12))

def sigHeaderStrings (h : Header) : List (List UInt8) :=
  [h.parentHash.bytes, emptyUncleHash.bytes, h.coinbase.bytes, h.root.bytes,
    h.txHash.bytes, h.receiptHash.bytes, h.bloom.bytes,
    bigEndian (h.difficulty.getD 0).toNat, bigEndian h.number.toNat,
    bigEndian h.gasLimit.toNat, bigEndian h.gasUsed.toNat, bigEndian h.time.toNat,
    Header.unsealedExtra h, h.mixDigest.bytes, h.nonce.bytes] ++
  (h.baseFee.map fun baseFee => bigEndian baseFee.toNat).toList

theorem sigHeaderPayload_eq_encodeAll (h : Header) :
    sigHeaderPayload h = encodeAll ((sigHeaderStrings h).map .bytes) := by
  unfold sigHeaderPayload sigHeaderStrings
  cases h.baseFee <;> simp [encodeAll, encode, encodeUint_eq_encodeString]

theorem bigEndian_uint64_length (value : UInt64) : (bigEndian value.toNat).length ≤ 8 := by
  rw [bigEndian_length_le_iff]
  exact value.toNat_lt

theorem bigEndian_uint256_length (value : Uint256) : (bigEndian value.toNat).length ≤ 32 := by
  rw [bigEndian_length_le_iff]
  exact value.isLt

theorem sigHeaderStrings_lengths (h : Header) :
    (∀ value ∈ sigHeaderStrings h, value.length < 2 ^ 64) ∧
      ((sigHeaderStrings h).map fun value => value.length + 9).sum < 2 ^ 64 := by
  have hextra : (Header.unsealedExtra h).length < 2 ^ 63 := by
    have := h.extra.length_lt
    simp only [Header.unsealedExtra, List.length_take]
    omega
  have hdifficulty := bigEndian_uint256_length (h.difficulty.getD 0)
  have hnumber := bigEndian_uint256_length h.number
  have hgasLimit := bigEndian_uint64_length h.gasLimit
  have hgasUsed := bigEndian_uint64_length h.gasUsed
  have htime := bigEndian_uint64_length h.time
  have hsum : ((sigHeaderStrings h).map fun value => value.length + 9).sum < 2 ^ 64 := by
    unfold sigHeaderStrings
    cases h.baseFee with
    | none =>
      simp only [List.map_append, List.map_cons, List.map_nil, List.sum_append,
        List.sum_cons, List.sum_nil, FixedBytes.length_eq, Option.map_none, Option.toList_none]
      omega
    | some baseFee =>
      have hbaseFee := bigEndian_uint256_length baseFee
      simp only [List.map_append, List.map_cons, List.map_nil, List.sum_append,
        List.sum_cons, List.sum_nil, FixedBytes.length_eq, Option.map_some, Option.toList_some]
      omega
  refine ⟨fun value hvalue => ?_, hsum⟩
  have hle := List.le_sum_of_mem (List.mem_map_of_mem
    (f := fun value : List UInt8 => value.length + 9) hvalue)
  omega

theorem sigHeaderStrings_eq_of_encodeSigHeader {a b : Header} {bytes : List UInt8}
    (ha : encodeSigHeader a = some bytes) (hb : encodeSigHeader b = some bytes) :
    sigHeaderStrings a = sigHeaderStrings b := by
  have hlen : ∀ h : Header, (encodeAll ((sigHeaderStrings h).map .bytes)).length < 2 ^ 64 :=
    fun h => (encodeAll_strings_length_le _ (sigHeaderStrings_lengths h).1).trans_lt
      (sigHeaderStrings_lengths h).2
  have hencode : ∀ {h : Header}, encodeSigHeader h = some bytes →
      encode (.list ((sigHeaderStrings h).map .bytes)) = bytes := by
    intro h hh
    unfold encodeSigHeader at hh
    split at hh
    · cases hh
    · rw [encode, ← sigHeaderPayload_eq_encodeAll]
      exact Option.some.inj hh
  exact encodeAll_strings_inj (hlen a) ((hencode ha).trans (hencode hb).symm) (hlen b)

def toyPrimitives : Primitives where
  sha3 bytes := FixedBytes.copy 32 (bigEndian
    (bytes.foldl (fun sum b => (sum * 263 + b.toNat + 1) % 2 ^ 61) 7))
  keccak256 bytes := FixedBytes.copy 32 (bytes.drop (bytes.length - 32))
  ecrecover _ signature := some (4 :: signature.take 64)
  uint256Text value := ⟨TextEncoding.decimal value.toNat, TextEncoding.decimal_isPlain _⟩

def toySeal (signer : Address) : List UInt8 :=
  List.replicate 44 0 ++ signer.bytes ++ [0]

def toyHeader (number : Nat) (difficulty : Nat) (signer : Address)
    (list : List UInt8 := []) : Header where
  parentHash := default
  coinbase := default
  root := default
  txHash := default
  receiptHash := default
  bloom := default
  difficulty := some (BitVec.ofNat 256 difficulty)
  number := BitVec.ofNat 256 number
  gasLimit := 0
  gasUsed := 0
  time := 0
  mixDigest := default
  nonce := default
  extra := Slice.make (List.replicate 32 0 ++ list.take 1024 ++ toySeal signer) (by
    simp only [toySeal, List.length_append, List.length_replicate, List.length_take,
      signer.length_eq, List.length_singleton]
    omega)
  baseFee := none
  signature := default

def toyAddress (last : UInt8) : Address :=
  ⟨List.replicate 19 0 ++ [last], rfl⟩

end N42.HeaderSealing
