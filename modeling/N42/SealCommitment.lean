import N42.SealVerification

/-!
The sealer's signature commits to the block hash up to the aggregated verifier
signature, which the hash covers and the signed bytes leave out.
-/

namespace N42.SealCommitment

open ByteStrings FallibleRuns ChainTypes BlockHeader HeaderSealing
open VotingSnapshot SealVerification

theorem uint256_eq_of_bigEndian {a b : Uint256}
    (h : bigEndian a.toNat = bigEndian b.toNat) : a = b :=
  BitVec.eq_of_toNat_eq (bigEndian_injective h)

theorem uint64_eq_of_bigEndian {a b : UInt64}
    (h : bigEndian a.toNat = bigEndian b.toNat) : a = b :=
  UInt64.toNat_inj.mp (bigEndian_injective h)

/-- What two headers with the same seal and the same signed bytes have in common. -/
structure SameSigned (a b : Header) : Prop where
  parentHash : a.parentHash = b.parentHash
  coinbase : a.coinbase = b.coinbase
  root : a.root = b.root
  txHash : a.txHash = b.txHash
  receiptHash : a.receiptHash = b.receiptHash
  bloom : a.bloom = b.bloom
  difficulty : a.difficulty.getD 0 = b.difficulty.getD 0
  number : a.number = b.number
  gasLimit : a.gasLimit = b.gasLimit
  gasUsed : a.gasUsed = b.gasUsed
  time : a.time = b.time
  mixDigest : a.mixDigest = b.mixDigest
  nonce : a.nonce = b.nonce
  extra : a.extra = b.extra
  baseFee : a.baseFee = b.baseFee

theorem baseFee_eq_of_toList {a b : Option Uint256}
    (h : (a.map fun fee => bigEndian fee.toNat).toList =
      (b.map fun fee => bigEndian fee.toNat).toList) : a = b := by
  cases a <;> cases b
  · rfl
  · cases h
  · cases h
  · exact congrArg some (uint256_eq_of_bigEndian (List.cons.inj h).1)

variable {bytes : List UInt8}

theorem extraSeal_le {h : Header} (hbytes : encodeSigHeader h = some bytes) :
    extraSeal ≤ h.extra.bytes.length := by
  rw [encodeSigHeader] at hbytes
  split at hbytes
  · cases hbytes
  · omega

variable {a b : Header}

theorem sameSigned_of_encodeSigHeader (hseal : Header.sealBytes a = Header.sealBytes b)
    (ha : encodeSigHeader a = some bytes) (hb : encodeSigHeader b = some bytes) :
    SameSigned a b := by
  have hstrings := sigHeaderStrings_eq_of_encodeSigHeader ha hb
  simp only [sigHeaderStrings, List.cons_append, List.nil_append, List.cons.injEq,
    true_and] at hstrings
  obtain ⟨hparent, hcoinbase, hroot, htx, hreceipt, hbloom, hdifficulty, hnumber, hgasLimit,
    hgasUsed, htime, hextra, hmix, hnonce, hbaseFee⟩ := hstrings
  have hbytes : a.extra.bytes = b.extra.bytes := by
    calc
      a.extra.bytes = Header.unsealedExtra a ++ Header.sealBytes a :=
        (List.take_append_drop _ _).symm
      _ = Header.unsealedExtra b ++ Header.sealBytes b := by rw [hextra, hseal]
      _ = b.extra.bytes := List.take_append_drop _ _
  have hne : a.extra.bytes ≠ [] := by
    intro hnil
    have hle := extraSeal_le ha
    rw [hnil] at hle
    cases hle
  exact {
    parentHash := FixedBytes.ext hparent
    coinbase := FixedBytes.ext hcoinbase
    root := FixedBytes.ext hroot
    txHash := FixedBytes.ext htx
    receiptHash := FixedBytes.ext hreceipt
    bloom := FixedBytes.ext hbloom
    difficulty := uint256_eq_of_bigEndian hdifficulty
    number := uint256_eq_of_bigEndian hnumber
    gasLimit := uint64_eq_of_bigEndian hgasLimit
    gasUsed := uint64_eq_of_bigEndian hgasUsed
    time := uint64_eq_of_bigEndian htime
    mixDigest := FixedBytes.ext hmix
    nonce := FixedBytes.ext hnonce
    extra := Slice.ext_of_ne_nil hbytes hne
    baseFee := baseFee_eq_of_toList hbaseFee }

theorem SameSigned.json_eq (lib : Primitives) (h : SameSigned a b)
    (hsignature : a.signature = b.signature) : a.json lib = b.json lib := by
  rw [Header.json, Header.json, Header.members, Header.members, h.parentHash, h.coinbase,
    h.root, h.txHash, h.receiptHash, h.bloom, h.difficulty, h.number, h.gasLimit, h.gasUsed,
    h.time, h.mixDigest, h.nonce, h.extra, h.baseFee, hsignature]

theorem verifyDifficulty_congr {fakeDiff : Bool} {snap : VotingState} {signer : Address}
    (hnumber : a.number64 = b.number64) (hdifficulty : a.difficulty.getD 0 = b.difficulty.getD 0) :
    verifyDifficulty fakeDiff snap a signer = .ok () ↔
      verifyDifficulty fakeDiff snap b signer = .ok () := by
  rw [verifyDifficulty, verifyDifficulty, hnumber]
  split
  · rfl
  · rw [bind_eq_ok_iff, bind_eq_ok_iff]
    apply exists_congr
    intro turn
    apply and_congr_right
    intro _
    rcases ha : a.difficulty with _ | x <;> rcases hb : b.difficulty with _ | y
    · rfl
    · have hzero : (0 : Uint256) = y := by simpa [ha, hb] using hdifficulty
      rw [← hzero]
      cases turn <;> simp [diffInTurn, diffNoTurn]
    · have hzero : x = (0 : Uint256) := by simpa [ha, hb] using hdifficulty
      rw [hzero]
      cases turn <;> simp [diffInTurn, diffNoTurn]
    · have hsame : x = y := by simpa [ha, hb] using hdifficulty
      rw [hsame]

theorem SameSigned.verifySeal_iff {lib : Primitives} (h : SameSigned a b)
    (ha : encodeSigHeader a = some bytes) (hb : encodeSigHeader b = some bytes) (fakeDiff : Bool)
    (snap : VotingState) :
    verifySeal lib fakeDiff snap a = .ok () ↔ verifySeal lib fakeDiff snap b = .ok () := by
  have hnumber : a.number64 = b.number64 := by
    rw [Header.number64, Header.number64, h.number]
  have hrecover : ecrecover lib a = ecrecover lib b := by
    rw [ecrecover, ecrecover, sealHash, sealHash, ha, hb, Header.sealBytes, Header.sealBytes,
      h.extra]
  rw [verifySeal_eq_ok_iff, verifySeal_eq_ok_iff, hnumber, hrecover]
  simp only [verifyDifficulty_congr hnumber h.difficulty]

/-- Two headers with the same seal and the same signed bytes get the same verdict, and
they have the same hash exactly if they carry the same verifier signature. -/
theorem hash_eq_iff_signature_eq (lib : Primitives) (a b : Header) (bytes : List UInt8)
    (hseal : Header.sealBytes a = Header.sealBytes b)
    (ha : encodeSigHeader a = some bytes) (hb : encodeSigHeader b = some bytes)
    (hcollision : lib.sha3 (a.json lib) = lib.sha3 (b.json lib) → a.json lib = b.json lib) :
    (∀ fakeDiff snap, verifySeal lib fakeDiff snap a = .ok () ↔
      verifySeal lib fakeDiff snap b = .ok ()) ∧
    (a.hash lib = b.hash lib ↔ a.signature = b.signature) := by
  have hsame := sameSigned_of_encodeSigHeader hseal ha hb
  refine ⟨hsame.verifySeal_iff ha hb, ?_⟩
  constructor
  · intro hhash
    exact Header.signature_eq_of_json_eq lib (hcollision hhash)
  · intro hsignature
    rw [Header.hash, Header.hash, hsame.json_eq lib hsignature]

def toyForgery : Header :=
  { toyHeader 1 2 (toyAddress 2) with signature := ⟨List.replicate 96 1, rfl⟩ }

/-- Replacing the verifier signature of a sealed header keeps its seal valid and changes
its hash. -/
theorem forged_signature_changes_hash :
    Header.sealBytes (toyHeader 1 2 (toyAddress 2)) = Header.sealBytes toyForgery ∧
      encodeSigHeader (toyHeader 1 2 (toyAddress 2)) = encodeSigHeader toyForgery ∧
      verifySeal toyPrimitives false (newSnapshot 0 default toySigners).toVotingState
        (toyHeader 1 2 (toyAddress 2)) = .ok () ∧
      verifySeal toyPrimitives false (newSnapshot 0 default toySigners).toVotingState
        toyForgery = .ok () ∧
      (toyHeader 1 2 (toyAddress 2)).hash toyPrimitives ≠ toyForgery.hash toyPrimitives := by
  refine ⟨rfl, rfl, ?_, ?_, by decide +kernel⟩
  · exact verifySeal_eq_ok_iff.mpr ⟨by decide, toyAddress 2, by decide, by decide,
      by rw [← seenRecently_iff]; decide, toy_verifyDifficulty rfl true (by decide) rfl⟩
  · exact verifySeal_eq_ok_iff.mpr ⟨by decide, toyAddress 2, by decide, by decide,
      by rw [← seenRecently_iff]; decide, toy_verifyDifficulty rfl true (by decide) rfl⟩

theorem hash_eq_iff_signature_eq_of_forgery :
    ∃ bytes, encodeSigHeader (toyHeader 1 2 (toyAddress 2)) = some bytes ∧
      encodeSigHeader toyForgery = some bytes ∧
      ((toyHeader 1 2 (toyAddress 2)).hash toyPrimitives = toyForgery.hash toyPrimitives ↔
        (toyHeader 1 2 (toyAddress 2)).signature = toyForgery.signature) := by
  refine ⟨_, rfl, rfl, ?_⟩
  refine (hash_eq_iff_signature_eq toyPrimitives (toyHeader 1 2 (toyAddress 2)) toyForgery _
    rfl rfl rfl ?_).2
  intro hhash
  exact absurd hhash (by decide +kernel)

end N42.SealCommitment
