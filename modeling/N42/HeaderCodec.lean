import Mathlib.Data.List.GetD
import N42.FallibleRuns
import N42.HeaderSealing
import N42.WordMessages

/-!
The protobuf encoding of block headers, and the copy of a header with its own integers.
-/

namespace N42.HeaderCodec

open ByteStrings BigEndianWords ChainTypes BlockHeader WordMessages

structure PbHeader where
  parentHash : Option H256
  coinbase : Option H160
  root : Option H256
  txHash : Option H256
  receiptHash : Option H256
  difficulty : Option H256
  number : Option H256
  gasLimit : UInt64
  gasUsed : UInt64
  time : UInt64
  nonce : UInt64
  baseFee : Option H256
  extra : Slice
  signature : Option H768
  bloom : Option H2048
  mixDigest : Option H256

theorem length_nil_lt : ([] : List UInt8).length < 2 ^ 63 := by
  decide

def nilSlice : Slice :=
  ⟨[], true, fun _ => rfl, length_nil_lt⟩

def canonSlice (slice : Slice) : Slice :=
  if slice.bytes = [] then nilSlice else slice

def canonHeader (m : PbHeader) : PbHeader :=
  { m with extra := canonSlice m.extra }

def encodeNonce (i : UInt64) : BlockNonce :=
  FixedBytes.copy 8 (putUint64 i)

theorem encodeNonce_uint64 (nonce : BlockNonce) : encodeNonce (uint64 nonce.bytes) = nonce := by
  rw [encodeNonce, putUint64_uint64 nonce.length_eq.ge, List.take_of_length_le nonce.length_eq.le]
  simpa using FixedBytes.copy_append nonce []

/-- A header without a difficulty or without a base fee panics. -/
def Header.toProtoMessage (h : Header) : Option PbHeader := do
  let difficulty ← convertUint256IntToH256 h.difficulty
  let baseFee ← convertUint256IntToH256 h.baseFee
  return {
    parentHash := some (convertHashToH256 h.parentHash)
    coinbase := some (convertAddressToH160 h.coinbase)
    root := some (convertHashToH256 h.root)
    txHash := some (convertHashToH256 h.txHash)
    receiptHash := some (convertHashToH256 h.receiptHash)
    difficulty := some difficulty
    number := some (writeUint256 h.number)
    gasLimit := h.gasLimit
    gasUsed := h.gasUsed
    time := h.time
    nonce := uint64 h.nonce.bytes
    baseFee := some baseFee
    extra := h.extra
    signature := some (convertSignatureToH768 h.signature)
    bloom := some (convertBytesToH2048 h.bloom)
    mixDigest := some (convertHashToH256 h.mixDigest) }

def Header.fromProtoMessage (m : PbHeader) : Option Header := do
  let parentHash ← convertH256ToHash m.parentHash
  let coinbase ← convertH160toAddress m.coinbase
  let root ← convertH256ToHash m.root
  let txHash ← convertH256ToHash m.txHash
  let receiptHash ← convertH256ToHash m.receiptHash
  let difficulty ← convertH256ToUint256Int m.difficulty
  let number ← convertH256ToUint256Int m.number
  let baseFee ← convertH256ToUint256Int m.baseFee
  let signature ← convertH768ToSignature m.signature
  let bloom ← convertH2048ToBloom m.bloom
  let mixDigest ← convertH256ToHash m.mixDigest
  return {
    parentHash
    coinbase
    root
    txHash
    receiptHash
    bloom
    difficulty := some difficulty
    number
    gasLimit := m.gasLimit
    gasUsed := m.gasUsed
    time := m.time
    mixDigest
    nonce := encodeNonce m.nonce
    extra := m.extra
    baseFee := some baseFee
    signature }

variable (wire : Wire PbHeader canonHeader)

def Header.marshal (h : Header) : Except Failure wire.Bytes :=
  (orPanic (Header.toProtoMessage h)).map wire.marshal

def Header.unmarshal (data : wire.Bytes) : Except Failure Header :=
  wire.receive data >>= fun m => orPanic (Header.fromProtoMessage m)

def HeaderSurvives (h : Header) : Prop :=
  Header.marshal wire h >>= Header.unmarshal wire = .ok h

/-- Both numbers are there, and extra data that is empty is nil. -/
structure Encodable (h : Header) : Prop where
  difficulty : h.difficulty.isSome
  baseFee : h.baseFee.isSome
  extra : h.extra.bytes = [] → h.extra.isNil = true

theorem canonSlice_eq_iff (slice : Slice) :
    canonSlice slice = slice ↔ (slice.bytes = [] → slice.isNil = true) := by
  rw [canonSlice]
  split
  · rename_i hempty
    constructor
    · intro h _
      rw [← h]
      rfl
    · intro h
      exact Slice.ext hempty.symm (h hempty).symm
  · rename_i hne
    exact iff_of_true rfl fun h => absurd h hne

theorem Header.isSome_toProtoMessage_iff (h : Header) :
    (Header.toProtoMessage h).isSome ↔ h.difficulty.isSome ∧ h.baseFee.isSome := by
  rw [Header.toProtoMessage, convertUint256IntToH256, convertUint256IntToH256]
  cases h.difficulty with
  | none => simp
  | some difficulty =>
    cases h.baseFee with
    | none => simp
    | some baseFee => simp

section

variable {h : Header} {m : PbHeader} (hm : Header.toProtoMessage h = some m)
include hm

theorem Header.fromProtoMessage_extra (extra : Slice) :
    Header.fromProtoMessage { m with extra } = some { h with extra } := by
  simp only [Header.toProtoMessage, Option.bind_eq_bind, Option.bind_eq_some_iff,
    Option.pure_def, Option.some.injEq] at hm
  obtain ⟨difficulty, hdifficulty, baseFee, hbaseFee, rfl⟩ := hm
  obtain ⟨d, hd, rfl⟩ := Option.map_eq_some_iff.mp hdifficulty
  obtain ⟨f, hf, rfl⟩ := Option.map_eq_some_iff.mp hbaseFee
  simp only [Header.fromProtoMessage, convertH256ToHash_convertHashToH256,
    convertH160toAddress_convertAddressToH160, convertH256ToUint256Int_writeUint256,
    convertH768ToSignature_convertSignatureToH768, convertH2048ToBloom_convertBytesToH2048,
    encodeNonce_uint64, Option.bind_eq_bind, Option.bind_some, Option.pure_def]
  rw [hd, hf]

theorem Header.extra_toProtoMessage : m.extra = h.extra := by
  simp only [Header.toProtoMessage, Option.bind_eq_bind, Option.bind_eq_some_iff,
    Option.pure_def, Option.some.injEq] at hm
  obtain ⟨difficulty, -, baseFee, -, rfl⟩ := hm
  rfl

theorem Header.fromProtoMessage_canonHeader :
    Header.fromProtoMessage (canonHeader m) = some { h with extra := canonSlice h.extra } := by
  rw [canonHeader, Header.extra_toProtoMessage hm]
  exact Header.fromProtoMessage_extra hm (canonSlice h.extra)

end

theorem headerSurvives_iff (h : Header) : HeaderSurvives wire h ↔ Encodable h := by
  rw [HeaderSurvives, Header.marshal]
  cases hm : Header.toProtoMessage h with
  | none =>
    refine iff_of_false ?_ ?_
    · intro hread
      cases hread
    · intro henc
      have hsome := (Header.isSome_toProtoMessage_iff h).mpr ⟨henc.difficulty, henc.baseFee⟩
      rw [hm] at hsome
      cases hsome
  | some m =>
    have hboth := (Header.isSome_toProtoMessage_iff h).mp (by rw [hm]; rfl)
    have hread : Header.unmarshal wire (wire.marshal m) =
        .ok { h with extra := canonSlice h.extra } := by
      rw [Header.unmarshal, wire.receive_marshal]
      exact congrArg orPanic (Header.fromProtoMessage_canonHeader hm)
    change Header.unmarshal wire (wire.marshal m) = .ok h ↔ _
    rw [hread, Except.ok.injEq]
    constructor
    · intro heq
      exact ⟨hboth.1, hboth.2, (canonSlice_eq_iff h.extra).mp (congrArg Header.extra heq)⟩
    · intro henc
      rw [(canonSlice_eq_iff h.extra).mpr henc.extra]

abbrev Memory := List Uint256

/-- A header that points to its integers; `others` has the rest of its fields. -/
structure HeaderObject where
  difficulty : Option Nat
  number : Nat
  baseFee : Option Nat
  others : Header

namespace HeaderObject

def pointers (o : HeaderObject) : List Nat :=
  o.number :: (o.difficulty.toList ++ o.baseFee.toList)

def load (mem : Memory) (o : HeaderObject) : Header :=
  { o.others with
    difficulty := o.difficulty.map fun p => mem.getD p 0
    number := mem.getD o.number 0
    baseFee := o.baseFee.map fun p => mem.getD p 0 }

def setBytes (value : Uint256) : Uint256 :=
  BitVec.ofNat 256 (ofBigEndian (bigEndian value.toNat))

@[simp] theorem setBytes_eq (value : Uint256) : setBytes value = value := by
  rw [setBytes, ofBigEndian_bigEndian, BitVec.ofNat_toNat, BitVec.setWidth_eq]

/-- `CopyHeader`.  The copy always has a difficulty, and a base fee if the header has one. -/
def copyHeader (mem : Memory) (o : HeaderObject) : Memory × HeaderObject :=
  let difficulty := (o.difficulty.map fun p => setBytes (mem.getD p 0)).getD 0
  let number := setBytes (mem.getD o.number 0)
  let baseFee := o.baseFee.map fun p => setBytes (mem.getD p 0)
  (mem ++ difficulty :: number :: baseFee.toList, { o with
      difficulty := some mem.length
      number := mem.length + 1
      baseFee := baseFee.map fun _ => mem.length + 2 })

theorem load_append {mem : Memory} {o : HeaderObject} (h : ∀ p ∈ o.pointers, p < mem.length)
    (added : Memory) : o.load (mem ++ added) = o.load mem := by
  have hread : ∀ p ∈ o.pointers, (mem ++ added).getD p 0 = mem.getD p 0 := by
    intro p hp
    exact List.getD_append _ _ _ _ (h p hp)
  have hnumber := hread o.number List.mem_cons_self
  have hdifficulty : (o.difficulty.map fun p => (mem ++ added).getD p 0) =
      o.difficulty.map fun p => mem.getD p 0 :=
    Option.map_congr fun p hp => hread p (by simp [pointers, hp])
  have hbaseFee : (o.baseFee.map fun p => (mem ++ added).getD p 0) =
      o.baseFee.map fun p => mem.getD p 0 :=
    Option.map_congr fun p hp => hread p (by simp [pointers, hp])
  rw [load, load, hnumber, hdifficulty, hbaseFee]

theorem length_le_of_mem_pointers {mem : Memory} {o : HeaderObject} {p : Nat}
    (h : p ∈ (copyHeader mem o).2.pointers) : mem.length ≤ p := by
  cases hfee : o.baseFee with
  | none =>
    simp only [copyHeader, pointers, hfee, Option.map_none, Option.toList_none,
      Option.toList_some, List.append_nil, List.mem_cons, List.not_mem_nil, or_false] at h
    omega
  | some q =>
    simp only [copyHeader, pointers, hfee, Option.map_some, Option.toList_some,
      List.cons_append, List.nil_append, List.mem_cons, List.not_mem_nil, or_false] at h
    omega

theorem load_copyHeader (mem : Memory) (o : HeaderObject) :
    (copyHeader mem o).2.load (copyHeader mem o).1 =
      { o.load mem with difficulty := some ((o.load mem).difficulty.getD 0) } := by
  cases hbase : o.baseFee with
  | none => simp [copyHeader, load, hbase]
  | some q => simp [copyHeader, load, hbase]

end HeaderObject

/-- A header in memory, all of whose integers have been allocated. -/
structure HeldHeader where
  mem : Memory
  object : HeaderObject
  allocated : ∀ p ∈ object.pointers, p < mem.length

open HeaderObject

/-- The copy has no integer in common with the header, which has not changed, and has the
same hash. -/
structure CopiedApart (lib : Primitives) (s : HeldHeader) : Prop where
  apart : ∀ p ∈ (copyHeader s.mem s.object).2.pointers, p ∉ s.object.pointers
  kept : s.object.load (copyHeader s.mem s.object).1 = s.object.load s.mem
  hash : ((copyHeader s.mem s.object).2.load (copyHeader s.mem s.object).1).hash lib =
    (s.object.load s.mem).hash lib

theorem copiedApart (lib : Primitives) (s : HeldHeader) : CopiedApart lib s := by
  obtain ⟨mem, o, hallocated⟩ := s
  refine ⟨?_, load_append hallocated _, ?_⟩
  · intro p hp hmem
    exact absurd (hallocated p hmem) (Nat.not_lt.mpr (length_le_of_mem_pointers hp))
  · -- the hash reads a missing difficulty as zero
    rw [load_copyHeader]
    rfl

end N42.HeaderCodec
