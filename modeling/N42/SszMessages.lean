import N42.BlockCodec

/-!
Block messages as they are sent in response chunks.  The SSZ encoding of a message has all
its fields: what is nil is filled with zeros before it is written, so that it is read back
as zeros.  An encoding is refused if a list or the whole message is too long.
-/

namespace N42.SszMessages

open ByteStrings BigEndianWords ChainTypes BlockHeader Transactions
open FallibleRuns WordMessages HeaderCodec TransactionCodec BlockCodec

section Filling

def fillH128 (m : Option H128) : H128 :=
  m.getD ⟨0, 0⟩

def fillH160 (m : Option H160) : H160 :=
  ⟨some (fillH128 (m.bind H160.hi)), (m.map H160.lo).getD 0⟩

def fillHalves {α β : Type} (fillHi : Option α → α) (fillLo : Option β → β)
    (m : Option (Halves α β)) : Halves α β :=
  ⟨some (fillHi (m.bind Halves.hi)), some (fillLo (m.bind Halves.lo))⟩

def fillH256 : Option H256 → H256 :=
  fillHalves fillH128 fillH128

def fillH384 : Option H384 → H384 :=
  fillHalves fillH256 fillH128

def fillH512 : Option H512 → H512 :=
  fillHalves fillH256 fillH256

def fillH768 : Option H768 → H768 :=
  fillHalves fillH384 fillH384

def fillH1024 : Option H1024 → H1024 :=
  fillHalves fillH512 fillH512

def fillH2048 : Option H2048 → H2048 :=
  fillHalves fillH1024 fillH1024

end Filling

def madeSlice (slice : Slice) : Slice :=
  Slice.make slice.bytes slice.length_lt

def Header.throughSSZ (m : PbHeader) : Option PbHeader :=
  if 117 < m.extra.bytes.length then none
  else some {
    parentHash := some (fillH256 m.parentHash)
    coinbase := some (fillH160 m.coinbase)
    root := some (fillH256 m.root)
    txHash := some (fillH256 m.txHash)
    receiptHash := some (fillH256 m.receiptHash)
    difficulty := some (fillH256 m.difficulty)
    number := some (fillH256 m.number)
    gasLimit := m.gasLimit
    gasUsed := m.gasUsed
    time := m.time
    nonce := m.nonce
    baseFee := some (fillH256 m.baseFee)
    extra := madeSlice m.extra
    signature := some (fillH768 m.signature)
    bloom := some (fillH2048 m.bloom)
    mixDigest := some (fillH256 m.mixDigest) }

def sszMax : Nat :=
  104857600

def Transaction.filled (m : PbTransaction) : PbTransaction where
  type := m.type
  nonce := m.nonce
  gasPrice := some (fillH256 m.gasPrice)
  gas := m.gas
  feePerGas := some (fillH256 m.feePerGas)
  priorityFeePerGas := some (fillH256 m.priorityFeePerGas)
  value := some (fillH256 m.value)
  data := m.data
  sign := m.sign
  toAddress := some (fillH160 m.toAddress)
  fromAddress := some (fillH160 m.fromAddress)
  chainID := m.chainID
  hash := some (fillH256 m.hash)
  r := some (fillH256 m.r)
  s := some (fillH256 m.s)
  v := some (fillH256 m.v)

def Transaction.throughSSZ (m : PbTransaction) : Option PbTransaction :=
  if sszMax < m.data.length ∨ sszMax < m.sign.length then none
  else some (Transaction.filled m)

def Verifier.throughSSZ (m : PbVerifier) : PbVerifier where
  publicKey := some (fillH384 m.publicKey)
  address := some (fillH160 m.address)

def Reward.throughSSZ (m : PbReward) : PbReward where
  amount := some (fillH256 m.amount)
  address := some (fillH160 m.address)

def Body.throughSSZ (m : PbBody) : Option PbBody :=
  if sszMax < m.txs.length ∨ sszMax < m.verifiers.length ∨ sszMax < m.rewards.length then none
  else do
    let txs ← m.txs.mapM Transaction.throughSSZ
    return {
      txs
      verifiers := m.verifiers.map Verifier.throughSSZ
      rewards := m.rewards.map Reward.throughSSZ }

def newHeader : PbHeader where
  parentHash := none
  coinbase := none
  root := none
  txHash := none
  receiptHash := none
  difficulty := none
  number := none
  gasLimit := 0
  gasUsed := 0
  time := 0
  nonce := 0
  baseFee := none
  extra := nilSlice
  signature := none
  bloom := none
  mixDigest := none

def newBody : PbBody :=
  ⟨[], [], []⟩

def Block.throughSSZ (m : PbBlock) : Option PbBlock := do
  let header ← Header.throughSSZ (m.header.getD newHeader)
  let body ← Body.throughSSZ (m.body.getD newBody)
  return ⟨some header, some body⟩

section Sizes

def Header.sizeSSZ (m : PbHeader) : Nat :=
  664 + m.extra.bytes.length

def Transaction.sizeSSZ (m : PbTransaction) : Nat :=
  336 + m.data.length + m.sign.length

def Body.sizeSSZ (m : PbBody) : Nat :=
  12 + (m.txs.map fun tx => 4 + Transaction.sizeSSZ tx).sum + m.verifiers.length * 68 +
    m.rewards.length * 52

def Block.sizeSSZ (m : PbBlock) : Nat :=
  8 + Header.sizeSSZ (m.header.getD newHeader) + Body.sizeSSZ (m.body.getD newBody)

end Sizes

def maxChunkSize : Nat :=
  2 ^ 20

/-- What `DecodeWithMaxLength` reads of the bytes that `EncodeWithMaxLength` writes. -/
def encodeWithMaxLength (m : PbBlock) : Option PbBlock := do
  let sent ← Block.throughSSZ m
  if maxChunkSize < Block.sizeSSZ m then none else some sent

def blockToProtoMessage (lib : Primitives) (b : Header × Body) : Option PbBlock := do
  let header ← Header.toProtoMessage b.1
  let body ← Body.toProtoMessage lib b.2
  return ⟨some header, some body⟩

def encodeBlock (lib : Primitives) (b : Header × Body) : Option PbBlock :=
  blockToProtoMessage lib b >>= encodeWithMaxLength

/-- All fields of the header, its extra data as bytes, and what is executed of the body. -/
structure SameBlock (d b : Header × Body) : Prop where
  header : { d.1 with extra := b.1.extra } = b.1
  extra : d.1.extra.bytes = b.1.extra.bytes
  body : d.2.view = b.2.view

def Transmits (lib : Primitives) (b : Header × Body) : Prop :=
  ∃ m d, encodeBlock lib b = some m ∧ blockFromProtoMessage m = some d ∧ SameBlock d b

def encodedSize (b : Header × Body) : Nat :=
  684 + b.1.extra.bytes.length +
    (b.2.txs.map fun tx => 340 + tx.fields.data.length + tx.fields.sign.length).sum +
    b.2.verifiers.length * 68 + b.2.rewards.length * 52

/-- Both numbers of the header are there, the extra data has room for the seal of one
signer, no transaction is of the type with an access list or has more than its message can
say, and the encoding fits into a chunk. -/
structure Transmittable (b : Header × Body) : Prop where
  difficulty : b.1.difficulty.isSome
  baseFee : b.1.baseFee.isSome
  extra : b.1.extra.bytes.length ≤ 117
  txs : ∀ tx ∈ b.2.txs, tx.Plain ∧ tx.kind.txType ≠ 1
  size : encodedSize b ≤ maxChunkSize

section Filled

@[simp] theorem fillH256_convertHashToH256 (hash : Hash) :
    fillH256 (some (convertHashToH256 hash)) = convertHashToH256 hash :=
  rfl

@[simp] theorem fillH160_convertAddressToH160 (address : Address) :
    fillH160 (some (convertAddressToH160 address)) = convertAddressToH160 address :=
  rfl

@[simp] theorem fillH256_writeUint256 (value : Uint256) :
    fillH256 (some (writeUint256 value)) = writeUint256 value :=
  rfl

@[simp] theorem fillH768_convertSignatureToH768 (signature : Signature) :
    fillH768 (some (convertSignatureToH768 signature)) = convertSignatureToH768 signature :=
  rfl

theorem fillH512_convertBytesToH512 (bytes : List UInt8) :
    fillH512 (some (convertBytesToH512 bytes)) = convertBytesToH512 bytes := by
  rw [convertBytesToH512]
  split
  · rfl
  · rfl

@[simp] theorem fillH2048_convertBytesToH2048 (bloom : Bloom) :
    fillH2048 (some (convertBytesToH2048 bloom)) = convertBytesToH2048 bloom := by
  simp only [convertBytesToH2048, fillH2048, fillH1024, fillHalves, Halves.write,
    Option.bind_some, fillH512_convertBytesToH512]

theorem fillH256_map_writeUint256 (value : Option Uint256) :
    fillH256 (value.map writeUint256) = writeUint256 (value.getD 0) := by
  cases value with
  | none => rfl
  | some value => rfl

theorem recipient_fillH160 (to_ : Option Address) :
    recipient (some (fillH160 (to_.map convertAddressToH160))) =
      some (if to_ = some default then none else to_) := by
  cases to_ with
  | none =>
    have hzero : some (fillH160 none) = (some (default : Address)).map convertAddressToH160 := by
      decide
    rfl
  | some to_ => exact recipient_map (some to_)

end Filled

section Headers

variable {h : Header} {m : PbHeader}

theorem Header.throughSSZ_toProtoMessage (hm : Header.toProtoMessage h = some m) :
    Header.throughSSZ m =
      if 117 < h.extra.bytes.length then none
      else some { m with extra := madeSlice h.extra } := by
  simp only [Header.toProtoMessage, Option.bind_eq_bind, Option.bind_eq_some_iff,
    Option.pure_def, Option.some.injEq] at hm
  obtain ⟨difficulty, hdifficulty, baseFee, hbaseFee, rfl⟩ := hm
  obtain ⟨d, -, rfl⟩ := Option.map_eq_some_iff.mp hdifficulty
  obtain ⟨f, -, rfl⟩ := Option.map_eq_some_iff.mp hbaseFee
  simp [Header.throughSSZ]

end Headers

section Transactions

variable {tx : TxData} {hash : Hash} {m m' : PbTransaction}

/-- What arrives of a transaction: its signature values are never nil. -/
def TxData.arrived (tx : TxData) : TxData :=
  { tx.reduced with
    fields :=
      { tx.reduced.fields with
        v := some (tx.fields.v.getD 0)
        r := some (tx.fields.r.getD 0)
        s := some (tx.fields.s.getD 0) } }

theorem TxData.view_arrived (tx : TxData) : (TxData.arrived tx).view = tx.reduced.view := by
  obtain ⟨fields, kind⟩ := tx
  cases kind with
  | legacy gasPrice => rfl
  | accessList chainID gasPrice accesses => rfl
  | dynamicFee chainID gasTipCap gasFeeCap accesses => rfl

theorem TxData.copyable_arrived_iff (tx : TxData) :
    (TxData.arrived tx).Copyable ↔ tx.kind.txType ≠ 1 := by
  obtain ⟨fields, kind⟩ := tx
  cases kind with
  | legacy gasPrice => simp [TxData.Copyable, TxData.arrived, TxData.reduced, TxKind.reduced,
      TxKind.txType]
  | accessList chainID gasPrice accesses =>
    simp [TxData.Copyable, TxData.arrived, TxData.reduced, TxKind.reduced, TxKind.txType]
  | dynamicFee chainID gasTipCap gasFeeCap accesses =>
    simp [TxData.Copyable, TxData.arrived, TxData.reduced, TxKind.reduced, TxKind.txType]

theorem Transaction.throughSSZ_eq_some_iff :
    Transaction.throughSSZ m = some m' ↔
      (m.data.length ≤ sszMax ∧ m.sign.length ≤ sszMax) ∧ m' = Transaction.filled m := by
  rw [Transaction.throughSSZ]
  split
  · refine iff_of_false (by intro h; cases h) ?_
    rintro ⟨hlen, -⟩
    omega
  · rw [Option.some.injEq, eq_comm]
    constructor
    · intro h
      exact ⟨by omega, h⟩
    · rintro ⟨-, h⟩
      exact h

theorem decodeKind_filled (h : tx.message (some (convertHashToH256 hash)) = some m) :
    decodeKind (Transaction.filled m) = some tx.kind.reduced := by
  obtain ⟨sender, -, rfl⟩ := Option.map_eq_some_iff.mp h
  simp only [decodeKind, Transaction.filled]
  cases tx.kind with
  | legacy gasPrice => simp [TxKind.txType, TxKind.gasPrice, TxKind.reduced]
  | accessList chainID gasPrice accesses =>
    simp [TxKind.txType, TxKind.gasPrice, TxKind.chainID64, TxKind.reduced]
  | dynamicFee chainID gasTipCap gasFeeCap accesses =>
    simp [TxKind.txType, TxKind.chainID64, TxKind.feePerGas, TxKind.priorityFeePerGas,
      TxKind.reduced]

theorem optionalField_filled (value : Option Uint256) :
    optionalField convertH256ToUint256Int (some (fillH256 (value.map writeUint256))) =
      some (some (value.getD 0)) := by
  rw [fillH256_map_writeUint256]
  exact optionalField_uint256 (some (value.getD 0))

section

variable (h : tx.message (some (convertHashToH256 hash)) = some m)
include h

theorem decodeFields_filled :
    decodeFields (Transaction.filled m) = some (TxData.arrived tx).fields := by
  obtain ⟨sender, hsender, rfl⟩ := Option.map_eq_some_iff.mp h
  simp only [decodeFields, Transaction.filled, recipient_fillH160, fillH160_convertAddressToH160,
    fillH256_writeUint256, convertH160toAddress_convertAddressToH160,
    convertH256ToUint256Int_writeUint256, optionalField_filled, Option.bind_eq_bind,
    Option.bind_some, Option.pure_def, TxData.arrived, TxData.reduced]
  rw [hsender]

theorem txDataFromProtoMessage_filled :
    txDataFromProtoMessage (Transaction.filled m) = some (TxData.arrived tx) := by
  have hread : convertH256ToHash (Transaction.filled m).hash = some hash := by
    obtain ⟨sender, -, rfl⟩ := Option.map_eq_some_iff.mp h
    exact convertH256ToHash_convertHashToH256 hash
  simp only [txDataFromProtoMessage, decodeKind_filled h, decodeFields_filled h, hread,
    Option.bind_eq_bind, Option.bind_some, Option.pure_def]
  rfl

def sendTx (lib : Primitives) (tx : TxData) : Option PbTransaction :=
  (tx.toProtoMessage lib).bind Transaction.throughSSZ

theorem strings_of_message : m.data = tx.fields.data ∧ m.sign = tx.fields.sign := by
  obtain ⟨sender, -, rfl⟩ := Option.map_eq_some_iff.mp h
  exact ⟨rfl, rfl⟩

end

theorem sendTx_iff (lib : Primitives) (tx : TxData) :
    (∃ m tx', sendTx lib tx = some m ∧ TransactionCodec.fromProtoMessage m = some tx' ∧
        tx'.view = tx.view) ↔ (tx.Plain ∧ tx.kind.txType ≠ 1) ∧
        tx.fields.data.length ≤ sszMax ∧ tx.fields.sign.length ≤ sszMax := by
  constructor
  · rintro ⟨m', tx', hm', hdecoded, hview⟩
    obtain ⟨m, hm, hthrough⟩ := Option.bind_eq_some_iff.mp hm'
    obtain ⟨hlen, rfl⟩ := Transaction.throughSSZ_eq_some_iff.mp hthrough
    rw [(strings_of_message hm).1, (strings_of_message hm).2] at hlen
    rw [TransactionCodec.fromProtoMessage, txDataFromProtoMessage_filled hm, Option.bind_some]
      at hdecoded
    have hcopy := (TxData.isSome_copy_iff _).mp (by rw [hdecoded]; rfl)
    have hsender := (tx.isSome_message_iff _).mp (Option.isSome_iff_exists.mpr ⟨m, hm⟩)
    obtain ⟨hto, hkind⟩ := tx.view_reduced_eq_iff.mp
      ((TxData.view_arrived tx).symm.trans ((TxData.view_copy hdecoded).symm.trans hview))
    exact ⟨⟨⟨hsender, hto, hkind⟩, (TxData.copyable_arrived_iff tx).mp hcopy⟩, hlen⟩
  · rintro ⟨⟨⟨hsender, hto, hkind⟩, htype⟩, hlen⟩
    obtain ⟨m, hm⟩ := Option.isSome_iff_exists.mp ((tx.isSome_message_iff
      (some (convertHashToH256 (tx.view.hash lib)))).mpr hsender)
    obtain ⟨tx', htx'⟩ := Option.isSome_iff_exists.mp
      ((TxData.isSome_copy_iff _).mpr ((TxData.copyable_arrived_iff tx).mpr htype))
    rw [← (strings_of_message hm).1, ← (strings_of_message hm).2] at hlen
    refine ⟨Transaction.filled m, tx', ?_, ?_, ?_⟩
    · exact Option.bind_eq_some_iff.mpr ⟨m, hm, Transaction.throughSSZ_eq_some_iff.mpr ⟨hlen, rfl⟩⟩
    · rw [TransactionCodec.fromProtoMessage, txDataFromProtoMessage_filled hm]
      exact htx'
    · rw [TxData.view_copy htx', TxData.view_arrived]
      exact tx.view_reduced_eq_iff.mpr ⟨hto, hkind⟩

end Transactions

section Blocks

variable {lib : Primitives} {b : Header × Body}

def ListsFit (b : Body) : Prop :=
  b.txs.length ≤ sszMax ∧ b.verifiers.length ≤ sszMax ∧ b.rewards.length ≤ sszMax

def bodyMessage (b : Body) (txs : List PbTransaction) : PbBody :=
  ⟨txs, b.verifiers.map Verify.toProtoMessage, b.rewards.map Reward.toProtoMessage⟩

theorem Body.toProtoMessage_eq_some_iff {body : Body} {m : PbBody} :
    body.toProtoMessage lib = some m ↔
      ∃ txs, body.txs.mapM (fun tx => tx.toProtoMessage lib) = some txs ∧
        m = bodyMessage body txs := by
  simp only [Body.toProtoMessage, Option.bind_eq_bind, Option.bind_eq_some_iff, Option.pure_def,
    Option.some.injEq, bodyMessage, eq_comm (b := m)]

theorem Body.throughSSZ_bodyMessage {body : Body} {txs : List PbTransaction} {m : PbBody}
    (hlen : txs.length = body.txs.length) :
    Body.throughSSZ (bodyMessage body txs) = some m ↔
      ListsFit body ∧ ∃ sent, txs.mapM Transaction.throughSSZ = some sent ∧
        m = bodyMessage body sent := by
  have hverifiers : (body.verifiers.map Verify.toProtoMessage).map Verifier.throughSSZ =
      body.verifiers.map Verify.toProtoMessage := by
    rw [List.map_map]
    rfl
  have hrewards : (body.rewards.map Reward.toProtoMessage).map Reward.throughSSZ =
      body.rewards.map Reward.toProtoMessage := by
    rw [List.map_map]
    rfl
  simp only [Body.throughSSZ, bodyMessage, ListsFit, List.length_map, hlen, hverifiers, hrewards]
  split
  · refine iff_of_false (by intro h; cases h) ?_
    rintro ⟨hfit, -⟩
    omega
  · simp only [Option.bind_eq_bind, Option.bind_eq_some_iff, Option.pure_def,
      Option.some.injEq, eq_comm (b := m)]
    constructor
    · intro h
      exact ⟨by omega, h⟩
    · rintro ⟨-, h⟩
      exact h

theorem length_of_mapM {txs : List TxData} {ms : List PbTransaction}
    (h : txs.mapM (fun tx => tx.toProtoMessage lib) = some ms) : ms.length = txs.length :=
  (List.Forall₂.length_eq (mapM_eq_some_iff.mp h)).symm

theorem sum_sizeSSZ {txs : List TxData} {ms : List PbTransaction}
    (h : txs.mapM (fun tx => tx.toProtoMessage lib) = some ms) :
    (ms.map fun m => 4 + Transaction.sizeSSZ m).sum =
      (txs.map fun tx => 340 + tx.fields.data.length + tx.fields.sign.length).sum := by
  rw [mapM_eq_some_iff] at h
  induction h with
  | nil => rfl
  | cons hm _ ih =>
    rw [List.map_cons, List.map_cons, List.sum_cons, List.sum_cons, ih, Transaction.sizeSSZ,
      (strings_of_message hm).1, (strings_of_message hm).2]
    omega

theorem sizeSSZ_eq {hm : PbHeader} {txs : List PbTransaction}
    (hheader : Header.toProtoMessage b.1 = some hm)
    (htxs : b.2.txs.mapM (fun tx => tx.toProtoMessage lib) = some txs) :
    Block.sizeSSZ ⟨some hm, some (bodyMessage b.2 txs)⟩ = encodedSize b := by
  simp only [Block.sizeSSZ, Option.getD_some, Header.sizeSSZ, Body.sizeSSZ, bodyMessage,
    List.length_map, sum_sizeSSZ htxs, Header.extra_toProtoMessage hheader, encodedSize]
  omega

theorem encodeBlock_eq_some_iff {m : PbBlock} :
    encodeBlock lib b = some m ↔
      ∃ hm sent, (Header.toProtoMessage b.1 = some hm ∧ b.2.txs.mapM (sendTx lib) = some sent) ∧
        (b.1.extra.bytes.length ≤ 117 ∧ ListsFit b.2 ∧ encodedSize b ≤ maxChunkSize) ∧
        m = ⟨some { hm with extra := madeSlice b.1.extra }, some (bodyMessage b.2 sent)⟩ := by
  have hsend : b.2.txs.mapM (sendTx lib) = (b.2.txs.mapM (TxData.toProtoMessage lib)).bind
      fun ms => ms.mapM Transaction.throughSSZ :=
    (mapM_bind_mapM b.2.txs).symm
  simp only [encodeBlock, blockToProtoMessage, encodeWithMaxLength, Block.throughSSZ,
    Option.bind_eq_bind, Option.bind_eq_some_iff, Option.pure_def, Option.some.injEq, hsend,
    Body.toProtoMessage_eq_some_iff]
  constructor
  · rintro ⟨_, ⟨hm, hheader, _, ⟨txs, htxs, rfl⟩, rfl⟩, _, ⟨hm', hthrough, body, hbody, rfl⟩, hsize⟩
    rw [Option.getD_some, Header.throughSSZ_toProtoMessage hheader] at hthrough
    rw [Option.getD_some, Body.throughSSZ_bodyMessage (length_of_mapM htxs)] at hbody
    rw [sizeSSZ_eq hheader htxs] at hsize
    obtain ⟨hextra, hthrough⟩ := Option.ite_none_left_eq_some.mp hthrough
    obtain ⟨hlarge, hsize⟩ := Option.ite_none_left_eq_some.mp hsize
    obtain ⟨hfit, sent, hsent, rfl⟩ := hbody
    cases hthrough
    cases hsize
    exact ⟨hm, sent, ⟨hheader, txs, htxs, hsent⟩, ⟨not_lt.mp hextra, hfit, not_lt.mp hlarge⟩, rfl⟩
  · rintro ⟨hm, sent, ⟨hheader, txs, htxs, hsent⟩, ⟨hextra, hfit, hsize⟩, rfl⟩
    refine ⟨_, ⟨hm, hheader, _, ⟨txs, htxs, rfl⟩, rfl⟩, _,
      ⟨{ hm with extra := madeSlice b.1.extra }, ?_, bodyMessage b.2 sent, ?_, rfl⟩, ?_⟩
    · rw [Option.getD_some, Header.throughSSZ_toProtoMessage hheader, if_neg (not_lt.mpr hextra)]
    · exact (Body.throughSSZ_bodyMessage (length_of_mapM htxs)).mpr ⟨hfit, sent, hsent, rfl⟩
    · rw [sizeSSZ_eq hheader htxs, if_neg (not_lt.mpr hsize)]

theorem fits_of_size (h : encodedSize b ≤ maxChunkSize) :
    ListsFit b.2 ∧ ∀ tx ∈ b.2.txs,
      tx.fields.data.length ≤ sszMax ∧ tx.fields.sign.length ≤ sszMax := by
  rw [encodedSize, maxChunkSize] at h
  have hcount : b.2.txs.length ≤
      (b.2.txs.map fun tx => 340 + tx.fields.data.length + tx.fields.sign.length).sum := by
    rw [← List.length_map (f := fun tx : TxData =>
      340 + tx.fields.data.length + tx.fields.sign.length)]
    refine List.length_le_sum_of_one_le _ ?_
    intro n hn
    obtain ⟨tx, -, rfl⟩ := List.mem_map.mp hn
    omega
  refine ⟨⟨?_, ?_, ?_⟩, ?_⟩
  · rw [sszMax]
    omega
  · rw [sszMax]
    omega
  · rw [sszMax]
    omega
  · intro tx htx
    have hle := List.le_sum_of_mem (List.mem_map_of_mem (f := fun tx : TxData =>
      340 + tx.fields.data.length + tx.fields.sign.length) htx)
    rw [sszMax]
    omega

theorem transmits_iff (lib : Primitives) (b : Header × Body) :
    Transmits lib b ↔ Transmittable b := by
  constructor
  · rintro ⟨m, d, hm, hd, hsame⟩
    obtain ⟨hm, sent, ⟨hheader, hsent⟩, ⟨hextra, -, hsize⟩, rfl⟩ := encodeBlock_eq_some_iff.mp hm
    obtain ⟨hdifficulty, hbaseFee⟩ :=
      (Header.isSome_toProtoMessage_iff b.1).mp (Option.isSome_iff_exists.mpr ⟨_, hheader⟩)
    simp only [blockFromProtoMessage, Option.bind_eq_bind, Option.bind_some,
      Header.fromProtoMessage_extra hheader, bodyMessage, Body.fromProtoMessage_mk,
      Option.bind_eq_some_iff, Option.map_eq_some_iff, Option.pure_def, Option.some.injEq] at hd
    obtain ⟨_, ⟨txs, htxs, rfl⟩, rfl⟩ := hd
    have hsurvive := mapM_through_iff.mp ⟨sent, txs, hsent, htxs, congrArg Prod.fst hsame.body⟩
    refine ⟨hdifficulty, hbaseFee, hextra, ?_, hsize⟩
    intro tx htx
    exact ((sendTx_iff lib tx).mp (hsurvive tx htx)).1
  · intro h
    obtain ⟨hm, hheader⟩ := Option.isSome_iff_exists.mp
      ((Header.isSome_toProtoMessage_iff b.1).mpr ⟨h.difficulty, h.baseFee⟩)
    obtain ⟨hfit, hstrings⟩ := fits_of_size h.size
    obtain ⟨sent, txs, hsent, htxs, hview⟩ := mapM_through_iff.mpr fun tx htx =>
      (sendTx_iff lib tx).mpr ⟨h.txs tx htx, hstrings tx htx⟩
    refine ⟨_, ({ b.1 with extra := madeSlice b.1.extra }, ⟨txs, b.2.verifiers, b.2.rewards⟩),
      encodeBlock_eq_some_iff.mpr
        ⟨hm, sent, ⟨hheader, hsent⟩, ⟨h.extra, hfit, h.size⟩, rfl⟩, ?_, ?_⟩
    · have hbody := Body.fromProtoMessage_mk sent b.2.verifiers b.2.rewards
      rw [htxs, Option.map_some] at hbody
      simp only [blockFromProtoMessage, Option.bind_eq_bind, Option.bind_some,
        Header.fromProtoMessage_extra hheader, bodyMessage, hbody, Option.pure_def]
    · exact ⟨rfl, rfl, Prod.ext hview rfl⟩

end Blocks

end N42.SszMessages
