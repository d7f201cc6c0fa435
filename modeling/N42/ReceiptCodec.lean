import N42.FallibleRuns
import N42.WordMessages

/-!
The protobuf encodings of receipts and of logs.  Lists of receipts survive them, but the
decoder of a list of logs calls its elements before they exist.
-/

namespace N42.ReceiptCodec

open ChainTypes FallibleRuns WordMessages

structure Log where
  address : Address
  topics : List Hash
  data : List UInt8
  blockNumber : Option Uint256
  txHash : Hash
  txIndex : UInt64
  blockHash : Hash
  index : UInt64
  removed : Bool
deriving DecidableEq

structure PbLog where
  address : Option H160
  topics : List (Option H256)
  data : List UInt8
  blockNumber : Option H256
  txHash : Option H256
  txIndex : UInt64
  blockHash : Option H256
  index : UInt64
  removed : Bool

/-- A log without the number of its block panics. -/
def Log.toProtoMessage (l : Log) : Option PbLog :=
  (convertUint256IntToH256 l.blockNumber).map fun blockNumber =>
    { address := some (convertAddressToH160 l.address)
      topics := l.topics.map fun topic => some (convertHashToH256 topic)
      data := l.data
      blockNumber := some blockNumber
      txHash := some (convertHashToH256 l.txHash)
      txIndex := l.txIndex
      blockHash := some (convertHashToH256 l.blockHash)
      index := l.index
      removed := l.removed }

def Log.fromProtoMessage (pLog : PbLog) : Option Log := do
  let address ← convertH160toAddress pLog.address
  let topics ← pLog.topics.mapM convertH256ToHash
  let blockNumber ← convertH256ToUint256Int pLog.blockNumber
  let txHash ← convertH256ToHash pLog.txHash
  let blockHash ← convertH256ToHash pLog.blockHash
  return {
    address
    topics
    data := pLog.data
    blockNumber := some blockNumber
    txHash
    txIndex := pLog.txIndex
    blockHash
    index := pLog.index
    removed := pLog.removed }

structure Receipt where
  type : UInt8
  postState : List UInt8
  status : UInt64
  cumulativeGasUsed : UInt64
  bloom : Bloom
  logs : List Log
  txHash : Hash
  contractAddress : Address
  gasUsed : UInt64
  blockHash : Hash
  blockNumber : Option Uint256
  transactionIndex : UInt64
deriving DecidableEq

structure PbReceipt where
  type : UInt32
  postState : List UInt8
  status : UInt64
  cumulativeGasUsed : UInt64
  bloom : Option H2048
  logs : List PbLog
  txHash : Option H256
  contractAddress : Option H160
  gasUsed : UInt64
  blockHash : Option H256
  blockNumber : Option H256
  transactionIndex : UInt64

def Receipt.toProtoMessage (r : Receipt) : Option PbReceipt := do
  let logs ← r.logs.mapM Log.toProtoMessage
  let blockNumber ← convertUint256IntToH256 r.blockNumber
  return {
    type := r.type.toUInt32
    postState := r.postState
    status := r.status
    cumulativeGasUsed := r.cumulativeGasUsed
    logs
    txHash := some (convertHashToH256 r.txHash)
    contractAddress := some (convertAddressToH160 r.contractAddress)
    gasUsed := r.gasUsed
    blockHash := some (convertHashToH256 r.blockHash)
    blockNumber := some blockNumber
    transactionIndex := r.transactionIndex
    bloom := some (convertBytesToH2048 r.bloom) }

def Receipt.fromProtoMessage (pReceipt : PbReceipt) : Option Receipt := do
  let logs ← pReceipt.logs.mapM Log.fromProtoMessage
  let bloom ← convertH2048ToBloom pReceipt.bloom
  let txHash ← convertH256ToHash pReceipt.txHash
  let contractAddress ← convertH160toAddress pReceipt.contractAddress
  let blockHash ← convertH256ToHash pReceipt.blockHash
  let blockNumber ← convertH256ToUint256Int pReceipt.blockNumber
  return {
    type := pReceipt.type.toUInt8
    postState := pReceipt.postState
    status := pReceipt.status
    cumulativeGasUsed := pReceipt.cumulativeGasUsed
    bloom
    logs
    txHash
    contractAddress
    gasUsed := pReceipt.gasUsed
    blockHash
    blockNumber := some blockNumber
    transactionIndex := pReceipt.transactionIndex }

namespace Receipts

variable (wire : Wire (List PbReceipt) id)

def toProtoMessage (rs : List Receipt) : Option (List PbReceipt) :=
  rs.mapM Receipt.toProtoMessage

/-- The decoded receipts are appended to those that the receiver has.  A receipt that is
decoded with an error would be left out, but the only error is a message of another type. -/
def fromProtoMessage (rs : List Receipt) (receipts : List PbReceipt) :
    Option (List Receipt) :=
  receipts.foldlM (fun rs receipt => (Receipt.fromProtoMessage receipt).map (rs ++ [·])) rs

def marshal (rs : List Receipt) : Except Failure wire.Bytes :=
  (orPanic (toProtoMessage rs)).map wire.marshal

def unmarshal (rs : List Receipt) (data : wire.Bytes) : Except Failure (List Receipt) :=
  wire.receive data >>= fun pb => orPanic (fromProtoMessage rs pb)

end Receipts

namespace Logs

variable (wire : Wire (List PbLog) id)

def marshal (l : List Log) : Except Failure wire.Bytes :=
  (orPanic (l.mapM Log.toProtoMessage)).map wire.marshal

/-- `body[i].FromProtoMessage(p)`: decode into a log that may not be there. -/
def decodeInto (receiver : Option Log) (p : PbLog) : Option Log :=
  receiver.bind fun _ => Log.fromProtoMessage p

/-- `Logs.Unmarshal`: the elements of the fresh slice are all nil. -/
def unmarshal (data : wire.Bytes) : Except Failure (List Log) :=
  wire.receive data >>= fun pb =>
    orPanic ((List.replicate pb.length none).zip pb |>.mapM fun (receiver, p) =>
      decodeInto receiver p)

end Logs

theorem mapM_convertH256ToHash (hashes : List Hash) :
    (hashes.map fun hash => some (convertHashToH256 hash)).mapM convertH256ToHash =
      some hashes := by
  exact mapM_map_eq_some fun hash _ => convertH256ToHash_convertHashToH256 hash

theorem Log.fromProtoMessage_toProtoMessage {l : Log} {pLog : PbLog}
    (h : l.toProtoMessage = some pLog) : Log.fromProtoMessage pLog = some l := by
  obtain ⟨blockNumber, hnumber, rfl⟩ := Option.map_eq_some_iff.mp h
  obtain ⟨value, hvalue, rfl⟩ := Option.map_eq_some_iff.mp hnumber
  simp only [Log.fromProtoMessage, convertH160toAddress_convertAddressToH160,
    mapM_convertH256ToHash, convertH256ToUint256Int_writeUint256,
    convertH256ToHash_convertHashToH256, Option.bind_eq_bind, Option.bind_some, Option.pure_def]
  rw [← hvalue]

theorem Log.isSome_toProtoMessage_iff (l : Log) :
    l.toProtoMessage.isSome ↔ l.blockNumber.isSome := by
  simp [Log.toProtoMessage, convertUint256IntToH256]

def Receipt.Numbered (r : Receipt) : Prop :=
  r.blockNumber.isSome ∧ ∀ l ∈ r.logs, l.blockNumber.isSome

theorem Receipt.isSome_toProtoMessage_iff (r : Receipt) : r.toProtoMessage.isSome ↔ r.Numbered := by
  have hlogs : (r.logs.mapM Log.toProtoMessage).isSome ↔ ∀ l ∈ r.logs, l.blockNumber.isSome := by
    simp only [isSome_mapM_iff, Log.isSome_toProtoMessage_iff]
  rw [Receipt.Numbered, ← hlogs, Receipt.toProtoMessage, convertUint256IntToH256]
  cases r.logs.mapM Log.toProtoMessage with
  | none => simp
  | some logs =>
    cases r.blockNumber with
    | none => simp
    | some number => simp

theorem Receipt.fromProtoMessage_toProtoMessage {r : Receipt} {pReceipt : PbReceipt}
    (h : r.toProtoMessage = some pReceipt) :
    Receipt.fromProtoMessage pReceipt = some r := by
  simp only [Receipt.toProtoMessage, Option.bind_eq_bind, Option.bind_eq_some_iff,
    Option.pure_def, Option.some.injEq] at h
  obtain ⟨logs, hlogs, blockNumber, hnumber, rfl⟩ := h
  obtain ⟨value, hvalue, rfl⟩ := Option.map_eq_some_iff.mp hnumber
  have hdecoded : logs.mapM Log.fromProtoMessage = some r.logs :=
    mapM_inverse (fun _ _ _ => Log.fromProtoMessage_toProtoMessage) hlogs
  have htype : r.type.toUInt32.toUInt8 = r.type := UInt8.toUInt8_toUInt32 r.type
  simp only [Receipt.fromProtoMessage, hdecoded, htype, convertH256ToUint256Int_writeUint256,
    convertH2048ToBloom_convertBytesToH2048, convertH256ToHash_convertHashToH256,
    convertH160toAddress_convertAddressToH160, Option.bind_eq_bind, Option.bind_some,
    Option.pure_def]
  rw [← hvalue]

def ReceiptsSurvive (wire : Wire (List PbReceipt) id) (rs : List Receipt) : Prop :=
  (Receipts.marshal wire rs >>= Receipts.unmarshal wire []) = .ok rs

def LogsSurvive (wire : Wire (List PbLog) id) (l : List Log) : Prop :=
  (Logs.marshal wire l >>= Logs.unmarshal wire) = .ok l

theorem Receipts.fromProtoMessage_nil (receipts : List PbReceipt) :
    Receipts.fromProtoMessage [] receipts = receipts.mapM Receipt.fromProtoMessage := by
  rw [Receipts.fromProtoMessage, foldlM_append_singleton]
  simp

theorem receiptsSurvive_iff (wire : Wire (List PbReceipt) id) (rs : List Receipt) :
    ReceiptsSurvive wire rs ↔ ∀ r ∈ rs, r.Numbered := by
  have hencoded : (Receipts.toProtoMessage rs).isSome ↔ ∀ r ∈ rs, r.Numbered := by
    simp only [Receipts.toProtoMessage, isSome_mapM_iff, Receipt.isSome_toProtoMessage_iff]
  rw [← hencoded, ReceiptsSurvive, Receipts.marshal]
  cases hpb : Receipts.toProtoMessage rs with
  | none =>
    constructor
    · intro h
      cases h
    · intro h
      cases h
  | some pb =>
    have hdecoded : pb.mapM Receipt.fromProtoMessage = some rs :=
      mapM_inverse (fun _ _ _ => Receipt.fromProtoMessage_toProtoMessage) hpb
    have hback : Receipts.unmarshal wire [] (wire.marshal pb) = .ok rs := by
      rw [Receipts.unmarshal, wire.receive_marshal]
      exact congrArg orPanic ((Receipts.fromProtoMessage_nil pb).trans hdecoded)
    exact iff_of_true hback rfl

theorem Logs.unmarshal_cons (wire : Wire (List PbLog) id) (p : PbLog) (pb : List PbLog) :
    Logs.unmarshal wire (wire.marshal (p :: pb)) = .error .panic := by
  rw [Logs.unmarshal, wire.receive_marshal]
  rfl

theorem logsSurvive_iff (wire : Wire (List PbLog) id) (l : List Log) :
    LogsSurvive wire l ↔ l = [] := by
  cases l with
  | nil =>
    have hback : Logs.unmarshal wire (wire.marshal []) = .ok [] := by
      rw [Logs.unmarshal, wire.receive_marshal]
      rfl
    exact iff_of_true hback rfl
  | cons l ls =>
    refine iff_of_false ?_ (List.cons_ne_nil l ls)
    intro h
    rw [LogsSurvive, bind_eq_ok_iff] at h
    obtain ⟨data, hdata, hback⟩ := h
    obtain ⟨pb, hpb, rfl⟩ := exists_ok_of_map hdata
    have hlogs := mapM_eq_some_iff.mp (orPanic_eq_ok_iff.mp hpb)
    obtain ⟨p, ps, -, -, rfl⟩ := List.forall₂_cons_left_iff.mp hlogs
    rw [Logs.unmarshal_cons] at hback
    cases hback

/-- Receipts are given back by their codec exactly if all of them and all their logs carry
a block number, and a list of logs only if it is empty. -/
theorem receipts_and_logs_survive_iff (wireReceipts : Wire (List PbReceipt) id)
    (wireLogs : Wire (List PbLog) id) (rs : List Receipt) (l : List Log) :
    ReceiptsSurvive wireReceipts rs ∧ LogsSurvive wireLogs l ↔ (∀ r ∈ rs, r.Numbered) ∧ l = [] := by
  rw [receiptsSurvive_iff, logsSurvive_iff]

def toyLog : Log where
  address := default
  topics := []
  data := []
  blockNumber := some 1
  txHash := default
  txIndex := 0
  blockHash := default
  index := 0
  removed := false

/-- Decoding the encoding of a list of one log panics. -/
theorem one_log_panics :
    (Logs.marshal (Wire.direct id) [toyLog] >>= Logs.unmarshal (Wire.direct id)) =
      .error .panic := by
  rfl

end N42.ReceiptCodec
