import N42.FallibleRuns
import N42.Transactions
import N42.WordMessages

/-!
Transactions as they are held and sent: the copy that a new transaction makes of its data,
the two encoders for the protobuf message and the decoder that they share.
-/

namespace N42.TransactionCodec

open ChainTypes FallibleRuns Transactions WordMessages

/-- What the three types of transaction data have in common.  The amounts are set by all
constructors and decoders; the sender and the signature values may be nil. -/
structure TxFields where
  nonce : UInt64
  gas : UInt64
  toAddress : Option Address
  fromAddress : Option Address
  value : Uint256
  data : List UInt8
  sign : List UInt8
  v : Option Uint256
  r : Option Uint256
  s : Option Uint256
deriving DecidableEq

inductive TxKind where
  | legacy (gasPrice : Uint256)
  | accessList (chainID gasPrice : Uint256) (accesses : List AccessTuple)
  | dynamicFee (chainID gasTipCap gasFeeCap : Uint256) (accesses : List AccessTuple)
deriving DecidableEq

structure TxData where
  fields : TxFields
  kind : TxKind
deriving DecidableEq

def TxData.view : TxData → Transaction
  | ⟨f, .legacy gasPrice⟩ =>
    .legacy
      { nonce := f.nonce, gasPrice, gas := f.gas, toAddress := f.toAddress,
        fromAddress := f.fromAddress, value := f.value, data := f.data,
        v := f.v.getD 0, r := f.r.getD 0, s := f.s.getD 0 }
  | ⟨f, .accessList chainID gasPrice accesses⟩ =>
    .accessList
      { nonce := f.nonce, gasPrice, gas := f.gas, toAddress := f.toAddress,
        fromAddress := f.fromAddress, value := f.value, data := f.data,
        v := f.v.getD 0, r := f.r.getD 0, s := f.s.getD 0,
        chainID, accessList := accesses }
  | ⟨f, .dynamicFee chainID gasTipCap gasFeeCap accesses⟩ =>
    .dynamicFee
      { chainID, nonce := f.nonce, gasTipCap, gasFeeCap, gas := f.gas,
        toAddress := f.toAddress, fromAddress := f.fromAddress, value := f.value,
        data := f.data, accessList := accesses,
        v := f.v.getD 0, r := f.r.getD 0, s := f.s.getD 0 }

/-- `copy`.  The bytes of `Sign` are copied into a nil slice and are lost.  The copy of an
access list transaction has no integers to put the signature values into. -/
def TxData.copy (tx : TxData) : Option TxData :=
  let f := tx.fields
  match tx.kind with
  | .accessList _ _ _ =>
    if f.v = none ∧ f.r = none ∧ f.s = none then some { tx with fields := { f with sign := [] } }
    else none
  | _ =>
    some { tx with
      fields :=
        { f with
          sign := []
          v := some (f.v.getD 0)
          r := some (f.r.getD 0)
          s := some (f.s.getD 0) } }

structure PbTransaction where
  type : UInt64
  nonce : UInt64
  gasPrice : Option H256
  gas : UInt64
  feePerGas : Option H256
  priorityFeePerGas : Option H256
  value : Option H256
  data : List UInt8
  sign : List UInt8
  toAddress : Option H160
  fromAddress : Option H160
  chainID : UInt64
  hash : Option H256
  r : Option H256
  s : Option H256
  v : Option H256

def low64 (value : Uint256) : UInt64 :=
  UInt64.ofNat value.toNat

namespace TxKind

def txType : TxKind → UInt64
  | legacy _ => 0
  | accessList _ _ _ => 1
  | dynamicFee _ _ _ _ => 2

def chainID64 : TxKind → UInt64
  | legacy _ => 0
  | accessList chainID _ _ => low64 chainID
  | dynamicFee chainID _ _ _ => low64 chainID

def gasPrice : TxKind → Uint256
  | legacy gasPrice => gasPrice
  | accessList _ gasPrice _ => gasPrice
  | dynamicFee _ _ gasFeeCap _ => gasFeeCap

def feePerGas : TxKind → Option Uint256
  | dynamicFee _ _ gasFeeCap _ => some gasFeeCap
  | _ => none

def priorityFeePerGas : TxKind → Option Uint256
  | dynamicFee _ gasTipCap _ _ => some gasTipCap
  | _ => none

end TxKind

/-- The message that both encoders build.  It has no field for an access list, and a
transaction without a sender panics. -/
def TxData.message (tx : TxData) (hash : Option H256) : Option PbTransaction :=
  tx.fields.fromAddress.map fun sender =>
    { type := tx.kind.txType
      nonce := tx.fields.nonce
      gasPrice := some (writeUint256 tx.kind.gasPrice)
      gas := tx.fields.gas
      feePerGas := tx.kind.feePerGas.map writeUint256
      priorityFeePerGas := tx.kind.priorityFeePerGas.map writeUint256
      value := some (writeUint256 tx.fields.value)
      data := tx.fields.data
      sign := tx.fields.sign
      toAddress := tx.fields.toAddress.map convertAddressToH160
      fromAddress := some (convertAddressToH160 sender)
      chainID := tx.kind.chainID64
      hash
      r := tx.fields.r.map writeUint256
      s := tx.fields.s.map writeUint256
      v := tx.fields.v.map writeUint256 }

def TxData.toProtoMessage (lib : Primitives) (tx : TxData) : Option PbTransaction :=
  tx.message (some (convertHashToH256 (tx.view.hash lib)))

def optionalField {α β : Type} (convert : Option α → Option β) : Option α → Option (Option β)
  | none => some none
  | some m => (convert (some m)).map some

/-- The zero address is taken for no recipient. -/
def recipient (to_ : Option H160) : Option (Option Address) :=
  (optionalField convertH160toAddress to_).map fun address =>
    if address = some default then none else address

def decodeFields (m : PbTransaction) : Option TxFields := do
  let toAddress ← recipient m.toAddress
  let sender ← convertH160toAddress m.fromAddress
  let value ← convertH256ToUint256Int m.value
  let v ← optionalField convertH256ToUint256Int m.v
  let r ← optionalField convertH256ToUint256Int m.r
  let s ← optionalField convertH256ToUint256Int m.s
  return {
    nonce := m.nonce
    gas := m.gas
    toAddress
    fromAddress := some sender
    value
    data := m.data
    sign := m.sign
    v
    r
    s }

/-- The data of a message of an unknown type stays nil. -/
def decodeKind (m : PbTransaction) : Option TxKind :=
  if m.type = 0 then do
    let gasPrice ← convertH256ToUint256Int m.gasPrice
    return .legacy gasPrice
  else if m.type = 1 then do
    let gasPrice ← convertH256ToUint256Int m.gasPrice
    return .accessList (BitVec.ofNat 256 m.chainID.toNat) gasPrice []
  else if m.type = 2 then do
    let gasTipCap ← convertH256ToUint256Int m.priorityFeePerGas
    let gasFeeCap ← convertH256ToUint256Int m.feePerGas
    return .dynamicFee (BitVec.ofNat 256 m.chainID.toNat) gasTipCap gasFeeCap []
  else none

/-- The hash in the message is read and not compared with that of the data. -/
def txDataFromProtoMessage (m : PbTransaction) : Option TxData := do
  let kind ← decodeKind m
  let fields ← decodeFields m
  let _ ← convertH256ToHash m.hash
  return ⟨fields, kind⟩

def fromProtoMessage (m : PbTransaction) : Option TxData :=
  (txDataFromProtoMessage m).bind TxData.copy

def TxData.marshal (wire : Wire PbTransaction id) (tx : TxData) : Except Failure wire.Bytes :=
  (orPanic (tx.message none)).map wire.marshal

def TxData.unmarshal (wire : Wire PbTransaction id) (data : wire.Bytes) :
    Except Failure TxData :=
  wire.receive data >>= fun m => orPanic (txDataFromProtoMessage m)

def TxKind.reduced : TxKind → TxKind
  | legacy gasPrice => legacy gasPrice
  | accessList chainID gasPrice _ =>
    accessList (BitVec.ofNat 256 (low64 chainID).toNat) gasPrice []
  | dynamicFee chainID gasTipCap gasFeeCap _ =>
    dynamicFee (BitVec.ofNat 256 (low64 chainID).toNat) gasTipCap gasFeeCap []

def TxData.reduced (tx : TxData) : TxData where
  fields :=
    { tx.fields with
      toAddress := if tx.fields.toAddress = some default then none else tx.fields.toAddress }
  kind := tx.kind.reduced

@[simp] theorem optionalField_uint256 (value : Option Uint256) :
    optionalField convertH256ToUint256Int (value.map writeUint256) = some value := by
  cases value with
  | none => rfl
  | some value => simp [optionalField]

theorem recipient_map (to_ : Option Address) :
    recipient (to_.map convertAddressToH160) =
      some (if to_ = some default then none else to_) := by
  cases to_ with
  | none => rfl
  | some to_ => simp [recipient, optionalField]

section Decoding

variable {tx : TxData} {hash : Option H256} {m : PbTransaction}

theorem decodeKind_message (h : tx.message hash = some m) :
    decodeKind m = some tx.kind.reduced := by
  obtain ⟨sender, -, rfl⟩ := Option.map_eq_some_iff.mp h
  simp only [decodeKind]
  cases tx.kind with
  | legacy gasPrice => simp [TxKind.txType, TxKind.gasPrice, TxKind.reduced]
  | accessList chainID gasPrice accesses =>
    simp [TxKind.txType, TxKind.gasPrice, TxKind.chainID64, TxKind.reduced]
  | dynamicFee chainID gasTipCap gasFeeCap accesses =>
    simp [TxKind.txType, TxKind.chainID64, TxKind.feePerGas, TxKind.priorityFeePerGas,
      TxKind.reduced]

theorem decodeFields_message (h : tx.message hash = some m) :
    decodeFields m = some tx.reduced.fields := by
  obtain ⟨sender, hsender, rfl⟩ := Option.map_eq_some_iff.mp h
  simp only [decodeFields, recipient_map, convertH160toAddress_convertAddressToH160,
    convertH256ToUint256Int_writeUint256, optionalField_uint256, Option.bind_eq_bind,
    Option.bind_some, Option.pure_def, TxData.reduced]
  rw [hsender]

theorem txDataFromProtoMessage_message (h : tx.message hash = some m)
    (hhash : (convertH256ToHash hash).isSome) :
    txDataFromProtoMessage m = some tx.reduced := by
  obtain ⟨sent, hsent⟩ := Option.isSome_iff_exists.mp hhash
  have hread : convertH256ToHash m.hash = some sent := by
    obtain ⟨sender, -, rfl⟩ := Option.map_eq_some_iff.mp h
    exact hsent
  simp only [txDataFromProtoMessage, decodeKind_message h, decodeFields_message h, hread,
    Option.bind_eq_bind, Option.bind_some, Option.pure_def]
  rfl

end Decoding

def SentAsMessage (lib : Primitives) (tx : TxData) : Prop :=
  ∃ m tx', tx.toProtoMessage lib = some m ∧ fromProtoMessage m = some tx' ∧ tx'.view = tx.view

def StoredAsBytes (wire : Wire PbTransaction id) (tx : TxData) : Prop :=
  ∃ tx', tx.marshal wire >>= TxData.unmarshal wire = .ok tx' ∧ tx'.view = tx.view

/-- There is no access list, and the chain id fits into a word. -/
def TxKind.Plain : TxKind → Prop
  | legacy _ => True
  | accessList chainID _ accesses => chainID.toNat < 2 ^ 64 ∧ accesses = []
  | dynamicFee chainID _ _ accesses => chainID.toNat < 2 ^ 64 ∧ accesses = []

/-- The message has a place for all that the transaction says. -/
structure TxData.Plain (tx : TxData) : Prop where
  sender : tx.fields.fromAddress.isSome
  recipient : tx.fields.toAddress ≠ some default
  kind : tx.kind.Plain

def TxData.Copyable (tx : TxData) : Prop :=
  tx.kind.txType = 1 → tx.fields.v = none ∧ tx.fields.r = none ∧ tx.fields.s = none

theorem ofNat_low64_eq_iff (value : Uint256) :
    BitVec.ofNat 256 (low64 value).toNat = value ↔ value.toNat < 2 ^ 64 := by
  have hlow : (low64 value).toNat = value.toNat % 2 ^ 64 := UInt64.toNat_ofNat'
  rw [← BitVec.toNat_inj, BitVec.toNat_ofNat, hlow]
  omega

theorem TxKind.reduced_eq_iff (kind : TxKind) : kind.reduced = kind ↔ kind.Plain := by
  cases kind with
  | legacy gasPrice => exact iff_of_true rfl trivial
  | accessList chainID gasPrice accesses =>
    simp [TxKind.reduced, TxKind.Plain, ofNat_low64_eq_iff, eq_comm (a := [])]
  | dynamicFee chainID gasTipCap gasFeeCap accesses =>
    simp [TxKind.reduced, TxKind.Plain, ofNat_low64_eq_iff, eq_comm (a := [])]

theorem ite_recipient_eq_iff (to_ : Option Address) :
    (if to_ = some default then none else to_) = to_ ↔ to_ ≠ some default := by
  split
  · rename_i h
    simp [h]
  · rename_i h
    exact iff_of_true rfl h

theorem TxData.view_reduced_eq_iff (tx : TxData) :
    tx.reduced.view = tx.view ↔ tx.fields.toAddress ≠ some default ∧ tx.kind.Plain := by
  obtain ⟨fields, kind⟩ := tx
  rw [← kind.reduced_eq_iff, ← ite_recipient_eq_iff]
  cases kind with
  | legacy gasPrice => simp [TxData.reduced, TxKind.reduced, TxData.view]
  | accessList chainID gasPrice accesses =>
    simp [TxData.reduced, TxKind.reduced, TxData.view]
  | dynamicFee chainID gasTipCap gasFeeCap accesses =>
    simp only [TxData.reduced, TxKind.reduced, TxData.view, Transaction.dynamicFee.injEq,
      DynamicFeeTx.mk.injEq, TxKind.dynamicFee.injEq, true_and, and_true]
    constructor
    · rintro ⟨hchain, hto, haccesses⟩
      exact ⟨hto, hchain, haccesses⟩
    · rintro ⟨hto, hchain, haccesses⟩
      exact ⟨hchain, hto, haccesses⟩

theorem TxData.view_copy {tx tx' : TxData} (h : tx.copy = some tx') : tx'.view = tx.view := by
  obtain ⟨fields, kind⟩ := tx
  cases kind with
  | legacy gasPrice =>
    cases h
    rfl
  | accessList chainID gasPrice accesses =>
    obtain ⟨-, h⟩ := Option.ite_none_right_eq_some.mp h
    cases h
    rfl
  | dynamicFee chainID gasTipCap gasFeeCap accesses =>
    cases h
    rfl

theorem TxData.isSome_copy_iff (tx : TxData) : tx.copy.isSome ↔ tx.Copyable := by
  obtain ⟨fields, kind⟩ := tx
  cases kind with
  | legacy gasPrice => simp [TxData.copy, TxData.Copyable, TxKind.txType]
  | accessList chainID gasPrice accesses =>
    simp [TxData.copy, TxData.Copyable, TxKind.txType]
  | dynamicFee chainID gasTipCap gasFeeCap accesses =>
    simp [TxData.copy, TxData.Copyable, TxKind.txType]

theorem TxData.copyable_reduced_iff (tx : TxData) : tx.reduced.Copyable ↔ tx.Copyable := by
  obtain ⟨fields, kind⟩ := tx
  cases kind with
  | legacy gasPrice => rfl
  | accessList chainID gasPrice accesses => rfl
  | dynamicFee chainID gasTipCap gasFeeCap accesses => rfl

theorem TxData.isSome_message_iff (tx : TxData) (hash : Option H256) :
    (tx.message hash).isSome ↔ tx.fields.fromAddress.isSome := by
  simp [TxData.message]

theorem sentAsMessage_iff (lib : Primitives) (tx : TxData) :
    SentAsMessage lib tx ↔ tx.Plain ∧ tx.Copyable := by
  have hhash : (convertH256ToHash (some (convertHashToH256 (tx.view.hash lib)))).isSome := by
    rw [convertH256ToHash_convertHashToH256]
    rfl
  constructor
  · rintro ⟨m, tx', hm, hdecoded, hview⟩
    rw [fromProtoMessage, txDataFromProtoMessage_message hm hhash, Option.bind_some]
      at hdecoded
    have hcopy : tx.Copyable :=
      tx.copyable_reduced_iff.mp ((TxData.isSome_copy_iff _).mp (by rw [hdecoded]; rfl))
    have hsender := (tx.isSome_message_iff _).mp (Option.isSome_iff_exists.mpr ⟨m, hm⟩)
    obtain ⟨hto, hkind⟩ :=
      tx.view_reduced_eq_iff.mp ((TxData.view_copy hdecoded).symm.trans hview)
    exact ⟨⟨hsender, hto, hkind⟩, hcopy⟩
  · rintro ⟨⟨hsender, hto, hkind⟩, hcopy⟩
    obtain ⟨m, hm⟩ := Option.isSome_iff_exists.mp ((tx.isSome_message_iff _).mpr hsender)
    obtain ⟨tx', htx'⟩ := Option.isSome_iff_exists.mp
      ((TxData.isSome_copy_iff _).mpr (tx.copyable_reduced_iff.mpr hcopy))
    refine ⟨m, tx', hm, ?_, ?_⟩
    · rw [fromProtoMessage, txDataFromProtoMessage_message hm hhash]
      exact htx'
    · exact (TxData.view_copy htx').trans (tx.view_reduced_eq_iff.mpr ⟨hto, hkind⟩)

theorem unmarshal_marshal (wire : Wire PbTransaction id) {tx : TxData}
    (hsender : tx.fields.fromAddress.isSome) :
    tx.marshal wire >>= TxData.unmarshal wire = .ok tx.reduced := by
  obtain ⟨m, hm⟩ := Option.isSome_iff_exists.mp ((tx.isSome_message_iff none).mpr hsender)
  rw [TxData.marshal, hm]
  have hread : TxData.unmarshal wire (wire.marshal m) = .ok tx.reduced := by
    rw [TxData.unmarshal, wire.receive_marshal]
    exact congrArg orPanic (txDataFromProtoMessage_message hm rfl)
  exact hread

theorem storedAsBytes_iff (wire : Wire PbTransaction id) (tx : TxData) :
    StoredAsBytes wire tx ↔ tx.Plain := by
  constructor
  · rintro ⟨tx', hread, hview⟩
    have hsender : tx.fields.fromAddress.isSome := by
      obtain ⟨data, hdata, -⟩ := bind_eq_ok_iff.mp hread
      obtain ⟨m, hm, -⟩ := exists_ok_of_map hdata
      exact (tx.isSome_message_iff none).mp
        (Option.isSome_iff_exists.mpr ⟨m, orPanic_eq_ok_iff.mp hm⟩)
    rw [unmarshal_marshal wire hsender] at hread
    cases hread
    obtain ⟨hto, hkind⟩ := tx.view_reduced_eq_iff.mp hview
    exact ⟨hsender, hto, hkind⟩
  · rintro ⟨hsender, hto, hkind⟩
    exact ⟨tx.reduced, unmarshal_marshal wire hsender, tx.view_reduced_eq_iff.mpr ⟨hto, hkind⟩⟩

/-- A transaction comes back from both encodings with everything that is executed, hashed
and signed exactly if it has a sender, no access list, a chain id of one word and does not
call the zero address, and is not a signed access list transaction. -/
theorem transaction_survives_iff (lib : Primitives) (wire : Wire PbTransaction id)
    (tx : TxData) :
    SentAsMessage lib tx ∧ StoredAsBytes wire tx ↔ tx.Plain ∧ tx.Copyable := by
  rw [sentAsMessage_iff, storedAsBytes_iff]
  constructor
  · rintro ⟨h, -⟩
    exact h
  · intro h
    exact ⟨h, h.1⟩

def toyBurn : TxData where
  fields :=
    { nonce := 0
      gas := 21000
      toAddress := some default
      fromAddress := some default
      value := 1
      data := []
      sign := []
      v := some 27
      r := some 1
      s := some 1 }
  kind := .legacy 1

/-- The transfer to the zero address is read back as the creation of a contract. -/
theorem burn_becomes_creation :
    ∃ tx, toyBurn.marshal (Wire.direct id) >>= TxData.unmarshal (Wire.direct id) = .ok tx ∧
      toyBurn.view.toAddress = some default ∧ tx.view.toAddress = none :=
  ⟨toyBurn.reduced, unmarshal_marshal (Wire.direct id) rfl, rfl, rfl⟩

end N42.TransactionCodec
