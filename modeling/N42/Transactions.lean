import N42.ChainTypes
import N42.RlpEncoding

/-!
Transactions of the three types, the hashes and addresses which the signers of the
successive forks derive from them, and the message that is executed for a transaction.
-/

namespace N42.Transactions

open ByteStrings RlpEncoding ChainTypes

structure AccessTuple where
  address : Address
  storageKeys : List Hash
deriving DecidableEq

/-- A missing recipient asks for a contract creation.  Signature values that were never
set are zero here: the encoder writes both alike and no address is recovered from either. -/
structure LegacyTx where
  nonce : UInt64
  gasPrice : Uint256
  gas : UInt64
  toAddress : Option Address
  fromAddress : Option Address
  value : Uint256
  data : List UInt8
  v : Uint256
  r : Uint256
  s : Uint256
deriving DecidableEq

structure AccessListTx extends LegacyTx where
  chainID : Uint256
  accessList : List AccessTuple
deriving DecidableEq

structure DynamicFeeTx where
  chainID : Uint256
  nonce : UInt64
  gasTipCap : Uint256
  gasFeeCap : Uint256
  gas : UInt64
  toAddress : Option Address
  fromAddress : Option Address
  value : Uint256
  data : List UInt8
  accessList : List AccessTuple
  v : Uint256
  r : Uint256
  s : Uint256
deriving DecidableEq

inductive Transaction where
  | legacy (inner : LegacyTx)
  | accessList (inner : AccessListTx)
  | dynamicFee (inner : DynamicFeeTx)
deriving DecidableEq

/-- `DeriveChainId`; the subtraction of 35 wraps around. -/
def deriveChainId (v : Uint256) : Uint256 :=
  if v.toNat < 2 ^ 64 then
    let v := UInt64.ofNat v.toNat
    if v = 27 ∨ v = 28 then 0 else BitVec.ofNat 256 ((v - 35) / 2).toNat
  else (v - 35) / 2

namespace Transaction

def txType : Transaction → UInt8
  | legacy _ => 0
  | accessList _ => 1
  | dynamicFee _ => 2

def chainId : Transaction → Uint256
  | legacy tx => deriveChainId tx.v
  | accessList tx => tx.chainID
  | dynamicFee tx => tx.chainID

def accesses : Transaction → List AccessTuple
  | legacy _ => []
  | accessList tx => tx.accessList
  | dynamicFee tx => tx.accessList

def data : Transaction → List UInt8
  | legacy tx => tx.data
  | accessList tx => tx.data
  | dynamicFee tx => tx.data

def gas : Transaction → UInt64
  | legacy tx => tx.gas
  | accessList tx => tx.gas
  | dynamicFee tx => tx.gas

def gasPrice : Transaction → Uint256
  | legacy tx => tx.gasPrice
  | accessList tx => tx.gasPrice
  | dynamicFee tx => tx.gasFeeCap

def gasTipCap : Transaction → Uint256
  | legacy tx => tx.gasPrice
  | accessList tx => tx.gasPrice
  | dynamicFee tx => tx.gasTipCap

def gasFeeCap : Transaction → Uint256
  | legacy tx => tx.gasPrice
  | accessList tx => tx.gasPrice
  | dynamicFee tx => tx.gasFeeCap

def value : Transaction → Uint256
  | legacy tx => tx.value
  | accessList tx => tx.value
  | dynamicFee tx => tx.value

def nonce : Transaction → UInt64
  | legacy tx => tx.nonce
  | accessList tx => tx.nonce
  | dynamicFee tx => tx.nonce

def toAddress : Transaction → Option Address
  | legacy tx => tx.toAddress
  | accessList tx => tx.toAddress
  | dynamicFee tx => tx.toAddress

/-- `From`: the sender as it was claimed by whoever sent the transaction. -/
def fromAddress : Transaction → Option Address
  | legacy tx => tx.fromAddress
  | accessList tx => tx.fromAddress
  | dynamicFee tx => tx.fromAddress

def v : Transaction → Uint256
  | legacy tx => tx.v
  | accessList tx => tx.v
  | dynamicFee tx => tx.v

def r : Transaction → Uint256
  | legacy tx => tx.r
  | accessList tx => tx.r
  | dynamicFee tx => tx.r

def s : Transaction → Uint256
  | legacy tx => tx.s
  | accessList tx => tx.s
  | dynamicFee tx => tx.s

/-- `Cost`; products and sums of 256-bit integers wrap around. -/
def cost (tx : Transaction) : Uint256 :=
  tx.gasPrice * BitVec.ofNat 256 tx.gas.toNat + tx.value

end Transaction

open Transaction

def uintItem (value : Nat) : Item :=
  .bytes (bigEndian value)

def toItem : Option Address → Item
  | none => .bytes []
  | some address => .bytes address.bytes

def accessListItem (accesses : List AccessTuple) : Item :=
  .list (accesses.map fun tuple =>
    .list [.bytes tuple.address.bytes, .list (tuple.storageKeys.map fun key => .bytes key.bytes)])

section

variable (lib : Primitives)

def rlpHash (items : List Item) : Hash :=
  lib.keccak256 (encode (.list items))

def prefixedRlpHash (tag : UInt8) (items : List Item) : Hash :=
  lib.keccak256 (tag :: encode (.list items))

def callItems (tx : Transaction) : List Item :=
  [uintItem tx.gas.toNat, toItem tx.toAddress, uintItem tx.value.toNat, .bytes tx.data]

def signatureItems (tx : Transaction) : List Item :=
  [uintItem tx.v.toNat, uintItem tx.r.toNat, uintItem tx.s.toNat]

/-- The hash that names a transaction.  It does not cover the `From` field. -/
def Transaction.hash : Transaction → Hash
  | tx@(legacy inner) =>
    rlpHash lib ([uintItem inner.nonce.toNat, uintItem inner.gasPrice.toNat] ++
      callItems tx ++ signatureItems tx)
  | tx@(accessList inner) =>
    prefixedRlpHash lib 1 ([uintItem inner.chainID.toNat, uintItem inner.nonce.toNat,
        uintItem inner.gasPrice.toNat] ++
      callItems tx ++ [accessListItem inner.accessList] ++ signatureItems tx)
  | tx@(dynamicFee inner) =>
    prefixedRlpHash lib 2 ([uintItem inner.chainID.toNat, uintItem inner.nonce.toNat,
        uintItem inner.gasTipCap.toNat, uintItem inner.gasFeeCap.toNat] ++
      callItems tx ++ [accessListItem inner.accessList] ++ signatureItems tx)

inductive Signer where
  | frontier
  | homestead
  | eip155 (chainId : Nat)
  | eip2930 (chainId : Nat)
  | london (chainId : Nat)

def makeSigner (config : ChainConfig) (number : UInt64) : Signer :=
  let chainId := config.chainID.getD 0
  if config.isLondon number then .london chainId
  else if config.isBerlin number then .eip2930 chainId
  else if config.isEip1559FeeCollector number then .eip155 chainId
  else if config.isHomestead number then .homestead
  else .frontier

/-- `recoveryFailed` stands for the error of the signature library. -/
inductive SignerError where
  | errInvalidSig
  | errTxTypeNotSupported
  | errInvalidChainId
  | recoveryFailed
  | invalidPublicKey
deriving DecidableEq

def legacyItems (tx : Transaction) : List Item :=
  [uintItem tx.nonce.toNat, uintItem tx.gasPrice.toNat] ++ callItems tx

def frontierHash (tx : Transaction) : Hash :=
  rlpHash lib (legacyItems tx)

section

variable (chainId : Nat)

def eip155Hash (tx : Transaction) : Hash :=
  rlpHash lib (legacyItems tx ++ [uintItem chainId, uintItem 0, uintItem 0])

def eip2930Hash : Transaction → Hash
  | tx@(legacy _) => eip155Hash lib chainId tx
  | tx@(accessList inner) =>
    prefixedRlpHash lib 1
      ([uintItem chainId, uintItem inner.nonce.toNat, uintItem inner.gasPrice.toNat] ++
        callItems tx ++ [accessListItem inner.accessList])
  | dynamicFee _ => default

def londonHash : Transaction → Hash
  | tx@(dynamicFee inner) =>
    prefixedRlpHash lib 2
      ([uintItem chainId, uintItem inner.nonce.toNat, uintItem inner.gasTipCap.toNat,
        uintItem inner.gasFeeCap.toNat] ++ callItems tx ++ [accessListItem inner.accessList])
  | tx => eip2930Hash lib chainId tx

def isProtectedV (v : Uint256) : Bool :=
  if v.toNat < 2 ^ 8 then v ≠ 27 && v ≠ 28 && v ≠ 1 && v ≠ 0 else true

def Transaction.isProtected : Transaction → Bool
  | legacy tx => isProtectedV tx.v
  | _ => true

def secp256k1N : Uint256 :=
  0xfffffffffffffffffffffffffffffffebaaedce6af48a03bbfd25e8cd0364141#256

def secp256k1halfN : Uint256 :=
  secp256k1N / 2

def validateSignatureValues (v : UInt8) (r s : Uint256) (homestead : Bool) : Bool :=
  if r = 0 ∨ s = 0 then false
  else if homestead ∧ secp256k1halfN < s then false
  else r < secp256k1N && s < secp256k1N && (v = 0 || v = 1)

def bytes32 (value : Uint256) : List UInt8 :=
  List.replicate (32 - (bigEndian value.toNat).length) 0 ++ bigEndian value.toNat

/-- `recoverPlain`; the low bits of a negative `vb` are those of its absolute value. -/
def recoverPlain (sighash : Hash) (r s : Uint256) (vb : Int) (homestead : Bool) :
    Except SignerError Address :=
  if 2 ^ 8 ≤ vb.natAbs then .error .errInvalidSig
  else
    let v := UInt8.ofNat vb.natAbs - 27
    if !validateSignatureValues v r s homestead then .error .errInvalidSig
    else
      match lib.ecrecover sighash (bytes32 r ++ bytes32 s ++ [v]) with
      | none => .error .recoveryFailed
      | some [] => .error .invalidPublicKey
      | some (tag :: key) =>
        if tag ≠ 4 then .error .invalidPublicKey
        else .ok (FixedBytes.copy 20 ((lib.keccak256 key).bytes.drop 12))

def plainSender (homestead : Bool) (tx : Transaction) :
    Except SignerError Address :=
  if tx.txType ≠ 0 then .error .errTxTypeNotSupported
  else recoverPlain lib (frontierHash lib tx) tx.r tx.s tx.v.toNat homestead

def eip155Sender (tx : Transaction) :
    Except SignerError Address :=
  if tx.txType ≠ 0 then .error .errTxTypeNotSupported
  else if !tx.isProtected then plainSender lib true tx
  else if tx.chainId ≠ BitVec.ofNat 256 chainId then .error .errInvalidChainId
  else
    recoverPlain lib (eip155Hash lib chainId tx) tx.r tx.s (tx.v.toNat - 2 * chainId - 8) true

def eip2930Sender (tx : Transaction) :
    Except SignerError Address :=
  match tx with
  | dynamicFee _ => .error .errTxTypeNotSupported
  | legacy _ =>
    if !tx.isProtected then plainSender lib true tx
    else recover (tx.v.toNat - 2 * chainId - 8)
  | accessList _ => recover (tx.v.toNat + 27)
where
  recover (vb : Int) : Except SignerError Address :=
    if tx.chainId ≠ BitVec.ofNat 256 chainId then .error .errInvalidChainId
    else recoverPlain lib (eip2930Hash lib chainId tx) tx.r tx.s vb true

def londonSender (tx : Transaction) :
    Except SignerError Address :=
  match tx with
  | dynamicFee _ =>
    if tx.chainId ≠ BitVec.ofNat 256 chainId then .error .errInvalidChainId
    else recoverPlain lib (londonHash lib chainId tx) tx.r tx.s (tx.v.toNat + 27) true
  | tx => eip2930Sender lib chainId tx

end

/-- `Sender`: the address that signed the transaction, without the cache for it. -/
def Signer.sender : Signer → Transaction → Except SignerError Address
  | frontier => plainSender lib false
  | homestead => plainSender lib true
  | eip155 chainId => eip155Sender lib chainId
  | eip2930 chainId => eip2930Sender lib chainId
  | london chainId => londonSender lib chainId

end

structure Message where
  toAddress : Option Address
  fromAddress : Address
  nonce : UInt64
  amount : Uint256
  gasLimit : UInt64
  gasPrice : Uint256
  feeCap : Uint256
  tip : Uint256
  data : List UInt8
  accessList : List AccessTuple
  checkNonce : Bool
  isFree : Bool

def effectiveGasPrice (tx : Transaction) : Option Uint256 → Uint256
  | none => tx.gasPrice
  | some baseFee =>
    if tx.gasFeeCap < tx.gasTipCap + baseFee then tx.gasFeeCap else tx.gasTipCap + baseFee

/-- `AsMessage`.  The signer is not asked for the sender, which is read from the `From`
field; a transaction without it panics. -/
def Transaction.asMessage (tx : Transaction) (_signer : Signer) (baseFee : Option Uint256) :
    Option Message :=
  tx.fromAddress.map fun sender =>
    { toAddress := tx.toAddress
      fromAddress := sender
      nonce := tx.nonce
      amount := tx.value
      gasLimit := tx.gas
      gasPrice := effectiveGasPrice tx baseFee
      feeCap := tx.gasFeeCap
      tip := tx.gasTipCap
      data := tx.data
      accessList := tx.accesses
      checkNonce := false
      isFree := false }

theorem effectiveGasPrice_le (tx : Transaction) (baseFee : Option Uint256) :
    effectiveGasPrice tx baseFee ≤ tx.gasFeeCap := by
  cases baseFee with
  | none => cases tx <;> exact BitVec.le_refl _
  | some baseFee =>
    rw [effectiveGasPrice]
    split
    · exact BitVec.le_refl _
    · rename_i h
      exact BitVec.not_lt.mp h

theorem fromAddress_of_asMessage {tx : Transaction} {signer : Signer}
    {baseFee : Option Uint256} {msg : Message} (h : tx.asMessage signer baseFee = some msg) :
    tx.fromAddress = some msg.fromAddress := by
  obtain ⟨sender, hsender, rfl⟩ := Option.map_eq_some_iff.mp h
  exact hsender

end N42.Transactions
