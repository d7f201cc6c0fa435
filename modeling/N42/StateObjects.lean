import N42.MessageCalls

/-!
Accounts as they are stored, the reader that fetches them, and the objects that hold them
while a block is executed.
-/

namespace N42.StateObjects

open ByteStrings ChainTypes
open MessageCalls (emptyCodeHash)

structure StateAccount where
  initialised : Bool
  nonce : UInt64
  balance : Uint256
  root : Hash
  codeHash : Hash
  incarnation : UInt16
deriving DecidableEq

def StateAccount.zero : StateAccount :=
  ⟨false, 0, 0, default, default, 0⟩

inductive ReadError where
  | failed
deriving DecidableEq

abbrev Bytes := List UInt8

/-- The state at the start of a block.  A missing account, slot or code is no error. -/
structure StateReader where
  readAccountData : Address → Except ReadError (Option StateAccount)
  readAccountStorage : Address → UInt16 → Hash → Except ReadError (Option Bytes)
  readAccountCode : Address → UInt16 → Hash → Except ReadError (Option Bytes)
  readAccountCodeSize : Address → UInt16 → Hash → Except ReadError Nat
  readAccountIncarnation : Address → Except ReadError UInt16

structure Backend where
  lib : Primitives
  reader : StateReader

def setBytes (enc : Bytes) : Uint256 :=
  BitVec.ofNat 256 (ofBigEndian enc)

abbrev Storage := Hash → Option Uint256

def Storage.value (storage : Storage) (key : Hash) : Uint256 :=
  (storage key).getD 0

structure StateObject where
  data : StateAccount
  original : StateAccount
  code : Option Bytes
  originStorage : Storage
  blockOriginStorage : Storage
  dirtyStorage : Storage
  fakeStorage : Option Storage
  dirtyCode : Bool
  selfdestructed : Bool
  deleted : Bool
  created : Bool

def noStorage : Storage :=
  fun _ => none

/-- `newObject`: data that was never initialised starts with balance zero, and a missing
code hash stands for empty code. -/
def newObject (lib : Primitives) (data original : StateAccount) : StateObject where
  data :=
    { data with
      initialised := true
      balance := if data.initialised then data.balance else 0
      codeHash := if data.codeHash = default then emptyCodeHash lib else data.codeHash }
  original := original
  code := none
  originStorage := noStorage
  blockOriginStorage := noStorage
  dirtyStorage := noStorage
  fakeStorage := none
  dirtyCode := false
  selfdestructed := false
  deleted := false
  created := false

namespace StateObject

def empty (lib : Primitives) (so : StateObject) : Bool :=
  so.data.nonce = 0 && so.data.balance = 0 && so.data.codeHash = emptyCodeHash lib

def setBalance (amount : Uint256) (so : StateObject) : StateObject :=
  { so with data := { so.data with balance := amount, initialised := true } }

def setNonce (nonce : UInt64) (so : StateObject) : StateObject :=
  { so with data := { so.data with nonce := nonce } }

def setIncarnation (incarnation : UInt16) (so : StateObject) : StateObject :=
  { so with data := { so.data with incarnation := incarnation } }

def setCode (codeHash : Hash) (code : Option Bytes) (so : StateObject) : StateObject :=
  { so with code := code, data := { so.data with codeHash := codeHash }, dirtyCode := true }

def setState (key : Hash) (value : Uint256) (so : StateObject) : StateObject :=
  { so with dirtyStorage := Function.update so.dirtyStorage key (some value) }

def destroy (so : StateObject) : StateObject :=
  { so with
    selfdestructed := true
    created := false
    data := { so.data with balance := 0 } }

def undestroy (prev : Bool) (balance : Uint256) (so : StateObject) : StateObject :=
  setBalance balance { so with selfdestructed := prev }

def setStorage (storage : Storage) (so : StateObject) : StateObject :=
  { so with fakeStorage := some fun key =>
      match storage key with
      | some value => some value
      | none => so.fakeStorage.elim none fun fake => fake key }

def setFake (fake : Storage) (key : Hash) (value : Uint256) (so : StateObject) :
    StateObject :=
  { so with fakeStorage := some (Function.update fake key (some value)) }

variable (db : Backend) (address : Address)

/-- `Code`: code that is loaded is kept; nothing is read for the empty code hash. -/
def loadCode (so : StateObject) : Option Bytes × StateObject :=
  match so.code with
  | some code => (some code, so)
  | none =>
    if so.data.codeHash = emptyCodeHash db.lib then (none, so)
    else
      match db.reader.readAccountCode address so.data.incarnation so.data.codeHash with
      | .error _ => (none, so)
      | .ok code => (code, { so with code := code })

def asksReader (key : Hash) (so : StateObject) : Bool :=
  so.fakeStorage.isNone && (so.originStorage key).isNone && !so.created

def rememberSlot (key : Hash) (value : Uint256) (so : StateObject) : StateObject :=
  { so with
    originStorage := Function.update so.originStorage key (some value)
    blockOriginStorage := Function.update so.blockOriginStorage key (some value) }

/-- `GetCommittedState`: a slot that is read is kept as the value at the start of the
transaction and of the block. -/
def getCommittedState (key : Hash) (so : StateObject) : Uint256 × StateObject :=
  match so.fakeStorage with
  | some fake => (fake.value key, so)
  | none =>
    match so.originStorage key with
    | some value => (value, so)
    | none =>
      if so.created then (0, so)
      else
        match db.reader.readAccountStorage address so.data.incarnation key with
        | .error _ => (0, so)
        | .ok enc => ((enc.map setBytes).getD 0, so.rememberSlot key ((enc.map setBytes).getD 0))

def getState (key : Hash) (so : StateObject) : Uint256 × StateObject :=
  match so.fakeStorage with
  | some fake => (fake.value key, so)
  | none =>
    match so.dirtyStorage key with
    | some value => (value, so)
    | none => so.getCommittedState db address key

end StateObject

end N42.StateObjects
