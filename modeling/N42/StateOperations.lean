import N42.IntraBlock

/-!
The operations of the state within a block: what its clients can read, change, mark and
revert during a transaction.
-/

namespace N42.StateOperations

open ChainTypes
open MessageCalls (Log emptyCodeHash)
open AccessLists StateObjects IntraBlock

variable {db : Backend}

def inspect {α : Type} (absent : α) (f : StateObject → α) (a : Address)
    (s : IntraBlockState db) : α × IntraBlockState db :=
  match s.getStateObject a with
  | (none, s) => (absent, s)
  | (some so, s) => (if so.deleted then absent else f so, s)

def exist : Address → IntraBlockState db → Bool × IntraBlockState db :=
  inspect false fun _ => true

def empty : Address → IntraBlockState db → Bool × IntraBlockState db :=
  inspect true fun so => so.empty db.lib

def getBalance : Address → IntraBlockState db → Uint256 × IntraBlockState db :=
  inspect 0 fun so => so.data.balance

def getNonce : Address → IntraBlockState db → UInt64 × IntraBlockState db :=
  inspect 0 fun so => so.data.nonce

def getCodeHash : Address → IntraBlockState db → Hash × IntraBlockState db :=
  inspect default fun so => so.data.codeHash

def hasSelfdestructed : Address → IntraBlockState db → Bool × IntraBlockState db :=
  inspect false fun so => !so.created && so.selfdestructed

section

variable (a : Address)

section

variable (s : IntraBlockState db)

/-- The incarnation of a deleted object is still shown. -/
def getIncarnation : UInt16 × IntraBlockState db :=
  match s.getStateObject a with
  | (none, s) => (0, s)
  | (some so, s) => (so.data.incarnation, s)

def recordCode (hash : Hash) (code : Option Bytes) (s : IntraBlockState db) :
    IntraBlockState db :=
  { s with codeMap := s.codeMap.map fun codes => Function.update codes hash code }

def noteCodeRead (so : StateObject) (s : IntraBlockState db) :
    IntraBlockState db :=
  if so.code.isSome ∨ so.data.codeHash = emptyCodeHash db.lib then s
  else
    match db.reader.readAccountCode a so.data.incarnation so.data.codeHash with
    | .error _ => s.setError .codeNotLoaded
    | .ok _ => s

def getCode : Option Bytes × IntraBlockState db :=
  match s.getStateObject a with
  | (none, s) => (none, s)
  | (some so, s) =>
    if so.deleted then (none, s)
    else
      let code := (so.loadCode db a).1
      let s := (noteCodeRead a so s).put a (so.loadCode db a).2
      (code, if (code.getD []).length > 0 then recordCode so.data.codeHash code s else s)

def getCodeSize : Nat × IntraBlockState db :=
  match s.getStateObject a with
  | (none, s) => (0, s)
  | (some so, s) =>
    if so.deleted then (0, s)
    else
      match so.code with
      | some code => (code.length, s)
      | none =>
        match db.reader.readAccountCodeSize a so.data.incarnation so.data.codeHash with
        | .error _ => (0, s.setError .database)
        | .ok size =>
          (size, if size > 0 then
            recordCode so.data.codeHash ((db.reader.readAccountCode a so.data.incarnation
                so.data.codeHash).toOption.getD none) s
            else s)

/-- A slot that the reader is asked for goes into the recorded state. -/
def noteSlotRead (key : Hash) (so : StateObject) (s : IntraBlockState db) :
    IntraBlockState db :=
  if so.asksReader key then
    match db.reader.readAccountStorage a so.data.incarnation key with
    | .error _ => s.setError .database
    | .ok none => s
    | .ok (some []) => s
    | .ok (some enc) =>
      { s with snap := s.snap.map fun items =>
          items ++ [.storage a so.data.incarnation key enc] }
  else s

def getCommittedState (a : Address) (key : Hash) (s : IntraBlockState db) :
    Uint256 × IntraBlockState db :=
  match s.getStateObject a with
  | (none, s) => (0, s)
  | (some so, s) =>
    if so.deleted then (0, s)
    else ((so.getCommittedState db a key).1,
      (noteSlotRead a key so s).put a (so.getCommittedState db a key).2)

/-- A slot that has been written is not read. -/
def noteStateRead (key : Hash) (so : StateObject) (s : IntraBlockState db) :
    IntraBlockState db :=
  if (so.dirtyStorage key).isSome then s else noteSlotRead a key so s

def getState (a : Address) (key : Hash) (s : IntraBlockState db) :
    Uint256 × IntraBlockState db :=
  match s.getStateObject a with
  | (none, s) => (0, s)
  | (some so, s) =>
    if so.deleted then (0, s)
    else ((so.getState db a key).1, (noteStateRead a key so s).put a (so.getState db a key).2)

def setBalanceOf (so : StateObject) (amount : Uint256) (s : IntraBlockState db) :
    IntraBlockState db :=
  (s.append (.balanceChange a so.data.balance)).put a (so.setBalance amount)

def touch : IntraBlockState db :=
  let s := s.append (.touchChange a)
  if a = ripemd then { s with dirties := a ::ₘ s.dirties } else s

/-- `stateObject.AddBalance`: an empty account is touched even if nothing is added. -/
def addBalanceTo (so : StateObject) (amount : Uint256) (s : IntraBlockState db) :
    IntraBlockState db :=
  if amount = 0 then
    if so.empty db.lib then touch a s else s
  else setBalanceOf a so (so.data.balance + amount) s

def increaseBalance (amount : Uint256) (s : IntraBlockState db) :
    IntraBlockState db :=
  let bi := (s.balanceInc.lookup a).getD ⟨0, false, 0⟩
  { s.append (.balanceIncrease a amount) with
    balanceInc := s.balanceInc.insert a
      { bi with increase := bi.increase + amount, count := bi.count + 1 } }

/-- The balance of an account that has not been loaded is increased without loading it. -/
def addBalance (amount : Uint256) (s : IntraBlockState db) :
    IntraBlockState db :=
  if (s.stateObjects a).isSome ∨ (a = ripemd ∧ amount = 0) then
    addBalanceTo a (s.getOrNewStateObject a).1 amount (s.getOrNewStateObject a).2
  else increaseBalance a amount s

def subBalance (amount : Uint256) (s : IntraBlockState db) :
    IntraBlockState db :=
  let (so, s) := s.getOrNewStateObject a
  if amount = 0 then s else setBalanceOf a so (so.data.balance - amount) s

def setBalance (amount : Uint256) (s : IntraBlockState db) :
    IntraBlockState db :=
  let (so, s) := s.getOrNewStateObject a
  setBalanceOf a so amount s

def setNonce (a : Address) (nonce : UInt64) (s : IntraBlockState db) :
    IntraBlockState db :=
  let (so, s) := s.getOrNewStateObject a
  (s.append (.nonceChange a so.data.nonce)).put a (so.setNonce nonce)

def setCode (a : Address) (code : Option Bytes) (s : IntraBlockState db) :
    IntraBlockState db :=
  let (so, s) := s.getOrNewStateObject a
  ((noteCodeRead a so s).append (.codeChange a so.data.codeHash (so.loadCode db a).1)).put a
      ((so.loadCode db a).2.setCode (db.lib.keccak256 (code.getD [])) code)

def setStateOf (so : StateObject) (key : Hash) (value : Uint256) (s : IntraBlockState db) :
    IntraBlockState db :=
  match so.fakeStorage with
  | some fake =>
    (s.append (.fakeStorageChange a key (fake.value key))).put a (so.setFake fake key value)
  | none =>
    let prev := (so.getState db a key).1
    let read := (noteStateRead a key so s).put a (so.getState db a key).2
    if prev = value then read
    else (read.append (.storageChange a key prev)).put a
      ((so.getState db a key).2.setState key value)

def setState (key : Hash) (value : Uint256) (s : IntraBlockState db) :
    IntraBlockState db :=
  let (so, s) := s.getOrNewStateObject a
  setStateOf a so key value s

def setStorage (a : Address) (storage : Storage) (s : IntraBlockState db) :
    IntraBlockState db :=
  let (so, s) := s.getOrNewStateObject a
  s.put a (so.setStorage storage)

def setIncarnation (a : Address) (incarnation : UInt16) (s : IntraBlockState db) :
    IntraBlockState db :=
  let (so, s) := s.getOrNewStateObject a
  s.put a (so.setIncarnation incarnation)

def selfdestruct : Bool × IntraBlockState db :=
  match s.getStateObject a with
  | (none, s) => (false, s)
  | (some so, s) =>
    if so.deleted then (false, s)
    else (true, (s.append
      (.selfdestructChange a so.selfdestructed so.data.balance)).put a so.destroy)

/-- The incarnation before a contract creation: of the object that was destroyed in this
block, or else the one that the reader remembers. -/
def previousIncarnation (db : Backend) (a : Address) (previous : Option StateObject) :
    UInt16 :=
  if previous.any StateObject.selfdestructed then
    previous.elim 0 fun so => so.data.incarnation
  else (db.reader.readAccountIncarnation a).toOption.getD 0

/-- The new object of `CreateAccount`, which keeps the balance of the previous one. -/
def createdObject (db : Backend) (a : Address) (contractCreation : Bool)
    (previous : Option StateObject) (so : StateObject) : StateObject :=
  let carried := previous.elim so fun prev => so.setBalance prev.data.balance
  if contractCreation then
    { carried.setIncarnation (previousIncarnation db a previous + 1) with created := true }
  else { carried with selfdestructed := false }

def createAccount (contractCreation : Bool) (s : IntraBlockState db) :
    IntraBlockState db :=
  let (previous, s) := s.getStateObject a
  let (so, s) := s.createObject a previous
  s.put a (createdObject db a contractCreation previous so)

def addLog (log : Log) (s : IntraBlockState db) : IntraBlockState db :=
  { s.append (.addLogChange s.thash) with
    logs := Function.update s.logs s.thash
      (s.logs s.thash ++ [⟨log, s.thash, s.bhash, s.txIndex, s.logSize⟩])
    logSize := s.logSize + 1 }

def addRefund (gas : UInt64) (s : IntraBlockState db) : IntraBlockState db :=
  { s.append (.refundChange s.refund) with refund := s.refund + gas }

/-- A counter below zero wraps around and is remembered as an error. -/
def subRefund (gas : UInt64) (s : IntraBlockState db) : IntraBlockState db :=
  let refund := s.refund
  let s := s.append (.refundChange refund)
  { (if gas > refund then s.setError .refundBelowZero else s) with refund := refund - gas }

def addAddressToAccessList : IntraBlockState db :=
  match s.accessList.addAddress a with
  | (false, _) => s
  | (true, al) => { s.append (.accessListAddAccountChange a) with accessList := al }

end

def appendIf (changed : Bool) (e : JournalEntry) (s : IntraBlockState db) :
    IntraBlockState db :=
  if changed then s.append e else s

def addSlotToAccessList (slot : Hash) (s : IntraBlockState db) :
    Option (IntraBlockState db) :=
  (s.accessList.addSlot a slot).map fun (addrMod, slotMod, al) =>
    appendIf slotMod (.accessListAddSlotChange a slot)
      (appendIf addrMod (.accessListAddAccountChange a) { s with accessList := al })

end

def prepare (thash bhash : Hash) (txIndex : Nat) (s : IntraBlockState db) :
    IntraBlockState db :=
  { s with thash := thash, bhash := bhash, txIndex := txIndex, accessList := newAccessList }

inductive Query where
  | exist (a : Address)
  | empty (a : Address)
  | getBalance (a : Address)
  | getNonce (a : Address)
  | getCode (a : Address)
  | getCodeHash (a : Address)
  | getState (a : Address) (key : Hash)
  | getCommittedState (a : Address) (key : Hash)
  | getIncarnation (a : Address)
  | hasSelfdestructed (a : Address)
  | getRefund
  | getLogs (hash : Hash)
  | addressInAccessList (a : Address)
  | slotInAccessList (a : Address) (slot : Hash)

inductive Answer where
  | flag (value : Bool)
  | amount (value : Uint256)
  | counter (value : UInt64)
  | code (value : Option Bytes)
  | hash (value : Hash)
  | incarnation (value : UInt16)
  | logs (value : List PlacedLog)
  | flags (value : Option (Bool × Bool))

def ask (s : IntraBlockState db) : Query → Answer × IntraBlockState db
  | .exist a => (exist a s).map .flag id
  | .empty a => (empty a s).map .flag id
  | .getBalance a => (getBalance a s).map .amount id
  | .getNonce a => (getNonce a s).map .counter id
  | .getCode a => (getCode a s).map .code id
  | .getCodeHash a => (getCodeHash a s).map .hash id
  | .getState a key => (getState a key s).map .amount id
  | .getCommittedState a key => (getCommittedState a key s).map .amount id
  | .getIncarnation a => (getIncarnation a s).map .incarnation id
  | .hasSelfdestructed a => (hasSelfdestructed a s).map .flag id
  | .getRefund => (.counter s.refund, s)
  | .getLogs hash => (.logs (s.logs hash), s)
  | .addressInAccessList a => (.flag (s.accessList.containsAddress a), s)
  | .slotInAccessList a slot => (.flags (s.accessList.contains a slot), s)

inductive Operation where
  | createAccount (a : Address) (contractCreation : Bool)
  | addBalance (a : Address) (amount : Uint256)
  | subBalance (a : Address) (amount : Uint256)
  | setBalance (a : Address) (amount : Uint256)
  | setNonce (a : Address) (nonce : UInt64)
  | setCode (a : Address) (code : Option Bytes)
  | setState (a : Address) (key : Hash) (value : Uint256)
  | setStorage (a : Address) (storage : Storage)
  | setIncarnation (a : Address) (incarnation : UInt16)
  | selfdestruct (a : Address)
  | addLog (log : Log)
  | addRefund (gas : UInt64)
  | subRefund (gas : UInt64)
  | addAddressToAccessList (a : Address)
  | addSlotToAccessList (a : Address) (slot : Hash)
  | ask (q : Query)
  | getCodeSize (a : Address)
  | snapshot
  | revertToSnapshot (revid : Nat)

def perform (s : IntraBlockState db) : Operation → Option (IntraBlockState db)
  | .createAccount a contractCreation => some (createAccount a contractCreation s)
  | .addBalance a amount => some (addBalance a amount s)
  | .subBalance a amount => some (subBalance a amount s)
  | .setBalance a amount => some (setBalance a amount s)
  | .setNonce a nonce => some (setNonce a nonce s)
  | .setCode a code => some (setCode a code s)
  | .setState a key value => some (setState a key value s)
  | .setStorage a storage => some (setStorage a storage s)
  | .setIncarnation a incarnation => some (setIncarnation a incarnation s)
  | .selfdestruct a => some (selfdestruct a s).2
  | .addLog log => some (addLog log s)
  | .addRefund gas => some (addRefund gas s)
  | .subRefund gas => some (subRefund gas s)
  | .addAddressToAccessList a => some (addAddressToAccessList a s)
  | .addSlotToAccessList a slot => addSlotToAccessList a slot s
  | .ask q => some (ask s q).2
  | .getCodeSize a => some (getCodeSize a s).2
  | .snapshot => some s.snapshot.2
  | .revertToSnapshot revid => s.revertToSnapshot revid

end N42.StateOperations
