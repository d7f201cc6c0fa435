import N42.AccessLists
import N42.FiniteTables
import N42.StateObjects
import N42.UndoLogs

/-!
The state within a block: objects loaded on demand, balances of unloaded accounts that
are increased without reading them, and the journal of changes that can be reverted.
-/

namespace N42.IntraBlock

open ChainTypes
open MessageCalls (Log emptyCodeHash)
open AccessLists FiniteTables StateObjects
open UndoLogs (undoAll Mark)

structure BalanceIncrease where
  increase : Uint256
  /-- The increase has been added to the object of the account. -/
  transferred : Bool
  count : Nat
deriving DecidableEq

structure PlacedLog extends Log where
  txHash : Hash
  blockHash : Hash
  txIndex : Nat
  index : Nat

inductive StateError where
  | database
  | codeNotLoaded
  | refundBelowZero
deriving DecidableEq

inductive SnapshotItem where
  | account (address : Address) (account : StateAccount)
  | storage (address : Address) (incarnation : UInt16) (key : Hash) (value : Bytes)
deriving DecidableEq

/-- The entry for a transferred increase names the account; the source keeps a pointer to
the increase, which stays in the map as long as the entry can be reverted. -/
inductive JournalEntry where
  | createObjectChange (account : Address)
  | resetObjectChange (account : Address) (prev : StateObject)
  | selfdestructChange (account : Address) (prev : Bool) (prevbalance : Uint256)
  | balanceChange (account : Address) (prev : Uint256)
  | balanceIncrease (account : Address) (increase : Uint256)
  | balanceIncreaseTransfer (account : Address)
  | nonceChange (account : Address) (prev : UInt64)
  | storageChange (account : Address) (key : Hash) (prevalue : Uint256)
  | fakeStorageChange (account : Address) (key : Hash) (prevalue : Uint256)
  | codeChange (account : Address) (prevhash : Hash) (prevcode : Option Bytes)
  | refundChange (prev : UInt64)
  | addLogChange (txhash : Hash)
  | touchChange (account : Address)
  | accessListAddAccountChange (address : Address)
  | accessListAddSlotChange (address : Address) (slot : Hash)

def JournalEntry.dirtied : JournalEntry → Option Address
  | .createObjectChange account => some account
  | .resetObjectChange _ _ => none
  | .selfdestructChange account _ _ => some account
  | .balanceChange account _ => some account
  | .balanceIncrease account _ => some account
  | .balanceIncreaseTransfer _ => none
  | .nonceChange account _ => some account
  | .storageChange account _ _ => some account
  | .fakeStorageChange account _ _ => some account
  | .codeChange account _ _ => some account
  | .refundChange _ => none
  | .addLogChange _ => none
  | .touchChange account => some account
  | .accessListAddAccountChange _ => none
  | .accessListAddSlotChange _ _ => none

/-- The changes of a block so far.  The newest journal entry is in front, and an address is
in `dirties` as often as it has been changed. -/
structure Changes where
  stateObjects : Address → Option StateObject
  stateObjectsDirty : Finset Address
  refund : UInt64
  thash : Hash
  bhash : Hash
  txIndex : Nat
  logs : Hash → List PlacedLog
  logSize : Nat
  entries : List JournalEntry
  dirties : Multiset Address
  validRevisions : List Mark
  nextRevisionID : Nat
  accessList : AccessList
  balanceInc : Table Address BalanceIncrease

/-- The state of a block over what it rests on: its changes, the accounts known to be
missing, the first error, and the recorded reads. -/
structure IntraBlockState (db : Backend) extends Changes where
  nilAccounts : Finset Address
  nil_sound : ∀ a ∈ nilAccounts, db.reader.readAccountData a = .ok none
  savedErr : Option StateError
  snap : Option (List SnapshotItem)
  codeMap : Option (Hash → Option Bytes)

def ripemd : Address :=
  ⟨List.replicate 19 0 ++ [3], rfl⟩

namespace IntraBlockState

variable {db : Backend}

def new (db : Backend) : IntraBlockState db where
  stateObjects _ := none
  stateObjectsDirty := ∅
  nilAccounts := ∅
  nil_sound := fun a ha => absurd ha (Finset.notMem_empty a)
  savedErr := none
  refund := 0
  thash := default
  bhash := default
  txIndex := 0
  logs _ := []
  logSize := 0
  entries := []
  dirties := 0
  validRevisions := []
  nextRevisionID := 0
  accessList := newAccessList
  balanceInc := .empty
  snap := none
  codeMap := none

def setError (e : StateError) (s : IntraBlockState db) : IntraBlockState db :=
  { s with savedErr := s.savedErr <|> some e }

def append (e : JournalEntry) (s : IntraBlockState db) : IntraBlockState db :=
  { s with
    entries := e :: s.entries
    dirties := e.dirtied.elim s.dirties fun account => account ::ₘ s.dirties }

section

variable (a : Address)

def put (so : StateObject) (s : IntraBlockState db) : IntraBlockState db :=
  { s with stateObjects := Function.update s.stateObjects a (some so) }

def addAccount (account : StateAccount) (s : IntraBlockState db) :
    IntraBlockState db :=
  { s with snap := s.snap.map fun items => items ++ [.account a account] }

section

variable (s : IntraBlockState db)

def hasPending (a : Address) : Bool :=
  (s.balanceInc.lookup a).elim false fun bi => !bi.transferred

def pendingIncrease (a : Address) : Uint256 :=
  (s.balanceInc.lookup a).elim 0 BalanceIncrease.increase

def setTransferred (transferred : Bool) (s : IntraBlockState db) :
    IntraBlockState db :=
  match s.balanceInc.lookup a with
  | none => s
  | some bi =>
    { s with balanceInc := s.balanceInc.insert a { bi with transferred := transferred } }

def credit (a : Address) (so : StateObject) : StateObject :=
  { so with data := { so.data with balance := so.data.balance + s.pendingIncrease a } }

def setStateObject (so : StateObject) (s : IntraBlockState db) :
    StateObject × IntraBlockState db :=
  if s.hasPending a then
    (s.credit a so,
      ((s.setTransferred a true).append (.balanceIncreaseTransfer a)).put a (s.credit a so))
  else (so, s.put a so)

def blankObject (db : Backend) (previous : Option StateObject) : StateObject :=
  newObject db.lib .zero (previous.elim .zero StateObject.original)

def creationEntry : Option StateObject → JournalEntry
  | none => .createObjectChange a
  | some previous => .resetObjectChange a previous

def createObject (previous : Option StateObject) (s : IntraBlockState db) :
    StateObject × IntraBlockState db :=
  (s.append (creationEntry a previous)).setStateObject a (blankObject db previous)

/-- An account that the reader does not know exists as soon as its balance is increased. -/
def missingObject :
    Option StateObject × IntraBlockState db :=
  if s.hasPending a then
    (some (s.createObject a none).1, (s.createObject a none).2)
  else (none, s)

def rememberNil (h : db.reader.readAccountData a = .ok none) (s : IntraBlockState db) :
    IntraBlockState db :=
  { s with
    nilAccounts := insert a s.nilAccounts
    nil_sound := Finset.forall_mem_insert a s.nilAccounts _ |>.mpr ⟨h, s.nil_sound⟩ }

/-- An account that the reader knows is put among the live objects; this is no change
that could be reverted, but the transfer of a pending increase is. -/
def loadObject (account : StateAccount) (s : IntraBlockState db) :
    StateObject × IntraBlockState db :=
  (s.addAccount a account).setStateObject a (newObject db.lib account account)

def getStateObject :
    Option StateObject × IntraBlockState db :=
  match s.stateObjects a with
  | some so => (some so, s)
  | none =>
    if a ∈ s.nilAccounts then s.missingObject a
    else
      match h : db.reader.readAccountData a with
      | .error _ => (none, s.setError .database)
      | .ok none => (s.rememberNil a h).missingObject a
      | .ok (some account) =>
        (some (s.loadObject a account).1, (s.loadObject a account).2)

/-- `GetOrNewStateObject`: a deleted object is replaced as well. -/
def getOrNewStateObject :
    StateObject × IntraBlockState db :=
  match s.getStateObject a with
  | (none, s) => s.createObject a none
  | (some so, s) => if so.deleted then s.createObject a (some so) else (so, s)

end

/-- Change the object of an account; without one the source dereferences nil. -/
def modifyObject (f : StateObject → StateObject) (s : IntraBlockState db) :
    Option (IntraBlockState db) :=
  match s.getStateObject a with
  | (none, _) => none
  | (some so, s) => some (s.put a (f so))

def revertIncrease (increase : Uint256) (s : IntraBlockState db) :
    IntraBlockState db :=
  match s.balanceInc.lookup a with
  | none => s
  | some bi =>
    { s with
      balanceInc :=
        if bi.count - 1 = 0 then s.balanceInc.erase a
        else s.balanceInc.insert a
          { bi with increase := bi.increase - increase, count := bi.count - 1 } }

end

def revertLog (txhash : Hash) (s : IntraBlockState db) : Option (IntraBlockState db) :=
  match s.logs txhash with
  | [] => none
  | log :: logs =>
    some { s with
      logs := Function.update s.logs txhash (log :: logs).dropLast
      logSize := s.logSize - 1 }

/-- The `revert` methods of the journal entries; `none` is a panic. -/
def revertEntry (s : IntraBlockState db) : JournalEntry → Option (IntraBlockState db)
  | .createObjectChange a =>
    some { s with
      stateObjects := Function.update s.stateObjects a none
      stateObjectsDirty := s.stateObjectsDirty.erase a }
  | .resetObjectChange a prev => some (s.setStateObject a prev).2
  | .selfdestructChange a prev balance =>
    match s.getStateObject a with
    | (none, s) => some s
    | (some so, s) => some (s.put a (so.undestroy prev balance))
  | .balanceChange a prev => s.modifyObject a (StateObject.setBalance prev)
  | .balanceIncrease a increase => some (s.revertIncrease a increase)
  | .balanceIncreaseTransfer a => some (s.setTransferred a false)
  | .nonceChange a prev => s.modifyObject a (StateObject.setNonce prev)
  | .storageChange a key prevalue => s.modifyObject a (StateObject.setState key prevalue)
  | .fakeStorageChange a key prevalue =>
    match s.getStateObject a with
    | (none, _) => none
    | (some so, s) =>
      so.fakeStorage.map fun fake => s.put a (so.setFake fake key prevalue)
  | .codeChange a prevhash prevcode =>
    s.modifyObject a (StateObject.setCode prevhash prevcode)
  | .refundChange prev => some { s with refund := prev }
  | .addLogChange txhash => s.revertLog txhash
  | .touchChange _ => some s
  | .accessListAddAccountChange a =>
    some { s with accessList := s.accessList.deleteAddress a }
  | .accessListAddSlotChange a slot =>
    (s.accessList.deleteSlot a slot).map fun al => { s with accessList := al }

def undoEntry (e : JournalEntry) (s : IntraBlockState db) : Option (IntraBlockState db) :=
  (s.revertEntry e).map fun s =>
    { s with dirties := e.dirtied.elim s.dirties fun account => s.dirties.erase account }

/-- `journal.revert`: entries that reverting itself has appended are dropped as well. -/
def revertJournal (snapshot : Nat) (s : IntraBlockState db) : Option (IntraBlockState db) :=
  (undoAll undoEntry (s.entries.take (s.entries.length - snapshot)) s).map fun s =>
    { s with entries := s.entries.drop (s.entries.length - snapshot) }

def snapshot (s : IntraBlockState db) : Nat × IntraBlockState db :=
  (s.nextRevisionID, { s with
      nextRevisionID := s.nextRevisionID + 1
      validRevisions := s.validRevisions ++ [⟨s.nextRevisionID, s.entries.length⟩] })

/-- The search is for the first revision that is not below the wanted one; if it is
another one the source panics. -/
def revertToSnapshot (revid : Nat) (s : IntraBlockState db) : Option (IntraBlockState db) :=
  let idx := s.validRevisions.findIdx fun rev => revid ≤ rev.id
  match s.validRevisions[idx]? with
  | none => none
  | some rev =>
    if rev.id = revid then
      (s.revertJournal rev.depth).map fun t =>
        { t with validRevisions := t.validRevisions.take idx }
    else none

end IntraBlockState

end N42.IntraBlock
