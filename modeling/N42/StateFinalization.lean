import N42.StateOperations

/-!
The end of a transaction and of a block: what is written of the objects that have
changed, and the hash over them that goes into the header.
-/

namespace N42.StateFinalization

open RlpEncoding ChainTypes
open Transactions (uintItem)
open FiniteTables StateObjects IntraBlock

theorem systemBytes_length : (List.replicate 19 (0xff : UInt8) ++ [0xfe]).length = 20 :=
  rfl

def systemAddress : Address :=
  ⟨List.replicate 19 0xff ++ [0xfe], systemBytes_length⟩

/-- The calls that a writer receives for one account, at most one of each kind and one
for each slot. -/
structure AccountWrites where
  deleteAccount : Option StateAccount
  updateAccountCode : Option (UInt16 × Hash × Bytes)
  createContract : Bool
  /-- The incarnation, the value at the start of the block and the new value. -/
  writeAccountStorage : Hash → Option (UInt16 × Uint256 × Uint256)
  updateAccountData : Option (StateAccount × StateAccount)

def AccountWrites.nothing : AccountWrites :=
  ⟨none, none, false, fun _ => none, none⟩

abbrev WriteSet := Address → AccountWrites

variable {db : Backend}

def flushStorage (so : StateObject) : StateObject :=
  { so with originStorage := fun key =>
      match so.dirtyStorage key with
      | some value => some value
      | none => so.originStorage key }

def storageWrites (so : StateObject) (key : Hash) : Option (UInt16 × Uint256 × Uint256) :=
  (so.dirtyStorage key).map fun value =>
    (so.data.incarnation, so.blockOriginStorage.value key, value)

def codeWrite (so : StateObject) : Option (UInt16 × Hash × Bytes) :=
  if so.dirtyCode then so.code.map fun code => (so.data.incarnation, so.data.codeHash, code)
  else none

def emptyRemoval (lib : Primitives) (rules : Rules) (a : Address) (so : StateObject) : Bool :=
  rules.isSpuriousDragon && so.empty lib && (!rules.isAura || a ≠ systemAddress)

def removes (lib : Primitives) (rules : Rules) (a : Address) (so : StateObject)
    (isDirty : Bool) : Bool :=
  so.selfdestructed || (isDirty && emptyRemoval lib rules a so)

def updates (lib : Primitives) (rules : Rules) (a : Address) (so : StateObject)
    (isDirty : Bool) : Bool :=
  isDirty && (so.created || !so.selfdestructed) && !emptyRemoval lib rules a so

def updateAccount (lib : Primitives) (rules : Rules) (a : Address) (so : StateObject)
    (isDirty : Bool) : AccountWrites × StateObject :=
  let removed := if removes lib rules a so isDirty then some so.original else none
  if updates lib rules a so isDirty then
    (⟨removed, codeWrite so, so.created, storageWrites so, some (so.original, so.data)⟩,
      flushStorage { so with deleted := false })
  else
    ({ AccountWrites.nothing with deleteAccount := removed },
      { so with deleted := so.deleted || removed.isSome })

section

variable (s : IntraBlockState db)

def clearJournalAndRefund : IntraBlockState db :=
  { s with entries := [], dirties := 0, validRevisions := [], refund := 0 }

/-- Load every account with a pending increase; their order makes no difference. -/
def loadPending : IntraBlockState db :=
  (ascending s.balanceInc.keys).foldl
    (fun s a => if s.hasPending a then (s.getStateObject a).2 else s) s

/-- Update the live objects of the given addresses; `dirty` says which have changed. -/
def updateObjects (rules : Rules) (chosen : Address → Bool) (dirty : Address → Bool)
    (s : IntraBlockState db) : WriteSet × IntraBlockState db :=
  (fun a =>
    if chosen a then
      (s.stateObjects a).elim .nothing fun so =>
        (updateAccount db.lib rules a so (dirty a)).1
    else .nothing,
   { s with stateObjects := fun a =>
      if chosen a then
        (s.stateObjects a).map fun so => (updateAccount db.lib rules a so (dirty a)).2
      else s.stateObjects a })

/-- The changed addresses that have a live object; the precompile that keeps its touch
need not have one. -/
def liveDirties : Finset Address :=
  s.dirties.toFinset.filter fun a => (s.stateObjects a).isSome

def markDirties (dirty : Finset Address) (s : IntraBlockState db) : IntraBlockState db :=
  { s with stateObjectsDirty := s.stateObjectsDirty ∪ dirty }

def finalizeTx (rules : Rules) (s : IntraBlockState db) : WriteSet × IntraBlockState db :=
  let s := loadPending s
  let (writes, t) := updateObjects rules (fun a => decide (a ∈ s.dirties)) (fun _ => true) s
  (writes, clearJournalAndRefund (markDirties (liveDirties s) t))

def softFinalise : IntraBlockState db :=
  clearJournalAndRefund (markDirties (liveDirties s) s)

end

def makeWriteSet (rules : Rules) (s : IntraBlockState db) :
    WriteSet × IntraBlockState db :=
  let s := markDirties s.dirties.toFinset s
  let (writes, t) := updateObjects rules (fun _ => true)
    (fun a => decide (a ∈ s.stateObjectsDirty)) s
  (writes, clearJournalAndRefund t)

def commitBlock (rules : Rules) (s : IntraBlockState db) : WriteSet × IntraBlockState db :=
  makeWriteSet rules (loadPending s)

def recordItem (data : StateAccount) : Item :=
  .list [uintItem data.incarnation.toNat, uintItem data.balance.toNat,
    uintItem data.nonce.toNat, uintItem data.initialised.toNat,
    .bytes data.codeHash.bytes, .bytes data.root.bytes]

/-- The data of the objects at the given addresses; a missing one is dereferenced. -/
def rootRecords : List Address → IntraBlockState db →
    Option (List StateAccount × IntraBlockState db)
  | [], s => some ([], s)
  | a :: rest, s =>
    match s.getStateObject a with
    | (none, _) => none
    | (some so, s) => (rootRecords rest s).map fun (records, s) => (so.data :: records, s)

/-- The bytes that are hashed for the accounts that have changed, in the order of their
addresses. -/
def rootBytes (records : List StateAccount) : Bytes :=
  encodeAll (records.map recordItem)

def generateRootHash (s : IntraBlockState db) : Option (Hash × IntraBlockState db) :=
  if s.stateObjectsDirty = ∅ then some (db.lib.keccak256 [], s)
  else
    (rootRecords (ascending s.stateObjectsDirty) s).map fun (records, s) =>
      (db.lib.keccak256 (rootBytes records), s)

end N42.StateFinalization
