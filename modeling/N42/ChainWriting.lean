import N42.AppendTables
import N42.Deposits
import Mathlib.Data.Prod.Lex

/-!
How an executed block is written: the tables that `writeBlockWithState` fills in one
transaction, the fork choice by total difficulty, and the new head.
-/

namespace N42.ChainWriting

open ByteStrings ChainTypes ChainDatabase ChainReorg LruCaches
open AppendTables StatefulActions StatefulActions.Action Deposits

/-- A byte string with the order of the keys in the store. -/
@[ext] structure KeyBytes where
  bytes : List UInt8
deriving DecidableEq

instance : LinearOrder KeyBytes :=
  LinearOrder.lift' (fun key => key.bytes.map UInt8.toNat) fun _ _ h =>
    KeyBytes.ext (map_toNat_injective h)

/-- What the execution of a block gives besides the root: the state after it, the logs of
every receipt, and the former values of what it has changed, sorted as they are encoded
into the change sets. -/
structure BlockOutcome (S : Type) where
  post : S
  receipts : List (List ContractLog)
  accountChanges : List KeyBytes
  account_sorted : accountChanges.Pairwise (· < ·)
  storageChanges : List (KeyBytes ×ₗ KeyBytes)
  storage_sorted : storageChanges.Pairwise (· < ·)

/-- The tables of the executed blocks.  Block numbers are the first part of the keys of
the tables that are appended to. -/
structure StateTables (S : Type) where
  plain : S
  log : AppendTable (Nat ×ₗ Nat)
  receipts : AppendTable Nat
  accountChangeSet : AppendTable (Nat ×ₗ KeyBytes)
  storageChangeSet : AppendTable (Nat ×ₗ (KeyBytes ×ₗ KeyBytes))

def logKeys (number : Nat) (receipts : List (List ContractLog)) : List (Nat ×ₗ Nat) :=
  ((List.range receipts.length).filter fun txId => !(receipts[txId]?.getD []).isEmpty).map
    fun txId => toLex (number, txId)

variable {S : Type}

namespace StateTables

def appendReceipts (number : Nat) (receipts : List (List ContractLog)) (t : StateTables S) :
    Option (StateTables S) := do
  let log ← t.log.appendAll (logKeys number receipts)
  let receipts ← t.receipts.append number
  return { t with log := log, receipts := receipts }

def writeChangeSets (number : Nat) (o : BlockOutcome S) (t : StateTables S) :
    Option (StateTables S) := do
  let account ← t.accountChangeSet.appendAll
    (o.accountChanges.map fun entry => toLex (number, entry))
  let storage ← t.storageChangeSet.appendAll
    (o.storageChanges.map fun entry => toLex (number, entry))
  return { t with accountChangeSet := account, storageChangeSet := storage }

def writeOutcome (number : Nat) (o : BlockOutcome S) (t : StateTables S) :
    Option (StateTables S) := do
  let t ← if o.receipts.isEmpty then some t else t.appendReceipts number o.receipts
  { t with plain := o.post }.writeChangeSets number o

end StateTables

/-- A running node: its chain, the tables of the executed blocks, and the cache of total
difficulties, which also remembers that there was none. -/
structure Node (S : Type) where
  chain : BlockChain
  tables : StateTables S
  tdCache : LruCache Hash (Option Uint256)

inductive WriteError where
  | unknownAncestor
  | appendFailed
  | panic
  | ghostStateAttack
  | missingParent
  | finishedTx
  | reorg (e : ReorgError)
deriving DecidableEq

inductive WriteStatus where
  | canonStatTy
  | sideStatTy
deriving DecidableEq

def tdCacheLimit : Nat := 1024

namespace Node

def db (node : Node S) : Database :=
  node.chain.chainDB

def getTd (hash : Hash) (number : UInt64) (node : Node S) : Option Uint256 × Node S :=
  match node.tdCache.get hash with
  | (some td, cache) => (td, { node with tdCache := cache })
  | (none, cache) =>
    let td := node.db.readTd hash number
    (td, { node with tdCache := cache.add tdCacheLimit hash td })

def onChain {α : Type} (x : Action BlockChain ReorgError α) :
    Action (Node S) WriteError α :=
  fun node =>
    (((x node.chain).1.mapError .reorg), { node with chain := (x node.chain).2 })

theorem onChain_eq_ok_iff {α : Type} {x : Action BlockChain ReorgError α}
    {node next : Node S} {a : α} :
    onChain x node = (.ok a, next) ↔
      ∃ bc, x node.chain = (.ok a, bc) ∧ { node with chain := bc } = next := by
  unfold onChain
  rcases hx : x node.chain with ⟨e | b, bc⟩
  · simp [Except.mapError]
  · simp [Except.mapError, eq_comm]

end Node

open Node

/-- The fork choice; `coin` decides between blocks of equal difficulty and height. -/
def prefers (coin : Bool) (current header : Block) (localTd externTd : Uint256) : Bool :=
  localTd < externTd || externTd == localTd &&
    (header.number64 < current.number64 || header.number64 == current.number64 && coin)

/-- Whether the new block becomes the head.  The total difficulties are printed before
anything else, so a missing one is dereferenced. -/
def reorgNeeded (lib : Primitives) (coin : Bool) (current header : Block) :
    Action (Node S) WriteError Bool := do
  let localTd ← ofState (getTd (current.hash lib) current.number64)
  let externTd ← ofState (getTd (header.hash lib) header.number64)
  let localTd ← require .panic localTd
  let externTd ← require .panic externTd
  return prefers coin current header localTd externTd

def storeBlock (lib : Primitives) (b : Block) (o : BlockOutcome S) :
    Action (Node S) WriteError Unit := do
  let node ← get
  let ptd ← require .unknownAncestor (node.db.readTd b.parentHash (b.number64 - 1))
  let difficulty ← require .panic b.header.difficulty
  let tables ← require .appendFailed (node.tables.writeOutcome b.number64.toNat o)
  modify fun node => { node with
    tables := tables
    chain := { node.chain with
      chainDB := (node.db.writeTd (b.hash lib) b.number64 (ptd + difficulty)).writeBlock lib b } }

def writeBlockWithState (lib : Primitives) (fuel : Nat) (coin : Bool) (ref : BlockRef)
    (o : BlockOutcome S) : Action (Node S) WriteError WriteStatus := do
  storeBlock lib ref.block o
  let node ← get
  let needed ← reorgNeeded lib coin node.chain.currentBlock.block ref.block
  if needed then do
    if ref.block.parentHash ≠ node.chain.currentBlock.block.hash lib then
      onChain (reorg lib fuel none node.chain.currentBlock ref)
    else pure ()
    let _ ← onChain (writeHeadBlock lib none ref)
    return .canonStatTy
  else return .sideStatTy

end N42.ChainWriting
