import N42.ChainDatabase
import N42.LruCaches
import N42.StatefulActions

/-!
The chain of blocks over its database: blocks loaded through the cache, the head block,
and the reorganisation from the branch of one block to the branch of another.
-/

namespace N42.ChainReorg

open ChainTypes ChainDatabase LruCaches StatefulActions
open StatefulActions.Action

/-- A block in memory.  `reorg` compares the addresses of two block numbers in one place,
so the address belongs to the model. -/
structure BlockRef where
  numberPointer : Nat
  block : Block
deriving DecidableEq

structure BlockChain where
  chainDB : Database
  blockCache : LruCache Hash BlockRef
  currentBlock : BlockRef
  /-- The address of the next block number that is allocated. -/
  nextPointer : Nat

/-- The two errors of `reorg`, a nil pointer that is dereferenced, and a loop that has
not ended. -/
inductive ReorgError where
  | invalidOldChain
  | invalidNewChain
  | panic
  | outOfFuel
deriving DecidableEq

def blockCacheLimit : Nat := 1024

namespace BlockChain

def readBlock (tx : Database) (hash : Hash) (number : UInt64) (bc : BlockChain) :
    Option BlockRef × BlockChain :=
  match tx.readBlock hash number with
  | none => (none, bc)
  | some b => (some ⟨bc.nextPointer, b⟩, { bc with nextPointer := bc.nextPointer + 1 })

/-- The cached block of a hash whatever its number, or else the block on disk. -/
def getBlock (hash : Hash) (number : UInt64) (bc : BlockChain) :
    Option BlockRef × BlockChain :=
  if hash = default then (none, bc)
  else
    match bc.blockCache.get hash with
    | (some ref, cache) => (some ref, { bc with blockCache := cache })
    | (none, _) =>
      match bc.readBlock bc.chainDB hash number with
      | (none, read) => (none, read)
      | (some ref, read) =>
        (some ref, { read with blockCache := read.blockCache.add blockCacheLimit hash ref })

def getParent (ref : BlockRef) (bc : BlockChain) : Option BlockRef × BlockChain :=
  bc.getBlock ref.block.parentHash (ref.block.number64 - 1)

def readParent (tx : Database) (ref : BlockRef) (bc : BlockChain) :
    Option BlockRef × BlockChain :=
  bc.readBlock tx ref.block.parentHash (ref.block.number64 - 1)

end BlockChain

open BlockChain

section

variable (lib : Primitives)

def writeHead (b : Block) (tx : Database) : Database :=
  ((tx.writeHeadBlockHash (b.hash lib)).writeTxLookupEntries lib b).writeCanonicalHash
    (b.hash lib) b.number64

/-- Write into the transaction that is given, or into one of its own which it commits.
The database after the writes is returned. -/
def writeHeadBlock {ε : Type} (tx : Option Database) (ref : BlockRef) :
    Action BlockChain ε Database :=
  ofState fun bc =>
    let written := writeHead lib ref.block (tx.getD bc.chainDB)
    (written, { bc with
      currentBlock := ref
      chainDB := if tx.isNone then written else bc.chainDB })

def hashDifference (a b : List Hash) : List Hash :=
  a.filter fun hash => hash ∉ b

/-- The variables of the loops that look for the common ancestor.  The dropped blocks of
the old chain themselves are only counted for the log. -/
structure Walk where
  oldBlock : BlockRef
  newBlock : BlockRef
  newChain : List BlockRef
  deletedTxs : List Hash

def Walk.dropOld (w : Walk) (parent : BlockRef) : Walk :=
  { w with
    oldBlock := parent
    deletedTxs := w.deletedTxs ++ w.oldBlock.block.txHashes lib }

def Walk.stashNew (w : Walk) (parent : BlockRef) : Walk :=
  { w with
    newBlock := parent
    newChain := w.newChain ++ [w.newBlock] }

/-- The old chain is longer: go back to the number of the new block. -/
def reduceOld (w : Walk) : Action BlockChain ReorgError (Walk ⊕ Walk) :=
  if w.oldBlock.block.number64 = w.newBlock.block.number64 then pure (.inr w)
  else do
    let parent ← ofState (getParent w.oldBlock)
    let parent ← require .invalidOldChain parent
    pure (.inl (w.dropOld lib parent))

/-- The new chain is at least as long: go back until the numbers of both blocks are one
object.  Unlike the other loop this one compares pointers. -/
def reduceNew (w : Walk) : Action BlockChain ReorgError (Walk ⊕ Walk) :=
  if w.newBlock.numberPointer = w.oldBlock.numberPointer then pure (.inr w)
  else do
    let parent ← ofState (getParent w.newBlock)
    let parent ← require .invalidNewChain parent
    pure (.inl (w.stashNew parent))

def stepBack (tx : Database) (w : Walk) :
    Action BlockChain ReorgError (Walk ⊕ Walk) :=
  if w.oldBlock.block.hash lib = w.newBlock.block.hash lib then pure (.inr w)
  else do
    let oldParent ← ofState (readParent tx w.oldBlock)
    let newParent ← ofState (readParent tx w.newBlock)
    -- A missing block is a nil pointer in an interface that is not nil.  It passes the
    -- checks for nil, and the hash of the next round dereferences it.
    let oldParent ← require .panic oldParent
    let newParent ← require .panic newParent
    pure (.inl ((w.dropOld lib oldParent).stashNew newParent))

def reduce (fuel : Nat) (w : Walk) : Action BlockChain ReorgError Walk :=
  if w.newBlock.block.number64 < w.oldBlock.block.number64 then
    loop .outOfFuel (reduceOld lib) fuel w
  else loop .outOfFuel reduceNew fuel w

def insertBranch (tx : Database) (branch : List BlockRef) :
    Action BlockChain ReorgError Database :=
  branch.foldlM (fun tx ref => writeHeadBlock lib (some tx) ref) tx

/-- Delete the canonical hashes from a number on; the loop ends at the first number that
has none. -/
def truncateMarkers (marker : UInt64 × Database) :
    Action BlockChain ReorgError ((UInt64 × Database) ⊕ Database) :=
  if marker.2.readCanonicalHash marker.1 = default then pure (.inr marker.2)
  else pure (.inl (marker.1 + 1, marker.2.truncateCanonicalHash marker.1))

/-- `reorg`.  The transaction is committed in the end even if it was opened by the
caller. -/
def reorg (fuel : Nat) (tx : Option Database) (oldBlock newBlock : BlockRef) :
    Action BlockChain ReorgError Unit := do
  let level ← reduce lib fuel ⟨oldBlock, newBlock, [], []⟩
  let bc ← get
  let tx := tx.getD bc.chainDB
  let walk ← loop .outOfFuel (stepBack lib tx) fuel level
  -- The new chain was collected from its head down, and the head is left to the caller.
  let branch := walk.newChain.tail.reverse
  let tx ← insertBranch lib tx branch
  let addedTxs := branch.flatMap fun ref => ref.block.txHashes lib
  let tx := (hashDifference walk.deletedTxs addedTxs).foldl
    (fun tx hash => tx.deleteTxLookupEntry hash) tx
  let number := (walk.newChain[1]?.getD walk.oldBlock).block.number64
  let tx ← loop .outOfFuel truncateMarkers fuel (number + 1, tx)
  modify fun bc => { bc with chainDB := tx }

end

end N42.ChainReorg
