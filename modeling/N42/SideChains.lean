import N42.ChainWriting

/-!
The imports that do not execute their blocks.  Blocks whose parent is stored but not
canonical are written as a side chain, without a state and without a total difficulty;
blocks that are known are skipped, or made the head again.
-/

namespace N42.SideChains

open ChainTypes ChainDatabase ChainReorg StatefulActions
open StatefulActions.Action ChainWriting ChainWriting.Node

variable {S : Type}

namespace Node

def getBlock (hash : Hash) (number : UInt64) (node : Node S) : Option BlockRef × Node S :=
  let found := node.chain.getBlock hash number
  (found.1, { node with chain := found.2 })

def getBlockByNumber (number : UInt64) (node : Node S) : Option BlockRef × Node S :=
  if node.db.readCanonicalHash number = default then (none, node)
  else getBlock (node.db.readCanonicalHash number) number node

def hasBlock (hash : Hash) (number : UInt64) (node : Node S) : Bool :=
  node.chain.blockCache.contains hash || (node.db.readBlock hash number).isSome

def hasBlockAndState (lib : Primitives) (hash : Hash) (number : UInt64) (node : Node S) :
    Bool × Node S :=
  match getBlock hash number node with
  | (none, next) => (false, next)
  | (some ref, next) => (next.db.isCanonicalHash (ref.block.hash lib), next)

end Node

open Node

inductive LinkError where
  | knownBlock
  | unknownAncestor
  | prunedAncestor
deriving DecidableEq

section

variable (lib : Primitives)

def linkError (b : Block) (node : Node S) : Option LinkError × Node S :=
  match hasBlockAndState lib (b.hash lib) b.number64 node with
  | (true, next) => (some .knownBlock, next)
  | (false, next) =>
    match hasBlockAndState lib b.parentHash (b.number64 - 1) next with
    | (true, next) => (none, next)
    | (false, next) =>
      (some (if hasBlock b.parentHash (b.number64 - 1) next then .prunedAncestor
        else .unknownAncestor), next)

def writeBlockWithoutState (b : Block) : Action (Node S) WriteError Unit :=
  modify fun node => { node with
    chain := { node.chain with chainDB := node.db.writeBlock lib b } }

structure SideWalk where
  externTd : Uint256
  lastBlock : BlockRef

def rival (current ref : BlockRef) : Action (Node S) WriteError (Option BlockRef) :=
  if ref.block.header.number ≤ current.block.header.number then
    ofState (getBlockByNumber ref.block.number64)
  else pure none

def sideTd (w : SideWalk) (b : Block) : Action (Node S) WriteError Uint256 :=
  if w.externTd = 0 then do
    let td ← ofState (getTd b.parentHash (b.number64 - 1))
    require .panic td
  else pure w.externTd

def storeSideBlock (b : Block) : Action (Node S) WriteError Unit := do
  let node ← get
  if hasBlock (b.hash lib) b.number64 node then pure ()
  else writeBlockWithoutState lib b

/-- One round of that loop.  The difficulty summed up in `externTd` is only printed, but
a missing summand is dereferenced. -/
def importSideBlock (current : BlockRef) (w : SideWalk) (ref : BlockRef) :
    Action (Node S) WriteError SideWalk := do
  let canonical ← rival current ref
  if canonical.any fun c => c.block.hash lib = ref.block.hash lib then do
    let td ← ofState (getTd (ref.block.hash lib) ref.block.number64)
    let td ← require .panic td
    return { w with externTd := td }
  else do
    failIf (canonical.any fun c => c.block.header.root = ref.block.header.root) .ghostStateAttack
    let externTd ← sideTd w ref.block
    let difficulty ← require .panic ref.block.header.difficulty
    storeSideBlock lib ref.block
    return ⟨externTd + difficulty, ref⟩

/-- Collect the blocks from the given one down to one with a state, the lowest first.  The
state is looked up by its root among the canonical block hashes. -/
def missingStates (w : Option Block × List (Hash × UInt64)) :
    Action (Node S) WriteError ((Option Block × List (Hash × UInt64)) ⊕ List (Hash × UInt64)) := do
  let parent ← require .missingParent w.1
  let node ← get
  if node.db.isCanonicalHash parent.header.root then return .inr w.2
  else return .inl (node.db.readBlock parent.parentHash (parent.number64 - 1),
    (parent.hash lib, parent.number64) :: w.2)

/-- Import blocks whose ancestors have no state.  The result lists the blocks that are to
be imported anew because the side chain takes over. -/
def insertSideChain (fuel : Nat) (coin : Bool) (first : BlockRef) (rest : List BlockRef) :
    Action (Node S) WriteError (List (Hash × UInt64)) := do
  let node ← get
  let current := node.chain.currentBlock
  let w ← (first :: rest).foldlM (importSideBlock lib current) ⟨0, first⟩
  let needed ← reorgNeeded lib coin current.block w.lastBlock.block
  if needed then
    loop (.reorg .outOfFuel) (missingStates lib) fuel (some (rest.getLast?.getD first).block, [])
  else do
    let _ ← ofState (getTd (current.block.hash lib) current.block.number64)
    return []

/-- Pass over known blocks up to the first one that is to become the head; that one and
the blocks after it are returned. -/
def skipKnown (lib : Primitives) (current : BlockRef) :
    List (Bool × BlockRef) → Action (Node S) WriteError (List BlockRef)
  | [] => pure []
  | (coin, ref) :: rest => do
      let needed ← reorgNeeded lib coin current.block ref.block
      let node ← get
      if needed ∧ (current.block.number64 < ref.block.number64 ∨
          node.db.readCanonicalHash ref.block.number64 ≠ ref.block.hash lib) then
        return ref :: rest.map Prod.snd
      else skipKnown lib current rest

/-- The reorganisation commits the transaction it is handed, so nothing can be written
with it afterwards. -/
def writeKnownBlock (fuel : Nat) (ref : BlockRef) :
    Action (Node S) WriteError Unit := do
  let node ← get
  if ref.block.parentHash ≠ node.chain.currentBlock.block.hash lib then do
    onChain (reorg lib fuel (some node.db) node.chain.currentBlock ref)
    fail .finishedTx
  else do
    let _ ← onChain (writeHeadBlock lib none ref)
    return ()

/-- The known blocks at the start of an import, each with the coin of its fork choice. -/
def insertKnown (fuel : Nat) (refs : List (Bool × BlockRef)) :
    Action (Node S) WriteError Unit := do
  let node ← get
  let remaining ← skipKnown lib node.chain.currentBlock refs
  remaining.forM (writeKnownBlock lib fuel)

end

end N42.SideChains
