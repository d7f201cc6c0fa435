import N42.TotalDifficulty
import N42.TransactionScripts

/-!
The database calls of `writeBlockWithState`, `writeKnownBlock`, `reorg` and
`writeHeadBlock`, each with what the code does when it fails: some errors are returned,
some end the process, and some are ignored.
-/

namespace N42.FailingWrites

open ChainTypes ChainDatabase ChainReorg ReorgEffects ReorgTables
open StatefulActions StatefulActions.Action ChainWriting TotalDifficulty
open TransactionScripts HeaderSealing ReorgCorrectness CompetingBlocks

variable {S : Type}

structure Disk (S : Type) where
  db : Database
  tables : StateTables S
  rewards : Address → Option Uint256

def onDb (f : Database → Database) (d : Disk S) : Disk S :=
  { d with db := f d.db }

section

variable (lib : Primitives)

/-- The calls of `writeHeadBlock` in an open transaction, with the reaction to an error it
returns.  The head is set in memory before anything is committed. -/
def headCalls (reaction : OnFailure (Disk S)) (ref : BlockRef) :
    List (Command (Disk S) BlockRef) :=
  [.call (onDb fun db => db.writeHeadBlockHash (ref.block.hash lib)) .exit,
    .call (onDb fun db => db.writeHeadBlockHash (ref.block.hash lib)) .exit,
    .call (onDb fun db => db.writeTxLookupEntries lib ref.block) .exit,
    .call (onDb fun db => db.writeCanonicalHash (ref.block.hash lib) ref.block.number64) reaction,
    .store ref]

/-- What `reorg` has found before it writes: how many blocks it has loaded, the blocks
that become canonical, the transactions that are dropped, and the first number above the
new chain, with whether it has a canonical hash. -/
structure Plan where
  levelReads : Nat
  stepReads : Nat
  branch : List BlockRef
  dropped : List Hash
  number : UInt64
  stale : Bool

/-- The loop over the markers.  If a marker cannot be read the loop ends; if the markers
cannot be truncated it goes on with the next number. -/
def markerCalls (number : UInt64) (stale : Bool) : List (Command (Disk S) BlockRef) :=
  if stale then
    [.call id (.resume id 2), .call (onDb (trim number)) (.resume (onDb (trim (number + 1))) 0),
      .call id (.resume id 0)]
  else [.call id (.resume id 0)]

/-- The calls of `reorg` in an open transaction.  A block that cannot be read is
dereferenced, the other errors are ignored; a block whose canonical hash could not be
written is not set in memory. -/
def reorgCalls (plan : Plan) : List (Command (Disk S) BlockRef) :=
  List.replicate plan.stepReads (.call id .exit) ++
    plan.branch.flatMap (headCalls lib (.resume id 1)) ++ plan.dropped.map (fun hash =>
      .call (onDb fun db => db.deleteTxLookupEntry hash) (.resume id 0)) ++
    markerCalls plan.number plan.stale

/-- `reorg` loads the first blocks in transactions of their own, and commits in the end
whether the transaction is its own or not. -/
def reorgScript (borrowed : Bool) (plan : Plan) :
    List (Command (Disk S) BlockRef) :=
  List.replicate plan.levelReads (.call id .abort) ++
    if borrowed then reorgCalls lib plan ++ [.commit] else own (reorgCalls lib plan)

/-- What the first transaction of `writeBlockWithState` writes for a block. -/
structure Effects (S : Type) where
  td : Uint256
  hasReceipts : Bool
  tables : StateTables S
  rewards : List (Address × Uint256)

def rewardCall (entry : Address × Uint256) : Command (Disk S) BlockRef :=
  .call (fun d => { d with rewards := Function.update d.rewards entry.1 (some entry.2) })
    (.resume id 0)

def storeCalls (b : Block) (e : Effects S) :
    List (Command (Disk S) BlockRef) :=
  [.call id .abort, .call (onDb fun db => db.writeTd (b.hash lib) b.number64 e.td) .abort] ++
    (if e.hasReceipts then
      [.call (fun d => { d with tables := { d.tables with
        log := e.tables.log, receipts := e.tables.receipts } }) .abort]
    else []) ++
    [.call id .abort, .call (onDb fun db => db.writeBlock lib b) .exit,
      .call (fun d => { d with tables := { d.tables with plain := e.tables.plain } }) .abort,
      .call (fun d => { d with tables := { d.tables with
        accountChangeSet := e.tables.accountChangeSet,
        storageChangeSet := e.tables.storageChangeSet } }) .abort,
      .call id .abort] ++
    e.rewards.map rewardCall

inductive Choice where
  | side
  | child
  | reorg (plan : Plan)

inductive Operation (S : Type) where
  | writeHeadBlock (borrowed : Bool) (ref : BlockRef)
  | writeKnownBlock (plan : Option Plan) (ref : BlockRef)
  | reorg (borrowed : Bool) (plan : Plan)
  | writeBlockWithState (ref : BlockRef) (e : Effects S) (choiceReads : Nat) (choice : Choice)

def choiceScript (ref : BlockRef) :
    Choice → List (Command (Disk S) BlockRef)
  | .side => []
  | .child => own (headCalls lib .abort ref)
  | .reorg plan => reorgScript lib false plan ++ own (headCalls lib .abort ref)

/-- The whole operation.  A total difficulty that cannot be read for the fork choice is
dereferenced.  After a reorganisation in a transaction of `writeKnownBlock` that transaction
is finished, so the next write ends the process. -/
def script : Operation S → List (Command (Disk S) BlockRef)
  | .writeHeadBlock true ref => headCalls lib .abort ref
  | .writeHeadBlock false ref => own (headCalls lib .abort ref)
  | .writeKnownBlock none ref => own (headCalls lib .abort ref)
  | .writeKnownBlock (some plan) _ => .begin :: reorgScript lib true plan
  | .reorg borrowed plan => reorgScript lib borrowed plan
  | .writeBlockWithState ref e choiceReads choice =>
    own (storeCalls lib ref.block e) ++
      (List.replicate choiceReads (.call id .exit) ++ choiceScript lib ref choice)

def handed : Operation S → List (List (Command (Disk S) BlockRef))
  | .writeHeadBlock true ref | .writeKnownBlock none ref => [headCalls lib .abort ref]
  | .writeHeadBlock false _ => []
  | .writeKnownBlock (some plan) ref =>
    [reorgScript lib true plan, headCalls lib .abort ref]
  | .reorg true plan => reorgScript lib true plan :: plan.branch.map (headCalls lib (.resume id 1))
  | .reorg false plan | .writeBlockWithState _ _ _ (.reorg plan) =>
    plan.branch.map (headCalls lib (.resume id 1))
  | .writeBlockWithState _ _ _ .side | .writeBlockWithState _ _ _ .child => []

def IsHead (ref : BlockRef) (d : Disk S) : Prop :=
  d.db.headBlockHash = some (ref.block.hash lib)

/-- What is expected of a failure: all or nothing is written, the head in memory is that
on disk, and no borrowed transaction is committed. -/
def Upholds (op : Operation S) (w : World (Disk S) BlockRef) (i : Nat) :
    Prop :=
  AllOrNothing (IsHead lib) (script lib op) w (failAt (script lib op) i w) ∧
    ∀ calls ∈ handed lib op, ∀ c ∈ calls, c.isCommit = false

end

/-- Does the operation hand its transaction, or that of its caller, to `reorg`? -/
def Operation.lends : Operation S → Bool
  | .reorg true _ | .writeKnownBlock (some _) _ => true
  | _ => false

def heads : Operation S → List BlockRef
  | .writeHeadBlock _ ref | .writeKnownBlock none ref => [ref]
  | .writeKnownBlock (some plan) _ | .reorg _ plan => plan.branch
  | .writeBlockWithState _ _ _ .side => []
  | .writeBlockWithState ref _ _ .child => [ref]
  | .writeBlockWithState ref _ _ (.reorg plan) => plan.branch ++ [ref]

variable {lib : Primitives}

theorem plain_headCalls (reaction : OnFailure (Disk S)) (ref : BlockRef) :
    ∀ c ∈ headCalls lib reaction ref, c.isPlain = true := by
  simp [headCalls, Command.isPlain]

theorem plain_reorgCalls (plan : Plan) : ∀ c ∈ reorgCalls (S := S) lib plan, c.isPlain = true := by
  intro c hc
  simp only [reorgCalls, List.mem_append, List.mem_flatMap, List.mem_map, List.mem_replicate] at hc
  rcases hc with ((⟨-, rfl⟩ | ⟨ref, -, hc⟩) | ⟨hash, -, rfl⟩) | hc
  · rfl
  · exact plain_headCalls _ ref c hc
  · rfl
  · unfold markerCalls at hc
    split at hc
    · simp only [List.mem_cons, List.not_mem_nil, or_false] at hc
      rcases hc with rfl | rfl | rfl
      · rfl
      · rfl
      · rfl
    · rw [List.mem_singleton.mp hc]
      rfl

theorem plain_storeCalls (b : Block) (e : Effects S) :
    ∀ c ∈ storeCalls lib b e, c.isPlain = true := by
  intro c hc
  simp only [storeCalls, List.mem_append, List.mem_map] at hc
  rcases hc with ((hc | hc) | hc) | ⟨entry, -, rfl⟩
  · simp only [List.mem_cons, List.not_mem_nil, or_false] at hc
    rcases hc with rfl | rfl
    · rfl
    · rfl
  · split at hc
    · rw [List.mem_singleton.mp hc]
      rfl
    · cases hc
  · simp only [List.mem_cons, List.not_mem_nil, or_false] at hc
    rcases hc with rfl | rfl | rfl | rfl | rfl
    · rfl
    · rfl
    · rfl
    · rfl
    · rfl
  · rfl

theorem stores_reorgCalls (plan : Plan) : stores (reorgCalls (S := S) lib plan) = plan.branch := by
  have hheads : stores (plan.branch.flatMap (headCalls (S := S) lib (.resume id 1))) =
      plan.branch := by
    induction plan.branch with
    | nil => rfl
    | cons ref branch ih =>
      rw [List.flatMap_cons, stores_append, ih]
      rfl
  have hreads : stores (List.replicate plan.stepReads
      (.call id .exit : Command (Disk S) BlockRef)) = [] := by
    simp [stores]
  have hdrops : stores (plan.dropped.map fun hash =>
      (.call (onDb fun db => db.deleteTxLookupEntry hash) (.resume id 0) :
        Command (Disk S) BlockRef)) = [] := by
    simp [stores]
  have hmarkers : stores (markerCalls (S := S) plan.number plan.stale) = [] := by
    unfold markerCalls
    split
    · rfl
    · rfl
  rw [reorgCalls, stores_append, stores_append, stores_append, hheads, hreads, hdrops, hmarkers,
    List.nil_append, List.append_nil, List.append_nil]

theorem stores_own (p : List (Command (Disk S) BlockRef)) : stores (own p) = stores p := by
  change stores ([.begin] ++ (p ++ [.commit])) = _
  rw [stores_append, stores_append]
  exact List.append_nil _

theorem stores_reads (n : Nat) (reaction : OnFailure (Disk S)) :
    stores (List.replicate n (.call id reaction : Command (Disk S) BlockRef)) = [] := by
  simp [stores]

theorem stores_storeCalls (b : Block) (e : Effects S) : stores (storeCalls lib b e) = [] := by
  have hrewards : stores (e.rewards.map (rewardCall (S := S))) = [] := by
    simp [stores, rewardCall]
  rw [storeCalls, stores_append, stores_append, stores_append, hrewards]
  split
  · rfl
  · rfl

theorem stores_reorgScript (borrowed : Bool) (plan : Plan) :
    stores (reorgScript (S := S) lib borrowed plan) = plan.branch := by
  rw [reorgScript, stores_append, stores_reads, List.nil_append]
  split
  · rw [stores_append, stores_reorgCalls]
    exact List.append_nil _
  · rw [stores_own, stores_reorgCalls]

theorem stores_script (op : Operation S) : stores (script lib op) = heads op := by
  match op with
  | .writeHeadBlock true ref => rfl
  | .writeHeadBlock false ref => rfl
  | .writeKnownBlock none ref => rfl
  | .writeKnownBlock (some plan) ref => exact stores_reorgScript true plan
  | .reorg borrowed plan => exact stores_reorgScript borrowed plan
  | .writeBlockWithState ref e n choice =>
    rw [script, stores_append, stores_append, stores_own, stores_storeCalls, stores_reads,
      List.nil_append, List.nil_append]
    cases choice with
    | side => rfl
    | child => rfl
    | reorg plan =>
      rw [choiceScript, stores_append, stores_reorgScript]
      rfl

section Complete

theorem effect_branch (reaction : OnFailure (Disk S)) (branch : List BlockRef) (d : Disk S) :
    effect (branch.flatMap (headCalls lib reaction)) d =
      onDb (writeHeads lib (branch.map BlockRef.block).reverse) d := by
  induction branch generalizing d with
  | nil => rfl
  | cons ref branch ih =>
    have hhead : effect (headCalls lib reaction ref) d = onDb (writeHead lib ref.block) d := rfl
    rw [List.flatMap_cons, effect_append, hhead, ih]
    simp only [onDb, writeHeads, List.map_cons, List.reverse_cons, List.foldr_append,
      List.foldr_cons, List.foldr_nil]

theorem effect_drops (dropped : List Hash) (d : Disk S) :
    effect (dropped.map fun hash => (.call (onDb fun db => db.deleteTxLookupEntry hash)
        (.resume id 0) : Command (Disk S) BlockRef)) d =
      onDb (fun db => dropped.foldl (fun tx hash => tx.deleteTxLookupEntry hash) db) d := by
  induction dropped generalizing d with
  | nil => rfl
  | cons hash dropped ih => exact ih (onDb (fun db => db.deleteTxLookupEntry hash) d)

theorem effect_reads (n : Nat) (reaction : OnFailure (Disk S)) (d : Disk S) :
    effect (List.replicate n (.call id reaction : Command (Disk S) BlockRef)) d = d := by
  induction n with
  | zero => rfl
  | succ n ih => exact ih

theorem effect_markerCalls {number : UInt64} {stale : Bool} {d : Disk S}
    (h : stale = decide (d.db.readCanonicalHash number ≠ default)) :
    effect (markerCalls number stale) d = onDb (trim number) d := by
  unfold markerCalls
  cases stale with
  | true => rfl
  | false =>
    have hnone := not_not.mp (of_decide_eq_false h.symm)
    change d = { d with db := trim number d.db }
    rw [trim, if_pos hnone]

def planOf (lib : Primitives) (db : Database) (walk : Walk) : Plan :=
  let branch := walk.newChain.tail.reverse
  let dropped := hashDifference walk.deletedTxs
    (branch.flatMap fun ref => ref.block.txHashes lib)
  let number := (walk.newChain[1]?.getD walk.oldBlock).block.number64 + 1
  let tx := dropped.foldl (fun tx hash => tx.deleteTxLookupEntry hash)
    (writeHeads lib (branch.map BlockRef.block).reverse db)
  { levelReads := 0
    stepReads := 0
    branch := branch
    dropped := dropped
    number := number
    stale := decide (tx.readCanonicalHash number ≠ default) }

def worldOf (t : StateTables S) (rewards : Address → Option Uint256) (bc : BlockChain) :
    World (Disk S) BlockRef :=
  ⟨⟨bc.chainDB, t, rewards⟩, none, bc.currentBlock⟩

theorem insertBranch_run (tx : Database) (refs : List BlockRef) (bc : BlockChain) :
    insertBranch lib tx refs bc = (.ok (writeHeads lib (refs.map BlockRef.block).reverse tx),
        { bc with currentBlock := refs.getLastD bc.currentBlock }) := by
  induction refs generalizing tx bc with
  | nil => rfl
  | cons ref refs ih =>
    have hrest := ih (writeHead lib ref.block tx) { bc with currentBlock := ref }
    refine bind_eq_ok_iff.mpr ⟨_, _, rfl, ?_⟩
    rw [List.getLastD_cons]
    simpa [writeHeads, insertBranch] using hrest

theorem writeHeadBlock_complete (t : StateTables S) (rewards : Address → Option Uint256)
    (ref : BlockRef) (bc : BlockChain) :
    run (script lib (.writeHeadBlock false ref)) (worldOf t rewards bc) = worldOf t rewards
        ((writeHeadBlock lib none ref : Action BlockChain ReorgError Database) bc).2 := by
  rfl

theorem reorg_complete {fuel : Nat} {oldBlock newBlock : BlockRef} {level walk : Walk}
    {bc mid last : BlockChain} (t : StateTables S) (rewards : Address → Option Uint256)
    (hreduce : reduce lib fuel ⟨oldBlock, newBlock, [], []⟩ bc = (.ok level, mid))
    (hback : loop .outOfFuel (stepBack lib mid.chainDB) fuel level mid = (.ok walk, last))
    (hfuel : 2 ≤ fuel)
    (hnext : (planOf lib bc.chainDB walk).number.toNat + 1 < 2 ^ 64) :
    ∃ bc', reorg lib fuel none oldBlock newBlock bc = (.ok (), bc') ∧
      run (script lib (.reorg false (planOf lib bc.chainDB walk))) (worldOf t rewards bc) =
        worldOf t rewards bc' := by
  have hmid : durable mid = durable bc := by
    have hkept : durable (reduce lib fuel ⟨oldBlock, newBlock, [], []⟩ bc).2 = durable bc :=
      keeps_reduce fuel _ bc
    rwa [hreduce] at hkept
  have hlast : durable last = durable mid := by
    have hkept : durable (loop .outOfFuel (stepBack lib mid.chainDB) fuel level mid).2 =
        durable mid :=
      keeps_stepBack mid.chainDB fuel level mid
    rwa [hback] at hkept
  obtain ⟨hdb, -⟩ := Prod.mk.inj hmid
  obtain ⟨-, hhead⟩ := Prod.mk.inj (hlast.trans hmid)
  let plan := planOf lib bc.chainDB walk
  let tx := plan.dropped.foldl (fun tx hash => tx.deleteTxLookupEntry hash)
    (writeHeads lib (plan.branch.map BlockRef.block).reverse bc.chainDB)
  let inserted := { last with currentBlock := plan.branch.getLastD last.currentBlock }
  have htruncate : loop .outOfFuel truncateMarkers fuel (plan.number, tx) inserted =
      (.ok (trim plan.number tx), inserted) :=
    stable_loop _ hfuel (loop_truncateMarkers inserted fun _ => hnext)
  refine ⟨{ inserted with chainDB := trim plan.number tx }, ?_, ?_⟩
  · unfold reorg
    rw [bind_of_eq_ok hreduce, get_bind]
    refine (bind_of_eq_ok hback).trans ?_
    have hinsert : insertBranch lib bc.chainDB plan.branch last = _ :=
      insertBranch_run bc.chainDB plan.branch last
    rw [Option.getD_none, hdb]
    refine (bind_of_eq_ok hinsert).trans ?_
    refine (bind_of_eq_ok htruncate).trans ?_
    rfl
  · have heffect : effect (reorgCalls lib plan) (worldOf t rewards bc).disk =
        ⟨trim plan.number tx, t, rewards⟩ := by
      rw [reorgCalls, effect_append, effect_append, effect_append, effect_reads, effect_branch,
        effect_drops]
      exact effect_markerCalls rfl
    change run (own (reorgCalls lib plan)) (worldOf t rewards bc) = _
    have hmemory : (worldOf t rewards bc).memory = last.currentBlock := hhead.symm
    rw [run_own (plain_reorgCalls plan), heffect, stores_reorgCalls, hmemory]
    rfl

theorem reorg_complete_toyChain :
    ∃ fuel plan bc', reorg toyPrimitives fuel none ⟨1, toyOldest⟩ ⟨2, toyNew⟩
        (toyChain [toyOldest, toyOld]) = (.ok (), bc') ∧
      run (script toyPrimitives (.reorg false plan))
          (worldOf toyGenesisNode.tables (fun _ => none) (toyChain [toyOldest, toyOld])) =
        worldOf toyGenesisNode.tables (fun _ => none) bc' := by
  obtain ⟨fuel, level, mid, walk, last, hreduce, hmid, hback, -, hwalk⟩ :=
    walksEnd_of_longer (@isFork_toyChain [toyOldest, toyOld] _ (by decide +kernel)
      (by decide) (by simp [toyBlocks]) rfl rfl) (by decide +kernel)
  refine ⟨fuel + 2, _, reorg_complete _ _ (stable_reduce _ (by omega) hreduce)
    (stable_loop _ (by omega) (hmid ▸ hback)) (by omega) ?_⟩
  rw [show (planOf toyPrimitives _ walk).number = _ from nextNumber_eq (by decide +kernel) hwalk]
  decide

variable {o : BlockOutcome S}

theorem writeOutcome_receipts {number : Nat} {t u : StateTables S}
    (h : t.writeOutcome number o = some u) (hnone : o.receipts.isEmpty = true) :
    u.log = t.log ∧ u.receipts = t.receipts := by
  rw [StateTables.writeOutcome, if_pos hnone] at h
  simp only [StateTables.writeChangeSets, Option.bind_eq_bind, Option.bind_some,
    Option.bind_eq_some_iff, Option.pure_def, Option.some.injEq] at h
  obtain ⟨account, -, storage, -, rfl⟩ := h
  exact ⟨rfl, rfl⟩

theorem storeBlock_complete {b : Block} {node stored : Node S} (rewards : Address → Option Uint256)
    (h : storeBlock lib b o node = (.ok (), stored)) :
    ∃ e : Effects S, e.hasReceipts = !o.receipts.isEmpty ∧
      effect (storeCalls lib b e) ⟨node.db, node.tables, rewards⟩ =
        ⟨stored.db, stored.tables, rewards⟩ := by
  rcases storeBlock_cases lib b o node with
    ⟨e, hstore, -⟩ | ⟨ptd, difficulty, tables, -, -, htables, hstore⟩
  · rw [hstore] at h
    cases h
  rw [hstore] at h
  cases h
  refine ⟨⟨ptd + difficulty, !o.receipts.isEmpty, tables, []⟩, rfl, ?_⟩
  cases hempty : o.receipts.isEmpty with
  | false => rfl
  | true =>
    obtain ⟨hlog, hreceipts⟩ := writeOutcome_receipts htables hempty
    change (⟨_, { tables with log := node.tables.log, receipts := node.tables.receipts }, _⟩ :
      Disk S) = _
    rw [← hlog, ← hreceipts]
    rfl

def uncached (node : Node S) : BlockChain × StateTables S :=
  (node.chain, node.tables)

theorem uncached_getTd (hash : Hash) (number : UInt64) (node : Node S) :
    uncached (node.getTd hash number).2 = uncached node := by
  unfold Node.getTd
  rcases node.tdCache.get hash with ⟨_ | td, cache⟩
  · rfl
  · rfl

theorem keeps_uncached_reorgNeeded (coin : Bool) (current header : Block) :
    Keeps (uncached (S := S)) (reorgNeeded lib coin current header) :=
  keeps_bind (keeps_ofState (uncached_getTd _ _)) fun _ =>
    keeps_bind (keeps_ofState (uncached_getTd _ _)) fun _ =>
      keeps_bind (keeps_require _ _) fun _ => keeps_bind (keeps_require _ _) fun _ =>
        keeps_pure _

end Complete

end N42.FailingWrites
