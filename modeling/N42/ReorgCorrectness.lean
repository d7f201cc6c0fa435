import N42.HeaderSealing
import N42.ReorgTables
import N42.ReorgWalks

/-!
When a reorganisation succeeds, and when the tables then describe the new chain.
-/

namespace N42.ReorgCorrectness

open ChainTypes HeaderSealing ChainDatabase StatefulActions.Action
open ChainReorg StoredChains ReorgTables ReorgWalks

variable {lib : Primitives} {tx : Option Database} {bc : BlockChain}
variable {oldBlock newBlock : BlockRef} {shared oldBranch newBranch : List Block}

/-- `oldBlock` and `newBlock` are the heads of two stored branches over a shared chain,
all listed from the head down, and the database describes the old chain.  The blocks are
stored both where the cache reads and in the transaction. -/
structure IsFork (lib : Primitives) (tx : Option Database) (bc : BlockChain)
    (oldBlock newBlock : BlockRef) (shared oldBranch newBranch : List Block) : Prop where
  nonempty : shared ≠ []
  oldChained : Chained lib (oldBranch ++ shared)
  newChained : Chained lib (newBranch ++ shared)
  oldLength : (oldBranch ++ shared).length < 2 ^ 64
  newLength : (newBranch ++ shared).length < 2 ^ 64
  oldHead : (oldBranch ++ shared).head? = some oldBlock.block
  newHead : (newBranch ++ shared).head? = some newBlock.block
  diverge : ∀ o ∈ oldBranch.getLast?, ∀ n ∈ newBranch.getLast?, o.hash lib ≠ n.hash lib
  oldStored : ∀ db ∈ [bc.chainDB, tx.getD bc.chainDB], Stored lib db (oldBranch ++ shared)
  newStored : ∀ db ∈ [bc.chainDB, tx.getD bc.chainDB], Stored lib db (newBranch ++ shared)
  described : Describes lib (tx.getD bc.chainDB) (oldBranch ++ shared)
  sound : Sound oldBlock bc
  identity : newBlock.numberPointer = oldBlock.numberPointer → newBlock.block = oldBlock.block

/-- The walks end at the last shared block with the whole new branch collected and all
transactions of the old branch. -/
structure Collected (lib : Primitives) (shared oldBranch newBranch : List Block)
    (walk : Walk) : Prop where
  common : shared.head? = some walk.oldBlock.block
  newChain : walk.newChain.map BlockRef.block = newBranch
  deletedTxs : walk.deletedTxs = oldBranch.flatMap (Block.txHashes lib)

/-- With enough fuel both walks end, and they collect the two branches. -/
def WalksEnd (lib : Primitives) (tx : Option Database) (bc : BlockChain)
    (oldBlock newBlock : BlockRef) (shared oldBranch newBranch : List Block) : Prop :=
  ∃ fuel level mid walk bc', reduce lib fuel ⟨oldBlock, newBlock, [], []⟩ bc = (.ok level, mid) ∧
    mid.chainDB = bc.chainDB ∧
    loop .outOfFuel (stepBack lib (tx.getD bc.chainDB)) fuel level mid = (.ok walk, bc') ∧
    bc'.chainDB = bc.chainDB ∧ Collected lib shared oldBranch newBranch walk

theorem stable_reduce (w : Walk) : Stable fun fuel => reduce lib fuel w := by
  unfold reduce
  split
  · exact stable_loop w
  · exact stable_loop w

section

variable (hfork : IsFork lib tx bc oldBlock newBlock shared oldBranch newBranch)
include hfork

theorem walksEnd_of_longer (hlonger : newBlock.block.number64 < oldBlock.block.number64) :
    WalksEnd lib tx bc oldBlock newBlock shared oldBranch newBranch := by
  obtain ⟨common, below, rfl⟩ := List.exists_cons_of_ne_nil hfork.nonempty
  have hnew := hfork.newChained.head_number64_toNat hfork.newLength.le hfork.newHead
  have hlengths : newBranch.length < oldBranch.length := by
    have hold := hfork.oldChained.head_number64_toNat hfork.oldLength.le hfork.oldHead
    rw [UInt64.lt_iff_toNat_lt] at hlonger
    simp only [List.length_append] at hold hnew
    omega
  obtain ⟨dropped, olds, rfl, holds⟩ :
      ∃ dropped olds, oldBranch = dropped ++ olds ∧ olds.length = newBranch.length :=
    ⟨oldBranch.take (oldBranch.length - newBranch.length),
      oldBranch.drop (oldBranch.length - newBranch.length), (List.take_append_drop _ _).symm,
      by rw [List.length_drop]; omega⟩
  have hassoc : dropped ++ olds ++ common :: below = dropped ++ (olds ++ common :: below) :=
    List.append_assoc _ _ _
  have hchained := hfork.oldChained
  have hlen := hfork.oldLength
  have hhead := hfork.oldHead
  have hstored := hfork.oldStored
  rw [hassoc] at hchained hlen hhead hstored
  obtain ⟨parent, mid, hreduce, hparent, hmid⟩ :=
    loop_reduceOld (w := ⟨oldBlock, newBlock, [], []⟩) (by simp) hchained hlen.le
      (hstored _ List.mem_cons_self) hfork.sound hhead
      (by simp only [List.length_append, holds] at hnew ⊢; exact hnew)
  have hstoredOld : Stored lib (tx.getD bc.chainDB) (olds ++ common :: below) :=
    fun b hb => hstored (tx.getD bc.chainDB) (by simp) b (List.mem_append_right _ hb)
  have hstoredNew : Stored lib (tx.getD bc.chainDB) (newBranch ++ common :: below) :=
    hfork.newStored (tx.getD bc.chainDB) (by simp)
  have hdiverge : ∀ o ∈ olds.getLast?, ∀ n ∈ newBranch.getLast?, o.hash lib ≠ n.hash lib := by
    intro o ho
    refine hfork.diverge o ?_
    rw [List.getLast?_append, Option.mem_def.mp ho]
    rfl
  obtain ⟨walk, bc', hback, hcommon, hnewChain, htxs, hdb⟩ :=
    loop_stepBack (w := ⟨parent, newBlock, [], [] ++ dropped.flatMap (Block.txHashes lib)⟩) holds
      (Chained.of_append hchained) hfork.newChained hstoredOld hstoredNew hdiverge hparent
      hfork.newHead
  have hreduced : reduce lib (dropped.length + 1) ⟨oldBlock, newBlock, [], []⟩ bc = _ :=
    (congrFun (if_pos hlonger) bc).trans hreduce
  refine ⟨dropped.length + olds.length + 1, _, mid, walk, bc',
    stable_reduce _ (by omega) hreduced, hmid, stable_loop _ (by omega) hback,
    hdb.trans hmid, congrArg some hcommon.symm, hnewChain, ?_⟩
  rw [htxs, List.flatMap_append, List.nil_append]

theorem oldBranch_eq_nil {passed below : List Block}
    (hsplit : newBranch ++ shared = passed ++ oldBlock.block :: below) :
    oldBranch = [] ∧ passed = newBranch := by
  have hold := hfork.oldChained.head_number64_toNat hfork.oldLength.le hfork.oldHead
  have hbelowChained : Chained lib (oldBlock.block :: below) :=
    Chained.of_append (hsplit ▸ hfork.newChained)
  have hlengths := congrArg List.length hsplit
  have hbelow : oldBlock.block.number64.toNat = below.length := by
    refine hbelowChained.number64_toNat ?_
    have := hfork.newLength
    simp only [List.length_append, List.length_cons] at hlengths this
    omega
  cases oldBranch with
  | nil =>
    refine ⟨rfl, (List.append_inj hsplit ?_).1.symm⟩
    simp only [List.nil_append, List.length_append, List.length_cons] at hold hlengths
    omega
  | cons o olds =>
    have ho : o = oldBlock.block := by simpa using hfork.oldHead
    have hlong : shared.length ≤ below.length := by
      simp only [List.cons_append, List.length_cons, List.length_append] at hold
      omega
    obtain ⟨news, rfl⟩ : shared <:+ below :=
      List.suffix_of_suffix_length_le ⟨newBranch, rfl⟩
        ⟨passed ++ [oldBlock.block], by simp [hsplit]⟩ hlong
    obtain rfl : newBranch = passed ++ oldBlock.block :: news :=
      List.append_cancel_right (hsplit.trans (by simp))
    subst ho
    have hlen : olds.length = news.length := by
      simp only [List.cons_append, List.length_cons, List.length_append] at hold hbelow
      omega
    have hstored := hfork.oldStored bc.chainDB (by simp)
    have hstored' := hfork.newStored bc.chainDB (by simp)
    refine absurd rfl (hash_ne_of_getLast hlen hfork.oldChained hbelowChained
      (fun b hb => hstored b (List.mem_append_left _ hb))
      (fun b hb => hstored' b (List.mem_append_left _ (List.mem_append_right _ hb))) ?_)
    refine hfork.diverge _ (List.getLast?_eq_getLast_of_ne_nil _) _ ?_
    rw [List.getLast?_append, List.getLast?_eq_getLast_of_ne_nil (List.cons_ne_nil _ _)]
    rfl

theorem walksEnd_of_meets (hlonger : ¬ newBlock.block.number64 < oldBlock.block.number64)
    (hmeets : Meets bc oldBlock newBlock) :
    WalksEnd lib tx bc oldBlock newBlock shared oldBranch newBranch := by
  obtain ⟨steps, found, hget, hfound⟩ := hmeets
  obtain ⟨level, mid, passed, below, hloop, hsplit, hold, hnew, hnewChain, htxs, hmid⟩ :=
    loop_reduceNew (w := ⟨oldBlock, newBlock, [], []⟩) hfork.newChained
      (hfork.newStored bc.chainDB (by simp)) hfork.sound hfork.newHead hfork.identity hget hfound
  obtain ⟨rfl, rfl⟩ := oldBranch_eq_nil hfork hsplit
  have hreduced : reduce lib (steps + 1) ⟨oldBlock, newBlock, [], []⟩ bc = (.ok level, mid) :=
    (congrFun (if_neg hlonger) bc).trans hloop
  have hblocks : level.oldBlock.block.hash lib = level.newBlock.block.hash lib := by
    rw [hold, hnew]
  refine ⟨steps + 1, level, mid, level, mid, hreduced, hmid,
    loop_of_done _ (stepBack_done hblocks), hmid, ?_, hnewChain, htxs⟩
  rw [hold]
  exact hfork.oldHead

end

theorem stable_reorg : Stable fun fuel => reorg lib fuel tx oldBlock newBlock := by
  unfold reorg
  refine stable_bind (stable_reduce _) fun level => ?_
  refine stable_bind (stable_const _) fun bc => ?_
  refine stable_bind (stable_loop _) fun walk => ?_
  refine stable_bind (stable_const _) fun tx => ?_
  exact stable_bind (stable_loop _) fun tx => stable_const _

theorem nextNumber_eq {walk : Walk} (hchain : Chained lib (newBranch.tail ++ shared))
    (hwalk : Collected lib shared oldBranch newBranch walk) :
    (walk.newChain[1]?.getD walk.oldBlock).block.number64 + 1 =
      UInt64.ofNat (newBranch.tail ++ shared).length := by
  have hhead : (newBranch.tail ++ shared).head? =
      some (walk.newChain[1]?.getD walk.oldBlock).block := by
    rw [← hwalk.newChain]
    rcases walk.newChain with _ | ⟨first, _ | ⟨second, rest⟩⟩
    · exact hwalk.common
    · exact hwalk.common
    · rfl
  obtain ⟨rest, hrest⟩ := List.head?_eq_some_iff.mp hhead
  rw [hrest] at hchain ⊢
  rw [hchain.number64_eq, List.length_cons]
  apply UInt64.toBitVec_inj.mp
  simp

theorem reorg_of_walksEnd
    (hfork : IsFork lib tx bc oldBlock newBlock shared oldBranch newBranch)
    (hwalks : WalksEnd lib tx bc oldBlock newBlock shared oldBranch newBranch) :
    ∃ fuel bc' deleted, reorg lib fuel tx oldBlock newBlock bc = (.ok (), bc') ∧
      bc'.chainDB = reorganised lib deleted newBranch.tail shared (tx.getD bc.chainDB) ∧
      ∀ hash, hash ∈ deleted ↔ hash ∈ oldBranch.flatMap (Block.txHashes lib) ∧
        hash ∉ newBranch.tail.flatMap (Block.txHashes lib) := by
  obtain ⟨fuel, level, mid, walk, last, hreduce, hmid, hback, hlast, hwalk⟩ := hwalks
  obtain ⟨inserted, hinsert, -⟩ :=
    @insertBranch_eq lib (tx.getD bc.chainDB) walk.newChain.tail.reverse last
  have hbranch : walk.newChain.tail.map BlockRef.block = newBranch.tail := by
    rw [List.map_tail, hwalk.newChain]
  rw [List.map_reverse, List.reverse_reverse, hbranch] at hinsert
  have hchained := hfork.newChained.tail_append
  have hlen : (newBranch.tail ++ shared).length < 2 ^ 64 := by
    have := hfork.newLength
    simp only [List.length_append, List.length_tail] at this ⊢
    omega
  let deleted := hashDifference walk.deletedTxs
    (walk.newChain.tail.reverse.flatMap fun ref => ref.block.txHashes lib)
  let final := reorganised lib deleted newBranch.tail shared (tx.getD bc.chainDB)
  refine ⟨fuel + 2, { inserted with chainDB := final }, deleted, ?_, rfl, ?_⟩
  · refine bind_eq_ok_iff.mpr ⟨level, mid, stable_reduce _ (by omega) hreduce, ?_⟩
    refine bind_eq_ok_iff.mpr ⟨mid, mid, rfl, ?_⟩
    rw [hmid]
    refine bind_eq_ok_iff.mpr ⟨walk, last, stable_loop _ (by omega) hback, ?_⟩
    refine bind_eq_ok_iff.mpr ⟨_, inserted, hinsert, ?_⟩
    refine bind_eq_ok_iff.mpr ⟨final, inserted, ?_, rfl⟩
    rw [nextNumber_eq hchained hwalk]
    refine stable_loop _ (by omega) (loop_truncateMarkers inserted fun hread => ?_)
    -- A hash is found there only if the old chain is longer, and that chain is bounded.
    have hnumber := UInt64.toNat_ofNat_of_lt' hlen
    by_contra hbound
    refine hread ((readCanonicalHash_above hchained hlen hnumber.ge).trans
      (hfork.described.above _ ?_))
    have := hfork.oldLength
    omega
  · intro hash
    rw [← hbranch, ← hwalk.deletedTxs, List.flatMap_map]
    simp [deleted, hashDifference]

theorem longer_or_meets_of_reorg {fuel : Nat} {bc' : BlockChain}
    (h : reorg lib fuel tx oldBlock newBlock bc = (.ok (), bc')) :
    newBlock.block.number64 < oldBlock.block.number64 ∨ Meets bc oldBlock newBlock := by
  by_cases hlonger : newBlock.block.number64 < oldBlock.block.number64
  · exact Or.inl hlonger
  · obtain ⟨level, mid, hreduce, -⟩ := bind_eq_ok_iff.mp h
    have hloop : loop .outOfFuel reduceNew fuel ⟨oldBlock, newBlock, [], []⟩ bc =
        (.ok level, mid) :=
      (congrFun (if_neg hlonger) bc).symm.trans hreduce
    exact Or.inr (meets_of_loop hloop)

/-- A reorganisation between two stored branches succeeds and leaves the tables describing
the new chain below its head if and only if the old chain is longer, or the walk back from
the new head meets the old head as the same object in memory, and no transaction of the
dropped branch also lies on the shared chain, unless the new branch brings it back. -/
theorem reorg_describes_iff
    (hfork : IsFork lib tx bc oldBlock newBlock shared oldBranch newBranch) :
    (∃ fuel bc', reorg lib fuel tx oldBlock newBlock bc = (.ok (), bc') ∧
        Describes lib bc'.chainDB (newBranch.tail ++ shared)) ↔
      (newBlock.block.number64 < oldBlock.block.number64 ∨ Meets bc oldBlock newBlock) ∧
      ∀ hash ∈ oldBranch.flatMap (Block.txHashes lib), hash ∈ shared.flatMap (Block.txHashes lib) →
        hash ∈ newBranch.tail.flatMap (Block.txHashes lib) := by
  have hlen : (newBranch.tail ++ shared).length < 2 ^ 64 := by
    have := hfork.newLength
    simp only [List.length_append, List.length_tail] at this ⊢
    omega
  have hresult : (newBlock.block.number64 < oldBlock.block.number64 ∨
      Meets bc oldBlock newBlock) → ∃ fuel bc',
      reorg lib fuel tx oldBlock newBlock bc = (.ok (), bc') ∧
      (Describes lib bc'.chainDB (newBranch.tail ++ shared) ↔
        ∀ hash ∈ oldBranch.flatMap (Block.txHashes lib),
          hash ∈ shared.flatMap (Block.txHashes lib) →
          hash ∈ newBranch.tail.flatMap (Block.txHashes lib)) := by
    intro hcondition
    have hwalks : WalksEnd lib tx bc oldBlock newBlock shared oldBranch newBranch := by
      by_cases hlonger : newBlock.block.number64 < oldBlock.block.number64
      · exact walksEnd_of_longer hfork hlonger
      · exact walksEnd_of_meets hfork hlonger (hcondition.resolve_left hlonger)
    obtain ⟨fuel, bc', deleted, hreorg, hdb, hdeleted⟩ := reorg_of_walksEnd hfork hwalks
    refine ⟨fuel, bc', hreorg, ?_⟩
    rw [hdb]
    exact describes_reorganised_iff hfork.nonempty hfork.newChained.tail_append hdeleted
      hfork.oldChained hlen hfork.described
  constructor
  · rintro ⟨fuel, bc', hreorg, hdescribes⟩
    have hcondition := longer_or_meets_of_reorg hreorg
    obtain ⟨fuel', bc'', hreorg', hiff⟩ := hresult hcondition
    obtain ⟨-, rfl⟩ := stable_reorg.unique hreorg hreorg'
    exact ⟨hcondition, hiff.mp hdescribes⟩
  · rintro ⟨hcondition, hfree⟩
    obtain ⟨fuel, bc', hreorg, hiff⟩ := hresult hcondition
    exact ⟨fuel, bc', hreorg, hiff.mpr hfree⟩

def toyBlock (number difficulty : Nat) (parentHash : Hash) : Block where
  header := { toyHeader number difficulty (toyAddress 1) with parentHash := parentHash }
  transactions := []
  verifiers := []
  rewards := []

def toyGenesis : Block := toyBlock 0 1 default

def toyOld : Block := toyBlock 1 1 (toyGenesis.hash toyPrimitives)

def toyNew : Block := toyBlock 1 2 (toyGenesis.hash toyPrimitives)

def toyOldest : Block := toyBlock 2 1 (toyOld.hash toyPrimitives)

def toyBlocks : List Block := [toyOldest, toyOld, toyNew, toyGenesis]

def toyChain (branch : List Block) : BlockChain where
  chainDB := writeHeads toyPrimitives (branch ++ [toyGenesis])
    (storeAll toyPrimitives toyBlocks Database.empty)
  blockCache := []
  currentBlock := ⟨1, toyGenesis⟩
  nextPointer := 3

theorem toyBlocks_nodup : (toyBlocks.map (Block.hash toyPrimitives)).Nodup := by
  decide +kernel

theorem stored_toyChain (branch : List Block) :
    Stored toyPrimitives (toyChain branch).chainDB toyBlocks := by
  have hstored : ∀ b ∈ toyBlocks, (storeAll toyPrimitives toyBlocks Database.empty).readBlock
      (b.hash toyPrimitives) b.number64 = some b := by
    decide +kernel
  intro b hb
  rw [toyChain, readBlock_writeHeads]
  exact hstored b hb

theorem sound_toyChain (branch : List Block) (b : Block) : Sound ⟨1, b⟩ (toyChain branch) := by
  refine ⟨?_, nofun, (by decide : 1 < 3), nofun⟩
  intro hash m n x y hx hy
  rw [toyChain, readBlock_writeHeads] at hx hy
  obtain ⟨hx, hxHash⟩ := (readBlock_storeAll hx).resolve_right nofun
  obtain ⟨hy, hyHash⟩ := (readBlock_storeAll hy).resolve_right nofun
  exact List.inj_on_of_nodup_map toyBlocks_nodup hx hy (hxHash.trans hyHash.symm)

theorem describes_toyChain {branch : List Block}
    (hchain : Chained toyPrimitives (branch ++ [toyGenesis]))
    (hlen : (branch ++ [toyGenesis]).length ≤ 2 ^ 64) :
    Describes toyPrimitives (toyChain branch).chainDB (branch ++ [toyGenesis]) := by
  have hgenesis : Describes toyPrimitives (writeHeads toyPrimitives [toyGenesis]
      (storeAll toyPrimitives toyBlocks Database.empty)) [toyGenesis] := by
    rw [writeHeads, List.foldr_cons, List.foldr_nil]
    refine ⟨?_, ?_, ?_, ?_⟩
    · intro b hb
      obtain rfl := List.mem_singleton.mp hb
      rw [readCanonicalHash_writeHead, if_pos rfl]
    · intro number hnumber
      rw [readCanonicalHash_writeHead, if_neg]
      · rfl
      · rintro rfl
        exact absurd hnumber (by decide)
    · simp [toyGenesis, toyBlock, Block.txHashes]
    · intro hash number hread
      have hnone : (none : Option UInt64) = some number := hread
      simp at hnone
  rw [toyChain, writeHeads, List.foldr_append]
  exact describes_writeHeads (by simp) hchain hlen hgenesis

theorem isFork_toyChain {branch : List Block} {b : Block}
    (hchain : Chained toyPrimitives (branch ++ [toyGenesis])) (hlen : branch.length < 3)
    (hmem : ∀ c ∈ branch, c ∈ toyBlocks) (hlast : branch.getLast? = some toyOld)
    (hhead : (branch ++ [toyGenesis]).head? = some b) :
    IsFork toyPrimitives none (toyChain branch) ⟨1, b⟩ ⟨2, toyNew⟩ [toyGenesis] branch
      [toyNew] := by
  have hlength : (branch ++ [toyGenesis]).length < 2 ^ 64 := by
    simp only [List.length_append, List.length_singleton]
    omega
  have hstored : ∀ blocks : List Block, (∀ c ∈ blocks, c ∈ toyBlocks) →
      ∀ db ∈ [(toyChain branch).chainDB, (toyChain branch).chainDB],
        Stored toyPrimitives db (blocks ++ [toyGenesis]) := by
    intro blocks hblocks db hdb c hc
    obtain rfl : db = (toyChain branch).chainDB := by simpa using hdb
    refine stored_toyChain branch c ?_
    rcases List.mem_append.mp hc with hc | hc
    · exact hblocks c hc
    · simp_all [toyBlocks]
  exact {
    nonempty := by simp
    oldChained := hchain
    newChained := by decide +kernel
    oldLength := hlength
    newLength := by decide
    oldHead := hhead
    newHead := rfl
    diverge := by
      intro o ho n hn
      obtain rfl : toyOld = o := Option.some.inj (hlast.symm.trans ho)
      obtain rfl : toyNew = n := Option.some.inj hn
      decide +kernel
    oldStored := hstored branch hmem
    newStored := hstored [toyNew] (by simp [toyBlocks])
    described := describes_toyChain hchain hlength.le
    sound := sound_toyChain branch b
    identity := nofun }

theorem reorg_to_shorter_branch :
    IsFork toyPrimitives none (toyChain [toyOldest, toyOld]) ⟨1, toyOldest⟩ ⟨2, toyNew⟩
        [toyGenesis] [toyOldest, toyOld] [toyNew] ∧
      ∃ fuel bc', reorg toyPrimitives fuel none ⟨1, toyOldest⟩ ⟨2, toyNew⟩
          (toyChain [toyOldest, toyOld]) = (.ok (), bc') ∧
        Describes toyPrimitives bc'.chainDB [toyGenesis] := by
  have hfork : IsFork toyPrimitives none (toyChain [toyOldest, toyOld]) ⟨1, toyOldest⟩
      ⟨2, toyNew⟩ [toyGenesis] [toyOldest, toyOld] [toyNew] :=
    isFork_toyChain (by decide +kernel) (by decide) (by simp [toyBlocks]) rfl rfl
  exact ⟨hfork, (reorg_describes_iff hfork).mpr ⟨Or.inl (by decide +kernel), nofun⟩⟩

/-- Both heads have number one.  The walk compares the addresses of the two numbers, runs
past the first block and fails. -/
theorem reorg_of_equal_height_fails :
    IsFork toyPrimitives none (toyChain [toyOld]) ⟨1, toyOld⟩ ⟨2, toyNew⟩ [toyGenesis]
        [toyOld] [toyNew] ∧
      (reorg toyPrimitives 3 none ⟨1, toyOld⟩ ⟨2, toyNew⟩ (toyChain [toyOld])).1 =
        .error .invalidNewChain :=
  ⟨isFork_toyChain (by decide +kernel) (by decide) (by simp [toyBlocks]) rfl rfl,
    by decide +kernel⟩

end N42.ReorgCorrectness
