import N42.ReorgTables

/-!
What a reorganisation leaves alone: the stored blocks and their total difficulties always,
and the head as well if it fails.
-/

namespace N42.ReorgEffects

open ChainTypes ChainDatabase StatefulActions StatefulActions.Action
open ChainReorg ReorgTables

variable {lib : Primitives}

def durable (bc : BlockChain) : Database × BlockRef :=
  (bc.chainDB, bc.currentBlock)

theorem durable_readBlock (tx : Database) (hash : Hash) (number : UInt64) (bc : BlockChain) :
    durable (bc.readBlock tx hash number).2 = durable bc := by
  unfold BlockChain.readBlock
  cases tx.readBlock hash number with
  | none => rfl
  | some b => rfl

theorem durable_getBlock (hash : Hash) (number : UInt64) (bc : BlockChain) :
    durable (bc.getBlock hash number).2 = durable bc := by
  unfold BlockChain.getBlock
  by_cases hzero : hash = default
  · rw [if_pos hzero]
  · rw [if_neg hzero]
    rcases bc.blockCache.get hash with ⟨_ | ref, cache⟩
    · have hread := durable_readBlock bc.chainDB hash number bc
      simp only
      generalize bc.readBlock bc.chainDB hash number = read at hread ⊢
      rcases read with ⟨_ | ref, next⟩
      · exact hread
      · exact hread
    · rfl

theorem keeps_reduce (fuel : Nat) (w : Walk) : Keeps durable (reduce lib fuel w) := by
  unfold reduce
  split
  · refine keeps_loop (fun w => ?_) fuel w
    unfold reduceOld
    split
    · exact keeps_pure _
    · exact keeps_bind (keeps_ofState (durable_getBlock _ _)) fun _ =>
        keeps_bind (keeps_require _ _) fun _ => keeps_pure _
  · refine keeps_loop (fun w => ?_) fuel w
    unfold reduceNew
    split
    · exact keeps_pure _
    · exact keeps_bind (keeps_ofState (durable_getBlock _ _)) fun _ =>
        keeps_bind (keeps_require _ _) fun _ => keeps_pure _

theorem keeps_stepBack (tx : Database) (fuel : Nat) (w : Walk) :
    Keeps durable (loop .outOfFuel (stepBack lib tx) fuel w) := by
  refine keeps_loop (fun w => ?_) fuel w
  unfold stepBack
  split
  · exact keeps_pure _
  · exact keeps_bind (keeps_ofState (durable_readBlock tx _ _)) fun _ =>
      keeps_bind (keeps_ofState (durable_readBlock tx _ _)) fun _ =>
        keeps_bind (keeps_require _ _) fun _ => keeps_bind (keeps_require _ _) fun _ =>
          keeps_pure _

structure SameBlocks (db tx : Database) : Prop where
  blocks : tx.blocks = db.blocks
  headerNumber : tx.headerNumber = db.headerNumber
  td : tx.td = db.td

theorem SameBlocks.refl (db : Database) : SameBlocks db db :=
  ⟨rfl, rfl, rfl⟩

theorem SameBlocks.trans {db tx last : Database} (h : SameBlocks db tx)
    (h' : SameBlocks tx last) : SameBlocks db last :=
  ⟨h'.blocks.trans h.blocks, h'.headerNumber.trans h.headerNumber, h'.td.trans h.td⟩

theorem sameBlocks_writeHead (b : Block) (db : Database) : SameBlocks db (writeHead lib b db) :=
  ⟨rfl, rfl, rfl⟩

theorem sameBlocks_writeHeads (branch : List Block) (db : Database) :
    SameBlocks db (writeHeads lib branch db) := by
  induction branch with
  | nil => exact .refl db
  | cons b branch ih => exact ih.trans (sameBlocks_writeHead b _)

theorem sameBlocks_deleteLookups (hashes : List Hash) (db : Database) :
    SameBlocks db (hashes.foldl (fun tx hash => tx.deleteTxLookupEntry hash) db) := by
  induction hashes generalizing db with
  | nil => exact .refl db
  | cons hash rest ih =>
    exact (⟨rfl, rfl, rfl⟩ : SameBlocks db (db.deleteTxLookupEntry hash)).trans (ih _)

theorem loop_truncateMarkers_cases (fuel : Nat) (marker : UInt64 × Database)
    (bc : BlockChain) :
    (∃ tx, loop .outOfFuel truncateMarkers fuel marker bc = (.ok tx, bc) ∧ SameBlocks marker.2 tx) ∨
      loop .outOfFuel truncateMarkers fuel marker bc = (.error .outOfFuel, bc) := by
  induction fuel generalizing marker with
  | zero => exact .inr rfl
  | succ fuel ih =>
    by_cases hread : marker.2.readCanonicalHash marker.1 = default
    · refine .inl ⟨marker.2, loop_of_done _ ?_, .refl _⟩
      rw [truncateMarkers, if_pos hread]
      rfl
    · have hstep : truncateMarkers marker bc =
          (.ok (.inl (marker.1 + 1, marker.2.truncateCanonicalHash marker.1)), bc) := by
        rw [truncateMarkers, if_neg hread]
        rfl
      rw [loop_of_next _ hstep]
      rcases ih (marker.1 + 1, marker.2.truncateCanonicalHash marker.1) with
        ⟨tx, htx, hsame⟩ | htimeout
      · exact .inl ⟨tx, htx, ⟨hsame.blocks, hsame.headerNumber, hsame.td⟩⟩
      · exact .inr htimeout

/-- The blocks and their difficulties are as before; the head too, if an error is
returned. -/
def Confined (bc : BlockChain) (r : Except ReorgError Unit × BlockChain) : Prop :=
  SameBlocks bc.chainDB r.2.chainDB ∧
    (r.1 = .ok () ∨ r.1 = .error .outOfFuel ∨ r.2.currentBlock = bc.currentBlock)

theorem confined_of_durable {bc next : BlockChain} {r : Except ReorgError Unit}
    (h : durable next = durable bc) : Confined bc (r, next) := by
  obtain ⟨hdb, hhead⟩ := Prod.mk.inj h
  exact ⟨hdb ▸ .refl _, .inr (.inr hhead)⟩

theorem confined_bind {α : Type} {x : Action BlockChain ReorgError α}
    {f : α → Action BlockChain ReorgError Unit} {bc : BlockChain} (hx : Keeps durable x)
    (hf : ∀ a next, durable next = durable bc → Confined bc (f a next)) :
    Confined bc ((x >>= f) bc) := by
  have hkept := hx bc
  rcases bind_cases x f bc with ⟨e, next, hnext, hresult⟩ | ⟨a, next, hnext, hresult⟩
  · rw [hnext] at hkept
    rw [hresult]
    exact confined_of_durable hkept
  · rw [hnext] at hkept
    rw [hresult]
    exact hf a next hkept

theorem confined_congr {bc next : BlockChain} {r : Except ReorgError Unit × BlockChain}
    (h : durable next = durable bc) (hr : Confined next r) : Confined bc r := by
  obtain ⟨hdb, hhead⟩ := Prod.mk.inj h
  rw [Confined, hdb, hhead] at hr
  exact hr

theorem reorg_confined (fuel : Nat) (oldBlock newBlock : BlockRef) (bc : BlockChain) :
    Confined bc (reorg lib fuel none oldBlock newBlock bc) := by
  unfold reorg
  refine confined_bind (keeps_reduce fuel _) fun level mid hmid => confined_congr hmid ?_
  rw [get_bind]
  refine confined_bind (keeps_stepBack _ fuel level) fun walk last hlast => ?_
  -- From here on the database `tx` is filled, which starts as that of the chain.
  obtain ⟨inserted, hinsert, hdb⟩ :=
    @insertBranch_eq lib mid.chainDB walk.newChain.tail.reverse last
  have hkept : inserted.chainDB = mid.chainDB := hdb.trans (Prod.mk.inj hlast).1
  have hsame := (sameBlocks_writeHeads
    (walk.newChain.tail.reverse.map BlockRef.block).reverse mid.chainDB).trans
      (sameBlocks_deleteLookups (hashDifference walk.deletedTxs
        (walk.newChain.tail.reverse.flatMap fun ref => ref.block.txHashes lib))
        (writeHeads lib (walk.newChain.tail.reverse.map BlockRef.block).reverse mid.chainDB))
  simp only [Option.getD_none]
  rw [bind_of_eq_ok hinsert]
  rcases loop_truncateMarkers_cases fuel
      ((walk.newChain[1]?.getD walk.oldBlock).block.number64 + 1, _) inserted with
    ⟨tx, htx, htruncated⟩ | htimeout
  · rw [bind_of_eq_ok htx]
    exact ⟨hsame.trans htruncated, .inl rfl⟩
  · rw [bind_of_eq_error htimeout]
    exact ⟨hkept ▸ .refl _, .inr (.inl rfl)⟩

end N42.ReorgEffects
