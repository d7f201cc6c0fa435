import N42.ChainWriting
import N42.ReorgCorrectness

/-!
When a block can be written next to the blocks that are already there.  Receipts, logs
and change sets are appended under the number of the block alone, so a second block at a
height, or a block below the highest one, may come too late.
-/

namespace N42.CompetingBlocks

open ChainTypes HeaderSealing ChainDatabase ChainReorg ReorgCorrectness
open LruCaches AppendTables StatefulActions StatefulActions.Action Deposits
open ChainWriting

variable {S : Type}

theorem pairwise_logKeys (number : Nat) (receipts : List (List ContractLog)) :
    (logKeys number receipts).Pairwise (· < ·) := by
  refine List.pairwise_map.mpr (List.Pairwise.imp ?_ (List.pairwise_lt_range.filter _))
  intro a b hab
  exact Prod.Lex.toLex_lt_toLex.mpr (.inr ⟨rfl, hab⟩)

theorem pairwise_numbered {κ : Type*} [LinearOrder κ] {keys : List κ}
    (h : keys.Pairwise (· < ·)) (number : Nat) :
    (keys.map fun key => toLex (number, key)).Pairwise (· < ·) := by
  refine List.pairwise_map.mpr (h.imp ?_)
  intro a b hab
  exact Prod.Lex.toLex_lt_toLex.mpr (.inr ⟨rfl, hab⟩)

/-- The first entry of the block for each table comes after the last entry there. -/
structure Fits (t : StateTables S) (number : Nat) (o : BlockOutcome S) : Prop where
  log : ∀ first ∈ (logKeys number o.receipts).head?, t.log.Below first
  receipts : o.receipts ≠ [] → t.receipts.Below number
  account : ∀ first ∈ o.accountChanges.head?, t.accountChangeSet.Below (toLex (number, first))
  storage : ∀ first ∈ o.storageChanges.head?, t.storageChangeSet.Below (toLex (number, first))

theorem appendReceipts_isSome_iff (t : StateTables S) (number : Nat)
    (receipts : List (List ContractLog)) :
    (t.appendReceipts number receipts).isSome ↔
      (∀ first ∈ (logKeys number receipts).head?, t.log.Below first) ∧ t.receipts.Below number := by
  rw [← AppendTable.appendAll_isSome_iff (pairwise_logKeys number receipts),
    StateTables.appendReceipts]
  cases t.log.appendAll (logKeys number receipts) with
  | none => simp
  | some log =>
    by_cases h : t.receipts.Below number
    · simp [AppendTable.append, h]
    · simp [AppendTable.append, h]

theorem writeChangeSets_isSome_iff (t : StateTables S) (number : Nat) (o : BlockOutcome S) :
    (t.writeChangeSets number o).isSome ↔
      (∀ first ∈ o.accountChanges.head?, t.accountChangeSet.Below (toLex (number, first))) ∧
        ∀ first ∈ o.storageChanges.head?, t.storageChangeSet.Below (toLex (number, first)) := by
  have haccount := AppendTable.appendAll_isSome_iff (t := t.accountChangeSet)
    (pairwise_numbered o.account_sorted number)
  have hstorage := AppendTable.appendAll_isSome_iff (t := t.storageChangeSet)
    (pairwise_numbered o.storage_sorted number)
  simp only [List.head?_map, Option.mem_def, Option.map_eq_some_iff, forall_exists_index,
    and_imp, forall_apply_eq_imp_iff₂] at haccount hstorage
  simp only [Option.mem_def, ← haccount, ← hstorage, StateTables.writeChangeSets]
  cases t.accountChangeSet.appendAll (o.accountChanges.map fun entry => toLex (number, entry)) with
  | none => simp
  | some account =>
    cases t.storageChangeSet.appendAll
        (o.storageChanges.map fun entry => toLex (number, entry)) with
    | none => simp
    | some storage => simp

theorem appendReceipts_changeSets {t u : StateTables S} {number : Nat}
    {receipts : List (List ContractLog)} (h : t.appendReceipts number receipts = some u) :
    u.accountChangeSet = t.accountChangeSet ∧ u.storageChangeSet = t.storageChangeSet := by
  simp only [StateTables.appendReceipts, Option.bind_eq_bind, Option.bind_eq_some_iff,
    Option.pure_def, Option.some.injEq] at h
  obtain ⟨log, -, keys, -, rfl⟩ := h
  exact ⟨rfl, rfl⟩

theorem writeOutcome_isSome_iff (t : StateTables S) (number : Nat) (o : BlockOutcome S) :
    (t.writeOutcome number o).isSome ↔ Fits t number o := by
  rw [StateTables.writeOutcome]
  by_cases hempty : o.receipts = []
  · have hkeys : logKeys number [] = [] := rfl
    rw [if_pos (List.isEmpty_iff.mpr hempty), Option.bind_eq_bind, Option.bind_some,
      writeChangeSets_isSome_iff]
    constructor
    · rintro ⟨haccount, hstorage⟩
      refine ⟨?_, fun hne => absurd hempty hne, haccount, hstorage⟩
      rw [hempty, hkeys]
      exact nofun
    · intro h
      exact ⟨h.account, h.storage⟩
  · have hreceipts := appendReceipts_isSome_iff t number o.receipts
    rw [if_neg (mt List.isEmpty_iff.mp hempty), Option.bind_eq_bind]
    cases happend : t.appendReceipts number o.receipts with
    | none =>
      rw [happend] at hreceipts
      simp only [Option.bind_none, Option.isSome_none, Bool.false_eq_true, false_iff] at hreceipts ⊢
      intro h
      exact hreceipts ⟨h.log, h.receipts hempty⟩
    | some u =>
      obtain ⟨haccount, hstorage⟩ := appendReceipts_changeSets happend
      rw [happend] at hreceipts
      obtain ⟨hlog, hnumber⟩ := hreceipts.mp rfl
      rw [Option.bind_some, writeChangeSets_isSome_iff]
      simp only [haccount, hstorage]
      constructor
      · rintro ⟨haccount, hstorage⟩
        exact ⟨hlog, fun _ => hnumber, haccount, hstorage⟩
      · intro h
        exact ⟨h.account, h.storage⟩

section Imports

variable {lib : Primitives} {coin : Bool} {node : Node S} {ref : BlockRef} {o : BlockOutcome S}

/-- A block that passed the checks, on a parent with a total difficulty, while no missing
difficulty is remembered for the block or for the head. -/
structure Ready (lib : Primitives) (node : Node S) (b : Block) : Prop where
  parent : (node.db.readTd b.parentHash (b.number64 - 1)).isSome
  difficulty : b.header.difficulty.isSome
  head : (node.db.readTd (node.chain.currentBlock.block.hash lib)
    node.chain.currentBlock.block.number64).isSome
  cached : ∀ entry ∈ node.tdCache, entry.2.isSome

def Importable (lib : Primitives) (coin : Bool) (node : Node S) (ref : BlockRef)
    (o : BlockOutcome S) : Prop :=
  ∃ fuel status next, writeBlockWithState lib fuel coin ref o node = (.ok status, next)

/-- If the stored block is to become the head without being a child of it, the chain can
be reorganised. -/
def Reorganisable (lib : Primitives) (coin : Bool) (stored : Node S) (ref : BlockRef) : Prop :=
  ∀ next, reorgNeeded lib coin stored.chain.currentBlock.block ref.block stored = (.ok true, next) →
    ref.block.parentHash ≠ stored.chain.currentBlock.block.hash lib →
    ∃ fuel bc, reorg lib fuel none stored.chain.currentBlock ref next.chain = (.ok (), bc)

theorem storeBlock_ok_iff (h : Ready lib node ref.block) :
    (∃ stored, storeBlock lib ref.block o node = (.ok (), stored)) ↔
      Fits node.tables ref.block.number64.toNat o := by
  obtain ⟨ptd, hptd⟩ := Option.isSome_iff_exists.mp h.parent
  obtain ⟨difficulty, hdifficulty⟩ := Option.isSome_iff_exists.mp h.difficulty
  rw [← writeOutcome_isSome_iff, Option.isSome_iff_exists]
  simp only [storeBlock, bind_eq_ok_iff, get_eq_ok_iff, require_eq_ok_iff, modify_eq_ok_iff]
  constructor
  · rintro ⟨stored, _, _, ⟨rfl, rfl⟩, _, _, ⟨-, rfl⟩, _, _, ⟨-, rfl⟩, tables, _, ⟨ht, rfl⟩, -⟩
    exact ⟨tables, ht⟩
  · rintro ⟨tables, ht⟩
    exact ⟨_, node, node, ⟨rfl, rfl⟩, ptd, node, ⟨hptd, rfl⟩, difficulty, node,
      ⟨hdifficulty, rfl⟩, tables, node, ⟨ht, rfl⟩, rfl⟩

theorem keeps_currentBlock_storeBlock (lib : Primitives) (b : Block) (o : BlockOutcome S) :
    Keeps (fun node => node.chain.currentBlock) (storeBlock lib b o) := by
  refine keeps_bind keeps_get fun node => keeps_bind (keeps_require _ _) fun ptd =>
    keeps_bind (keeps_require _ _) fun difficulty => keeps_bind (keeps_require _ _) fun tables =>
      keeps_modify fun _ => rfl

theorem writeBlockWithState_of_error {fuel : Nat} {e : WriteError}
    (h : (storeBlock lib ref.block o node).1 = .error e) :
    (writeBlockWithState lib fuel coin ref o node).1 = .error e := by
  change (Action.bind _ _ node).1 = _
  rw [Action.bind]
  revert h
  rcases storeBlock lib ref.block o node with ⟨_ | _, next⟩
  · intro h
    cases h
    rfl
  · intro h
    cases h

def NoneMissing (node : Node S) : Prop :=
  ∀ entry ∈ node.tdCache, entry.2.isSome

theorem getTd_chain (hash : Hash) (number : UInt64) (node : Node S) :
    (node.getTd hash number).2.chain = node.chain := by
  unfold Node.getTd
  rcases node.tdCache.get hash with ⟨found | td, cache⟩
  · rfl
  · rfl

theorem getTd_isSome {hash : Hash} {number : UInt64} (hcached : NoneMissing node)
    (hstored : (node.db.readTd hash number).isSome) :
    (node.getTd hash number).1.isSome ∧ NoneMissing (node.getTd hash number).2 := by
  unfold Node.getTd
  have hcache (entry) (hentry : entry ∈ (node.tdCache.get hash).2) : entry.2.isSome :=
    hcached entry (LruCache.mem_of_mem_get hentry)
  have hfound (td) (htd : (node.tdCache.get hash).1 = some td) : td.isSome :=
    hcached _ (LruCache.mem_of_get_eq_some htd)
  generalize node.tdCache.get hash = got at hcache hfound ⊢
  rcases got with ⟨_ | td, cache⟩
  · refine ⟨hstored, ?_⟩
    intro entry hentry
    rcases LruCache.mem_of_mem_add hentry with rfl | hold
    · exact hstored
    · exact hcache entry hold
  · exact ⟨hfound td rfl, hcache⟩

theorem reorgNeeded_ok {current header : Block} (hcached : NoneMissing node)
    (hcurrent : (node.db.readTd (current.hash lib) current.number64).isSome)
    (hheader : (node.db.readTd (header.hash lib) header.number64).isSome) :
    ∃ needed next, reorgNeeded lib coin current header node = (.ok needed, next) ∧
      next.chain = node.chain := by
  obtain ⟨hlocal, hcached'⟩ := getTd_isSome hcached hcurrent
  have hchain := getTd_chain (current.hash lib) current.number64 node
  have hheader' : ((node.getTd (current.hash lib) current.number64).2.db.readTd
      (header.hash lib) header.number64).isSome := by
    rw [Node.db, hchain]
    exact hheader
  obtain ⟨hexternal, -⟩ := getTd_isSome hcached' hheader'
  obtain ⟨localTd, hlocal⟩ := Option.isSome_iff_exists.mp hlocal
  obtain ⟨externTd, hexternal⟩ := Option.isSome_iff_exists.mp hexternal
  refine ⟨prefers coin current header localTd externTd,
    (Node.getTd (header.hash lib) header.number64
      (node.getTd (current.hash lib) current.number64).2).2, ?_, ?_⟩
  · simp only [reorgNeeded, bind_eq_ok_iff, ofState_eq_ok_iff, require_eq_ok_iff, pure_eq_ok_iff]
    exact ⟨some localTd, _, Prod.ext hlocal rfl, some externTd, _, Prod.ext hexternal rfl,
      localTd, _, ⟨rfl, rfl⟩, externTd, _, ⟨rfl, rfl⟩, rfl, rfl⟩
  · rw [getTd_chain, hchain]

theorem storeBlock_ready {stored : Node S} (h : Ready lib node ref.block)
    (hstore : storeBlock lib ref.block o node = (.ok (), stored)) :
    NoneMissing stored ∧ stored.chain.currentBlock = node.chain.currentBlock ∧
      (stored.db.readTd (node.chain.currentBlock.block.hash lib)
        node.chain.currentBlock.block.number64).isSome ∧
      (stored.db.readTd (ref.block.hash lib) ref.block.number64).isSome := by
  simp only [storeBlock, bind_eq_ok_iff, get_eq_ok_iff, require_eq_ok_iff,
    modify_eq_ok_iff] at hstore
  obtain ⟨_, _, ⟨rfl, rfl⟩, ptd, _, ⟨-, rfl⟩, difficulty, _, ⟨-, rfl⟩, tables, _, ⟨-, rfl⟩,
    rfl⟩ := hstore
  refine ⟨h.cached, rfl, ?_, ?_⟩
  · simp only [Node.db, Database.readTd, Database.writeTd, Database.writeBlock,
      Function.update_apply]
    split_ifs
    · rfl
    · exact h.head
  · simp only [Node.db, Database.readTd, Database.writeTd, Database.writeBlock,
      Function.update_self, Option.isSome_some]

theorem reorganisable_of_child
    (h : ref.block.parentHash = node.chain.currentBlock.block.hash lib) :
    Reorganisable lib coin (storeBlock lib ref.block o node).2 ref := by
  have hcurrent : (storeBlock lib ref.block o node).2.chain.currentBlock =
      node.chain.currentBlock :=
    keeps_currentBlock_storeBlock lib ref.block o node
  intro next _ hparent
  rw [← hcurrent] at h
  exact absurd h hparent

end Imports

def toyOutcome : BlockOutcome Unit where
  post := ()
  receipts := [[]]
  accountChanges := []
  account_sorted := List.Pairwise.nil
  storageChanges := []
  storage_sorted := List.Pairwise.nil

def toyGenesisNode : Node Unit where
  chain :=
    { chainDB := writeHead toyPrimitives toyGenesis
        ((Database.empty.writeTd (toyGenesis.hash toyPrimitives) 0 0).writeBlock toyPrimitives
          toyGenesis)
      blockCache := []
      currentBlock := ⟨1, toyGenesis⟩
      nextPointer := 10 }
  tables := ⟨(), .empty, .empty, .empty, .empty⟩
  tdCache := []

def toyFirstNode : Node Unit :=
  (writeBlockWithState toyPrimitives 0 false ⟨2, toyOld⟩ toyOutcome toyGenesisNode).2

theorem ready_toyGenesisNode : Ready toyPrimitives toyGenesisNode toyOld :=
  ⟨by decide +kernel, by decide, by decide +kernel, nofun⟩

end N42.CompetingBlocks
