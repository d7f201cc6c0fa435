import N42.TotalDifficulty

/-!
The plain state over a run of imports.  A block is executed on the plain state as it is
and its effects are committed before the fork choice, so the state is that of the
canonical chain as long as every executed block extends it.
-/

namespace N42.CanonicalState

open ChainTypes HeaderSealing ChainDatabase ChainReorg ReorgCorrectness
open StatefulActions.Action ChainWriting CompetingBlocks TotalDifficulty

variable {S : Type}

def ancestry (db : Database) : Nat → Block → List Block
  | 0, _ => []
  | n + 1, b =>
    match db.readBlock b.parentHash (b.number64 - 1) with
    | none => [b]
    | some parent => ancestry db n parent ++ [b]

def canonicalChain (db : Database) (head : Block) : List Block :=
  ancestry db head.number64.toNat head

def replay (execute : Block → S → Option (BlockOutcome S)) (s : S) (blocks : List Block) :
    Option S :=
  blocks.foldlM (fun s b => (execute b s).map BlockOutcome.post) s

/-- The plain state is what the blocks of the canonical chain make of the first state. -/
def PlainIsCanonical (execute : Block → S → Option (BlockOutcome S)) (s : S)
    (node : Node S) : Prop :=
  replay execute s (canonicalChain node.db node.chain.currentBlock.block) = some node.tables.plain

/-- Blocks are executed on the plain state; only children of the head are, and they are
heavier than the head. -/
def Straight (lib : Primitives) (execute : Block → S → Option (BlockOutcome S))
    (node : Node S) (accepted : List Block) (imp : Import S) : Prop :=
  Regular lib node accepted imp ∧
    match imp with
    | .execute _ _ ref o =>
      execute ref.block node.tables.plain = some o ∧
        ref.block.parentHash = node.chain.currentBlock.block.hash lib ∧
        ref.block.number64 = node.chain.currentBlock.block.number64 + 1 ∧
        ∀ td difficulty, ref.block.header.difficulty = some difficulty →
          node.db.readTd (node.chain.currentBlock.block.hash lib)
            node.chain.currentBlock.block.number64 = some td → td < td + difficulty
    | _ => True

theorem toNat_succ {number : UInt64} (h : number + 1 ≠ 0) :
    (number + 1).toNat = number.toNat + 1 := by
  have hne : (number + 1).toNat ≠ 0 := fun hzero => h (UInt64.toNat_inj.mp hzero)
  have hlt := number.toNat_lt
  rw [UInt64.toNat_add] at hne ⊢
  simp only [UInt64.reduceToNat] at hne ⊢
  omega

section Ancestry

variable {db tx : Database} {bound : UInt64}

theorem ancestry_congr
    (hkeyed : ∀ hash number b, db.readBlock hash number = some b → b.number64 = number)
    (hsame : ∀ hash number, number < bound → tx.readBlock hash number = db.readBlock hash number)
    {n : Nat} {b : Block} (hn : b.number64.toNat = n) (hb : b.number64 < bound) :
    ancestry tx n b = ancestry db n b := by
  induction n generalizing b with
  | zero => rfl
  | succ n ih =>
    have hbound := UInt64.lt_iff_toNat_lt.mp hb
    have hprevious : (b.number64 - 1).toNat = n := by
      have hone : (1 : UInt64) ≤ b.number64 := by
        rw [UInt64.le_iff_toNat_le, hn]
        exact Nat.succ_le_succ (Nat.zero_le n)
      rw [UInt64.toNat_sub_of_le _ _ hone, hn]
      rfl
    have hlt : b.number64 - 1 < bound := by
      rw [UInt64.lt_iff_toNat_lt, hprevious]
      omega
    rw [ancestry, ancestry, hsame _ _ hlt]
    cases hparent : db.readBlock b.parentHash (b.number64 - 1) with
    | none => rfl
    | some parent =>
      have hnumber := hkeyed _ _ parent hparent
      have hrest := ih (hnumber ▸ hprevious) (hnumber ▸ hlt)
      simp only [hrest]

theorem replay_append (execute : Block → S → Option (BlockOutcome S)) (s : S)
    (blocks : List Block) (b : Block) :
    replay execute s (blocks ++ [b]) =
      (replay execute s blocks).bind fun t => (execute b t).map BlockOutcome.post := by
  simp only [replay, List.foldlM_append, List.foldlM_cons, List.foldlM_nil, bind_pure]
  rfl

end Ancestry

theorem writeChangeSets_plain {t u : StateTables S} {number : Nat} {o : BlockOutcome S}
    (h : t.writeChangeSets number o = some u) : u.plain = t.plain := by
  simp only [StateTables.writeChangeSets, Option.bind_eq_bind, Option.bind_eq_some_iff,
    Option.pure_def, Option.some.injEq] at h
  obtain ⟨account, -, storage, -, rfl⟩ := h
  rfl

theorem writeOutcome_plain {t u : StateTables S} {number : Nat} {o : BlockOutcome S}
    (h : t.writeOutcome number o = some u) : u.plain = o.post := by
  rw [StateTables.writeOutcome] at h
  split at h
  · exact writeChangeSets_plain h
  · obtain ⟨v, -, hv⟩ := Option.bind_eq_some_iff.mp h
    exact writeChangeSets_plain hv

section Steps

variable {lib : Primitives} {execute : Block → S → Option (BlockOutcome S)} {s : S}
  {genesis : Block} {node : Node S} {accepted : List Block}

/-- The head itself is stored, and the plain state is that of its chain. -/
structure Tracked (lib : Primitives) (execute : Block → S → Option (BlockOutcome S)) (s : S)
    (node : Node S) : Prop where
  head : node.db.readBlock (node.chain.currentBlock.block.hash lib)
    node.chain.currentBlock.block.number64 = some node.chain.currentBlock.block
  plain : PlainIsCanonical execute s node

theorem tracked_of_over {next : Node S} (h : Tracked lib execute s node)
    (hnext : Over node.db node.chain.currentBlock node.tables next) :
    Tracked lib execute s next := by
  obtain ⟨hhead, hplain⟩ := h
  constructor
  · rw [hnext.db_eq, hnext.head_eq]
    exact hhead
  · rw [PlainIsCanonical, hnext.db_eq, hnext.head_eq, hnext.tables_eq]
    exact hplain

theorem canonicalChain_child {db tx : Database} {head b : Block}
    (hkeyed : ∀ hash number c, db.readBlock hash number = some c → c.number64 = number)
    (hhead : db.readBlock (head.hash lib) head.number64 = some head)
    (hparent : b.parentHash = head.hash lib) (hnumber : b.number64 = head.number64 + 1)
    (hpos : b.number64 ≠ 0)
    (htx : ∀ hash number, number ≠ b.number64 →
      tx.readBlock hash number = db.readBlock hash number) :
    canonicalChain tx b = canonicalChain db head ++ [b] := by
  have hprevious : b.number64 - 1 = head.number64 := by
    rw [hnumber, UInt64.add_sub_cancel]
  have htoNat : b.number64.toNat = head.number64.toNat + 1 := by
    rw [hnumber] at hpos ⊢
    exact toNat_succ hpos
  have hlt : head.number64 < b.number64 := by
    rw [UInt64.lt_iff_toNat_lt, htoNat]
    exact Nat.lt_succ_self _
  have hread : tx.readBlock b.parentHash (b.number64 - 1) = some head := by
    rw [hprevious, hparent, htx _ _ (UInt64.ne_of_lt hlt)]
    exact hhead
  have hrest : ancestry tx head.number64.toNat head = ancestry db head.number64.toNat head :=
    ancestry_congr hkeyed (fun hash number hn => htx hash number (UInt64.ne_of_lt hn)) rfl hlt
  rw [canonicalChain, htoNat, ancestry, hread, canonicalChain]
  simp only [hrest]

section

variable (hsound : Sound lib genesis node accepted) (h : Tracked lib execute s node)
include hsound h

theorem tracked_execute {fuel : Nat} {coin : Bool} {ref : BlockRef} {o : BlockOutcome S}
    (hstraight : Straight lib execute node accepted (.execute fuel coin ref o)) :
    Tracked lib execute s (writeBlockWithState lib fuel coin ref o node).2 := by
  obtain ⟨hregular, hexecute, hparent, hnumber, hheavy⟩ := hstraight
  have hpos := hregular.1
  rcases writeBlockWithState_cases hsound hregular with
    ⟨e, hresult, -⟩ | ⟨ptd, difficulty, localTd, tables, next, hptd, hd, hlocal, htables, hover,
      hresult⟩
  · rw [hresult]
    exact h
  have hprevious : ref.block.number64 - 1 = node.chain.currentBlock.block.number64 := by
    rw [hnumber, UInt64.add_sub_cancel]
  rw [hparent, hprevious] at hptd
  cases hlocal.symm.trans hptd
  have hneeded : prefers coin node.chain.currentBlock.block ref.block ptd (ptd + difficulty) =
      true := by
    simp [prefers, hheavy ptd difficulty hd hptd]
  rw [hresult, hneeded, afterChoice, if_pos rfl, if_neg (not_not.mpr hparent)]
  -- The block is the new head over the database it was stored in.
  have hdb (hash number) : (writeHead lib ref.block next.db).readBlock hash number =
      (withBlock lib ref.block (ptd + difficulty) node.db).readBlock hash number := by
    rw [hover.db_eq]
    rfl
  constructor
  · change (writeHead lib ref.block next.db).readBlock _ _ = _
    rw [hdb, readBlock_withBlock]
    exact if_pos ⟨rfl, rfl⟩
  · change replay execute s (canonicalChain (writeHead lib ref.block next.db) ref.block) =
      some next.tables.plain
    have hchain : canonicalChain (writeHead lib ref.block next.db) ref.block =
        canonicalChain node.db node.chain.currentBlock.block ++ [ref.block] := by
      refine canonicalChain_child (fun _ _ _ hc => (hsound.consistent.keyed hc).2) h.head hparent
        hnumber hpos fun hash number hne => ?_
      rw [hdb, readBlock_withBlock, if_neg fun hkey => hne hkey.1]
    rw [hchain, replay_append, h.plain, Option.bind_some, hexecute, hover.tables_eq,
      writeOutcome_plain htables]
    rfl

theorem tracked_perform {imp : Import S} (hstraight : Straight lib execute node accepted imp) :
    Tracked lib execute s (imp.perform lib node).2 := by
  cases imp with
  | execute fuel coin ref o =>
    have htracked := tracked_execute hsound h hstraight
    rcases bind_cases (writeBlockWithState lib fuel coin ref o) (fun _ => pure [ref.block]) node
      with ⟨e, next, hwrite, hresult⟩ | ⟨status, next, hwrite, hresult⟩
    · rw [hwrite] at htracked
      exact (congrArg Prod.snd hresult) ▸ htracked
    · rw [hwrite] at htracked
      exact (congrArg Prod.snd hresult) ▸ htracked
  | _ => exact tracked_of_over h (ensures_perform hsound hstraight.1 nofun node hsound.over).1

end

/-- If every executed block is a heavier child of the head, the plain state is in every
state of the run the one that the canonical chain gives. -/
theorem plainIsCanonical_of_run (lib : Primitives)
    (execute : Block → S → Option (BlockOutcome S)) (s : S) (genesis : Block)
    (first node : Node S) (accepted : List Block) (hfirst : IsFirst lib genesis first)
    (hplain : first.tables.plain = s)
    (hrun : Run lib (Straight lib execute) genesis first node accepted) :
    PlainIsCanonical execute s node := by
  suffices h : Sound lib genesis node accepted ∧ Tracked lib execute s node from h.2.plain
  induction hrun with
  | start =>
    refine ⟨sound_first hfirst, ?_, ?_⟩
    · rw [hfirst.head, hfirst.number]
      exact (hfirst.blocks _ _ _).mpr ⟨rfl, rfl, rfl⟩
    · rw [PlainIsCanonical, hfirst.head, canonicalChain, hfirst.number, hplain]
      rfl
  | step imp before hallowed ended ih =>
    exact ⟨(leads_perform ih.1 hallowed.1).2 ended, tracked_perform ih.1 ih.2 hallowed⟩

end Steps

def Executed (execute : Block → S → Option (BlockOutcome S)) (node : Node S)
    (_ : List Block) (imp : Import S) : Prop :=
  ∀ fuel coin ref o, imp = .execute fuel coin ref o → execute ref.block node.tables.plain = some o

def toyExecute (_ : Block) (s : Nat) : Option (BlockOutcome Nat) :=
  some { toyEmptyOutcome with post := s + 1 }

def toyCounting : Node Nat where
  chain := toyGenesisNode.chain
  tables := ⟨0, .empty, .empty, .empty, .empty⟩
  tdCache := []

def toyImport (pointer s : Nat) (b : Block) : Import Nat :=
  .execute 0 false ⟨pointer, b⟩ { toyEmptyOutcome with post := s + 1 }

def toyCounted : Node Nat :=
  ((toyImport 2 0 toyNew).perform toyPrimitives toyCounting).2

theorem isFirst_toyCounting : IsFirst toyPrimitives toyGenesis toyCounting :=
  have h := isFirst_toyGenesisNode
  ⟨h.head, h.number, h.blocks, h.td, rfl⟩

theorem run_toyCounted {allowed : Node Nat → List Block → Import Nat → Prop}
    (h : allowed toyCounting [toyGenesis] (toyImport 2 0 toyNew)) :
    ∃ accepted, Run toyPrimitives allowed toyGenesis toyCounting toyCounted accepted :=
  ⟨_, .step (toyImport 2 0 toyNew) .start h (by decide +kernel)⟩

theorem plainIsCanonical_toyCounted : PlainIsCanonical toyExecute 0 toyCounted := by
  have hregular : Regular toyPrimitives toyCounting [toyGenesis] (toyImport 2 0 toyNew) :=
    regular_toyNew
  have hheavy : ∀ td difficulty, toyNew.header.difficulty = some difficulty →
      toyCounting.db.readTd (toyGenesis.hash toyPrimitives) 0 = some td → td < td + difficulty := by
    intro td difficulty hdifficulty htd
    have hzero : toyCounting.db.readTd (toyGenesis.hash toyPrimitives) 0 = some 0 := by
      decide +kernel
    cases hdifficulty
    cases hzero.symm.trans htd
    decide
  have hstraight : Straight toyPrimitives toyExecute toyCounting [toyGenesis]
      (toyImport 2 0 toyNew) :=
    ⟨hregular, rfl, rfl, rfl, hheavy⟩
  obtain ⟨accepted, hrun⟩ := run_toyCounted hstraight
  exact plainIsCanonical_of_run toyPrimitives toyExecute 0 toyGenesis toyCounting toyCounted
    accepted isFirst_toyCounting rfl hrun

theorem toyOld_facts :
    ((toyImport 3 1 toyOld).perform toyPrimitives toyCounted).1 = .ok [toyOld] ∧
      toyCounted.tables.plain = 1 ∧
      ((toyImport 3 1 toyOld).perform toyPrimitives toyCounted).2.chain.currentBlock.block =
        toyNew ∧
      canonicalChain ((toyImport 3 1 toyOld).perform toyPrimitives toyCounted).2.db toyNew =
        [toyNew] ∧
      ((toyImport 3 1 toyOld).perform toyPrimitives toyCounted).2.tables.plain = 2 := by
  decide +kernel

/-- The lighter child is executed over the heavier one and stays on the side, but its
effect stays in the plain state. -/
theorem side_block_changes_state :
    IsFirst toyPrimitives toyGenesis toyCounting ∧ toyCounting.tables.plain = 0 ∧
      ∃ node accepted, Run toyPrimitives (Executed toyExecute) toyGenesis toyCounting node
          (toyOld :: accepted) ∧
        node.chain.currentBlock.block = toyNew ∧ ¬ PlainIsCanonical toyExecute 0 node := by
  obtain ⟨hok, hone, hhead, hchain, hplain⟩ := toyOld_facts
  obtain ⟨accepted, hcounted⟩ : ∃ accepted, Run toyPrimitives (Executed toyExecute) toyGenesis
      toyCounting toyCounted accepted := by
    refine run_toyCounted fun fuel coin ref o heq => ?_
    cases heq
    rfl
  have hside := hcounted.step (toyImport 3 1 toyOld) (fun fuel coin ref o heq => by
    cases heq
    rw [hone]
    rfl) (by rw [hok]; exact nofun)
  rw [hok] at hside
  refine ⟨isFirst_toyCounting, rfl, _, accepted, hside, hhead, ?_⟩
  rw [PlainIsCanonical, hhead, hchain, hplain]
  decide

end N42.CanonicalState
