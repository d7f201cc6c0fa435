import N42.TotalDifficulty

/-!
Receipts are stored by the number of their block and asked for by its hash.  Over any run of
imports, what is found for a hash are the receipts of the block that has appended its own
under the same number.
-/

namespace N42.ReceiptLookups

open ChainTypes HeaderSealing ChainDatabase ChainReorg ReorgCorrectness
open AppendTables StatefulActions StatefulActions.Action ChainWriting
open CompetingBlocks SideChains TotalDifficulty

variable {S ρ : Type}

/-- A node with the values of its table of receipts; no receipts are stored as no entry. -/
structure ReceiptNode (S ρ : Type) where
  node : Node S
  receipts : UInt64 → List ρ

def appended (lib : Primitives) (imp : Import S) (node : Node S) : Option Block :=
  match imp with
  | .execute _ _ ref o =>
    if (storeBlock lib ref.block o node).1.isOk && !o.receipts.isEmpty then some ref.block
    else none
  | _ => none

namespace ReceiptNode

def perform (lib : Primitives) (receiptsOf : Hash → List ρ) (imp : Import S)
    (s : ReceiptNode S ρ) : ReceiptNode S ρ where
  node := (imp.perform lib s.node).2
  receipts :=
    match appended lib imp s.node with
    | none => s.receipts
    | some b => Function.update s.receipts b.number64 (receiptsOf (b.hash lib))

def readBlockByHash (hash : Hash) (s : ReceiptNode S ρ) : Option Block :=
  match s.node.db.headerNumber hash with
  | none => none
  | some number => s.node.db.readBlock hash number

/-- The canonical hash of the number is read as well, but not compared with the one that is
asked for. -/
def readReceiptsByHash (hash : Hash) (s : ReceiptNode S ρ) : List ρ :=
  match s.readBlockByHash hash with
  | none => []
  | some b => s.receipts b.number64

end ReceiptNode

/-- An executed block has one list of logs for each of its receipts. -/
def Matches (lib : Primitives) (receiptsOf : Hash → List ρ) : Import S → Prop
  | .execute _ _ ref o => o.receipts.length = (receiptsOf (ref.block.hash lib)).length
  | _ => True

/-- The runs of a node, with the blocks that have appended their receipts.  A step that
fails leaves what it has written. -/
inductive Imports (lib : Primitives) (receiptsOf : Hash → List ρ) (first : ReceiptNode S ρ) :
    ReceiptNode S ρ → List Block → Prop where
  | start : Imports lib receiptsOf first first []
  | step {s : ReceiptNode S ρ} {executed : List Block} (imp : Import S)
      (before : Imports lib receiptsOf first s executed) (hmatch : Matches lib receiptsOf imp) :
      Imports lib receiptsOf first (s.perform lib receiptsOf imp)
        ((appended lib imp s.node).toList ++ executed)

/-- For every stored block the receipts of its execution are found, or none if it is not
canonical. -/
def Exact (receiptsOf : Hash → List ρ) (s : ReceiptNode S ρ) : Prop :=
  ∀ hash b, s.readBlockByHash hash = some b → s.readReceiptsByHash hash = receiptsOf hash ∨
      s.readReceiptsByHash hash = [] ∧ s.node.db.isCanonicalHash hash = false

section Tables

variable {lib : Primitives} {node : Node S}

theorem keeps_onChain {α : Type} (x : Action BlockChain ReorgError α) :
    Keeps (fun node : Node S => node.tables) (Node.onChain x) :=
  fun _ => rfl

theorem keeps_getTd (hash : Hash) (number : UInt64) :
    Keeps (fun node : Node S => node.tables)
      (ofState (Node.getTd hash number) : Action (Node S) WriteError _) := by
  refine keeps_ofState fun node => ?_
  unfold Node.getTd
  rcases node.tdCache.get hash with ⟨found | td, cache⟩ <;> rfl

section

variable (lib : Primitives)

theorem keeps_reorgNeeded (coin : Bool) (current header : Block) :
    Keeps (fun node : Node S => node.tables) (reorgNeeded lib coin current header) :=
  keeps_bind (keeps_getTd _ _) fun _ => keeps_bind (keeps_getTd _ _) fun _ =>
    keeps_bind (keeps_require _ _) fun _ => keeps_bind (keeps_require _ _) fun _ => keeps_pure _

theorem keeps_importSideBlock (current : BlockRef) (w : SideWalk) (ref : BlockRef) :
    Keeps (fun node : Node S => node.tables) (importSideBlock lib current w ref) := by
  have hrival : Keeps (fun node : Node S => node.tables) (rival current ref) := by
    unfold rival
    split
    · refine keeps_ofState fun node => ?_
      unfold SideChains.Node.getBlockByNumber
      split <;> rfl
    · exact keeps_pure none
  have hside : Keeps (fun node : Node S => node.tables) (sideTd w ref.block) := by
    unfold sideTd
    split
    · exact keeps_bind (keeps_getTd _ _) fun _ => keeps_require _ _
    · exact keeps_pure _
  have hstore : Keeps (fun node : Node S => node.tables) (storeSideBlock lib ref.block) := by
    refine keeps_bind keeps_get fun node => ?_
    split
    · exact keeps_pure ()
    · exact keeps_modify fun _ => rfl
  refine keeps_bind hrival fun canonical => ?_
  split
  · exact keeps_bind (keeps_getTd _ _) fun _ => keeps_bind (keeps_require _ _) fun _ =>
      keeps_pure _
  · exact keeps_bind (keeps_failIf _ _) fun _ => keeps_bind hside fun _ =>
      keeps_bind (keeps_require _ _) fun _ => keeps_bind hstore fun _ => keeps_pure _

theorem keeps_insertSideChain (fuel : Nat) (coin : Bool) (first : BlockRef) (rest : List BlockRef) :
    Keeps (fun node : Node S => node.tables) (insertSideChain lib fuel coin first rest) := by
  refine keeps_bind keeps_get fun node =>
    keeps_bind (keeps_foldlM (keeps_importSideBlock lib _) _ _) fun w =>
      keeps_bind (keeps_reorgNeeded _ _ _ _) fun needed => ?_
  split
  · refine keeps_loop (fun walk => ?_) fuel _
    refine keeps_bind (keeps_require _ _) fun parent => keeps_bind keeps_get fun node => ?_
    split
    · exact keeps_pure _
    · exact keeps_pure _
  · exact keeps_bind (keeps_getTd _ _) fun _ => keeps_pure _

theorem keeps_skipKnown (current : BlockRef) (refs : List (Bool × BlockRef)) :
    Keeps (fun node : Node S => node.tables) (skipKnown lib current refs) := by
  induction refs with
  | nil => exact keeps_pure []
  | cons entry rest ih =>
    refine keeps_bind (keeps_reorgNeeded _ _ _ _) fun needed =>
      keeps_bind keeps_get fun node => ?_
    split
    · exact keeps_pure _
    · exact ih

theorem keeps_insertKnown (fuel : Nat) (refs : List (Bool × BlockRef)) :
    Keeps (fun node : Node S => node.tables) (insertKnown lib fuel refs) := by
  refine keeps_bind keeps_get fun node => keeps_bind (keeps_skipKnown _ _ _) fun remaining =>
    keeps_forM (fun ref => ?_) remaining
  refine keeps_bind keeps_get fun node => ?_
  split
  · exact keeps_bind (keeps_onChain _) fun _ => keeps_fail _
  · exact keeps_bind (keeps_onChain _) fun _ => keeps_pure _

end

theorem tables_writeBlockWithState (fuel : Nat) (coin : Bool) (ref : BlockRef)
    (o : BlockOutcome S) :
    (writeBlockWithState lib fuel coin ref o node).2.tables =
      (storeBlock lib ref.block o node).2.tables := by
  unfold writeBlockWithState
  rcases bind_cases (storeBlock lib ref.block o) _ node with
    ⟨e, t, hstore, hwrite⟩ | ⟨⟨⟩, t, hstore, hwrite⟩
  · rw [hwrite, hstore]
  · rw [hwrite, hstore]
    refine keeps_bind (f := fun node : Node S => node.tables) keeps_get (fun node => ?_) t
    refine keeps_bind (keeps_reorgNeeded _ _ _ _) fun needed => ?_
    have hhead : Keeps (fun node : Node S => node.tables) (do
        let _ ← Node.onChain (writeHeadBlock lib none ref)
        return WriteStatus.canonStatTy) :=
      keeps_bind (keeps_onChain _) fun _ => keeps_pure _
    split
    · dsimp only
      split
      · exact keeps_bind (keeps_onChain _) fun _ => hhead
      · exact hhead
    · exact keeps_pure _

theorem receipts_of_writeOutcome {t u : StateTables S} {number : Nat} {o : BlockOutcome S}
    (h : t.writeOutcome number o = some u) :
    o.receipts = [] ∧ u.receipts = t.receipts ∨
      o.receipts ≠ [] ∧ t.receipts.Below number ∧ u.receipts.keys = number :: t.receipts.keys := by
  have hchanges {t u : StateTables S} (h : t.writeChangeSets number o = some u) :
      u.receipts = t.receipts := by
    simp only [StateTables.writeChangeSets, Option.bind_eq_bind, Option.bind_eq_some_iff,
      Option.pure_def, Option.some.injEq] at h
    obtain ⟨account, -, storage, -, rfl⟩ := h
    rfl
  rw [StateTables.writeOutcome] at h
  by_cases hempty : o.receipts = []
  · left
    rw [if_pos (List.isEmpty_iff.mpr hempty), Option.bind_eq_bind, Option.bind_some] at h
    exact ⟨hempty, hchanges (t := { t with plain := o.post }) h⟩
  · right
    rw [if_neg (mt List.isEmpty_iff.mp hempty), Option.bind_eq_bind, Option.bind_eq_some_iff] at h
    obtain ⟨next, hnext, hu⟩ := h
    simp only [StateTables.appendReceipts, Option.bind_eq_bind, Option.bind_eq_some_iff,
      Option.pure_def, Option.some.injEq] at hnext
    obtain ⟨log, -, receipts, hreceipts, rfl⟩ := hnext
    obtain ⟨hbelow, hkeys⟩ := AppendTable.append_eq_some_iff.mp hreceipts
    exact ⟨hempty, hbelow, (congrArg AppendTable.keys (hchanges hu)).trans hkeys⟩

theorem perform_receipts (lib : Primitives) (imp : Import S) (node : Node S) :
    (∃ b, appended lib imp node = some b ∧ b.number64.toNat ∉ node.tables.receipts.keys ∧
        (imp.perform lib node).2.tables.receipts.keys =
          b.number64.toNat :: node.tables.receipts.keys) ∨ appended lib imp node = none ∧
        (imp.perform lib node).2.tables.receipts.keys = node.tables.receipts.keys := by
  have hkept {x : Action (Node S) WriteError (List Block)}
      (hx : Keeps (fun node : Node S => node.tables) x) :
      (x node).2.tables.receipts.keys = node.tables.receipts.keys :=
    congrArg (fun t : StateTables S => t.receipts.keys) (hx node)
  cases imp with
  | execute fuel coin ref o =>
    have htables : ((Import.execute fuel coin ref o).perform lib node).2.tables =
        (storeBlock lib ref.block o node).2.tables := by
      rw [← tables_writeBlockWithState fuel coin]
      rcases bind_cases (writeBlockWithState lib fuel coin ref o)
          (fun _ => pure [ref.block]) node with
        ⟨e, t, hwrite, hperform⟩ | ⟨status, t, hwrite, hperform⟩
      · rw [hwrite, Import.perform, hperform]
      · rw [hwrite, Import.perform, hperform]
        rfl
    rw [htables, appended]
    rcases storeBlock_cases lib ref.block o node with
      ⟨e, hstore, -⟩ | ⟨ptd, difficulty, tables, -, -, hwritten, hstore⟩
    · rw [hstore]
      exact .inr ⟨rfl, rfl⟩
    · rw [hstore]
      rcases receipts_of_writeOutcome hwritten with
        ⟨hempty, hsame⟩ | ⟨hempty, hbelow, hkeys⟩
      · right
        rw [hempty]
        exact ⟨rfl, congrArg AppendTable.keys hsame⟩
      · refine .inl ⟨ref.block, ?_, fun hmem => lt_irrefl _ (hbelow.lt hmem), hkeys⟩
        have hnot : o.receipts.isEmpty = false := List.isEmpty_eq_false_iff.mpr hempty
        rw [hnot]
        rfl
  | sideChain fuel coin first rest =>
    exact .inr ⟨rfl, hkept (keeps_bind (keeps_insertSideChain _ _ _ _ _) fun _ => keeps_pure _)⟩
  | known fuel refs =>
    exact .inr ⟨rfl, hkept (keeps_bind (keeps_insertKnown _ _ _) fun _ => keeps_pure _)⟩
  | getTd hash number =>
    exact .inr ⟨rfl, hkept (keeps_bind (keeps_getTd _ _) fun _ => keeps_pure _)⟩
  | getBlock hash number =>
    exact .inr ⟨rfl, hkept (keeps_bind (keeps_ofState fun _ => rfl) fun _ => keeps_pure _)⟩

end Tables

section Runs

variable {lib : Primitives} {receiptsOf : Hash → List ρ} {first s : ReceiptNode S ρ}
  {executed : List Block}

/-- The stored receipts are those of the blocks that have appended their own. -/
structure Recorded (lib : Primitives) (receiptsOf : Hash → List ρ) (s : ReceiptNode S ρ)
    (executed : List Block) : Prop where
  own : ∀ c ∈ executed, s.receipts c.number64 = receiptsOf (c.hash lib) ∧
    receiptsOf (c.hash lib) ≠ []
  absent : ∀ number, (∀ c ∈ executed, c.number64 ≠ number) → s.receipts number = []
  listed : ∀ c ∈ executed, c.number64.toNat ∈ s.node.tables.receipts.keys

theorem receiptsOf_ne_nil {imp : Import S} {node : Node S} {b : Block}
    (hmatch : Matches lib receiptsOf imp) (h : appended lib imp node = some b) :
    receiptsOf (b.hash lib) ≠ [] := by
  cases imp with
  | execute fuel coin ref o =>
    rw [appended] at h
    split at h
    case isFalse => cases h
    case isTrue hstored =>
      cases h
      intro hnil
      have hlength : o.receipts.length = (receiptsOf (ref.block.hash lib)).length := hmatch
      rw [hnil, List.length_nil, List.length_eq_zero_iff] at hlength
      rw [hlength] at hstored
      simp at hstored
  | sideChain | known | getTd | getBlock => cases h

theorem Recorded.perform {imp : Import S} (h : Recorded lib receiptsOf s executed)
    (hmatch : Matches lib receiptsOf imp) :
    Recorded lib receiptsOf (s.perform lib receiptsOf imp)
      ((appended lib imp s.node).toList ++ executed) := by
  rcases perform_receipts lib imp s.node with ⟨b, hb, hfresh, hkeys⟩ | ⟨hnone, hkeys⟩
  · -- The number of the new block is not among the old ones.
    have hother : ∀ c ∈ executed, c.number64 ≠ b.number64 :=
      fun c hc hnumber => hfresh (hnumber ▸ h.listed c hc)
    have hreceipts : (s.perform lib receiptsOf imp).receipts =
        Function.update s.receipts b.number64 (receiptsOf (b.hash lib)) := by
      rw [ReceiptNode.perform, hb]
    rw [hb, Option.toList_some, List.singleton_append]
    constructor
    · intro c hc
      rw [hreceipts]
      rcases List.mem_cons.mp hc with rfl | hc
      · exact ⟨Function.update_self _ _ _, receiptsOf_ne_nil hmatch hb⟩
      · rw [Function.update_of_ne (hother c hc)]
        exact h.own c hc
    · intro number hnumber
      rw [hreceipts, Function.update_of_ne (hnumber b List.mem_cons_self).symm]
      exact h.absent number fun c hc => hnumber c (List.mem_cons_of_mem b hc)
    · intro c hc
      rw [ReceiptNode.perform, hkeys]
      rcases List.mem_cons.mp hc with rfl | hc
      · exact List.mem_cons_self
      · exact List.mem_cons_of_mem _ (h.listed c hc)
  · have hreceipts : (s.perform lib receiptsOf imp).receipts = s.receipts := by
      rw [ReceiptNode.perform, hnone]
    rw [hnone]
    refine ⟨?_, ?_, ?_⟩
    · rw [hreceipts]
      exact h.own
    · rw [hreceipts]
      exact h.absent
    · rw [ReceiptNode.perform, hkeys]
      exact h.listed

theorem recorded_of_imports (hfirst : ∀ number, first.receipts number = [])
    (h : Imports lib receiptsOf first s executed) : Recorded lib receiptsOf s executed := by
  induction h with
  | start => exact ⟨nofun, fun number _ => hfirst number, nofun⟩
  | step imp _ hmatch ih => exact ih.perform hmatch

def toyReceiptsOf (hash : Hash) : List Nat :=
  if hash = toyNew.hash toyPrimitives then [7] else []

def toyStart : ReceiptNode Unit Nat :=
  ⟨toyGenesisNode, fun _ => []⟩

def toyBoth : ReceiptNode Unit Nat :=
  (toyStart.perform toyPrimitives toyReceiptsOf (.execute 0 false ⟨2, toyNew⟩ toyOutcome)).perform
    toyPrimitives toyReceiptsOf (.execute 0 false ⟨3, toyOld⟩ toyEmptyOutcome)

theorem imports_toyBoth : ∃ executed, Imports toyPrimitives toyReceiptsOf toyStart toyBoth
    executed := by
  refine ⟨_, .step _ (.step _ .start ?_) ?_⟩
  · change 1 = (toyReceiptsOf (toyNew.hash toyPrimitives)).length
    rw [toyReceiptsOf, if_pos rfl]
    rfl
  · change 0 = (toyReceiptsOf (toyOld.hash toyPrimitives)).length
    have hne : toyOld.hash toyPrimitives ≠ toyNew.hash toyPrimitives := by decide +kernel
    rw [toyReceiptsOf, if_neg hne]
    rfl

end Runs

end N42.ReceiptLookups
