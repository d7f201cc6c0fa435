import N42.PoolRuns

/-!
The transactions that come back to the pool with a new head.  Three walks lead from the old
and the new head down to their common ancestor; the transactions they collect are offered to
the pool under its new gas limit, but still under its old fork rules.
-/

namespace N42.PoolResets

open ChainTypes Transactions StatefulActions.Action ChainDatabase
open FloatRounding PoolAdmission PoolReorg AdmissionConditions

variable {π : Type}

/-- A table of blocks by their hashes, in which numbers count up. -/
structure Stored (lib : Primitives) (getBlockByHash : Hash → Option Block) : Prop where
  keyed : ∀ hash b, getBlockByHash hash = some b → b.hash lib = hash
  numbered : ∀ hash b parent, getBlockByHash hash = some b →
    getBlockByHash b.parentHash = some parent →
    b.header.number.toNat = parent.header.number.toNat + 1

def top (path : List Block) (ancestor : Block) : Block :=
  path.head?.getD ancestor

def Branch (getBlockByHash : Hash → Option Block) : List Block → Block → Prop
  | [], _ => True
  | b :: path, ancestor =>
    getBlockByHash b.parentHash = some (top path ancestor) ∧
      Branch getBlockByHash path ancestor

structure Rooted (getBlockByHash : Hash → Option Block) (path : List Block)
    (ancestor : Block) : Prop where
  stored : ∃ hash, getBlockByHash hash = some (top path ancestor)
  branch : Branch getBlockByHash path ancestor

/-- Two heads with the paths to their common ancestor, which have no block in common. -/
structure Fork (lib : Primitives) (getBlockByHash : Hash → Option Block)
    (oldBlock newBlock : Block) (oldPath newPath : List Block) (ancestor : Block) : Prop where
  oldTop : oldBlock = top oldPath ancestor
  newTop : newBlock = top newPath ancestor
  oldRooted : Rooted getBlockByHash oldPath ancestor
  newRooted : Rooted getBlockByHash newPath ancestor
  apart : ∀ b ∈ oldPath, ∀ c ∈ newPath, b.hash lib ≠ c.hash lib

def transactionsOf (path : List Block) : List Transaction :=
  path.flatMap fun b => b.transactions

section Walks

variable {lib : Primitives} {getBlockByHash : Hash → Option Block} {path : List Block}
  {ancestor b : Block}

theorem Rooted.tail (h : Rooted getBlockByHash (b :: path) ancestor) :
    Rooted getBlockByHash path ancestor :=
  ⟨⟨b.parentHash, h.branch.1⟩, h.branch.2⟩

section

variable (hstored : Stored lib getBlockByHash) (h : Rooted getBlockByHash path ancestor)
include hstored h

theorem Rooted.number :
    (top path ancestor).header.number.toNat = ancestor.header.number.toNat + path.length := by
  induction path with
  | nil => rfl
  | cons b path ih =>
    obtain ⟨hash, hhash⟩ := h.stored
    have hnumber : b.header.number.toNat = (top path ancestor).header.number.toNat + 1 :=
      hstored.numbered hash b _ hhash h.branch.1
    change b.header.number.toNat = _
    rw [hnumber, ih h.tail, List.length_cons, Nat.add_assoc]

theorem number_lt_iff {path' : List Block} (h' : Rooted getBlockByHash path' ancestor) :
    (top path ancestor).header.number < (top path' ancestor).header.number ↔
      path.length < path'.length := by
  rw [BitVec.lt_def, h.number hstored, h'.number hstored]
  omega

end

variable {fuel : Nat}

/-- A loop that goes down a path to a given height passes the blocks above it.  The states
are those at each rest of the path, with the transactions passed before. -/
theorem walk_down (state : List Block → List Transaction → Unwinding) {cond : Unwinding → Bool}
    {step : Unwinding → Except WalkFailure Unwinding} {height : Nat}
    (hcond : ∀ path txs, Rooted getBlockByHash path ancestor →
      (cond (state path txs) = true ↔ height < path.length))
    (hstep : ∀ b path txs, Rooted getBlockByHash (b :: path) ancestor →
      step (state (b :: path) txs) = .ok (state path (txs ++ b.transactions)))
    (hpath : Rooted getBlockByHash path ancestor) (txs : List Transaction)
    (hfuel : path.length < fuel) :
    ∃ passed rest, path = passed ++ rest ∧ rest.length = min path.length height ∧
      Rooted getBlockByHash rest ancestor ∧
      walk cond step fuel (state path txs) = .ok (state rest (txs ++ transactionsOf passed)) := by
  induction path generalizing txs fuel with
  | nil =>
    obtain ⟨fuel, rfl⟩ := Nat.exists_eq_succ_of_ne_zero (Nat.ne_of_gt hfuel)
    have hstop : cond (state [] txs) = false := by
      rw [← Bool.not_eq_true, hcond [] txs hpath]
      exact Nat.not_lt_zero _
    refine ⟨[], [], rfl, by simp, hpath, ?_⟩
    rw [walk, hstop, transactionsOf, List.flatMap_nil, List.append_nil]
    rfl
  | cons b path ih =>
    obtain ⟨fuel, rfl⟩ := Nat.exists_eq_succ_of_ne_zero (Nat.ne_of_gt (Nat.zero_lt_of_lt hfuel))
    have hon := hcond (b :: path) txs hpath
    rcases Nat.lt_or_ge height (b :: path).length with habove | hbelow
    · obtain ⟨passed, rest, rfl, hlength, hrest, hwalk⟩ :=
        ih hpath.tail (txs ++ b.transactions) (Nat.lt_of_succ_lt_succ hfuel)
      refine ⟨b :: passed, rest, rfl, ?_, hrest, ?_⟩
      · rw [List.length_cons] at habove ⊢
        omega
      · rw [walk, hon.mpr habove, if_pos rfl, hstep b _ txs hpath]
        refine hwalk.trans ?_
        rw [transactionsOf, transactionsOf, List.flatMap_cons, List.append_assoc]
    · have hstop : cond (state (b :: path) txs) = false := by
        rw [← Bool.not_eq_true, hon]
        exact Nat.not_lt.mpr hbelow
      refine ⟨[], b :: path, rfl, (Nat.min_eq_left hbelow).symm, hpath, ?_⟩
      rw [walk, hstop, transactionsOf, List.flatMap_nil, List.append_nil]
      rfl

variable {discarded included : List Transaction}

theorem dropOld_top {add : Block} (h : Rooted getBlockByHash (b :: path) ancestor) :
    Unwinding.dropOld getBlockByHash ⟨top (b :: path) ancestor, add, discarded, included⟩ =
      .ok ⟨top path ancestor, add, discarded ++ b.transactions, included⟩ := by
  have hparent : getBlockByHash (top (b :: path) ancestor).parentHash =
      some (top path ancestor) := h.branch.1
  rw [Unwinding.dropOld, hparent]
  rfl

theorem dropNew_top {rem : Block} (h : Rooted getBlockByHash (b :: path) ancestor) :
    Unwinding.dropNew getBlockByHash ⟨rem, top (b :: path) ancestor, discarded, included⟩ =
      .ok ⟨rem, top path ancestor, discarded, included ++ b.transactions⟩ := by
  have hparent : getBlockByHash (top (b :: path) ancestor).parentHash =
      some (top path ancestor) := h.branch.1
  rw [Unwinding.dropNew, hparent]
  rfl

variable {oldPath newPath : List Block}

theorem walk_old (hstored : Stored lib getBlockByHash)
    (hold : Rooted getBlockByHash oldPath ancestor) (hnew : Rooted getBlockByHash newPath ancestor)
    (discarded included : List Transaction) (hfuel : oldPath.length < fuel) :
    ∃ passed rest, oldPath = passed ++ rest ∧
      rest.length = min oldPath.length newPath.length ∧ Rooted getBlockByHash rest ancestor ∧
      walk (fun w => w.add.header.number < w.rem.header.number)
          (Unwinding.dropOld getBlockByHash) fuel
          ⟨top oldPath ancestor, top newPath ancestor, discarded, included⟩ =
        .ok ⟨top rest ancestor, top newPath ancestor, discarded ++ transactionsOf passed,
          included⟩ := by
  refine walk_down (fun path txs => ⟨top path ancestor, top newPath ancestor, txs, included⟩)
    ?_ (fun b path txs hpath => dropOld_top hpath) hold discarded hfuel
  intro path txs hpath
  rw [decide_eq_true_iff]
  exact number_lt_iff hstored hnew hpath

theorem walk_new (hstored : Stored lib getBlockByHash)
    (hold : Rooted getBlockByHash oldPath ancestor) (hnew : Rooted getBlockByHash newPath ancestor)
    (discarded included : List Transaction) (hfuel : newPath.length < fuel) :
    ∃ passed rest, newPath = passed ++ rest ∧
      rest.length = min newPath.length oldPath.length ∧ Rooted getBlockByHash rest ancestor ∧
      walk (fun w => w.rem.header.number < w.add.header.number)
          (Unwinding.dropNew getBlockByHash) fuel
          ⟨top oldPath ancestor, top newPath ancestor, discarded, included⟩ =
        .ok ⟨top oldPath ancestor, top rest ancestor, discarded,
          included ++ transactionsOf passed⟩ := by
  refine walk_down (fun path txs => ⟨top oldPath ancestor, top path ancestor, discarded, txs⟩)
    ?_ (fun b path txs hpath => dropNew_top hpath) hnew included hfuel
  intro path txs hpath
  rw [decide_eq_true_iff]
  exact number_lt_iff hstored hold hpath

theorem walk_both (hlength : oldPath.length = newPath.length)
    (hold : Rooted getBlockByHash oldPath ancestor) (hnew : Rooted getBlockByHash newPath ancestor)
    (hapart : ∀ b ∈ oldPath, ∀ c ∈ newPath, b.hash lib ≠ c.hash lib)
    (discarded included : List Transaction) (hfuel : oldPath.length < fuel) :
    walk (fun w => w.rem.hash lib ≠ w.add.hash lib)
        (fun w => w.dropOld getBlockByHash >>= Unwinding.dropNew getBlockByHash) fuel
        ⟨top oldPath ancestor, top newPath ancestor, discarded, included⟩ =
      .ok ⟨ancestor, ancestor, discarded ++ transactionsOf oldPath,
        included ++ transactionsOf newPath⟩ := by
  induction oldPath generalizing newPath discarded included fuel with
  | nil =>
    obtain ⟨fuel, rfl⟩ := Nat.exists_eq_succ_of_ne_zero (Nat.ne_of_gt hfuel)
    obtain rfl := List.eq_nil_of_length_eq_zero hlength.symm
    rw [walk, transactionsOf, List.flatMap_nil, List.append_nil, List.append_nil]
    exact if_neg (by simp)
  | cons b oldPath ih =>
    obtain ⟨fuel, rfl⟩ := Nat.exists_eq_succ_of_ne_zero (Nat.ne_of_gt (Nat.zero_lt_of_lt hfuel))
    obtain ⟨c, newPath, rfl⟩ : ∃ c path, newPath = c :: path :=
      List.exists_cons_of_length_pos (by rw [← hlength]; exact Nat.succ_pos _)
    have hdiffer : (top (b :: oldPath) ancestor).hash lib ≠
        (top (c :: newPath) ancestor).hash lib :=
      hapart b List.mem_cons_self c List.mem_cons_self
    rw [walk, if_pos (decide_eq_true hdiffer), dropOld_top hold]
    change (Unwinding.dropNew getBlockByHash _ >>= _) = _
    rw [dropNew_top hnew]
    refine (ih (Nat.succ_injective hlength) hold.tail hnew.tail
      (fun b hb c hc => hapart b (List.mem_cons_of_mem _ hb) c (List.mem_cons_of_mem _ hc))
      _ _ (Nat.lt_of_succ_lt_succ hfuel)).trans ?_
    rw [transactionsOf, transactionsOf, transactionsOf, transactionsOf, List.flatMap_cons,
      List.flatMap_cons, List.append_assoc, List.append_assoc]

section

variable {oldBlock newBlock : Block} (hstored : Stored lib getBlockByHash)
  (h : Fork lib getBlockByHash oldBlock newBlock oldPath newPath ancestor)
include hstored h

theorem Fork.oldPath_eq_nil (hparent : oldBlock.hash lib = newBlock.parentHash) : oldPath = [] := by
  obtain ⟨hash, hold⟩ := h.oldRooted.stored
  obtain ⟨hash', hnew⟩ := h.newRooted.stored
  rw [← h.oldTop] at hold
  rw [← h.newTop] at hnew
  have hkey : getBlockByHash newBlock.parentHash = some oldBlock := by
    rw [← hparent, hstored.keyed hash oldBlock hold]
    exact hold
  have hnumber := hstored.numbered hash' newBlock oldBlock hnew hkey
  have holdNumber := h.oldRooted.number hstored
  rw [← h.oldTop] at holdNumber
  have hnewNumber := h.newRooted.number hstored
  rw [← h.newTop] at hnewNumber
  obtain ⟨c, newPath, rfl⟩ : ∃ c path, newPath = c :: path :=
    List.exists_cons_of_length_pos (by omega)
  -- the parent of the new head is the rest of its path, and the old head is not on it
  have hrest : top newPath ancestor = oldBlock := by
    have hbranch : getBlockByHash newBlock.parentHash = some (top newPath ancestor) := by
      rw [h.newTop]
      exact h.newRooted.branch.1
    exact Option.some.inj (hbranch.symm.trans hkey)
  cases newPath with
  | nil =>
    rw [List.length_singleton] at hnewNumber
    refine List.eq_nil_of_length_eq_zero ?_
    omega
  | cons d newPath =>
    cases oldPath with
    | nil => rfl
    | cons b oldPath =>
      have hb : oldBlock = b := h.oldTop
      have hd : d = oldBlock := hrest
      refine absurd ?_ (h.apart b List.mem_cons_self d
        (List.mem_cons_of_mem _ List.mem_cons_self))
      rw [hd, hb]

/-- What comes back is the difference of the two paths, unless the heads are too far from
each other as floating point numbers. -/
theorem reinjected_of_fork (hfuel : oldPath.length + newPath.length < fuel) :
    reinjected lib getBlockByHash fuel (some oldBlock) newBlock = .ok
      (if 64 < floatDistance oldBlock.number64.toNat newBlock.number64.toNat then []
      else txDifference lib (transactionsOf oldPath) (transactionsOf newPath)) := by
  rw [reinjected]
  split
  · rename_i hparent
    obtain rfl := h.oldPath_eq_nil hstored hparent
    simp [transactionsOf, txDifference]
  · split
    · rfl
    · obtain ⟨oldPassed, oldRest, rfl, holdLength, holdRest, hfirst⟩ :=
        walk_old hstored h.oldRooted h.newRooted [] [] (by omega : oldPath.length < fuel)
      obtain ⟨newPassed, newRest, rfl, hnewLength, hnewRest, hsecond⟩ :=
        walk_new hstored holdRest h.newRooted ([] ++ transactionsOf oldPassed) []
          (by omega : newPath.length < fuel)
      have hlength : oldRest.length = newRest.length := by omega
      have hthird := walk_both hlength holdRest hnewRest
        (fun b hb c hc => h.apart b (List.mem_append_right _ hb) c (List.mem_append_right _ hc))
        ([] ++ transactionsOf oldPassed) ([] ++ transactionsOf newPassed)
        (by rw [List.length_append, List.length_append] at hfuel; omega : oldRest.length < fuel)
      rw [h.oldTop, h.newTop, hfirst]
      change (walk _ _ fuel _ >>= _) = _
      rw [hsecond]
      change (walk _ _ fuel _ >>= _) = _
      rw [hthird]
      simp only [transactionsOf, List.flatMap_append, List.nil_append]
      rfl

end

end Walks

section Offers

variable {ctx : PoolContext π} {settings : PoolSettings π} {request : ResetRequest}
  {pool : TxsPool π}

def offered (lib : Primitives) (request : ResetRequest) : List Transaction :=
  (reinjected lib request.getBlockByHash request.fuel request.oldBlock
    request.newBlock).toOption.getD []

def offering (newBlock : Block) (pool : TxsPool π) : TxsPool π :=
  { pool with currentMaxGas := newBlock.header.gasLimit }

def forksAfter (config : ChainConfig) (newBlock : Block) : Bool × Bool × Bool × Bool :=
  (config.isIstanbul (newBlock.number64 + 1), config.isBerlin (newBlock.number64 + 1),
    config.isLondon (newBlock.number64 + 1), config.isShanghai (newBlock.number64 + 1))

def setForks (config : ChainConfig) (newBlock : Block) (pool : TxsPool π) : TxsPool π :=
  { pool with
    istanbul := config.isIstanbul (newBlock.number64 + 1)
    eip2718 := config.isBerlin (newBlock.number64 + 1)
    eip1559 := config.isLondon (newBlock.number64 + 1) }

theorem reset_eq {txs : List Transaction}
    (h : reinjected ctx.lib request.getBlockByHash request.fuel request.oldBlock
      request.newBlock = .ok txs) :
    offered ctx.lib request = txs ∧
      reset ctx settings request pool = crash (do
        let _ ← addTxsLocked ctx false txs
        modify (setForks settings.chainconfig request.newBlock))
        (offering request.newBlock pool) := by
  constructor
  · rw [offered, h]
    rfl
  · rw [reset, h]
    rfl

/-- A reset offers the transactions that only the old branch has, under the gas limit of the
new head and the forks of the block after it. -/
structure Reoffers (ctx : PoolContext π) (settings : PoolSettings π) (request : ResetRequest)
    (pool : TxsPool π) (oldPath newPath : List Block) : Prop where
  offers : ∀ tx, tx ∈ offered ctx.lib request ↔ tx ∈ transactionsOf oldPath ∧
    tx.hash ctx.lib ∉ (transactionsOf newPath).map fun tx => tx.hash ctx.lib
  limit : (offering request.newBlock pool).currentMaxGas = request.newBlock.header.gasLimit
  rules : offered ctx.lib request ≠ [] →
    forks (offering request.newBlock pool) = forksAfter settings.chainconfig request.newBlock

theorem mem_txDifference {lib : Primitives} {a b : List Transaction} {tx : Transaction} :
    tx ∈ txDifference lib a b ↔ tx ∈ a ∧ tx.hash lib ∉ b.map fun tx => tx.hash lib := by
  rw [txDifference, List.mem_filter, decide_eq_true_iff]

theorem reoffers_iff {oldPath newPath : List Block} {deep : Prop} [Decidable deep]
    (hoffered : offered ctx.lib request = if deep then [] else
      txDifference ctx.lib (transactionsOf oldPath) (transactionsOf newPath)) :
    Reoffers ctx settings request pool oldPath newPath ↔
      txDifference ctx.lib (transactionsOf oldPath) (transactionsOf newPath) = [] ∨
        (¬ deep ∧ forks pool = forksAfter settings.chainconfig request.newBlock) := by
  constructor
  · intro hreoffers
    rcases eq_or_ne (txDifference ctx.lib (transactionsOf oldPath) (transactionsOf newPath)) []
      with hnone | hsome
    · exact .inl hnone
    · have hshallow : ¬ deep := by
        intro hdeep
        rw [if_pos hdeep] at hoffered
        obtain ⟨tx, htx⟩ := List.exists_mem_of_ne_nil _ hsome
        have hmem := (hreoffers.offers tx).mpr (mem_txDifference.mp htx)
        rw [hoffered] at hmem
        cases hmem
      rw [if_neg hshallow] at hoffered
      exact .inr ⟨hshallow, hreoffers.rules (by rw [hoffered]; exact hsome)⟩
  · intro hcondition
    have hdifference : offered ctx.lib request =
        txDifference ctx.lib (transactionsOf oldPath) (transactionsOf newPath) := by
      rcases hcondition with hnone | ⟨hshallow, -⟩
      · rw [hoffered, hnone, ite_self]
      · rw [hoffered, if_neg hshallow]
    refine ⟨fun tx => ?_, rfl, fun hsome => ?_⟩
    · rw [hdifference, mem_txDifference]
    · rcases hcondition with hnone | ⟨-, hforks⟩
      · exact absurd (hdifference.trans hnone) hsome
      · exact hforks

end Offers

/-- A reset goes over from one of two stored branches to the other.  It offers the
transactions that only the old branch has if and only if there are none, or the heads are
near as floating point numbers and the fork indicators are already those of the next block.
Below 2 ^ 53 near heads are near as floating point numbers. -/
theorem reset_reoffers_iff {ctx : PoolContext π} {settings : PoolSettings π}
    {request : ResetRequest} {pool : TxsPool π} {oldBlock ancestor : Block}
    {oldPath newPath : List Block} (hold : request.oldBlock = some oldBlock)
    (hstored : Stored ctx.lib request.getBlockByHash)
    (hfork : Fork ctx.lib request.getBlockByHash oldBlock request.newBlock oldPath newPath
      ancestor)
    (hfuel : oldPath.length + newPath.length < request.fuel) :
    reset ctx settings request pool = crash (do
        let _ ← addTxsLocked ctx false (offered ctx.lib request)
        modify (setForks settings.chainconfig request.newBlock))
        (offering request.newBlock pool) ∧
      (Reoffers ctx settings request pool oldPath newPath ↔
        txDifference ctx.lib (transactionsOf oldPath) (transactionsOf newPath) = [] ∨
          (¬ 64 < floatDistance oldBlock.number64.toNat request.newBlock.number64.toNat ∧
            forks pool = forksAfter settings.chainconfig request.newBlock)) ∧
      (oldBlock.number64.toNat < 2 ^ 53 → request.newBlock.number64.toNat < 2 ^ 53 →
        floatDistance oldBlock.number64.toNat request.newBlock.number64.toNat =
          max oldBlock.number64.toNat request.newBlock.number64.toNat -
            min oldBlock.number64.toNat request.newBlock.number64.toNat) := by
  have hreinjected := reinjected_of_fork hstored hfork hfuel
  rw [← hold] at hreinjected
  obtain ⟨hoffered, hreset⟩ := reset_eq hreinjected
  refine ⟨?_, reoffers_iff hoffered, floatDistance_of_lt⟩
  rw [hoffered]
  exact hreset

section Toys

open HeaderSealing PoolRuns
open ReorgCorrectness (toyBlock toyGenesis)

@[irreducible] def storeOf (lib : Primitives) (blocks : List Block) : Hash → Option Block :=
  fun hash => blocks.find? fun b => b.hash lib = hash

theorem stored_storeOf {lib : Primitives} {blocks : List Block}
    (h : ∀ b ∈ blocks, ∀ parent ∈ blocks, b.parentHash = parent.hash lib →
      b.header.number.toNat = parent.header.number.toNat + 1) :
    Stored lib (storeOf lib blocks) := by
  have hkeyed : ∀ hash b, storeOf lib blocks hash = some b → b ∈ blocks ∧ b.hash lib = hash := by
    intro hash b hb
    rw [storeOf] at hb
    exact ⟨List.mem_of_find?_eq_some hb, by simpa using List.find?_some hb⟩
  refine ⟨fun hash b hb => (hkeyed hash b hb).2, fun hash b parent hb hparent => ?_⟩
  obtain ⟨hmem, -⟩ := hkeyed hash b hb
  obtain ⟨hparentMem, hhash⟩ := hkeyed _ parent hparent
  exact h b hmem parent hparentMem hhash.symm

def toyDynamic : Transaction :=
  .dynamicFee
    { chainID := 0
      nonce := 0
      gasTipCap := 1
      gasFeeCap := 2
      gas := 21000
      toAddress := some (toyAddress 2)
      fromAddress := some (toyAddress 1)
      value := 5
      data := []
      accessList := []
      v := 0
      r := 1
      s := 2 }

def toyFirst : Block := toyBlock 1 1 (toyGenesis.hash toyPrimitives)

def toySecond : Block := toyBlock 2 1 (toyFirst.hash toyPrimitives)

def toyThird : Block :=
  { toyBlock 3 1 (toySecond.hash toyPrimitives) with transactions := [toyDynamic] }

def toyHeavy : Block := toyChild 2 []

def toyForkBlocks : List Block :=
  [toyThird, toySecond, toyFirst, toyHeavy, toyGenesis]

def toyForkReset : ResetRequest where
  oldBlock := some toyThird
  newBlock := toyHeavy
  getBlockByHash := storeOf toyPrimitives toyForkBlocks
  fuel := 5
  events := []

def toyLondonSettings (londonBlock : Nat) : PoolSettings Unit :=
  { toySettings with
    chainconfig := { ChainConfig.unforked with
      berlinBlock := some 0, londonBlock := some londonBlock } }

def toyLondonPool : TxsPool Unit :=
  { (toyNode 0).pool with eip2718 := true, eip1559 := true }

theorem fork_toyForkReset : Fork toyPrimitives toyForkReset.getBlockByHash toyThird toyHeavy
    [toyThird, toySecond, toyFirst] [toyHeavy] toyGenesis := by
  have hlookup :
      toyForkReset.getBlockByHash (toyThird.hash toyPrimitives) = some toyThird ∧
      toyForkReset.getBlockByHash (toySecond.hash toyPrimitives) = some toySecond ∧
      toyForkReset.getBlockByHash (toyFirst.hash toyPrimitives) = some toyFirst ∧
      toyForkReset.getBlockByHash (toyHeavy.hash toyPrimitives) = some toyHeavy ∧
      toyForkReset.getBlockByHash (toyGenesis.hash toyPrimitives) = some toyGenesis := by
    decide +kernel
  obtain ⟨hthird, hsecond, hfirst, hheavy, hgenesis⟩ := hlookup
  refine ⟨rfl, rfl, ⟨⟨_, hthird⟩, hsecond, hfirst, hgenesis, trivial⟩,
    ⟨⟨_, hheavy⟩, hgenesis, trivial⟩, ?_⟩
  decide +kernel

/-- Where the London fork begins with the first block, the transfer comes back under the
forks of the next block. -/
theorem reset_reoffers_iff_forked :
    Reoffers (atTable toyContext (toyTable 0)) (toyLondonSettings 0) toyForkReset toyLondonPool
      [toyThird, toySecond, toyFirst] [toyHeavy] := by
  have hnumbers : ∀ b ∈ toyForkBlocks, ∀ parent ∈ toyForkBlocks,
      b.parentHash = parent.hash toyPrimitives →
      b.header.number.toNat = parent.header.number.toNat + 1 := by
    decide +kernel
  have hstored : Stored toyPrimitives toyForkReset.getBlockByHash := stored_storeOf hnumbers
  have hfuel : [toyThird, toySecond, toyFirst].length + [toyHeavy].length <
      toyForkReset.fuel := by decide
  obtain ⟨-, hiff, -⟩ := @reset_reoffers_iff Unit (atTable toyContext (toyTable 0))
    (toyLondonSettings 0) toyForkReset toyLondonPool toyThird toyGenesis _ _ rfl hstored
    fork_toyForkReset hfuel
  exact hiff.mpr (.inr ⟨by decide +kernel, by decide +kernel⟩)

/-- Where it begins with the third block, the transfer comes back to the pool, although the
next block is the second one and its forks do not allow the transfer.  And two heads at a
distance of 64 are 128 apart as floating point numbers. -/
theorem reset_keeps_old_forks :
    offered toyPrimitives toyForkReset = [toyDynamic] ∧
      ((reset (atTable toyContext (toyTable 0)) (toyLondonSettings 3) toyForkReset
        toyLondonPool).2.all.get toyPrimitives (toyDynamic.hash toyPrimitives)).isSome = true ∧
      (validateTx (atTable toyContext (toyTable 0))
        (setForks (toyLondonSettings 3).chainconfig toyHeavy (offering toyHeavy toyLondonPool))
        toyDynamic false).isOk = false ∧
      floatDistance (2 ^ 58 + 32) (2 ^ 58 + 96) = 128 := by
  decide +kernel

end Toys

end N42.PoolResets
