import N42.EpochAccounting
import N42.DepositEvents

/-!
The rewards of one block on different nodes.  The window of a boundary is read from the
canonical chain of the node, the deposits and the unpaid sums from tables that
every import writes, whatever branch the imported block is on.
-/

namespace N42.RewardForks

open ChainTypes HeaderSealing ChainDatabase ReorgCorrectness RewardBinding
open RewardWindows Deposits DepositEvents FallibleRuns

structure RewardRules (κ σ : Type) where
  conf : AposConfig
  deposit : Deposit κ σ
  logs : Block → List ContractLog

/-- A node: the chain of its head block, every chain it has imported the last block of,
and the tables behind the rewards.  Chains have their newest block first. -/
structure RewardNode where
  canonical : List Block
  imported : List (List Block)
  unpaid : Address → Uint256
  deposits : DepositTable

inductive ImportError where
  | reward (e : RewardError)
  | deposit (e : DepositPanic)
deriving DecidableEq

def RewardNode.start (genesis : Block) : RewardNode where
  canonical := [genesis]
  imported := [[genesis]]
  unpaid _ := 0
  deposits _ := none

variable {κ σ : Type} (rules : RewardRules κ σ)

def RewardNode.reader (node : RewardNode) : RewardReader where
  getBlockByNumber number := node.canonical.reverse[number.toNat % 2 ^ 64]?
  getDepositInfo address :=
    (getDepositInfo rules.deposit.bls node.deposits address).toOption.join
  getAccountRewardUnpaid address := some (node.unpaid address)

def RewardNode.finalize (node : RewardNode) (b : Block) :
    Except ImportError (RewardMap × Option RewardMap) :=
  (doReward rules.conf b.header.number (node.reader rules)
    (rules.conf.rewardEpoch.toNat + 1)).mapError .reward

/-- Import the last block of a chain.  The unpaid sums are stored in any case; the logs
are announced if the block becomes the head, for which the fork choice is asked. -/
def RewardNode.importBlock (node : RewardNode) (b : Block) (ancestors : List Block)
    (wins : Bool) : Except ImportError RewardNode := do
  let (_, unpay) ← node.finalize rules b
  let unpaid := fun address => (unpay.bind (· address)).getD (node.unpaid address)
  let imported := (b :: ancestors) :: node.imported
  if wins then do
    let deposits ← (rules.deposit.handleEvent node.deposits (.newLogs (rules.logs b))).mapError
      .deposit
    return ⟨b :: ancestors, imported, unpaid, deposits⟩
  else return { node with imported := imported, unpaid := unpaid }

/-- The nodes that any order of imports leads to; a block is imported on a chain that the
node has imported before. -/
inductive Reached (genesis : Block) : RewardNode → Prop where
  | start : Reached genesis (.start genesis)
  | step {node next : RewardNode} {b : Block} {ancestors : List Block} {wins : Bool}
      (before : Reached genesis node) (known : ancestors ∈ node.imported)
      (imports : node.importBlock rules b ancestors wins = .ok next) : Reached genesis next

/-- The nodes that have only imported blocks on their head, and side blocks which pay no
rewards. -/
inductive Straight (genesis : Block) : RewardNode → Prop where
  | start : Straight genesis (.start genesis)
  | extend {node next : RewardNode} {b : Block} (before : Straight genesis node)
      (imports : node.importBlock rules b node.canonical true = .ok next) : Straight genesis next
  | side {node next : RewardNode} {b : Block} {ancestors : List Block}
      (before : Straight genesis node) (known : ancestors ∈ node.imported)
      (idle : isRewardBlock rules.conf b.header.number = false)
      (imports : node.importBlock rules b ancestors false = .ok next) : Straight genesis next

variable {rules} {genesis : Block} {node next : RewardNode}

theorem importBlock_head {b : Block} {ancestors : List Block}
    (h : node.importBlock rules b ancestors true = .ok next) :
    ∃ pay unpay deposits, node.finalize rules b = .ok (pay, unpay) ∧
      rules.deposit.handleEvent node.deposits (.newLogs (rules.logs b)) = .ok deposits ∧
      next = ⟨b :: ancestors, (b :: ancestors) :: node.imported,
        fun address => (unpay.bind (· address)).getD (node.unpaid address), deposits⟩ := by
  obtain ⟨⟨pay, unpay⟩, hfinalize, h⟩ := bind_eq_ok_iff.mp h
  obtain ⟨deposits, hdeposits, h⟩ := bind_eq_ok_iff.mp h
  exact ⟨pay, unpay, deposits, hfinalize, mapError_eq_ok_iff.mp hdeposits, (Except.ok.inj h).symm⟩

theorem importBlock_side {b : Block} {ancestors : List Block}
    (hidle : isRewardBlock rules.conf b.header.number = false)
    (h : node.importBlock rules b ancestors false = .ok next) :
    next = { node with imported := (b :: ancestors) :: node.imported } := by
  obtain ⟨⟨pay, unpay⟩, hfinalize, h⟩ := bind_eq_ok_iff.mp h
  rw [RewardNode.finalize, doReward, hidle] at hfinalize
  cases hfinalize
  exact (Except.ok.inj h).symm

structure SameTables (node next : RewardNode) : Prop where
  canonical : node.canonical = next.canonical
  unpaid : node.unpaid = next.unpaid
  deposits : node.deposits = next.deposits

theorem SameTables.finalize (h : SameTables node next) (b : Block) :
    node.finalize rules b = next.finalize rules b := by
  rw [RewardNode.finalize, RewardNode.finalize, RewardNode.reader, RewardNode.reader,
    h.canonical, h.unpaid, h.deposits]

def replay (rules : RewardRules κ σ) (genesis : Block) :
    List Block → Except ImportError RewardNode
  | [] => .ok (.start genesis)
  | b :: rest => do
      let node ← replay rules genesis rest
      node.importBlock rules b (rest ++ [genesis]) true

theorem replay_canonical {blocks : List Block} {replayed : RewardNode}
    (h : replay rules genesis blocks = .ok replayed) :
    replayed.canonical = blocks ++ [genesis] := by
  cases blocks with
  | nil =>
    cases h
    rfl
  | cons b rest =>
    obtain ⟨node, -, h⟩ := bind_eq_ok_iff.mp h
    obtain ⟨-, -, -, -, -, rfl⟩ := importBlock_head h
    rfl

theorem Straight.replayed (h : Straight rules genesis node) :
    ∃ blocks replayed, replay rules genesis blocks = .ok replayed ∧ SameTables node replayed := by
  induction h with
  | start => exact ⟨[], .start genesis, rfl, rfl, rfl, rfl⟩
  | @extend node next b before imports ih =>
    obtain ⟨blocks, replayed, hreplay, hsame⟩ := ih
    have hchain := replay_canonical hreplay
    obtain ⟨pay, unpay, deposits, hfinalize, hdeposits, rfl⟩ := importBlock_head imports
    rw [hsame.finalize b] at hfinalize
    rw [hsame.deposits] at hdeposits
    have himport : replayed.importBlock rules b (blocks ++ [genesis]) true =
        .ok ⟨b :: blocks ++ [genesis], (b :: blocks ++ [genesis]) :: replayed.imported,
          fun address => (unpay.bind (· address)).getD (replayed.unpaid address), deposits⟩ := by
      rw [RewardNode.importBlock, hfinalize, bind_eq_ok_iff]
      exact ⟨_, rfl, bind_eq_ok_iff.mpr ⟨deposits, mapError_eq_ok_iff.mpr hdeposits, rfl⟩⟩
    refine ⟨b :: blocks, _, bind_eq_ok_iff.mpr ⟨replayed, hreplay, himport⟩, ?_, ?_, rfl⟩
    · simp only [hsame.canonical, hchain, List.cons_append]
    · simp only [hsame.unpaid]
  | @side node next b ancestors before known idle imports ih =>
    obtain ⟨blocks, replayed, hreplay, hsame⟩ := ih
    rw [importBlock_side idle imports]
    exact ⟨blocks, replayed, hreplay, hsame.canonical, hsame.unpaid, hsame.deposits⟩

theorem Straight.reached (h : Straight rules genesis node) :
    Reached rules genesis node ∧ node.canonical ∈ node.imported := by
  induction h with
  | start => exact ⟨.start, List.mem_singleton.mpr rfl⟩
  | @extend node next b before imports ih =>
    refine ⟨.step ih.1 ih.2 imports, ?_⟩
    obtain ⟨-, -, -, -, -, rfl⟩ := importBlock_head imports
    exact List.mem_cons_self
  | @side node next b ancestors before known idle imports ih =>
    refine ⟨.step ih.1 known imports, ?_⟩
    rw [importBlock_side idle imports]
    exact List.mem_cons_of_mem _ ih.2

def toyRules : RewardRules BlockValidation.PublicKey Unit where
  conf := ⟨some 1, 2, 60000000000000⟩
  deposit := toyDeposits
  logs b := if b.header.number = 1 then [toyDepositLog 50] else []

def signed (b : Block) : Block :=
  { b with verifiers := [⟨toyAddress 2, default⟩] }

def toyAncestors : List Block := [signed toyOldest, signed toyOld, toyGenesis]

def toyBoundary (difficulty : Nat) : Block :=
  toyBlock 3 difficulty (toyOldest.hash toyPrimitives)

def toyImport (node : RewardNode) (b : Block) (ancestors : List Block) (wins : Bool) :
    RewardNode :=
  match node.importBlock toyRules b ancestors wins with
  | .ok next => next
  | .error _ => node

def toyParent : RewardNode :=
  toyImport (.start toyGenesis) (signed toyOld) [toyGenesis] true

def toyPlain : RewardNode :=
  toyImport toyParent (signed toyOldest) [signed toyOld, toyGenesis] true

def toyForked : RewardNode :=
  toyImport toyPlain (toyBoundary 2) toyAncestors false

def toyRewards (node : RewardNode) (b : Block) (address : Address) :
    Option (Option Uint256 × Option Uint256) :=
  (node.finalize toyRules b).toOption.map fun (pay, unpay) =>
    (pay address, unpay.bind (· address))

def toyDetour : RewardNode :=
  toyImport (toyImport toyParent (toyBlock 2 2 (toyOld.hash toyPrimitives))
    [signed toyOld, toyGenesis] false) (signed toyOldest) [signed toyOld, toyGenesis] true

theorem toyParent_canonical : toyParent.canonical = [signed toyOld, toyGenesis] := by
  rfl

theorem toyPlain_canonical : toyPlain.canonical = toyAncestors := by
  rfl

theorem straight_toyParent : Straight toyRules toyGenesis toyParent :=
  .extend (b := signed toyOld) .start rfl

theorem straight_toyPlain : Straight toyRules toyGenesis toyPlain :=
  .extend (b := signed toyOldest) straight_toyParent rfl

end N42.RewardForks
