import N42.PoolConsistency
import N42.ReorgCorrectness

/-!
Runs of the pool: transactions are added and removed, the accounts that sent them are
promoted, and the account table that the pool reads changes with every block.
-/

namespace N42.PoolRuns

open ChainTypes Transactions NumberRuns StatefulActions.Action ChainDatabase
open PoolAdmission PoolLists PoolReorg PoolSoundness PoolAdditions
open PoolPromotion PoolLimits PoolConsistency

variable {π : Type}

structure AccountTable where
  nonce : Address → UInt64
  balance : Address → Uint256
  deposit : Option DepositContract

structure PoolNode (π : Type) where
  table : AccountTable
  pool : TxsPool π

def atTable (ctx : PoolContext π) (table : AccountTable) : PoolContext π :=
  { ctx with deposit := table.deposit, stateNonce := table.nonce, stateBalance := table.balance }

inductive Operation where
  | addLocals (txs : List Transaction)
  | addRemotes (txs : List Transaction)
  | removeTx (hash : Hash) (outofbound : Bool)
  /-- `runReorg` for the accounts that sent something. -/
  | promote (dirtyAccounts : List Address) (orders : Orders)
  /-- A block changes the account table, and `runReorg` has not been told yet. -/
  | write (table : AccountTable)
  /-- A block changes the account table, and `runReorg` resets the pool to it. -/
  | head (table : AccountTable) (request : ResetRequest) (orders : Orders)

def finished {ε α : Type} : Except ε α × TxsPool π → Option (TxsPool π)
  | (.ok _, pool) => some pool
  | (.error _, _) => none

def perform (ctx : PoolContext π) (settings : PoolSettings π) (node : PoolNode π) :
    Operation → Option (PoolNode π)
  | .addLocals txs =>
    (finished (addLocals (atTable ctx node.table) txs node.pool)).map (PoolNode.mk node.table)
  | .addRemotes txs =>
    (finished (addRemotes (atTable ctx node.table) txs node.pool)).map (PoolNode.mk node.table)
  | .removeTx hash outofbound =>
    some ⟨node.table, removeTx (atTable ctx node.table) hash outofbound node.pool⟩
  | .promote dirtyAccounts orders =>
    (finished (runReorg (atTable ctx node.table) settings none dirtyAccounts orders
      node.pool)).map (PoolNode.mk node.table)
  | .write table => some ⟨table, node.pool⟩
  | .head table request orders =>
    (finished (runReorg (atTable ctx table) settings (some request) [] orders
      node.pool)).map (PoolNode.mk table)

structure Consistent (ctx : PoolContext π) (node : PoolNode π) : Prop where
  lookup : ∀ tx, tx ∈ entries node.pool.all ↔
    ∃ a, tx ∈ txsOf (node.pool.pending a) ∨ tx ∈ txsOf (node.pool.queue a)
  disjoint : ∀ a b, ∀ tx ∈ txsOf (node.pool.pending a), tx ∉ txsOf (node.pool.queue b)
  sender : ∀ a tx, tx ∈ txsOf (node.pool.pending a) ∨ tx ∈ txsOf (node.pool.queue a) →
    tx.fromAddress = some a
  pendingNodup : ∀ a, (nonces (txsOf (node.pool.pending a))).Nodup
  queueNodup : ∀ a, (nonces (txsOf (node.pool.queue a))).Nodup
  apart : ∀ a, ∀ n ∈ nonces (txsOf (node.pool.pending a)), n ∉ nonces (txsOf (node.pool.queue a))
  /-- The pending nonces run from the nonce of the state to the virtual nonce. -/
  run : ∀ a, IsRun (node.table.nonce a).toNat (getNonce (atTable ctx node.table) node.pool a).toNat
    (nonces (txsOf (node.pool.pending a)))

def Regular (accounts : List Address) (tx : Transaction) : Prop :=
  Countable tx ∧ SentFrom accounts tx

/-- A new head whose reset can be followed: what comes back is regular, and no account is left
with a gap. -/
structure Followed (ctx : PoolContext π) (settings : PoolSettings π) (accounts : List Address)
    (base : Address → Nat) (request : ResetRequest) (pool : TxsPool π) : Prop where
  regular : ∀ txs, reinjected ctx.lib request.getBlockByHash request.fuel request.oldBlock
    request.newBlock = .ok txs → ∀ tx ∈ txs, Regular accounts tx
  refilled : ∀ a, Refilled ctx (base a) (reset ctx settings request pool).2 a

/-- A step that the pool can follow: every block is reported to it at once, the nonces of the
transactions can be counted up, and an account whose nonce falls is not left with a gap. -/
def Orderly (ctx : PoolContext π) (settings : PoolSettings π) (accounts : List Address)
    (node : PoolNode π) : Operation → Prop
  | .addLocals txs => ∀ tx ∈ txs, Regular accounts tx
  | .addRemotes txs => ∀ tx ∈ txs, Regular accounts tx
  | .removeTx _ _ => True
  | .promote _ _ => True
  | .write _ => False
  | .head table request orders =>
    Along orders accounts ∧ Followed (atTable ctx table) settings accounts
      (fun a => (node.table.nonce a).toNat) request node.pool

/-- The nodes that are reached in steps that the pool can follow. -/
inductive Reachable (ctx : PoolContext π) (settings : PoolSettings π) (accounts : List Address)
    (start : PoolNode π) : PoolNode π → Prop
  | refl : Reachable ctx settings accounts start start
  | step {node next : PoolNode π} (op : Operation) (h : Reachable ctx settings accounts start node)
      (horderly : Orderly ctx settings accounts node op)
      (hop : perform ctx settings node op = some next) : Reachable ctx settings accounts start next

structure IsEmpty (pool : TxsPool π) : Prop where
  pending : ∀ a, pool.pending a = none
  queue : ∀ a, pool.queue a = none
  pendingNonces : ∀ a, pool.pendingNonces a = none
  all : entries pool.all = []

section Runs

variable {ctx : PoolContext π} {settings : PoolSettings π} {accounts : List Address}
  {start node next : PoolNode π}

def InOrder (ctx : PoolContext π) (accounts : List Address) (node : PoolNode π) : Prop :=
  Kept ctx.lib accounts Countable (some fun a => (node.table.nonce a).toNat) node.pool

variable {pool : TxsPool π}

theorem IsEmpty.sound {P : Transaction → Prop} (h : IsEmpty pool) :
    Sound ctx.lib accounts P noLoose pool := by
  have hholdings : ∀ a, holdings pool noLoose a = [] := fun a => by
    rw [holdings, h.pending, h.queue]
    rfl
  refine ⟨?_, ?_, ?_, ?_, ?_, ?_, ?_, fun a _ => ⟨h.pending a, h.queue a⟩⟩
  · simp [h.all, hholdings]
  · simp [h.all]
  · simp [hholdings]
  · simp [hholdings, nonces]
  · simp [hholdings]
  · simp [WellKept, h.pending]
  · simp [WellKept, h.queue]

theorem inOrder_of_isEmpty (h : IsEmpty start.pool) : InOrder ctx accounts start := by
  refine ⟨h.sound, fun base hbase a => ?_⟩
  rw [h.pending, h.pendingNonces]
  exact isRun_nil _

theorem Consistent.of_inOrder (h : InOrder ctx accounts node) : Consistent ctx node := by
  have hmem : ∀ a tx, tx ∈ holdings node.pool noLoose a ↔
      tx ∈ txsOf (node.pool.pending a) ∨ tx ∈ txsOf (node.pool.queue a) := by
    intro a tx
    rw [holdings, noLoose, List.append_nil, List.mem_append]
  have hapart : ∀ a, ∀ n ∈ nonces (txsOf (node.pool.pending a)),
      n ∉ nonces (txsOf (node.pool.queue a)) := by
    intro a n hn hn'
    have hnodup := h.books.distinct a
    rw [holdings, nonces_append, nonces_append] at hnodup
    exact (List.nodup_append.mp hnodup).2.2 n hn n (List.mem_append_left _ hn') rfl
  refine ⟨fun tx => ?_, fun a b tx hpending hqueue => ?_, fun a tx htx => ?_,
    h.books.nodup_pending, h.books.nodup_queue, hapart, fun a => ?_⟩
  · simp only [h.books.known tx, hmem]
  · have ha := h.books.sender a tx ((hmem a tx).mpr (.inl hpending))
    have hb := h.books.sender b tx ((hmem b tx).mpr (.inr hqueue))
    obtain rfl : a = b := Option.some.inj (ha.symm.trans hb)
    exact hapart a _ (mem_nonces_of_mem hpending) (mem_nonces_of_mem hqueue)
  · exact h.books.sender a tx ((hmem a tx).mpr htx)
  · have hrun := h.runs _ rfl a
    rw [getNonce]
    cases hnext : node.pool.pendingNonces a with
    | none => rwa [hnext] at hrun
    | some n => rwa [hnext] at hrun

theorem Regular.admits {tx : Transaction} (h : Regular accounts tx) :
    SentFrom accounts tx ∧ Admits ctx Countable pool tx :=
  ⟨h.2, fun _ _ _ _ => h.1⟩

theorem eq_of_finished {ε α : Type} {result : Except ε α × TxsPool π}
    (h : finished result = some pool) : ∃ r, result = (.ok r, pool) := by
  obtain ⟨e | r, t⟩ := result
  · cases h
  · obtain rfl := Option.some.inj h
    exact ⟨r, rfl⟩

theorem InOrder.step (h : InOrder ctx accounts node) (haccounts : accounts.Nodup) {op : Operation}
    (horderly : Orderly ctx settings accounts node op)
    (hop : perform ctx settings node op = some next) : InOrder ctx accounts next := by
  have hat : Kept (atTable ctx node.table).lib accounts Countable
      (some fun a => (node.table.nonce a).toNat) node.pool := h
  cases op with
  | addLocals txs =>
    obtain ⟨pool, hpool, rfl⟩ := Option.map_eq_some_iff.mp hop
    obtain ⟨errs, hadd⟩ := eq_of_finished hpool
    have hkept := hat.addTxs (fun tx htx => (horderly tx htx).admits) (!(atTable ctx node.table).config.noLocals)
    rwa [← addLocals, hadd] at hkept
  | addRemotes txs =>
    obtain ⟨pool, hpool, rfl⟩ := Option.map_eq_some_iff.mp hop
    obtain ⟨errs, hadd⟩ := eq_of_finished hpool
    have hkept := hat.addTxs (fun tx htx => (horderly tx htx).admits) false
    rwa [← addRemotes, hadd] at hkept
  | removeTx hash outofbound =>
    obtain rfl := Option.some.inj hop
    exact hat.removeTx hash outofbound
  | promote dirtyAccounts orders =>
    obtain ⟨pool, hpool, rfl⟩ := Option.map_eq_some_iff.mp hop
    obtain ⟨r, hrun⟩ := eq_of_finished hpool
    have hpromoted := (Kept.promoteExecutables settings dirtyAccounts hat (fun _ _ _ => id)
      fun base hbase a => congrFun (Option.some.inj hbase).symm a).1
    have hkept := kept_enforceLimits settings hpromoted orders
    obtain ⟨_, _, hmodify, hlimits⟩ := bind_eq_ok_iff.mp hrun
    obtain rfl := modify_eq_ok_iff.mp hmodify
    rwa [hlimits] at hkept
  | write table => exact horderly.elim
  | head table request orders =>
    obtain ⟨pool, hpool, rfl⟩ := Option.map_eq_some_iff.mp hop
    obtain ⟨r, hrun⟩ := eq_of_finished hpool
    obtain ⟨_, taken, htake, hlimits⟩ := bind_eq_ok_iff.mp hrun
    obtain ⟨horders, hregular, hrefilled⟩ := horderly
    have htable : Kept (atTable ctx table).lib accounts Countable
        (some fun a => (node.table.nonce a).toNat) node.pool := h
    have hreturns : Returns (atTable ctx table) accounts Countable request node.pool :=
      fun txs htxs tx htx => (hregular txs htxs tx htx).admits
    have htaken : Kept (atTable ctx table).lib accounts Countable
        (some fun a => (table.nonce a).toNat) taken := by
      refine ⟨(takeHead_books htable.books horders hreturns htake).1, fun base hbase => ?_⟩
      obtain rfl := Option.some.inj hbase
      exact takeHead_runs htable (fun _ => id) haccounts horders hreturns hrefilled htake
    have hkept := kept_enforceLimits settings htaken orders
    rwa [hlimits] at hkept

end Runs

section Toys

open HeaderSealing ReorgCorrectness

def toyTx (nonce : UInt64) (value : Nat) : Transaction :=
  .legacy ⟨nonce, 1, 21000, some (toyAddress 2), some (toyAddress 1), BitVec.ofNat 256 value, [],
    0, 0, 0⟩

def toyContext : PoolContext Unit where
  lib := toyPrimitives
  config := ⟨false, 10, 5120, 1024⟩
  pricing := ⟨fun _ _ _ p => (false, p), fun _ _ _ _ p => (([], true), p), fun _ _ p => p,
    fun _ _ p => p⟩
  deposit := none
  stateNonce := fun _ => 0
  stateBalance := fun _ => 0

def toySettings : PoolSettings Unit where
  accountSlots := 16
  accountQueue := 64
  chainconfig := .unforked
  setBaseFee := fun _ _ p => p

def toyTable (nonce : UInt64) : AccountTable where
  nonce := fun a => if a = toyAddress 1 then nonce else 0
  balance := fun _ => 50000
  deposit := none

def toyNode (nonce : UInt64) : PoolNode Unit where
  table := toyTable nonce
  pool :=
    { currentMaxGas := 30000
      istanbul := false
      eip2718 := false
      eip1559 := false
      shanghai := false
      gasPrice := 1
      locals := fun _ => false
      pending := fun _ => none
      queue := fun _ => none
      pendingNonces := fun _ => none
      all := ⟨0, [], []⟩
      priced := ()
      changesSinceReorg := 0 }

theorem isEmpty_toyNode (nonce : UInt64) : IsEmpty (toyNode nonce).pool :=
  ⟨fun _ => rfl, fun _ => rfl, fun _ => rfl, rfl⟩

def toyChild (difficulty : Nat) (txs : List Transaction) : Block :=
  { header := { toyHeader 1 difficulty (toyAddress 1) with
      parentHash := toyGenesis.hash toyPrimitives, gasLimit := 30000 }
    transactions := txs
    verifiers := []
    rewards := [] }

def toyOrders : Orders :=
  ⟨[toyAddress 1], [toyAddress 1], [toyAddress 1], [toyAddress 1], [toyAddress 1]⟩

def toyReset (txs : List Transaction) : ResetRequest where
  oldBlock := some (toyChild 1 txs)
  newBlock := toyChild 2 []
  getBlockByHash := fun hash =>
    if hash = toyGenesis.hash toyPrimitives then some toyGenesis else none
  fuel := 3
  events := []

def performAll (ctx : PoolContext π) (settings : PoolSettings π) (node : PoolNode π)
    (ops : List Operation) : Option (PoolNode π) :=
  ops.foldlM (perform ctx settings) node

theorem performAll_cons {ctx : PoolContext π} {settings : PoolSettings π} {node next : PoolNode π}
    {op : Operation} (h : perform ctx settings node op = some next) (ops : List Operation) :
    performAll ctx settings node (op :: ops) = performAll ctx settings next ops := by
  rw [performAll, List.foldlM_cons, h, Option.bind_eq_bind, Option.bind_some, performAll]

theorem performAll_singleton (ctx : PoolContext π) (settings : PoolSettings π)
    (node : PoolNode π) (op : Operation) :
    performAll ctx settings node [op] = perform ctx settings node op := by
  rw [performAll, List.foldlM_cons]
  exact Option.bind_fun_some _

/-- The account has sent its transactions with the nonces 0 and 1 in a block that is given
up, and the one with the nonce 2 is pending.  The state cannot pay for the second one any
more. -/
def toyOps (value : Nat) : List Operation :=
  [.addRemotes [toyTx 2 1], .promote [toyAddress 1] toyOrders,
    .head (toyTable 0) (toyReset [toyTx 0 2, toyTx 1 value]) toyOrders]

theorem finished_of_isOk {ε α : Type} {result : Except ε α × TxsPool π}
    (h : result.1.isOk = true) : finished result = some result.2 := by
  obtain ⟨e | r, pool⟩ := result
  · cases h
  · rfl

def toyAdded : TxsPool Unit :=
  (addRemotes (atTable toyContext (toyTable 2)) [toyTx 2 1] (toyNode 2).pool).2

def toyPromoted : TxsPool Unit :=
  (runReorg (atTable toyContext (toyTable 2)) toySettings none [toyAddress 1] toyOrders toyAdded).2

theorem followed_toyReset : Followed (atTable toyContext (toyTable 0)) toySettings [toyAddress 1]
    (fun a => ((toyTable 2).nonce a).toNat) (toyReset [toyTx 0 2, toyTx 1 10000]) toyPromoted := by
  constructor
  · intro txs htxs tx htx
    have hback : (reinjected toyPrimitives (toyReset [toyTx 0 2, toyTx 1 10000]).getBlockByHash 3
        (some (toyChild 1 [toyTx 0 2, toyTx 1 10000])) (toyChild 2 [])).toOption =
          some [toyTx 0 2, toyTx 1 10000] := by
      decide +kernel
    have hsame : txs = [toyTx 0 2, toyTx 1 10000] :=
      Option.some.inj ((congrArg Except.toOption htxs).symm.trans hback)
    rw [hsame, List.mem_cons, List.mem_singleton] at htx
    rcases htx with rfl | rfl
    · exact ⟨by decide, fun a ha => List.mem_singleton.mpr (Option.some.inj ha).symm⟩
    · exact ⟨by decide, fun a ha => List.mem_singleton.mpr (Option.some.inj ha).symm⟩
  · intro a hlt
    have ha : a = toyAddress 1 := by
      by_contra hne
      have hzero : ∀ nonce, (toyTable nonce).nonce a = 0 := fun nonce => if_neg hne
      change ((toyTable 0).nonce a).toNat < ((toyTable 2).nonce a).toNat at hlt
      rw [hzero, hzero] at hlt
      exact Nat.lt_irrefl _ hlt
    subst ha
    have hpayable : nonces (payable (atTable toyContext (toyTable 0))
        (reset (atTable toyContext (toyTable 0)) toySettings
          (toyReset [toyTx 0 2, toyTx 1 10000]) toyPromoted).2 (toyAddress 1)) = [1, 0] := by
      decide +kernel
    refine .inr (.inr fun n _ hn => ?_)
    rw [hpayable]
    have htwo : ((toyTable 2).nonce (toyAddress 1)).toNat = 2 := by decide
    simp only [htwo] at hn
    simp
    omega

/-- In every state that is reached in steps which the pool can follow, the pool is
consistent. -/
theorem reachable_consistent {ctx : PoolContext π} {settings : PoolSettings π}
    {accounts : List Address} {start node : PoolNode π} (haccounts : accounts.Nodup)
    (hstart : IsEmpty start.pool) (h : Reachable ctx settings accounts start node) : Consistent ctx node := by
  refine Consistent.of_inOrder (?_ : InOrder ctx accounts node)
  induction h with
  | refl => exact inOrder_of_isEmpty hstart
  | step op _ horderly hop ih => exact ih.step haccounts horderly hop

theorem toyPool_consistent : ∃ node,
    performAll toyContext toySettings (toyNode 2) (toyOps 10000) = some node ∧
      Consistent toyContext node := by
  have hok : (addRemotes (atTable toyContext (toyTable 2)) [toyTx 2 1] (toyNode 2).pool).1.isOk =
        true ∧ (runReorg (atTable toyContext (toyTable 2)) toySettings none [toyAddress 1] toyOrders
        toyAdded).1.isOk = true ∧ (runReorg (atTable toyContext (toyTable 0)) toySettings
        (some (toyReset [toyTx 0 2, toyTx 1 10000])) [] toyOrders toyPromoted).1.isOk = true := by
    decide +kernel
  have hadd : perform toyContext toySettings (toyNode 2) (.addRemotes [toyTx 2 1]) =
      some ⟨toyTable 2, toyAdded⟩ := by
    rw [perform]
    exact congrArg _ (finished_of_isOk hok.1)
  have hpromote : perform toyContext toySettings ⟨toyTable 2, toyAdded⟩
      (.promote [toyAddress 1] toyOrders) = some ⟨toyTable 2, toyPromoted⟩ := by
    rw [perform]
    exact congrArg _ (finished_of_isOk hok.2.1)
  have hhead : perform toyContext toySettings ⟨toyTable 2, toyPromoted⟩
      (.head (toyTable 0) (toyReset [toyTx 0 2, toyTx 1 10000]) toyOrders) =
        some ⟨toyTable 0, (runReorg (atTable toyContext (toyTable 0)) toySettings
          (some (toyReset [toyTx 0 2, toyTx 1 10000])) [] toyOrders toyPromoted).2⟩ := by
    rw [perform]
    exact congrArg _ (finished_of_isOk hok.2.2)
  have hregular : ∀ tx ∈ [toyTx 2 1], Regular [toyAddress 1] tx := by
    intro tx htx
    obtain rfl := List.mem_singleton.mp htx
    exact ⟨by decide, fun a ha => List.mem_singleton.mpr (Option.some.inj ha).symm⟩
  refine ⟨_, ?_, reachable_consistent (List.nodup_singleton (toyAddress 1)) (isEmpty_toyNode 2)
    (.step (.head (toyTable 0) (toyReset [toyTx 0 2, toyTx 1 10000]) toyOrders)
      (.step (.promote [toyAddress 1] toyOrders)
        (.step (.addRemotes [toyTx 2 1]) .refl hregular hadd) trivial hpromote)
      ⟨⟨List.Perm.refl _, List.Perm.refl _, List.Perm.refl _⟩, followed_toyReset⟩ hhead)⟩
  rw [toyOps, performAll_cons hadd, performAll_cons hpromote, performAll_singleton, hhead]

/-- The pending transactions have a gap after the reset. -/
theorem pending_gap_after_reset : ∃ node,
    performAll toyContext toySettings (toyNode 2) (toyOps 40000) = some node ∧
      ¬ Consistent toyContext node := by
  have hrun : (performAll toyContext toySettings (toyNode 2) (toyOps 40000)).map
      (fun node => (nonces (txsOf (node.pool.pending (toyAddress 1))),
        (node.table.nonce (toyAddress 1)).toNat,
        (getNonce (atTable toyContext node.table) node.pool (toyAddress 1)).toNat)) =
      some ([0, 2], 0, 3) := by
    decide +kernel
  obtain ⟨node, hnode, hresult⟩ := Option.map_eq_some_iff.mp hrun
  refine ⟨node, hnode, fun hconsistent => ?_⟩
  have hall := hconsistent.run (toyAddress 1)
  simp only [Prod.mk.injEq] at hresult
  rw [hresult.1, hresult.2.1, hresult.2.2] at hall
  exact absurd ((hall.mem 1).mpr (by decide)) (by decide)

end Toys

end N42.PoolRuns
