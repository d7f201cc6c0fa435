import N42.ChainDatabase
import N42.FloatRounding
import N42.PoolLists

/-!
The upkeep of the transaction pool: queued transactions are promoted and pending ones
demoted, the limits are enforced, and a new head is taken over.  A map is walked along a
list of accounts, and the accounts that are not in the map are passed over.
-/

namespace N42.PoolReorg

open ChainTypes BlockHeader Transactions StatefulActions
open StatefulActions.Action ChainDatabase FloatRounding PoolAdmission
open PoolLists

variable {π : Type}

structure PoolSettings (π : Type) where
  accountSlots : UInt64
  accountQueue : Nat
  chainconfig : ChainConfig
  setBaseFee : TxLookup → Header → π → π

def removeAll (lib : Primitives) (txs : List Transaction) (all : TxLookup) : TxLookup :=
  txs.foldl (fun all tx => all.remove lib (tx.hash lib)) all

section

variable (ctx : PoolContext π)

/-- `get` of the virtual nonces, which remembers the nonce of the state. -/
def getNonce (pool : TxsPool π) (addr : Address) : UInt64 :=
  (pool.pendingNonces addr).getD (ctx.stateNonce addr)

def cacheNonce (pool : TxsPool π) (addr : Address) : TxsPool π :=
  { pool with
    pendingNonces := update pool.pendingNonces addr (some (getNonce ctx pool addr)) }

def promoteTx (addr : Address) (pool : TxsPool π) (tx : Transaction) :
    TxsPool π :=
  let list := (pool.pending addr).getD (.new true)
  match list.add tx ctx.config.priceBump with
  | none =>
    let all := pool.all.remove ctx.lib (tx.hash ctx.lib)
    { pool with
      pending := update pool.pending addr (some list)
      all := all
      priced := ctx.pricing.removed all 1 pool.priced }
  | some (list, old) =>
    let all := old.elim pool.all fun old => pool.all.remove ctx.lib (old.hash ctx.lib)
    { pool with
      pending := update pool.pending addr (some list)
      all := all
      priced := old.elim pool.priced fun _ => ctx.pricing.removed all 1 pool.priced
      pendingNonces := update pool.pendingNonces addr (some (tx.nonce + 1)) }

section

variable (settings : PoolSettings π)

def promoteAccount (pool : TxsPool π) (addr : Address) : TxsPool π :=
  match pool.queue addr with
  | none => pool
  | some list =>
    let forwards := forward (ctx.stateNonce addr) list
    let drops := filter (ctx.stateBalance addr) pool.currentMaxGas forwards.2
    let readies := ready (getNonce ctx pool addr) drops.2
    let pool := cacheNonce ctx { pool with
      all := removeAll ctx.lib drops.1.1 (removeAll ctx.lib forwards.1 pool.all)
      queue := update pool.queue addr (some readies.2) } addr
    let pool := readies.1.foldl (promoteTx ctx addr) pool
    let caps := if pool.locals addr then ([], readies.2)
      else cap settings.accountQueue readies.2
    let all := removeAll ctx.lib caps.1 pool.all
    { pool with
      all := all
      priced := ctx.pricing.removed all caps.1.length pool.priced
      queue := update pool.queue addr (nonEmpty caps.2) }

section

variable (accounts : List Address)

section

variable (pool : TxsPool π)

def promoteExecutables :
    TxsPool π :=
  accounts.foldl (promoteAccount ctx settings) pool

def demoteAccount (addr : Address) : TxsPool π :=
  match pool.pending addr with
  | none => pool
  | some list =>
    let nonce := ctx.stateNonce addr
    let olds := forward nonce list
    let drops := filter (ctx.stateBalance addr) pool.currentMaxGas olds.2
    let pool := postpone ctx drops.1.2 { pool with
      all := removeAll ctx.lib drops.1.1 (removeAll ctx.lib olds.1 pool.all)
      pending := update pool.pending addr (some drops.2) }
    -- a gap in front
    let gapped := if drops.2.txs ≠ [] ∧ (drops.2.get nonce).isNone then cap 0 drops.2
      else ([], drops.2)
    let pool := postpone ctx gapped.1
      { pool with pending := update pool.pending addr (some gapped.2) }
    { pool with pending := update pool.pending addr (nonEmpty gapped.2) }

def demoteUnexecutables :
    TxsPool π :=
  accounts.foldl (demoteAccount ctx) pool

/-- A run-time panic, or a walk over the chain that has not ended. -/
inductive ReorgFailure where
  | panic
  | outOfFuel
deriving DecidableEq

def latestNonce (nonces : Address → Option UInt64) (addr : Address) :
    Except ReorgFailure (Address → Option UInt64) :=
  match pool.pending addr with
  | none => .ok nonces
  | some list =>
    match lastElement list with
    | none => .error .panic
    | some tx => .ok (update nonces addr (some (tx.nonce + 1)))

def latestNonces :
    Except ReorgFailure (Address → Option UInt64) :=
  accounts.foldlM (latestNonce pool) fun _ => none

end

def setAll : Action (TxsPool π) ReorgFailure Unit := do
  let pool ← get
  let nonces ← lift (latestNonces accounts pool)
  modify fun pool => { pool with pendingNonces := nonces }

/-- Take the last transaction from the pending list of an account.  The nonce is lowered
to the one of the transaction. -/
def cutPending (addr : Address) (list : TxsList) (pool : TxsPool π) :
    TxsPool π :=
  let caps := cap (list.txs.length - 1) list
  let pool := caps.1.foldl (fun pool tx => setIfLower ctx
    { pool with all := pool.all.remove ctx.lib (tx.hash ctx.lib) } addr tx.nonce)
    { pool with pending := update pool.pending addr (some caps.2) }
  { pool with priced := ctx.pricing.removed pool.all caps.1.length pool.priced }

def dropHighest (addr : Address) :
    Action (TxsPool π) ReorgFailure Unit := do
  let pool ← get
  let list ← require .panic (pool.pending addr)
  failIf (list.txs = []) .panic
  modify (cutPending ctx addr list)

/-- Take transactions from a group of accounts in turn until the pool is within its limit
or the last account of the group is down to the threshold.  Every round takes one from each
account, so the number of pending transactions bounds the rounds. -/
def equalize (ctx : PoolContext π) (threshold : Nat) (group : List Address) :
    Nat → Nat → Action (TxsPool π) ReorgFailure Nat
  | 0, pending => pure pending
  | rounds + 1, pending =>
    if pending ≤ ctx.config.globalSlots.toNat then pure pending
    else do
      let pool ← get
      let list ← require .panic (group.getLast?.bind pool.pending)
      if list.txs.length ≤ threshold then pure pending
      else do
        group.forM (dropHighest ctx)
        equalize ctx threshold group rounds (pending - group.length)

def penalize (ctx : PoolContext π) :
    List Address → List Address → Nat → Action (TxsPool π) ReorgFailure (List Address × Nat)
  | [], offenders, pending => pure (offenders, pending)
  | offender :: spammers, offenders, pending =>
    if pending ≤ ctx.config.globalSlots.toNat then pure (offenders, pending)
    else if offenders = [] then penalize ctx spammers [offender] pending
    else do
      let pool ← get
      let list ← require .panic (pool.pending offender)
      let pending ← equalize ctx list.txs.length offenders pending pending
      penalize ctx spammers (offenders ++ [offender]) pending

def listLength (lists : Address → Option TxsList) (addr : Address) : Nat :=
  (lists addr).elim 0 fun list => list.txs.length

/-- `truncatePending`.  Accounts with equally many transactions come in the given order. -/
def truncatePending :
    Action (TxsPool π) ReorgFailure Unit := do
  let pool ← get
  let pending := (accounts.map (listLength pool.pending)).sum
  if pending ≤ ctx.config.globalSlots.toNat then pure ()
  else do
    let spammers := accounts.filter fun addr =>
      !pool.locals addr && settings.accountSlots.toNat < listLength pool.pending addr
    let (offenders, pending) ← penalize ctx
      (spammers.insertionSort fun a b => listLength pool.pending b ≤ listLength pool.pending a)
      [] pending
    if ctx.config.globalSlots.toNat < pending ∧ offenders ≠ [] then do
      let _ ← equalize ctx settings.accountSlots.toNat offenders pending pending
      pure ()
    else pure ()

end

def dropQueued (ctx : PoolContext π) : List Address → Nat → TxsPool π → TxsPool π
  | [], _, pool => pool
  | addr :: accounts, drop, pool =>
    match pool.queue addr with
    | none => dropQueued ctx accounts drop pool
    | some list =>
      if drop = 0 then pool
      else if list.txs.length ≤ drop then
        dropQueued ctx accounts (drop - list.txs.length) ((flatten list).foldl
            (fun pool tx => removeTx ctx (tx.hash ctx.lib) true pool) pool)
      else
        ((flatten list).reverse.take drop).foldl
          (fun pool tx => removeTx ctx (tx.hash ctx.lib) true pool) pool

def truncateQueue (accounts : List Address) (pool : TxsPool π) :
    TxsPool π :=
  let queued := (accounts.map (listLength pool.queue)).sum
  if queued ≤ ctx.config.globalQueue.toNat then pool
  else
    dropQueued ctx (accounts.filter fun addr => !pool.locals addr)
      (queued - ctx.config.globalQueue.toNat) pool

/-! ## A new head -/

/-- The two blocks while the old and the new chain are walked back, and the transactions
passed so far. -/
structure Unwinding where
  rem : Block
  add : Block
  discarded : List Transaction
  included : List Transaction

/-- A missing parent, which ends the reset, or a walk that has not ended. -/
inductive WalkFailure where
  | unrooted
  | outOfFuel
deriving DecidableEq

def Unwinding.dropOld (getBlockByHash : Hash → Option Block) (w : Unwinding) :
    Except WalkFailure Unwinding :=
  match getBlockByHash w.rem.parentHash with
  | none => .error .unrooted
  | some parent =>
    .ok { w with rem := parent, discarded := w.discarded ++ w.rem.transactions }

def Unwinding.dropNew (getBlockByHash : Hash → Option Block) (w : Unwinding) :
    Except WalkFailure Unwinding :=
  match getBlockByHash w.add.parentHash with
  | none => .error .unrooted
  | some parent =>
    .ok { w with add := parent, included := w.included ++ w.add.transactions }

def walk (cond : Unwinding → Bool) (step : Unwinding → Except WalkFailure Unwinding) :
    Nat → Unwinding → Except WalkFailure Unwinding
  | 0, _ => .error .outOfFuel
  | fuel + 1, w => if cond w then step w >>= walk cond step fuel else .ok w

def txDifference (lib : Primitives) (a b : List Transaction) : List Transaction :=
  a.filter fun tx => tx.hash lib ∉ b.map fun tx => tx.hash lib

/-- The transactions that only the old chain has; none if the new block follows the old one
or is far from it.  The distance is taken in floating point numbers. -/
def reinjected (lib : Primitives) (getBlockByHash : Hash → Option Block) (fuel : Nat)
    (oldBlock : Option Block) (newBlock : Block) :
    Except WalkFailure (List Transaction) :=
  match oldBlock with
  | none => .ok []
  | some oldBlock =>
    let oldNum := oldBlock.number64.toNat
    let newNum := newBlock.number64.toNat
    if oldBlock.hash lib = newBlock.parentHash then .ok []
    else if 64 < floatDistance oldNum newNum then .ok []
    else do
      let w ← walk (fun w => w.add.header.number < w.rem.header.number)
        (Unwinding.dropOld getBlockByHash) fuel ⟨oldBlock, newBlock, [], []⟩
      let w ← walk (fun w => w.rem.header.number < w.add.header.number)
        (Unwinding.dropNew getBlockByHash) fuel w
      let w ← walk (fun w => w.rem.hash lib ≠ w.add.hash lib)
        (fun w => w.dropOld getBlockByHash >>= Unwinding.dropNew getBlockByHash) fuel w
      return txDifference lib w.discarded w.included

/-- The end of `reset`: the gas limit of the new head holds for the transactions that come
back, and the forks of the next block are set after them. -/
def reinject (newBlock : Block) (txs : List Transaction) :
    Action (TxsPool π) PoolError Unit := do
  modify fun pool => { pool with currentMaxGas := newBlock.header.gasLimit }
  let _ ← addTxsLocked ctx false txs
  modify fun pool =>
    { pool with
      istanbul := settings.chainconfig.isIstanbul (newBlock.number64 + 1)
      eip2718 := settings.chainconfig.isBerlin (newBlock.number64 + 1)
      eip1559 := settings.chainconfig.isLondon (newBlock.number64 + 1) }

/-- A request for a reset, with the chain as it is when it is served and the accounts of the
events that are due. -/
structure ResetRequest where
  oldBlock : Option Block
  newBlock : Block
  getBlockByHash : Hash → Option Block
  fuel : Nat
  events : List Address

def crash {α : Type} (x : Action (TxsPool π) PoolError α) :
    Action (TxsPool π) ReorgFailure α :=
  fun pool => ((x pool).1.mapError fun _ => .panic, (x pool).2)

def reset (request : ResetRequest) :
    Action (TxsPool π) ReorgFailure Unit :=
  match reinjected ctx.lib request.getBlockByHash request.fuel request.oldBlock
      request.newBlock with
  | .error .unrooted => pure ()
  | .error .outOfFuel => fail .outOfFuel
  | .ok txs => crash (reinject ctx settings request.newBlock txs)

structure Orders where
  promotion : List Address
  demotion : List Address
  settling : List Address
  spam : List Address
  heartbeat : List Address

def setBaseFee (settings : PoolSettings π) (newBlock : Block) (pool : TxsPool π) :
    TxsPool π :=
  if settings.chainconfig.isLondon (newBlock.number64 + 1) then
    { pool with priced := settings.setBaseFee pool.all newBlock.header pool.priced }
  else pool

def takeHead (request : ResetRequest) (orders : Orders) :
    Action (TxsPool π) ReorgFailure Unit := do
  reset ctx settings request
  modify fun pool => request.events.foldl (cacheNonce ctx) pool
  modify (promoteExecutables ctx settings orders.promotion)
  modify (demoteUnexecutables ctx orders.demotion)
  modify (setBaseFee settings request.newBlock)
  setAll orders.settling

def enforceLimits (orders : Orders) :
    Action (TxsPool π) ReorgFailure Unit := do
  truncatePending ctx settings orders.spam
  modify (truncateQueue ctx orders.heartbeat)
  modify fun pool => { pool with changesSinceReorg := 0 }

/-- `runReorg` without its events: with a reset every queued account is promoted, and
otherwise the dirty ones. -/
def runReorg (request : Option ResetRequest) (dirtyAccounts : List Address) (orders : Orders) :
    Action (TxsPool π) ReorgFailure Unit :=
  match request with
  | none => do
      modify (promoteExecutables ctx settings dirtyAccounts)
      enforceLimits ctx settings orders
  | some request => do
      takeHead ctx settings request orders
      enforceLimits ctx settings orders

end

end

end N42.PoolReorg
