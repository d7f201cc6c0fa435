import N42.TransactionExecution

/-!
The transaction pool as far as transactions enter it: the checks, the lists of pending
and queued transactions of each account, and the lookup by hash.  The price heaps are a
parameter.
-/

namespace N42.PoolAdmission

open ChainTypes Transactions StatefulActions StatefulActions.Action
open TransactionExecution (intrinsicGas TxError)

/-- `panic` stands for a run-time panic, which ends the process. -/
inductive PoolError where
  | errAlreadyKnown
  | errInvalidSender
  | errTxTypeNotSupported
  | errOversizedData
  | errNegativeValue
  | errGasLimit
  | errTipAboveFeeCap
  | errUnderpriced
  | errNonceTooLow
  | errInsufficientFunds
  | errGasUintOverflow
  | errIntrinsicGas
  | errAlreadyDeposited
  | errTxPoolOverflow
  | errReplaceUnderpriced
  | panic
deriving DecidableEq

structure TxsPoolConfig where
  noLocals : Bool
  priceBump : UInt64
  globalSlots : UInt64
  globalQueue : UInt64

/-- `txLookup`: two maps from the hash of a transaction to it, kept as lists. -/
structure TxLookup where
  slots : Int
  locals : List Transaction
  remotes : List Transaction

namespace TxLookup

variable (lib : Primitives)

def get (all : TxLookup) (hash : Hash) : Option Transaction :=
  (all.locals.find? fun tx => tx.hash lib = hash).or
    (all.remotes.find? fun tx => tx.hash lib = hash)

def pointerSize : Nat := 8

def txSlotSize : Nat := 32 * 1024

def txMaxSize : Nat := 4 * txSlotSize

def numSlots : Int :=
  ((pointerSize + txSlotSize - 1) / txSlotSize : Nat)

def others (hash : Hash) (txs : List Transaction) : List Transaction :=
  txs.filter fun tx => tx.hash lib ≠ hash

def add (all : TxLookup) (tx : Transaction) (isLocal : Bool) : TxLookup :=
  if isLocal then
    { all with slots := all.slots + numSlots, locals := tx :: others lib (tx.hash lib) all.locals }
  else
    { all with
      slots := all.slots + numSlots
      remotes := tx :: others lib (tx.hash lib) all.remotes }

def remove (all : TxLookup) (hash : Hash) : TxLookup :=
  if (all.get lib hash).isNone then all
  else
    { slots := all.slots - numSlots
      locals := others lib hash all.locals
      remotes := others lib hash all.remotes }

def remoteToLocals (all : TxLookup) (isLocal : Address → Bool) : TxLookup × Nat :=
  let migrated := all.remotes.filter fun tx => tx.fromAddress.any isLocal
  ({ all with
      locals := migrated ++ all.locals.filter fun tx =>
        migrated.all fun moved => tx.hash lib ≠ moved.hash lib
      remotes := all.remotes.filter fun tx => !tx.fromAddress.any isLocal }, migrated.length)

end TxLookup

structure TxsList where
  strict : Bool
  txs : List Transaction
  costcap : Uint256
  gascap : UInt64

namespace TxsList

def new (strict : Bool) : TxsList :=
  ⟨strict, [], 0, 0⟩

def get (l : TxsList) (nonce : UInt64) : Option Transaction :=
  l.txs.find? fun tx => tx.nonce = nonce

def overlaps (l : TxsList) (tx : Transaction) : Bool :=
  (l.get tx.nonce).isSome

def threshold (priceBump : UInt64) (fee : Uint256) : Uint256 :=
  BitVec.ofNat 256 (100 + priceBump).toNat * fee / 100

def replaces (priceBump : UInt64) (old tx : Transaction) : Bool :=
  old.gasFeeCap ≤ tx.gasFeeCap && old.gasTipCap ≤ tx.gasTipCap &&
    threshold priceBump old.gasFeeCap ≤ tx.gasFeeCap &&
    threshold priceBump old.gasTipCap ≤ tx.gasTipCap

def add (l : TxsList) (tx : Transaction) (priceBump : UInt64) :
    Option (TxsList × Option Transaction) :=
  let old := l.get tx.nonce
  if old.all fun old => replaces priceBump old tx then
    some ({ l with
      txs := tx :: l.txs.filter fun other => other.nonce ≠ tx.nonce
      costcap := if l.costcap < tx.cost then tx.cost else l.costcap
      gascap := if l.gascap < tx.gas then tx.gas else l.gascap }, old)
  else none

/-- `Remove`; a strict list also gives up what comes after the transaction. -/
def remove (l : TxsList) (tx : Transaction) : Option (TxsList × List Transaction) :=
  if (l.get tx.nonce).isNone then none
  else
    let rest := l.txs.filter fun other => other.nonce ≠ tx.nonce
    if l.strict then
      some ({ l with txs := rest.filter fun other => other.nonce ≤ tx.nonce },
        rest.filter fun other => tx.nonce < other.nonce)
    else some ({ l with txs := rest }, [])

end TxsList

/-- `txPricedList`, the price heaps over the remote transactions. -/
structure Pricing (π : Type) where
  underpriced : Primitives → TxLookup → Transaction → π → Bool × π
  discard : Primitives → TxLookup → Int → Bool → π → (List Transaction × Bool) × π
  put : Transaction → Bool → π → π
  removed : TxLookup → Nat → π → π

/-- The deposit contract: who has deposited, and which transactions deposit. -/
structure DepositContract where
  deposited : Address → Bool
  isDepositAction : Transaction → Bool

structure PoolContext (π : Type) where
  lib : Primitives
  config : TxsPoolConfig
  pricing : Pricing π
  deposit : Option DepositContract
  /-- The account table of the head state. -/
  stateNonce : Address → UInt64
  stateBalance : Address → Uint256

structure TxsPool (π : Type) where
  currentMaxGas : UInt64
  istanbul : Bool
  eip2718 : Bool
  eip1559 : Bool
  shanghai : Bool
  gasPrice : Uint256
  locals : Address → Bool
  pending : Address → Option TxsList
  queue : Address → Option TxsList
  pendingNonces : Address → Option UInt64
  all : TxLookup
  priced : π
  changesSinceReorg : Nat

variable {π : Type}

def update {β : Type} (m : Address → β) (address : Address) (value : β) : Address → β :=
  fun a => if a = address then value else m a

def derefFrom (tx : Transaction) : Except PoolError Address :=
  match tx.fromAddress with
  | none => .error .panic
  | some address => .ok address

def PoolError.ofTxError : TxError → PoolError
  | .errGasUintOverflow => .errGasUintOverflow
  | _ => .panic

/-- The checks that depend on the transaction alone: its fields and the forks. -/
def TxsPool.validateFields (pool : TxsPool π) (tx : Transaction) : Except PoolError Address := do
  FallibleRuns.failIf (pool.eip2718 = false ∧ tx.txType ≠ 0) .errTxTypeNotSupported
  FallibleRuns.failIf (pool.eip1559 = false ∧ tx.txType = 2) .errTxTypeNotSupported
  let address ← derefFrom tx
  FallibleRuns.failIf (TxLookup.txMaxSize < TxLookup.pointerSize) .errOversizedData
  -- the sign is the one of a two's complement integer
  FallibleRuns.failIf (tx.value.msb = true) .errNegativeValue
  FallibleRuns.failIf (pool.currentMaxGas < tx.gas) .errGasLimit
  FallibleRuns.failIf (tx.gasFeeCap < tx.gasTipCap) .errTipAboveFeeCap
  return address

section

variable (ctx : PoolContext π)

/-- `validateTx`.  The signature is not looked at. -/
def validateTx (pool : TxsPool π) (tx : Transaction) (isLocal : Bool) :
    Except PoolError Unit := do
  let address ← pool.validateFields tx
  FallibleRuns.failIf (isLocal = false ∧ tx.gasPrice < pool.gasPrice) .errUnderpriced
  FallibleRuns.failIf (tx.nonce < ctx.stateNonce address) .errNonceTooLow
  FallibleRuns.failIf (ctx.stateBalance address < tx.cost) .errInsufficientFunds
  let intrGas ← (intrinsicGas tx.data tx.accesses tx.toAddress.isNone true pool.istanbul
    pool.shanghai).mapError PoolError.ofTxError
  FallibleRuns.failIf (tx.gas < intrGas) .errIntrinsicGas
  FallibleRuns.failIf (ctx.deposit.any fun deposit =>
    deposit.deposited address && deposit.isDepositAction tx) .errAlreadyDeposited

/-- `validateSender`, which is yet to be written. -/
def validateSender (_tx : Transaction) : Bool :=
  true

def enqueueTx (tx : Transaction) (isLocal addAll : Bool) :
    Action (TxsPool π) PoolError Bool := do
  let sender ← lift (derefFrom tx)
  let pool ← get
  let list := (pool.queue sender).getD (.new false)
  match list.add tx ctx.config.priceBump with
  | none => do
      modify fun pool => { pool with queue := update pool.queue sender (some list) }
      fail .errReplaceUnderpriced
  | some (list, old) => do
      modify fun pool =>
        let all := old.elim pool.all fun old => pool.all.remove ctx.lib (old.hash ctx.lib)
        let priced := old.elim pool.priced fun _ => ctx.pricing.removed all 1 pool.priced
        { pool with
          queue := update pool.queue sender (some list)
          all := if addAll then all.add ctx.lib tx isLocal else all
          priced := if addAll then ctx.pricing.put tx isLocal priced else priced }
      return old.isSome

def setIfLower (pool : TxsPool π) (address : Address) (nonce : UInt64) : TxsPool π :=
  let current := (pool.pendingNonces address).getD (ctx.stateNonce address)
  { pool with
    pendingNonces := update pool.pendingNonces address
      (some (if current ≤ nonce then current else nonce)) }

def nonEmpty (list : TxsList) : Option TxsList :=
  if list.txs.isEmpty then none else some list

/-- Put the given transactions back into the queue; what the queue refuses is dropped. -/
def postpone (ctx : PoolContext π) : List Transaction → TxsPool π → TxsPool π
  | [], pool => pool
  | tx :: txs, pool => postpone ctx txs (enqueueTx ctx tx false false pool).2

def removeTx (hash : Hash) (outofbound : Bool) (pool : TxsPool π) :
    TxsPool π :=
  match pool.all.get ctx.lib hash with
  | none => pool
  | some tx =>
    match tx.fromAddress with
    | none => pool
    | some address =>
      let all := pool.all.remove ctx.lib hash
      let priced := if outofbound then ctx.pricing.removed all 1 pool.priced else pool.priced
      let pool := { pool with all := all, priced := priced }
      match (pool.pending address).bind fun list => list.remove tx with
      | some (list, invalids) =>
        setIfLower ctx (postpone ctx invalids
          { pool with pending := update pool.pending address (nonEmpty list) }) address tx.nonce
      | none =>
        match pool.queue address with
        | none => pool
        | some list =>
          let list := (list.remove tx).elim list Prod.fst
          { pool with queue := update pool.queue address (nonEmpty list) }

def makeRoom (tx : Transaction) (isLocal : Bool) :
    Action (TxsPool π) PoolError Unit := do
  let pool ← get
  let cheap := ctx.pricing.underpriced ctx.lib pool.all tx pool.priced
  modify fun pool => { pool with priced := if isLocal then pool.priced else cheap.2 }
  failIf (isLocal = false ∧ cheap.1 = true) .errUnderpriced
  failIf ((ctx.config.globalSlots / 4).toNat < pool.changesSinceReorg) .errTxPoolOverflow
  let pool ← get
  let room := (ctx.config.globalSlots + ctx.config.globalQueue).toNat
  let discarded := ctx.pricing.discard ctx.lib pool.all
    (pool.all.slots - room + TxLookup.numSlots) isLocal pool.priced
  modify fun pool => { pool with priced := discarded.2 }
  failIf (isLocal = false ∧ discarded.1.2 = false) .errTxPoolOverflow
  modify fun pool =>
    discarded.1.1.foldl (fun pool tx => removeTx ctx (tx.hash ctx.lib) false pool)
      { pool with changesSinceReorg := pool.changesSinceReorg + discarded.1.1.length }

def isFull (pool : TxsPool π) : Bool :=
  ((ctx.config.globalSlots + ctx.config.globalQueue).toNat : Int) <
    (pool.all.slots + TxLookup.numSlots) % 2 ^ 64

def replacePending (sender : Address) (list : TxsList) (tx : Transaction) (isLocal : Bool) :
    Action (TxsPool π) PoolError Bool := do
  match list.add tx ctx.config.priceBump with
  | none => fail .errReplaceUnderpriced
  | some (list, old) => do
      modify fun pool =>
        let all := old.elim pool.all fun old => pool.all.remove ctx.lib (old.hash ctx.lib)
        let priced := old.elim pool.priced fun _ => ctx.pricing.removed all 1 pool.priced
        { pool with
          pending := update pool.pending sender (some list)
          all := all.add ctx.lib tx isLocal
          priced := ctx.pricing.put tx isLocal priced }
      return old.isSome

def markLocal (sender : Address) (pool : TxsPool π) : TxsPool π :=
  if pool.locals sender then pool
  else
    let locals := update pool.locals sender true
    let migrated := pool.all.remoteToLocals ctx.lib locals
    { pool with
      locals := locals
      all := migrated.1
      priced := ctx.pricing.removed migrated.1 migrated.2 pool.priced }

def insert (sender : Address) (tx : Transaction) (wasLocal isLocal : Bool) :
    Action (TxsPool π) PoolError Bool := do
  let pool ← get
  match (pool.pending sender).filter fun list => list.overlaps tx with
  | some list => replacePending ctx sender list tx isLocal
  | none => do
      let replaced ← enqueueTx ctx tx isLocal true
      modify fun pool => if wasLocal then markLocal ctx sender pool else pool
      return replaced

def add (tx : Transaction) (wasLocal : Bool) :
    Action (TxsPool π) PoolError Bool := do
  let pool ← get
  failIf ((pool.all.get ctx.lib (tx.hash ctx.lib)).isSome) .errAlreadyKnown
  failIf (wasLocal = false ∧ tx.fromAddress.isNone) .panic
  let isLocal := wasLocal || tx.fromAddress.any pool.locals
  lift (validateTx ctx pool tx isLocal)
  let sender ← lift (derefFrom tx)
  if isFull ctx pool then do
    makeRoom ctx tx isLocal
    insert ctx sender tx wasLocal isLocal
  else insert ctx sender tx wasLocal isLocal

/-- The error of `add` as a value; a panic remains one. -/
def tryAdd (tx : Transaction) (isLocal : Bool) :
    Action (TxsPool π) PoolError (Option PoolError) := fun pool =>
  match add ctx tx isLocal pool with
  | (.ok _, pool) => (.ok none, pool)
  | (.error .panic, pool) => (.error .panic, pool)
  | (.error e, pool) => (.ok (some e), pool)

def addTxsLocked (ctx : PoolContext π) (isLocal : Bool) :
    List Transaction → Action (TxsPool π) PoolError (List (Option PoolError))
  | [] => pure []
  | tx :: txs => do
      let err ← tryAdd ctx tx isLocal
      let errs ← addTxsLocked ctx isLocal txs
      return err :: errs

def knownError (pool : TxsPool π) (tx : Transaction) :
    Option PoolError :=
  if (pool.all.get ctx.lib (tx.hash ctx.lib)).isSome then some .errAlreadyKnown
  else if !validateSender tx then some .errInvalidSender
  else none

def mergeErrors : List (Option PoolError) → List (Option PoolError) → List (Option PoolError)
  | some e :: errs, newErrs => some e :: mergeErrors errs newErrs
  | none :: errs, err :: newErrs => err :: mergeErrors errs newErrs
  | none :: errs, [] => none :: mergeErrors errs []
  | [], _ => []

/-- `addTxs` up to the promotion of the queued transactions. -/
def addTxs (txs : List Transaction) (isLocal : Bool) :
    Action (TxsPool π) PoolError (List (Option PoolError)) := do
  let pool ← get
  let errs := txs.map (knownError ctx pool)
  let newErrs ← addTxsLocked ctx isLocal
    (txs.filter fun tx => (knownError ctx pool tx).isNone)
  return mergeErrors errs newErrs

def addLocals (txs : List Transaction) :
    Action (TxsPool π) PoolError (List (Option PoolError)) :=
  addTxs ctx txs (!ctx.config.noLocals)

def addRemotes (txs : List Transaction) :
    Action (TxsPool π) PoolError (List (Option PoolError)) :=
  addTxs ctx txs false

end

end N42.PoolAdmission
