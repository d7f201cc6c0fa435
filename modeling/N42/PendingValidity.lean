import N42.IntrinsicGasBounds
import N42.PoolRuns
import N42.SenderBinding

/-!
Whether the pending transactions can be executed in the next block.  The pool computes the
cost modulo the size of a word and knows nothing of the gas for the words of creation code.
-/

namespace N42.PendingValidity

open ChainTypes Transactions StatefulActions StatefulActions.Action
open MessageCalls (EVM)
open TransactionExecution IntrinsicGasBounds PoolAdmission AdmissionConditions
open PoolLists PoolReorg PoolSoundness PoolAdditions PoolPromotion
open PoolDemotion PoolLimits PoolConsistency PoolRuns SenderBinding

section Checks

variable {π : Type} {ctx : PoolContext π} {pool : TxsPool π} {tx : Transaction}
  {config : ChainConfig} {number : UInt64} {balance : Uint256}

/-- What `validateTx` has made sure of under the fork indicators of a pool. -/
structure Fits (flags : Bool × Bool × Bool × Bool) (tx : Transaction) : Prop where
  sized : Sized tx.data tx.accesses
  berlin : flags.2.1 = false → tx.txType = 0
  london : flags.2.2.1 = false → tx.txType ≠ 2
  caps : tx.gasTipCap ≤ tx.gasFeeCap
  gas : gasNeeded tx.data tx.accesses tx.toAddress.isNone true flags.1 flags.2.2.2 ≤ tx.gas.toNat

/-- What a transaction needs in order to be executed in a block, if it is the next one of its
sender. -/
structure Executable (config : ChainConfig) (number : UInt64) (balance : Uint256)
    (tx : Transaction) : Prop where
  berlin : config.isBerlin number = false → tx.txType = 0
  london : config.isLondon number = false → tx.txType ≠ 2
  caps : tx.gasTipCap ≤ tx.gasFeeCap
  funds : tx.value.toNat + tx.gas.toNat * tx.gasFeeCap.toNat ≤ balance.toNat
  gas : ∃ gas, intrinsicGas tx.data tx.accesses tx.toAddress.isNone (config.isHomestead number)
    (config.isIstanbul number) (config.isShanghai number) = .ok gas ∧ gas ≤ tx.gas

def NoWrap (tx : Transaction) : Prop :=
  tx.gas.toNat * tx.gasFeeCap.toNat + tx.value.toNat < 2 ^ 256

def InitCodePaid (config : ChainConfig) (number : UInt64) (tx : Transaction) : Prop :=
  config.isShanghai number = true → tx.toAddress = none →
    gasNeeded tx.data tx.accesses true (config.isHomestead number) (config.isIstanbul number)
      true ≤ tx.gas.toNat

/-- The forks that a pool goes by are not undone in the given block. -/
structure Upholds (config : ChainConfig) (number : UInt64)
    (flags : Bool × Bool × Bool × Bool) : Prop where
  istanbul : flags.1 = true → config.isIstanbul number = true
  berlin : flags.2.1 = true → config.isBerlin number = true
  london : flags.2.2.1 = true → config.isLondon number = true

theorem fits_of_validateTx {isLocal : Bool} (hsized : Sized tx.data tx.accesses)
    (h : validateTx ctx pool tx isLocal = .ok ()) : Fits (forks pool) tx := by
  rw [validateTx, FallibleRuns.bind_eq_ok_iff] at h
  obtain ⟨address, hfields, h⟩ := h
  rw [FallibleRuns.seq_eq_ok_iff, FallibleRuns.seq_eq_ok_iff, FallibleRuns.seq_eq_ok_iff,
    FallibleRuns.bind_eq_ok_iff] at h
  obtain ⟨-, -, -, gas, hgas, h⟩ := h
  rw [FallibleRuns.seq_eq_ok_iff, FallibleRuns.failIf_eq_ok_iff, UInt64.not_lt] at h
  rw [FallibleRuns.mapError_eq_ok_iff] at hgas
  obtain ⟨hberlin, hlondon, -, -, -, hcaps⟩ := validateFields_eq_ok_iff.mp hfields
  obtain ⟨gas', hgas', hneeded⟩ := intrinsicGas_of_sized hsized tx.toAddress.isNone true
    pool.istanbul pool.shanghai
  obtain rfl := Except.ok.inj (hgas'.symm.trans hgas)
  exact ⟨hsized, hberlin, hlondon, hcaps, hneeded ▸ UInt64.le_iff_toNat_le.mp h.1⟩

theorem gasPrice_eq_gasFeeCap (tx : Transaction) : tx.gasPrice = tx.gasFeeCap := by
  cases tx with
  | legacy _ => rfl
  | accessList _ => rfl
  | dynamicFee _ => rfl

theorem toNat_cost (h : NoWrap tx) :
    tx.cost.toNat = tx.gas.toNat * tx.gasFeeCap.toNat + tx.value.toNat := by
  have hgas : (BitVec.ofNat 256 tx.gas.toNat).toNat = tx.gas.toNat := by
    rw [BitVec.toNat_ofNat, Nat.mod_eq_of_lt (Nat.lt_of_lt_of_le tx.gas.toNat_lt (by decide))]
  rw [NoWrap] at h
  rw [Transaction.cost, BitVec.toNat_add, BitVec.toNat_mul, hgas, gasPrice_eq_gasFeeCap,
    Nat.mul_comm, Nat.mod_eq_of_lt (by omega : _ * _ < 2 ^ 256), Nat.mod_eq_of_lt h]

/-- A transaction that was valid before the given block, and whose cost modulo the size of a
word is covered, can be executed if and only if the cost is not larger than a word and the
creation code is paid for. -/
theorem Fits.executable_iff {flags : Bool × Bool × Bool × Bool} (h : Fits flags tx)
    (hflags : Upholds config number flags) (hcost : tx.cost ≤ balance) :
    Executable config number balance tx ↔ NoWrap tx ∧ InitCodePaid config number tx := by
  obtain ⟨gas, hgas, hneeded⟩ := intrinsicGas_of_sized h.sized tx.toAddress.isNone
    (config.isHomestead number) (config.isIstanbul number) (config.isShanghai number)
  constructor
  · intro hexec
    have hfunds := hexec.funds
    refine ⟨by rw [NoWrap]; omega, fun hshanghai hcreation => ?_⟩
    obtain ⟨gas', hgas', henough⟩ := hexec.gas
    obtain rfl := Except.ok.inj (hgas'.symm.trans hgas)
    rw [hshanghai, hcreation] at hneeded
    exact hneeded ▸ UInt64.le_iff_toNat_le.mp henough
  · rintro ⟨hwrap, hcode⟩
    have hfunds := BitVec.le_def.mp hcost
    rw [toNat_cost hwrap] at hfunds
    refine ⟨fun hoff => h.berlin ?_, fun hoff => h.london ?_, h.caps, by omega, gas, hgas, ?_⟩
    · exact Bool.eq_false_iff.mpr fun hon => Bool.eq_false_iff.mp hoff (hflags.berlin hon)
    · exact Bool.eq_false_iff.mpr fun hon => Bool.eq_false_iff.mp hoff (hflags.london hon)
    · rw [UInt64.le_iff_toNat_le, hneeded]
      cases hwords : tx.toAddress.isNone && config.isShanghai number with
      | false =>
        exact (gasNeeded_mono hflags.istanbul fun hcounted =>
          absurd hcounted (Bool.eq_false_iff.mp hwords)).trans h.gas
      | true =>
        rw [Bool.and_eq_true] at hwords
        rw [hwords.1, hwords.2]
        exact hcode hwords.2 (Option.isNone_iff_eq_none.mp hwords.1)

theorem Executable.checks {ξ : Type} {env : Environment ξ} {msg : Message} {evm : EVM ξ}
    {st : StateTransition ξ} (hmessage : env.message tx = .ok (msg, evm))
    (h : Executable env.chainConfig env.header.number64 (st.state.getBalance msg.fromAddress) tx)
    (hsender : msg.checkNonce = true → checkSender evm.lib msg st.state = .ok ())
    (hfee : env.header.baseFee.getD 0 ≤ tx.gasFeeCap) (hgp : tx.gas ≤ st.gp) (hgas : st.gas = 0) :
    ∃ st', (preCheck evm msg false >>= fun _ => useIntrinsicGas evm msg) st = (.ok (), st') := by
  obtain ⟨context, hcontext, hrest⟩ := FallibleRuns.bind_eq_ok_iff.mp hmessage
  rw [Environment.blockContext] at hcontext
  split at hcontext
  · cases hcontext
  obtain rfl := Except.ok.inj hcontext
  cases hmsg : tx.asMessage env.signer env.header.baseFee with
  | none =>
    rw [hmsg] at hrest
    cases hrest
  | some plain =>
    rw [hmsg] at hrest
    obtain ⟨rfl, rfl⟩ := Prod.mk.inj (Except.ok.inj hrest)
    obtain ⟨sender, -, rfl⟩ := Option.map_eq_some_iff.mp hmsg
    have hprice : (effectiveGasPrice tx env.header.baseFee).toNat ≤ tx.gasFeeCap.toNat :=
      BitVec.le_def.mp (effectiveGasPrice_le tx env.header.baseFee)
    have hprices := Nat.mul_le_mul_left tx.gas.toNat hprice
    have hfunds := h.funds
    obtain ⟨gas, hneeded, henough⟩ := h.gas
    refine ⟨_, bind_eq_ok_iff.mpr ⟨(), _, preCheck_eq_ok_iff.mpr ⟨hsender, fun _ => ?_,
      buyGas_eq_ok_iff.mpr ⟨?_, ?_, fun _ => ?_, fun _ => hgp, rfl⟩⟩,
      useIntrinsicGas_eq_ok_iff.mpr ⟨gas, hneeded, ?_, rfl⟩⟩⟩
    · rw [checkEip1559TxGasFeeCap, FallibleRuns.seq_eq_ok_iff, FallibleRuns.failIf_eq_ok_iff,
        FallibleRuns.failIf_eq_ok_iff, BitVec.not_lt]
      exact ⟨h.caps, fun hlow => BitVec.not_lt.mpr hfee hlow.1⟩
    · dsimp only at hfunds ⊢
      omega
    · rw [maxCost]
      dsimp only at hfunds ⊢
      omega
    · rw [maxCost]
      dsimp only at hfunds ⊢
      omega
    · rw [purchase, hgas]
      rwa [UInt64.zero_add]

theorem checks_forgedTransfer : ∃ msg evm st',
    toyEnvironment.message forgedTransfer = .ok (msg, evm) ∧
      (preCheck evm msg false >>= fun _ => useIntrinsicGas evm msg)
        ⟨21000, 0, 0, toyBlockState.ibs⟩ = (.ok (), st') := by
  have hmessage : toyEnvironment.message forgedTransfer = .ok (_, _) := rfl
  obtain ⟨st', h⟩ := @Executable.checks _ _ _ _ _ ⟨21000, 0, 0, toyBlockState.ibs⟩ hmessage
    ⟨by decide, by decide, by decide, by decide +kernel, 21000, by decide +kernel, by decide⟩
    (fun _ => rfl) (by decide) (by decide) rfl
  exact ⟨_, _, st', hmessage, h⟩

theorem Fits.mono {flags flags' : Bool × Bool × Bool × Bool} (h : Fits flags tx)
    (histanbul : flags.1 = true → flags'.1 = true) (hberlin : flags.2.1 = true → flags'.2.1 = true)
    (hlondon : flags.2.2.1 = true → flags'.2.2.1 = true) (hshanghai : flags'.2.2.2 = flags.2.2.2) :
    Fits flags' tx := by
  refine ⟨h.sized, fun hoff => h.berlin ?_, fun hoff => h.london ?_, h.caps, ?_⟩
  · exact Bool.eq_false_iff.mpr fun hon => Bool.eq_false_iff.mp hoff (hberlin hon)
  · exact Bool.eq_false_iff.mpr fun hon => Bool.eq_false_iff.mp hoff (hlondon hon)
  · refine (gasNeeded_mono histanbul fun hcounted => ?_).trans h.gas
    rw [← hshanghai]
    exact (Bool.and_eq_true_iff.mp hcounted).2

end Checks

section Pending

variable {π : Type} {ctx : PoolContext π} {pool pool' : TxsPool π} {accounts : List Address}
  {P : Transaction → Prop} {settings : PoolSettings π} {request : ResetRequest}
  {orders : Orders}

theorem keeps_forks_addTxsLocked (isLocal : Bool) (txs : List Transaction) :
    Keeps forks (addTxsLocked ctx isLocal txs) := by
  induction txs with
  | nil => exact keeps_pure _
  | cons tx txs ih =>
    exact keeps_bind (keeps_forks_tryAdd tx isLocal) fun _ => keeps_bind ih fun _ => keeps_pure _

theorem keeps_forks_addTxs (isLocal : Bool) (txs : List Transaction) :
    Keeps forks (addTxs ctx txs isLocal) :=
  keeps_bind keeps_get fun _ => keeps_bind (keeps_forks_addTxsLocked isLocal _) fun _ =>
    keeps_pure _

theorem forks_reset (hreset : reset ctx settings request pool = (.ok (), pool')) :
    forks pool' = forks pool ∨
      forks pool' = (settings.chainconfig.isIstanbul (request.newBlock.number64 + 1),
        settings.chainconfig.isBerlin (request.newBlock.number64 + 1),
        settings.chainconfig.isLondon (request.newBlock.number64 + 1), pool.shanghai) := by
  rw [reset] at hreset
  cases heq : reinjected ctx.lib request.getBlockByHash request.fuel request.oldBlock
      request.newBlock with
  | error e =>
    rw [heq] at hreset
    cases e with
    | unrooted =>
      obtain rfl := (Prod.mk.inj hreset).2
      exact .inl rfl
    | outOfFuel => cases hreset
  | ok txs =>
    rw [heq] at hreset
    rcases hrun : reinject ctx settings request.newBlock txs pool with ⟨result, t⟩
    simp only [crash, hrun, Prod.mk.injEq, FallibleRuns.mapError_eq_ok_iff] at hreset
    obtain ⟨rfl, rfl⟩ := hreset
    have hforks : forks (addTxsLocked ctx false txs
        { pool with currentMaxGas := request.newBlock.header.gasLimit }).2 = forks pool :=
      keeps_forks_addTxsLocked false txs _
    simp only [reinject, bind_eq_ok_iff, modify_eq_ok_iff] at hrun
    obtain ⟨_, _, rfl, _, mid, hadded, rfl⟩ := hrun
    rw [hadded] at hforks
    have hshanghai : mid.shanghai = pool.shanghai := congrArg (fun flags => flags.2.2.2) hforks
    refine .inr ?_
    rw [← hshanghai]
    rfl

def Shrinks (pool pool' : TxsPool π) : Prop :=
  forks pool' = forks pool ∧ ∀ a, ∀ tx ∈ txsOf (pool'.pending a), tx ∈ txsOf (pool.pending a)

theorem Shrinks.trans {pool'' : TxsPool π} (h : Shrinks pool pool') (h' : Shrinks pool' pool'') :
    Shrinks pool pool'' :=
  ⟨h'.1.trans h.1, fun a tx htx => h.2 a tx (h'.2 a tx htx)⟩

theorem shrinks_update {a : Address} {l : TxsList} {list : Option TxsList}
    (hpending : pool.pending a = some l) (hforks : forks pool' = forks pool)
    (hpool' : pool'.pending = update pool.pending a list)
    (hsub : ∀ tx ∈ txsOf list, tx ∈ l.txs) : Shrinks pool pool' := by
  refine ⟨hforks, fun b tx htx => ?_⟩
  rw [hpool'] at htx
  rcases eq_or_ne b a with rfl | hne
  · rw [update_self] at htx
    rw [hpending]
    exact hsub tx htx
  · rwa [update_of_ne _ _ hne] at htx

theorem shrinks_dropHighest (a : Address) (pool : TxsPool π) :
    Shrinks pool (dropHighest ctx a pool).2 := by
  rw [dropHighest, get_bind]
  cases hpending : pool.pending a with
  | none => exact ⟨rfl, fun _ _ => id⟩
  | some l =>
    refine failIf_induction (fun _ => ⟨rfl, fun _ _ => id⟩) fun hne => ?_
    change Shrinks pool (cutPending ctx a l pool)
    obtain ⟨init, last, hflatten, hcap⟩ := exists_cap_eq hne
    rw [cutPending, hcap]
    refine shrinks_update hpending rfl rfl fun tx htx => ?_
    refine (perm_flatten l).mem_iff.mp ?_
    rw [hflatten]
    exact List.mem_append_left _ htx

theorem shrinks_removeTx (h : Sound ctx.lib accounts P noLoose pool) (hash : Hash)
    (outofbound : Bool) : Shrinks pool (removeTx ctx hash outofbound pool) := by
  rcases removeTx_cases h hash outofbound with ⟨-, heq⟩ |
    ⟨a, l, tx, -, hpending, htx, heq⟩ | ⟨a, l, tx, -, -, -, heq⟩
  · rw [heq]
    exact ⟨rfl, fun _ _ => id⟩
  · obtain ⟨-, queue, hcut⟩ := sound_cutAt h hpending htx (pricedWithout ctx tx outofbound pool)
    rw [heq, hcut]
    refine shrinks_update hpending rfl rfl fun other hother => ?_
    rw [txsOf_nonEmpty] at hother
    exact (List.mem_filter.mp hother).1
  · rw [heq]
    exact ⟨rfl, fun _ _ => id⟩

theorem shrinks_enforceLimits (settings : PoolSettings π) (orders : Orders)
    (h : Sound ctx.lib accounts P noLoose pool) :
    Sound ctx.lib accounts P noLoose (enforceLimits ctx settings orders pool).2 ∧
      Shrinks pool (enforceLimits ctx settings orders pool).2 :=
  enforceLimits_induction
    (I := fun pool' => Sound ctx.lib accounts P noLoose pool' ∧ Shrinks pool pool')
    (fun _ a h => ⟨(kept_dropHighest (Kept.ofBooks h.1) a).books,
      h.2.trans (shrinks_dropHighest a _)⟩)
    (fun _ hash h => ⟨((Kept.ofBooks h.1).removeTx hash true).books,
      h.2.trans (shrinks_removeTx h.1 hash true)⟩)
    settings orders (fun _ h => ⟨h.1.of_eq rfl rfl rfl, h.2⟩) ⟨h, rfl, fun _ _ => id⟩

end Pending

section Runs

variable {π : Type} {ctx : PoolContext π} {settings : PoolSettings π} {accounts : List Address}
  {start node next : PoolNode π}

def Bounded (accounts : List Address) (tx : Transaction) : Prop :=
  SentFrom accounts tx ∧ Sized tx.data tx.accesses

structure Advances (ctx : PoolContext π) (settings : PoolSettings π) (accounts : List Address)
    (pool : TxsPool π) (request : ResetRequest) (orders : Orders) : Prop where
  orders : Along orders accounts
  returned : ∀ txs, reinjected ctx.lib request.getBlockByHash request.fuel request.oldBlock
    request.newBlock = .ok txs → ∀ tx ∈ txs, Bounded accounts tx
  upholds : Upholds settings.chainconfig (request.newBlock.number64 + 1) (forks pool)

def UndoesNoFork (ctx : PoolContext π) (settings : PoolSettings π) (accounts : List Address)
    (node : PoolNode π) : Operation → Prop
  | .addLocals txs => ∀ tx ∈ txs, Bounded accounts tx
  | .addRemotes txs => ∀ tx ∈ txs, Bounded accounts tx
  | .removeTx _ _ => True
  | .promote _ _ => True
  | .write _ => True
  | .head _ request orders => Advances ctx settings accounts node.pool request orders

inductive ForwardRun (ctx : PoolContext π) (settings : PoolSettings π) (accounts : List Address)
    (start : PoolNode π) : PoolNode π → Prop
  | refl : ForwardRun ctx settings accounts start start
  | step {node next : PoolNode π} (op : Operation) (h : ForwardRun ctx settings accounts start node)
      (hforward : UndoesNoFork ctx settings accounts node op)
      (hop : perform ctx settings node op = some next) : ForwardRun ctx settings accounts start next

def AllFit (lib : Primitives) (accounts : List Address) (pool : TxsPool π) : Prop :=
  Sound lib accounts (Fits (forks pool)) noLoose pool

variable {pool : TxsPool π}

theorem Bounded.admits {tx : Transaction} (h : Bounded accounts tx) :
    SentFrom accounts tx ∧ Admits ctx (Fits (forks pool)) pool tx :=
  ⟨h.1, fun _ _ hforks hvalid => hforks ▸ fits_of_validateTx h.2 hvalid⟩

section

variable {pool pool' : TxsPool π} (h : AllFit ctx.lib accounts pool)
include h

theorem AllFit.addTxs {txs : List Transaction} (htxs : ∀ tx ∈ txs, Bounded accounts tx)
    (isLocal : Bool) :
    AllFit ctx.lib accounts (addTxs ctx txs isLocal pool).2 := by
  have hforks : forks (PoolAdmission.addTxs ctx txs isLocal pool).2 = forks pool :=
    keeps_forks_addTxs isLocal txs pool
  rw [AllFit, hforks]
  exact ((Kept.ofBooks h).addTxs (fun tx htx => (htxs tx htx).admits) isLocal).books

theorem AllFit.enforceLimits (settings : PoolSettings π) (orders : Orders) :
    AllFit ctx.lib accounts (enforceLimits ctx settings orders pool).2 := by
  obtain ⟨hbooks, hshrinks⟩ := shrinks_enforceLimits settings orders h
  rwa [AllFit, hshrinks.1]

theorem AllFit.takeHead {request : ResetRequest} {orders : Orders}
    (hadvances : Advances ctx settings accounts pool request orders)
    (hrun : takeHead ctx settings request orders pool = (.ok (), pool')) :
    AllFit ctx.lib accounts pool' ∧ (∀ a, Affordable ctx pool' a) ∧
      Upholds settings.chainconfig (request.newBlock.number64 + 1) (forks pool') := by
  have hreturns : Returns ctx accounts (Fits (forks pool)) request pool :=
    fun txs htxs tx htx => (hadvances.returned txs htxs tx htx).admits
  obtain ⟨hbooks, hpay, hforks⟩ := takeHead_books h hadvances.orders hreturns hrun
  obtain ⟨mid, _, _, hreset, -⟩ := takeHead_eq_ok hrun
  rw [hreset] at hforks
  rcases forks_reset hreset with hsame | hnew
  · rw [hsame] at hforks
    rw [AllFit, hforks]
    exact ⟨hbooks, hpay, hadvances.upholds⟩
  · rw [hnew] at hforks
    rw [AllFit, hforks]
    refine ⟨hbooks.mono fun tx hfits => ?_, hpay, fun hon => hon, fun hon => hon, fun hon => hon⟩
    exact hfits.mono hadvances.upholds.istanbul hadvances.upholds.berlin hadvances.upholds.london rfl

end

theorem AllFit.step (h : AllFit ctx.lib accounts node.pool) {op : Operation}
    (hforward : UndoesNoFork ctx settings accounts node op)
    (hop : perform ctx settings node op = some next) : AllFit ctx.lib accounts next.pool := by
  have hnode : AllFit (atTable ctx node.table).lib accounts node.pool := h
  cases op with
  | addLocals txs =>
    obtain ⟨pool, hpool, rfl⟩ := Option.map_eq_some_iff.mp hop
    obtain ⟨errs, hadd⟩ := eq_of_finished hpool
    have hadded := hnode.addTxs hforward (!(atTable ctx node.table).config.noLocals)
    rwa [← addLocals, hadd] at hadded
  | addRemotes txs =>
    obtain ⟨pool, hpool, rfl⟩ := Option.map_eq_some_iff.mp hop
    obtain ⟨errs, hadd⟩ := eq_of_finished hpool
    have hadded := hnode.addTxs hforward false
    rwa [← addRemotes, hadd] at hadded
  | removeTx hash outofbound =>
    obtain rfl := Option.some.inj hop
    change AllFit (atTable ctx node.table).lib accounts
      (removeTx (atTable ctx node.table) hash outofbound node.pool)
    rw [AllFit, (shrinks_removeTx hnode hash outofbound).1]
    exact ((Kept.ofBooks hnode).removeTx hash outofbound).books
  | promote dirtyAccounts orders =>
    obtain ⟨pool, hpool, rfl⟩ := Option.map_eq_some_iff.mp hop
    obtain ⟨r, hrun⟩ := eq_of_finished hpool
    obtain ⟨_, _, hmodify, hlimits⟩ := bind_eq_ok_iff.mp hrun
    obtain rfl := modify_eq_ok_iff.mp hmodify
    obtain ⟨hpromoted, hforks⟩ := Kept.promoteExecutables settings dirtyAccounts
      (Kept.ofBooks hnode) (fun _ hbase => absurd hbase (Option.not_mem_none _))
      fun _ hbase => absurd hbase (Option.not_mem_none _)
    have hfit : AllFit (atTable ctx node.table).lib accounts
        (promoteExecutables (atTable ctx node.table) settings dirtyAccounts node.pool) := by
      rw [AllFit, hforks]
      exact hpromoted.books
    have hlimited := hfit.enforceLimits settings orders
    rwa [hlimits] at hlimited
  | write table =>
    obtain rfl := Option.some.inj hop
    exact h
  | head table request orders =>
    obtain ⟨pool, hpool, rfl⟩ := Option.map_eq_some_iff.mp hop
    obtain ⟨r, hrun⟩ := eq_of_finished hpool
    obtain ⟨_, taken, htake, hlimits⟩ := bind_eq_ok_iff.mp hrun
    have htable : AllFit (atTable ctx table).lib accounts node.pool := h
    have hadvances : Advances (atTable ctx table) settings accounts node.pool request orders :=
      ⟨hforward.orders, hforward.returned, hforward.upholds⟩
    have hlimited := (htable.takeHead hadvances htake).1.enforceLimits settings orders
    rwa [hlimits] at hlimited

theorem ForwardRun.allFit (hstart : IsEmpty start.pool)
    (h : ForwardRun ctx settings accounts start node) : AllFit ctx.lib accounts node.pool := by
  induction h with
  | refl => exact hstart.sound
  | step op _ hforward hop ih => exact ih.step hforward hop

end Runs

section Toys

open HeaderSealing ReorgCorrectness

def toyPriced (price : Uint256) : Transaction :=
  .legacy ⟨0, price, 21000, some (toyAddress 2), some (toyAddress 1), 0, [], 0, 0, 0⟩

def toyNext : ResetRequest where
  oldBlock := some toyGenesis
  newBlock := toyChild 1 []
  getBlockByHash := fun _ => none
  fuel := 1
  events := []

def toyPricedAdded (price : Uint256) : TxsPool Unit :=
  (addRemotes (atTable toyContext (toyTable 0)) [toyPriced price] (toyNode 0).pool).2

/-- After a reset to a new head, a pending transaction can be executed in the block after it
if and only if its cost is not larger than a word and its creation code is paid for. -/
theorem pending_executable_iff {π : Type} {ctx : PoolContext π} {settings : PoolSettings π}
    {accounts : List Address} {start node next : PoolNode π} {table : AccountTable}
    {request : ResetRequest} {orders : Orders} (hstart : IsEmpty start.pool)
    (h : ForwardRun ctx settings accounts start node)
    (hadvances : Advances ctx settings accounts node.pool request orders)
    (hop : perform ctx settings node (.head table request orders) = some next)
    {a : Address} {tx : Transaction} (htx : tx ∈ txsOf (next.pool.pending a)) :
    Executable settings.chainconfig (request.newBlock.number64 + 1) (next.table.balance a) tx ↔
      NoWrap tx ∧ InitCodePaid settings.chainconfig (request.newBlock.number64 + 1) tx := by
  obtain ⟨pool, hpool, rfl⟩ := Option.map_eq_some_iff.mp hop
  obtain ⟨r, hrun⟩ := eq_of_finished hpool
  obtain ⟨_, taken, htake, hlimits⟩ := bind_eq_ok_iff.mp hrun
  have hnode := h.allFit hstart
  have hfit : AllFit (atTable ctx table).lib accounts node.pool := hnode
  obtain ⟨htaken, hpay, hupholds⟩ := hfit.takeHead
    (⟨hadvances.orders, hadvances.returned, hadvances.upholds⟩ :
      Advances (atTable ctx table) settings accounts node.pool request orders) htake
  have hshrinks := (shrinks_enforceLimits settings orders htaken).2
  rw [hlimits] at hshrinks
  have hmem := hshrinks.2 a tx htx
  have hcost := (exceeds_eq_false_iff.mp (hpay a tx hmem)).1
  exact (htaken.fits a tx (List.mem_append_left _ hmem)).executable_iff hupholds hcost

theorem toyPriced_executable : ∃ next,
    performAll toyContext toySettings (toyNode 0)
      [.addRemotes [toyPriced 2], .head (toyTable 0) toyNext toyOrders] = some next ∧
      toyPriced 2 ∈ txsOf (next.pool.pending (toyAddress 1)) ∧
      Executable toySettings.chainconfig (toyNext.newBlock.number64 + 1)
        (next.table.balance (toyAddress 1)) (toyPriced 2) := by
  have hok : (addRemotes (atTable toyContext (toyTable 0)) [toyPriced 2]
        (toyNode 0).pool).1.isOk = true ∧
      (reinjected toyContext.lib toyNext.getBlockByHash toyNext.fuel toyNext.oldBlock
        toyNext.newBlock).toOption = some [] ∧
      forks (toyPricedAdded 2) = (false, false, false, false) ∧
      ((performAll toyContext toySettings (toyNode 0)
        [.addRemotes [toyPriced 2], .head (toyTable 0) toyNext toyOrders]).map fun next =>
          txsOf (next.pool.pending (toyAddress 1))) = some [toyPriced 2] := by
    decide +kernel
  have hadd : perform toyContext toySettings (toyNode 0) (.addRemotes [toyPriced 2]) =
      some ⟨toyTable 0, toyPricedAdded 2⟩ := by
    rw [perform]
    exact congrArg _ (finished_of_isOk hok.1)
  obtain ⟨next, hnext, hpending⟩ := Option.map_eq_some_iff.mp hok.2.2.2
  have hhead : perform toyContext toySettings ⟨toyTable 0, toyPricedAdded 2⟩
      (.head (toyTable 0) toyNext toyOrders) = some next := by
    rw [← performAll_singleton, ← performAll_cons hadd]
    exact hnext
  have hmem : toyPriced 2 ∈ txsOf (next.pool.pending (toyAddress 1)) := by
    rw [hpending]
    exact List.mem_cons_self
  have hbounded : ∀ tx ∈ [toyPriced 2], Bounded [toyAddress 1] tx := by
    intro tx htx
    obtain rfl := List.mem_singleton.mp htx
    refine ⟨fun a ha => List.mem_singleton.mpr (Option.some.inj ha).symm, ?_⟩
    exact ⟨by decide, by decide, by decide⟩
  have hadvances : Advances toyContext toySettings [toyAddress 1] (toyPricedAdded 2) toyNext
      toyOrders := by
    refine ⟨⟨List.Perm.refl _, List.Perm.refl _, List.Perm.refl _⟩, fun txs htxs tx htx => ?_, ?_⟩
    · have hnone : txs = [] := Option.some.inj ((congrArg Except.toOption htxs).symm.trans hok.2.1)
      rw [hnone] at htx
      exact absurd htx List.not_mem_nil
    · exact ⟨fun h => absurd h (by decide), fun h => absurd h (by decide),
        fun h => absurd h (by decide)⟩
  refine ⟨next, hnext, hmem, (pending_executable_iff (isEmpty_toyNode 0)
    (.step (.addRemotes [toyPriced 2]) .refl hbounded hadd) hadvances hhead hmem).mpr ⟨?_, ?_⟩⟩
  · rw [NoWrap]
    decide +kernel
  · exact fun _ hnone => absurd hnone (by decide)

/-- The cost of the transaction is a multiple of the size of a word, so it costs the pool
nothing. -/
theorem wrapped_cost_pending : ∃ next,
    performAll toyContext toySettings (toyNode 0)
      [.addRemotes [toyPriced (2 ^ 255)], .head (toyTable 0) toyNext toyOrders] = some next ∧
      toyPriced (2 ^ 255) ∈ txsOf (next.pool.pending (toyAddress 1)) ∧
      ¬ Executable toySettings.chainconfig (toyNext.newBlock.number64 + 1)
        (next.table.balance (toyAddress 1)) (toyPriced (2 ^ 255)) := by
  have hrun : ((performAll toyContext toySettings (toyNode 0)
      [.addRemotes [toyPriced (2 ^ 255)], .head (toyTable 0) toyNext toyOrders]).map fun next =>
        txsOf (next.pool.pending (toyAddress 1))) = some [toyPriced (2 ^ 255)] := by
    decide +kernel
  obtain ⟨next, hnext, hpending⟩ := Option.map_eq_some_iff.mp hrun
  refine ⟨next, hnext, ?_, fun h => ?_⟩
  · rw [hpending]
    exact List.mem_cons_self
  · have hfunds := h.funds
    have hcost : 2 ^ 256 ≤ (toyPriced (2 ^ 255)).value.toNat +
        (toyPriced (2 ^ 255)).gas.toNat * (toyPriced (2 ^ 255)).gasFeeCap.toNat := by
      decide +kernel
    omega

end Toys

end N42.PendingValidity
