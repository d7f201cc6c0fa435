import N42.PoolAdmission

/-!
Which transactions the pool can admit at all: the checks that depend on the transaction
and on the forks at the next block alone, and a pool in which nothing else stands in the
way.
-/

namespace N42.AdmissionConditions

open ChainTypes Transactions
open TransactionExecution (intrinsicGas)
open PoolAdmission

variable {π : Type} {ctx : PoolContext π} {pool pool' : TxsPool π} {tx : Transaction}

def forks (pool : TxsPool π) : Bool × Bool × Bool × Bool :=
  (pool.istanbul, pool.eip2718, pool.eip1559, pool.shanghai)

/-- The fork indicators as `reset` sets them when the given block is the next one; the
one for Shanghai is never set. -/
def forksAt (config : ChainConfig) (number : UInt64) : Bool × Bool × Bool × Bool :=
  (config.isIstanbul number, config.isBerlin number, config.isLondon number, false)

/-- The checks on a transaction that depend on nothing but the forks. -/
structure Admissible (config : ChainConfig) (number : UInt64) (tx : Transaction) : Prop where
  sender : tx.fromAddress ≠ none
  berlin : config.isBerlin number = false → tx.txType = 0
  london : config.isLondon number = false → tx.txType ≠ 2
  value : tx.value.msb = false
  caps : tx.gasTipCap ≤ tx.gasFeeCap
  gas : ∃ gas, intrinsicGas tx.data tx.accesses tx.toAddress.isNone true
    (config.isIstanbul number) false = .ok gas ∧ gas ≤ tx.gas

section Checks

open FallibleRuns

theorem derefFrom_eq_ok_iff {address : Address} :
    derefFrom tx = .ok address ↔ tx.fromAddress = some address := by
  rw [derefFrom]
  split
  · rename_i h
    simp [h]
  · rename_i h
    simp [h]

theorem validateFields_eq_ok_iff {address : Address} :
    pool.validateFields tx = .ok address ↔
      (pool.eip2718 = false → tx.txType = 0) ∧ (pool.eip1559 = false → tx.txType ≠ 2) ∧
      tx.fromAddress = some address ∧ tx.value.msb = false ∧ tx.gas ≤ pool.currentMaxGas ∧
      tx.gasTipCap ≤ tx.gasFeeCap := by
  have hsize : ¬ TxLookup.txMaxSize < TxLookup.pointerSize := by decide
  rw [TxsPool.validateFields, seq_eq_ok_iff, seq_eq_ok_iff, failIf_eq_ok_iff,
    failIf_eq_ok_iff, not_and_not_right, not_and, bind_eq_ok_iff]
  refine and_congr_right fun _ => and_congr_right fun _ => ?_
  simp only [seq_eq_ok_iff, failIf_eq_ok_iff, derefFrom_eq_ok_iff, UInt64.not_lt,
    BitVec.not_lt, Bool.not_eq_true, pure, Except.pure, Except.ok.injEq, hsize,
    not_false_eq_true, true_and]
  constructor
  · rintro ⟨sender, hsender, hvalue, hgas, hcaps, rfl⟩
    exact ⟨hsender, hvalue, hgas, hcaps⟩
  · rintro ⟨hsender, hvalue, hgas, hcaps⟩
    exact ⟨address, hsender, hvalue, hgas, hcaps, rfl⟩

theorem admissible_of_validateTx {config : ChainConfig} {number : UInt64}
    (hforks : forks pool = forksAt config number) {isLocal : Bool}
    (h : validateTx ctx pool tx isLocal = .ok ()) : Admissible config number tx := by
  rw [validateTx, bind_eq_ok_iff] at h
  obtain ⟨address, hfields, h⟩ := h
  rw [seq_eq_ok_iff, seq_eq_ok_iff, seq_eq_ok_iff, bind_eq_ok_iff] at h
  obtain ⟨-, -, -, gas, hgas, h⟩ := h
  rw [seq_eq_ok_iff, failIf_eq_ok_iff, UInt64.not_lt] at h
  obtain ⟨hberlin, hlondon, hsender, hvalue, -, hcaps⟩ := validateFields_eq_ok_iff.mp hfields
  rw [forks, forksAt, Prod.mk.injEq, Prod.mk.injEq, Prod.mk.injEq] at hforks
  obtain ⟨histanbul, heip2718, heip1559, hshanghai⟩ := hforks
  rw [mapError_eq_ok_iff, histanbul, hshanghai] at hgas
  exact ⟨by rw [hsender]; exact Option.some_ne_none _, heip2718 ▸ hberlin,
    heip1559 ▸ hlondon, hvalue, hcaps, gas, hgas, h.1⟩

end Checks

open StatefulActions.Action

/-! Nothing that happens when transactions are added changes the fork indicators. -/

theorem keeps_forks_enqueueTx (tx : Transaction) (isLocal addAll : Bool) :
    Keeps forks (enqueueTx ctx tx isLocal addAll) := by
  refine keeps_bind (keeps_lift _) fun sender => keeps_bind keeps_get fun pool => ?_
  dsimp only
  split
  · exact keeps_bind (keeps_modify fun _ => rfl) fun _ => keeps_fail _
  · exact keeps_bind (keeps_modify fun _ => rfl) fun _ => keeps_pure _

theorem forks_postpone (txs : List Transaction) (pool : TxsPool π) :
    forks (postpone ctx txs pool) = forks pool := by
  induction txs generalizing pool with
  | nil => rfl
  | cons tx txs ih => exact (ih _).trans (keeps_forks_enqueueTx tx false false pool)

theorem forks_removeTx (hash : Hash) (outofbound : Bool) (pool : TxsPool π) :
    forks (removeTx ctx hash outofbound pool) = forks pool := by
  unfold removeTx
  split
  · rfl
  · split
    · rfl
    · dsimp only
      split
      · exact forks_postpone _ _
      · split
        · rfl
        · rfl

theorem keeps_forks_makeRoom (tx : Transaction) (isLocal : Bool) :
    Keeps forks (makeRoom ctx tx isLocal) := by
  have hdrop : ∀ (drop : List Transaction) (pool : TxsPool π),
      forks (drop.foldl (fun pool tx => removeTx ctx (tx.hash ctx.lib) false pool) pool) =
        forks pool := by
    intro drop
    induction drop with
    | nil => intro pool; rfl
    | cons tx drop ih => exact fun pool => (ih _).trans (forks_removeTx _ _ _)
  exact keeps_bind keeps_get fun _ => keeps_bind (keeps_modify fun _ => rfl) fun _ =>
    keeps_bind (keeps_failIf _ _) fun _ => keeps_bind (keeps_failIf _ _) fun _ =>
    keeps_bind keeps_get fun _ => keeps_bind (keeps_modify fun _ => rfl) fun _ =>
    keeps_bind (keeps_failIf _ _) fun _ => keeps_modify fun _ => hdrop _ _

theorem keeps_forks_insert (sender : Address) (tx : Transaction) (wasLocal isLocal : Bool) :
    Keeps forks (insert ctx sender tx wasLocal isLocal) := by
  refine keeps_bind keeps_get fun pool => ?_
  split
  · rw [replacePending]
    split
    · exact keeps_fail _
    · exact keeps_bind (keeps_modify fun _ => rfl) fun _ => keeps_pure _
  · refine keeps_bind (keeps_forks_enqueueTx _ _ _) fun _ =>
      keeps_bind (keeps_modify fun pool => ?_) fun _ => keeps_pure _
    split
    · rw [markLocal]
      split
      · rfl
      · rfl
    · rfl

theorem keeps_forks_add (tx : Transaction) (wasLocal : Bool) :
    Keeps forks (add ctx tx wasLocal) := by
  refine keeps_bind keeps_get fun pool => keeps_bind (keeps_failIf _ _) fun _ =>
    keeps_bind (keeps_failIf _ _) fun _ => keeps_bind (keeps_lift _) fun _ =>
    keeps_bind (keeps_lift _) fun sender => ?_
  split
  · exact keeps_bind (keeps_forks_makeRoom _ _) fun _ => keeps_forks_insert _ _ _ _
  · exact keeps_forks_insert _ _ _ _

theorem keeps_forks_tryAdd (tx : Transaction) (isLocal : Bool) :
    Keeps forks (tryAdd ctx tx isLocal) := by
  intro pool
  have hkeep : forks (add ctx tx isLocal pool).2 = forks pool := keeps_forks_add tx isLocal pool
  rw [tryAdd]
  revert hkeep
  split
  all_goals
    rename_i h
    rw [h]
    exact id

variable {isLocal : Bool}

theorem add_of_tryAdd (h : tryAdd ctx tx isLocal pool = (.ok none, pool')) :
    ∃ r, add ctx tx isLocal pool = (.ok r, pool') := by
  rw [tryAdd] at h
  split at h
  · rename_i r t hadd
    obtain rfl : t = pool' := (Prod.mk.inj h).2
    exact ⟨r, hadd⟩
  · simp at h
  · simp at h

variable {txs : List Transaction}

theorem addTxsLocked_length {errs : List (Option PoolError)}
    (h : addTxsLocked ctx isLocal txs pool = (.ok errs, pool')) : errs.length = txs.length := by
  induction txs generalizing pool errs with
  | nil =>
    obtain ⟨rfl, -⟩ := pure_eq_ok_iff.mp h
    rfl
  | cons tx txs ih =>
    simp only [addTxsLocked, bind_eq_ok_iff, pure_eq_ok_iff] at h
    obtain ⟨err, t, -, rest, u, hrest, rfl, rfl⟩ := h
    exact congrArg Nat.succ (ih hrest)

theorem add_of_addTxsLocked {errs : List (Option PoolError)}
    (h : addTxsLocked ctx isLocal txs pool = (.ok errs, pool')) (hmem : (tx, none) ∈ txs.zip errs) :
    ∃ t r t', forks t = forks pool ∧ add ctx tx isLocal t = (.ok r, t') := by
  induction txs generalizing pool errs with
  | nil => simp at hmem
  | cons head txs ih =>
    have hkeep : forks (tryAdd ctx head isLocal pool).2 = forks pool :=
      keeps_forks_tryAdd head isLocal pool
    simp only [addTxsLocked, bind_eq_ok_iff, pure_eq_ok_iff] at h
    obtain ⟨err, t, hhead, rest, u, hrest, rfl, rfl⟩ := h
    rw [hhead] at hkeep
    rcases List.mem_cons.mp hmem with hfirst | htail
    · obtain ⟨rfl, rfl⟩ := Prod.mk.inj hfirst
      obtain ⟨r, hadd⟩ := add_of_tryAdd hhead
      exact ⟨pool, r, t, rfl, hadd⟩
    · obtain ⟨m, r, m', hforks, hadd⟩ := ih hrest htail
      exact ⟨m, r, m', hforks.trans hkeep, hadd⟩

theorem mem_zip_mergeErrors {known : Transaction → Option PoolError}
    {newErrs : List (Option PoolError)}
    (hlength : newErrs.length = (txs.filter fun tx => (known tx).isNone).length)
    (hmem : (tx, none) ∈ txs.zip (mergeErrors (txs.map known) newErrs)) :
    (tx, none) ∈ (txs.filter fun tx => (known tx).isNone).zip newErrs := by
  induction txs generalizing newErrs with
  | nil => simp at hmem
  | cons head txs ih =>
    cases hknown : known head with
    | some e =>
      rw [List.filter_cons_of_neg (by simp [hknown])] at hlength ⊢
      rw [List.map_cons, hknown, mergeErrors, List.zip_cons_cons, List.mem_cons] at hmem
      rcases hmem with hhead | htail
      · simp at hhead
      · exact ih hlength htail
    | none =>
      rw [List.filter_cons_of_pos (by simp [hknown])] at hlength ⊢
      cases newErrs with
      | nil => simp at hlength
      | cons err newErrs =>
        rw [List.map_cons, hknown, mergeErrors, List.zip_cons_cons, List.mem_cons] at hmem
        rw [List.zip_cons_cons, List.mem_cons]
        rcases hmem with hhead | htail
        · exact Or.inl hhead
        · exact Or.inr (ih (Nat.succ.inj hlength) htail)

def Admitted (ctx : PoolContext π) (pool : TxsPool π) (isLocal : Bool)
    (txs : List Transaction) (tx : Transaction) : Prop :=
  ∃ errs pool', addTxs ctx txs isLocal pool = (.ok errs, pool') ∧ (tx, none) ∈ txs.zip errs

variable {config : ChainConfig} {number : UInt64}

theorem admissible_of_admitted (hforks : forks pool = forksAt config number)
    (h : Admitted ctx pool isLocal txs tx) :
    Admissible config number tx := by
  obtain ⟨errs, pool', hadd, hmem⟩ := h
  simp only [addTxs, bind_eq_ok_iff, get_eq_ok_iff, pure_eq_ok_iff] at hadd
  obtain ⟨_, _, ⟨rfl, rfl⟩, newErrs, t, hlocked, rfl, -⟩ := hadd
  have hnew := mem_zip_mergeErrors (addTxsLocked_length hlocked) hmem
  obtain ⟨t, r, t', hkeep, hone⟩ := add_of_addTxsLocked hlocked hnew
  simp only [add, bind_eq_ok_iff, get_eq_ok_iff, failIf_eq_ok_iff, lift_eq_ok_iff] at hone
  obtain ⟨_, _, ⟨rfl, rfl⟩, _, _, -, _, _, -, _, _, ⟨hvalid, -⟩, -⟩ := hone
  exact admissible_of_validateTx (hkeep.trans hforks) hvalid

def freeContext (lib : Primitives) : PoolContext π where
  lib := lib
  config := ⟨false, 10, 5120, 1024⟩
  pricing := ⟨fun _ _ _ p => (false, p), fun _ _ _ _ p => (([], true), p), fun _ _ p => p,
    fun _ _ p => p⟩
  deposit := none
  stateNonce := fun _ => 0
  stateBalance := fun _ => BitVec.allOnes 256

def emptyPool [Inhabited π] (config : ChainConfig) (number gasLimit : UInt64) : TxsPool π where
  currentMaxGas := gasLimit
  istanbul := config.isIstanbul number
  eip2718 := config.isBerlin number
  eip1559 := config.isLondon number
  shanghai := false
  gasPrice := 0
  locals := fun _ => false
  pending := fun _ => none
  queue := fun _ => none
  pendingNonces := fun _ => none
  all := ⟨0, [], []⟩
  priced := default
  changesSinceReorg := 0

theorem validateTx_emptyPool [Inhabited π] (lib : Primitives) (h : Admissible config number tx) :
    validateTx (freeContext lib) (emptyPool config number tx.gas : TxsPool π) tx false =
      .ok () := by
  obtain ⟨sender, hsender⟩ := Option.ne_none_iff_exists'.mp h.sender
  obtain ⟨gas, hgas, henough⟩ := h.gas
  have hfields : (emptyPool config number tx.gas : TxsPool π).validateFields tx = .ok sender :=
    validateFields_eq_ok_iff.mpr
      ⟨h.berlin, h.london, hsender, h.value, UInt64.le_refl _, h.caps⟩
  rw [validateTx, FallibleRuns.bind_eq_ok_iff]
  refine ⟨sender, hfields, ?_⟩
  rw [FallibleRuns.seq_eq_ok_iff, FallibleRuns.seq_eq_ok_iff, FallibleRuns.seq_eq_ok_iff,
    FallibleRuns.bind_eq_ok_iff]
  refine ⟨?_, ?_, ?_, gas, FallibleRuns.mapError_eq_ok_iff.mpr hgas, ?_⟩
  · simp [emptyPool]
  · simp [freeContext]
  · rw [FallibleRuns.failIf_eq_ok_iff, BitVec.not_lt]
    exact BitVec.le_def.mpr (by have := tx.cost.isLt; simp [freeContext]; omega)
  · rw [FallibleRuns.seq_eq_ok_iff, FallibleRuns.failIf_eq_ok_iff, UInt64.not_lt]
    exact ⟨henough, by simp [freeContext]⟩

theorem admitted_of_admissible [Inhabited π] (lib : Primitives) (h : Admissible config number tx) :
    Admitted (freeContext lib) (emptyPool config number tx.gas : TxsPool π) false [tx] tx := by
  let pool : TxsPool π := emptyPool config number tx.gas
  obtain ⟨sender, hsender⟩ := Option.ne_none_iff_exists'.mp h.sender
  have hsome := derefFrom_eq_ok_iff.mpr hsender
  have hlocal : (false || tx.fromAddress.any pool.locals) = false := by
    simp [hsender, pool, emptyPool]
  have hvalid := validateTx_emptyPool (π := π) lib h
  have hfull : isFull (freeContext lib) pool = false := by
    simp only [isFull, freeContext, pool, emptyPool]
    decide
  have hinsert : Completes (insert (freeContext lib) sender tx false false) pool := by
    obtain ⟨r, t, hqueue⟩ : Completes (enqueueTx (freeContext lib) tx false true) pool :=
      completes_lift hsome (completes_get (completes_after_modify (completes_pure _)))
    exact completes_get (completes_bind hqueue (completes_after_modify (completes_pure _)))
  obtain ⟨r, t, hadd⟩ : Completes (add (freeContext lib) tx false) pool := by
    refine completes_get (completes_failIf (by simp [pool, emptyPool, TxLookup.get])
      (completes_failIf (by simp [hsender]) ?_))
    rw [hlocal]
    refine completes_lift hvalid (completes_lift hsome ?_)
    rw [hfull]
    exact hinsert
  have htry : tryAdd (freeContext lib) tx false pool = (.ok none, t) := by
    rw [tryAdd, hadd]
  have hnew : knownError (freeContext lib) pool tx = none := by
    simp [knownError, pool, emptyPool, TxLookup.get, validateSender]
  refine ⟨[none], t, ?_, List.mem_cons_self⟩
  simp only [addTxs, bind_eq_ok_iff, get_eq_ok_iff, pure_eq_ok_iff]
  refine ⟨pool, pool, ⟨rfl, rfl⟩, [none], t, ?_, ?_, rfl⟩
  · rw [List.filter_cons_of_pos (by simp [hnew])]
    exact bind_eq_ok_iff.mpr ⟨none, t, htry, rfl⟩
  · rw [List.map_singleton, hnew]
    rfl

end N42.AdmissionConditions
