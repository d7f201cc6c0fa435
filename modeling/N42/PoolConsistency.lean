import N42.PoolLimits

/-!
A new head: what comes back is added to the pool, and the pool is promoted, demoted and cut
for the new state.
-/

namespace N42.PoolConsistency

open ChainTypes Transactions NumberRuns StatefulActions
open StatefulActions.Action PoolAdmission PoolLists PoolReorg PoolSoundness
open PoolAdditions PoolPromotion PoolDemotion
open AdmissionConditions (forks)

variable {π : Type}

section Reset

variable {ctx : PoolContext π} {settings : PoolSettings π} {accounts : List Address}
  {P : Transaction → Prop} {bases : Option (Address → Nat)} {base : Address → Nat}
  {pool pool' : TxsPool π} {request : ResetRequest} {orders : Orders}

def Returns (ctx : PoolContext π) (accounts : List Address) (P : Transaction → Prop)
    (request : ResetRequest) (pool : TxsPool π) : Prop :=
  ∀ txs, reinjected ctx.lib request.getBlockByHash request.fuel request.oldBlock
    request.newBlock = .ok txs → ∀ tx ∈ txs, SentFrom accounts tx ∧ Admits ctx P pool tx

theorem kept_reset (settings : PoolSettings π) (h : Kept ctx.lib accounts P bases pool)
    (htxs : Returns ctx accounts P request pool) :
    Kept ctx.lib accounts P bases (reset ctx settings request pool).2 := by
  rw [reset]
  cases heq : reinjected ctx.lib request.getBlockByHash request.fuel request.oldBlock
      request.newBlock with
  | error e =>
    cases e with
    | unrooted => exact h
    | outOfFuel => exact h
  | ok txs =>
    change Kept ctx.lib accounts P bases (reinject ctx settings request.newBlock txs pool).2
    have hlimit : Kept ctx.lib accounts P bases
        { pool with currentMaxGas := request.newBlock.header.gasLimit } :=
      h.of_eq rfl rfl rfl rfl
    have hadded := hlimit.addTxsLocked (htxs txs heq) false
    rw [reinject, bind_of_eq_ok (rfl : Action.modify _ pool = (.ok (), _))]
    refine bind_induction (fun e t hrun => ?_) fun errs t hrun => ?_
    · rw [hrun] at hadded
      exact hadded
    · rw [hrun] at hadded
      exact hadded.of_eq rfl rfl rfl rfl

theorem Runs.rebase (h : Runs base pool) (start : Address → Nat) :
    Runs (fun a => if pool.pendingNonces a = none then start a else base a) pool := by
  intro a
  have hrun := h a
  dsimp only
  cases hnext : pool.pendingNonces a with
  | none =>
    rw [hnext, Option.elim_none] at hrun
    rw [if_pos rfl, Option.elim_none, hrun.eq_nil_iff.mpr rfl]
    exact isRun_nil _
  | some next =>
    rw [if_neg (Option.some_ne_none next)]
    rwa [hnext] at hrun

theorem runs_cacheNonce (h : Runs base pool)
    (hunset : ∀ a, pool.pendingNonces a = none → base a = (ctx.stateNonce a).toNat)
    (a : Address) :
    Runs base (cacheNonce ctx pool a) ∧ (∀ b, (cacheNonce ctx pool a).pendingNonces b = none →
        base b = (ctx.stateNonce b).toNat) := by
  constructor
  · refine h.change (fun _ _ => rfl) (fun b (hb : b ≠ a) => update_of_ne _ _ hb) ?_
    have hrun := h a
    simp only [cacheNonce, update_self, Option.elim_some, getNonce]
    cases hnext : pool.pendingNonces a with
    | none =>
      rw [hnext, Option.elim_none] at hrun
      rw [Option.getD_none, ← hunset a hnext]
      exact hrun
    | some next =>
      rwa [hnext] at hrun
  · intro b hb
    change update pool.pendingNonces a _ b = none at hb
    rcases eq_or_ne b a with rfl | hne
    · rw [update_self] at hb
      cases hb
    · rw [update_of_ne _ _ hne] at hb
      exact hunset b hb

theorem runs_foldl_cacheNonce (h : Runs base pool)
    (hunset : ∀ a, pool.pendingNonces a = none → base a = (ctx.stateNonce a).toNat)
    (events : List Address) :
    Runs base (events.foldl (cacheNonce ctx) pool) ∧
      (∀ b, (events.foldl (cacheNonce ctx) pool).pendingNonces b = none →
        base b = (ctx.stateNonce b).toNat) := by
  induction events generalizing pool with
  | nil => exact ⟨h, hunset⟩
  | cons a events ih =>
    obtain ⟨hruns, hnone⟩ := runs_cacheNonce h hunset a
    exact ih hruns hnone

theorem foldl_cacheNonce_eq (ctx : PoolContext π) (events : List Address) (pool : TxsPool π) :
    ∃ pendingNonces, events.foldl (cacheNonce ctx) pool =
      { pool with pendingNonces := pendingNonces } := by
  induction events generalizing pool with
  | nil => exact ⟨pool.pendingNonces, rfl⟩
  | cons a events ih => exact ih (cacheNonce ctx pool a)

structure Along (orders : Orders) (accounts : List Address) : Prop where
  promotion : orders.promotion.Perm accounts
  demotion : orders.demotion.Perm accounts
  settling : orders.settling.Perm accounts

def demoted (ctx : PoolContext π) (settings : PoolSettings π) (request : ResetRequest)
    (orders : Orders) (pool : TxsPool π) : TxsPool π :=
  demoteUnexecutables ctx orders.demotion (promoteExecutables ctx settings orders.promotion
      (request.events.foldl (cacheNonce ctx) pool))

theorem takeHead_eq_ok (hrun : takeHead ctx settings request orders pool = (.ok (), pool')) :
    ∃ mid priced latest, reset ctx settings request pool = (.ok (), mid) ∧
      latestNonces orders.settling
        { demoted ctx settings request orders mid with priced := priced } = .ok latest ∧
      pool' = { demoted ctx settings request orders mid with
        priced := priced, pendingNonces := latest } ∧
      priced = (setBaseFee settings request.newBlock
        (demoted ctx settings request orders mid)).priced := by
  simp only [takeHead, bind_eq_ok_iff, modify_eq_ok_iff, setAll, get_eq_ok_iff,
    lift_eq_ok_iff] at hrun
  obtain ⟨_, mid, hreset, _, _, rfl, _, _, rfl, _, _, rfl, _, _, rfl, _, _,
    ⟨rfl, rfl⟩, latest, _, ⟨hlatest, rfl⟩, rfl⟩ := hrun
  rw [← demoted] at hlatest ⊢
  obtain ⟨priced, hpriced⟩ : ∃ priced, setBaseFee settings request.newBlock
      (demoted ctx settings request orders mid) =
        { demoted ctx settings request orders mid with priced := priced } := by
    rw [setBaseFee]
    split
    · exact ⟨_, rfl⟩
    · exact ⟨(demoted ctx settings request orders mid).priced, rfl⟩
  rw [hpriced] at hlatest ⊢
  exact ⟨mid, priced, latest, hreset, hlatest, rfl, congrArg TxsPool.priced hpriced.symm⟩

theorem txsOf_pending_eq_nil (h : Sound ctx.lib accounts P noLoose pool) {order : List Address}
    (hperm : order.Perm accounts) {a : Address} (ha : a ∉ order) :
    txsOf (pool.pending a) = [] := by
  rw [(h.confined a fun hmem => ha (hperm.mem_iff.mpr hmem)).1]
  rfl

theorem takeHead_books (h : Sound ctx.lib accounts P noLoose pool)
    (horders : Along orders accounts) (htxs : Returns ctx accounts P request pool)
    (hrun : takeHead ctx settings request orders pool = (.ok (), pool')) :
    Sound ctx.lib accounts P noLoose pool' ∧ (∀ a, Affordable ctx pool' a) ∧
      forks pool' = forks (reset ctx settings request pool).2 := by
  obtain ⟨mid, priced, latest, hreset, -, rfl, -⟩ := takeHead_eq_ok hrun
  have hkept : Kept ctx.lib accounts P none mid := by
    have hreturned := kept_reset settings (Kept.ofBooks h) htxs
    rwa [hreset] at hreturned
  obtain ⟨pendingNonces, hcache⟩ := foldl_cacheNonce_eq ctx request.events mid
  have hcached : Kept ctx.lib accounts P none (request.events.foldl (cacheNonce ctx) mid) := by
    rw [hcache]
    exact Kept.ofBooks (hkept.books.of_eq rfl rfl rfl)
  obtain ⟨hpromoted, hforks⟩ := Kept.promoteExecutables settings orders.promotion hcached
    (fun _ hbase => absurd hbase (Option.not_mem_none _)) fun _ hbase =>
      absurd hbase (Option.not_mem_none _)
  obtain ⟨hbooks, hpay, hforks'⟩ := demoteUnexecutables_affordable hpromoted.books
    fun a ha tx htx => by
      rw [txsOf_pending_eq_nil hpromoted.books horders.demotion ha] at htx
      exact absurd htx List.not_mem_nil
  refine ⟨hbooks.of_eq rfl rfl rfl, hpay, ?_⟩
  rw [hreset]
  exact (hforks'.trans hforks).trans (by rw [hcache]; rfl)

theorem takeHead_runs (h : Kept ctx.lib accounts P (some base) pool)
    (hcount : ∀ tx, P tx → Countable tx) (haccounts : accounts.Nodup)
    (horders : Along orders accounts) (htxs : Returns ctx accounts P request pool)
    (hrefilled : ∀ a, Refilled ctx (base a) (reset ctx settings request pool).2 a)
    (hrun : takeHead ctx settings request orders pool = (.ok (), pool')) :
    Runs (fun a => (ctx.stateNonce a).toNat) pool' := by
  obtain ⟨mid, priced, latest, hreset, hlatest, rfl, -⟩ := takeHead_eq_ok hrun
  have hkept := kept_reset settings h htxs
  rw [hreset] at hkept hrefilled
  dsimp only at hkept hrefilled
  -- the accounts without a virtual nonce start from the new state
  obtain ⟨hruns, hunset⟩ := runs_foldl_cacheNonce
    (Runs.rebase (hkept.runs base rfl) fun a => (ctx.stateNonce a).toNat)
    (fun a hnone => if_pos hnone) request.events
  obtain ⟨pendingNonces, hcache⟩ := foldl_cacheNonce_eq ctx request.events mid
  have hcached : Sound ctx.lib accounts P noLoose (request.events.foldl (cacheNonce ctx) mid) := by
    rw [hcache]
    exact hkept.books.of_eq rfl rfl rfl
  have hstart : ∀ a ∈ orders.promotion, Startable ctx
      (if mid.pendingNonces a = none then (ctx.stateNonce a).toNat else base a)
      (request.events.foldl (cacheNonce ctx) mid) a := by
    refine fun a _ => ⟨hruns a, hunset a, ?_⟩
    split
    · exact fun hlt => absurd hlt (Nat.lt_irrefl _)
    · rw [hcache]
      exact hrefilled a
  obtain ⟨hpromoted, hanchored⟩ := promoteExecutables_anchored settings hcached hcount
    (horders.promotion.nodup_iff.mpr haccounts) hstart fun a ha => by
      rw [txsOf_pending_eq_nil hcached horders.promotion ha]
      exact (isRun_nil 0).anchored _
  have hrest : ∀ a, a ∉ orders.demotion → ∃ stop, IsRun (ctx.stateNonce a).toNat stop
      (nonces (txsOf ((promoteExecutables ctx settings orders.promotion
        (request.events.foldl (cacheNonce ctx) mid)).pending a))) := by
    intro a ha
    rw [txsOf_pending_eq_nil hpromoted horders.demotion ha]
    exact ⟨_, isRun_nil _⟩
  obtain ⟨hbooks, -, -⟩ := takeHead_books h.books horders htxs hrun
  exact runs_setAll (hbooks.of_eq rfl rfl rfl) hcount
    (fun a => demoteUnexecutables_runs hpromoted hanchored hrest a)
    (fun a ha => horders.settling.mem_iff.mpr ha) hlatest

end Reset

end N42.PoolConsistency
