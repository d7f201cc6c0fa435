import N42.PoolDemotion

/-!
The limits on the number of pending and queued transactions keep the books of the pool and
the runs of pending nonces, and pending transactions only leave.
-/

namespace N42.PoolLimits

open ChainTypes Transactions NumberRuns StatefulActions.Action PoolAdmission
open PoolLists PoolReorg PoolSoundness PoolAdditions
open AdmissionConditions (forks)

variable {π : Type}

section Limits

variable {ctx : PoolContext π} {settings : PoolSettings π} {accounts : List Address}
  {P : Transaction → Prop} {bases : Option (Address → Nat)} {pool : TxsPool π} {a : Address}
  {l : TxsList}

theorem kept_cutPending (h : Kept ctx.lib accounts P bases pool)
    (hpending : pool.pending a = some l) (hne : l.txs ≠ []) :
    Kept ctx.lib accounts P bases (cutPending ctx a l pool) := by
  have hkept := h.books.pendingKept a l hpending
  have hperm := perm_cap (l.txs.length - 1) l
  obtain ⟨init, last, hlast, hcap⟩ := exists_cap_eq hne
  rw [hcap] at hperm
  have hpend : last ∈ txsOf (pool.pending a) := by
    rw [hpending]
    exact hperm.mem_iff.mp List.mem_cons_self
  rw [cutPending, hcap, List.foldl_cons, List.foldl_nil]
  refine ⟨?_, fun base hbases => ?_⟩
  · refine h.books.move (h.books.mem_accounts (.inl (hpending ▸ Option.some_ne_none l)))
      ⟨fun _ hb => update_of_ne _ _ hb, fun _ _ => rfl, fun _ _ => rfl⟩ (update_self _ _ _) rfl rfl
      ⟨wellKept_some ⟨hkept.1, ?_⟩, h.books.queueKept a⟩ (?_ : ([last] ++ _).Perm _)
      (h.books.mem_remove_iff (List.mem_append_left _ hpend))
    · exact Capped.of_subset hkept.2
        (fun tx htx => hperm.mem_iff.mp (List.mem_append_right _ htx)) rfl rfl
    · rw [holdings, hpending, ← List.append_assoc]
      exact hperm.append_right _
  · have hruns := h.runs base hbases
    have hrun := hruns a
    rw [hpending, txsOf_some] at hrun
    obtain ⟨next, hnext, -, hlt⟩ := hruns.exists_next hpend
    have hlower : ¬ next ≤ last.nonce := by
      rw [UInt64.le_iff_toNat_le]
      omega
    refine hruns.change (fun b (hb : b ≠ a) => update_of_ne _ _ hb)
      (fun b hb => update_of_ne _ _ hb) ?_
    simp only [setIfLower, hnext, Option.getD_some, update_self, if_neg hlower,
      Option.elim_some, txsOf_some]
    exact IsRun.init hrun hlast

theorem kept_dropHighest (h : Kept ctx.lib accounts P bases pool) (a : Address) :
    Kept ctx.lib accounts P bases (dropHighest ctx a pool).2 := by
  rw [dropHighest, get_bind]
  cases hpending : pool.pending a with
  | none => exact h
  | some l =>
    refine failIf_induction (fun _ => h) fun hne => ?_
    exact kept_cutPending h hpending hne

/-! What is kept when an account loses its last pending transaction and when a transaction is
removed is kept by the limits. -/

section Rule

variable {I : TxsPool π → Prop} (hdrop : ∀ pool a, I pool → I (dropHighest ctx a pool).2)
include hdrop

theorem ensures_equalize (threshold : Nat) (group : List Address) (rounds pending : Nat) :
    Ensures I (equalize ctx threshold group rounds pending) (fun _ => True) fun _ => True := by
  induction rounds generalizing pending with
  | zero => exact ensures_pure trivial
  | succ rounds ih =>
    rw [equalize]
    split
    · exact ensures_pure trivial
    · refine ensures_bind ensures_get fun _ _ => ensures_seq (ensures_required trivial) fun _ => ?_
      split
      · exact ensures_pure trivial
      · exact ensures_seq (ensures_forM fun a _ => ensures_of_state fun pool h =>
          hdrop pool a h) fun _ => ih _

theorem ensures_penalize (spammers offenders : List Address) (pending : Nat) :
    Ensures I (penalize ctx spammers offenders pending) (fun _ => True) fun _ => True := by
  induction spammers generalizing offenders pending with
  | nil => exact ensures_pure trivial
  | cons offender spammers ih =>
    rw [penalize]
    split
    · exact ensures_pure trivial
    · split
      · exact ih _ _
      · exact ensures_bind ensures_get fun _ _ => ensures_seq (ensures_required trivial) fun _ =>
          ensures_seq (ensures_equalize hdrop _ _ _ _) fun _ => ih _ _

theorem ensures_truncatePending (settings : PoolSettings π) (order : List Address) :
    Ensures I (truncatePending ctx settings order) (fun _ => True) fun _ => True := by
  refine ensures_bind ensures_get fun pool _ => ?_
  dsimp only
  split
  · exact ensures_pure trivial
  · refine ensures_seq (ensures_penalize hdrop _ _ _) fun result => ?_
    split
    · exact ensures_seq (ensures_equalize hdrop _ _ _ _) fun _ => ensures_pure trivial
    · exact ensures_pure trivial

omit hdrop

variable (hremove : ∀ pool hash, I pool → I (removeTx ctx hash true pool))
include hremove

theorem foldl_removeTx_induction (txs : List Transaction) (h : I pool) :
    I (txs.foldl (fun pool tx => removeTx ctx (tx.hash ctx.lib) true pool) pool) := by
  induction txs generalizing pool with
  | nil => exact h
  | cons tx txs ih => exact ih (hremove pool _ h)

theorem dropQueued_induction (order : List Address) (drop : Nat) (h : I pool) :
    I (dropQueued ctx order drop pool) := by
  induction order generalizing pool drop with
  | nil => exact h
  | cons a order ih =>
    rw [dropQueued]
    split
    · exact ih drop h
    · split
      · exact h
      · split
        · exact ih _ (foldl_removeTx_induction hremove _ h)
        · exact foldl_removeTx_induction hremove _ h

theorem truncateQueue_induction (order : List Address) (h : I pool) :
    I (truncateQueue ctx order pool) := by
  rw [truncateQueue]
  split
  · exact h
  · exact dropQueued_induction hremove _ _ h

include hdrop
theorem enforceLimits_induction (settings : PoolSettings π) (orders : Orders)
    (hcount : ∀ pool, I pool → I { pool with changesSinceReorg := 0 }) (h : I pool) :
    I (enforceLimits ctx settings orders pool).2 := by
  have hensures : Ensures I (enforceLimits ctx settings orders) (fun _ => True) fun _ => True :=
    ensures_seq (ensures_truncatePending hdrop settings orders.spam) fun _ =>
      ensures_seq (ensures_modify fun pool h =>
        truncateQueue_induction hremove orders.heartbeat h) fun _ => ensures_modify hcount
  exact (hensures pool h).1

end Rule

theorem kept_enforceLimits (settings : PoolSettings π) (h : Kept ctx.lib accounts P bases pool)
    (orders : Orders) :
    Kept ctx.lib accounts P bases (enforceLimits ctx settings orders pool).2 :=
  enforceLimits_induction (I := Kept ctx.lib accounts P bases) (fun _ a h => kept_dropHighest h a)
    (fun _ hash h => h.removeTx hash true) settings orders (fun _ h => h.of_eq rfl rfl rfl rfl) h

end Limits

end N42.PoolLimits
