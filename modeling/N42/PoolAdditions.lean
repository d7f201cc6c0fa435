import N42.AdmissionConditions
import N42.PoolSoundness

/-!
What is added to the pool and removed from it keeps the books and the runs of pending
nonces.  A run starts at a base of each account, which need not be the nonce of the state.
-/

namespace N42.PoolAdditions

open ChainTypes Transactions NumberRuns StatefulActions
open StatefulActions.Action PoolAdmission PoolLists PoolSoundness
open AdmissionConditions (derefFrom_eq_ok_iff forks keeps_forks_tryAdd)

variable {π : Type}

/-- The pending nonces of every account are a run up to the virtual nonce. -/
def Runs (base : Address → Nat) (pool : TxsPool π) : Prop :=
  ∀ a, IsRun (base a) ((pool.pendingNonces a).elim (base a) UInt64.toNat)
    (nonces (txsOf (pool.pending a)))

/-- The books are in order, and so are the runs from the given base if they are followed at
all. -/
structure Kept (lib : Primitives) (accounts : List Address) (P : Transaction → Prop)
    (bases : Option (Address → Nat)) (pool : TxsPool π) : Prop where
  books : Sound lib accounts P noLoose pool
  runs : ∀ base ∈ bases, Runs base pool

section Removal

variable {lib : Primitives} {ctx : PoolContext π} {accounts : List Address}
  {P : Transaction → Prop} {base : Address → Nat} {bases : Option (Address → Nat)}
  {pool pool' : TxsPool π} {a : Address}
  {tx : Transaction} {l list : TxsList}

theorem Kept.ofBooks (h : Sound lib accounts P noLoose pool) : Kept lib accounts P none pool :=
  ⟨h, fun _ hbase => absurd hbase (Option.not_mem_none _)⟩

theorem Runs.change (h : Runs base pool)
    (hpending : ∀ b, b ≠ a → pool'.pending b = pool.pending b)
    (hnonces : ∀ b, b ≠ a → pool'.pendingNonces b = pool.pendingNonces b)
    (ha : IsRun (base a) ((pool'.pendingNonces a).elim (base a) UInt64.toNat)
      (nonces (txsOf (pool'.pending a)))) : Runs base pool' := by
  intro b
  rcases eq_or_ne b a with rfl | hne
  · exact ha
  · rw [hpending b hne, hnonces b hne]
    exact h b

theorem Runs.exists_next (h : Runs base pool) (htx : tx ∈ txsOf (pool.pending a)) :
    ∃ next, pool.pendingNonces a = some next ∧ base a ≤ tx.nonce.toNat ∧
      tx.nonce.toNat < next.toNat := by
  have hrun := h a
  have hmem := (hrun.mem _).mp (mem_nonces_of_mem htx)
  cases hnext : pool.pendingNonces a with
  | none =>
    rw [hnext, Option.elim_none] at hmem
    omega
  | some next =>
    rw [hnext, Option.elim_some] at hmem
    exact ⟨next, rfl, hmem⟩

theorem nodup_of_nonces {txs : List Transaction} (h : (nonces txs).Nodup) : txs.Nodup :=
  List.Nodup.of_map _ h

theorem perm_around (hnodup : (nonces l.txs).Nodup) (htx : tx ∈ l.txs) :
    (tx :: ((l.txs.filter fun other => other.nonce < tx.nonce) ++
      l.txs.filter fun other => tx.nonce < other.nonce)).Perm l.txs := by
  have htxs := nodup_of_nonces hnodup
  refine (List.perm_ext_iff_of_nodup ?_ htxs).mpr fun other => ?_
  · refine List.nodup_cons.mpr ⟨by simp, List.nodup_append.mpr
      ⟨htxs.filter _, htxs.filter _, fun x hx y hy heq => ?_⟩⟩
    have hlt := of_decide_eq_true (List.mem_filter.mp hx).2
    have hgt := of_decide_eq_true (List.mem_filter.mp hy).2
    rw [heq] at hlt
    exact UInt64.lt_irrefl _ (UInt64.lt_trans hlt hgt)
  · simp only [List.mem_cons, List.mem_append, List.mem_filter, decide_eq_true_eq]
    constructor
    · rintro (rfl | ⟨hmem, -⟩ | ⟨hmem, -⟩)
      · exact htx
      · exact hmem
      · exact hmem
    · intro hmem
      rcases Nat.lt_trichotomy other.nonce.toNat tx.nonce.toNat with hlt | heq | hgt
      · exact .inr (.inl ⟨hmem, UInt64.lt_iff_toNat_lt.mpr hlt⟩)
      · exact .inl (eq_of_nonce_eq hnodup hmem htx (UInt64.toNat_inj.mp heq))
      · exact .inr (.inr ⟨hmem, UInt64.lt_iff_toNat_lt.mpr hgt⟩)

theorem perm_cons_others (hnodup : (nonces l.txs).Nodup) (htx : tx ∈ l.txs) :
    (tx :: l.txs.filter fun other => other.nonce ≠ tx.nonce).Perm l.txs := by
  have htxs := nodup_of_nonces hnodup
  refine (List.perm_ext_iff_of_nodup ?_ htxs).mpr fun other => ?_
  · exact List.nodup_cons.mpr ⟨by simp, htxs.filter _⟩
  · simp only [List.mem_cons, List.mem_filter, decide_eq_true_eq]
    constructor
    · rintro (rfl | ⟨hmem, -⟩)
      · exact htx
      · exact hmem
    · intro hmem
      by_cases heq : other.nonce = tx.nonce
      · exact .inl (eq_of_nonce_eq hnodup hmem htx heq)
      · exact .inr ⟨hmem, heq⟩

theorem remove_of_strict {invalids : List Transaction} (hstrict : l.strict = true)
    (h : l.remove tx = some (list, invalids)) :
    list = { l with txs := l.txs.filter fun other => other.nonce < tx.nonce } ∧
      invalids = l.txs.filter (fun other => tx.nonce < other.nonce) ∧
      ∃ other ∈ l.txs, other.nonce = tx.nonce := by
  rw [TxsList.remove] at h
  split at h
  · cases h
  · rename_i hsome
    dsimp only at h
    rw [List.filter_filter, List.filter_filter] at h
    obtain ⟨rfl, rfl⟩ := Prod.mk.inj (Option.some.inj h)
    obtain ⟨other, hother⟩ := Option.ne_none_iff_exists'.mp fun hnone =>
      hsome (Option.isNone_iff_eq_none.mpr hnone)
    refine ⟨?_, ?_, other, mem_of_get_nonce hother⟩
    · congr 1
      refine List.filter_congr fun other _ => ?_
      rw [Bool.eq_iff_iff]
      simp only [Bool.and_eq_true, decide_eq_true_eq]
      exact ⟨fun h => UInt64.lt_of_le_of_ne h.1 h.2,
        fun h => ⟨UInt64.le_of_lt h, UInt64.ne_of_lt h⟩⟩
    · refine List.filter_congr fun other _ => ?_
      rw [Bool.eq_iff_iff]
      simp only [Bool.and_eq_true, decide_eq_true_eq]
      exact ⟨And.left, fun h => ⟨h, (UInt64.ne_of_lt h).symm⟩⟩

theorem elsewhere_pending (all : TxLookup) (priced : π) (list : Option TxsList)
    (invalids : List Transaction) :
    Elsewhere a pool
      { pool with all := all, priced := priced, pending := update pool.pending a list }
      noLoose (loosely a invalids) where
  pending _ hb := update_of_ne pool.pending list hb
  queue _ _ := rfl
  loose _ hb := update_of_ne _ invalids hb

/-- A pool from whose pending list a transaction was taken: what comes after it is
postponed. -/
def cutAt (ctx : PoolContext π) (a : Address) (l : TxsList) (tx : Transaction) (priced : π)
    (pool : TxsPool π) : TxsPool π :=
  postpone ctx (l.txs.filter fun other => tx.nonce < other.nonce)
    { pool with
      all := pool.all.remove ctx.lib (tx.hash ctx.lib)
      priced := priced
      pending := update pool.pending a (nonEmpty
        { l with txs := l.txs.filter fun other => other.nonce < tx.nonce }) }

theorem sound_cutAt (h : Sound ctx.lib accounts P noLoose pool)
    (hpending : pool.pending a = some l) (htx : tx ∈ l.txs) (priced : π) :
    Sound ctx.lib accounts P noLoose (cutAt ctx a l tx priced pool) ∧
      ∃ queue, cutAt ctx a l tx priced pool =
        { pool with
          all := pool.all.remove ctx.lib (tx.hash ctx.lib)
          priced := priced
          pending := update pool.pending a (nonEmpty
            { l with txs := l.txs.filter fun other => other.nonce < tx.nonce })
          queue := queue } := by
  have hholding : tx ∈ holdings pool noLoose a := by
    refine List.mem_append_left _ ?_
    rw [hpending]
    exact htx
  have ha := h.mem_accounts (.inl (hpending ▸ Option.some_ne_none l))
  have hkept := h.pendingKept a l hpending
  have hnodup : (nonces l.txs).Nodup := by
    have := h.nodup_pending a
    rwa [hpending] at this
  have hmoved : Sound ctx.lib accounts P
      (loosely a ((l.txs.filter fun other => tx.nonce < other.nonce) ++ []))
      { pool with
        all := pool.all.remove ctx.lib (tx.hash ctx.lib)
        priced := priced
        pending := update pool.pending a (nonEmpty
          { l with txs := l.txs.filter fun other => other.nonce < tx.nonce }) } := by
    rw [List.append_nil]
    refine h.move ha (elsewhere_pending _ _ _ _) (update_self _ _ _) rfl
      (update_self _ _ _) ⟨wellKept_nonEmpty ⟨hkept.1, ?_⟩, h.queueKept a⟩
      (?_ : ([tx] ++ _).Perm _) (h.mem_remove_iff hholding)
    · exact Capped.of_subset hkept.2 (fun other hother => (List.mem_filter.mp hother).1) rfl rfl
    · rw [txsOf_nonEmpty, holdings, hpending, noLoose, List.append_nil, List.singleton_append]
      refine (List.Perm.cons tx (List.Perm.append_left _ List.perm_append_comm)).trans ?_
      rw [← List.append_assoc, ← List.cons_append]
      exact (perm_around hnodup htx).append_right _
  obtain ⟨queue, heq, hsound⟩ := hmoved.postpone ha
  rw [loosely_nil] at hsound
  rw [cutAt, heq]
  exact ⟨hsound, queue, rfl⟩

theorem Kept.removePending (h : Kept ctx.lib accounts P bases pool)
    (hpending : pool.pending a = some l) (htx : tx ∈ l.txs) (priced : π) :
    Kept ctx.lib accounts P bases (setIfLower ctx (cutAt ctx a l tx priced pool) a tx.nonce) := by
  obtain ⟨hsound, queue, heq⟩ := sound_cutAt h.books hpending htx priced
  have hmem : tx ∈ txsOf (pool.pending a) := by
    rw [hpending]
    exact htx
  refine ⟨hsound.of_eq rfl rfl rfl, fun base hbases => ?_⟩
  have hruns := h.runs base hbases
  obtain ⟨next, hnext, hbase, hlt⟩ := hruns.exists_next hmem
  rw [heq]
  refine hruns.change (fun b (hb : b ≠ a) => update_of_ne _ _ hb)
    (fun b hb => update_of_ne _ _ hb) ?_
  have hrun := hruns a
  rw [hnext, Option.elim_some, hpending] at hrun
  have hlower : ¬ next ≤ tx.nonce := by
    rw [UInt64.le_iff_toNat_le]
    omega
  simp only [setIfLower, hnext, Option.getD_some, update_self, if_neg hlower,
    Option.elim_some, txsOf_nonEmpty, UInt64.lt_iff_toNat_lt]
  rw [nonces_filter fun n => n < tx.nonce.toNat]
  have hcut := hrun.filter_lt hbase
  rwa [Nat.min_eq_left hlt.le] at hcut

theorem sound_removeQueued (h : Sound ctx.lib accounts P noLoose pool)
    (hqueue : pool.queue a = some l) (htx : tx ∈ l.txs) (priced : π) :
    Sound ctx.lib accounts P noLoose
      { pool with
        all := pool.all.remove ctx.lib (tx.hash ctx.lib)
        priced := priced
        queue := update pool.queue a (nonEmpty
          { l with txs := l.txs.filter fun other => other.nonce ≠ tx.nonce }) } := by
  have hholding : tx ∈ holdings pool noLoose a := by
    refine List.mem_append_right _ (List.mem_append_left _ ?_)
    rw [hqueue]
    exact htx
  have hkept := h.queueKept a l hqueue
  have hnodup : (nonces l.txs).Nodup := by
    have := h.nodup_queue a
    rwa [hqueue] at this
  refine h.move (h.mem_accounts (.inr (hqueue ▸ Option.some_ne_none l)))
    ⟨fun _ _ => rfl, fun b hb => update_of_ne _ _ hb, fun _ _ => rfl⟩ rfl (update_self _ _ _) rfl
    ⟨h.pendingKept a, wellKept_nonEmpty ⟨hkept.1, ?_⟩⟩ (?_ : ([tx] ++ _).Perm _)
    (h.mem_remove_iff hholding)
  · exact Capped.of_subset hkept.2 (fun other hother => (List.mem_filter.mp hother).1) rfl rfl
  · rw [txsOf_nonEmpty, holdings, hqueue, List.singleton_append]
    refine List.perm_middle.symm.trans (List.Perm.append_left _ ?_)
    exact (perm_cons_others hnodup htx).append_right _

theorem remove_of_not_strict (hstrict : l.strict = false) (htx : tx ∈ l.txs) :
    l.remove tx = some ({ l with txs := l.txs.filter fun other => other.nonce ≠ tx.nonce }, []) := by
  have hsome : ¬ (l.get tx.nonce).isNone = true := fun hnone =>
    free_of_get_eq_none (Option.isNone_iff_eq_none.mp hnone) tx htx rfl
  rw [TxsList.remove, if_neg hsome, hstrict]
  rfl

def pricedWithout (ctx : PoolContext π) (tx : Transaction) (outofbound : Bool)
    (pool : TxsPool π) : π :=
  if outofbound then
    ctx.pricing.removed (pool.all.remove ctx.lib (tx.hash ctx.lib)) 1 pool.priced
  else pool.priced

theorem removeTx_cases (h : Sound ctx.lib accounts P noLoose pool) (hash : Hash)
    (outofbound : Bool) :
    pool.all.get ctx.lib hash = none ∧ removeTx ctx hash outofbound pool = pool ∨
    (∃ a l tx, tx.hash ctx.lib = hash ∧ pool.pending a = some l ∧ tx ∈ l.txs ∧
      removeTx ctx hash outofbound pool = setIfLower ctx
        (cutAt ctx a l tx (pricedWithout ctx tx outofbound pool) pool) a tx.nonce) ∨
    ∃ a l tx, tx.hash ctx.lib = hash ∧ pool.queue a = some l ∧ tx ∈ l.txs ∧
      removeTx ctx hash outofbound pool =
        { pool with
          all := pool.all.remove ctx.lib (tx.hash ctx.lib)
          priced := pricedWithout ctx tx outofbound pool
          queue := update pool.queue a (nonEmpty
            { l with txs := l.txs.filter fun other => other.nonce ≠ tx.nonce }) } := by
  unfold PoolAdmission.removeTx
  split
  · rename_i hget
    exact .inl ⟨hget, rfl⟩
  · rename_i tx hget
    obtain ⟨hentry, rfl⟩ := mem_of_get_eq_some hget
    obtain ⟨a, hholding⟩ := (h.known tx).mp hentry
    rw [h.sender a tx hholding]
    dsimp only
    split
    · rename_i list invalids hremove
      obtain ⟨l, hpending, hl⟩ := Option.bind_eq_some_iff.mp hremove
      have hstrict := (h.pendingKept a l hpending).1
      obtain ⟨rfl, rfl, other, hother, hnonce⟩ := remove_of_strict hstrict hl
      -- the list finds its transaction by the nonce, and no other one has it
      have hsame : other = tx := by
        refine eq_of_nonce_eq (h.distinct a) (List.mem_append_left _ ?_) hholding hnonce
        rw [hpending]
        exact hother
      exact .inr (.inl ⟨a, l, tx, rfl, hpending, hsame ▸ hother, rfl⟩)
    · rename_i hremove
      have hnot : tx ∉ txsOf (pool.pending a) := by
        intro hmem
        cases hpending : pool.pending a with
        | none =>
          rw [hpending] at hmem
          exact absurd hmem List.not_mem_nil
        | some l =>
          rw [hpending, Option.bind_some, TxsList.remove] at hremove
          rw [hpending] at hmem
          split at hremove
          · rename_i hnone
            exact free_of_get_eq_none (Option.isNone_iff_eq_none.mp hnone) tx hmem rfl
          · rw [(h.pendingKept a l hpending).1] at hremove
            cases hremove
      have hqueued : tx ∈ txsOf (pool.queue a) := by
        rcases List.mem_append.mp hholding with hmem | hmem
        · exact absurd hmem hnot
        · exact (List.mem_append.mp hmem).resolve_right List.not_mem_nil
      cases hqueue : pool.queue a with
      | none =>
        rw [hqueue] at hqueued
        exact absurd hqueued List.not_mem_nil
      | some l =>
        rw [hqueue] at hqueued
        dsimp only
        rw [remove_of_not_strict (h.queueKept a l hqueue).1 hqueued]
        exact .inr (.inr ⟨a, l, tx, rfl, hqueue, hqueued, rfl⟩)

theorem Kept.removeTx (h : Kept ctx.lib accounts P bases pool) (hash : Hash) (outofbound : Bool) :
    Kept ctx.lib accounts P bases (removeTx ctx hash outofbound pool) := by
  rcases removeTx_cases h.books hash outofbound with ⟨-, heq⟩ |
    ⟨a, l, tx, -, hpending, htx, heq⟩ | ⟨a, l, tx, -, hqueue, htx, heq⟩
  · rwa [heq]
  · rw [heq]
    exact h.removePending hpending htx _
  · rw [heq]
    exact ⟨sound_removeQueued h.books hqueue htx _, h.runs⟩

theorem Kept.foldl_removeTx (h : Kept ctx.lib accounts P bases pool) (txs : List Transaction)
    (outofbound : Bool) : Kept ctx.lib accounts P bases
      (txs.foldl (fun pool tx => PoolAdmission.removeTx ctx (tx.hash ctx.lib) outofbound pool)
        pool) := by
  induction txs generalizing pool with
  | nil => exact h
  | cons tx txs ih => exact ih (h.removeTx (tx.hash ctx.lib) outofbound)

theorem Kept.of_eq (h : Kept lib accounts P bases pool) (hpending : pool'.pending = pool.pending)
    (hqueue : pool'.queue = pool.queue) (hall : pool'.all = pool.all)
    (hnonces : pool'.pendingNonces = pool.pendingNonces) : Kept lib accounts P bases pool' := by
  refine ⟨h.books.of_eq hpending hqueue hall, fun base hbases a => ?_⟩
  rw [hpending, hnonces]
  exact h.runs base hbases a

end Removal

section Insertion

variable {ctx : PoolContext π} {accounts : List Address} {P : Transaction → Prop}
  {bases : Option (Address → Nat)} {pool : TxsPool π} {a : Address} {tx : Transaction} {l : TxsList}

def Fresh (lib : Primitives) (hash : Hash) (pool : TxsPool π) : Prop :=
  ∀ other ∈ entries pool.all, other.hash lib ≠ hash

theorem mem_entries_replaced (h : Sound ctx.lib accounts P noLoose pool)
    (hfresh : Fresh ctx.lib (tx.hash ctx.lib) pool) {old : Option Transaction}
    (hold : ∀ o ∈ old, o ∈ holdings pool noLoose a) (isLocal : Bool) (other : Transaction) :
    other ∈ entries ((old.elim pool.all fun old => pool.all.remove ctx.lib
      (old.hash ctx.lib)).add ctx.lib tx isLocal) ↔
        other = tx ∨ other ∈ entries pool.all ∧ other ∉ old.toList := by
  cases old with
  | none =>
    rw [Option.elim_none, mem_entries_add hfresh]
    simp
  | some o =>
    have hremove := h.mem_remove_iff (hold o rfl)
    rw [Option.elim_some, mem_entries_add fun third hthird =>
      hfresh third ((hremove third).mp hthird).1, hremove]
    rfl

theorem mem_get_iff (hnodup : (nonces l.txs).Nodup) {nonce : UInt64} {other : Transaction} :
    other ∈ (l.get nonce).toList ↔ other ∈ l.txs ∧ other.nonce = nonce := by
  rw [Option.mem_toList]
  constructor
  · exact mem_of_get_nonce
  · rintro ⟨hmem, rfl⟩
    cases hget : l.get other.nonce with
    | none => exact absurd rfl (free_of_get_eq_none hget other hmem)
    | some found =>
      obtain ⟨hfound, hnonce⟩ := mem_of_get_nonce hget
      rw [eq_of_nonce_eq hnodup hfound hmem hnonce]

theorem Kept.replacePending (h : Kept ctx.lib accounts P bases pool)
    (hpending : pool.pending a = some l) (hoverlaps : l.overlaps tx = true)
    (hsender : tx.fromAddress = some a) (hfits : P tx)
    (hfresh : Fresh ctx.lib (tx.hash ctx.lib) pool) (isLocal : Bool) :
    Kept ctx.lib accounts P bases (replacePending ctx a l tx isLocal pool).2 := by
  have hnodup : (nonces l.txs).Nodup := by
    have := h.books.nodup_pending a
    rwa [hpending] at this
  have hkept := h.books.pendingKept a l hpending
  obtain ⟨found, hfound⟩ := Option.isSome_iff_exists.mp hoverlaps
  obtain ⟨hmem, hnonce⟩ := mem_of_get_nonce hfound
  have hqueued : ∀ other ∈ txsOf (pool.queue a), other.nonce ≠ tx.nonce := by
    intro other hother heq
    have hdistinct := h.books.distinct a
    rw [holdings, nonces_append, nonces_append, hpending] at hdistinct
    exact (List.nodup_append.mp hdistinct).2.2 _ (mem_nonces_of_mem hmem) _
      (List.mem_append_left _ (mem_nonces_of_mem hother))
      (congrArg UInt64.toNat (hnonce.trans heq.symm))
  have hold : ∀ other, other ∈ (l.get tx.nonce).toList ↔
      other ∈ holdings pool noLoose a ∧ other.nonce = tx.nonce := by
    intro other
    rw [mem_get_iff hnodup, holdings, hpending, noLoose, List.append_nil]
    refine and_congr_left fun heq => ⟨List.mem_append_left _, fun hin => ?_⟩
    exact (List.mem_append.mp hin).resolve_right fun hin => hqueued other hin heq
  rw [PoolAdmission.replacePending]
  cases hadd : l.add tx ctx.config.priceBump with
  | none => exact h
  | some result =>
    obtain ⟨list, old⟩ := result
    obtain ⟨htxs, rfl, hstrict, hcapped⟩ := capped_of_add hadd hkept.2
    constructor
    · refine h.books.replace (h.books.mem_accounts (.inl (hpending ▸ Option.some_ne_none l)))
        ⟨fun _ hb => update_of_ne _ _ hb, fun _ _ => rfl, fun _ _ => rfl⟩ ?_
        (h.books.queueKept a) hsender hfits hfresh hold ?_
        (mem_entries_replaced h.books hfresh (fun o ho => ((hold o).mp
          (Option.mem_toList.mpr ho)).1) isLocal)
      · change WellKept true (update pool.pending a (some list) a)
        rw [update_self]
        exact wellKept_some ⟨hstrict.trans hkept.1, hcapped⟩
      · change (txsOf (update pool.pending a (some list) a) ++
          (txsOf (pool.queue a) ++ [])).Perm _
        rw [update_self, holdings, hpending, List.filter_append, noLoose, List.append_nil,
          filter_others_eq_self hqueued, txsOf_some, txsOf_some, htxs]
        exact List.Perm.refl _
    · refine fun base hbases => (h.runs base hbases).change
        (fun b (hb : b ≠ a) => update_of_ne _ _ hb) (fun _ _ => rfl) ?_
      change IsRun _ _ (nonces (txsOf (update pool.pending a (some list) a)))
      have hsame : nonces list.txs =
          nonces (found :: l.txs.filter fun other => other.nonce ≠ found.nonce) := by
        rw [htxs, hnonce, nonces, nonces, List.map_cons, List.map_cons, hnonce]
      have hrun := h.runs base hbases a
      rw [hpending] at hrun
      rw [update_self, txsOf_some, hsame]
      exact hrun.perm ((perm_cons_others hnodup hmem).map _)

theorem deref_eq_ok (hsender : tx.fromAddress = some a) :
    (lift (derefFrom tx) : Action (TxsPool π) PoolError Address) pool = (.ok a, pool) := by
  rw [lift, derefFrom, hsender]

section

variable (h : Kept ctx.lib accounts P bases pool)
include h

theorem Kept.enqueueTx (ha : a ∈ accounts) (hsender : tx.fromAddress = some a) (hfits : P tx)
    (hfresh : Fresh ctx.lib (tx.hash ctx.lib) pool)
    (hpending : ∀ other ∈ txsOf (pool.pending a), other.nonce ≠ tx.nonce) (isLocal : Bool) :
    Kept ctx.lib accounts P bases (enqueueTx ctx tx isLocal true pool).2 := by
  have hnodup : (nonces ((pool.queue a).getD (.new false)).txs).Nodup := by
    rw [txs_getD]
    exact h.books.nodup_queue a
  have hkept := wellKept_getD (h.books.queueKept a)
  have hold : ∀ other, other ∈ (((pool.queue a).getD (.new false)).get tx.nonce).toList ↔
      other ∈ holdings pool noLoose a ∧ other.nonce = tx.nonce := by
    intro other
    rw [mem_get_iff hnodup, holdings, noLoose, List.append_nil, txs_getD]
    refine and_congr_left fun heq => ⟨List.mem_append_right _, fun hin => ?_⟩
    exact (List.mem_append.mp hin).resolve_left fun hin => hpending other hin heq
  rw [PoolAdmission.enqueueTx, bind_of_eq_ok (deref_eq_ok hsender), get_bind]
  cases hadd : ((pool.queue a).getD (.new false)).add tx ctx.config.priceBump with
  | none =>
    -- the queue has a better transaction, so it exists and stays
    have hsame : update pool.queue a (some ((pool.queue a).getD (.new false))) = pool.queue := by
      funext b
      rcases eq_or_ne b a with rfl | hne
      · cases hqueue : pool.queue b with
        | none =>
          have hfree : ∀ other ∈ ((pool.queue b).getD (.new false)).txs,
              other.nonce ≠ tx.nonce := by
            rw [hqueue]
            exact fun other hother => absurd hother List.not_mem_nil
          rw [add_of_free hfree] at hadd
          cases hadd
        | some l => rw [update_self, Option.getD_some]
      · exact update_of_ne _ _ hne
    exact h.of_eq rfl hsame rfl rfl
  | some result =>
    obtain ⟨list, old⟩ := result
    obtain ⟨htxs, rfl, hstrict, hcapped⟩ := capped_of_add hadd hkept.2
    refine ⟨?_, h.runs⟩
    refine h.books.replace ha ⟨fun _ _ => rfl, fun _ hb => update_of_ne _ _ hb, fun _ _ => rfl⟩
      (h.books.pendingKept a) ?_ hsender hfits hfresh hold ?_
      (mem_entries_replaced h.books hfresh (fun o ho => ((hold o).mp
        (Option.mem_toList.mpr ho)).1) isLocal)
    · change WellKept false (update pool.queue a (some list) a)
      rw [update_self]
      exact wellKept_some ⟨hstrict.trans hkept.1, hcapped⟩
    · change (txsOf (pool.pending a) ++ (txsOf (update pool.queue a (some list) a) ++ [])).Perm _
      rw [update_self, holdings, List.filter_append, noLoose, List.append_nil, List.append_nil,
        filter_others_eq_self hpending, txsOf_some, htxs, txs_getD]
      exact List.perm_middle

theorem Kept.markLocal (sender : Address) :
    Kept ctx.lib accounts P bases (markLocal ctx sender pool) := by
  rw [PoolAdmission.markLocal]
  split
  · exact h
  · have hsame : ∀ tx, tx ∈ entries (pool.all.remoteToLocals ctx.lib
        (update pool.locals sender true)).1 ↔ tx ∈ entries pool.all := fun _ =>
      mem_entries_remoteToLocals h.books.hashed _
    refine ⟨⟨fun tx => (hsame tx).trans (h.books.known tx), fun tx htx other hother => ?_,
      h.books.sender, h.books.distinct, h.books.fits, h.books.pendingKept, h.books.queueKept,
      h.books.confined⟩, h.runs⟩
    exact h.books.hashed tx ((hsame tx).mp htx) other ((hsame other).mp hother)

theorem Kept.insert (ha : a ∈ accounts) (hsender : tx.fromAddress = some a) (hfits : P tx)
    (hfresh : Fresh ctx.lib (tx.hash ctx.lib) pool) (wasLocal isLocal : Bool) :
    Kept ctx.lib accounts P bases (insert ctx a tx wasLocal isLocal pool).2 := by
  rw [PoolAdmission.insert, get_bind]
  cases hfilter : (pool.pending a).filter fun list => list.overlaps tx with
  | some l =>
    obtain ⟨hpending, hoverlaps⟩ := Option.filter_eq_some_iff.mp hfilter
    exact h.replacePending hpending hoverlaps hsender hfits hfresh isLocal
  | none =>
    have hfree : ∀ other ∈ txsOf (pool.pending a), other.nonce ≠ tx.nonce := by
      cases hpending : pool.pending a with
      | none => exact fun other hother => absurd hother List.not_mem_nil
      | some l =>
        rw [hpending, Option.filter_eq_none_iff] at hfilter
        have hnone := Option.not_isSome_iff_eq_none.mp (hfilter l rfl)
        exact free_of_get_eq_none hnone
    have hqueued := h.enqueueTx ha hsender hfits hfresh hfree isLocal
    dsimp only
    rcases bind_cases (PoolAdmission.enqueueTx ctx tx isLocal true) (fun replaced => do
      Action.modify fun pool => if wasLocal then PoolAdmission.markLocal ctx a pool else pool
      return replaced) pool with ⟨e, t, hrun, hresult⟩ | ⟨r, t, hrun, hresult⟩
    · rw [hrun] at hqueued
      rw [hresult]
      exact hqueued
    · rw [hrun] at hqueued
      rw [hresult]
      split
      · exact hqueued.markLocal a
      · exact hqueued

end

end Insertion

section Addition

variable {ctx : PoolContext π} {accounts : List Address} {P : Transaction → Prop}
  {bases : Option (Address → Nat)} {pool : TxsPool π} {a : Address} {tx : Transaction} {hash : Hash}

/-! What holds of a lookup whatever leaves it still holds after transactions were removed or
postponed. -/

section Rule

variable {I : TxLookup → Prop} (hremove : ∀ all hash, I all → I (all.remove ctx.lib hash))
include hremove

theorem lookup_enqueueTx (tx : Transaction) (h : I pool.all) :
    I (enqueueTx ctx tx false false pool).2.all := by
  refine lift_induction (P := fun pool : TxsPool π => I pool.all) (fun _ _ => h) fun sender _ => ?_
  rw [get_bind]
  cases ((pool.queue sender).getD (.new false)).add tx ctx.config.priceBump with
  | none => exact h
  | some result =>
    obtain ⟨list, old⟩ := result
    cases old with
    | none => exact h
    | some old => exact hremove _ _ h

theorem lookup_postpone (txs : List Transaction) (h : I pool.all) :
    I (postpone ctx txs pool).all := by
  induction txs generalizing pool with
  | nil => exact h
  | cons tx txs ih => exact ih (lookup_enqueueTx hremove tx h)

theorem lookup_removeTx (removed : Hash) (outofbound : Bool) (h : I pool.all) :
    I (removeTx ctx removed outofbound pool).all := by
  unfold PoolAdmission.removeTx
  split
  · exact h
  · split
    · exact h
    · have hless := hremove pool.all removed h
      dsimp only
      split
      · exact lookup_postpone hremove _ hless
      · split
        · exact hless
        · exact hless

theorem lookup_foldl_removeTx (txs : List Transaction) (h : I pool.all) :
    I (txs.foldl (fun pool tx => removeTx ctx (tx.hash ctx.lib) false pool) pool).all := by
  induction txs generalizing pool with
  | nil => exact h
  | cons tx txs ih => exact ih (lookup_removeTx hremove (tx.hash ctx.lib) false h)

end Rule

theorem ensures_makeRoom (tx : Transaction) (isLocal : Bool) :
    Ensures (fun pool : TxsPool π => Kept ctx.lib accounts P bases pool ∧ Fresh ctx.lib hash pool)
      (makeRoom ctx tx isLocal) (fun _ => True) fun _ => True := by
  have hpriced : ∀ (pool : TxsPool π) (priced : π),
      Kept ctx.lib accounts P bases pool ∧ Fresh ctx.lib hash pool →
      Kept ctx.lib accounts P bases { pool with priced := priced } ∧
        Fresh ctx.lib hash { pool with priced := priced } :=
    fun pool priced h => ⟨h.1.of_eq rfl rfl rfl rfl, h.2⟩
  refine ensures_bind ensures_get fun _ _ => ?_
  refine ensures_seq (ensures_modify fun pool h => hpriced pool _ h) fun _ => ?_
  refine ensures_bind (ensures_failIf trivial) fun _ _ => ?_
  refine ensures_bind (ensures_failIf trivial) fun _ _ => ?_
  refine ensures_bind ensures_get fun _ _ => ?_
  refine ensures_seq (ensures_modify fun pool h => hpriced pool _ h) fun _ => ?_
  refine ensures_bind (ensures_failIf trivial) fun _ _ => ensures_modify fun pool h => ?_
  have hcounted : ∀ count, Kept ctx.lib accounts P bases { pool with changesSinceReorg := count } :=
    fun count => h.1.of_eq rfl rfl rfl rfl
  have hfresh : ∀ count, Fresh ctx.lib hash { pool with changesSinceReorg := count } :=
    fun _ => h.2
  refine ⟨(hcounted _).foldl_removeTx _ false, lookup_foldl_removeTx
    (I := fun all => ∀ other ∈ entries all, other.hash ctx.lib ≠ hash) (fun all removed h other
      hother => h other (mem_entries_remove.mp hother).1) _ (hfresh _)⟩

def SentFrom (accounts : List Address) (tx : Transaction) : Prop :=
  ∀ a, tx.fromAddress = some a → a ∈ accounts

def Admits (ctx : PoolContext π) (P : Transaction → Prop) (pool : TxsPool π) (tx : Transaction) :
    Prop :=
  ∀ pool' isLocal, forks pool' = forks pool → validateTx ctx pool' tx isLocal = .ok () → P tx

section

variable (h : Kept ctx.lib accounts P bases pool)
include h

theorem Kept.add (htx : SentFrom accounts tx) (hadmits : Admits ctx P pool tx) (wasLocal : Bool) :
    Kept ctx.lib accounts P bases (add ctx tx wasLocal pool).2 := by
  refine failIf_induction (fun _ => h) fun hunknown => ?_
  have hfresh : Fresh ctx.lib (tx.hash ctx.lib) pool :=
    get_eq_none_iff.mp (Option.not_isSome_iff_eq_none.mp hunknown)
  refine failIf_induction (fun _ => h) fun _ => lift_induction (fun _ _ => h) fun _ hvalid =>
    lift_induction (fun _ _ => h) fun a ha => ?_
  have hsender : tx.fromAddress = some a := derefFrom_eq_ok_iff.mp ha
  have hfits := hadmits pool _ rfl hvalid
  split
  · have hroom := (ensures_makeRoom tx (wasLocal || tx.fromAddress.any pool.locals) pool
      ⟨h, hfresh⟩).1
    refine bind_induction (fun e t hrun => ?_) fun r t hrun => ?_
    · rw [hrun] at hroom
      exact hroom.1
    · rw [hrun] at hroom
      exact hroom.1.insert (htx a hsender) hsender hfits hroom.2 _ _
  · exact h.insert (htx a hsender) hsender hfits hfresh _ _

theorem Kept.tryAdd (htx : SentFrom accounts tx) (hadmits : Admits ctx P pool tx) (isLocal : Bool) :
    Kept ctx.lib accounts P bases (tryAdd ctx tx isLocal pool).2 := by
  have hadd := h.add htx hadmits isLocal
  rw [PoolAdmission.tryAdd]
  revert hadd
  split
  all_goals
    rename_i heq
    rw [heq]
    exact id

section

variable {txs : List Transaction} (htxs : ∀ tx ∈ txs, SentFrom accounts tx ∧ Admits ctx P pool tx)
  (isLocal : Bool)
include htxs

theorem Kept.addTxsLocked :
    Kept ctx.lib accounts P bases (addTxsLocked ctx isLocal txs pool).2 := by
  induction txs generalizing pool with
  | nil => exact h
  | cons tx txs ih =>
    obtain ⟨hsent, hadmits⟩ := htxs tx List.mem_cons_self
    have hfirst := h.tryAdd hsent hadmits isLocal
    have hforks : forks (PoolAdmission.tryAdd ctx tx isLocal pool).2 = forks pool :=
      keeps_forks_tryAdd tx isLocal pool
    refine bind_induction (fun e t hrun => ?_) fun err t hrun => ?_
    · rw [hrun] at hfirst
      exact hfirst
    · rw [hrun] at hfirst hforks
      have hnext := ih hfirst fun other hother =>
        have hin := htxs other (List.mem_cons_of_mem _ hother)
        ⟨hin.1, fun pool' isLocal heq => hin.2 pool' isLocal (heq.trans hforks)⟩
      refine bind_induction (fun e u hrun => ?_) fun errs u hrun => ?_
      · rw [hrun] at hnext
        exact hnext
      · rw [hrun] at hnext
        exact hnext

theorem Kept.addTxs :
    Kept ctx.lib accounts P bases (addTxs ctx txs isLocal pool).2 := by
  rw [PoolAdmission.addTxs, get_bind]
  have hnew : ∀ tx ∈ txs.filter fun tx => (knownError ctx pool tx).isNone,
      SentFrom accounts tx ∧ Admits ctx P pool tx := fun tx htx =>
    htxs tx (List.mem_filter.mp htx).1
  have hlocked := h.addTxsLocked hnew isLocal
  refine bind_induction (fun e t hrun => ?_) fun errs t hrun => ?_
  · rw [hrun] at hlocked
    exact hlocked
  · rw [hrun] at hlocked
    exact hlocked

end

end

end Addition

end N42.PoolAdditions
