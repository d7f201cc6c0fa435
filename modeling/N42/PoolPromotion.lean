import N42.PoolAdditions

/-!
The promotion of queued transactions keeps the books of the pool, and what it does to the
pending nonces of an account.
-/

namespace N42.PoolPromotion

open ChainTypes Transactions NumberRuns PoolAdmission PoolLists
open PoolReorg PoolSoundness PoolAdditions
open AdmissionConditions (forks)

variable {π : Type}

section Promotion

variable {ctx : PoolContext π} {settings : PoolSettings π} {accounts : List Address}
  {P : Transaction → Prop} {pool : TxsPool π} {a : Address} {tx : Transaction} {txs rest : List Transaction}
  {l : TxsList}

theorem promoteTx_of_free (hfree : ∀ other ∈ txsOf (pool.pending a), other.nonce ≠ tx.nonce) :
    promoteTx ctx a pool tx = { pool with
        pending := update pool.pending a (some (push ((pool.pending a).getD (.new true)) tx))
        pendingNonces := update pool.pendingNonces a (some (tx.nonce + 1)) } := by
  have hfree' : ∀ other ∈ ((pool.pending a).getD (.new true)).txs, other.nonce ≠ tx.nonce := by
    rwa [txs_getD]
  rw [promoteTx]
  rw [add_of_free hfree']
  rfl

def nextAfter (txs : List Transaction) (next : Option UInt64) : Option UInt64 :=
  txs.foldl (fun _ tx => some (tx.nonce + 1)) next

theorem promote_of_sound (h : Sound ctx.lib accounts P (loosely a (txs ++ rest)) pool)
    (ha : a ∈ accounts) :
    ∃ pending pendingNonces, txs.foldl (promoteTx ctx a) pool =
        { pool with pending := pending, pendingNonces := pendingNonces } ∧
      Sound ctx.lib accounts P (loosely a rest)
        { pool with pending := pending, pendingNonces := pendingNonces } ∧
      (txsOf (pending a)).Perm (txs ++ txsOf (pool.pending a)) ∧
      pendingNonces a = nextAfter txs (pool.pendingNonces a) ∧
      ∀ b, b ≠ a → pending b = pool.pending b ∧ pendingNonces b = pool.pendingNonces b := by
  induction txs generalizing pool with
  | nil => exact ⟨_, _, rfl, h, List.Perm.refl _, rfl, fun _ _ => ⟨rfl, rfl⟩⟩
  | cons tx txs ih =>
    have hfree : ∀ other ∈ txsOf (pool.pending a), other.nonce ≠ tx.nonce := by
      intro other hother heq
      have hnodup := h.distinct a
      rw [holdings, nonces_append] at hnodup
      exact (List.nodup_append.mp hnodup).2.2 _ (mem_nonces_of_mem hother) _
        (mem_nonces_of_mem (List.mem_append_right _ (by
          rw [loosely, update_self]
          exact List.mem_cons_self))) (congrArg UInt64.toNat heq)
    have hkept := wellKept_getD (h.pendingKept a)
    have hadd := add_of_free (by rwa [txs_getD] :
      ∀ other ∈ ((pool.pending a).getD (.new true)).txs, other.nonce ≠ tx.nonce) 0
    have hcapped := capped_of_add hadd hkept.2
    rw [List.foldl_cons, promoteTx_of_free hfree]
    have hmoved : Sound ctx.lib accounts P (loosely a (txs ++ rest)) { pool with
          pending := update pool.pending a (some (push ((pool.pending a).getD (.new true)) tx))
          pendingNonces := update pool.pendingNonces a (some (tx.nonce + 1)) } := by
      refine h.move ha ⟨fun _ hb => update_of_ne _ _ hb, fun _ _ => rfl, fun b hb => by
          rw [loosely, loosely, update_of_ne _ _ hb, update_of_ne _ _ hb]⟩
        (update_self _ _ _) rfl (update_self _ _ _)
        ⟨wellKept_some ⟨hcapped.2.2.1.trans hkept.1, hcapped.2.2.2⟩, h.queueKept a⟩
        (?_ : ([] ++ _).Perm _) fun other => by simp
      rw [List.nil_append, holdings, loosely, update_self, txsOf_some, push, txs_getD,
        List.cons_append, List.cons_append]
      refine List.perm_middle.symm.trans (List.Perm.append_left _ ?_)
      exact List.perm_middle.symm
    obtain ⟨pending, pendingNonces, heq, hsound, hperm, hnext, helse⟩ := ih hmoved
    refine ⟨pending, pendingNonces, heq, hsound, hperm.trans ?_, ?_, fun b hb => ?_⟩
    · dsimp only
      rw [update_self, txsOf_some, push, txs_getD]
      exact List.perm_middle
    · rw [hnext]
      dsimp only
      rw [update_self]
      rfl
    · have := helse b hb
      dsimp only at this
      rwa [update_of_ne _ _ hb, update_of_ne _ _ hb] at this

def payable (ctx : PoolContext π) (pool : TxsPool π) (a : Address) : List Transaction :=
  (txsOf (pool.queue a)).filter fun tx =>
    ctx.stateNonce a ≤ tx.nonce && !exceeds (ctx.stateBalance a) pool.currentMaxGas tx

/-- What is ready: nothing, or a run of payable nonces from the lowest one on. -/
def IsReady (ctx : PoolContext π) (pool : TxsPool π) (a : Address)
    (readies : List Transaction) : Prop :=
  readies = [] ∧ (∀ tx ∈ payable ctx pool a, (getNonce ctx pool a).toNat < tx.nonce.toNat) ∨
    ∃ first count rest, 0 < count ∧ first ≤ (getNonce ctx pool a).toNat ∧
      nonces readies = List.range' first count ∧ (readies ++ rest).Perm (payable ctx pool a) ∧
      ∀ tx ∈ rest, first + count < tx.nonce.toNat

structure Promoted (ctx : PoolContext π) (a : Address) (pool pool' : TxsPool π)
    (readies : List Transaction) : Prop where
  ready : IsReady ctx pool a readies
  elsewhere : ∀ b, b ≠ a → pool'.pending b = pool.pending b ∧ pool'.queue b = pool.queue b ∧
    pool'.pendingNonces b = pool.pendingNonces b
  pending : (txsOf (pool'.pending a)).Perm (readies ++ txsOf (pool.pending a))
  next : pool'.pendingNonces a = pool.pendingNonces a ∧ readies = [] ∨
    pool'.pendingNonces a = nextAfter readies (some (getNonce ctx pool a))
  maxGas : pool'.currentMaxGas = pool.currentMaxGas
  forks : forks pool' = forks pool

def Countable (tx : Transaction) : Prop :=
  tx.nonce ≠ maxNonce

instance : DecidablePred Countable := fun tx => inferInstanceAs (Decidable (tx.nonce ≠ maxNonce))

theorem txs_filter_forward (hl : l.strict = false ∧ Capped l) (nonce : UInt64)
    (balance : Uint256) (gas : UInt64) :
    (filter balance gas (forward nonce l).2).2.txs =
      l.txs.filter fun tx => nonce ≤ tx.nonce && !exceeds balance gas tx := by
  have hcap : Capped (forward nonce l).2 :=
    Capped.of_subset hl.2 (fun tx htx => (List.mem_filter.mp htx).1) rfl rfl
  rw [(txs_filter_of_not_strict hcap hl.1).2, forward, List.filter_filter]
  refine List.filter_congr fun tx _ => ?_
  rw [Bool.and_comm]
  simp only [UInt64.not_lt]

theorem perm_ready (hnodup : (nonces l.txs).Nodup) (start : UInt64) :
    ((ready start l).1 ++ (ready start l).2.txs).Perm l.txs ∧
      (ready start l).2 = { l with txs := (ready start l).2.txs } := by
  rcases ready_spec hnodup start with ⟨heq, -⟩ | ⟨_, _, -, -, -, heq, hperm, -⟩
  · rw [heq]
    exact ⟨List.Perm.refl _, rfl⟩
  · exact ⟨hperm, heq⟩

theorem removeAll_append (lib : Primitives) (all : TxLookup) (txs txs' : List Transaction) :
    removeAll lib (txs ++ txs') all = removeAll lib txs' (removeAll lib txs all) :=
  List.foldl_append

section

variable (h : Sound ctx.lib accounts P noLoose pool) (hqueue : pool.queue a = some l)
include h hqueue

theorem sound_takeReady (nonce start : UInt64) (balance : Uint256) (gas : UInt64)
    (pendingNonces : Address → Option UInt64) :
    Sound ctx.lib accounts P
      (loosely a ((ready start (filter balance gas (forward nonce l).2).2).1 ++ [])) { pool with
        all := removeAll ctx.lib (filter balance gas (forward nonce l).2).1.1
          (removeAll ctx.lib (forward nonce l).1 pool.all)
        queue := update pool.queue a (some (ready start (filter balance gas (forward nonce l).2).2).2)
        pendingNonces := pendingNonces } := by
  have hkept := h.queueKept a l hqueue
  have hforward : Capped (forward nonce l).2 :=
    Capped.of_subset hkept.2 (fun tx htx => (List.mem_filter.mp htx).1) rfl rfl
  have hnodup : (nonces (filter balance gas (forward nonce l).2).2.txs).Nodup := by
    have hall := h.nodup_queue a
    rw [hqueue] at hall
    rw [txs_filter_forward hkept]
    exact hall.sublist (List.filter_sublist.map _)
  have hpermForward := perm_forward nonce l
  have hpermFilter := perm_filter balance gas (forward nonce l).2
  rw [(txs_filter_of_not_strict hforward hkept.1).1, List.nil_append] at hpermFilter
  obtain ⟨hpermReady, hready⟩ := perm_ready hnodup start
  have hcapped : Capped (filter balance gas (forward nonce l).2).2 := capped_filter hforward
  have hstrict : (filter balance gas (forward nonce l).2).2.strict = false :=
    strict_filter.trans hkept.1
  generalize filter balance gas (forward nonce l).2 = drops at *
  generalize forward nonce l = olds at *
  generalize ready start drops.2 = readies at *
  have hperm : ((olds.1 ++ drops.1.1) ++ (txsOf (pool.pending a) ++
      (txsOf (some readies.2) ++ (readies.1 ++ [])))).Perm (holdings pool noLoose a) := by
    rw [holdings, hqueue, noLoose, List.append_nil, List.append_nil]
    refine (List.perm_append_comm_assoc _ _ _).trans (List.Perm.append_left _ ?_)
    rw [List.append_assoc]
    refine (List.Perm.append_left _ (List.Perm.append_left _ ?_)).trans
      ((List.Perm.append_left _ hpermFilter).trans hpermForward)
    exact List.perm_append_comm.trans hpermReady
  refine h.move (h.mem_accounts (.inr (hqueue ▸ Option.some_ne_none l)))
    ⟨fun _ _ => rfl, fun _ hb => update_of_ne _ _ hb, fun b hb => update_of_ne _ _ hb⟩ rfl
    (update_self _ _ _) (update_self _ _ _) ⟨h.pendingKept a, wellKept_some ⟨?_, ?_⟩⟩ hperm
    fun tx => ?_
  · rw [hready]
    exact hstrict
  · rw [hready]
    exact Capped.of_subset hcapped
      (fun tx htx => hpermReady.mem_iff.mp (List.mem_append_right _ htx)) rfl rfl
  · rw [← removeAll_append]
    exact h.mem_removeAll_iff (fun tx htx => hperm.mem_iff.mp (List.mem_append_left _ htx)) tx

theorem sound_cutQueue {drops : List Transaction} {list : TxsList}
    (hperm : (drops ++ list.txs).Perm l.txs) (hcaps : list = { l with txs := list.txs })
    (priced : π) :
    Sound ctx.lib accounts P noLoose { pool with
        all := removeAll ctx.lib drops pool.all
        priced := priced
        queue := update pool.queue a (nonEmpty list) } := by
  have hkept := h.queueKept a l hqueue
  have hpermAll : (drops ++ (txsOf (pool.pending a) ++ (txsOf (nonEmpty list) ++ []))).Perm
      (holdings pool noLoose a) := by
    rw [holdings, hqueue, noLoose, List.append_nil, List.append_nil, txsOf_nonEmpty]
    exact (List.perm_append_comm_assoc _ _ _).trans (List.Perm.append_left _ hperm)
  refine h.move (h.mem_accounts (.inr (hqueue ▸ Option.some_ne_none l)))
    ⟨fun _ _ => rfl, fun _ hb => update_of_ne _ _ hb, fun _ _ => rfl⟩ rfl (update_self _ _ _) rfl
    ⟨h.pendingKept a, wellKept_nonEmpty ⟨?_, ?_⟩⟩ hpermAll fun tx => ?_
  · rw [hcaps]
    exact hkept.1
  · rw [hcaps]
    exact Capped.of_subset hkept.2
      (fun tx htx => hperm.mem_iff.mp (List.mem_append_right _ htx)) rfl rfl
  · exact h.mem_removeAll_iff (fun tx htx => hpermAll.mem_iff.mp (List.mem_append_left _ htx)) tx

theorem isReady_ready :
    IsReady ctx pool a (ready (getNonce ctx pool a)
      (filter (ctx.stateBalance a) pool.currentMaxGas (forward (ctx.stateNonce a) l).2).2).1 := by
  have hkept := h.queueKept a l hqueue
  have hpayable : (filter (ctx.stateBalance a) pool.currentMaxGas
      (forward (ctx.stateNonce a) l).2).2.txs = payable ctx pool a := by
    rw [txs_filter_forward hkept, payable, hqueue, txsOf_some]
  have hnodup : (nonces (payable ctx pool a)).Nodup :=
    (h.nodup_queue a).sublist (List.filter_sublist.map _)
  rw [← hpayable] at hnodup
  rcases ready_spec hnodup (getNonce ctx pool a) with
    ⟨heq, hlate⟩ | ⟨first, count, hpos, hle, hrange, -, hperm, hrest⟩
  · refine .inl ⟨congrArg Prod.fst heq, ?_⟩
    rwa [← hpayable]
  · exact .inr ⟨first, count, _, hpos, hle, hrange, hpayable ▸ hperm, hrest⟩

end

theorem promoteAccount_spec (settings : PoolSettings π)
    (h : Sound ctx.lib accounts P noLoose pool) (a : Address) :
    Sound ctx.lib accounts P noLoose (promoteAccount ctx settings pool a) ∧
      ∃ readies, Promoted ctx a pool (promoteAccount ctx settings pool a) readies := by
  rw [promoteAccount]
  cases hqueue : pool.queue a with
  | none =>
    refine ⟨h, [], .inl ⟨rfl, ?_⟩, fun _ _ => ⟨rfl, rfl, rfl⟩, List.Perm.refl _,
      .inl ⟨rfl, rfl⟩, rfl, rfl⟩
    intro tx htx
    rw [payable, hqueue] at htx
    exact absurd htx List.not_mem_nil
  | some l =>
    have ha := h.mem_accounts (.inr (hqueue ▸ Option.some_ne_none l))
    have htaken := sound_takeReady h hqueue (ctx.stateNonce a) (getNonce ctx pool a)
      (ctx.stateBalance a) pool.currentMaxGas
      (update pool.pendingNonces a (some (getNonce ctx pool a)))
    have hready := isReady_ready h hqueue
    obtain ⟨pending, pendingNonces, heq, hsound, hperm, hnext, helse⟩ := promote_of_sound htaken ha
    rw [loosely_nil] at hsound
    dsimp only [cacheNonce, getNonce] at heq hready hnext helse hsound hperm ⊢
    rw [heq]
    generalize hreadies : ready ((pool.pendingNonces a).getD (ctx.stateNonce a))
      (filter (ctx.stateBalance a) pool.currentMaxGas (forward (ctx.stateNonce a) l).2).2 =
        readies at *
    obtain ⟨drops, list, hcut, hcutPerm, hcutCaps⟩ : ∃ drops list,
        (if pool.locals a then ([], readies.2) else cap settings.accountQueue readies.2) =
          (drops, list) ∧ (drops ++ list.txs).Perm readies.2.txs ∧
          list = { readies.2 with txs := list.txs } := by
      split
      · exact ⟨_, _, rfl, List.Perm.refl _, rfl⟩
      · exact ⟨_, _, rfl, perm_cap _ _, cap_eq _ _⟩
    rw [hcut]
    refine ⟨sound_cutQueue hsound (update_self _ _ _) hcutPerm hcutCaps _, readies.1, hready,
      fun b hb => ⟨(helse b hb).1, ?_, (helse b hb).2.trans (update_of_ne _ _ hb)⟩, hperm,
      .inr ?_, rfl, rfl⟩
    · exact (update_of_ne _ _ hb).trans (update_of_ne _ _ hb)
    · dsimp only
      rw [hnext, update_self, getNonce]

variable {pool' : TxsPool π} {readies : List Transaction} {base : Nat}

theorem toNat_succ {nonce : UInt64} (h : nonce ≠ maxNonce) :
    (nonce + 1).toNat = nonce.toNat + 1 := by
  have hne : nonce.toNat ≠ maxNonce.toNat := fun heq => h (UInt64.toNat_inj.mp heq)
  have hlt := nonce.toNat_lt
  have hmax : maxNonce.toNat = 2 ^ 64 - 1 := rfl
  rw [UInt64.toNat_add, UInt64.toNat_one, Nat.mod_eq_of_lt (by omega)]

theorem nextAfter_of_range {first count : Nat} (hrange : nonces txs = List.range' first count)
    (hpos : 0 < count) (hsmall : ∀ tx ∈ txs, Countable tx) (next : Option UInt64) :
    ∃ n, nextAfter txs next = some n ∧ n.toNat = first + count := by
  obtain ⟨count, rfl⟩ := Nat.exists_eq_add_of_lt hpos
  rw [List.range'_concat, nonces, List.map_eq_append_iff] at hrange
  obtain ⟨init, last, rfl, -, hlast⟩ := hrange
  obtain ⟨tx, rest, rfl, hnonce, hrest⟩ := List.map_eq_cons_iff.mp hlast
  obtain rfl := List.map_eq_nil_iff.mp hrest
  refine ⟨tx.nonce + 1, by rw [nextAfter, List.foldl_append]; rfl, ?_⟩
  rw [toNat_succ (hsmall tx (List.mem_append_right _ List.mem_cons_self)), hnonce]
  omega

theorem mem_queue_of_payable (h : tx ∈ payable ctx pool a) :
    tx ∈ txsOf (pool.queue a) ∧ (ctx.stateNonce a).toNat ≤ tx.nonce.toNat := by
  obtain ⟨hmem, hpays⟩ := List.mem_filter.mp h
  rw [Bool.and_eq_true, decide_eq_true_eq] at hpays
  exact ⟨hmem, UInt64.le_iff_toNat_le.mp hpays.1⟩

theorem nonce_ne_of_payable (h : Sound ctx.lib accounts P noLoose pool)
    (htx : tx ∈ payable ctx pool a) : tx.nonce.toNat ∉ nonces (txsOf (pool.pending a)) := by
  intro hmem
  have hnodup := h.distinct a
  rw [holdings, nonces_append, nonces_append] at hnodup
  exact (List.nodup_append.mp hnodup).2.2 _ hmem _
    (List.mem_append_left _ (mem_nonces_of_mem (mem_queue_of_payable htx).1)) rfl

section

variable (hp : Promoted ctx a pool pool' readies) (h : Sound ctx.lib accounts P noLoose pool)
  (hcount : ∀ tx, P tx → Countable tx)
  (hrun : IsRun base ((pool.pendingNonces a).elim base UInt64.toNat)
      (nonces (txsOf (pool.pending a))))
include hp h hcount hrun

theorem Promoted.run (hbase : base ≤ (ctx.stateNonce a).toNat)
    (hnone : pool.pendingNonces a = none → base = (ctx.stateNonce a).toNat) :
    IsRun base ((pool'.pendingNonces a).elim base UInt64.toNat)
      (nonces (txsOf (pool'.pending a))) := by
  have hnext : (getNonce ctx pool a).toNat = (pool.pendingNonces a).elim base UInt64.toNat := by
    rw [getNonce]
    cases hcase : pool.pendingNonces a with
    | none => exact (hnone hcase).symm
    | some next => rfl
  have hperm := hp.pending.map fun tx : Transaction => tx.nonce.toNat
  rw [List.map_append] at hperm
  rcases hp.ready with ⟨rfl, -⟩ | ⟨first, count, rest, hpos, hfirst, hrange, hsplit, -⟩
  · have hsame : (pool'.pendingNonces a).elim base UInt64.toNat =
        (pool.pendingNonces a).elim base UInt64.toNat := by
      rcases hp.next with ⟨heq, -⟩ | heq
      · rw [heq]
      · rw [heq, ← hnext]
        rfl
    rw [hsame]
    exact hrun.perm hperm
  · have hpayable : ∀ tx ∈ readies, tx ∈ payable ctx pool a := fun tx htx =>
      hsplit.mem_iff.mp (List.mem_append_left _ htx)
    have hsmall : ∀ tx ∈ readies, Countable tx := fun tx htx =>
      hcount tx (h.fits a tx (List.mem_append_right _ (List.mem_append_left _
        (mem_queue_of_payable (hpayable tx htx)).1)))
    obtain ⟨n, hn, hcount⟩ := nextAfter_of_range hrange hpos hsmall (some (getNonce ctx pool a))
    -- the lowest ready nonce is not pending, so it is the one after the run
    obtain ⟨tx, htx, hnonce⟩ : ∃ tx ∈ readies, tx.nonce.toNat = first := by
      refine List.mem_map.mp (?_ : first ∈ nonces readies)
      rw [hrange, List.mem_range'_1]
      omega
    have hlow := (mem_queue_of_payable (hpayable tx htx)).2
    have hnot := nonce_ne_of_payable h (hpayable tx htx)
    rw [hnonce, hrun.mem, ← hnext] at hnot
    obtain rfl : first = (getNonce ctx pool a).toNat := by omega
    have hnext' : (pool'.pendingNonces a).elim base UInt64.toNat =
        (getNonce ctx pool a).toNat + count := by
      rcases hp.next with ⟨-, rfl⟩ | heq
      · exact absurd htx List.not_mem_nil
      · rw [heq, hn, Option.elim_some, hcount]
    rw [hnext']
    rw [← hnext] at hrun
    have hmore := hrun.append (isRun_range' (getNonce ctx pool a).toNat count)
    rw [← hrange] at hmore
    exact hmore.perm (hperm.trans List.perm_append_comm)

/-- An account whose nonce fell below its pending run: it has nothing pending, or it cannot
go on at its nonce, or the queue fills the gap. -/
def Refilled (ctx : PoolContext π) (base : Nat) (pool : TxsPool π) (a : Address) : Prop :=
  (ctx.stateNonce a).toNat < base → txsOf (pool.pending a) = [] ∨
    (ctx.stateNonce a).toNat ∉ nonces (payable ctx pool a) ∨
    ∀ n, (ctx.stateNonce a).toNat ≤ n → n < base → n ∈ nonces (payable ctx pool a)

theorem Promoted.anchored (hnone : pool.pendingNonces a = none → base = (ctx.stateNonce a).toNat)
    (hrefilled : Refilled ctx base pool a) :
    Anchored (ctx.stateNonce a).toNat (nonces (txsOf (pool'.pending a))) := by
  by_cases hbase : base ≤ (ctx.stateNonce a).toNat
  · exact (hp.run h hcount hrun hbase hnone).anchored _
  have hperm := hp.pending.map fun tx : Transaction => tx.nonce.toNat
  rw [List.map_append] at hperm
  refine Anchored.perm ?_ hperm
  have hpending : (ctx.stateNonce a).toNat ∉ nonces (txsOf (pool.pending a)) := by
    rw [hrun.mem]
    omega
  have hnext : (getNonce ctx pool a).toNat = (pool.pendingNonces a).elim base UInt64.toNat := by
    rw [getNonce]
    cases hcase : pool.pendingNonces a with
    | none => exact (hnone hcase).symm
    | some next => rfl
  rcases hp.ready with ⟨rfl, -⟩ | ⟨first, count, rest, hpos, hfirst, hrange, hsplit, hrest⟩
  · exact fun hmem => absurd hmem hpending
  change Anchored _ (nonces readies ++ nonces (txsOf (pool.pending a)))
  rw [hrange]
  have hsplit' : (List.range' first count ++ nonces rest).Perm (nonces (payable ctx pool a)) := by
    rw [← hrange, ← nonces_append]
    exact hsplit.map _
  rcases hrefilled (by omega) with hempty | habsent | hfilled
  · rw [hempty]
    exact ((isRun_range' first count).append (isRun_nil _)).anchored _
  · intro hmem
    refine absurd hmem fun hmem => ?_
    rcases List.mem_append.mp hmem with hmem | hmem
    · exact habsent (hsplit'.mem_iff.mp (List.mem_append_left _ hmem))
    · exact hpending hmem
  · -- the ready run starts at the nonce of the state and ends where the pending one starts
    have hstate : first ≤ (ctx.stateNonce a).toNat := by
      have hmem := hsplit'.mem_iff.mpr (hfilled _ (Nat.le_refl _) (by omega))
      rcases List.mem_append.mp hmem with hmem | hmem
      · exact (List.mem_range'_1.mp hmem).1
      · obtain ⟨tx, htx, hnonce⟩ := List.mem_map.mp hmem
        have := hrest tx htx
        omega
    have hlow : (ctx.stateNonce a).toNat ≤ first := by
      have hmem : first ∈ nonces (payable ctx pool a) :=
        hsplit'.mem_iff.mp (List.mem_append_left _ (List.mem_range'_1.mpr (by omega)))
      obtain ⟨tx, htx, hnonce⟩ := List.mem_map.mp hmem
      have := (mem_queue_of_payable htx).2
      omega
    obtain rfl : first = (ctx.stateNonce a).toNat := by omega
    have hreach : base ≤ (ctx.stateNonce a).toNat + count := by
      by_contra hlt
      have hmem := hsplit'.mem_iff.mpr (hfilled _ (Nat.le_add_right _ count) (by omega))
      rcases List.mem_append.mp hmem with hmem | hmem
      · have := (List.mem_range'_1.mp hmem).2
        omega
      · obtain ⟨tx, htx, hnonce⟩ := List.mem_map.mp hmem
        have := hrest tx htx
        omega
    rcases eq_or_ne (nonces (txsOf (pool.pending a))) [] with hnil | hne
    · rw [hnil, List.append_nil]
      exact (isRun_range' _ count).anchored _
    · have hmem : base ∈ nonces (txsOf (pool.pending a)) :=
        (hrun.mem base).mpr ⟨Nat.le_refl base,
          Nat.lt_of_le_of_ne hrun.le fun heq => hne (hrun.eq_nil_iff.mpr heq)⟩
      have hend : (ctx.stateNonce a).toNat + count = base := by
        by_contra hlt
        have hready : base ∈ nonces (payable ctx pool a) :=
          hsplit'.mem_iff.mp (List.mem_append_left _ (List.mem_range'_1.mpr (by omega)))
        obtain ⟨tx, htx, hnonce⟩ := List.mem_map.mp hready
        exact nonce_ne_of_payable h htx (hnonce ▸ hmem)
      have hfront := isRun_range' (ctx.stateNonce a).toNat count
      rw [hend] at hfront
      exact (hfront.append hrun).anchored _

end

/-- An account before its promotion: a run from a base, and a gap below it is filled. -/
structure Startable (ctx : PoolContext π) (base : Nat) (pool : TxsPool π) (a : Address) :
    Prop where
  run : IsRun base ((pool.pendingNonces a).elim base UInt64.toNat) (nonces (txsOf (pool.pending a)))
  unset : pool.pendingNonces a = none → base = (ctx.stateNonce a).toNat
  refilled : Refilled ctx base pool a

theorem Startable.of_elsewhere {b : Address} (h : Startable ctx base pool b)
    (hp : Promoted ctx a pool pool' readies) (hb : b ≠ a) : Startable ctx base pool' b := by
  obtain ⟨hpending, hqueue, hnonces⟩ := hp.elsewhere b hb
  have hpayable : payable ctx pool' b = payable ctx pool b := by
    rw [payable, payable, hqueue, hp.maxGas]
  refine ⟨?_, ?_, ?_⟩
  · rw [hpending, hnonces]
    exact h.run
  · rw [hnonces]
    exact h.unset
  · rw [Refilled, hpending, hpayable]
    exact h.refilled

theorem promoteExecutables_anchored (settings : PoolSettings π) {base : Address → Nat}
    {order : List Address}
    (h : Sound ctx.lib accounts P noLoose pool) (hcount : ∀ tx, P tx → Countable tx)
    (horder : order.Nodup)
    (hstart : ∀ a ∈ order, Startable ctx (base a) pool a)
    (hdone : ∀ a, a ∉ order → Anchored (ctx.stateNonce a).toNat (nonces (txsOf (pool.pending a)))) :
    Sound ctx.lib accounts P noLoose (promoteExecutables ctx settings order pool) ∧
      (∀ a, Anchored (ctx.stateNonce a).toNat
        (nonces (txsOf ((promoteExecutables ctx settings order pool).pending a)))) := by
  induction order generalizing pool with
  | nil => exact ⟨h, fun a => hdone a List.not_mem_nil⟩
  | cons a order ih =>
    obtain ⟨hnot, hrest⟩ := List.nodup_cons.mp horder
    obtain ⟨hsound, readies, hp⟩ := promoteAccount_spec settings h a
    have hfirst := hstart a List.mem_cons_self
    refine ih hsound hrest (fun b hb => ?_) fun b hb => ?_
    · refine (hstart b (List.mem_cons_of_mem a hb)).of_elsewhere hp fun heq => ?_
      exact hnot (heq ▸ hb)
    · rcases eq_or_ne b a with rfl | hne
      · exact hp.anchored h hcount hfirst.run hfirst.unset hfirst.refilled
      · rw [(hp.elsewhere b hne).1]
        exact hdone b fun hmem => (List.mem_cons.mp hmem).elim hne hb

theorem Kept.promoteExecutables {bases : Option (Address → Nat)} (settings : PoolSettings π)
    (order : List Address) (h : Kept ctx.lib accounts P bases pool)
    (hcount : ∀ base ∈ bases, ∀ tx, P tx → Countable tx)
    (hbase : ∀ base ∈ bases, ∀ a, base a = (ctx.stateNonce a).toNat) :
    Kept ctx.lib accounts P bases (promoteExecutables ctx settings order pool) ∧
      forks (promoteExecutables ctx settings order pool) = forks pool := by
  induction order generalizing pool with
  | nil => exact ⟨h, rfl⟩
  | cons a order ih =>
    obtain ⟨hsound, readies, hp⟩ := promoteAccount_spec settings h.books a
    have hfirst : Kept ctx.lib accounts P bases (promoteAccount ctx settings pool a) := by
      refine ⟨hsound, fun base hb => (h.runs base hb).change (fun b hb => (hp.elsewhere b hb).1)
        (fun b hb => (hp.elsewhere b hb).2.2) ?_⟩
      exact hp.run h.books (hcount base hb) (h.runs base hb a) (Nat.le_of_eq (hbase base hb a))
        fun _ => hbase base hb a
    obtain ⟨hkept, hforks⟩ := ih hfirst
    exact ⟨hkept, hforks.trans hp.forks⟩

end Promotion

end N42.PoolPromotion
