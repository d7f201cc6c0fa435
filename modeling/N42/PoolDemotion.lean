import N42.PoolPromotion

/-!
The demotion of pending transactions keeps the books of the pool and leaves runs that the
state can pay for, and the virtual nonces are set to the ends of these runs.
-/

namespace N42.PoolDemotion

open ChainTypes Transactions NumberRuns PoolAdmission PoolLists
open PoolReorg PoolSoundness PoolAdditions PoolPromotion
open AdmissionConditions (forks)

variable {π : Type}

section Demotion

variable {ctx : PoolContext π} {accounts : List Address} {P : Transaction → Prop}
  {pool pool' : TxsPool π} {a : Address} {l : TxsList}

structure Demoted (ctx : PoolContext π) (a : Address) (pool pool' : TxsPool π) : Prop where
  elsewhere : ∀ b, b ≠ a → pool'.pending b = pool.pending b
  run : Anchored (ctx.stateNonce a).toNat (nonces (txsOf (pool.pending a))) →
    ∃ stop, IsRun (ctx.stateNonce a).toNat stop (nonces (txsOf (pool'.pending a)))
  affordable : ∀ tx ∈ txsOf (pool'.pending a),
    exceeds (ctx.stateBalance a) pool.currentMaxGas tx = false
  maxGas : pool'.currentMaxGas = pool.currentMaxGas
  forks : forks pool' = forks pool

section

variable (h : Sound ctx.lib accounts P noLoose pool) (hpending : pool.pending a = some l)
include h hpending

theorem sound_dropUnpayable (nonce : UInt64) (balance : Uint256) (gas : UInt64) :
    Sound ctx.lib accounts P (loosely a ((filter balance gas (forward nonce l).2).1.2 ++ []))
      { pool with
        all := removeAll ctx.lib (filter balance gas (forward nonce l).2).1.1
          (removeAll ctx.lib (forward nonce l).1 pool.all)
        pending := update pool.pending a (some (filter balance gas (forward nonce l).2).2) } := by
  have hkept := h.pendingKept a l hpending
  have hforward : Capped (forward nonce l).2 :=
    Capped.of_subset hkept.2 (fun tx htx => (List.mem_filter.mp htx).1) rfl rfl
  have hpermForward := perm_forward nonce l
  have hpermFilter := perm_filter balance gas (forward nonce l).2
  have hcapped : Capped (filter balance gas (forward nonce l).2).2 := capped_filter hforward
  have hstrict : (filter balance gas (forward nonce l).2).2.strict = true :=
    strict_filter.trans hkept.1
  generalize filter balance gas (forward nonce l).2 = drops at *
  generalize forward nonce l = olds at *
  have hperm : ((olds.1 ++ drops.1.1) ++ (txsOf (some drops.2) ++
      (txsOf (pool.queue a) ++ (drops.1.2 ++ [])))).Perm (holdings pool noLoose a) := by
    rw [holdings, hpending, noLoose, List.append_nil, List.append_nil, List.append_assoc]
    have hrest : (drops.2.txs ++ (txsOf (pool.queue a) ++ drops.1.2)).Perm
        ((drops.1.2 ++ drops.2.txs) ++ txsOf (pool.queue a)) := by
      rw [List.append_assoc]
      exact (List.Perm.append_left _ List.perm_append_comm).trans
        (List.perm_append_comm_assoc _ _ _)
    refine (List.Perm.append_left _ (List.Perm.append_left _ hrest)).trans ?_
    rw [← List.append_assoc drops.1.1, ← List.append_assoc olds.1]
    exact ((List.Perm.append_left _ hpermFilter).trans hpermForward).append_right _
  refine h.move (h.mem_accounts (.inl (hpending ▸ Option.some_ne_none l)))
    ⟨fun _ hb => update_of_ne _ _ hb, fun _ _ => rfl, fun b hb => update_of_ne _ _ hb⟩
    (update_self _ _ _) rfl (update_self _ _ _)
    ⟨wellKept_some ⟨hstrict, hcapped⟩, h.queueKept a⟩ hperm fun tx => ?_
  rw [← removeAll_append]
  exact h.mem_removeAll_iff (fun tx htx => hperm.mem_iff.mp (List.mem_append_left _ htx)) tx

theorem sound_postponeGapped {gapped : List Transaction × TxsList}
    (hgapped : gapped = ([], l) ∨ gapped = cap 0 l) :
    Sound ctx.lib accounts P (loosely a (gapped.1 ++ []))
      { pool with pending := update pool.pending a (some gapped.2) } := by
  have hkept := h.pendingKept a l hpending
  have hperm : (gapped.1 ++ gapped.2.txs).Perm l.txs ∧
      gapped.2 = { l with txs := gapped.2.txs } := by
    rcases hgapped with rfl | rfl
    · exact ⟨List.Perm.refl _, rfl⟩
    · exact ⟨perm_cap 0 l, cap_eq 0 l⟩
  have hcapped : Capped gapped.2 := by
    rw [hperm.2]
    exact Capped.of_subset hkept.2
      (fun tx htx => hperm.1.mem_iff.mp (List.mem_append_right _ htx)) rfl rfl
  refine h.move (h.mem_accounts (.inl (hpending ▸ Option.some_ne_none l)))
    ⟨fun _ hb => update_of_ne _ _ hb, fun _ _ => rfl, fun b hb => update_of_ne _ _ hb⟩
    (update_self _ _ _) rfl (update_self _ _ _)
    ⟨wellKept_some ⟨?_, hcapped⟩, h.queueKept a⟩ (?_ : ([] ++ _).Perm _) fun tx => by simp
  · rw [hperm.2]
    exact hkept.1
  · rw [holdings, hpending, noLoose, List.append_nil, List.append_nil, List.nil_append]
    refine (List.Perm.append_left _ List.perm_append_comm).trans ?_
    rw [← List.append_assoc]
    exact (List.perm_append_comm.trans hperm.1).append_right _

theorem sound_clearEmpty :
    Sound ctx.lib accounts P noLoose
      { pool with pending := update pool.pending a (nonEmpty l) } := by
  refine h.move (h.mem_accounts (.inl (hpending ▸ Option.some_ne_none l)))
    ⟨fun _ hb => update_of_ne _ _ hb, fun _ _ => rfl, fun _ _ => rfl⟩ (update_self _ _ _) rfl rfl
    ⟨wellKept_nonEmpty (h.pendingKept a l hpending), h.queueKept a⟩ (?_ : ([] ++ _).Perm _)
    fun tx => by simp
  rw [List.nil_append, txsOf_nonEmpty, holdings, hpending, txsOf_some]

end

theorem isRun_of_demoted (hnodup : (nonces l.txs).Nodup) (hstrict : l.strict = true)
    (hanchored : Anchored (ctx.stateNonce a).toNat (nonces l.txs)) (balance : Uint256)
    (gas : UInt64)
    (hfront : (filter balance gas (forward (ctx.stateNonce a) l).2).2.txs = [] ∨
      ((filter balance gas (forward (ctx.stateNonce a) l).2).2.get (ctx.stateNonce a)) ≠ none) :
    ∃ stop, IsRun (ctx.stateNonce a).toNat stop
      (nonces (filter balance gas (forward (ctx.stateNonce a) l).2).2.txs) := by
  have hforward := nonces_forward (ctx.stateNonce a) l
  have hnodup' : (nonces (forward (ctx.stateNonce a) l).2.txs).Nodup := by
    rw [hforward]
    exact hnodup.filter _
  obtain ⟨k, hk⟩ := exists_txs_filter_of_strict balance gas hnodup' hstrict
  rcases hfront with hempty | hfound
  · rw [hempty]
    exact ⟨_, isRun_nil _⟩
  · obtain ⟨tx, htx⟩ := Option.ne_none_iff_exists'.mp hfound
    obtain ⟨hmem, hnonce⟩ := mem_of_get_nonce htx
    rw [hk] at hmem ⊢
    obtain ⟨hmem, hlt⟩ := List.mem_filter.mp hmem
    have hin : (ctx.stateNonce a).toNat ∈ nonces l.txs := by
      have := mem_nonces_of_mem hmem
      rw [hforward, hnonce] at this
      exact (List.mem_filter.mp this).1
    obtain ⟨stop, hrun⟩ := hanchored hin
    rw [nonces_filter fun n => n < k, hforward]
    have hlt : (ctx.stateNonce a).toNat < k := by
      rw [← hnonce]
      exact of_decide_eq_true hlt
    exact ⟨_, hrun.filter_lt hlt.le⟩

section

variable (h : Sound ctx.lib accounts P noLoose pool)
include h

theorem demoteAccount_spec (a : Address) :
    Sound ctx.lib accounts P noLoose (demoteAccount ctx pool a) ∧
      Demoted ctx a pool (demoteAccount ctx pool a) := by
  rw [demoteAccount]
  cases hpending : pool.pending a with
  | none =>
    refine ⟨h, fun _ _ => rfl, fun _ => ?_, fun tx htx => ?_, rfl, rfl⟩
    · rw [hpending]
      exact ⟨_, isRun_nil _⟩
    · rw [hpending] at htx
      exact absurd htx List.not_mem_nil
  | some l =>
    have ha := h.mem_accounts (.inl (hpending ▸ Option.some_ne_none l))
    have hkept := h.pendingKept a l hpending
    have hnodup : (nonces l.txs).Nodup := by
      have := h.nodup_pending a
      rwa [hpending] at this
    have hforward : Capped (forward (ctx.stateNonce a) l).2 :=
      Capped.of_subset hkept.2 (fun tx htx => (List.mem_filter.mp htx).1) rfl rfl
    obtain ⟨queue, heq, hsound⟩ := (sound_dropUnpayable h hpending (ctx.stateNonce a)
      (ctx.stateBalance a) pool.currentMaxGas).postpone ha
    rw [loosely_nil] at hsound
    dsimp only
    rw [heq]
    generalize hdrops : filter (ctx.stateBalance a) pool.currentMaxGas
      (forward (ctx.stateNonce a) l).2 = drops at *
    obtain ⟨gapped, hcut, hgapped, hfront⟩ : ∃ gapped,
        (if drops.2.txs ≠ [] ∧ (drops.2.get (ctx.stateNonce a)).isNone = true then cap 0 drops.2
          else ([], drops.2)) = gapped ∧ (gapped = ([], drops.2) ∨ gapped = cap 0 drops.2) ∧
        (gapped.2.txs = [] ∨ gapped.2 = drops.2 ∧
          (drops.2.txs = [] ∨ drops.2.get (ctx.stateNonce a) ≠ none)) := by
      split
      · exact ⟨_, rfl, .inr rfl, .inl (cap_zero _)⟩
      · rename_i hnogap
        refine ⟨_, rfl, .inl rfl, .inr ⟨rfl, ?_⟩⟩
        rw [not_and_or, not_not] at hnogap
        exact hnogap.imp_right fun hsome hnone => hsome (Option.isNone_iff_eq_none.mpr hnone)
    rw [hcut]
    obtain ⟨queue', heq', hsound'⟩ :=
      (sound_postponeGapped hsound (update_self _ _ _) hgapped).postpone ha
    rw [loosely_nil] at hsound'
    dsimp only at heq' ⊢
    rw [heq']
    have htxs : txsOf (update (update (update pool.pending a (some drops.2)) a (some gapped.2)) a
        (nonEmpty gapped.2) a) = gapped.2.txs := by
      rw [update_self, txsOf_nonEmpty]
    refine ⟨?_, ⟨fun b hb => ?_, fun hanchored => ?_, fun tx htx => ?_, rfl, rfl⟩⟩
    · exact sound_clearEmpty hsound' (update_self _ _ _)
    · exact (update_of_ne _ _ hb).trans ((update_of_ne _ _ hb).trans (update_of_ne _ _ hb))
    · dsimp only
      rw [htxs]
      rcases hfront with hempty | ⟨hsame, hfront⟩
      · rw [hempty]
        exact ⟨_, isRun_nil _⟩
      · rw [hpending] at hanchored
        rw [hsame, ← hdrops]
        rw [← hdrops] at hfront
        exact isRun_of_demoted hnodup hkept.1 hanchored _ _ hfront
    · dsimp only at htx
      rw [htxs] at htx
      rcases hfront with hempty | ⟨hsame, -⟩
      · rw [hempty] at htx
        exact absurd htx List.not_mem_nil
      · rw [hsame, ← hdrops] at htx
        exact exceeds_of_mem_filter hforward htx

def Affordable (ctx : PoolContext π) (pool : TxsPool π) (a : Address) : Prop :=
  ∀ tx ∈ txsOf (pool.pending a), exceeds (ctx.stateBalance a) pool.currentMaxGas tx = false

theorem demoteUnexecutables_affordable {order : List Address}
    (hdone : ∀ a, a ∉ order → Affordable ctx pool a) :
    Sound ctx.lib accounts P noLoose (demoteUnexecutables ctx order pool) ∧
      (∀ a, Affordable ctx (demoteUnexecutables ctx order pool) a) ∧
      forks (demoteUnexecutables ctx order pool) = forks pool := by
  induction order generalizing pool with
  | nil => exact ⟨h, fun a => hdone a List.not_mem_nil, rfl⟩
  | cons a order ih =>
    obtain ⟨hsound, hd⟩ := demoteAccount_spec h a
    obtain ⟨hbooks, hpay, hforks⟩ := ih hsound fun b hb => by
      rw [Affordable, hd.maxGas]
      rcases eq_or_ne b a with rfl | hne
      · exact hd.affordable
      · rw [hd.elsewhere b hne]
        exact hdone b fun hmem => (List.mem_cons.mp hmem).elim hne hb
    exact ⟨hbooks, hpay, hforks.trans hd.forks⟩

theorem demoteUnexecutables_runs {order : List Address}
    (hanchored : ∀ a, Anchored (ctx.stateNonce a).toNat (nonces (txsOf (pool.pending a))))
    (hdone : ∀ a, a ∉ order →
      ∃ stop, IsRun (ctx.stateNonce a).toNat stop (nonces (txsOf (pool.pending a)))) (a : Address) :
    ∃ stop, IsRun (ctx.stateNonce a).toNat stop
      (nonces (txsOf ((demoteUnexecutables ctx order pool).pending a))) := by
  induction order generalizing pool with
  | nil => exact hdone a List.not_mem_nil
  | cons b order ih =>
    obtain ⟨hsound, hd⟩ := demoteAccount_spec h b
    have hfirst := hd.run (hanchored b)
    refine ih hsound (fun c => ?_) fun c hc => ?_
    · rcases eq_or_ne c b with rfl | hne
      · obtain ⟨stop, hrun⟩ := hfirst
        exact hrun.anchored _
      · rw [hd.elsewhere c hne]
        exact hanchored c
    · rcases eq_or_ne c b with rfl | hne
      · exact hfirst
      · rw [hd.elsewhere c hne]
        exact hdone c fun hmem => (List.mem_cons.mp hmem).elim hne hc

end

end Demotion

section Nonces

variable {accounts order : List Address} {P : Transaction → Prop} {pool : TxsPool π}
  {base : Address → Nat}

theorem foldlM_latestNonce {start nonces : Address → Option UInt64}
    (h : order.foldlM (latestNonce pool) start = .ok nonces) (a : Address) :
    (∃ l tx, pool.pending a = some l ∧ lastElement l = some tx ∧ nonces a = some (tx.nonce + 1)) ∨
    nonces a = start a ∧ (a ∉ order ∨ pool.pending a = none) := by
  induction order generalizing start with
  | nil =>
    obtain rfl : start = nonces := Except.ok.inj h
    exact .inr ⟨rfl, .inl List.not_mem_nil⟩
  | cons b order ih =>
    rw [List.foldlM_cons, FallibleRuns.bind_eq_ok_iff] at h
    obtain ⟨next, hstep, hrest⟩ := h
    rcases ih hrest with hlast | ⟨hsame, hcase⟩
    · exact .inl hlast
    rw [latestNonce] at hstep
    split at hstep
    · rename_i hnone
      obtain rfl : start = next := Except.ok.inj hstep
      refine .inr ⟨hsame, ?_⟩
      rcases eq_or_ne a b with rfl | hne
      · exact .inr hnone
      · exact hcase.imp_left fun hnot hmem => (List.mem_cons.mp hmem).elim hne hnot
    · rename_i l hl
      split at hstep
      · cases hstep
      · rename_i tx htx
        obtain rfl := Except.ok.inj hstep
        rcases eq_or_ne a b with rfl | hne
        · exact .inl ⟨l, tx, hl, htx, hsame.trans (update_self _ _ _)⟩
        · refine .inr ⟨hsame.trans (update_of_ne _ _ hne), ?_⟩
          exact hcase.imp_left fun hnot hmem => (List.mem_cons.mp hmem).elim hne hnot

theorem exists_flatten_of_lastElement {l : TxsList} {tx : Transaction}
    (h : lastElement l = some tx) : ∃ init, flatten l = init ++ [tx] :=
  (List.getLast?_eq_some_iff).mp h

theorem runs_setAll {lib : Primitives} (h : Sound lib accounts P noLoose pool)
    (hcount : ∀ tx, P tx → Countable tx)
    (hruns : ∀ a, ∃ stop, IsRun (base a) stop (nonces (txsOf (pool.pending a))))
    (hcover : ∀ a ∈ accounts, a ∈ order) {nonces : Address → Option UInt64}
    (hnonces : latestNonces order pool = .ok nonces) :
    Runs base { pool with pendingNonces := nonces } := by
  intro a
  obtain ⟨stop, hrun⟩ := hruns a
  dsimp only
  rcases foldlM_latestNonce hnonces a with ⟨l, tx, hpending, hlast, hnext⟩ | ⟨hnone, hcase⟩
  · rw [hpending, txsOf_some] at hrun
    obtain ⟨init, hinit⟩ := exists_flatten_of_lastElement hlast
    have hstop := IsRun.last_eq hrun hinit
    have hmem : tx ∈ txsOf (pool.pending a) := by
      rw [hpending]
      exact (perm_flatten l).mem_iff.mp (by rw [hinit]; simp)
    have hsucc : (tx.nonce + 1).toNat = tx.nonce.toNat + 1 :=
      toNat_succ (hcount tx (h.fits a tx (List.mem_append_left _ hmem)))
    rw [hnext, Option.elim_some, hsucc, hstop, hpending]
    exact hrun
  · have hempty : pool.pending a = none := by
      rcases hcase with hnot | hempty
      · exact (h.confined a fun hmem => hnot (hcover a hmem)).1
      · exact hempty
    rw [hnone, hempty]
    exact isRun_nil _

end Nonces

end N42.PoolDemotion
