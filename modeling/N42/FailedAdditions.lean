import N42.PoolRuns
import N42.PriceTracking

/-!
What is left of an addition to the pool that fails.  All checks come before the first change,
but room is made before a transaction with the same nonce is compared.
-/

namespace N42.FailedAdditions

open ChainTypes Transactions StatefulActions StatefulActions.Action
open FallibleRuns (Raises raises_ok raises_error raises_failIf raises_bind raises_mapError)
open PoolAdmission
open AdmissionConditions (derefFrom_eq_ok_iff)
open PoolSoundness PoolAdditions PriceHeaps PriceTracking

def liveContent (lib : Primitives) (pool : TxsPool PricedList) : List Transaction :=
  (heapEntries pool.priced).filter (isLive lib pool.all)

/-- A pool is as it was; stale entries of the heaps do not count. -/
structure Unchanged (lib : Primitives) (pool pool' : TxsPool PricedList) : Prop where
  all : pool'.all = pool.all
  pending : pool'.pending = pool.pending
  queue : pool'.queue = pool.queue
  pendingNonces : pool'.pendingNonces = pool.pendingNonces
  locals : pool'.locals = pool.locals
  heaps : (liveContent lib pool').Perm (liveContent lib pool)

def comparedHeaps (ctx : PoolContext PricedList) (tx : Transaction) (isLocal : Bool)
    (pool : TxsPool PricedList) : PricedList :=
  if isLocal then pool.priced else (ctx.pricing.underpriced ctx.lib pool.all tx pool.priced).2

def evicted (ctx : PoolContext PricedList) (tx : Transaction) (isLocal : Bool)
    (pool : TxsPool PricedList) : (List Transaction × Bool) × PricedList :=
  ctx.pricing.discard ctx.lib pool.all
    (pool.all.slots - (ctx.config.globalSlots + ctx.config.globalQueue).toNat +
      TxLookup.numSlots) isLocal (comparedHeaps ctx tx isLocal pool)

variable {ctx : PoolContext PricedList} {pool pool' : TxsPool PricedList} {tx : Transaction}
  {a : Address} {e : PoolError}

theorem overlaps_of_add_eq_none {l : TxsList} {priceBump : UInt64}
    (h : l.add tx priceBump = none) : l.overlaps tx = true := by
  rw [TxsList.add] at h
  rw [TxsList.overlaps]
  cases hold : l.get tx.nonce with
  | none =>
    rw [hold] at h
    cases h
  | some old => rfl

theorem enqueueTx_error {isLocal addAll : Bool} (hsender : tx.fromAddress = some a)
    (h : enqueueTx ctx tx isLocal addAll pool = (.error e, pool')) :
    e = .errReplaceUnderpriced ∧ pool' = pool := by
  rw [enqueueTx, bind_of_eq_ok (deref_eq_ok hsender), get_bind] at h
  dsimp only at h
  cases hadd : ((pool.queue a).getD (.new false)).add tx ctx.config.priceBump with
  | some result =>
    rw [hadd] at h
    cases h
  | none =>
    rw [hadd] at h
    have hoverlaps := overlaps_of_add_eq_none hadd
    cases hqueue : pool.queue a with
    | none =>
      rw [hqueue] at hoverlaps
      cases hoverlaps
    | some l =>
      have hsame : update pool.queue a (some l) = pool.queue := by
        funext b
        rcases eq_or_ne b a with rfl | hne
        · rw [update_self, hqueue]
        · rw [update_of_ne _ _ hne]
      rw [hqueue, Option.getD_some] at h
      obtain ⟨he, rfl⟩ := Prod.mk.inj h
      refine ⟨(Except.error.inj he).symm, ?_⟩
      change { pool with queue := update pool.queue a (some l) } = pool
      rw [hsame]

theorem insert_error {wasLocal isLocal : Bool} (hsender : tx.fromAddress = some a)
    (h : insert ctx a tx wasLocal isLocal pool = (.error e, pool')) :
    e = .errReplaceUnderpriced ∧ pool' = pool := by
  rw [PoolAdmission.insert, get_bind] at h
  cases hfilter : (pool.pending a).filter fun list => list.overlaps tx with
  | some l =>
    rw [hfilter] at h
    dsimp only at h
    rw [replacePending] at h
    cases hadd : l.add tx ctx.config.priceBump with
    | none =>
      rw [hadd] at h
      obtain ⟨he, rfl⟩ := Prod.mk.inj h
      exact ⟨(Except.error.inj he).symm, rfl⟩
    | some result =>
      rw [hadd] at h
      cases h
  | none =>
    rw [hfilter] at h
    dsimp only at h
    rcases bind_cases (enqueueTx ctx tx isLocal true) (fun replaced => do
        Action.modify fun pool => if wasLocal then markLocal ctx a pool else pool
        return replaced) pool with ⟨e', t, hqueue, heq⟩ | ⟨r, t, hqueue, heq⟩
    · rw [heq] at h
      obtain ⟨he, rfl⟩ := Prod.mk.inj h
      obtain rfl := Except.error.inj he
      exact enqueueTx_error hsender hqueue
    · rw [heq] at h
      cases h

section Room

/-- What making room comes to: an error and heaps with the same live entries, or the removal
of the evicted transactions. -/
def RoomMade (ctx : PoolContext PricedList) (tx : Transaction) (isLocal : Bool)
    (pool : TxsPool PricedList) (result : Except PoolError Unit × TxsPool PricedList) : Prop :=
  (∃ e priced, result = (.error e, { pool with priced := priced }) ∧ e ≠ .errReplaceUnderpriced ∧
    ((heapEntries priced).filter (isLive ctx.lib pool.all)).Perm (liveContent ctx.lib pool)) ∨
  result = (.ok (), (evicted ctx tx isLocal pool).1.1.foldl
    (fun pool tx => removeTx ctx (tx.hash ctx.lib) false pool) { pool with
      priced := (evicted ctx tx isLocal pool).2
      changesSinceReorg :=
        pool.changesSinceReorg + (evicted ctx tx isLocal pool).1.1.length })

variable (hpricing : ctx.pricing = heapPricing)
include hpricing

theorem filter_comparedHeaps (tx : Transaction) (isLocal : Bool) (pool : TxsPool PricedList) :
    ((heapEntries (comparedHeaps ctx tx isLocal pool)).filter (isLive ctx.lib pool.all)).Perm
      (liveContent ctx.lib pool) := by
  rw [comparedHeaps]
  split
  · exact List.Perm.refl _
  · obtain ⟨stale, hperm, hstale, -⟩ := underpriced_spec ctx.lib pool.all tx pool.priced
    have hlive := hperm.filter (isLive ctx.lib pool.all)
    rw [List.filter_append, List.filter_eq_nil_iff.mpr fun tx htx => ?_, List.nil_append] at hlive
    · rw [hpricing]
      exact hlive
    · rw [hstale tx htx]
      exact Bool.false_ne_true

theorem filter_evicted (tx : Transaction) (isLocal : Bool) (pool : TxsPool PricedList) :
    (∀ gone ∈ (evicted ctx tx isLocal pool).1.1, isLive ctx.lib pool.all gone = true) ∧
      ((evicted ctx tx isLocal pool).1.1 ++ (heapEntries (evicted ctx tx isLocal pool).2).filter
        (isLive ctx.lib pool.all)).Perm (liveContent ctx.lib pool) := by
  rw [evicted, hpricing]
  obtain ⟨stale, hperm, hgone, hstale, -⟩ := discard_spec ctx.lib pool.all
    (pool.all.slots - (ctx.config.globalSlots + ctx.config.globalQueue).toNat +
      TxLookup.numSlots) isLocal (comparedHeaps ctx tx isLocal pool)
  have hlive := hperm.filter (isLive ctx.lib pool.all)
  rw [List.filter_append, List.filter_append, List.filter_eq_self.mpr hgone,
    List.filter_eq_nil_iff.mpr fun tx htx => ?_, List.nil_append] at hlive
  · exact ⟨hgone, hlive.trans (filter_comparedHeaps hpricing tx isLocal pool)⟩
  · rw [hstale tx htx]
    exact Bool.false_ne_true

theorem makeRoom_cases (tx : Transaction) (isLocal : Bool) (pool : TxsPool PricedList) :
    RoomMade ctx tx isLocal pool (makeRoom ctx tx isLocal pool) := by
  have hcompared := filter_comparedHeaps hpricing tx isLocal pool
  obtain ⟨-, hevicted⟩ := filter_evicted hpricing tx isLocal pool
  rw [makeRoom, get_bind, bind_of_eq_ok (rfl : Action.modify _ pool = (.ok (), _))]
  refine failIf_outcome (fun _ => .inl ⟨_, _, rfl, by decide, hcompared⟩) fun _ =>
    failIf_outcome (fun _ => .inl ⟨_, _, rfl, by decide, hcompared⟩) fun _ => ?_
  rw [get_bind, bind_of_eq_ok (rfl : Action.modify _ _ = (.ok (), _))]
  refine failIf_outcome (fun hfailed => .inl ⟨_, _, rfl, by decide, ?_⟩) fun _ => .inr rfl
  have hnone : (evicted ctx tx isLocal pool).1.1 = [] := by
    have hdone : (evicted ctx tx isLocal pool).1.2 = false := hfailed.2
    rw [evicted, hpricing] at hdone ⊢
    exact discard_fails hdone
  rw [hnone] at hevicted
  exact hevicted

omit hpricing in
theorem absent_remove (hash : Hash) (all : TxLookup) (removed : Hash)
    (h : ∀ other ∈ entries all, other.hash ctx.lib ≠ hash) :
    ∀ other ∈ entries (all.remove ctx.lib removed), other.hash ctx.lib ≠ hash :=
  fun other hother => h other (mem_entries_remove.mp hother).1

omit hpricing in
theorem absent_removeTx (hsenders : ∀ tx ∈ entries pool.all, tx.fromAddress ≠ none) (hash : Hash) :
    ∀ other ∈ entries (removeTx ctx hash false pool).all, other.hash ctx.lib ≠ hash := by
  have hless : ∀ other ∈ entries (pool.all.remove ctx.lib hash), other.hash ctx.lib ≠ hash :=
    fun other hother => (mem_entries_remove.mp hother).2
  unfold removeTx
  split
  · rename_i hnone
    exact get_eq_none_iff.mp hnone
  · rename_i found hfound
    split
    · rename_i hnone
      exact absurd hnone (hsenders found (mem_of_get_eq_some hfound).1)
    · dsimp only
      split
      · exact lookup_postpone (absent_remove hash) _ hless
      · split
        · exact hless
        · exact hless

omit hpricing in
theorem lookup_changes_of_evicted {gone : List Transaction}
    (hgone : ∀ tx ∈ gone, isLive ctx.lib pool.all tx = true)
    (hsenders : ∀ tx ∈ entries pool.all, tx.fromAddress ≠ none) (hne : gone ≠ []) :
    (gone.foldl (fun pool tx => removeTx ctx (tx.hash ctx.lib) false pool) pool).all ≠
      pool.all := by
  obtain ⟨tx, rest, rfl⟩ := List.exists_cons_of_ne_nil hne
  intro hsame
  obtain ⟨known, hknown, hhash⟩ := isLive_iff.mp (hgone tx List.mem_cons_self)
  have habsent : ∀ other ∈ entries pool.all, other.hash ctx.lib ≠ tx.hash ctx.lib := by
    rw [← hsame, List.foldl_cons]
    exact lookup_foldl_removeTx (absent_remove (tx.hash ctx.lib)) rest
      (absent_removeTx hsenders (tx.hash ctx.lib))
  exact habsent known (List.mem_append_right _ hknown) hhash

end Room

section Checks

theorem raises_derefFrom (tx : Transaction) :
    Raises (· ≠ PoolError.errReplaceUnderpriced) (derefFrom tx) := by
  rw [derefFrom]
  split
  · exact raises_error (by decide)
  · exact raises_ok _

theorem raises_validateFields (tx : Transaction) :
    Raises (· ≠ PoolError.errReplaceUnderpriced) (pool.validateFields tx) := by
  exact raises_bind (raises_failIf (by decide)) fun _ => raises_bind (raises_failIf (by decide))
    fun _ => raises_bind (raises_derefFrom tx) fun _ => raises_bind (raises_failIf (by decide))
    fun _ => raises_bind (raises_failIf (by decide)) fun _ =>
    raises_bind (raises_failIf (by decide)) fun _ => raises_bind (raises_failIf (by decide))
    fun _ => raises_ok _

theorem raises_validateTx (tx : Transaction) (isLocal : Bool) :
    Raises (· ≠ PoolError.errReplaceUnderpriced) (validateTx ctx pool tx isLocal) := by
  refine raises_bind (raises_validateFields tx) fun _ =>
    raises_bind (raises_failIf (by decide)) fun _ => raises_bind (raises_failIf (by decide))
    fun _ => raises_bind (raises_failIf (by decide)) fun _ =>
    raises_bind (raises_mapError _ fun e => ?_) fun _ =>
    raises_bind (raises_failIf (by decide)) fun _ => raises_failIf (by decide)
  unfold PoolError.ofTxError
  split
  · decide
  · decide

end Checks

/-- The transactions that a full pool has given up when it refuses the new one because of an
older one with its nonce. -/
def givenUp (ctx : PoolContext PricedList) (tx : Transaction) (wasLocal : Bool)
    (pool : TxsPool PricedList) (e : PoolError) : List Transaction :=
  if isFull ctx pool ∧ e = .errReplaceUnderpriced then
    (evicted ctx tx (wasLocal || tx.fromAddress.any pool.locals) pool).1.1
  else []

theorem Unchanged.refl (lib : Primitives) (pool : TxsPool PricedList) : Unchanged lib pool pool :=
  ⟨rfl, rfl, rfl, rfl, rfl, List.Perm.refl _⟩

section Toys

open HeaderSealing PoolRuns

def toyHeapContext : PoolContext PricedList where
  lib := toyPrimitives
  config := ⟨false, 10, 5120, 1024⟩
  pricing := heapPricing
  deposit := none
  stateNonce := fun _ => 0
  stateBalance := fun _ => 0

def toyHeapNode : PoolNode PricedList where
  table := toyTable 2
  pool :=
    { currentMaxGas := 30000
      istanbul := false
      eip2718 := false
      eip1559 := false
      shanghai := false
      gasPrice := 1
      locals := fun _ => false
      pending := fun _ => none
      queue := fun _ => none
      pendingNonces := fun _ => none
      all := ⟨0, [], []⟩
      priced := ⟨0, #[], #[], none⟩
      changesSinceReorg := 0 }

def toyTightContext : PoolContext PricedList :=
  { toyHeapContext with config := ⟨false, 10, 1, 1⟩, stateBalance := fun _ => 1000000 }

def toyBid (sender : UInt8) (price value : Nat) : Transaction :=
  .legacy ⟨0, BitVec.ofNat 256 price, 21000, some (toyAddress 3), some (toyAddress sender),
    BitVec.ofNat 256 value, [], 0, 0, 0⟩

def toyFilled (bids : List Transaction) : TxsPool PricedList :=
  (addRemotes toyTightContext bids toyHeapNode.pool).2

def toyFailure (bids : List Transaction) : Except PoolError Bool × TxsPool PricedList :=
  add toyTightContext (toyBid 1 20 1) false (toyFilled bids)

/-- An addition that fails leaves the pool as it was if and only if no transaction was given
up for it. -/
theorem add_error_unchanged_iff {ctx : PoolContext PricedList} {tx : Transaction}
    {wasLocal : Bool} {pool pool' : TxsPool PricedList} {e : PoolError}
    (hpricing : ctx.pricing = heapPricing)
    (hsenders : ∀ tx ∈ entries pool.all, tx.fromAddress ≠ none)
    (h : add ctx tx wasLocal pool = (.error e, pool')) :
    Unchanged ctx.lib pool pool' ↔ givenUp ctx tx wasLocal pool e = [] := by
  have hsame : ∀ {e'}, e' ≠ PoolError.errReplaceUnderpriced →
      ((.error e', pool) : Except PoolError Bool × TxsPool PricedList) = (.error e, pool') →
      (Unchanged ctx.lib pool pool' ↔ givenUp ctx tx wasLocal pool e = []) := by
    intro e' hne heq
    obtain ⟨he, rfl⟩ := Prod.mk.inj heq
    obtain rfl := Except.error.inj he
    rw [givenUp, if_neg fun hfull => hne hfull.2]
    exact iff_of_true (Unchanged.refl _ _) rfl
  -- the errors before a change of the pool
  revert h
  rw [PoolAdmission.add, get_bind]
  refine failIf_outcome (P := fun r => r = (.error e, pool') →
    (Unchanged ctx.lib pool pool' ↔ givenUp ctx tx wasLocal pool e = []))
    (fun _ => hsame (by decide)) fun _ => ?_
  refine failIf_outcome (P := fun r => r = (.error e, pool') →
    (Unchanged ctx.lib pool pool' ↔ givenUp ctx tx wasLocal pool e = []))
    (fun _ => hsame (by decide)) fun _ => ?_
  refine lift_outcome (P := fun r => r = (.error e, pool') →
    (Unchanged ctx.lib pool pool' ↔ givenUp ctx tx wasLocal pool e = []))
    (fun e' he' => hsame (raises_validateTx tx _ e' he')) fun _ _ => ?_
  refine lift_outcome (P := fun r => r = (.error e, pool') →
    (Unchanged ctx.lib pool pool' ↔ givenUp ctx tx wasLocal pool e = []))
    (fun e' he' => hsame (raises_derefFrom tx e' he')) fun a ha => ?_
  have hsender : tx.fromAddress = some a := derefFrom_eq_ok_iff.mp ha
  generalize hlocal : (wasLocal || tx.fromAddress.any pool.locals) = isLocal
  intro h
  split at h
  · rename_i hfull
    rcases makeRoom_cases hpricing tx isLocal pool with ⟨e', priced, hroom, hne, hlive⟩ | hroom
    · rw [bind_of_eq_error hroom] at h
      obtain ⟨he, rfl⟩ := Prod.mk.inj h
      obtain rfl := Except.error.inj he
      rw [givenUp, if_neg fun hfull => hne hfull.2]
      exact iff_of_true ⟨rfl, rfl, rfl, rfl, rfl, hlive⟩ rfl
    · rw [bind_of_eq_ok hroom] at h
      obtain ⟨rfl, rfl⟩ := insert_error hsender h
      obtain ⟨hgone, hrest⟩ := filter_evicted hpricing tx isLocal pool
      rw [givenUp, if_pos ⟨hfull, rfl⟩, hlocal]
      generalize evicted ctx tx isLocal pool = out at *
      constructor
      · intro hunchanged
        by_contra hne
        have hchanged : ∀ (priced : PricedList) (changes : Nat), (out.1.1.foldl
            (fun pool tx => removeTx ctx (tx.hash ctx.lib) false pool)
            { pool with priced := priced, changesSinceReorg := changes }).all ≠ pool.all :=
          fun _ _ => lookup_changes_of_evicted hgone hsenders hne
        exact hchanged _ _ hunchanged.all
      · intro hnone
        rw [hnone] at hrest ⊢
        exact ⟨rfl, rfl, rfl, rfl, rfl, hrest⟩
  · rename_i hroom
    obtain ⟨rfl, rfl⟩ := insert_error hsender h
    rw [givenUp, if_neg fun hfull => hroom hfull.1]
    exact iff_of_true (Unchanged.refl _ _) rfl

theorem toyFailure_unchanged :
    (toyFailure [toyBid 1 20 0]).1 = .error .errReplaceUnderpriced ∧
      Unchanged toyTightContext.lib (toyFilled [toyBid 1 20 0]) (toyFailure [toyBid 1 20 0]).2 := by
  have hfacts : (toyFailure [toyBid 1 20 0]).1 = .error .errReplaceUnderpriced ∧
      (∀ tx ∈ entries (toyFilled [toyBid 1 20 0]).all, tx.fromAddress ≠ none) ∧
      givenUp toyTightContext (toyBid 1 20 1) false (toyFilled [toyBid 1 20 0])
        .errReplaceUnderpriced = [] := by
    decide +kernel
  refine ⟨hfacts.1, (add_error_unchanged_iff rfl hfacts.2.1 ?_).mpr hfacts.2.2⟩
  exact Prod.ext hfacts.1 rfl

/-- The bid of another sender is given up for a bid that is then refused. -/
theorem refused_bid_evicts :
    (toyFailure [toyBid 1 20 0, toyBid 2 10 0]).1 = .error .errReplaceUnderpriced ∧
      (toyFilled [toyBid 1 20 0, toyBid 2 10 0]).all.remotes = [toyBid 2 10 0, toyBid 1 20 0] ∧
      (toyFailure [toyBid 1 20 0, toyBid 2 10 0]).2.all.remotes = [toyBid 1 20 0] ∧
      ¬ Unchanged toyTightContext.lib (toyFilled [toyBid 1 20 0, toyBid 2 10 0])
        (toyFailure [toyBid 1 20 0, toyBid 2 10 0]).2 := by
  have hfacts : (toyFailure [toyBid 1 20 0, toyBid 2 10 0]).1 = .error .errReplaceUnderpriced ∧
      (toyFilled [toyBid 1 20 0, toyBid 2 10 0]).all.remotes = [toyBid 2 10 0, toyBid 1 20 0] ∧
      (toyFailure [toyBid 1 20 0, toyBid 2 10 0]).2.all.remotes = [toyBid 1 20 0] := by
    decide +kernel
  refine ⟨hfacts.1, hfacts.2.1, hfacts.2.2, fun h => ?_⟩
  have hsame := congrArg TxLookup.remotes h.all
  rw [hfacts.2.1, hfacts.2.2] at hsame
  exact absurd (congrArg List.length hsame) (by decide)

end Toys

end N42.FailedAdditions
