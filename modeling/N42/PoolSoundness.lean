import N42.PoolReorg

/-!
The books of the pool: the lookup holds exactly what the lists hold, every list is kept
under the sender of its transactions, and no account has a nonce twice.  Transactions on
their way from one list to another are counted as loose ones.
-/

namespace N42.PoolSoundness

open ChainTypes Transactions StatefulActions StatefulActions.Action
open PoolAdmission PoolLists PoolReorg

variable {π : Type}

def txsOf (list : Option TxsList) : List Transaction :=
  list.elim [] TxsList.txs

def entries (all : TxLookup) : List Transaction :=
  all.locals ++ all.remotes

def holdings (pool : TxsPool π) (loose : Address → List Transaction) (a : Address) :
    List Transaction :=
  txsOf (pool.pending a) ++ (txsOf (pool.queue a) ++ loose a)

def WellKept (strict : Bool) (list : Option TxsList) : Prop :=
  ∀ l ∈ list, l.strict = strict ∧ Capped l

/-- The books, with something that holds of every transaction in them. -/
structure Sound (lib : Primitives) (accounts : List Address) (P : Transaction → Prop)
    (loose : Address → List Transaction) (pool : TxsPool π) : Prop where
  known : ∀ tx, tx ∈ entries pool.all ↔ ∃ a, tx ∈ holdings pool loose a
  hashed : ∀ tx ∈ entries pool.all, ∀ other ∈ entries pool.all,
    tx.hash lib = other.hash lib → tx = other
  sender : ∀ a, ∀ tx ∈ holdings pool loose a, tx.fromAddress = some a
  distinct : ∀ a, (nonces (holdings pool loose a)).Nodup
  fits : ∀ a, ∀ tx ∈ holdings pool loose a, P tx
  pendingKept : ∀ a, WellKept true (pool.pending a)
  queueKept : ∀ a, WellKept false (pool.queue a)
  confined : ∀ a, a ∉ accounts → pool.pending a = none ∧ pool.queue a = none

section Lookup

variable {lib : Primitives} {all : TxLookup} {tx other : Transaction} {txs : List Transaction}

variable {hash : Hash}

theorem get_eq_none_iff : all.get lib hash = none ↔ ∀ tx ∈ entries all, tx.hash lib ≠ hash := by
  simp only [TxLookup.get, Option.or_eq_none_iff, List.find?_eq_none, entries,
    List.mem_append, decide_eq_true_eq, or_imp, forall_and, ne_eq]

theorem mem_of_get_eq_some (h : all.get lib hash = some tx) :
    tx ∈ entries all ∧ tx.hash lib = hash := by
  rw [TxLookup.get, Option.or_eq_some_iff] at h
  rcases h with h | ⟨-, h⟩
  · exact ⟨List.mem_append_left _ (List.mem_of_find?_eq_some h),
      by simpa using List.find?_some h⟩
  · exact ⟨List.mem_append_right _ (List.mem_of_find?_eq_some h),
      by simpa using List.find?_some h⟩

theorem mem_others : tx ∈ TxLookup.others lib hash txs ↔ tx ∈ txs ∧ tx.hash lib ≠ hash := by
  rw [TxLookup.others, List.mem_filter, decide_eq_true_eq]

theorem mem_entries_remove :
    tx ∈ entries (all.remove lib hash) ↔ tx ∈ entries all ∧ tx.hash lib ≠ hash := by
  rw [TxLookup.remove]
  split
  · rename_i hnone
    have hfree := get_eq_none_iff.mp (Option.isNone_iff_eq_none.mp hnone)
    exact ⟨fun h => ⟨h, hfree tx h⟩, And.left⟩
  · simp only [entries, List.mem_append, mem_others, or_and_right]

theorem mem_entries_removeAll :
    tx ∈ entries (removeAll lib txs all) ↔
      tx ∈ entries all ∧ ∀ other ∈ txs, tx.hash lib ≠ other.hash lib := by
  induction txs generalizing all with
  | nil => simp [removeAll]
  | cons head txs ih =>
    rw [removeAll, List.foldl_cons, ← removeAll, ih, mem_entries_remove, List.forall_mem_cons,
      and_assoc]

theorem mem_entries_add (hfresh : ∀ other ∈ entries all, other.hash lib ≠ tx.hash lib)
    (isLocal : Bool) : other ∈ entries (all.add lib tx isLocal) ↔
      other = tx ∨ other ∈ entries all := by
  have hlocals : TxLookup.others lib (tx.hash lib) all.locals = all.locals :=
    List.filter_eq_self.mpr fun other h =>
      decide_eq_true (hfresh other (List.mem_append_left _ h))
  have hremotes : TxLookup.others lib (tx.hash lib) all.remotes = all.remotes :=
    List.filter_eq_self.mpr fun other h =>
      decide_eq_true (hfresh other (List.mem_append_right _ h))
  rw [TxLookup.add]
  split
  · rw [hlocals, entries, List.cons_append, List.mem_cons, entries]
  · rw [hremotes, entries, List.mem_append, List.mem_cons, entries, List.mem_append]
    exact or_left_comm

theorem mem_entries_remoteToLocals (hhashed : ∀ tx ∈ entries all, ∀ other ∈ entries all,
    tx.hash lib = other.hash lib → tx = other) (isLocal : Address → Bool) :
    tx ∈ entries (all.remoteToLocals lib isLocal).1 ↔ tx ∈ entries all := by
  simp only [TxLookup.remoteToLocals, entries, List.mem_append, List.mem_filter,
    List.all_eq_true, decide_eq_true_eq, Bool.not_eq_true']
  constructor
  · rintro ((⟨h, -⟩ | ⟨h, -⟩) | ⟨h, -⟩)
    · exact .inr h
    · exact .inl h
    · exact .inr h
  · intro h
    by_cases hmoved : tx ∈ all.remotes ∧ tx.fromAddress.any isLocal = true
    · exact .inl (.inl hmoved)
    · rcases h with h | h
      · refine .inl (.inr ⟨h, fun moved hmem heq => ?_⟩)
        have hsame := hhashed tx (List.mem_append_left _ h) moved
          (List.mem_append_right _ hmem.1) heq
        exact hmoved (hsame ▸ hmem)
      · refine .inr ⟨h, Bool.eq_false_iff.mpr fun hlocal => hmoved ⟨h, hlocal⟩⟩

end Lookup

section Lists

variable {list : TxsList} {tx other : Transaction}

theorem Capped.of_subset {l : TxsList} (h : Capped l) (hsub : ∀ tx ∈ list.txs, tx ∈ l.txs)
    (hcost : list.costcap = l.costcap) (hgas : list.gascap = l.gascap) : Capped list := by
  intro tx htx
  rw [hcost, hgas]
  exact h tx (hsub tx htx)

theorem txsOf_some (list : TxsList) : txsOf (some list) = list.txs :=
  rfl

theorem txsOf_nonEmpty (list : TxsList) : txsOf (nonEmpty list) = list.txs := by
  rw [nonEmpty]
  split
  · rename_i h
    exact (List.isEmpty_iff.mp h).symm
  · rfl

theorem wellKept_some {strict : Bool} (h : list.strict = strict ∧ Capped list) :
    WellKept strict (some list) := by
  rintro l ⟨⟩
  exact h

theorem wellKept_nonEmpty {strict : Bool} (h : list.strict = strict ∧ Capped list) :
    WellKept strict (nonEmpty list) := by
  rw [nonEmpty]
  split
  · intro l hl
    cases hl
  · exact wellKept_some h

def push (list : TxsList) (tx : Transaction) : TxsList :=
  { list with
    txs := tx :: list.txs
    costcap := if list.costcap < tx.cost then tx.cost else list.costcap
    gascap := if list.gascap < tx.gas then tx.gas else list.gascap }

theorem filter_others_eq_self {txs : List Transaction}
    (h : ∀ other ∈ txs, other.nonce ≠ tx.nonce) :
    (txs.filter fun other => other.nonce ≠ tx.nonce) = txs :=
  List.filter_eq_self.mpr fun other hother => decide_eq_true (h other hother)

theorem get_eq_none_of_free {nonce : UInt64} (h : ∀ other ∈ list.txs, other.nonce ≠ nonce) :
    list.get nonce = none := by
  rw [TxsList.get, List.find?_eq_none]
  exact fun other hother => by simpa using h other hother

theorem free_of_get_eq_none {nonce : UInt64} (h : list.get nonce = none) :
    ∀ other ∈ list.txs, other.nonce ≠ nonce := by
  rw [TxsList.get, List.find?_eq_none] at h
  exact fun other hother => by simpa using h other hother

theorem mem_of_get_nonce {nonce : UInt64} (h : list.get nonce = some tx) :
    tx ∈ list.txs ∧ tx.nonce = nonce :=
  ⟨List.mem_of_find?_eq_some h, by simpa using List.find?_some h⟩

theorem add_of_free (h : ∀ other ∈ list.txs, other.nonce ≠ tx.nonce) (priceBump : UInt64) :
    list.add tx priceBump = some (push list tx, none) := by
  rw [TxsList.add, get_eq_none_of_free h, filter_others_eq_self h]
  rfl

theorem capped_of_add {list' : TxsList} {old : Option Transaction} {priceBump : UInt64}
    (h : list.add tx priceBump = some (list', old)) (hcap : Capped list) :
    list'.txs = tx :: (list.txs.filter fun other => other.nonce ≠ tx.nonce) ∧
      old = list.get tx.nonce ∧ list'.strict = list.strict ∧ Capped list' := by
  rw [TxsList.add] at h
  split at h
  · obtain ⟨rfl, rfl⟩ := Prod.mk.inj (Option.some.inj h)
    refine ⟨rfl, rfl, rfl, fun other hother => ?_⟩
    have hcost : tx.cost ≤ (if list.costcap < tx.cost then tx.cost else list.costcap) ∧
        list.costcap ≤ (if list.costcap < tx.cost then tx.cost else list.costcap) := by
      split
      · rename_i hlt
        exact ⟨BitVec.le_refl _, BitVec.le_of_lt hlt⟩
      · rename_i hle
        exact ⟨BitVec.not_lt.mp hle, BitVec.le_refl _⟩
    have hgas : tx.gas ≤ (if list.gascap < tx.gas then tx.gas else list.gascap) ∧
        list.gascap ≤ (if list.gascap < tx.gas then tx.gas else list.gascap) := by
      split
      · rename_i hlt
        exact ⟨UInt64.le_refl _, UInt64.le_of_lt hlt⟩
      · rename_i hle
        exact ⟨UInt64.not_lt.mp hle, UInt64.le_refl _⟩
    rcases List.mem_cons.mp hother with rfl | hother
    · exact ⟨hcost.1, hgas.1⟩
    · have hold := hcap other (List.mem_filter.mp hother).1
      exact ⟨BitVec.le_trans hold.1 hcost.2, UInt64.le_trans hold.2 hgas.2⟩
  · cases h

theorem capped_new (strict : Bool) : Capped (.new strict) :=
  fun _ h => absurd h List.not_mem_nil

theorem wellKept_getD {strict : Bool} {lists : Option TxsList} (h : WellKept strict lists) :
    (lists.getD (.new strict)).strict = strict ∧ Capped (lists.getD (.new strict)) := by
  cases lists with
  | none => exact ⟨rfl, capped_new strict⟩
  | some list => exact h list rfl

theorem txs_getD (lists : Option TxsList) (strict : Bool) :
    (lists.getD (.new strict)).txs = txsOf lists := by
  cases lists with
  | none => rfl
  | some list => rfl

end Lists

section Changes

variable {lib : Primitives} {accounts : List Address} {P : Transaction → Prop}
  {loose loose' : Address → List Transaction}
  {pool pool' : TxsPool π} {a : Address}

variable {tx : Transaction}

section

variable (h : Sound lib accounts P loose pool)
include h

theorem Sound.mem_entries (htx : tx ∈ holdings pool loose a) : tx ∈ entries pool.all :=
  (h.known tx).mpr ⟨a, htx⟩

theorem Sound.mem_removeAll_iff {gone : List Transaction}
    (hgone : ∀ tx ∈ gone, tx ∈ holdings pool loose a) (tx : Transaction) :
    tx ∈ entries (removeAll lib gone pool.all) ↔ tx ∈ entries pool.all ∧ tx ∉ gone := by
  rw [mem_entries_removeAll]
  refine and_congr_right fun hmem => ?_
  constructor
  · exact fun hne hin => hne tx hin rfl
  · intro hnot other hother heq
    rw [h.hashed tx hmem other (h.mem_entries (hgone other hother)) heq] at hnot
    exact hnot hother

theorem Sound.mem_remove_iff (htx : tx ∈ holdings pool loose a) (other : Transaction) :
    other ∈ entries (pool.all.remove lib (tx.hash lib)) ↔
      other ∈ entries pool.all ∧ other ∉ [tx] := by
  have hgone : ∀ gone ∈ [tx], gone ∈ holdings pool loose a := by
    intro gone hmem
    rwa [List.mem_singleton.mp hmem]
  exact h.mem_removeAll_iff hgone other

theorem Sound.nodup_pending (a : Address) : (nonces (txsOf (pool.pending a))).Nodup := by
  have hnodup := h.distinct a
  rw [holdings, nonces_append] at hnodup
  exact (List.nodup_append.mp hnodup).1

theorem Sound.nodup_queue (a : Address) : (nonces (txsOf (pool.queue a))).Nodup := by
  have hnodup := h.distinct a
  rw [holdings, nonces_append, nonces_append] at hnodup
  exact (List.nodup_append.mp (List.nodup_append.mp hnodup).2.1).1

theorem Sound.mem_accounts (ha : pool.pending a ≠ none ∨ pool.queue a ≠ none) : a ∈ accounts := by
  by_contra hnot
  obtain ⟨hpending, hqueue⟩ := h.confined a hnot
  exact ha.elim (fun hne => hne hpending) fun hne => hne hqueue

end

structure Elsewhere (a : Address) (pool pool' : TxsPool π)
    (loose loose' : Address → List Transaction) : Prop where
  pending : ∀ b, b ≠ a → pool'.pending b = pool.pending b
  queue : ∀ b, b ≠ a → pool'.queue b = pool.queue b
  loose : ∀ b, b ≠ a → loose' b = loose b

theorem Elsewhere.holdings_eq (h : Elsewhere a pool pool' loose loose') {b : Address}
    (hb : b ≠ a) : holdings pool' loose' b = holdings pool loose b := by
  rw [holdings, holdings, h.pending b hb, h.queue b hb, h.loose b hb]

section

variable (h : Sound lib accounts P loose pool)
include h

section

variable (ha : a ∈ accounts) (helse : Elsewhere a pool pool' loose loose')
include ha helse

theorem Sound.change (hpending : WellKept true (pool'.pending a))
    (hqueue : WellKept false (pool'.queue a)) {gone fresh : List Transaction}
    (hgone : ∀ tx ∈ gone, tx ∈ holdings pool loose a ∧ tx ∉ holdings pool' loose' a)
    (hfresh : ∀ tx ∈ fresh, tx.fromAddress = some a ∧ P tx ∧
      ∀ other, other ∈ fresh ∨ other ∈ entries pool.all → tx.hash lib = other.hash lib →
        tx = other ∧ other ∉ entries pool.all)
    (hmem : ∀ tx, tx ∈ holdings pool' loose' a ∨ tx ∈ gone ↔
      tx ∈ fresh ∨ tx ∈ holdings pool loose a)
    (hdistinct : (nonces (holdings pool' loose' a)).Nodup)
    (hall : ∀ tx, tx ∈ entries pool'.all ↔ tx ∈ fresh ∨ tx ∈ entries pool.all ∧ tx ∉ gone) :
    Sound lib accounts P loose' pool' := by
  have hnew : ∀ tx ∈ fresh, tx ∉ entries pool.all := fun tx htx =>
    ((hfresh tx htx).2.2 tx (.inl htx) rfl).2
  refine ⟨fun tx => ?_, ?_, ?_, ?_, ?_, ?_, ?_, ?_⟩
  · rw [hall]
    constructor
    · rintro (htx | ⟨htx, hstay⟩)
      · refine ⟨a, ((hmem tx).mpr (.inl htx)).resolve_right fun hleft => ?_⟩
        exact hnew tx htx (h.mem_entries (hgone tx hleft).1)
      · obtain ⟨b, hb⟩ := (h.known tx).mp htx
        rcases eq_or_ne b a with rfl | hne
        · exact ⟨b, ((hmem tx).mpr (.inr hb)).resolve_right hstay⟩
        · exact ⟨b, by rwa [helse.holdings_eq hne]⟩
    · rintro ⟨b, hb⟩
      rcases eq_or_ne b a with rfl | hne
      · rcases (hmem tx).mp (.inl hb) with htx | htx
        · exact .inl htx
        · exact .inr ⟨h.mem_entries htx, fun hleft => (hgone tx hleft).2 hb⟩
      · rw [helse.holdings_eq hne] at hb
        refine .inr ⟨h.mem_entries hb, fun hleft => ?_⟩
        have := (h.sender a tx (hgone tx hleft).1).symm.trans (h.sender b tx hb)
        exact hne (Option.some.inj this).symm
  · intro tx htx other hother heq
    rcases (hall tx).mp htx with htx | htx
    · exact ((hfresh tx htx).2.2 other (((hall other).mp hother).imp_right And.left) heq).1
    · rcases (hall other).mp hother with hother | hother
      · exact ((hfresh other hother).2.2 tx (.inr htx.1) heq.symm).1.symm
      · exact h.hashed tx htx.1 other hother.1 heq
  · intro b tx hb
    rcases eq_or_ne b a with rfl | hne
    · exact ((hmem tx).mp (.inl hb)).elim (fun htx => (hfresh tx htx).1) (h.sender b tx)
    · exact h.sender b tx (by rwa [← helse.holdings_eq hne])
  · intro b
    rcases eq_or_ne b a with rfl | hne
    · exact hdistinct
    · exact helse.holdings_eq hne ▸ h.distinct b
  · intro b tx hb
    rcases eq_or_ne b a with rfl | hne
    · exact ((hmem tx).mp (.inl hb)).elim (fun htx => (hfresh tx htx).2.1) (h.fits b tx)
    · exact h.fits b tx (by rwa [← helse.holdings_eq hne])
  · intro b
    rcases eq_or_ne b a with rfl | hne
    · exact hpending
    · exact helse.pending b hne ▸ h.pendingKept b
  · intro b
    rcases eq_or_ne b a with rfl | hne
    · exact hqueue
    · exact helse.queue b hne ▸ h.queueKept b
  · intro b hb
    have hne : b ≠ a := fun heq => hb (heq ▸ ha)
    exact ⟨(helse.pending b hne).trans (h.confined b hb).1,
      (helse.queue b hne).trans (h.confined b hb).2⟩

theorem Sound.move {pending queue : Option TxsList} {left gone : List Transaction}
    (hpending : pool'.pending a = pending) (hqueue : pool'.queue a = queue)
    (hleft : loose' a = left) (hkept : WellKept true pending ∧ WellKept false queue)
    (hperm : (gone ++ (txsOf pending ++ (txsOf queue ++ left))).Perm (holdings pool loose a))
    (hall : ∀ tx, tx ∈ entries pool'.all ↔ tx ∈ entries pool.all ∧ tx ∉ gone) :
    Sound lib accounts P loose' pool' := by
  subst hpending hqueue hleft
  rw [← holdings] at hperm
  have hnodup : (nonces gone ++ nonces (holdings pool' loose' a)).Nodup := by
    rw [← nonces_append]
    exact (hperm.map fun tx : Transaction => tx.nonce.toNat).nodup_iff.mpr (h.distinct a)
  obtain ⟨-, hrest, hdisjoint⟩ := List.nodup_append.mp hnodup
  have hnone : ∀ tx ∈ ([] : List Transaction), tx.fromAddress = some a ∧
      P tx ∧ ∀ other, other ∈ [] ∨ other ∈ entries pool.all →
        tx.hash lib = other.hash lib → tx = other ∧ other ∉ entries pool.all :=
    fun tx htx => absurd htx List.not_mem_nil
  refine h.change ha helse hkept.1 hkept.2 ?_ hnone ?_ hrest (by simpa using hall)
  · refine fun tx htx => ⟨hperm.mem_iff.mp (List.mem_append_left _ htx), fun hin => ?_⟩
    exact hdisjoint _ (mem_nonces_of_mem htx) _ (mem_nonces_of_mem hin) rfl
  · intro tx
    rw [← hperm.mem_iff, List.mem_append]
    simp [or_comm]

theorem Sound.replace (hpending : WellKept true (pool'.pending a))
    (hqueue : WellKept false (pool'.queue a)) {gone : List Transaction}
    (hsender : tx.fromAddress = some a) (hfits : P tx)
    (hfresh : ∀ other ∈ entries pool.all, other.hash lib ≠ tx.hash lib)
    (hgone : ∀ other, other ∈ gone ↔ other ∈ holdings pool loose a ∧ other.nonce = tx.nonce)
    (hperm : (holdings pool' loose' a).Perm
      (tx :: (holdings pool loose a).filter fun other => other.nonce ≠ tx.nonce))
    (hall : ∀ other, other ∈ entries pool'.all ↔
      other = tx ∨ other ∈ entries pool.all ∧ other ∉ gone) :
    Sound lib accounts P loose' pool' := by
  have hnew : tx ∉ entries pool.all := fun hmem => hfresh tx hmem rfl
  refine h.change ha helse hpending hqueue (?_ : ∀ other ∈ gone, _) (?_ : ∀ other ∈ [tx], _)
    (fun other => ?_) ?_ fun other => by rw [hall, List.mem_singleton]
  · intro other hother
    obtain ⟨hmem, hnonce⟩ := (hgone other).mp hother
    refine ⟨hmem, fun hin => ?_⟩
    rcases List.mem_cons.mp (hperm.mem_iff.mp hin) with rfl | hin
    · exact hnew (h.mem_entries hmem)
    · exact of_decide_eq_true (List.mem_filter.mp hin).2 hnonce
  · intro other hother
    obtain rfl := List.mem_singleton.mp hother
    refine ⟨hsender, hfits, fun third hthird heq => ?_⟩
    rcases hthird with hthird | hthird
    · obtain rfl := List.mem_singleton.mp hthird
      exact ⟨rfl, hnew⟩
    · exact absurd heq.symm (hfresh third hthird)
  · rw [hperm.mem_iff, List.mem_cons, List.mem_filter, decide_eq_true_eq, hgone, List.mem_singleton]
    by_cases hnonce : other.nonce = tx.nonce
    · simp [hnonce]
    · simp [hnonce]
  · refine (hperm.map fun tx : Transaction => tx.nonce.toNat).nodup_iff.mpr ?_
    rw [List.map_cons, List.nodup_cons]
    constructor
    · intro hmem
      obtain ⟨other, hother, hnonce⟩ := List.mem_map.mp hmem
      exact of_decide_eq_true (List.mem_filter.mp hother).2 (UInt64.toNat_inj.mp hnonce)
    · exact (h.distinct a).sublist (List.filter_sublist.map _)

end

theorem Sound.mono {Q : Transaction → Prop} (hpq : ∀ tx, P tx → Q tx) :
    Sound lib accounts Q loose pool :=
  ⟨h.known, h.hashed, h.sender, h.distinct, fun a tx htx => hpq tx (h.fits a tx htx),
    h.pendingKept, h.queueKept, h.confined⟩

theorem Sound.of_eq (hpending : pool'.pending = pool.pending) (hqueue : pool'.queue = pool.queue)
    (hall : pool'.all = pool.all) :
    Sound lib accounts P loose pool' := by
  have hholdings : ∀ a, holdings pool' loose a = holdings pool loose a := fun a => by
    rw [holdings, holdings, hpending, hqueue]
  refine ⟨?_, hall ▸ h.hashed, ?_, ?_, ?_, hpending ▸ h.pendingKept, hqueue ▸ h.queueKept,
    hpending ▸ hqueue ▸ h.confined⟩
  · simpa only [hholdings, hall] using h.known
  · simpa only [hholdings] using h.sender
  · simpa only [hholdings] using h.distinct
  · simpa only [hholdings] using h.fits

end

end Changes

section Postponing

variable {ctx : PoolContext π} {accounts : List Address} {P : Transaction → Prop}
  {pool : TxsPool π} {a : Address} {txs rest : List Transaction} {tx : Transaction}

@[simp] theorem update_self {β : Type} (m : Address → β) (a : Address) (value : β) :
    update m a value a = value :=
  if_pos rfl

theorem update_of_ne {β : Type} (m : Address → β) {a b : Address} (value : β) (h : b ≠ a) :
    update m a value b = m b :=
  if_neg h

def loosely (a : Address) (txs : List Transaction) : Address → List Transaction :=
  update (fun _ => []) a txs

def noLoose : Address → List Transaction :=
  fun _ => []

theorem loosely_nil (a : Address) : loosely a [] = noLoose := by
  funext b
  rw [loosely, update]
  split
  · rfl
  · rfl

theorem enqueueTx_of_free (hsender : tx.fromAddress = some a)
    (hfree : ∀ other ∈ txsOf (pool.queue a), other.nonce ≠ tx.nonce) :
    (enqueueTx ctx tx false false pool).2 = { pool with
      queue := update pool.queue a (some (push ((pool.queue a).getD (.new false)) tx)) } := by
  have hderef : (lift (derefFrom tx) : Action (TxsPool π) PoolError Address) pool =
      (.ok a, pool) := by
    rw [lift, derefFrom, hsender]
  have hfree' : ∀ other ∈ ((pool.queue a).getD (.new false)).txs, other.nonce ≠ tx.nonce := by
    rwa [txs_getD]
  rw [enqueueTx, bind_of_eq_ok hderef, get_bind]
  rw [add_of_free hfree']
  rfl

theorem elsewhere_queue (list : Option TxsList) (txs txs' : List Transaction) :
    Elsewhere a pool { pool with queue := update pool.queue a list } (loosely a txs)
      (loosely a txs') where
  pending _ _ := rfl
  queue b hb := update_of_ne pool.queue list hb
  loose b hb := by rw [loosely, loosely, update_of_ne _ _ hb, update_of_ne _ _ hb]

theorem mem_holdings_loosely (h : tx ∈ txs) : tx ∈ holdings pool (loosely a txs) a := by
  refine List.mem_append_right _ (List.mem_append_right _ ?_)
  rwa [loosely, update_self]

theorem Sound.nonce_ne_of_queued (h : Sound ctx.lib accounts P (loosely a (tx :: rest)) pool) :
    ∀ other ∈ txsOf (pool.queue a), other.nonce ≠ tx.nonce := by
  intro other hother heq
  have hnodup := h.distinct a
  rw [holdings, nonces_append, nonces_append, loosely, update_self] at hnodup
  have hdisjoint := (List.nodup_append.mp (List.nodup_append.mp hnodup).2.1).2.2
  exact hdisjoint _ (mem_nonces_of_mem hother) _ (mem_nonces_of_mem List.mem_cons_self)
    (congrArg UInt64.toNat heq)

theorem Sound.postpone (h : Sound ctx.lib accounts P (loosely a (txs ++ rest)) pool)
    (ha : a ∈ accounts) :
    ∃ queue, postpone ctx txs pool = { pool with queue := queue } ∧
      Sound ctx.lib accounts P (loosely a rest) { pool with queue := queue } := by
  induction txs generalizing pool with
  | nil => exact ⟨pool.queue, rfl, h⟩
  | cons tx txs ih =>
    have hsender := h.sender a tx (mem_holdings_loosely List.mem_cons_self)
    have hfree := h.nonce_ne_of_queued
    have hkept := wellKept_getD (h.queueKept a)
    have hadd := add_of_free (by rwa [txs_getD] :
      ∀ other ∈ ((pool.queue a).getD (.new false)).txs, other.nonce ≠ tx.nonce) 0
    rw [PoolAdmission.postpone, enqueueTx_of_free hsender hfree]
    have hcapped := capped_of_add hadd hkept.2
    refine ih (h.move ha (elsewhere_queue _ _ _) rfl (update_self _ _ _) (update_self _ _ _)
      ⟨h.pendingKept a, wellKept_some ⟨hcapped.2.2.1.trans hkept.1, hcapped.2.2.2⟩⟩
      (?_ : ([] ++ _).Perm _) fun other => by simp)
    rw [List.nil_append, holdings, loosely, update_self]
    refine List.Perm.append_left _ ?_
    rw [txsOf_some, push, txs_getD, List.cons_append, List.cons_append]
    exact List.perm_middle.symm

end Postponing

end N42.PoolSoundness
