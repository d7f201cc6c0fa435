import Mathlib.Data.List.Sort
import N42.NumberRuns
import N42.PoolAdmission

/-!
The maintenance of the list of one account: the transactions that are too old, too costly,
beyond a limit or ready to be executed are taken out of it.
-/

namespace N42.PoolLists

open ChainTypes Transactions NumberRuns PoolAdmission

def nonces (txs : List Transaction) : List Nat :=
  txs.map fun tx => tx.nonce.toNat

def flatten (l : TxsList) : List Transaction :=
  l.txs.insertionSort fun a b => a.nonce.toNat ≤ b.nonce.toNat

def forward (threshold : UInt64) (l : TxsList) : List Transaction × TxsList :=
  (l.txs.filter fun tx => tx.nonce < threshold,
    { l with txs := l.txs.filter fun tx => ¬ tx.nonce < threshold })

def exceeds (costLimit : Uint256) (gasLimit : UInt64) (tx : Transaction) : Bool :=
  gasLimit < tx.gas || costLimit < tx.cost

def maxNonce : UInt64 := 0xffffffffffffffff

def lowestNonce (txs : List Transaction) : UInt64 :=
  txs.foldl (fun lowest tx => if tx.nonce < lowest then tx.nonce else lowest) maxNonce

def filter (costLimit : Uint256) (gasLimit : UInt64) (l : TxsList) :
    (List Transaction × List Transaction) × TxsList :=
  if l.costcap ≤ costLimit ∧ l.gascap ≤ gasLimit then (([], []), l)
  else
    let removed := l.txs.filter (exceeds costLimit gasLimit)
    let rest := l.txs.filter fun tx => !exceeds costLimit gasLimit tx
    if removed.isEmpty then (([], []), { l with costcap := costLimit, gascap := gasLimit })
    else if l.strict then
      ((removed, rest.filter fun tx => lowestNonce removed < tx.nonce), { l with
          txs := rest.filter fun tx => ¬ lowestNonce removed < tx.nonce
          costcap := costLimit
          gascap := gasLimit })
    else ((removed, []), { l with txs := rest, costcap := costLimit, gascap := gasLimit })

def cap (threshold : Nat) (l : TxsList) : List Transaction × TxsList :=
  if l.txs.length ≤ threshold then ([], l)
  else (((flatten l).drop threshold).reverse, { l with txs := (flatten l).take threshold })

def consecutive : UInt64 → List Transaction → List Transaction
  | _, [] => []
  | next, tx :: txs => if tx.nonce = next then tx :: consecutive (next + 1) txs else []

/-- `Ready`: give up the transactions that can be executed.  They start at the lowest
nonce, even if that is below the one asked for. -/
def ready (start : UInt64) (l : TxsList) : List Transaction × TxsList :=
  match flatten l with
  | [] => ([], l)
  | tx :: txs =>
    if start < tx.nonce then ([], l)
    else
      let readies := consecutive tx.nonce (tx :: txs)
      (readies, { l with txs := (tx :: txs).drop readies.length })

def lastElement (l : TxsList) : Option Transaction :=
  (flatten l).getLast?

section Nonces

variable {txs : List Transaction} {tx : Transaction}

theorem mem_nonces_of_mem (h : tx ∈ txs) : tx.nonce.toNat ∈ nonces txs :=
  List.mem_map_of_mem h

theorem nonces_append (txs txs' : List Transaction) :
    nonces (txs ++ txs') = nonces txs ++ nonces txs' :=
  List.map_append

theorem nonces_filter (p : Nat → Prop) [DecidablePred p] (txs : List Transaction) :
    nonces (txs.filter fun tx => p tx.nonce.toNat) = (nonces txs).filter fun n => p n := by
  rw [nonces, nonces, List.filter_map]
  rfl

theorem eq_of_nonce_eq (h : (nonces txs).Nodup) (htx : tx ∈ txs) {other : Transaction}
    (hother : other ∈ txs) (hnonce : tx.nonce = other.nonce) : tx = other :=
  List.inj_on_of_nodup_map h htx hother (congrArg UInt64.toNat hnonce)

end Nonces

/-! What each operation leaves in the list. -/

theorem perm_forward (threshold : UInt64) (l : TxsList) :
    ((forward threshold l).1 ++ (forward threshold l).2.txs).Perm l.txs := by
  have h := List.filter_append_perm (fun tx : Transaction => decide (tx.nonce < threshold)) l.txs
  simpa only [forward, decide_not] using h

theorem nonces_forward (threshold : UInt64) (l : TxsList) :
    nonces (forward threshold l).2.txs = (nonces l.txs).filter fun n => threshold.toNat ≤ n := by
  rw [← nonces_filter]
  simp only [forward, UInt64.not_lt, UInt64.le_iff_toNat_le]

section Filter

variable {costLimit : Uint256} {gasLimit : UInt64} {l : TxsList} {txs : List Transaction}
  {tx : Transaction}

theorem foldl_lowest (txs : List Transaction) (start : UInt64) :
    (∀ tx ∈ txs, txs.foldl (fun lowest tx => if tx.nonce < lowest then tx.nonce else lowest)
      start ≤ tx.nonce) ∧
    txs.foldl (fun lowest tx => if tx.nonce < lowest then tx.nonce else lowest) start ≤ start ∧
    (txs.foldl (fun lowest tx => if tx.nonce < lowest then tx.nonce else lowest) start = start ∨
      ∃ tx ∈ txs, tx.nonce =
        txs.foldl (fun lowest tx => if tx.nonce < lowest then tx.nonce else lowest) start) := by
  induction txs generalizing start with
  | nil => exact ⟨fun tx h => absurd h List.not_mem_nil, UInt64.le_refl start, .inl rfl⟩
  | cons tx txs ih =>
    rw [List.foldl_cons]
    obtain ⟨hall, hstart, hsome⟩ := ih (if tx.nonce < start then tx.nonce else start)
    have hfirst : (if tx.nonce < start then tx.nonce else start) ≤ tx.nonce ∧
        (if tx.nonce < start then tx.nonce else start) ≤ start := by
      split
      · rename_i hlt
        exact ⟨UInt64.le_refl _, UInt64.le_of_lt hlt⟩
      · rename_i hle
        exact ⟨UInt64.not_lt.mp hle, UInt64.le_refl _⟩
    refine ⟨?_, UInt64.le_trans hstart hfirst.2, ?_⟩
    · intro other hother
      rcases List.mem_cons.mp hother with rfl | hother
      · exact UInt64.le_trans hstart hfirst.1
      · exact hall other hother
    · rcases hsome with hsame | ⟨other, hother, hnonce⟩
      · rw [hsame]
        split
        · exact .inr ⟨tx, List.mem_cons_self, rfl⟩
        · exact .inl rfl
      · exact .inr ⟨other, List.mem_cons_of_mem tx hother, hnonce⟩

theorem lowestNonce_le (h : tx ∈ txs) : lowestNonce txs ≤ tx.nonce :=
  (foldl_lowest txs maxNonce).1 tx h

theorem exists_lowestNonce (h : txs ≠ []) : ∃ tx ∈ txs, tx.nonce = lowestNonce txs := by
  rcases (foldl_lowest txs maxNonce).2.2 with hmax | hsome
  · obtain ⟨tx, rest, rfl⟩ := List.exists_cons_of_ne_nil h
    refine ⟨tx, List.mem_cons_self, ?_⟩
    have hle : lowestNonce (tx :: rest) ≤ tx.nonce := lowestNonce_le List.mem_cons_self
    have htop : tx.nonce ≤ maxNonce := UInt64.le_iff_toNat_le.mpr (by
      have := tx.nonce.toNat_lt
      simp [maxNonce]
      omega)
    have hlow : lowestNonce (tx :: rest) = maxNonce := hmax
    rw [hlow] at hle ⊢
    exact UInt64.le_antisymm htop hle
  · exact hsome

def Capped (l : TxsList) : Prop :=
  ∀ tx ∈ l.txs, tx.cost ≤ l.costcap ∧ tx.gas ≤ l.gascap

theorem exceeds_eq_false_iff :
    exceeds costLimit gasLimit tx = false ↔ tx.cost ≤ costLimit ∧ tx.gas ≤ gasLimit := by
  simp only [exceeds, Bool.or_eq_false_iff, decide_eq_false_iff_not, UInt64.not_lt, BitVec.not_lt]
  exact and_comm

theorem filter_exceeds_eq_nil (h : (l.txs.filter (exceeds costLimit gasLimit)).isEmpty = true) :
    ∀ tx ∈ l.txs, exceeds costLimit gasLimit tx = false := by
  intro tx htx
  rw [List.isEmpty_iff, List.filter_eq_nil_iff] at h
  exact Bool.eq_false_iff.mpr (h tx htx)

theorem perm_filter (costLimit : Uint256) (gasLimit : UInt64) (l : TxsList) :
    ((filter costLimit gasLimit l).1.1 ++ ((filter costLimit gasLimit l).1.2 ++
      (filter costLimit gasLimit l).2.txs)).Perm l.txs := by
  have hsplit := List.filter_append_perm (exceeds costLimit gasLimit) l.txs
  rw [filter]
  split
  · exact List.Perm.refl _
  · dsimp only
    split
    · exact List.Perm.refl _
    · split
      · refine List.Perm.trans (List.Perm.append_left _ ?_) hsplit
        have h := List.filter_append_perm (fun tx : Transaction =>
          decide (lowestNonce (l.txs.filter (exceeds costLimit gasLimit)) < tx.nonce))
          (l.txs.filter fun tx => !exceeds costLimit gasLimit tx)
        simpa only [decide_not] using h
      · exact hsplit

theorem txs_filter_of_not_strict (hcap : Capped l) (h : l.strict = false) :
    (filter costLimit gasLimit l).1.2 = [] ∧ (filter costLimit gasLimit l).2.txs =
      l.txs.filter fun tx => !exceeds costLimit gasLimit tx := by
  have hkeep : (∀ tx ∈ l.txs, exceeds costLimit gasLimit tx = false) →
      l.txs = l.txs.filter fun tx => !exceeds costLimit gasLimit tx := by
    intro hall
    refine (List.filter_eq_self.mpr fun tx htx => ?_).symm
    rw [hall tx htx]
    rfl
  rw [filter]
  split
  · rename_i hcaps
    refine ⟨rfl, hkeep fun tx htx => exceeds_eq_false_iff.mpr ?_⟩
    exact ⟨BitVec.le_trans (hcap tx htx).1 hcaps.1, UInt64.le_trans (hcap tx htx).2 hcaps.2⟩
  · dsimp only
    split
    · rename_i hnone
      exact ⟨rfl, hkeep (filter_exceeds_eq_nil hnone)⟩
    · rw [h]
      exact ⟨rfl, rfl⟩

theorem exists_txs_filter_of_strict (costLimit : Uint256) (gasLimit : UInt64)
    (hnodup : (nonces l.txs).Nodup) (h : l.strict = true) :
    ∃ k, (filter costLimit gasLimit l).2.txs = l.txs.filter fun tx => tx.nonce.toNat < k := by
  have hall : l.txs = l.txs.filter fun tx => tx.nonce.toNat < 2 ^ 64 := by
    refine (List.filter_eq_self.mpr fun tx _ => ?_).symm
    exact decide_eq_true tx.nonce.toNat_lt
  rw [filter]
  split
  · exact ⟨2 ^ 64, hall⟩
  · dsimp only
    split
    · exact ⟨2 ^ 64, hall⟩
    · rename_i hsome
      dsimp only
      set removed := l.txs.filter (exceeds costLimit gasLimit) with hremoved
      refine ⟨(lowestNonce removed).toNat, ?_⟩
      obtain ⟨first, hfirst, hlowest⟩ := exists_lowestNonce fun hnil : removed = [] =>
        hsome (List.isEmpty_iff.mpr hnil)
      obtain ⟨hmem, hexceeds⟩ := List.mem_filter.mp hfirst
      rw [List.filter_filter]
      refine List.filter_congr fun tx htx => ?_
      rw [Bool.eq_iff_iff, Bool.and_eq_true, decide_eq_true_eq, decide_eq_true_eq,
        ← UInt64.lt_iff_toNat_lt, Bool.not_eq_true']
      constructor
      · rintro ⟨hle, hfine⟩
        -- the lowest nonce itself belongs to a transaction that was removed
        refine UInt64.lt_of_le_of_ne (UInt64.not_lt.mp hle) fun hsame => ?_
        have := eq_of_nonce_eq hnodup htx hmem (hsame.trans hlowest.symm)
        rw [this, hexceeds] at hfine
        cases hfine
      · intro hlt
        refine ⟨UInt64.not_lt.mpr (UInt64.le_of_lt hlt), ?_⟩
        refine Bool.eq_false_iff.mpr fun hbad => ?_
        have hmem : tx ∈ removed := List.mem_filter.mpr ⟨htx, hbad⟩
        have hle := lowestNonce_le hmem
        exact UInt64.not_lt.mpr hle hlt

theorem exceeds_of_mem_filter (hcap : Capped l) (h : tx ∈ (filter costLimit gasLimit l).2.txs) :
    exceeds costLimit gasLimit tx = false := by
  rw [filter] at h
  split at h
  · rename_i hcaps
    exact exceeds_eq_false_iff.mpr ⟨BitVec.le_trans (hcap tx h).1 hcaps.1,
      UInt64.le_trans (hcap tx h).2 hcaps.2⟩
  · dsimp only at h
    split at h
    · rename_i hnone
      exact filter_exceeds_eq_nil hnone tx h
    · split at h
      · have := (List.mem_filter.mp (List.mem_filter.mp h).1).2
        simpa using this
      · have := (List.mem_filter.mp h).2
        simpa using this

theorem strict_filter : (filter costLimit gasLimit l).2.strict = l.strict := by
  rw [filter]
  split
  · rfl
  · dsimp only
    split
    · rfl
    · split
      · rfl
      · rfl

theorem capped_filter (hcap : Capped l) : Capped (filter costLimit gasLimit l).2 := by
  by_cases hcaps : l.costcap ≤ costLimit ∧ l.gascap ≤ gasLimit
  · rw [filter, if_pos hcaps]
    exact hcap
  · intro tx htx
    have hfine := exceeds_eq_false_iff.mp (exceeds_of_mem_filter hcap htx)
    rw [filter, if_neg hcaps]
    dsimp only
    split
    · exact hfine
    · split
      · exact hfine
      · exact hfine

end Filter

section Order

variable {l : TxsList} {tx : Transaction}

theorem perm_flatten (l : TxsList) : (flatten l).Perm l.txs :=
  List.perm_insertionSort _ _

theorem pairwise_flatten (l : TxsList) :
    (flatten l).Pairwise fun a b => a.nonce.toNat ≤ b.nonce.toNat := by
  have : Std.Total fun a b : Transaction => a.nonce.toNat ≤ b.nonce.toNat :=
    ⟨fun a b => Nat.le_total _ _⟩
  have : IsTrans Transaction fun a b => a.nonce.toNat ≤ b.nonce.toNat := ⟨fun a b c => Nat.le_trans⟩
  exact List.pairwise_insertionSort _ _

variable {last : Transaction}

theorem nonce_le_last {init : List Transaction} (h : flatten l = init ++ [last]) (htx : tx ∈ l.txs) : tx.nonce.toNat ≤ last.nonce.toNat := by
  have hmem := (perm_flatten l).mem_iff.mpr htx
  have hsorted := pairwise_flatten l
  rw [h] at hmem hsorted
  rcases List.mem_append.mp hmem with hinit | hlast
  · exact (List.pairwise_append.mp hsorted).2.2 tx hinit last (List.mem_singleton.mpr rfl)
  · rw [List.mem_singleton.mp hlast]

theorem perm_cap (threshold : Nat) (l : TxsList) :
    ((cap threshold l).1 ++ (cap threshold l).2.txs).Perm l.txs := by
  rw [cap]
  split
  · exact List.Perm.refl _
  · refine ((List.reverse_perm _).append_right _).trans ?_
    refine List.perm_append_comm.trans ?_
    rw [List.take_append_drop]
    exact perm_flatten l

theorem cap_eq (threshold : Nat) (l : TxsList) :
    (cap threshold l).2 = { l with txs := (cap threshold l).2.txs } := by
  rw [cap]
  split
  · rfl
  · rfl

theorem cap_zero (l : TxsList) : (cap 0 l).2.txs = [] := by
  rw [cap]
  split
  · rename_i h
    exact List.eq_nil_of_length_eq_zero (Nat.le_zero.mp h)
  · rfl

variable {start stop : Nat}

theorem IsRun.last_eq (h : IsRun start stop (nonces l.txs)) {init : List Transaction}
    (hlast : flatten l = init ++ [last]) :
    last.nonce.toNat + 1 = stop := by
  have hmem : last ∈ l.txs := (perm_flatten l).mem_iff.mp (by rw [hlast]; simp)
  have hbounds := (h.mem _).mp (mem_nonces_of_mem hmem)
  obtain ⟨tx, htx, hnonce⟩ := List.mem_map.mp ((h.mem (stop - 1)).mpr ⟨by omega, by omega⟩)
  have hle := nonce_le_last hlast htx
  omega

theorem exists_cap_eq (hne : l.txs ≠ []) : ∃ init last, flatten l = init ++ [last] ∧
    cap (l.txs.length - 1) l = ([last], { l with txs := init }) := by
  have hpos := List.length_pos_iff.mpr hne
  have hlength : (flatten l).length = l.txs.length := (perm_flatten l).length_eq
  have hflat : flatten l ≠ [] := by
    intro hnil
    rw [hnil, List.length_nil] at hlength
    omega
  refine ⟨(flatten l).dropLast, (flatten l).getLast hflat,
    (List.dropLast_concat_getLast hflat).symm, ?_⟩
  rw [cap, if_neg (by omega), ← hlength, List.drop_length_sub_one hflat, ← List.dropLast_eq_take]
  rfl

theorem IsRun.init {init : List Transaction} (h : IsRun start stop (nonces l.txs))
    (hlast : flatten l = init ++ [last]) :
    IsRun start last.nonce.toNat (nonces init) := by
  have hstop := IsRun.last_eq h hlast
  have hperm : (last :: init).Perm l.txs := by
    refine List.Perm.trans ?_ (perm_flatten l)
    rw [hlast]
    exact (List.perm_append_singleton last init).symm
  have hnonces := h.perm (hperm.map fun tx => tx.nonce.toNat)
  rw [List.map_cons] at hnonces
  obtain ⟨hnot, hnodup⟩ := List.nodup_cons.mp hnonces.nodup
  have hbounds := (hnonces.mem _).mp List.mem_cons_self
  refine ⟨hbounds.1, hnodup, fun k => ?_⟩
  have hk := hnonces.mem k
  rw [List.mem_cons] at hk
  constructor
  · intro hmem
    have hne : k ≠ last.nonce.toNat := by
      rintro rfl
      exact hnot hmem
    have := hk.mp (.inr hmem)
    omega
  · intro hbound
    rcases hk.mpr (by omega) with heq | hmem
    · omega
    · exact hmem

end Order

section Ready

theorem consecutive_spec (txs : List Transaction)
    (hsorted : txs.Pairwise fun a b => a.nonce.toNat < b.nonce.toNat) (next : UInt64)
    (hnext : ∀ tx ∈ txs, next.toNat ≤ tx.nonce.toNat) :
    consecutive next txs = txs.take (consecutive next txs).length ∧ nonces (consecutive next txs) =
        List.range' next.toNat (consecutive next txs).length ∧
      ∀ tx ∈ txs.drop (consecutive next txs).length,
        next.toNat + (consecutive next txs).length < tx.nonce.toNat := by
  induction txs generalizing next with
  | nil => exact ⟨rfl, rfl, fun tx h => absurd h List.not_mem_nil⟩
  | cons tx txs ih =>
    obtain ⟨hfirst, hrest⟩ := List.pairwise_cons.mp hsorted
    rw [consecutive]
    split
    · rename_i heq
      subst heq
      cases txs with
      | nil =>
        rw [consecutive]
        exact ⟨rfl, rfl, fun tx h => absurd h List.not_mem_nil⟩
      | cons second txs =>
        have hlt := hfirst second List.mem_cons_self
        have hsucc : (tx.nonce + 1).toNat = tx.nonce.toNat + 1 := by
          have := second.nonce.toNat_lt
          rw [UInt64.toNat_add, UInt64.toNat_one, Nat.mod_eq_of_lt (by omega)]
        obtain ⟨htake, hnonces, hdrop⟩ := ih hrest (tx.nonce + 1) fun other hother => by
          have := hfirst other hother
          omega
        rw [hsucc] at hnonces hdrop
        refine ⟨?_, ?_, fun other hother => ?_⟩
        · rw [List.length_cons, List.take_succ_cons, ← htake]
        · rw [nonces, List.map_cons, ← nonces, hnonces, List.length_cons, List.range'_succ]
        · have := hdrop other hother
          rw [List.length_cons]
          omega
    · rename_i hne
      refine ⟨rfl, rfl, fun other hother => ?_⟩
      have hle := hnext tx List.mem_cons_self
      have hlt : next.toNat < tx.nonce.toNat :=
        Nat.lt_of_le_of_ne hle fun h => hne (UInt64.toNat_inj.mp h.symm)
      rcases List.mem_cons.mp hother with rfl | hother
      · exact hlt
      · exact hlt.trans (hfirst other hother)

theorem ready_spec {l : TxsList} (hnodup : (nonces l.txs).Nodup) (start : UInt64) :
    (ready start l = ([], l) ∧ ∀ tx ∈ l.txs, start.toNat < tx.nonce.toNat) ∨
      ∃ first count, 0 < count ∧ first ≤ start.toNat ∧
        nonces (ready start l).1 = List.range' first count ∧
        (ready start l).2 = { l with txs := (ready start l).2.txs } ∧
        ((ready start l).1 ++ (ready start l).2.txs).Perm l.txs ∧
        ∀ tx ∈ (ready start l).2.txs, first + count < tx.nonce.toNat := by
  have hperm := perm_flatten l
  have hsorted : (flatten l).Pairwise fun a b => a.nonce.toNat < b.nonce.toNat := by
    have hdistinct : (flatten l).Pairwise fun a b => a.nonce.toNat ≠ b.nonce.toNat :=
      List.pairwise_map.mp ((hperm.map fun tx : Transaction => tx.nonce.toNat).nodup_iff.mpr hnodup)
    exact (pairwise_flatten l).imp₂ (fun a b hle hne => Nat.lt_of_le_of_ne hle hne) hdistinct
  rw [ready]
  split
  · rename_i hnil
    refine .inl ⟨rfl, fun tx htx => ?_⟩
    rw [hnil] at hperm
    exact absurd (hperm.mem_iff.mpr htx) List.not_mem_nil
  · rename_i tx txs hcons
    rw [hcons] at hperm hsorted
    have hfirst : ∀ other ∈ tx :: txs, tx.nonce.toNat ≤ other.nonce.toNat := by
      intro other hother
      rcases List.mem_cons.mp hother with rfl | hother
      · exact Nat.le_refl _
      · exact Nat.le_of_lt ((List.pairwise_cons.mp hsorted).1 other hother)
    split
    · rename_i hlt
      refine .inl ⟨rfl, fun other hother => ?_⟩
      exact Nat.lt_of_lt_of_le (UInt64.lt_iff_toNat_lt.mp hlt)
        (hfirst other (hperm.mem_iff.mpr hother))
    · rename_i hle
      obtain ⟨htake, hnonces, hdrop⟩ := consecutive_spec (tx :: txs) hsorted tx.nonce hfirst
      refine .inr ⟨tx.nonce.toNat, _, ?_, UInt64.le_iff_toNat_le.mp (UInt64.not_lt.mp hle),
        hnonces, rfl, ?_, hdrop⟩
      · rw [consecutive, if_pos rfl]
        exact Nat.succ_pos _
      · refine List.Perm.trans ?_ hperm
        dsimp only
        generalize (consecutive tx.nonce (tx :: txs)).length = n at htake ⊢
        rw [htake, List.take_append_drop]

end Ready

end N42.PoolLists
