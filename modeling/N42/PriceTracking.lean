import N42.PriceHeaps

/-!
When the price heaps and the lookup agree: every remote transaction has one entry, and the
counter is the number of the other entries.
-/

namespace N42.PriceTracking

open ChainTypes Transactions PoolAdmission PoolReorg PoolSoundness
open BinaryHeaps PriceHeaps PriceHeaps.PricedList

def heapEntries (l : PricedList) : List Transaction :=
  l.urgent.toList ++ l.floating.toList

variable {lib : Primitives} {all : TxLookup} {l l' : PricedList} {tx : Transaction}
  {out gone : List Transaction} {hash : Hash}

theorem isLive_iff : isLive lib all tx = true ↔ ∃ r ∈ all.remotes, r.hash lib = tx.hash lib := by
  rw [isLive, getRemote, List.find?_isSome]
  simp only [decide_eq_true_eq]

section Heaps

theorem heapEntries_put (tx : Transaction) (l : PricedList) :
    (heapEntries (l.put tx false)).Perm (tx :: heapEntries l) :=
  (push_perm l.urgent tx).append_right _

theorem purge_spec (live : Transaction → Bool) (baseFee : Option Uint256) (fuel : Nat)
    (h : Array Transaction) (hfuel : h.size ≤ fuel) :
    ∃ stale, (stale ++ (purge live baseFee fuel h).1.toList).Perm h.toList ∧
      (∀ tx ∈ stale, live tx = false) ∧ (purge live baseFee fuel h).2 = stale.length ∧
      ∀ tx, (purge live baseFee fuel h).1[0]? = some tx → live tx = true := by
  induction fuel generalizing h with
  | zero =>
    have hempty : h = #[] := Array.eq_empty_of_size_eq_zero (Nat.le_zero.mp hfuel)
    subst hempty
    exact ⟨[], List.Perm.refl _, fun _ htx => absurd htx List.not_mem_nil, rfl,
      fun tx htx => by cases htx⟩
  | succ fuel ih =>
    rw [purge]
    cases hpop : pop (less baseFee) h with
    | none =>
      have hempty : h = #[] := Array.toList_eq_nil_iff.mp (pop_eq_none_iff.mp hpop)
      subst hempty
      exact ⟨[], List.Perm.refl _, fun _ htx => absurd htx List.not_mem_nil, rfl,
        fun tx htx => by cases htx⟩
    | some popped =>
      obtain ⟨root, rest⟩ := popped
      have hroot := getElem?_zero_of_pop hpop
      dsimp only
      split
      · rename_i hlive
        refine ⟨[], List.Perm.refl _, fun _ htx => absurd htx List.not_mem_nil, rfl,
          fun tx htx => ?_⟩
        rw [hroot] at htx
        exact Option.some.inj htx ▸ hlive
      · rename_i hstale
        have hperm := pop_perm hpop
        have hsize : rest.size ≤ fuel := by
          have := hperm.length_eq
          rw [List.length_cons, Array.length_toList, Array.length_toList] at this
          omega
        obtain ⟨stale, hsplit, hall, hcount, hnext⟩ := ih rest hsize
        refine ⟨root :: stale, ?_, ?_, ?_, hnext⟩
        · exact (hsplit.cons root).trans hperm.symm
        · exact List.forall_mem_cons.mpr ⟨Bool.eq_false_iff.mpr hstale, hall⟩
        · rw [hcount, List.length_cons]

end Heaps

section Evictions

theorem underpriced_spec (lib : Primitives) (all : TxLookup) (tx : Transaction) (l : PricedList) :
    ∃ stale, (stale ++ heapEntries (l.underpriced lib all tx).2).Perm (heapEntries l) ∧
      (∀ tx ∈ stale, isLive lib all tx = false) ∧
      (l.underpriced lib all tx).2.stales = l.stales - stale.length := by
  obtain ⟨stale, hperm, hstale, hcount, -⟩ :=
    purge_spec (isLive lib all) l.baseFee l.urgent.size l.urgent (Nat.le_refl _)
  rw [underpriced]
  dsimp only
  generalize purge (isLive lib all) l.baseFee l.urgent.size l.urgent = urgent at *
  split
  · obtain ⟨stale', hperm', hstale', hcount', -⟩ :=
      purge_spec (isLive lib all) none l.floating.size l.floating (Nat.le_refl _)
    generalize purge (isLive lib all) none l.floating.size l.floating = floating at *
    refine ⟨stale ++ stale', ?_, ?_, ?_⟩
    · refine List.Perm.trans ?_ (hperm.append hperm')
      change ((stale ++ stale') ++ (urgent.1.toList ++ floating.1.toList)).Perm _
      rw [List.append_assoc, List.append_assoc]
      exact List.Perm.append_left _ (List.perm_append_comm_assoc _ _ _)
    · exact List.forall_mem_append.mpr ⟨hstale, hstale'⟩
    · change l.stales - urgent.2 - floating.2 = _
      rw [hcount, hcount', List.length_append]
      omega
  · refine ⟨stale, ?_, hstale, ?_⟩
    · change (stale ++ (urgent.1.toList ++ l.floating.toList)).Perm _
      rw [← List.append_assoc]
      exact hperm.append_right _
    · change l.stales - urgent.2 = _
      rw [hcount]

/-- What rounds of `Discard` take out: live entries, which are dropped, and stale ones. -/
structure Taken (live : Transaction → Bool) (d d' : Discarding)
    (new stale : List Transaction) : Prop where
  drop : d'.drop = d.drop ++ new
  entries : (new ++ (stale ++ heapEntries d'.list)).Perm (heapEntries d.list)
  newLive : ∀ tx ∈ new, live tx = true
  noneLive : ∀ tx ∈ stale, live tx = false
  stales : d'.list.stales = d.list.stales - stale.length
  slots : d'.slots = d.slots - TxLookup.numSlots * new.length

variable {live : Transaction → Bool} {d d' d'' : Discarding}

theorem Taken.refl (live : Transaction → Bool) (d : Discarding) : Taken live d d [] [] where
  drop := (List.append_nil _).symm
  entries := List.Perm.refl _
  newLive := fun _ h => absurd h List.not_mem_nil
  noneLive := fun _ h => absurd h List.not_mem_nil
  stales := (Int.sub_zero _).symm
  slots := by simp

theorem Taken.trans {new stale new' stale' : List Transaction} (h : Taken live d d' new stale)
    (h' : Taken live d' d'' new' stale') : Taken live d d'' (new ++ new') (stale ++ stale') where
  drop := by rw [h'.drop, h.drop, List.append_assoc]
  entries := by
    refine List.Perm.trans ?_ h.entries
    rw [List.append_assoc, List.append_assoc]
    refine List.Perm.append_left _ ((List.perm_append_comm_assoc _ _ _).trans ?_)
    exact List.Perm.append_left _ h'.entries
  newLive := List.forall_mem_append.mpr ⟨h.newLive, h'.newLive⟩
  noneLive := List.forall_mem_append.mpr ⟨h.noneLive, h'.noneLive⟩
  stales := by rw [h'.stales, h.stales, List.length_append]; omega
  slots := by rw [h'.slots, h.slots, List.length_append, Nat.cast_add, Int.mul_add]; omega

def rounds (d : Discarding) : Nat :=
  2 * d.list.urgent.size + d.list.floating.size

theorem size_of_pop {baseFee : Option Uint256} {h rest : Array Transaction}
    (hpop : pop (less baseFee) h = some (tx, rest)) : h.size = rest.size + 1 := by
  have hlength := (pop_perm hpop).length_eq
  rwa [List.length_cons, Array.length_toList, Array.length_toList] at hlength

theorem size_push (baseFee : Option Uint256) (h : Array Transaction) (tx : Transaction) :
    (push (less baseFee) h tx).size = h.size + 1 := by
  have hlength := (push_perm h tx : (push (less baseFee) h tx).toList.Perm _).length_eq
  rwa [List.length_cons, Array.length_toList, Array.length_toList] at hlength

theorem step_spec (h : d.step live = some d') :
    ∃ new stale, Taken live d d' new stale ∧ rounds d' < rounds d := by
  rw [Discarding.step] at h
  split at h
  · cases h
  · split at h
    · obtain ⟨⟨tx, rest⟩, hpop, hd⟩ := Option.map_eq_some_iff.mp h
      have hperm := pop_perm hpop
      have hsize := size_of_pop hpop
      dsimp only at hd
      split at hd
      · subst hd
        refine ⟨[], [], { Taken.refl live d with entries := ?_ }, ?_⟩
        · refine ((push_perm d.list.floating tx).append_left _).trans ?_
          exact List.perm_middle.trans (hperm.symm.append_right _)
        · simp only [rounds, size_push]
          omega
      · rename_i hstale
        subst hd
        refine ⟨[], [tx], ⟨(List.append_nil _).symm, hperm.symm.append_right _,
          fun _ h => absurd h List.not_mem_nil, ?_, rfl, by simp⟩, ?_⟩
        · exact List.forall_mem_singleton.mpr (Bool.eq_false_iff.mpr hstale)
        · simp only [rounds]
          omega
    · obtain ⟨⟨tx, rest⟩, hpop, hd⟩ := Option.map_eq_some_iff.mp h
      have hperm := pop_perm hpop
      have hsize := size_of_pop hpop
      have hentries : (tx :: (d.list.urgent.toList ++ rest.toList)).Perm (heapEntries d.list) :=
        List.perm_middle.symm.trans (hperm.symm.append_left _)
      dsimp only at hd
      split at hd
      · rename_i hlive
        subst hd
        refine ⟨[tx], [], ⟨rfl, hentries, List.forall_mem_singleton.mpr hlive,
          fun _ h => absurd h List.not_mem_nil, (Int.sub_zero _).symm, by simp⟩, ?_⟩
        simp only [rounds]
        omega
      · rename_i hstale
        subst hd
        refine ⟨[], [tx], ⟨(List.append_nil _).symm, hentries, fun _ h => absurd h List.not_mem_nil,
          List.forall_mem_singleton.mpr (Bool.eq_false_iff.mpr hstale), rfl, by simp⟩, ?_⟩
        simp only [rounds]
        omega

theorem step_eq_none (h : d.step live = none) : d.slots ≤ 0 ∨ heapEntries d.list = [] := by
  rw [Discarding.step] at h
  split at h
  · rename_i hslots
    exact .inl hslots
  · split at h
    · rename_i hlarge
      have hempty := pop_eq_none_iff.mp (Option.map_eq_none_iff.mp h)
      have hurgent : d.list.urgent.size = 0 := by rw [← Array.length_toList, hempty]; rfl
      rw [hurgent] at hlarge
      exact absurd hlarge (by simp)
    · rename_i hsmall
      have hempty := pop_eq_none_iff.mp (Option.map_eq_none_iff.mp h)
      have hfloating : d.list.floating.size = 0 := by rw [← Array.length_toList, hempty]; rfl
      have hurgent : d.list.urgent.size = 0 := by simpa [hfloating, floatingRatio] using hsmall
      refine .inr ?_
      rw [heapEntries, hempty, Array.eq_empty_of_size_eq_zero hurgent]
      rfl

theorem run_spec (live : Transaction → Bool) (fuel : Nat) (d : Discarding)
    (hfuel : rounds d ≤ fuel) :
    (∃ new stale, Taken live d (d.run live fuel) new stale) ∧
      ((d.run live fuel).slots ≤ 0 ∨ heapEntries (d.run live fuel).list = []) := by
  induction fuel generalizing d with
  | zero =>
    refine ⟨⟨[], [], Taken.refl live d⟩, .inr ?_⟩
    have hsize : d.list.urgent.size = 0 ∧ d.list.floating.size = 0 := by
      rw [rounds] at hfuel
      omega
    rw [Discarding.run, heapEntries, Array.eq_empty_of_size_eq_zero hsize.1,
      Array.eq_empty_of_size_eq_zero hsize.2]
    rfl
  | succ fuel ih =>
    rw [Discarding.run]
    cases hstep : d.step live with
    | none => exact ⟨⟨[], [], Taken.refl live d⟩, step_eq_none hstep⟩
    | some next =>
      obtain ⟨new, stale, htaken, hless⟩ := step_spec hstep
      obtain ⟨⟨new', stale', htaken'⟩, hend⟩ := ih next (by omega)
      exact ⟨⟨_, _, htaken.trans htaken'⟩, hend⟩

theorem heapEntries_foldl_put (txs : List Transaction) (l : PricedList) :
    (heapEntries (txs.foldl (fun l tx => l.put tx false) l)).Perm (txs ++ heapEntries l) ∧
      (txs.foldl (fun l tx => l.put tx false) l).stales = l.stales := by
  induction txs generalizing l with
  | nil => exact ⟨List.Perm.refl _, rfl⟩
  | cons tx txs ih =>
    obtain ⟨hperm, hstales⟩ := ih (l.put tx false)
    refine ⟨hperm.trans ?_, hstales⟩
    exact ((heapEntries_put tx l).append_left _).trans List.perm_middle

theorem discard_spec (lib : Primitives) (all : TxLookup) (slots : Int) (force : Bool)
    (l : PricedList) :
    ∃ stale, ((l.discard lib all slots force).1.1 ++
        (stale ++ heapEntries (l.discard lib all slots force).2)).Perm (heapEntries l) ∧
      (∀ tx ∈ (l.discard lib all slots force).1.1, isLive lib all tx = true) ∧
      (∀ tx ∈ stale, isLive lib all tx = false) ∧
      (l.discard lib all slots force).2.stales = l.stales - stale.length ∧
      ((l.discard lib all slots force).1.2 = true → force = false →
        slots ≤ TxLookup.numSlots * (l.discard lib all slots force).1.1.length) := by
  obtain ⟨⟨new, stale, htaken⟩, -⟩ := run_spec (isLive lib all)
    (2 * l.urgent.size + l.floating.size) ⟨l, [], slots⟩ (Nat.le_refl _)
  have hdrop := htaken.drop
  rw [List.nil_append] at hdrop
  rw [PricedList.discard]
  split
  · refine ⟨stale, ?_, fun _ h => absurd h List.not_mem_nil, htaken.noneLive, ?_,
      fun h => by cases h⟩
    · refine List.Perm.trans ?_ htaken.entries
      refine (List.Perm.append_left _ (heapEntries_foldl_put _ _).1).trans ?_
      rw [hdrop]
      exact List.perm_append_comm_assoc _ _ _
    · rw [(heapEntries_foldl_put _ _).2, htaken.stales]
  · rename_i hroom
    rw [hdrop]
    refine ⟨stale, htaken.entries, htaken.newLive, htaken.noneLive, htaken.stales,
      fun _ hforce => ?_⟩
    have hslots := htaken.slots
    have hdone : ¬ 0 < ((Discarding.run (isLive lib all) (2 * l.urgent.size + l.floating.size)
      ⟨l, [], slots⟩).slots) := fun hlt => hroom ⟨hlt, hforce⟩
    dsimp only at hslots
    change slots ≤ TxLookup.numSlots * new.length
    omega

theorem discard_fails {slots : Int} {force : Bool}
    (h : (l.discard lib all slots force).1.2 = false) :
    (l.discard lib all slots force).1.1 = [] := by
  rw [PricedList.discard] at h ⊢
  split at h
  · rename_i hroom
    rw [if_pos hroom]
  · cases h

end Evictions

end N42.PriceTracking
