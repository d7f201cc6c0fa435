import Mathlib
import N42.ChainTypes
import N42.FallibleRuns

/-!
`BestPeers`: the height up to which the initial sync asks for blocks, and the peers that it
asks.  `Connected` lists the peers in any order, so what holds for every order of the list
holds for every outcome of the sort, which is not stable.
-/

namespace N42.BestPeers

open ChainTypes

variable {π : Type}

def sortedPeers (ours : Uint256) (heights : List (π × Uint256)) : List (π × Uint256) :=
  (heights.filter fun e => ours < e.2).insertionSort fun e e' => e'.2 ≤ e.2

/-- The connected peers come with the heights that they have reported.  A peer without a
chain state is dereferenced. -/
def bestPeers (wantPeers : Nat) (ours : Uint256) (connected : List (π × Option Uint256)) :
    Option (Uint256 × List π) := do
  let heights ← connected.mapM fun e => e.2.map fun height => (e.1, height)
  let potential := (sortedPeers ours heights).take wantPeers
  match potential.getLast? with
  | none => some (0, [])
  | some last => some (last.2, potential.map Prod.fst)

def reporting (p : Uint256 → Bool) (connected : List (π × Option Uint256)) : Nat :=
  connected.countP fun e => e.2.any p

/-- The target is the largest height above ours that enough peers report, or the lowest one
above ours if there are not enough; all peers that are returned report at least the target. -/
structure Serves (w : Nat) (ours : Uint256) (connected : List (π × Option Uint256))
    (target : Uint256) (peers : List π) : Prop where
  length : peers.length = min w (reporting (ours < ·) connected)
  served : ∀ p ∈ peers, ∃ height, (p, some height) ∈ connected ∧ target ≤ height
  enough : w ≤ reporting (ours < ·) connected →
    IsGreatest {height | ours < height ∧ w ≤ reporting (height ≤ ·) connected} target
  lacking : 0 < reporting (ours < ·) connected → reporting (ours < ·) connected < w →
    IsLeast {height | ours < height ∧ ∃ p, (p, some height) ∈ connected} target

section Sorting

variable {ours : Uint256} {heights : List (π × Uint256)}

theorem mem_sortedPeers {e : π × Uint256} :
    e ∈ sortedPeers ours heights ↔ e ∈ heights ∧ ours < e.2 := by
  rw [sortedPeers, List.mem_insertionSort, List.mem_filter, decide_eq_true_eq]

theorem pairwise_sortedPeers (ours : Uint256) (heights : List (π × Uint256)) :
    (sortedPeers ours heights).Pairwise fun e e' => e'.2 ≤ e.2 := by
  have : Std.Total fun e e' : π × Uint256 => e'.2 ≤ e.2 := ⟨fun e e' => BitVec.le_total e'.2 e.2⟩
  have : IsTrans (π × Uint256) fun e e' => e'.2 ≤ e.2 := ⟨fun _ _ _ h h' => BitVec.le_trans h' h⟩
  exact List.pairwise_insertionSort _ _

theorem countP_sortedPeers (p : Uint256 → Bool) (hp : ∀ height, p height → ours < height) :
    (sortedPeers ours heights).countP (fun e => p e.2) = heights.countP fun e => p e.2 := by
  rw [sortedPeers, (List.perm_insertionSort _ _).countP_eq, List.countP_filter]
  congr 1
  funext e
  cases h : p e.2 with
  | false => rfl
  | true => simp [hp e.2 h]

end Sorting

section Heights

def reported (heights : List (π × Uint256)) : List (π × Option Uint256) :=
  heights.map fun e => (e.1, some e.2)

theorem eq_reported {connected : List (π × Option Uint256)} {heights : List (π × Uint256)}
    (h : (connected.mapM fun e => e.2.map fun height => (e.1, height)) = some heights) :
    connected = reported heights := by
  rw [FallibleRuns.mapM_eq_some_iff] at h
  induction h with
  | nil => rfl
  | cons hhead _ ih =>
    obtain ⟨height, hheight, rfl⟩ := Option.map_eq_some_iff.mp hhead
    rw [ih, reported, reported, List.map_cons, ← hheight]

theorem mem_reported {heights : List (π × Uint256)} {p : π} {height : Uint256} :
    (p, some height) ∈ reported heights ↔ (p, height) ∈ heights := by
  simp [reported]

theorem reporting_reported (p : Uint256 → Bool) (heights : List (π × Uint256)) :
    reporting p (reported heights) = heights.countP fun e => p e.2 := by
  rw [reporting, reported, List.countP_map]
  rfl

theorem reporting_above (ours : Uint256) (heights : List (π × Uint256)) :
    reporting (ours < ·) (reported heights) = (sortedPeers ours heights).length := by
  rw [reporting_reported, ← countP_sortedPeers _ (fun _ h => of_decide_eq_true h),
    List.countP_eq_length]
  intro e he
  exact decide_eq_true (mem_sortedPeers.mp he).2

end Heights

/-- The peers up to the last one that is kept report at least its height, and those behind it
at most that. -/
theorem serves_of_getLast {w : Nat} {ours : Uint256} {heights : List (π × Uint256)}
    {last : π × Uint256} (h : ((sortedPeers ours heights).take w).getLast? = some last) :
    Serves w ours (reported heights) last.2 (((sortedPeers ours heights).take w).map Prod.fst) := by
  obtain ⟨init, hinit⟩ := List.getLast?_eq_some_iff.mp h
  have hsplit : sortedPeers ours heights =
      (init ++ [last]) ++ (sortedPeers ours heights).drop w := by
    rw [← hinit, List.take_append_drop]
  have hpairs := pairwise_sortedPeers ours heights
  rw [hsplit, List.pairwise_append, List.pairwise_append] at hpairs
  obtain ⟨⟨-, -, hbefore⟩, -, hbehind⟩ := hpairs
  have hat : ∀ e ∈ init ++ [last], last.2 ≤ e.2 := by
    intro e he
    rcases List.mem_append.mp he with he | he
    · exact hbefore e he last List.mem_cons_self
    · rw [List.mem_singleton.mp he]
      exact BitVec.le_refl _
  have hmem : ∀ e ∈ init ++ [last], e ∈ heights ∧ ours < e.2 := by
    intro e he
    rw [← hinit] at he
    exact mem_sortedPeers.mp (List.mem_of_mem_take he)
  have hlast := hmem last (by simp)
  have habove := reporting_above ours heights
  have hcounted : ∀ height, ours < height → reporting (height ≤ ·) (reported heights) =
      (sortedPeers ours heights).countP fun e => height ≤ e.2 := by
    intro height hours
    rw [reporting_reported]
    refine (countP_sortedPeers (height ≤ ·) fun other hother => ?_).symm
    have hle := of_decide_eq_true hother
    rw [BitVec.le_def] at hle
    rw [BitVec.lt_def] at hours ⊢
    omega
  have hlength : (init ++ [last]).length = min w (sortedPeers ours heights).length := by
    rw [← hinit, List.length_take]
  rw [hinit]
  refine ⟨?_, ?_, ?_, ?_⟩
  · rw [List.length_map, hlength, habove]
  · intro p hp
    obtain ⟨e, he, rfl⟩ := List.mem_map.mp hp
    exact ⟨e.2, mem_reported.mpr (hmem e he).1, hat e he⟩
  · intro hw
    rw [habove] at hw
    rw [Nat.min_eq_left hw] at hlength
    refine ⟨⟨hlast.2, ?_⟩, ?_⟩
    · rw [hcounted _ hlast.2, hsplit, List.countP_append, ← hlength]
      refine Nat.le_add_right_of_le (List.countP_eq_length.mpr ?_).ge
      exact fun e he => decide_eq_true (hat e he)
    · rintro height ⟨hours, hcount⟩
      rw [hcounted height hours, hsplit, List.countP_append, List.countP_append] at hcount
      by_contra hgreater
      have hnone : ∀ e : π × Uint256, e.2 ≤ last.2 → ¬ decide (height ≤ e.2) = true := by
        intro e hle hheight
        exact hgreater (BitVec.le_trans (of_decide_eq_true hheight) hle)
      have hlastNone : [last].countP (fun e => decide (height ≤ e.2)) = 0 := by
        rw [List.countP_eq_zero]
        intro e he
        rw [List.mem_singleton.mp he]
        exact hnone last (BitVec.le_refl _)
      have hdropNone : ((sortedPeers ours heights).drop w).countP
          (fun e => decide (height ≤ e.2)) = 0 := by
        rw [List.countP_eq_zero]
        exact fun e he => hnone e (hbehind last (by simp) e he)
      have hinitCount := List.countP_le_length (p := fun e => decide (height ≤ e.2)) (l := init)
      rw [List.length_append, List.length_singleton] at hlength
      omega
  · intro _ hfew
    rw [habove] at hfew
    refine ⟨⟨hlast.2, last.1, mem_reported.mpr hlast.1⟩, ?_⟩
    rintro height ⟨hours, p, hp⟩
    refine hat (p, height) ?_
    rw [← hinit, List.take_of_length_le hfew.le]
    exact mem_sortedPeers.mpr ⟨mem_reported.mp hp, hours⟩

/-- `BestPeers` serves its purpose if and only if every connected peer has a chain state; with
one that has none it panics. -/
theorem bestPeers_serves_iff (w : Nat) (hw : 1 ≤ w) (ours : Uint256)
    (connected : List (π × Option Uint256)) :
    (∃ target peers, bestPeers w ours connected = some (target, peers) ∧
      Serves w ours connected target peers) ↔ ∀ e ∈ connected, e.2 ≠ none := by
  constructor
  · rintro ⟨target, peers, hbest, -⟩
    obtain ⟨heights, hheights, -⟩ := Option.bind_eq_some_iff.mp hbest
    rw [eq_reported hheights]
    intro e he
    obtain ⟨e', -, rfl⟩ := List.mem_map.mp he
    exact Option.some_ne_none _
  · intro hall
    obtain ⟨heights, hheights⟩ := Option.isSome_iff_exists.mp (FallibleRuns.isSome_mapM_iff.mpr
      fun e he => (Option.isSome_map ..).trans (Option.isSome_iff_ne_none.mpr (hall e he)))
    rw [bestPeers, hheights, eq_reported hheights]
    cases hlast : ((sortedPeers ours heights).take w).getLast? with
    | none =>
      have hnil : sortedPeers ours heights = [] := by
        rw [List.getLast?_eq_none_iff, List.take_eq_nil_iff] at hlast
        exact hlast.resolve_left (by omega)
      have hzero := reporting_above ours heights
      rw [hnil, List.length_nil] at hzero
      refine ⟨0, [], by simp [hlast], ?_, fun p hp => (by cases hp), ?_, ?_⟩
      · rw [hzero, Nat.min_zero, List.length_nil]
      · omega
      · omega
    | some last =>
      refine ⟨_, _, ?_, serves_of_getLast hlast⟩
      simp [hlast]

theorem bestPeers_serves_two :
    (∃ target peers, bestPeers 2 5 [(0, some 9), (1, some 7), (2, some 7), (3, some 4)] =
      some (target, peers) ∧
      Serves 2 5 [(0, some 9), (1, some 7), (2, some 7), (3, some 4)] target peers) ∧
    bestPeers 2 5 [(0, some 9), (1, some 7), (2, some 7), (3, some 4)] = some (7, [0, 1]) :=
  ⟨(bestPeers_serves_iff 2 (by decide) 5 _).mpr (by decide), by decide +kernel⟩

/-- A connected peer that has not sent its status yet. -/
theorem bestPeers_panics : bestPeers 1 5 [(0, some 9), (1, none)] = none := by
  decide +kernel

end N42.BestPeers
