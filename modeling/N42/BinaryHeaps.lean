import Mathlib.Data.List.Basic

/-!
Binary heaps in arrays: the children of a position `i` are at `2 * i + 1` and `2 * i + 2`.
The lemmas say which elements an operation leaves, not in which order.
-/

namespace N42.BinaryHeaps

variable {α : Type} (less : α → α → Bool)

def lessAt (h : Array α) (i j : Nat) : Bool :=
  match h[i]?, h[j]? with
  | some a, some b => less a b
  | _, _ => false

def up : Nat → Nat → Array α → Array α
  | 0, _, h => h
  | fuel + 1, j, h =>
    let i := (j - 1) / 2
    if i = j || !lessAt less h j i then h
    else up fuel i (h.swapIfInBounds i j)

/-- The child of a position that comes first, among the first `n` elements. -/
def firstChild (h : Array α) (i n : Nat) : Nat :=
  let j := 2 * i + 1
  if j + 1 < n && lessAt less h (j + 1) j then j + 1 else j

def down : Nat → Nat → Nat → Array α → Array α
  | 0, _, _, h => h
  | fuel + 1, i, n, h =>
    let j := firstChild less h i n
    if n ≤ 2 * i + 1 || !lessAt less h j i then h
    else down fuel j n (h.swapIfInBounds i j)

def init (h : Array α) : Array α :=
  (List.range (h.size / 2)).reverse.foldl (fun h i => down less h.size i h.size h) h

def push (h : Array α) (x : α) : Array α :=
  up less (h.size + 1) h.size (h.push x)

def pop (h : Array α) : Option (α × Array α) :=
  let n := h.size - 1
  let h := down less n 0 n (h.swapIfInBounds 0 n)
  h.back?.map fun x => (x, h.pop)

variable {less} {h : Array α}

theorem swapIfInBounds_perm (h : Array α) (i j : Nat) :
    (h.swapIfInBounds i j).toList.Perm h.toList := by
  rw [Array.swapIfInBounds]
  split
  · split
    · exact Array.perm_iff_toList_perm.mp (Array.swap_perm _ _)
    · exact List.Perm.refl _
  · exact List.Perm.refl _

theorem up_perm (fuel j : Nat) (h : Array α) : (up less fuel j h).toList.Perm h.toList := by
  induction fuel generalizing j h with
  | zero => exact List.Perm.refl _
  | succ fuel ih =>
    rw [up]
    split
    · exact List.Perm.refl _
    · exact (ih _ _).trans (swapIfInBounds_perm _ _ _)

theorem down_perm (fuel i n : Nat) (h : Array α) : (down less fuel i n h).toList.Perm h.toList := by
  induction fuel generalizing i h with
  | zero => exact List.Perm.refl _
  | succ fuel ih =>
    rw [down]
    split
    · exact List.Perm.refl _
    · exact (ih _ _).trans (swapIfInBounds_perm _ _ _)

theorem push_perm (h : Array α) (x : α) : (push less h x).toList.Perm (x :: h.toList) := by
  refine (up_perm _ _ _).trans ?_
  rw [Array.toList_push]
  exact List.perm_append_singleton x h.toList

theorem pop_perm {x : α} {rest : Array α} (hpop : pop less h = some (x, rest)) :
    h.toList.Perm (x :: rest.toList) := by
  obtain ⟨last, hlast, heq⟩ := Option.map_eq_some_iff.mp hpop
  obtain ⟨rfl, rfl⟩ := Prod.mk.inj heq
  have hperm : (down less (h.size - 1) 0 (h.size - 1)
      (h.swapIfInBounds 0 (h.size - 1))).toList.Perm h.toList :=
    (down_perm _ _ _ _).trans (swapIfInBounds_perm _ _ _)
  generalize down less (h.size - 1) 0 (h.size - 1)
    (h.swapIfInBounds 0 (h.size - 1)) = sifted at hlast hperm
  have hsplit : sifted.toList = sifted.pop.toList ++ [last] := by
    rw [Array.toList_pop]
    exact (List.dropLast_append_getLast? last (by rwa [Array.getLast?_toList])).symm
  refine hperm.symm.trans ?_
  rw [hsplit]
  exact List.perm_append_singleton last _

theorem getElem?_swapIfInBounds_of_ne (h : Array α) {i j k : Nat} (hi : k ≠ i) (hj : k ≠ j) :
    (h.swapIfInBounds i j)[k]? = h[k]? := by
  rw [Array.swapIfInBounds]
  split
  · split
    · rw [Array.getElem?_swap, if_neg hj.symm, if_neg hi.symm]
    · rfl
  · rfl

theorem getElem?_down (fuel i n : Nat) (h : Array α) {k : Nat} (hi : i < n ∨ n = 0) (hk : n ≤ k) :
    (down less fuel i n h)[k]? = h[k]? := by
  induction fuel generalizing i h with
  | zero => rfl
  | succ fuel ih =>
    rw [down]
    split
    · rfl
    · rename_i hcond
      simp only [Bool.or_eq_true, decide_eq_true_eq, not_or, Nat.not_le] at hcond
      have hchild : firstChild less h i n < n := by
        rw [firstChild]
        split
        · rename_i hsecond
          rw [Bool.and_eq_true, decide_eq_true_eq] at hsecond
          exact hsecond.1
        · exact hcond.1
      rw [ih _ _ (.inl hchild), getElem?_swapIfInBounds_of_ne]
      · omega
      · omega

theorem getElem?_zero_of_pop {x : α} {rest : Array α} (hpop : pop less h = some (x, rest)) :
    h[0]? = some x := by
  obtain ⟨last, hlast, heq⟩ := Option.map_eq_some_iff.mp hpop
  obtain ⟨rfl, -⟩ := Prod.mk.inj heq
  have hsize : (down less (h.size - 1) 0 (h.size - 1)
      (h.swapIfInBounds 0 (h.size - 1))).size = h.size := by
    have hdown : (down less (h.size - 1) 0 (h.size - 1)
        (h.swapIfInBounds 0 (h.size - 1))).toList.Perm
          (h.swapIfInBounds 0 (h.size - 1)).toList := down_perm _ _ _ _
    have hperm := (hdown.trans (swapIfInBounds_perm h 0 (h.size - 1))).length_eq
    rwa [Array.length_toList, Array.length_toList] at hperm
  rw [Array.back?, hsize, getElem?_down _ _ _ _ (by omega) (Nat.le_refl _)] at hlast
  rw [← hlast, Array.swapIfInBounds]
  have hpos : 0 < h.size := by
    by_contra hzero
    rw [Array.getElem?_eq_none (by simp; omega)] at hlast
    cases hlast
  rw [dif_pos hpos, dif_pos (by omega : h.size - 1 < h.size), Array.getElem?_swap]
  simp [hpos]

theorem pop_eq_none_iff : pop less h = none ↔ h.toList = [] := by
  have hperm : (down less (h.size - 1) 0 (h.size - 1)
      (h.swapIfInBounds 0 (h.size - 1))).toList.Perm h.toList :=
    (down_perm _ _ _ _).trans (swapIfInBounds_perm _ _ _)
  rw [pop, Option.map_eq_none_iff, ← Array.getLast?_toList, List.getLast?_eq_none_iff]
  constructor
  · intro hnil
    exact (hnil ▸ hperm).nil_eq.symm
  · intro hnil
    exact (hnil ▸ hperm).eq_nil

end N42.BinaryHeaps
