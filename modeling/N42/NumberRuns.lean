import Mathlib.Data.List.Nodup

/-!
Lists of numbers that make up a run without gaps, in any order.
-/

namespace N42.NumberRuns

/-- The numbers from `start` up to `stop`, each of them once. -/
structure IsRun (start stop : Nat) (xs : List Nat) : Prop where
  le : start ≤ stop
  nodup : xs.Nodup
  mem : ∀ k, k ∈ xs ↔ start ≤ k ∧ k < stop

variable {start stop : Nat} {xs ys : List Nat}

theorem isRun_nil (start : Nat) : IsRun start start [] where
  le := Nat.le_refl start
  nodup := List.nodup_nil
  mem k := by
    constructor
    · exact fun h => absurd h List.not_mem_nil
    · omega

section

variable (h : IsRun start stop xs)
include h

theorem IsRun.perm (hperm : ys.Perm xs) : IsRun start stop ys where
  le := h.le
  nodup := hperm.nodup_iff.mpr h.nodup
  mem k := by rw [hperm.mem_iff, h.mem]

theorem IsRun.filter_lt {k : Nat} (hstart : start ≤ k) :
    IsRun start (min k stop) (xs.filter fun x => x < k) where
  le := Nat.le_min.mpr ⟨hstart, h.le⟩
  nodup := h.nodup.filter _
  mem x := by
    rw [List.mem_filter, h.mem, decide_eq_true_eq]
    omega

theorem IsRun.filter_ge {k : Nat} (hstart : start ≤ k) :
    IsRun k (max k stop) (xs.filter fun x => k ≤ x) where
  le := Nat.le_max_left k stop
  nodup := h.nodup.filter _
  mem x := by
    rw [List.mem_filter, h.mem, decide_eq_true_eq]
    omega

theorem IsRun.eq_nil_iff : xs = [] ↔ start = stop := by
  have hle := h.le
  constructor
  · rintro rfl
    have hnot := (h.mem start).not.mp List.not_mem_nil
    omega
  · rintro rfl
    refine List.eq_nil_iff_forall_not_mem.mpr fun k hk => ?_
    have := (h.mem k).mp hk
    omega

end

theorem isRun_range' (start count : Nat) :
    IsRun start (start + count) (List.range' start count) where
  le := Nat.le_add_right start count
  nodup := List.nodup_range'
  mem k := by
    rw [List.mem_range'_1]

theorem IsRun.append {mid : Nat} (h : IsRun start mid xs) (h' : IsRun mid stop ys) :
    IsRun start stop (xs ++ ys) where
  le := Nat.le_trans h.le h'.le
  nodup := by
    refine List.nodup_append.mpr ⟨h.nodup, h'.nodup, fun x hx y hy heq => ?_⟩
    have hlow := (h.mem x).mp hx
    have hhigh := (h'.mem y).mp hy
    omega
  mem k := by
    have hle := h.le
    have hle' := h'.le
    rw [List.mem_append, h.mem, h'.mem]
    omega

def Anchored (start : Nat) (xs : List Nat) : Prop :=
  start ∈ xs → ∃ stop, IsRun start stop (xs.filter fun x => start ≤ x)

theorem IsRun.anchored (h : IsRun start stop xs) (k : Nat) : Anchored k xs := by
  intro hk
  exact ⟨_, h.filter_ge ((h.mem k).mp hk).1⟩

theorem Anchored.perm (h : Anchored start xs) (hperm : ys.Perm xs) : Anchored start ys := by
  intro hmem
  obtain ⟨stop, hrun⟩ := h (hperm.mem_iff.mp hmem)
  exact ⟨stop, hrun.perm (hperm.filter _)⟩

end N42.NumberRuns
