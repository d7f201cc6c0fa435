import Mathlib.Data.List.Perm.Basic

/-!
Removing elements from a list while an index runs over it.
-/

namespace N42.IndexedRemoval

universe u

variable {α : Type u}

/-- The loop that walks over a list by index and removes what satisfies `p`.  After a
removal the index stays, since the next element has moved there. -/
def removeLoop (p : α → Bool) : Nat → Nat → List α → List α
  | 0, _, xs => xs
  | count + 1, i, xs =>
    match xs[i]? with
    | none => xs
    | some x =>
      if p x then removeLoop p count i (xs.eraseIdx i)
      else removeLoop p count (i + 1) xs

/-- With enough iterations for the elements from the index on, the loop filters them
and leaves the elements before the index alone. -/
theorem removeLoop_eq (p : α → Bool) (count i : Nat) (xs : List α)
    (hcount : xs.length ≤ count + i) :
    removeLoop p count i xs = xs.take i ++ (xs.drop i).filter fun x => !p x := by
  induction count generalizing i xs with
  | zero =>
    rw [List.drop_of_length_le (by omega), List.take_of_length_le (by omega)]
    simp [removeLoop]
  | succ count ih =>
    rw [removeLoop]
    cases hx : xs[i]? with
    | none =>
      have hlen := List.getElem?_eq_none_iff.mp hx
      rw [List.drop_of_length_le hlen, List.take_of_length_le hlen]
      simp
    | some x =>
      obtain ⟨hi, rfl⟩ := List.getElem?_eq_some_iff.mp hx
      have hdrop : xs.drop i = xs[i] :: xs.drop (i + 1) := List.drop_eq_getElem_cons hi
      cases hp : p xs[i] with
      | true =>
        have hlen := List.length_eraseIdx_of_lt hi
        have htake : (xs.eraseIdx i).take i = xs.take i := by
          rw [List.eraseIdx_eq_take_drop_succ,
            List.take_append_of_le_length (by simp; omega), List.take_take, Nat.min_self]
        have herase : (xs.eraseIdx i).drop i = xs.drop (i + 1) := by
          rw [List.eraseIdx_eq_take_drop_succ, List.drop_append_of_le_length (by simp; omega)]
          simp
        simp only [hp, if_true]
        rw [ih i _ (by omega), htake, herase, hdrop, List.filter_cons_of_neg (by simp [hp])]
      | false =>
        have htake : xs.take (i + 1) = xs.take i ++ [xs[i]] := List.take_succ_eq_append_getElem hi
        simp only [hp, Bool.false_eq_true, if_false]
        rw [ih (i + 1) xs (by omega), htake, hdrop,
          List.filter_cons_of_pos (by simp [hp]), List.append_assoc]
        rfl

theorem removeLoop_length (p : α → Bool) (xs : List α) :
    removeLoop p xs.length 0 xs = xs.filter fun x => !p x := by
  rw [removeLoop_eq p xs.length 0 xs (by omega)]
  simp

theorem countP_eraseIdx (q : α → Bool) {xs : List α} {i : Nat} {x : α}
    (hx : xs[i]? = some x) :
    xs.countP q = (xs.eraseIdx i).countP q + if q x then 1 else 0 := by
  obtain ⟨hi, rfl⟩ := List.getElem?_eq_some_iff.mp hx
  rw [← (List.getElem_cons_eraseIdx_perm hi).countP_eq, List.countP_cons]

end N42.IndexedRemoval
