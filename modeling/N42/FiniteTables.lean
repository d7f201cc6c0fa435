import Mathlib.Data.Finset.Sort
import Mathlib.Data.Finset.Union

/-!
Maps with finitely many keys that can be listed, and the members of a finite set in
ascending order.
-/

namespace N42.FiniteTables

structure Table (κ ν : Type) where
  lookup : κ → Option ν
  keys : Finset κ
  mem_keys : ∀ k, k ∈ keys ↔ (lookup k).isSome

namespace Table

variable {κ ν : Type}

def empty : Table κ ν where
  lookup _ := none
  keys := ∅
  mem_keys k := by simp

theorem ext_lookup {m n : Table κ ν} (h : m.lookup = n.lookup) : m = n := by
  obtain ⟨lookup, keys, hkeys⟩ := m
  obtain ⟨lookup', keys', hkeys'⟩ := n
  obtain rfl : lookup = lookup' := h
  have hsame : keys = keys' := by
    ext k
    rw [hkeys, hkeys']
  subst hsame
  rfl

variable [DecidableEq κ]

def insert (k : κ) (v : ν) (m : Table κ ν) : Table κ ν where
  lookup := Function.update m.lookup k (some v)
  keys := Insert.insert k m.keys
  mem_keys key := by
    by_cases h : key = k
    · simp [h]
    · simp [h, m.mem_keys]

def erase (k : κ) (m : Table κ ν) : Table κ ν where
  lookup := Function.update m.lookup k none
  keys := m.keys.erase k
  mem_keys key := by
    by_cases h : key = k
    · simp [h]
    · simp [h, m.mem_keys]

@[simp] theorem lookup_insert (k : κ) (v : ν) (m : Table κ ν) :
    (m.insert k v).lookup = Function.update m.lookup k (some v) :=
  rfl

@[simp] theorem lookup_erase (k : κ) (m : Table κ ν) :
    (m.erase k).lookup = Function.update m.lookup k none :=
  rfl

end Table

variable {α : Type} [LinearOrder α]

def ascending (s : Finset α) : List α :=
  Quot.liftOn s.val (fun list => list.insertionSort (· ≤ ·)) fun xs ys h => by
    have hperm : List.Perm (xs.insertionSort (· ≤ ·)) (ys.insertionSort (· ≤ ·)) :=
      ((List.perm_insertionSort _ xs).trans h).trans (List.perm_insertionSort _ ys).symm
    exact hperm.eq_of_pairwise' (List.pairwise_insertionSort _ xs)
      (List.pairwise_insertionSort _ ys)

end N42.FiniteTables
