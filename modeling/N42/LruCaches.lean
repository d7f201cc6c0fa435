import Mathlib.Data.List.Basic

/-!
Caches of bounded size that forget the entry used least recently.
-/

namespace N42.LruCaches

variable {κ ν : Type} [DecidableEq κ]

abbrev LruCache (κ ν : Type) := List (κ × ν)

namespace LruCache

/-- The value of a key; finding it moves its entry to the front. -/
def get (key : κ) (cache : LruCache κ ν) : Option ν × LruCache κ ν :=
  match cache.find? fun entry => entry.1 = key with
  | none => (none, cache)
  | some entry => (some entry.2, entry :: cache.filter fun other => other.1 ≠ key)

def contains (key : κ) (cache : LruCache κ ν) : Bool :=
  cache.any fun entry => entry.1 = key

def add (limit : Nat) (key : κ) (value : ν) (cache : LruCache κ ν) : LruCache κ ν :=
  ((key, value) :: cache.filter fun other => other.1 ≠ key).take limit

def remove (key : κ) (cache : LruCache κ ν) : LruCache κ ν :=
  cache.filter fun other => other.1 ≠ key

variable {cache : LruCache κ ν} {key : κ} {entry : κ × ν}

theorem mem_of_get_eq_some {value : ν} (h : (get key cache).1 = some value) :
    (key, value) ∈ cache := by
  rw [get] at h
  split at h
  · cases h
  · rename_i found hfind
    obtain rfl : found.1 = key := by simpa using List.find?_some hfind
    obtain rfl : found.2 = value := Option.some.inj h
    exact List.mem_of_find?_eq_some hfind

theorem mem_of_mem_get (h : entry ∈ (get key cache).2) : entry ∈ cache := by
  rw [get] at h
  split at h
  · exact h
  · rename_i found hfind
    rcases List.mem_cons.mp h with rfl | h
    · exact List.mem_of_find?_eq_some hfind
    · exact List.mem_of_mem_filter h

theorem mem_of_mem_add {limit : Nat} {value : ν} (h : entry ∈ add limit key value cache) :
    entry = (key, value) ∨ entry ∈ cache := by
  rcases List.mem_cons.mp (List.mem_of_mem_take h) with rfl | h
  · exact Or.inl rfl
  · exact Or.inr (List.mem_of_mem_filter h)

end LruCache

end N42.LruCaches
