import Mathlib.Data.Finmap
import Mathlib.Data.Finset.Sort

/-!
Finite maps as association lists in a given order of their keys, and back.
-/

namespace N42.FiniteMaps

universe u v

variable {α : Type u} {β : Type v} [DecidableEq α]

def entries (r : α → α → Prop) [DecidableRel r] [IsTrans α r] [Std.Antisymm r]
    [Std.Total r] (m : Finmap fun _ : α => β) : List (α × β) :=
  (m.keys.sort r).filterMap fun a => (m.lookup a).map fun b => (a, b)

abbrev sortedEntries [LinearOrder α] (m : Finmap fun _ : α => β) : List (α × β) :=
  entries (fun a b : α => a ≤ b) m

def insertAll (m : Finmap fun _ : α => β) (xs : List (α × β)) : Finmap fun _ : α => β :=
  xs.foldl (fun m x => m.insert x.1 x.2) m

variable {m : Finmap fun _ : α => β}

theorem lookup_insertAll_of_not_mem {xs : List (α × β)} {a : α} (h : a ∉ xs.map Prod.fst) :
    (insertAll m xs).lookup a = m.lookup a := by
  induction xs generalizing m with
  | nil => rfl
  | cons x xs ih =>
    simp only [List.map_cons, List.mem_cons, not_or] at h
    exact (ih h.2).trans (Finmap.lookup_insert_of_ne m h.1)

theorem lookup_insertAll_of_mem {xs : List (α × β)} {a : α} {b : β}
    (hnodup : (xs.map Prod.fst).Nodup) (h : (a, b) ∈ xs) :
    (insertAll m xs).lookup a = some b := by
  induction xs generalizing m with
  | nil => cases h
  | cons x xs ih =>
    rw [List.map_cons, List.nodup_cons] at hnodup
    rcases List.mem_cons.mp h with rfl | htail
    · exact (lookup_insertAll_of_not_mem hnodup.1).trans (Finmap.lookup_insert m)
    · exact ih hnodup.2 htail

variable (r : α → α → Prop) [DecidableRel r] [IsTrans α r] [Std.Antisymm r] [Std.Total r]

theorem mem_entries_iff {a : α} {b : β} : (a, b) ∈ entries r m ↔ m.lookup a = some b := by
  simp only [entries, List.mem_filterMap, Finset.mem_sort, Option.map_eq_some_iff, Prod.mk.injEq]
  constructor
  · rintro ⟨a', -, b', hlookup, rfl, rfl⟩
    exact hlookup
  · intro hlookup
    exact ⟨a, Finmap.mem_keys.mpr (Finmap.mem_iff.mpr ⟨b, hlookup⟩), b, hlookup, rfl, rfl⟩

theorem entries_keys (m : Finmap fun _ : α => β) : (entries r m).map Prod.fst = m.keys.sort r := by
  have hkey : ∀ a ∈ m.keys.sort r, ((m.lookup a).map fun b => (a, b)).map Prod.fst = some a := by
    intro a ha
    rw [Finset.mem_sort, Finmap.mem_keys, Finmap.mem_iff] at ha
    obtain ⟨b, hb⟩ := ha
    rw [hb]
    rfl
  rw [entries, List.map_filterMap, List.filterMap_congr hkey, List.filterMap_some]

theorem entries_nodup (m : Finmap fun _ : α => β) : ((entries r m).map Prod.fst).Nodup := by
  rw [entries_keys]
  exact Finset.sort_nodup _ _

theorem insertAll_entries (m : Finmap fun _ : α => β) : insertAll ∅ (entries r m) = m := by
  apply Finmap.ext_lookup
  intro a
  cases hlookup : m.lookup a with
  | some b =>
    exact lookup_insertAll_of_mem (entries_nodup r m) ((mem_entries_iff r).mpr hlookup)
  | none =>
    rw [lookup_insertAll_of_not_mem, Finmap.lookup_empty]
    rw [entries_keys, Finset.mem_sort, Finmap.mem_keys]
    exact Finmap.lookup_eq_none.mp hlookup

theorem foldl_update_apply {γ : Type v} (f : α → γ) (keys : List α) (value : γ) (a : α) :
    keys.foldl (fun g key => Function.update g key value) f a =
      if a ∈ keys then value else f a := by
  induction keys generalizing f with
  | nil => rfl
  | cons key keys ih =>
    rw [List.foldl_cons, ih]
    by_cases hkeys : a ∈ keys
    · simp [hkeys]
    · by_cases hkey : a = key
      · simp [hkey]
      · simp [hkeys, hkey]

end N42.FiniteMaps
