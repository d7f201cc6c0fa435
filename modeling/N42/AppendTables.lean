import Mathlib.Data.List.Basic
import Mathlib.Order.Lattice

/-!
Tables that are only appended to: an entry is accepted if it is greater than every entry
before it.
-/

namespace N42.AppendTables

variable {κ : Type*} [LinearOrder κ]

@[ext] structure AppendTable (κ : Type*) [LinearOrder κ] where
  keys : List κ
  sorted : keys.Pairwise (· > ·)

namespace AppendTable

def empty : AppendTable κ :=
  ⟨[], List.Pairwise.nil⟩

def Below (t : AppendTable κ) (key : κ) : Prop :=
  ∀ last ∈ t.keys.head?, last < key

instance (t : AppendTable κ) (key : κ) : Decidable (t.Below key) :=
  inferInstanceAs (Decidable (∀ last ∈ t.keys.head?, last < key))

theorem Below.lt {t : AppendTable κ} {key k : κ} (h : t.Below key) (hk : k ∈ t.keys) : k < key := by
  obtain ⟨keys, sorted⟩ := t
  cases keys with
  | nil => exact absurd hk List.not_mem_nil
  | cons last rest =>
    have hlast : last < key := h last rfl
    rcases List.mem_cons.mp hk with rfl | hrest
    · exact hlast
    · exact lt_trans ((List.pairwise_cons.mp sorted).1 k hrest) hlast

def push (key : κ) (t : AppendTable κ) (h : t.Below key) : AppendTable κ :=
  ⟨key :: t.keys, List.pairwise_cons.mpr ⟨fun _ hk => h.lt hk, t.sorted⟩⟩

def append (key : κ) (t : AppendTable κ) : Option (AppendTable κ) :=
  if h : t.Below key then some (t.push key h) else none

def appendAll (keys : List κ) (t : AppendTable κ) : Option (AppendTable κ) :=
  keys.foldlM (fun t key => t.append key) t

@[simp] theorem appendAll_nil (t : AppendTable κ) : t.appendAll [] = some t :=
  rfl

theorem append_eq_some_iff {key : κ} {t u : AppendTable κ} :
    t.append key = some u ↔ t.Below key ∧ u.keys = key :: t.keys := by
  unfold append
  by_cases h : t.Below key
  · rw [dif_pos h]
    constructor
    · intro hu
      cases hu
      exact ⟨h, rfl⟩
    · rintro ⟨-, hkeys⟩
      exact congrArg some (AppendTable.ext hkeys.symm)
  · simp [h]

theorem appendAll_eq_some_iff {keys : List κ} {t u : AppendTable κ}
    (hkeys : keys.Pairwise (· < ·)) :
    t.appendAll keys = some u ↔
      (∀ first ∈ keys.head?, t.Below first) ∧ u.keys = keys.reverse ++ t.keys := by
  induction keys generalizing t with
  | nil => simp [AppendTable.ext_iff, eq_comm]
  | cons key rest ih =>
    obtain ⟨hfirst, hrest⟩ := List.pairwise_cons.mp hkeys
    have hcons : t.appendAll (key :: rest) = (t.append key).bind (appendAll rest) := rfl
    rw [hcons, Option.bind_eq_some_iff]
    constructor
    · rintro ⟨next, hnext, hu⟩
      obtain ⟨hbelow, hnext⟩ := append_eq_some_iff.mp hnext
      obtain ⟨-, hu⟩ := (ih hrest).mp hu
      refine ⟨fun first h => Option.some_inj.mp h ▸ hbelow, ?_⟩
      rw [hu, hnext, List.reverse_cons, List.append_assoc]
      rfl
    · rintro ⟨hbelow, hu⟩
      have hkey : t.Below key := hbelow key rfl
      refine ⟨t.push key hkey, append_eq_some_iff.mpr ⟨hkey, rfl⟩, (ih hrest).mpr ⟨?_, ?_⟩⟩
      · intro first hmem last hlast
        obtain rfl := Option.some_inj.mp hlast
        exact hfirst first (List.mem_of_mem_head? hmem)
      · rw [hu, push, List.reverse_cons, List.append_assoc]
        rfl

theorem appendAll_isSome_iff {keys : List κ} {t : AppendTable κ}
    (hkeys : keys.Pairwise (· < ·)) :
    (t.appendAll keys).isSome ↔ ∀ first ∈ keys.head?, t.Below first := by
  rw [Option.isSome_iff_exists]
  constructor
  · rintro ⟨u, hu⟩
    exact ((appendAll_eq_some_iff hkeys).mp hu).1
  · intro h
    have hsorted : (keys.reverse ++ t.keys).Pairwise (· > ·) := by
      refine List.pairwise_append.mpr ⟨List.pairwise_reverse.mpr hkeys, t.sorted, ?_⟩
      intro key hkey k hk
      cases keys with
      | nil => simp at hkey
      | cons first rest =>
        have hlt : k < first := (h first rfl).lt hk
        rcases List.mem_cons.mp (List.mem_reverse.mp hkey) with rfl | hrest
        · exact hlt
        · exact lt_trans hlt ((List.pairwise_cons.mp hkeys).1 key hrest)
    exact ⟨⟨_, hsorted⟩, (appendAll_eq_some_iff hkeys).mpr ⟨h, rfl⟩⟩

end AppendTable

end N42.AppendTables
