import Mathlib.Logic.Function.Basic
import Mathlib.Order.Interval.Finset.Nat

/-!
A window onto a history of numbered entries.  The window may lag behind a change of
its length by one entry, and only at the boundary.
-/

namespace N42.SlidingWindow

universe u

variable {α : Type u} {history window : Nat → Option α} {now limit limit' : Nat}

def evict (now limit : Nat) (window : Nat → Option α) : Nat → Option α :=
  fun i => if i + limit = now then none else window i

structure Tracks (history window : Nat → Option α) (now limit : Nat) : Prop where
  recent : ∀ i, now + 1 < i + limit → window i = history i
  boundary : ∀ i, i + limit = now + 1 → window i = history i ∨ window i = none
  stale : ∀ i, i + limit ≤ now → window i = none

theorem Tracks.evict_eq (h : Tracks history window now limit) :
    evict (now + 1) limit window = fun i => if now + 1 < i + limit then history i else none := by
  funext i
  rcases Nat.lt_trichotomy (i + limit) (now + 1) with hlt | heq | hgt
  · rw [evict, if_neg (by omega), if_neg (by omega)]
    exact h.stale i (by omega)
  · rw [evict, if_pos heq, if_neg (by omega)]
  · rw [evict, if_neg (by omega), if_pos hgt]
    exact h.recent i hgt

theorem Tracks.history_eq {i : Nat} {a : α} (h : Tracks history window now limit)
    (hwindow : window i = some a) : history i = some a := by
  rcases Nat.lt_trichotomy (i + limit) (now + 1) with hlt | heq | hgt
  · rw [h.stale i (by omega)] at hwindow
    cases hwindow
  · rcases h.boundary i heq with hsome | hnone
    · rw [← hsome, hwindow]
    · rw [hnone] at hwindow
      cases hwindow
  · rw [← h.recent i hgt, hwindow]

theorem card_recent_lt [DecidableEq α] {values : Finset α}
    (hpast : ∀ i, now < i → history i = none) (hlimit : 0 < limit)
    (hrecent : ∀ a ∈ values, ∃ i, now + 1 < i + limit ∧ history i = some a) :
    values.card < limit := by
  have hsubset : values.image some ⊆ (Finset.Icc (now + 2 - limit) now).image history := by
    intro x hx
    obtain ⟨a, ha, rfl⟩ := Finset.mem_image.mp hx
    obtain ⟨i, hi, hhistory⟩ := hrecent a ha
    have hle : i ≤ now := by
      by_contra hlate
      rw [hpast i (by omega)] at hhistory
      cases hhistory
    refine Finset.mem_image.mpr ⟨i, ?_, hhistory⟩
    rw [Finset.mem_Icc]
    omega
  have hcard := (Finset.card_le_card hsubset).trans Finset.card_image_le
  rw [Finset.card_image_of_injective _ (Option.some_injective α), Nat.card_Icc] at hcard
  omega

theorem tracks_empty (now limit : Nat) :
    Tracks (fun _ => none : Nat → Option α) (fun _ => none) now limit where
  recent := fun _ _ => rfl
  boundary := fun _ _ => Or.inl rfl
  stale := fun _ _ => rfl

variable (a : α)

theorem Tracks.record (h : Tracks history window now limit) (hpos : 0 < limit')
    (hle : limit ≤ limit') (hge : limit' ≤ limit + 1) :
    Tracks (Function.update history (now + 1) (some a))
      (Function.update (evict (now + 1) limit window) (now + 1) (some a)) (now + 1) limit' := by
  rw [h.evict_eq]
  constructor
  · intro i hi
    rcases eq_or_ne i (now + 1) with rfl | hne
    · rw [Function.update_self, Function.update_self]
    · rw [Function.update_of_ne hne, Function.update_of_ne hne, if_pos (by omega)]
  · intro i hi
    rcases eq_or_ne i (now + 1) with rfl | hne
    · exact Or.inl (by rw [Function.update_self, Function.update_self])
    · rw [Function.update_of_ne hne, Function.update_of_ne hne]
      split
      · exact Or.inl rfl
      · exact Or.inr rfl
  · intro i hi
    rw [Function.update_of_ne (by omega), if_neg (by omega)]

theorem Tracks.shrink (h : Tracks history window now limit) (hpos : 0 < limit')
    (hle : limit' ≤ limit) (hge : limit ≤ limit' + 1) :
    Tracks (Function.update history (now + 1) (some a)) (evict (now + 1) limit'
        (Function.update (evict (now + 1) limit window) (now + 1) (some a))) (now + 1) limit' := by
  rw [h.evict_eq]
  have hrecent : ∀ i, now + 1 < i + limit' → evict (now + 1) limit' (Function.update (fun i =>
        if now + 1 < i + limit then history i else none) (now + 1) (some a)) i =
      Function.update history (now + 1) (some a) i := by
    intro i hi
    rw [evict, if_neg (by omega)]
    rcases eq_or_ne i (now + 1) with rfl | hne
    · rw [Function.update_self, Function.update_self]
    · rw [Function.update_of_ne hne, Function.update_of_ne hne, if_pos (by omega)]
  constructor
  · intro i hi
    exact hrecent i (by omega)
  · intro i hi
    exact Or.inl (hrecent i (by omega))
  · intro i hi
    rcases eq_or_ne (i + limit') (now + 1) with heq | hne
    · rw [evict, if_pos heq]
    · rw [evict, if_neg hne, Function.update_of_ne (by omega), if_neg (by omega)]

end N42.SlidingWindow
