import Mathlib.Data.List.GetD
import N42.StatefulActions

/-!
Integers of any size in memory cells.  An arithmetic operation writes its result into a cell
that may also be one of its operands, and a function that works on cells of its own leaves
those it found as they were.
-/

namespace N42.IntegerCells

open StatefulActions StatefulActions.Action

variable {α ε : Type}

structure Memory (α : Type) where
  record : α
  cells : List Int

def value (cells : List Int) (p : Nat) : Int :=
  cells.getD p 0

def newInt (v : Int) : Action (Memory α) ε Nat :=
  ofState fun m => (m.cells.length, { m with cells := m.cells ++ [v] })

/-- Write a function of two cells into the cell `z`, and return its address. -/
def assign (f : Int → Int → Int) (z x y : Nat) : Action (Memory α) ε Nat :=
  ofState fun m =>
    (z, { m with cells := m.cells.set z (f (value m.cells x) (value m.cells y)) })

def divide (byZero : ε) (z x y : Nat) : Action (Memory α) ε Nat := do
  let m ← get
  failIf (value m.cells y = 0) byZero
  assign (· / ·) z x y

def larger (x y : Nat) : Action (Memory α) ε Nat :=
  ofState fun m => (if value m.cells x < value m.cells y then y else x, m)

@[simp] theorem value_cons_zero (v : Int) (cells : List Int) : value (v :: cells) 0 = v :=
  rfl

@[simp] theorem value_cons_succ (v : Int) (cells : List Int) (p : Nat) :
    value (v :: cells) (p + 1) = value cells p :=
  rfl

/-! The cells a function has made itself come after those it found. -/

variable {a : α} {old own : List Int} {k : Nat}

@[simp] theorem value_old {p : Nat} (h : p < old.length) : value (old ++ own) p = value old p := by
  rw [value, value, List.getD_append _ _ _ _ h]

@[simp] theorem value_own : value (old ++ own) (old.length + k) = value own k := by
  rw [value, value, List.getD_append_right _ _ _ _ (Nat.le_add_right _ _), Nat.add_sub_cancel_left]

theorem newInt_first (v : Int) :
    (newInt v : Action (Memory α) ε Nat) ⟨a, old⟩ = (.ok (old.length + 0), ⟨a, old ++ [v]⟩) :=
  rfl

theorem newInt_own (v : Int) :
    (newInt v : Action (Memory α) ε Nat) ⟨a, old ++ own⟩ =
      (.ok (old.length + own.length), ⟨a, old ++ (own ++ [v])⟩) := by
  rw [newInt, ofState]
  dsimp only
  rw [List.length_append, List.append_assoc]

theorem assign_own (f : Int → Int → Int) (x y : Nat) :
    (assign f (old.length + k) x y : Action (Memory α) ε Nat) ⟨a, old ++ own⟩ =
      (.ok (old.length + k),
        ⟨a, old ++ own.set k (f (value (old ++ own) x) (value (old ++ own) y))⟩) := by
  rw [assign, ofState]
  dsimp only
  rw [List.set_append_right _ _ (Nat.le_add_right _ _), Nat.add_sub_cancel_left]

theorem divide_own {byZero : ε} {x y : Nat} (h : value (old ++ own) y ≠ 0) :
    (divide byZero (old.length + k) x y : Action (Memory α) ε Nat) ⟨a, old ++ own⟩ =
      (.ok (old.length + k),
        ⟨a, old ++ own.set k (value (old ++ own) x / value (old ++ own) y)⟩) := by
  rw [divide, get_bind, bind_of_eq_ok (by rw [failIf, if_neg h]), assign_own]

theorem larger_own (x y : Nat) :
    (larger x y : Action (Memory α) ε Nat) ⟨a, old ++ own⟩ =
      (.ok (if value (old ++ own) x < value (old ++ own) y then y else x), ⟨a, old ++ own⟩) :=
  rfl

end N42.IntegerCells
