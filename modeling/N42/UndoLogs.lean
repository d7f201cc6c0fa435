import Mathlib.Data.List.Basic

/-!
Logs of changes that can be undone, with marks to go back to.  States are compared by a
relation: `R s t` says that `t` can stand for `s`.  A state that was reached by undoing
changes need not be the state from before them, but it has to be able to stand for it.
-/

namespace N42.UndoLogs

variable {σ ε : Type}

/-- Undo the changes of a log, which has the newest one in front.  Undoing a change may
fail. -/
def undoAll (undo : ε → σ → Option σ) : List ε → σ → Option σ
  | [], s => some s
  | e :: log, s => (undo e s).bind (undoAll undo log)

variable {undo : ε → σ → Option σ} {R : σ → σ → Prop} {s t u : σ} {log changes : List ε}

theorem undoAll_append (log older : List ε) (s : σ) :
    undoAll undo (log ++ older) s = (undoAll undo log s).bind (undoAll undo older) := by
  induction log generalizing s with
  | nil => rfl
  | cons e log ih =>
    rw [List.cons_append, undoAll, undoAll, Option.bind_assoc]
    congr 1
    funext t
    exact ih t

/-- What can be undone can be undone in every state that can stand for the present one. -/
def Respects (undo : ε → σ → Option σ) (R : σ → σ → Prop) : Prop :=
  ∀ ⦃e s t s'⦄, R s t → undo e s = some s' → ∃ t', undo e t = some t' ∧ R s' t'

theorem Respects.undoAll (h : Respects undo R) {s' : σ} (hR : R s t)
    (hs : undoAll undo log s = some s') : ∃ t', undoAll undo log t = some t' ∧ R s' t' := by
  induction log generalizing s t with
  | nil =>
    cases hs
    exact ⟨t, rfl, hR⟩
  | cons e log ih =>
    obtain ⟨m, hm, hrest⟩ := Option.bind_eq_some_iff.mp hs
    obtain ⟨n, hn, hmn⟩ := h hR hm
    obtain ⟨t', ht', hR'⟩ := ih hmn hrest
    exact ⟨t', Option.bind_eq_some_iff.mpr ⟨n, hn, ht'⟩, hR'⟩

/-- Undoing the given changes leads from `t` to a state that can stand for `s`. -/
def Undoes (undo : ε → σ → Option σ) (R : σ → σ → Prop) (s : σ) (changes : List ε) (t : σ) :
    Prop :=
  ∃ x, undoAll undo changes t = some x ∧ R s x

theorem undoes_nil (h : R s t) : Undoes undo R s [] t :=
  ⟨t, rfl, h⟩

theorem Undoes.trans (hrespects : Respects undo R) (htrans : ∀ ⦃s t u⦄, R s t → R t u → R s u)
    {older : List ε} (hs : Undoes undo R s older t) (ht : Undoes undo R t changes u) :
    Undoes undo R s (changes ++ older) u := by
  obtain ⟨x, hx, hsx⟩ := hs
  obtain ⟨y, hy, hty⟩ := ht
  obtain ⟨z, hz, hxz⟩ := hrespects.undoAll hty hx
  refine ⟨z, ?_, htrans hsx hxz⟩
  rw [undoAll_append, hy]
  exact hz

/-- A point in a log that has been marked to go back to: everything above the given depth
came later. -/
structure Mark where
  id : Nat
  depth : Nat
deriving DecidableEq

def above (log : List ε) (m : Mark) : List ε :=
  log.take (log.length - m.depth)

/-- Every mark leads back to the state that was saved under its number. -/
structure Recovers (undo : ε → σ → Option σ) (R : σ → σ → Prop) (saved : Nat → σ)
    (marks : List Mark) (log : List ε) (s : σ) : Prop where
  sorted : marks.Pairwise fun m n => m.depth ≤ n.depth
  depth_le : ∀ m ∈ marks, m.depth ≤ log.length
  restores : ∀ m ∈ marks, Undoes undo R (saved m.id) (above log m) s

variable {saved : Nat → σ} {marks : List Mark}

theorem recovers_nil (log : List ε) (s : σ) : Recovers undo R saved [] log s :=
  ⟨List.Pairwise.nil, nofun, nofun⟩

theorem above_append {m : Mark} (h : m.depth ≤ log.length) :
    above (changes ++ log) m = changes ++ above log m := by
  have hlen : (changes ++ log).length - m.depth = changes.length + (log.length - m.depth) := by
    rw [List.length_append]
    omega
  rw [above, above, hlen, List.take_length_add_append]

theorem Recovers.extend (hrespects : Respects undo R)
    (htrans : ∀ ⦃s t u⦄, R s t → R t u → R s u) (h : Recovers undo R saved marks log s)
    (hundoes : Undoes undo R s changes t) :
    Recovers undo R saved marks (changes ++ log) t := by
  refine ⟨h.sorted, fun m hm => ?_, fun m hm => ?_⟩
  · have := h.depth_le m hm
    rw [List.length_append]
    omega
  · rw [above_append (h.depth_le m hm)]
    exact (h.restores m hm).trans hrespects htrans hundoes

theorem Recovers.mark (h : Recovers undo R saved marks log s) {id : Nat}
    (hfresh : ∀ m ∈ marks, m.id ≠ id) (hrefl : R s s) :
    Recovers undo R (Function.update saved id s) (marks ++ [⟨id, log.length⟩]) log s := by
  refine ⟨?_, ?_, ?_⟩
  · refine List.pairwise_append.mpr ⟨h.sorted, List.pairwise_singleton _ _, ?_⟩
    intro m hm n hn
    rw [List.mem_singleton.mp hn]
    exact h.depth_le m hm
  · intro m hm
    rcases List.mem_append.mp hm with hm | hm
    · exact h.depth_le m hm
    · obtain rfl := List.mem_singleton.mp hm
      exact Nat.le_refl _
  · intro m hm
    rcases List.mem_append.mp hm with hm | hm
    · rw [Function.update_of_ne (hfresh m hm)]
      exact h.restores m hm
    · rw [List.mem_singleton.mp hm, Function.update_self, above, Nat.sub_self]
      exact undoes_nil hrefl

theorem Recovers.back (hrespects : Respects undo R)
    (htrans : ∀ ⦃s t u⦄, R s t → R t u → R s u) (h : Recovers undo R saved marks log s)
    {older newer : List Mark} {m : Mark} {x : σ} (hmarks : marks = older ++ m :: newer)
    (hx : undoAll undo (above log m) s = some x) (hR : R x t) :
    R (saved m.id) t ∧ Recovers undo R saved older (log.drop (log.length - m.depth)) t := by
  subst hmarks
  have hm : m ∈ older ++ m :: newer := by simp
  have hdepth := h.depth_le m hm
  obtain ⟨holder, -, hcross⟩ := List.pairwise_append.mp h.sorted
  have hlen : (log.drop (log.length - m.depth)).length = m.depth := by
    rw [List.length_drop]
    omega
  obtain ⟨x', hx', hsaved⟩ := h.restores m hm
  obtain rfl : x = x' := Option.some.inj (hx.symm.trans hx')
  refine ⟨htrans hsaved hR, holder, ?_, ?_⟩
  · intro n hn
    rw [hlen]
    exact hcross n hn m (by simp)
  · intro n hn
    have hle := hcross n hn m (by simp)
    obtain ⟨y, hy, hsavedy⟩ := h.restores n (List.mem_append_left _ hn)
    -- the changes above the older mark are those above the newer one and then the rest
    have hsplit : above log n = above log m ++ above (log.drop (log.length - m.depth)) n := by
      have hsum : log.length - n.depth = (log.length - m.depth) + (m.depth - n.depth) := by
        omega
      rw [above, above, above, hlen, hsum, List.take_add]
    rw [hsplit, undoAll_append, hx] at hy
    obtain ⟨z, hz, hyz⟩ := hrespects.undoAll hR hy
    exact ⟨z, hz, htrans hsavedy hyz⟩

end N42.UndoLogs
