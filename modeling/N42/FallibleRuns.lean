import Mathlib.Data.List.Basic
import Mathlib.Data.List.Forall2

/-!
Runs of a step function that may fail: the first failure ends the run.  The rules
lift what one step does to whole runs, and what a partial function does to the elements
of a list to the whole list.
-/

namespace N42.FallibleRuns

universe u v w

variable {σ τ : Type u} {α : Type v} {ε : Type w} {x : Except ε σ}

theorem bind_eq_ok_iff {f : σ → Except ε τ} {r : τ} :
    x >>= f = .ok r ↔ ∃ a, x = .ok a ∧ f a = .ok r := by
  cases x with
  | error e => simp [bind, Except.bind]
  | ok a => simp [bind, Except.bind]

theorem exists_ok_of_map {f : σ → τ} {v : τ} (h : x.map f = .ok v) : ∃ a, x = .ok a ∧ f a = v := by
  cases x with
  | error e => cases h
  | ok a => exact ⟨a, rfl, Except.ok.inj h⟩

@[simp] theorem mapError_eq_ok_iff {δ : Type w} {f : ε → δ} {a : σ} :
    x.mapError f = .ok a ↔ x = .ok a := by
  cases x with
  | error e => simp [Except.mapError]
  | ok b => simp [Except.mapError]

def failIf (p : Prop) [Decidable p] (e : ε) : Except ε PUnit.{u + 1} :=
  if p then .error e else .ok ⟨⟩

@[simp] theorem failIf_eq_ok_iff {p : Prop} [Decidable p] {e : ε} {r : PUnit.{u + 1}} :
    failIf p e = .ok r ↔ ¬ p := by
  rw [failIf]
  split
  · rename_i h
    simp [h]
  · rename_i h
    simp [h]

theorem seq_eq_ok_iff {x : Except ε PUnit.{u + 1}} {y : Except ε τ} {r : τ} :
    (x >>= fun _ => y) = .ok r ↔ x = .ok ⟨⟩ ∧ y = .ok r := by
  rw [bind_eq_ok_iff]
  constructor
  · rintro ⟨⟨⟩, hx, hy⟩
    exact ⟨hx, hy⟩
  · rintro ⟨hx, hy⟩
    exact ⟨⟨⟩, hx, hy⟩

def Raises (E : ε → Prop) (x : Except ε σ) : Prop :=
  ∀ e, x = .error e → E e

section Raises

variable {E : ε → Prop}

theorem raises_ok (a : σ) : Raises E (.ok a) :=
  fun _ h => by cases h

theorem raises_error {e : ε} (h : E e) : Raises E (.error e : Except ε σ) :=
  fun _ heq => Except.error.inj heq ▸ h

theorem raises_failIf {p : Prop} [Decidable p] {e : ε} (h : E e) :
    Raises E (failIf p e : Except ε PUnit.{u + 1}) := by
  rw [failIf]
  split
  · exact raises_error h
  · exact raises_ok _

theorem raises_bind {x : Except ε σ} {f : σ → Except ε τ} (hx : Raises E x)
    (hf : ∀ a, Raises E (f a)) : Raises E (x >>= f) := by
  cases x with
  | error e => exact raises_error (hx e rfl)
  | ok a => exact hf a

theorem raises_mapError {δ : Type w} {F : δ → Prop} {f : ε → δ} (x : Except ε σ)
    (h : ∀ e, F (f e)) : Raises F (x.mapError f) := by
  cases x with
  | error e => exact raises_error (h e)
  | ok a => exact raises_ok a

end Raises

def run (step : σ → α → Except ε σ) : σ → List α → Except ε σ
  | s, [] => .ok s
  | s, x :: xs => step s x >>= fun t => run step t xs

variable {step : σ → α → Except ε σ}

@[simp] theorem run_nil (s : σ) : run step s [] = .ok s :=
  rfl

theorem run_cons (s : σ) (x : α) (xs : List α) :
    run step s (x :: xs) = step s x >>= fun t => run step t xs :=
  rfl

theorem run_append (s : σ) (xs ys : List α) :
    run step s (xs ++ ys) = run step s xs >>= fun t => run step t ys := by
  induction xs generalizing s with
  | nil => rfl
  | cons x xs ih =>
    rw [List.cons_append, run_cons, run_cons]
    cases step s x with
    | error e => rfl
    | ok t => exact ih t

variable {xs : List α}

theorem run_concat_eq_ok_iff {s t : σ} {x : α} :
    run step s (xs ++ [x]) = .ok t ↔ ∃ m, run step s xs = .ok m ∧ step m x = .ok t := by
  rw [run_append, bind_eq_ok_iff]
  simp [run_cons, bind_eq_ok_iff]

theorem run_split {s t : σ} (h : run step s xs = .ok t) (j : Nat) :
    ∃ m, run step s (xs.take j) = .ok m ∧ run step m (xs.drop j) = .ok t := by
  rw [← List.take_append_drop j xs, run_append, bind_eq_ok_iff] at h
  exact h

theorem run_invariant {s t : σ} (P : Nat → σ → Prop) (h : run step s xs = .ok t) (hstart : P 0 s)
    (hstep : ∀ i (hi : i < xs.length) a b, P i a → step a xs[i] = .ok b → P (i + 1) b) :
    P xs.length t := by
  induction xs generalizing s P with
  | nil =>
    cases h
    exact hstart
  | cons x xs ih =>
    rw [run_cons, bind_eq_ok_iff] at h
    obtain ⟨m, hm, hrest⟩ := h
    refine ih (fun i a => P (i + 1) a) hrest ?_ ?_
    · exact hstep 0 (by simp) s m hstart hm
    · intro i hi a b ha hb
      exact hstep (i + 1) (by simpa using hi) a b ha (by simpa using hb)

theorem run_simulation {step' : τ → α → Except ε τ} {s t : σ} {s' : τ} (R : Nat → σ → τ → Prop)
    (h : run step s xs = .ok t) (hstart : R 0 s s')
    (hstep : ∀ i (hi : i < xs.length) a a' b, R i a b → step a xs[i] = .ok a' →
      ∃ b', step' b xs[i] = .ok b' ∧ R (i + 1) a' b') :
    ∃ t', run step' s' xs = .ok t' ∧ R xs.length t t' := by
  induction xs generalizing s s' R with
  | nil =>
    cases h
    exact ⟨s', rfl, hstart⟩
  | cons x xs ih =>
    rw [run_cons, bind_eq_ok_iff] at h
    obtain ⟨m, hm, hrest⟩ := h
    obtain ⟨m', hm', hR⟩ := hstep 0 (by simp) s m s' hstart hm
    obtain ⟨t', ht', hRt⟩ := ih (fun i a b => R (i + 1) a b) hrest hR
      (fun i hi a a' b hab hstep' => by
        have := hstep (i + 1) (by simpa using hi) a a' b hab (by simpa using hstep')
        simpa using this)
    exact ⟨t', bind_eq_ok_iff.mpr ⟨m', hm', ht'⟩, hRt⟩

section PartialMaps

variable {α β : Type u} {f : α → Option β} {xs : List α}

theorem mapM_eq_some_iff {ys : List β} :
    xs.mapM f = some ys ↔ List.Forall₂ (fun x y => f x = some y) xs ys := by
  induction xs generalizing ys with
  | nil =>
    rw [List.mapM_nil, List.forall₂_nil_left_iff]
    exact Option.some_inj.trans eq_comm
  | cons x xs ih =>
    simp only [List.mapM_cons, Option.bind_eq_bind, Option.bind_eq_some_iff, ih,
      Option.pure_def, Option.some.injEq]
    constructor
    · rintro ⟨y, hy, ys, hys, rfl⟩
      exact List.Forall₂.cons hy hys
    · rintro (_ | ⟨hy, hys⟩)
      exact ⟨_, hy, _, hys, rfl⟩

theorem isSome_mapM_iff : (xs.mapM f).isSome ↔ ∀ x ∈ xs, (f x).isSome := by
  induction xs with
  | nil => simp
  | cons x xs ih =>
    rw [List.forall_mem_cons, ← ih, List.mapM_cons]
    cases f x with
    | none => simp
    | some y =>
      cases xs.mapM f with
      | none => simp
      | some ys => simp

theorem exists_of_mem_mapM {ys : List β} (h : xs.mapM f = some ys) {y : β} (hy : y ∈ ys) :
    ∃ x ∈ xs, f x = some y := by
  rw [mapM_eq_some_iff] at h
  induction h with
  | nil => cases hy
  | cons hx _ ih =>
    rcases List.mem_cons.mp hy with rfl | hy
    · exact ⟨_, List.mem_cons_self, hx⟩
    · obtain ⟨x, hmem, hx⟩ := ih hy
      exact ⟨x, List.mem_cons_of_mem _ hmem, hx⟩

theorem mapM_inverse {g : β → Option α} {ys : List β}
    (hinv : ∀ x ∈ xs, ∀ y, f x = some y → g y = some x) (h : xs.mapM f = some ys) :
    ys.mapM g = some xs := by
  rw [mapM_eq_some_iff] at h ⊢
  induction h with
  | nil => exact List.Forall₂.nil
  | cons hy _ ih =>
    refine List.Forall₂.cons (hinv _ List.mem_cons_self _ hy) (ih ?_)
    intro x hx
    exact hinv x (List.mem_cons_of_mem _ hx)

theorem mapM_map_eq_some {encode : α → β} {decode : β → Option α}
    (h : ∀ x ∈ xs, decode (encode x) = some x) : (xs.map encode).mapM decode = some xs := by
  rw [mapM_eq_some_iff, List.forall₂_map_left_iff]
  exact List.forall₂_same.mpr h

theorem mapM_bind_mapM {γ : Type u} {g : β → Option γ} (xs : List α) :
    (xs.mapM f).bind (fun ys => ys.mapM g) = xs.mapM fun x => (f x).bind g := by
  induction xs with
  | nil => rfl
  | cons x xs ih =>
    rw [List.mapM_cons, List.mapM_cons, ← ih]
    cases f x with
    | none => rfl
    | some y =>
      cases xs.mapM f with
      | none => cases hy : g y with
          | none => simp [hy]
          | some z => simp [hy]
      | some ys => simp

theorem mapM_through_iff {γ : Type u} {g : β → Option α} {view : α → γ} :
    (∃ ms ys, xs.mapM f = some ms ∧ ms.mapM g = some ys ∧ ys.map view = xs.map view) ↔
      ∀ x ∈ xs, ∃ m y, f x = some m ∧ g m = some y ∧ view y = view x := by
  induction xs with
  | nil => simp
  | cons x xs ih =>
    rw [List.forall_mem_cons, ← ih]
    constructor
    · rintro ⟨ms, ys, hms, hys, hview⟩
      obtain ⟨m, ms, hm, htail, rfl⟩ := List.forall₂_cons_left_iff.mp (mapM_eq_some_iff.mp hms)
      obtain ⟨y, ys, hy, htail', rfl⟩ := List.forall₂_cons_left_iff.mp (mapM_eq_some_iff.mp hys)
      rw [List.map_cons, List.map_cons, List.cons.injEq] at hview
      exact ⟨⟨m, y, hm, hy, hview.1⟩, ms, ys, mapM_eq_some_iff.mpr htail,
        mapM_eq_some_iff.mpr htail', hview.2⟩
    · rintro ⟨⟨m, y, hm, hy, hview⟩, ms, ys, hms, hys, hviews⟩
      refine ⟨m :: ms, y :: ys, ?_, ?_, ?_⟩
      · exact mapM_eq_some_iff.mpr (List.Forall₂.cons hm (mapM_eq_some_iff.mp hms))
      · exact mapM_eq_some_iff.mpr (List.Forall₂.cons hy (mapM_eq_some_iff.mp hys))
      · rw [List.map_cons, List.map_cons, hview, hviews]

theorem foldlM_append_singleton (start : List β) (xs : List α) :
    xs.foldlM (fun ys x => (f x).map fun y => ys ++ [y]) start =
      (xs.mapM f).map fun ys => start ++ ys := by
  induction xs generalizing start with
  | nil => simp
  | cons x xs ih =>
    rw [List.foldlM_cons, List.mapM_cons]
    cases f x with
    | none => rfl
    | some y =>
      simp only [Option.map_some, Option.bind_eq_bind, Option.bind_some, ih]
      cases xs.mapM f with
      | none => rfl
      | some ys => simp

end PartialMaps

end N42.FallibleRuns
