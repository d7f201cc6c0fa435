import Mathlib.Data.List.Basic

/-!
Computations that read and change a state and may fail.  What was written before a
failure stays written, as it does in a program without transactions.
-/

namespace N42.StatefulActions

variable {σ τ ε α β : Type}

def Action (σ ε α : Type) : Type :=
  σ → Except ε α × σ

namespace Action

protected def pure (a : α) : Action σ ε α :=
  fun s => (.ok a, s)

protected def bind (x : Action σ ε α) (f : α → Action σ ε β) : Action σ ε β :=
  fun s =>
    match x s with
    | (.ok a, t) => f a t
    | (.error e, t) => (.error e, t)

instance : Monad (Action σ ε) where
  pure := Action.pure
  bind := Action.bind

def get : Action σ ε σ :=
  fun s => (.ok s, s)

def modify (f : σ → σ) : Action σ ε Unit :=
  fun s => (.ok (), f s)

def fail (e : ε) : Action σ ε α :=
  fun s => (.error e, s)

def lift (x : Except ε α) : Action σ ε α :=
  fun s => (x, s)

def failIf (p : Prop) [Decidable p] (e : ε) : Action σ ε Unit :=
  fun s => (if p then .error e else .ok (), s)

def ofState (f : σ → α × σ) : Action σ ε α :=
  fun s => (.ok (f s).1, (f s).2)

def require (e : ε) : Option α → Action σ ε α
  | none => fail e
  | some a => pure a

def zoom (view : σ → τ) (update : τ → σ → σ) (x : Action τ ε α) : Action σ ε α :=
  fun s => ((x (view s)).1, update (x (view s)).2 s)

/-- Repeat a step until it yields a result.  A loop that has not ended when the fuel is
used up fails with `timeout`. -/
def loop (timeout : ε) (step : α → Action σ ε (α ⊕ β)) : Nat → α → Action σ ε β
  | 0, _ => fail timeout
  | fuel + 1, a => step a >>= Sum.elim (loop timeout step fuel) pure

variable {s t : σ} {f : α → Action σ ε β} {x : Action σ ε α}

theorem bind_eq_ok_iff {b : β} :
    (x >>= f) s = (.ok b, t) ↔ ∃ a m, x s = (.ok a, m) ∧ f a m = (.ok b, t) := by
  change Action.bind x f s = _ ↔ _
  rw [Action.bind]
  rcases x s with ⟨a | a, m⟩
  · simp
  · simp

variable {a : α}

theorem bind_of_eq_ok (h : x s = (.ok a, t)) : (x >>= f) s = f a t := by
  change Action.bind x f s = _
  rw [Action.bind, h]

theorem get_bind (f : σ → Action σ ε β) (s : σ) : (get >>= f) s = f s s :=
  rfl

variable {e : ε}

theorem bind_of_eq_error (h : x s = (.error e, t)) : (x >>= f) s = (.error e, t) := by
  change Action.bind x f s = _
  rw [Action.bind, h]

theorem bind_cases (x : Action σ ε α) (f : α → Action σ ε β) (s : σ) :
    (∃ e t, x s = (.error e, t) ∧ (x >>= f) s = (.error e, t)) ∨
      ∃ a t, x s = (.ok a, t) ∧ (x >>= f) s = f a t := by
  rcases hx : x s with ⟨e | a, t⟩
  · exact .inl ⟨e, t, rfl, bind_of_eq_error hx⟩
  · exact .inr ⟨a, t, rfl, bind_of_eq_ok hx⟩

theorem bind_congr {f g : α → Action σ ε β} (h : ∀ a t, x s = (.ok a, t) → f a t = g a t) :
    (x >>= f) s = (x >>= g) s := by
  rcases hx : x s with ⟨e | a, t⟩
  · rw [bind_of_eq_error hx, bind_of_eq_error hx]
  · rw [bind_of_eq_ok hx, bind_of_eq_ok hx]
    exact h a t hx

/-! What a sequence comes to, by the ways its first action can end. -/

variable {P : Except ε β × σ → Prop}

theorem bind_outcome (herror : ∀ e t, x s = (.error e, t) → P (.error e, t))
    (hok : ∀ a t, x s = (.ok a, t) → P (f a t)) : P ((x >>= f) s) := by
  rcases bind_cases x f s with ⟨e, t, hx, hresult⟩ | ⟨a, t, hx, hresult⟩
  · rw [hresult]
    exact herror e t hx
  · rw [hresult]
    exact hok a t hx

theorem failIf_outcome {p : Prop} [Decidable p] {f : Unit → Action σ ε β}
    (herror : p → P (.error e, s)) (hok : ¬ p → P (f () s)) :
    P ((failIf p e >>= f) s) := by
  by_cases hp : p
  · rw [bind_of_eq_error (by rw [failIf, if_pos hp] : failIf p e s = (.error e, s))]
    exact herror hp
  · rw [bind_of_eq_ok (by rw [failIf, if_neg hp] : failIf p e s = (.ok (), s))]
    exact hok hp

theorem lift_outcome {x : Except ε α} (herror : ∀ e, x = .error e → P (.error e, s))
    (hok : ∀ a, x = .ok a → P (f a s)) :
    P ((lift x >>= f) s) := by
  cases x with
  | error e => exact herror e rfl
  | ok a => exact hok a rfl

/-! The same for the state alone. -/

variable {P : σ → Prop}

theorem bind_induction (herror : ∀ e t, x s = (.error e, t) → P t)
    (hok : ∀ a t, x s = (.ok a, t) → P (f a t).2) : P ((x >>= f) s).2 :=
  bind_outcome (P := fun result => P result.2) herror hok

theorem failIf_induction {p : Prop} [Decidable p] {f : Unit → Action σ ε β} (herror : p → P s)
    (hok : ¬ p → P (f () s).2) :
    P ((failIf p e >>= f) s).2 :=
  failIf_outcome (P := fun result => P result.2) herror hok

theorem lift_induction {x : Except ε α} (herror : ∀ e, x = .error e → P s)
    (hok : ∀ a, x = .ok a → P (f a s).2) :
    P ((lift x >>= f) s).2 :=
  lift_outcome (P := fun result => P result.2) herror hok

@[simp] theorem pure_eq_ok_iff {a b : α} :
    (pure a : Action σ ε α) s = (.ok b, t) ↔ a = b ∧ s = t := by
  change ((.ok a : Except ε α), s) = _ ↔ _
  simp

@[simp] theorem get_eq_ok_iff {m : σ} : (get : Action σ ε σ) s = (.ok m, t) ↔ s = m ∧ s = t := by
  simp [get]

@[simp] theorem modify_eq_ok_iff {f : σ → σ} {u : Unit} :
    (modify f : Action σ ε Unit) s = (.ok u, t) ↔ f s = t := by
  simp [modify]

@[simp] theorem fail_eq_ok_iff : ¬ (fail e : Action σ ε α) s = (.ok a, t) := by
  simp [fail]

@[simp] theorem lift_eq_ok_iff {x : Except ε α} :
    (lift x : Action σ ε α) s = (.ok a, t) ↔ x = .ok a ∧ s = t := by
  simp [lift]

@[simp] theorem failIf_eq_ok_iff {p : Prop} [Decidable p] {u : Unit} :
    (failIf p e : Action σ ε Unit) s = (.ok u, t) ↔ ¬ p ∧ s = t := by
  by_cases h : p
  · simp [failIf, h]
  · simp [failIf, h]

@[simp] theorem ofState_eq_ok_iff {f : σ → α × σ} :
    (ofState f : Action σ ε α) s = (.ok a, t) ↔ f s = (a, t) := by
  simp [ofState, Prod.ext_iff]

@[simp] theorem require_eq_ok_iff {x : Option α} :
    (require e x : Action σ ε α) s = (.ok a, t) ↔ x = some a ∧ s = t := by
  cases x with
  | none => simp [require]
  | some b => simp [require]

theorem zoom_eq_ok_iff {view : σ → τ} {update : τ → σ → σ} {x : Action τ ε α} :
    zoom view update x s = (.ok a, t) ↔ ∃ m, x (view s) = (.ok a, m) ∧ update m s = t := by
  constructor
  · intro h
    rw [zoom, Prod.mk.injEq] at h
    exact ⟨(x (view s)).2, Prod.ext h.1 rfl, h.2⟩
  · rintro ⟨m, hx, hupdate⟩
    rw [zoom, hx, hupdate]

def Completes (x : Action σ ε α) (s : σ) : Prop :=
  ∃ a t, x s = (.ok a, t)

theorem eq_ok_of_isOk (h : (x s).1.isOk = true) : ∃ a, x s = (.ok a, (x s).2) := by
  revert h
  rcases x s with ⟨e | a, t⟩
  · intro h
    cases h
  · exact fun _ => ⟨a, rfl⟩

theorem completes_pure (a : α) : Completes (pure a : Action σ ε α) s :=
  ⟨a, s, rfl⟩

theorem completes_bind (hx : x s = (.ok a, t)) (hf : Completes (f a) t) :
    Completes (x >>= f) s := by
  rw [Completes, bind_of_eq_ok hx]
  exact hf

theorem completes_get {f : σ → Action σ ε β} (hf : Completes (f s) s) : Completes (get >>= f) s :=
  completes_bind rfl hf

theorem completes_after_modify {g : σ → σ} {f : Unit → Action σ ε β}
    (hf : Completes (f ()) (g s)) : Completes (modify g >>= f) s :=
  completes_bind rfl hf

theorem completes_lift {x : Except ε α} (hx : x = .ok a) (hf : Completes (f a) s) :
    Completes (lift x >>= f) s :=
  completes_bind (lift_eq_ok_iff.mpr ⟨hx, rfl⟩) hf

theorem completes_failIf {p : Prop} [Decidable p] {f : Unit → Action σ ε β} (hp : ¬ p)
    (hf : Completes (f ()) s) : Completes (failIf p e >>= f) s :=
  completes_bind (failIf_eq_ok_iff.mpr ⟨hp, rfl⟩) hf

def Keeps (f : σ → β) (x : Action σ ε α) : Prop :=
  ∀ s, f (x s).2 = f s

section Keeps

variable {γ : Type} {f : σ → γ}

theorem keeps_pure (a : α) : Keeps f (pure a : Action σ ε α) :=
  fun _ => rfl

theorem keeps_get : Keeps f (get : Action σ ε σ) :=
  fun _ => rfl

theorem keeps_fail (e : ε) : Keeps f (fail e : Action σ ε α) :=
  fun _ => rfl

theorem keeps_lift (x : Except ε α) : Keeps f (lift x : Action σ ε α) :=
  fun _ => rfl

theorem keeps_failIf (p : Prop) [Decidable p] (e : ε) : Keeps f (failIf p e : Action σ ε Unit) :=
  fun _ => rfl

theorem keeps_require (e : ε) (x : Option α) : Keeps f (require e x : Action σ ε α) := by
  cases x with
  | none => exact keeps_fail e
  | some a => exact keeps_pure a

theorem keeps_modify {g : σ → σ} (h : ∀ s, f (g s) = f s) : Keeps f (modify g : Action σ ε Unit) :=
  h

theorem keeps_ofState {g : σ → α × σ} (h : ∀ s, f (g s).2 = f s) :
    Keeps f (ofState g : Action σ ε α) :=
  h

theorem keeps_bind {x : Action σ ε α} {g : α → Action σ ε β} (hx : Keeps f x)
    (hg : ∀ a, Keeps f (g a)) : Keeps f (x >>= g) := by
  intro s
  have hs := hx s
  change f (Action.bind x g s).2 = f s
  rw [Action.bind]
  revert hs
  rcases x s with ⟨a | a, t⟩
  · exact id
  · exact (hg a t).trans

theorem keeps_foldlM {δ : Type} {g : α → δ → Action σ ε α} (h : ∀ a d, Keeps f (g a d))
    (items : List δ) (a : α) : Keeps f (items.foldlM g a) := by
  induction items generalizing a with
  | nil => exact keeps_pure a
  | cons d rest ih => exact keeps_bind (h a d) ih

theorem keeps_forM {δ : Type} {g : δ → Action σ ε Unit} (h : ∀ d, Keeps f (g d))
    (items : List δ) : Keeps f (items.forM g) := by
  induction items with
  | nil => exact keeps_pure ()
  | cons d rest ih => exact keeps_bind (h d) fun _ => ih

end Keeps

/-- From a state with `I` an action ends in such a state, with a value as in `post` or with
an error as in `exc`. -/
def Ensures (I : σ → Prop) (x : Action σ ε α) (post : α → Prop) (exc : ε → Prop) : Prop :=
  ∀ s, I s → I (x s).2 ∧ (∀ a, (x s).1 = .ok a → post a) ∧ ∀ e, (x s).1 = .error e → exc e

section Ensures

variable {I : σ → Prop} {post : α → Prop} {exc : ε → Prop} {x : Action σ ε α}

theorem eq_ok_of_ensures {a : α} (h : Ensures I x (· = a) fun _ => False) (hs : I s) :
    ∃ t, x s = (.ok a, t) ∧ I t := by
  obtain ⟨hnext, hok, herror⟩ := h s hs
  rcases hx : x s with ⟨e | b, t⟩
  · rw [hx] at herror
    exact (herror e rfl).elim
  · rw [hx] at hnext hok
    exact ⟨t, by rw [hok b rfl], hnext⟩

theorem ensures_pure {a : α} (h : post a) : Ensures I (pure a : Action σ ε α) post exc :=
  fun _ hs => ⟨hs, fun _ ha => Except.ok.inj ha ▸ h, nofun⟩

theorem ensures_get : Ensures I (get : Action σ ε σ) I exc :=
  fun _ hs => ⟨hs, fun _ ha => Except.ok.inj ha ▸ hs, nofun⟩

theorem ensures_fail {e : ε} (h : exc e) : Ensures I (fail e : Action σ ε α) post exc :=
  fun _ hs => ⟨hs, nofun, fun _ he => Except.error.inj he ▸ h⟩

theorem ensures_failIf {p : Prop} [Decidable p] {e : ε} (h : exc e) :
    Ensures I (failIf p e : Action σ ε Unit) (fun _ => ¬ p) exc := by
  by_cases hp : p
  · refine fun s hs => ⟨hs, ?_, ?_⟩
    · simp [failIf, hp]
    · simpa [failIf, hp] using h
  · exact fun s hs => ⟨hs, fun _ _ => hp, by simp [failIf, hp]⟩

theorem ensures_require {e : ε} {x : Option α} (h : ∃ a, x = some a ∧ post a) :
    Ensures I (require e x : Action σ ε α) post exc := by
  obtain ⟨a, rfl, ha⟩ := h
  exact ensures_pure ha

theorem ensures_required {e : ε} {x : Option α} (h : exc e) :
    Ensures I (require e x : Action σ ε α) (fun _ => True) exc := by
  cases x with
  | none => exact ensures_fail h
  | some a => exact ensures_pure trivial

theorem ensures_ofState {f : σ → α × σ} (h : ∀ s, I s → I (f s).2 ∧ post (f s).1) :
    Ensures I (ofState f : Action σ ε α) post exc :=
  fun s hs => ⟨(h s hs).1, fun _ ha => Except.ok.inj ha ▸ (h s hs).2, nofun⟩

theorem ensures_modify {f : σ → σ} (h : ∀ s, I s → I (f s)) :
    Ensures I (modify f : Action σ ε Unit) (fun _ => True) exc :=
  fun s hs => ⟨h s hs, fun _ _ => trivial, nofun⟩

theorem ensures_bind {f : α → Action σ ε β} {post' : β → Prop} (hx : Ensures I x post exc)
    (hf : ∀ a, post a → Ensures I (f a) post' exc) :
    Ensures I (x >>= f) post' exc := by
  intro s hs
  obtain ⟨hnext, hok, herror⟩ := hx s hs
  rcases bind_cases x f s with ⟨e, t, hxs, hresult⟩ | ⟨a, t, hxs, hresult⟩
  · rw [hxs] at hnext herror
    rw [hresult]
    refine ⟨hnext, nofun, fun e' he => ?_⟩
    cases he
    exact herror e rfl
  · rw [hxs] at hnext hok
    rw [hresult]
    exact hf a (hok a rfl) t hnext

theorem ensures_seq {f : α → Action σ ε β} {post' : β → Prop} (hx : Ensures I x (fun _ => True) exc)
    (hf : ∀ a, Ensures I (f a) post' exc) :
    Ensures I (x >>= f) post' exc :=
  ensures_bind hx fun a _ => hf a

theorem ensures_foldlM {γ : Type} {f : α → γ → Action σ ε α} {items : List γ} {a : α}
    (ha : post a) (hf : ∀ a, post a → ∀ item ∈ items, Ensures I (f a item) post exc) :
    Ensures I (items.foldlM f a) post exc := by
  induction items generalizing a with
  | nil => exact ensures_pure ha
  | cons item rest ih =>
    rw [List.foldlM_cons]
    refine ensures_bind (hf a ha item List.mem_cons_self) fun b hb => ?_
    exact ih hb fun b hb item hitem => hf b hb item (List.mem_cons_of_mem _ hitem)

theorem ensures_forM {γ : Type} {f : γ → Action σ ε Unit} {items : List γ}
    (hf : ∀ item ∈ items, Ensures I (f item) (fun _ => True) exc) :
    Ensures I (items.forM f) (fun _ => True) exc := by
  induction items with
  | nil => exact ensures_pure trivial
  | cons item rest ih =>
    exact ensures_seq (hf item List.mem_cons_self) fun _ =>
      ih fun item hitem => hf item (List.mem_cons_of_mem _ hitem)

theorem ensures_of_state (h : ∀ s, I s → I (x s).2) : Ensures I x (fun _ => True) fun _ => True :=
  fun s hs => ⟨h s hs, fun _ _ => trivial, fun _ _ => trivial⟩

theorem ensures_loop {timeout : ε} {step : α → Action σ ε (α ⊕ β)} (ht : exc timeout)
    (hstep : ∀ a, Ensures I (step a) (fun _ => True) exc) (fuel : Nat) (a : α) :
    Ensures I (loop timeout step fuel a) (fun _ => True) exc := by
  induction fuel generalizing a with
  | zero => exact ensures_fail ht
  | succ fuel ih =>
    refine ensures_seq (hstep a) ?_
    rintro (next | result)
    · exact ih next
    · exact ensures_pure trivial

end Ensures

section Loops

variable {timeout : ε} {step : α → Action σ ε (α ⊕ β)}

theorem loop_of_next {a next : α} (fuel : Nat) (h : step a s = (.ok (.inl next), t)) :
    loop timeout step (fuel + 1) a s = loop timeout step fuel next t := by
  rw [loop, bind_of_eq_ok h, Sum.elim_inl]

theorem loop_of_done {a : α} {b : β} (fuel : Nat) (h : step a s = (.ok (.inr b), t)) :
    loop timeout step (fuel + 1) a s = (.ok b, t) := by
  rw [loop, bind_of_eq_ok h, Sum.elim_inr]
  rfl

theorem keeps_loop {γ : Type} {f : σ → γ} (h : ∀ a, Keeps f (step a)) (fuel : Nat) (a : α) :
    Keeps f (loop timeout step fuel a) := by
  induction fuel generalizing a with
  | zero => exact keeps_fail timeout
  | succ fuel ih =>
    refine keeps_bind (h a) ?_
    rintro (next | result)
    · exact ih next
    · exact keeps_pure result

def Stable (x : Nat → Action σ ε α) : Prop :=
  ∀ ⦃fuel more s a t⦄, fuel ≤ more → x fuel s = (.ok a, t) → x more s = (.ok a, t)

theorem Stable.unique {x : Nat → Action σ ε α} (hx : Stable x) {m n : Nat} {a b : α}
    {u : σ} (hm : x m s = (.ok a, t)) (hn : x n s = (.ok b, u)) : a = b ∧ t = u := by
  have hmax := (hx (Nat.le_max_left m n) hm).symm.trans (hx (Nat.le_max_right m n) hn)
  simpa using hmax

theorem stable_const (x : Action σ ε α) : Stable fun _ => x :=
  fun _ _ _ _ _ _ h => h

theorem stable_bind {x : Nat → Action σ ε α} {f : Nat → α → Action σ ε β} (hx : Stable x)
    (hf : ∀ a, Stable fun fuel => f fuel a) : Stable fun fuel => x fuel >>= f fuel := by
  intro fuel more s b t hle h
  obtain ⟨a, m, hxs, hfs⟩ := bind_eq_ok_iff.mp h
  exact bind_eq_ok_iff.mpr ⟨a, m, hx hle hxs, hf a hle hfs⟩

theorem stable_loop (a : α) : Stable fun fuel => loop timeout step fuel a := by
  intro fuel
  induction fuel generalizing a with
  | zero =>
    intro more s b t _ h
    exact absurd h fail_eq_ok_iff
  | succ fuel ih =>
    intro more s b t hle h
    obtain ⟨more, rfl⟩ := Nat.exists_eq_add_of_lt (Nat.lt_of_succ_le hle)
    obtain ⟨outcome, m, hstep, hrest⟩ := bind_eq_ok_iff.mp h
    refine bind_eq_ok_iff.mpr ⟨outcome, m, hstep, ?_⟩
    cases outcome with
    | inl next => exact ih next (Nat.le_add_right fuel more) hrest
    | inr result => exact hrest

end Loops

end Action

end N42.StatefulActions
