import Mathlib.Data.List.Basic

/-!
Scripts of calls to a store with transactions, and what is left when one of the calls
fails.  Beside the store there is a value in memory, which no transaction protects.
-/

namespace N42.TransactionScripts

variable {D M : Type}

/-- What the caller does about a call that fails: return the error, end the process, or
go on with the transaction changed in some way and without some of the next commands. -/
inductive OnFailure (D : Type) where
  | abort
  | exit
  | resume (f : D → D) (skip : Nat)

inductive Command (D M : Type) where
  | begin
  | call (f : D → D) (failure : OnFailure D)
  | store (m : M)
  | commit

/-- The store, the open transaction if there is one, and the value in memory. -/
structure World (D M : Type) where
  disk : D
  tx : Option D
  memory : M

def step (w : World D M) : Command D M → World D M
  | .begin => { w with tx := some w.disk }
  | .call f _ => { w with tx := w.tx.map f }
  | .store m => { w with memory := m }
  | .commit => { w with disk := w.tx.getD w.disk, tx := none }

def run (p : List (Command D M)) (w : World D M) : World D M :=
  p.foldl step w

def Command.isCommit : Command D M → Bool
  | .commit => true
  | _ => false

def Command.isStore : Command D M → Bool
  | .store _ => true
  | _ => false

/-- How the caller of the command at a position reacts to its failure; a value is stored
in memory without a call. -/
def reactionAt (p : List (Command D M)) (i : Nat) : Option (OnFailure D) :=
  match p[i]? with
  | none | some (.store _) => none
  | some .begin | some .commit => some .abort
  | some (.call _ reaction) => some reaction

/-- What is left after the call at a position failed: the value in memory, unless the
process has ended, and the store, where an open transaction is rolled back. -/
def failAt (p : List (Command D M)) (i : Nat) (w : World D M) : Option M × D :=
  let before := run (p.take i) w
  match reactionAt p i with
  | none => (some (run p w).memory, (run p w).disk)
  | some .abort => (some before.memory, before.disk)
  | some .exit => (none, before.disk)
  | some (.resume f skip) =>
    let after := run (p.drop (i + 1 + skip)) { before with tx := before.tx.map f }
    (some after.memory, after.disk)

/-- The value in memory agrees with the store, which is as before or as after the whole
script. -/
def AllOrNothing (agrees : M → D → Prop) (p : List (Command D M)) (w : World D M)
    (left : Option M × D) : Prop :=
  (∀ m ∈ left.1, agrees m left.2) ∧ (left.2 = w.disk ∨ left.2 = (run p w).disk)

/-- The places where a failure leaves nothing half done: an error is returned before the
first commit and before anything is stored in memory; the process ends before the first
commit or after the last; or an ignored failure makes no difference in the end. -/
def SafeAt (agrees : M → D → Prop) (p : List (Command D M)) (w : World D M) (i : Nat) : Prop :=
  match reactionAt p i with
  | none => True
  | some .abort => ∀ c ∈ p.take i, c.isCommit = false ∧ c.isStore = false
  | some .exit => (∀ c ∈ p.take i, c.isCommit = false) ∨ ∀ c ∈ p.drop i, c.isCommit = false
  | some (.resume _ _) => AllOrNothing agrees p w (failAt p i w)

def commits : List (Command D M) → World D M → List D
  | [], _ => []
  | c :: p, w =>
    if c.isCommit then (step w c).disk :: commits p (step w c) else commits p (step w c)

theorem run_append (p q : List (Command D M)) (w : World D M) : run (p ++ q) w = run q (run p w) :=
  List.foldl_append

theorem commits_append (p q : List (Command D M)) (w : World D M) :
    commits (p ++ q) w = commits p w ++ commits q (run p w) := by
  induction p generalizing w with
  | nil => rfl
  | cons c p ih =>
    simp only [List.cons_append, commits, ih]
    split
    · rfl
    · rfl

theorem disk_run (p : List (Command D M)) (w : World D M) :
    (run p w).disk = (commits p w).getLastD w.disk := by
  induction p generalizing w with
  | nil => rfl
  | cons c p ih =>
    have hrest : (run (c :: p) w).disk = (commits p (step w c)).getLastD (step w c).disk :=
      ih (step w c)
    rw [hrest, commits]
    cases c with
    | commit =>
      change _ = ((step w .commit).disk :: commits p (step w .commit)).getLastD w.disk
      rw [List.getLastD_cons]
    | begin => rfl
    | call f reaction => rfl
    | store m => rfl

theorem commits_eq_nil_iff (p : List (Command D M)) (w : World D M) :
    commits p w = [] ↔ ∀ c ∈ p, c.isCommit = false := by
  induction p generalizing w with
  | nil => simp [commits]
  | cons c p ih =>
    rw [commits, List.forall_mem_cons]
    cases hc : c.isCommit with
    | true => simp
    | false => simp [ih]

def stores (p : List (Command D M)) : List M :=
  p.filterMap fun c => match c with | .store m => some m | _ => none

theorem stores_append (p q : List (Command D M)) : stores (p ++ q) = stores p ++ stores q :=
  List.filterMap_append

variable {p : List (Command D M)}

theorem mem_stores {m : M} : m ∈ stores p ↔ .store m ∈ p := by
  rw [stores, List.mem_filterMap]
  constructor
  · rintro ⟨c, hc, hm⟩
    cases c with
    | store m' =>
      cases hm
      exact hc
    | _ => cases hm
  · exact fun h => ⟨.store m, h, rfl⟩

theorem stores_eq_nil_iff (p : List (Command D M)) :
    stores p = [] ↔ ∀ c ∈ p, c.isStore = false := by
  rw [stores, List.filterMap_eq_nil_iff]
  refine forall₂_congr fun c _ => ?_
  cases c with
  | store m => simp [Command.isStore]
  | _ => simp [Command.isStore]

theorem memory_run (p : List (Command D M)) (w : World D M) :
    (run p w).memory = (stores p).getLastD w.memory := by
  induction p generalizing w with
  | nil => rfl
  | cons c p ih =>
    have hrest : (run (c :: p) w).memory = (stores p).getLastD (step w c).memory := ih (step w c)
    rw [hrest]
    cases c with
    | store m =>
      change _ = (m :: stores p).getLastD w.memory
      rw [List.getLastD_cons]
      rfl
    | _ => rfl

def effect (p : List (Command D M)) (d : D) : D :=
  p.foldl (fun d c => match c with | .call f _ => f d | _ => d) d

def Command.isPlain : Command D M → Bool
  | .call _ _ | .store _ => true
  | _ => false

theorem effect_append (p q : List (Command D M)) (d : D) :
    effect (p ++ q) d = effect q (effect p d) :=
  List.foldl_append

theorem effect_keeps {Q : D → Prop} (hp : ∀ f r, .call f r ∈ p → ∀ d, Q d → Q (f d)) {d : D}
    (hd : Q d) : Q (effect p d) := by
  induction p generalizing d with
  | nil => exact hd
  | cons c p ih =>
    have hrest := fun f r hmem => hp f r (List.mem_cons_of_mem c hmem)
    cases c with
    | call f r => exact ih hrest (hp f r List.mem_cons_self d hd)
    | begin => exact ih hrest hd
    | store m => exact ih hrest hd
    | commit => exact ih hrest hd

section

variable (hp : ∀ c ∈ p, c.isPlain = true)
include hp

theorem commits_of_plain (w : World D M) : commits p w = [] := by
  refine (commits_eq_nil_iff p w).mpr fun c hc => ?_
  have hplain := hp c hc
  cases c with
  | commit => cases hplain
  | _ => rfl

theorem tx_run_of_plain {d : D} {w : World D M} (hw : w.tx = some d) :
    (run p w).tx = some (effect p d) := by
  induction p generalizing d w with
  | nil => exact hw
  | cons c p ih =>
    have hrest := fun c' hc' => hp c' (List.mem_cons_of_mem c hc')
    cases c with
    | call f r =>
      refine ih hrest ?_
      rw [step, hw]
      rfl
    | store m => exact ih hrest hw
    | begin => exact absurd (hp _ List.mem_cons_self) nofun
    | commit => exact absurd (hp _ List.mem_cons_self) nofun

def own (p : List (Command D M)) : List (Command D M) :=
  .begin :: (p ++ [.commit])

theorem commits_own (w : World D M) : commits (own p) w = [effect p w.disk] := by
  have htx := tx_run_of_plain hp (w := step w .begin) rfl
  change commits (p ++ [.commit]) (step w .begin) = _
  rw [commits_append, commits_of_plain hp, List.nil_append]
  change [((run p (step w .begin)).tx.getD _)] = _
  rw [htx]
  rfl

theorem disk_run_own (w : World D M) : (run (own p) w).disk = effect p w.disk := by
  rw [disk_run, commits_own hp]
  rfl

theorem run_own (w : World D M) :
    run (own p) w = ⟨effect p w.disk, none, (stores p).getLastD w.memory⟩ := by
  have hrun : run (own p) w = step (run p (step w .begin)) .commit := by
    change run (p ++ [.commit]) (step w .begin) = _
    rw [run_append]
    rfl
  have htx : (run p (step w .begin)).tx = some (effect p w.disk) := tx_run_of_plain hp rfl
  have hmemory : (run p (step w .begin)).memory = (stores p).getLastD w.memory :=
    memory_run p (step w .begin)
  generalize run p (step w .begin) = after at hrun htx hmemory
  rw [hrun, ← hmemory]
  change (⟨after.tx.getD after.disk, none, after.memory⟩ : World D M) = _
  rw [htx]
  rfl

end

/-- A script whose commits and stores can be told apart: the store between two commits is
neither that before the script nor that after it, no value that is put in memory agrees
with the store before the script, and what returns an error after a commit is followed by
another one. -/
structure Distinguished (agrees : M → D → Prop) (p : List (Command D M)) (w : World D M) :
    Prop where
  between : ∀ d ∈ (commits p w).dropLast, d ≠ w.disk ∧ d ≠ (run p w).disk
  stores : ∀ m, .store m ∈ p → ¬ agrees m w.disk
  aborts : ∀ i, reactionAt p i = some .abort → commits (p.take i) w ≠ [] →
    commits (p.drop i) (run (p.take i) w) ≠ []

theorem commits_drop_ne_nil {i : Nat} (hcall : reactionAt (p ++ [.commit]) i ≠ none) (w : World D M) :
    commits ((p ++ [Command.commit]).drop i) w ≠ [] := by
  have hle : i ≤ p.length := by
    by_contra hgt
    refine hcall ?_
    rw [reactionAt, List.getElem?_eq_none]
    rw [List.length_append, List.length_singleton]
    omega
  rw [List.drop_append_of_le_length hle]
  intro hnil
  have hcommit := (commits_eq_nil_iff _ w).mp hnil .commit (List.mem_append_right _ (.head _))
  cases hcommit

theorem distinguished_of_one_commit {agrees : M → D → Prop} {w : World D M}
    (hp : ∀ c ∈ p, c.isCommit = false) (hstores : ∀ m, .store m ∈ p → ¬ agrees m w.disk) :
    Distinguished agrees (p ++ [.commit]) w := by
  have hnone := (commits_eq_nil_iff p w).mpr hp
  refine ⟨?_, ?_, ?_⟩
  · rw [commits_append, hnone]
    exact nofun
  · intro m hm
    rcases List.mem_append.mp hm with hm | hm
    · exact hstores m hm
    · cases List.mem_singleton.mp hm
  · intro i hfailure _
    refine commits_drop_ne_nil ?_ _
    rw [hfailure]
    exact nofun

section Positions

variable {agrees : M → D → Prop} {p : List (Command D M)} {w : World D M} {i : Nat}

theorem disk_take_mem (hbefore : commits (p.take i) w ≠ [])
    (hafter : commits (p.drop i) (run (p.take i) w) ≠ []) :
    (run (p.take i) w).disk ∈ (commits p w).dropLast := by
  have hall := commits_append (p.take i) (p.drop i) w
  rw [List.take_append_drop] at hall
  rw [hall, List.dropLast_append_of_ne_nil hafter, disk_run,
    List.getLastD_eq_getLast?, List.getLast?_eq_some_getLast hbefore]
  exact List.mem_append_left _ (List.getLast_mem hbefore)

theorem disk_take_eq_start (h : commits (p.take i) w = []) : (run (p.take i) w).disk = w.disk := by
  rw [disk_run, h]
  rfl

theorem disk_take_eq_final (h : commits (p.drop i) (run (p.take i) w) = []) :
    (run (p.take i) w).disk = (run p w).disk := by
  have hall := run_append (p.take i) (p.drop i) w
  rw [List.take_append_drop] at hall
  rw [hall, disk_run (p.drop i), h]
  rfl

theorem allOrNothing_iff (hp : Distinguished agrees p w) (hstart : agrees w.memory w.disk)
    (hcall : reactionAt p i ≠ none) :
    AllOrNothing agrees p w (failAt p i w) ↔ SafeAt agrees p w i := by
  unfold SafeAt
  cases hfailure : reactionAt p i with
  | none => exact absurd hfailure hcall
  | some reaction =>
    cases reaction with
    | abort =>
      have hleft : failAt p i w = (some (run (p.take i) w).memory, (run (p.take i) w).disk) := by
        rw [failAt, hfailure]
      rw [hleft]
      constructor
      · rintro ⟨hagrees, hdisk⟩
        have hnone : commits (p.take i) w = [] := by
          by_contra hbefore
          have hmem := disk_take_mem hbefore (hp.aborts i hfailure hbefore)
          exact hdisk.elim (hp.between _ hmem).1 (hp.between _ hmem).2
        have hmemory := hagrees _ rfl
        rw [disk_take_eq_start hnone, memory_run] at hmemory
        have hstores : stores (p.take i) = [] := by
          by_contra hne
          rw [List.getLastD_eq_getLast?, List.getLast?_eq_some_getLast hne] at hmemory
          refine hp.stores _ ?_ hmemory
          exact List.mem_of_mem_take (mem_stores.mp (List.getLast_mem hne))
        exact fun c hc => ⟨(commits_eq_nil_iff _ _).mp hnone c hc,
          (stores_eq_nil_iff _).mp hstores c hc⟩
      · intro hclean
        have hdisk : (run (p.take i) w).disk = w.disk :=
          disk_take_eq_start ((commits_eq_nil_iff _ _).mpr fun c hc => (hclean c hc).1)
        refine ⟨?_, .inl hdisk⟩
        rintro m ⟨⟩
        rw [memory_run, (stores_eq_nil_iff _).mpr fun c hc => (hclean c hc).2, hdisk]
        exact hstart
    | exit =>
      have hleft : failAt p i w = (none, (run (p.take i) w).disk) := by
        rw [failAt, hfailure]
      rw [hleft, ← commits_eq_nil_iff _ w, ← commits_eq_nil_iff _ (run (p.take i) w)]
      constructor
      · rintro ⟨-, hdisk⟩
        by_contra hneither
        obtain ⟨hbefore, hafter⟩ := not_or.mp hneither
        have hmem := disk_take_mem hbefore hafter
        exact hdisk.elim (hp.between _ hmem).1 (hp.between _ hmem).2
      · intro hsafe
        exact ⟨nofun, hsafe.imp disk_take_eq_start disk_take_eq_final⟩
    | resume f skip => exact Iff.rfl

end Positions

end N42.TransactionScripts
