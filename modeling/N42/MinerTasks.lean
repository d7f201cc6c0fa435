import Mathlib.Logic.Function.Basic
import Mathlib.Logic.Relation
import N42.ChainDatabase
import N42.HeaderSealing

/-!
The tasks of the miner.  One loop takes tasks and has their blocks sealed, one loop clears
tasks when a new head is announced, and one loop looks up the task of a sealed block.  They
share the map of pending tasks, and their steps may come in any order.
-/

namespace N42.MinerTasks

open ChainTypes BlockHeader HeaderSealing ChainDatabase

variable {α : Type}

structure Task (α : Type) where
  block : Block
  work : α
deriving DecidableEq

def Task.number (t : Task α) : Uint256 :=
  t.block.header.number

def staleThreshold : Uint256 := 7

/-- The shared map and what the loops keep: the seal hash of the last task, the task that is
being handed to the engine, and the blocks that the engine seals in the background.  The
announced numbers are only recorded. -/
structure Worker (α : Type) where
  pendingTasks : Hash → Option (Task α)
  prev : Hash
  sealing : Option (Task α)
  flying : List Block
  heads : List Uint256

def newWorker : Worker α :=
  ⟨fun _ => none, default, none, [], []⟩

def cleared (number : Uint256) (t : Task α) : Bool :=
  number ≤ t.number + staleThreshold

def clearPending (number : Uint256) (pendingTasks : Hash → Option (Task α)) :
    Hash → Option (Task α) :=
  fun h => (pendingTasks h).filter fun t => !cleared number t

def announce (number : Uint256) (w : Worker α) : Worker α :=
  { w with
    pendingTasks := clearPending number w.pendingTasks
    heads := number :: w.heads }

inductive Event (α : Type) where
  /-- `taskLoop` takes a task. -/
  | task (t : Task α)
  /-- `Seal` returns to `taskLoop`. -/
  | sealReturned (failed : Bool)
  /-- `workLoop` hears of a new head, or of a start at the current one. -/
  | head (number : Uint256)
  /-- The sealing of a block ends, with a result for `resultLoop` or without one. -/
  | landed (block : Block)

/-- One step; there is none for an event that cannot happen or a panic of `SealHash`. -/
def step (lib : Primitives) (w : Worker α) : Event α → Option (Worker α)
  | .task t =>
    if w.sealing.isSome then none
    else (sealHash lib t.block.header).map fun h =>
      if h = w.prev then w
      else { w with
        prev := h
        pendingTasks := Function.update w.pendingTasks h (some t)
        sealing := some t }
  | .sealReturned failed => do
      let t ← w.sealing
      let h ← sealHash lib t.block.header
      return if failed then
        { w with pendingTasks := Function.update w.pendingTasks h none, sealing := none }
      else { w with sealing := none, flying := t.block :: w.flying }
  | .head number => some (announce number w)
  | .landed block =>
    if block ∈ w.flying then some { w with flying := w.flying.erase block } else none

/-- What `Seal` does to a header: it sets the signature and overwrites the end of the extra
field. -/
structure IsSealed (h sealed : Header) : Prop where
  same : sealed = { h with signature := sealed.signature, extra := sealed.extra }
  length : sealed.extra.bytes.length = h.extra.bytes.length
  unsealed : Header.unsealedExtra sealed = Header.unsealedExtra h

inductive Outcome (α : Type) where
  | duplicate
  | noPendingTask
  | write (t : Task α)
deriving DecidableEq

def resultOf (lib : Primitives) (w : Worker α) (hasBlock : Bool) (header : Header) :
    Option (Outcome α) :=
  if hasBlock then some .duplicate
  else (sealHash lib header).map fun h => (w.pendingTasks h).elim .noPendingTask .write

def Stale (w : Worker α) (number : Uint256) : Prop :=
  ∃ n ∈ w.heads, number.toNat + staleThreshold.toNat ≤ n.toNat

/-- An announced head clears the stale tasks: those of them that are older than the
threshold, and none that is younger. -/
structure ClearsStale (w : Worker α) (number : Uint256) : Prop where
  only : ∀ h t, w.pendingTasks h = some t → clearPending number w.pendingTasks h = none →
    t.number.toNat + staleThreshold.toNat ≤ number.toNat
  all : ∀ h t, clearPending number w.pendingTasks h = some t →
    ¬ t.number.toNat + staleThreshold.toNat < number.toNat

/-- The head is the very first one for which the task is stale, or the sum wraps around to a
number below the head. -/
def Due (number : Uint256) (t : Task α) : Prop :=
  t.number.toNat + staleThreshold.toNat = number.toNat ∨
    (2 ^ 256 ≤ t.number.toNat + staleThreshold.toNat ∧
      t.number.toNat + staleThreshold.toNat - 2 ^ 256 < number.toNat)

section Clearing

variable {number : Uint256} {t : Task α} {w : Worker α} {h : Hash}

theorem cleared_iff : cleared number t = true ↔
    number.toNat ≤ (t.number.toNat + staleThreshold.toNat) % 2 ^ 256 := by
  rw [cleared, decide_eq_true_iff, BitVec.le_def, BitVec.toNat_add]

theorem clearPending_eq_none_iff (ht : w.pendingTasks h = some t) :
    clearPending number w.pendingTasks h = none ↔ cleared number t = true := by
  rw [clearPending, ht]
  simp [Option.filter]

theorem clearPending_eq_some_iff :
    clearPending number w.pendingTasks h = some t ↔
      w.pendingTasks h = some t ∧ cleared number t = false := by
  rw [clearPending, Option.filter_eq_some_iff]
  simp

theorem due_iff : Due number t ↔
    (cleared number t = true → t.number.toNat + staleThreshold.toNat ≤ number.toNat) ∧
      (cleared number t = false → ¬ t.number.toNat + staleThreshold.toNat < number.toNat) := by
  have hthreshold : staleThreshold.toNat = 7 := rfl
  have hnumber := number.isLt
  have htask := t.number.isLt
  rw [← Bool.not_eq_true, cleared_iff, Due]
  omega

theorem clearsStale_iff :
    ClearsStale w number ↔ ∀ h t, w.pendingTasks h = some t → Due number t := by
  constructor
  · intro hclears h t ht
    refine due_iff.mpr ⟨fun hcleared => ?_, fun hkept => ?_⟩
    · exact hclears.only h t ht ((clearPending_eq_none_iff ht).mpr hcleared)
    · exact hclears.all h t (clearPending_eq_some_iff.mpr ⟨ht, hkept⟩)
  · intro hdue
    refine ⟨fun h t ht hnone => ?_, fun h t hsome => ?_⟩
    · exact (due_iff.mp (hdue h t ht)).1 ((clearPending_eq_none_iff ht).mp hnone)
    · obtain ⟨ht, hkept⟩ := clearPending_eq_some_iff.mp hsome
      exact (due_iff.mp (hdue h t ht)).2 hkept

end Clearing

/-! ## Runs -/

/-- A step under which no younger task is lost: a head clears only what is due, a task does
not take the place of one with another number, and the engine does not fail on a block that
it is already sealing. -/
def Orderly (lib : Primitives) (w : Worker α) : Event α → Prop
  | .task t => ∀ b ∈ w.flying, sealHash lib b.header = sealHash lib t.block.header →
      b.header.number = t.number
  | .sealReturned failed => failed = true → ∀ t, w.sealing = some t → ∀ b ∈ w.flying,
      sealHash lib b.header ≠ sealHash lib t.block.header
  | .head number => ∀ h t, w.pendingTasks h = some t → Due number t
  | .landed _ => True

def Reachable (lib : Primitives) (w : Worker α) : Prop :=
  Relation.ReflTransGen (fun w w' => ∃ e, Orderly lib w e ∧ step lib w e = some w') newWorker w

def Held (lib : Primitives) (w : Worker α) (b : Block) : Prop :=
  ∃ h, sealHash lib b.header = some h ∧
    ((∃ t, w.pendingTasks h = some t ∧ t.number = b.header.number) ∨ Stale w b.header.number)

structure Covered (lib : Primitives) (w : Worker α) : Prop where
  flying : ∀ b ∈ w.flying, Held lib w b
  sealing : ∀ t, w.sealing = some t → Held lib w t.block

section Steps

variable {lib : Primitives} {w w' : Worker α} {b : Block}

theorem Held.of_eq {h : Hash} (hheld : Held lib w b) (hhash : sealHash lib b.header = some h)
    (hpending : w'.pendingTasks h = w.pendingTasks h) (hheads : w'.heads = w.heads) :
    Held lib w' b := by
  obtain ⟨h', hhash', htask⟩ := hheld
  cases hhash.symm.trans hhash'
  refine ⟨h, hhash, ?_⟩
  rw [hpending, Stale, hheads]
  exact htask

theorem covered_newWorker : Covered lib (newWorker : Worker α) where
  flying := fun b hb => by cases hb
  sealing := fun t ht => by cases ht

theorem Covered.task (hw : Covered lib w) {t : Task α} (horderly : Orderly lib w (.task t))
    (hstep : step lib w (.task t) = some w') : Covered lib w' := by
  rw [step] at hstep
  split at hstep
  · cases hstep
  · rename_i hidle
    obtain ⟨h, hhash, rfl⟩ := Option.map_eq_some_iff.mp hstep
    split
    · exact hw
    · refine ⟨fun b hb => ?_, fun t' ht' => ?_⟩
      · obtain ⟨k, hk, htask⟩ := hw.flying b hb
        rcases eq_or_ne k h with rfl | hne
        · refine ⟨k, hk, .inl ⟨t, Function.update_self _ _ _, ?_⟩⟩
          exact (horderly b hb (hk.trans hhash.symm)).symm
        · exact (hw.flying b hb).of_eq hk (Function.update_of_ne hne _ _) rfl
      · cases ht'
        exact ⟨h, hhash, .inl ⟨t, Function.update_self _ _ _, rfl⟩⟩

theorem Covered.sealReturned (hw : Covered lib w) {failed : Bool}
    (horderly : Orderly lib w (.sealReturned failed))
    (hstep : step lib w (.sealReturned failed) = some w') : Covered lib w' := by
  obtain ⟨t, ht, hstep⟩ := Option.bind_eq_some_iff.mp hstep
  obtain ⟨h, hhash, hstep⟩ := Option.bind_eq_some_iff.mp hstep
  cases hstep
  split
  · rename_i hfailed
    refine ⟨fun b hb => ?_, fun t ht => by cases ht⟩
    obtain ⟨k, hk, -⟩ := hw.flying b hb
    have hne : k ≠ h := by
      rintro rfl
      exact horderly hfailed t ht b hb (hk.trans hhash.symm)
    exact (hw.flying b hb).of_eq hk (Function.update_of_ne hne _ _) rfl
  · refine ⟨fun b hb => ?_, fun t ht => by cases ht⟩
    rcases List.mem_cons.mp hb with rfl | hb
    · obtain ⟨k, hk, -⟩ := hw.sealing t ht
      exact (hw.sealing t ht).of_eq hk rfl rfl
    · obtain ⟨k, hk, -⟩ := hw.flying b hb
      exact (hw.flying b hb).of_eq hk rfl rfl

theorem Held.head (hheld : Held lib w b) {number : Uint256}
    (hdue : ∀ h t, w.pendingTasks h = some t → Due number t) :
    Held lib (announce number w) b := by
  obtain ⟨h, hhash, ⟨t, ht, hnumber⟩ | ⟨n, hn, hstale⟩⟩ := hheld
  · refine ⟨h, hhash, ?_⟩
    cases hcleared : cleared number t with
    | true =>
      refine .inr ⟨number, List.mem_cons_self, ?_⟩
      rw [← hnumber]
      exact (due_iff.mp (hdue h t ht)).1 hcleared
    | false => exact .inl ⟨t, clearPending_eq_some_iff.mpr ⟨ht, hcleared⟩, hnumber⟩
  · exact ⟨h, hhash, .inr ⟨n, List.mem_cons_of_mem _ hn, hstale⟩⟩

theorem Covered.step (hw : Covered lib w) {e : Event α} (horderly : Orderly lib w e)
    (hstep : step lib w e = some w') : Covered lib w' := by
  cases e with
  | task t => exact hw.task horderly hstep
  | sealReturned failed => exact hw.sealReturned horderly hstep
  | head number =>
    cases hstep
    exact ⟨fun b hb => (hw.flying b hb).head horderly, fun t ht => (hw.sealing t ht).head horderly⟩
  | landed block =>
    rw [MinerTasks.step] at hstep
    split at hstep
    · cases hstep
      exact ⟨fun b hb => hw.flying b (List.mem_of_mem_erase hb), hw.sealing⟩
    · cases hstep

theorem Reachable.covered (hw : Reachable lib w) : Covered lib w := by
  induction hw with
  | refl => exact covered_newWorker
  | tail _ hstep ih =>
    obtain ⟨e, horderly, hstep⟩ := hstep
    exact ih.step horderly hstep

theorem sealHash_of_isSealed {h sealed : Header} (hsealed : IsSealed h sealed) :
    sealHash lib sealed = sealHash lib h := by
  have hpayload : sigHeaderPayload sealed = sigHeaderPayload h := by
    rw [sigHeaderPayload, hsealed.unsealed, hsealed.same]
    rfl
  rw [sealHash, sealHash, encodeSigHeader, encodeSigHeader, hpayload, hsealed.length]

theorem stale_of_noPendingTask (hw : Covered lib w) (hb : b ∈ w.flying) {sealed : Header}
    (hsealed : IsSealed b.header sealed)
    (hresult : resultOf lib w false sealed = some .noPendingTask) :
    Stale w b.header.number := by
  obtain ⟨h, hhash, ⟨t, ht, -⟩ | hstale⟩ := hw.flying b hb
  · rw [resultOf, sealHash_of_isSealed hsealed, hhash] at hresult
    simp [ht] at hresult
  · exact hstale

end Steps

/-- A head clears just the stale tasks if and only if every pending task is due with it; and
where it is so along a run, a sealed block is only discarded for want of a task when it is
stale. -/
theorem clearPending_exact (lib : Primitives) (w : Worker α) :
    (∀ number, ClearsStale w number ↔ ∀ h t, w.pendingTasks h = some t → Due number t) ∧
    (Reachable lib w → ∀ b ∈ w.flying, ∀ sealed, IsSealed b.header sealed →
      resultOf lib w false sealed = some .noPendingTask → Stale w b.header.number) := by
  constructor
  · intro number
    exact clearsStale_iff
  · intro hreachable b hb sealed hsealed hresult
    exact stale_of_noPendingTask hreachable.covered hb hsealed hresult

def toyTask (number : Nat) : Task Unit :=
  ⟨⟨toyHeader number 2 (toyAddress 9), [], [], []⟩, ()⟩

@[irreducible] def toyHash (number : Nat) : Hash :=
  (sealHash toyPrimitives (toyTask number).block.header).getD default

def toyWorker (number : Nat) : Worker Unit :=
  ⟨Function.update (fun _ => none) (toyHash number) (some (toyTask number)), toyHash number,
    none, [(toyTask number).block], []⟩

section Toys

variable {number : Nat}

theorem pendingTasks_toyWorker :
    (toyWorker number).pendingTasks (toyHash number) = some (toyTask number) := by
  change Function.update (fun _ => none) (toyHash number) (some (toyTask number))
    (toyHash number) = some (toyTask number)
  rw [Function.update_self]

theorem due_toyWorker {n : Uint256} (h : Due n (toyTask number)) :
    ∀ k t, (toyWorker number).pendingTasks k = some t → Due n t := by
  intro k t ht
  change Function.update (fun _ => none) (toyHash number) (some (toyTask number)) k = some t at ht
  rw [Function.update_apply] at ht
  split at ht
  · cases ht
    exact h
  · cases ht

section

variable (hhash : sealHash toyPrimitives (toyTask number).block.header = some (toyHash number))
include hhash

theorem step_task_toy (hfresh : toyHash number ≠ default) :
    step toyPrimitives newWorker (.task (toyTask number)) = some
      { toyWorker number with sealing := some (toyTask number), flying := [] } := by
  have hprev : toyHash number ≠ (newWorker : Worker Unit).prev := hfresh
  rw [step, hhash, Option.map_some, if_neg hprev]
  rfl

theorem step_sealReturned_toy :
    step toyPrimitives { toyWorker number with sealing := some (toyTask number), flying := [] }
      (.sealReturned false) = some (toyWorker number) := by
  rw [step, Option.bind_eq_bind, Option.bind_some, hhash]
  rfl

end

end Toys

theorem sealHash_toy_one :
    sealHash toyPrimitives (toyTask 1).block.header = some (toyHash 1) ∧ toyHash 1 ≠ default := by
  decide +kernel

theorem sealHash_toy_ten :
    sealHash toyPrimitives (toyTask 10).block.header = some (toyHash 10) ∧
      toyHash 10 ≠ default := by
  decide +kernel

theorem reachable_toyWorker : Reachable toyPrimitives (toyWorker 1) := by
  obtain ⟨hhash, hfresh⟩ := sealHash_toy_one
  refine .tail (.tail .refl ⟨_, ?_, step_task_toy hhash hfresh⟩)
    ⟨_, ?_, step_sealReturned_toy hhash⟩
  · intro b hb
    cases hb
  · intro hfailed
    cases hfailed

/-- The head with number eight clears the task of the first block, which is stale then. -/
theorem clearPending_exact_due :
    ClearsStale (toyWorker 1) 8 ∧ Reachable toyPrimitives (announce 8 (toyWorker 1)) ∧
      Stale (announce 8 (toyWorker 1)) 1 := by
  have hdue : ∀ h t, (toyWorker 1).pendingTasks h = some t → Due 8 t := due_toyWorker (.inl rfl)
  have hreachable : Reachable toyPrimitives (announce 8 (toyWorker 1)) :=
    reachable_toyWorker.tail ⟨.head 8, hdue, rfl⟩
  have hcleared : (announce 8 (toyWorker 1)).pendingTasks (toyHash 1) = none :=
    (clearPending_eq_none_iff pendingTasks_toyWorker).mpr (by decide)
  refine ⟨((clearPending_exact toyPrimitives (toyWorker 1)).1 8).mpr hdue, hreachable, ?_⟩
  refine (clearPending_exact toyPrimitives (announce 8 (toyWorker 1))).2 hreachable
    (toyTask 1).block List.mem_cons_self (toyTask 1).block.header ⟨rfl, rfl, rfl⟩ ?_
  rw [resultOf, sealHash_toy_one.1, Option.map_some, hcleared]
  rfl

/-- A head one below the block in work clears its task, and the sealed block is discarded
long before it is stale; a head far above keeps it for good. -/
theorem clearPending_inverted :
    (∃ w, [Event.task (toyTask 10), .sealReturned false, .head 9].foldlM
        (step toyPrimitives) newWorker = some w ∧ (toyTask 10).block ∈ w.flying ∧ ¬ Stale w 10 ∧
      resultOf toyPrimitives w false (toyTask 10).block.header = some .noPendingTask) ∧
    ∃ w, [Event.task (toyTask 10), .sealReturned false, .head 100].foldlM
        (step toyPrimitives) newWorker = some w ∧
      Stale w 10 ∧ w.pendingTasks (toyHash 10) = some (toyTask 10) := by
  obtain ⟨hhash, hfresh⟩ := sealHash_toy_ten
  have hrun : ∀ number, [Event.task (toyTask 10), .sealReturned false, .head number].foldlM
      (step toyPrimitives) newWorker = some (announce number (toyWorker 10)) := by
    intro number
    simp only [List.foldlM_cons, step_task_toy hhash hfresh, Option.bind_eq_bind,
      Option.bind_some, step_sealReturned_toy hhash]
    rfl
  have hfresh9 : ¬ Stale (announce 9 (toyWorker 10)) 10 := by
    rintro ⟨n, hn, hle⟩
    cases List.mem_singleton.mp hn
    revert hle
    decide
  have hstale : Stale (announce 100 (toyWorker 10)) 10 :=
    ⟨100, List.mem_singleton_self _, by decide⟩
  refine ⟨⟨_, hrun 9, List.mem_cons_self, hfresh9, ?_⟩, _, hrun 100, hstale, ?_⟩
  · have hcleared : (announce 9 (toyWorker 10)).pendingTasks (toyHash 10) = none :=
      (clearPending_eq_none_iff pendingTasks_toyWorker).mpr (by decide)
    rw [resultOf, hhash, Option.map_some, hcleared]
    rfl
  · exact clearPending_eq_some_iff.mpr ⟨pendingTasks_toyWorker, by decide⟩

end N42.MinerTasks
