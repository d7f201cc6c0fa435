import Mathlib
import N42.SyncTiling

/-!
The first and the last machine of the initial sync.  The starts of the machines are cloned
when the machines are added, and the keys are allocated after them, so that no start is the
same integer as a key.
-/

namespace N42.MachineOrder

open ChainTypes TransactionCodec BlockCounters SyncQueue SyncTiling

variable {β : Type}

/-- Exactly one machine is the first and exactly one is the last, those with the lowest and
the highest start; parsed data of the lowest one is sent, and when all machines are skipped,
the tick of the highest one resets them or finds that there are no required peers. -/
structure Ordered (b : UInt64) (q : BlocksQueue β) : Prop where
  first : ∃! e, e ∈ q.smm.machines ∧ q.smm.isFirst e.2 = some true
  lowest : ∀ e ∈ q.smm.machines, q.smm.isFirst e.2 = some true →
    ∀ e' ∈ q.smm.machines, e.2.start.value ≤ e'.2.start.value
  last : ∃! e, e ∈ q.smm.machines ∧ q.smm.isLast e.2 = some true
  highest : ∀ e ∈ q.smm.machines, q.smm.isLast e.2 = some true →
    ∀ e' ∈ q.smm.machines, e'.2.start.value ≤ e.2.start.value
  sent : ∀ e ∈ q.smm.machines, (∀ e' ∈ q.smm.machines, e.2.start.value ≤ e'.2.start.value) →
    ∀ input, input.cancelled = false → input.channelReady = true → e.2.blocks ≠ [] →
      onReadyToSendEvent input e.2 q = some (.ok .stateSent, q)
  reset : q.smm.allMachinesInState .stateSkipped → ∀ e ∈ q.smm.machines,
    (∀ e' ∈ q.smm.machines, e'.2.start.value ≤ e.2.start.value) →
    ∀ input, input.cancelled = false → onProcessSkippedEvent b input e.2 q =
      if ¬ input.bestFinalizedBlockNr < q.head then some (.error .errNoRequiredPeers, q)
      else resetFromBlockNr b input (addUint64 q.head 1) q

section Managing

variable {smm smm' : StateMachineManager β}

theorem older_congr (h : Older smm) (hstarts : starts smm' = starts smm)
    (hkeys : smm'.keys = smm.keys) (hallocated : smm'.allocated = smm.allocated) : Older smm' where
  keys := hstarts ▸ hkeys ▸ h.keys
  allocated := hstarts ▸ hallocated ▸ h.allocated
  length := by
    have hlength := congrArg List.length hstarts
    rw [starts, List.length_map, starts, List.length_map] at hlength
    rw [hkeys, hlength, h.length]

theorem older_update (h : Older smm) (address : Nat) {f : StateMachine β → StateMachine β}
    (hf : ∀ m, (f m).start = m.start) : Older (smm.update address f) :=
  older_congr h (starts_update address hf) rfl rfl

theorem older_remove (h : Older smm) {startSlot : Uint256}
    (hremove : smm.removeStateMachine startSlot = some smm') : Older smm' := by
  rw [StateMachineManager.removeStateMachine] at hremove
  split at hremove
  · cases hremove
    apply older_recalculate
    intro e he
    obtain ⟨entry, hentry, rfl⟩ := List.mem_map.mp he
    exact h.allocated _ (List.mem_map.mpr ⟨entry, (List.mem_filter.mp hentry).1, rfl⟩)
  · cases hremove

theorem older_addMachines (h : Older smm) {b : UInt64} {bound i : Uint256} {now : Int} {fuel : Nat}
    (hadd : smm.addMachines b bound now fuel i = some smm') : Older smm' := by
  induction fuel generalizing smm i with
  | zero => cases hadd
  | succ fuel ih =>
    rw [StateMachineManager.addMachines] at hadd
    split at hadd
    · exact ih (older_addStateMachine h.allocated i now) hadd
    · cases hadd
      exact h

theorem mem_of_find {n : Uint256} {m : StateMachine β} (h : smm.findStateMachine n = some m) :
    (low64 n, m) ∈ smm.machines := by
  obtain ⟨before, after, hmachines, -⟩ := List.lookup_eq_some_iff.mp h
  rw [hmachines]
  simp

end Managing

section Steps

variable {b : UInt64} {q q' : BlocksQueue β} {input : TickInput}

section

variable (h : Older q.smm)
include h

theorem older_onTick {e : UInt64 × StateMachine β} (he : e ∈ q.smm.machines)
    {result : Except SyncError StateID} (hrun : onTick b input e.2 q = some (result, q')) :
    Older q'.smm := by
  obtain ⟨hfirst, hlast⟩ := h.isFirst_isLast he
  rw [SyncQueue.onTick] at hrun
  cases hstate : e.2.state with
  | stateNew =>
    rw [hstate] at hrun
    dsimp only [onScheduleEvent] at hrun
    split at hrun
    · cases hrun
      exact older_update h _ (start_setState _ _)
    · split at hrun
      · cases hrun
        exact h
      · split at hrun
        · cases hrun
          exact h
        · cases hrun
          exact h
  | stateScheduled =>
    rw [hstate] at hrun
    cases hrun
    exact h
  | stateDataParsed =>
    rw [hstate] at hrun
    obtain ⟨_, hsame⟩ := onReadyToSendEvent_spec input hfirst
    cases hsame.symm.trans hrun
    exact h
  | stateSkipped =>
    rw [hstate] at hrun
    obtain ⟨_, hsame⟩ := onProcessSkippedEvent_spec (b := b) input hlast
    cases hsame.symm.trans hrun
    exact h
  | stateSent =>
    rw [hstate] at hrun
    obtain ⟨_, hsame⟩ := onCheckStaleEvent_spec input e.2 q
    cases hsame.symm.trans hrun
    exact h

theorem older_handles (h' : Handles b q q') : Older q'.smm :=
  older_congr h h'.starts h'.keys h'.allocated

theorem older_triggerTick {key : Pointer} (hrun : triggerTick b input key q = some q') :
    Older q'.smm := by
  rw [SyncQueue.triggerTick] at hrun
  rcases hfind : q.smm.findStateMachine key.value with _ | m
  · rw [hfind] at hrun
    cases hrun
  · rw [hfind] at hrun
    dsimp only at hrun
    rcases htick : SyncQueue.onTick b input m q with _ | ⟨result, q₁⟩
    · rw [htick] at hrun
      cases hrun
    · have h₁ := older_handles (older_onTick h (mem_of_find hfind) htick)
        (handles_finishTrigger (b := b) input m result q₁)
      rw [htick] at hrun
      dsimp only [Option.map_some] at hrun
      split at hrun
      · cases hrun
      · rename_i heq
        rw [Option.some.inj heq] at h₁
        split at hrun
        · cases hrun
          exact h₁
        · cases hrun
          exact h₁
      · rename_i heq
        rw [Option.some.inj heq] at h₁
        cases hrun
        exact h₁

theorem older_collect {start : Pointer} {now : Int} (hrun : collect b start now q = some q') :
    Older q'.smm := by
  have hremoved : Older ((q.smm.removeStateMachine start.value).getD q.smm) := by
    rcases hremove : q.smm.removeStateMachine start.value with _ | smm
    · exact h
    · exact older_remove h hremove
  rw [SyncQueue.collect] at hrun
  split at hrun
  · split at hrun
    · cases hrun
    · cases hrun
      exact h
    · dsimp only at hrun
      split at hrun
      · cases hrun
        exact older_addStateMachine hremoved.allocated _ _
      · cases hrun
        exact hremoved
  · cases hrun
    exact h

theorem older_step {event : Event β} (hrun : step b q event = some q') : Older q'.smm := by
  cases event with
  | head number =>
    cases hrun
    exact h
  | raise target =>
    rw [SyncQueue.step] at hrun
    split at hrun
    · cases hrun
      exact h
    · cases hrun
      exact h
  | tick =>
    rw [SyncQueue.step] at hrun
    split at hrun
    · cases hrun
      exact h
    · cases hrun
      exact h
  | trigger input =>
    rw [SyncQueue.step] at hrun
    split at hrun
    · rename_i key pending _ _
      exact older_triggerTick (q := { q with pending }) h hrun
    · cases hrun
      exact h
  | collect now =>
    rw [SyncQueue.step] at hrun
    split at hrun
    · exact older_collect (q := { q with collecting := none }) h hrun
    · cases hrun
      exact h
  | response input response =>
    rw [SyncQueue.step] at hrun
    split at hrun
    · obtain ⟨q₁, hreceive, hhandles⟩ := receive_handles (b := b) input response q
      cases hreceive.symm.trans hrun
      exact older_handles h hhandles
    · cases hrun
      exact h

theorem older_run {events : List (Event β)} (hrun : run b q events = some q') : Older q'.smm := by
  induction events generalizing q with
  | nil =>
    cases hrun
    exact h
  | cons event events ih =>
    rw [SyncQueue.run, List.foldlM_cons] at hrun
    obtain ⟨q₁, hstep, hrest⟩ := Option.bind_eq_some_iff.mp hrun
    exact ih (older_step h hstep) hrest

end

theorem older_startQueue {head highest : Uint256} {now : Int}
    (h : startQueue b head highest now = some q) : Older q.smm := by
  obtain ⟨smm, hadd, rfl⟩ := Option.map_eq_some_iff.mp h
  have hnew : Older (.new : StateMachineManager β) :=
    ⟨fun _ he => (by cases he), fun _ he => (by cases he), rfl⟩
  exact older_addMachines hnew hadd

end Steps

/-- In every state of every run no machine is the first and none is the last, so that the
machines are ordered only if there are none.  The lowest one is sent all the same, because it
has no machine to wait for, but a skipped machine only waits and starts again. -/
theorem machines_unordered (b : UInt64) (head highest : Uint256) (now : Int)
    (events : List (Event β)) {q₀ q : BlocksQueue β}
    (hstart : startQueue b head highest now = some q₀) (hrun : run b q₀ events = some q) :
    ((q.smm.machines ≠ [] → Ordered b q) ↔ q.smm.machines = []) ∧
    (∀ e ∈ q.smm.machines, q.smm.isFirst e.2 = some false ∧ q.smm.isLast e.2 = some false) ∧
    (∀ e ∈ q.smm.machines, (∀ e' ∈ q.smm.machines, e.2.start.value ≤ e'.2.start.value) →
      ∀ input, input.cancelled = false → input.channelReady = true → e.2.blocks ≠ [] →
        onReadyToSendEvent input e.2 q = some (.ok .stateSent, q)) ∧
    (∀ e ∈ q.smm.machines, ∀ input, input.cancelled = false → onProcessSkippedEvent b input e.2 q =
        some (.ok (if input.now - e.2.updated > skippedMachineTimeout then .stateNew
          else e.2.state), q)) := by
  have hall : ∀ e ∈ q.smm.machines,
      q.smm.isFirst e.2 = some false ∧ q.smm.isLast e.2 = some false :=
    fun e he => (older_run (older_startQueue hstart) hrun).isFirst_isLast he
  refine ⟨⟨?_, fun hnil hne => absurd hnil hne⟩, hall, ?_, ?_⟩
  · intro hordered
    by_contra hne
    obtain ⟨e, ⟨he, hfirst⟩, -⟩ := (hordered hne).first
    rw [(hall e he).1] at hfirst
    cases hfirst
  · intro e he hlowest input hcancelled hready hblocks
    have hnone : (q.smm.machines.any fun e' => decide (e'.2.start.value < e.2.start.value ∧
        (e'.2.state = .stateNew ∨ e'.2.state = .stateScheduled ∨
          e'.2.state = .stateDataParsed))) = false := by
      rw [List.any_eq_false]
      intro e' he'
      have hle := hlowest e' he'
      simp only [decide_eq_true_eq, not_and]
      intro hlt
      exact absurd hlt (BitVec.not_lt.mpr hle)
    rw [onReadyToSendEvent, (hall e he).1, hcancelled, if_neg Bool.false_ne_true,
      if_neg (by simpa using hblocks)]
    dsimp only
    rw [hnone, if_neg Bool.false_ne_true, if_pos hready]
  · intro e he input hcancelled
    rw [onProcessSkippedEvent, (hall e he).2, hcancelled, if_neg Bool.false_ne_true]
    dsimp only
    split
    · rfl
    · rfl

theorem toyEvents_unordered :
    ∃ q₀ q, startQueue 4 0 100 0 = some q₀ ∧ run 4 q₀ toyEvents = some q ∧
      ((q.smm.machines ≠ [] → Ordered 4 q) ↔ q.smm.machines = []) := by
  obtain ⟨q₀, hstart, hhead, hwindow⟩ :=
    startQueue_window (β := Unit) (b := 4) (by decide) 100 0
      (by decide : (0 : Uint256).toNat + 2 * (4 : UInt64).toNat + 2 ≤ 2 ^ 64)
  have hadvance : Advancing 4 q₀.head toyEvents := by
    rw [hhead]
    exact ⟨by decide, (by decide : (8 : Uint256).toNat + 2 * (4 : UInt64).toNat + 2 ≤ 2 ^ 64)⟩
  obtain ⟨q, lo, hi, hrun, -⟩ := hwindow.run (by decide) hadvance
  exact ⟨q₀, q, hstart, hrun, (machines_unordered 4 0 100 0 toyEvents hstart hrun).1⟩

/-- Of the two machines of a new queue none is the first and none is the last. -/
theorem new_queue_unordered :
    (startQueue 4 0 100 0 : Option (BlocksQueue Unit)).map (fun q =>
      q.smm.machines.map fun e => (q.smm.isFirst e.2, q.smm.isLast e.2)) =
      some [(some false, some false), (some false, some false)] := by
  decide +kernel

end N42.MachineOrder
