import Mathlib
import N42.SyncQueue

/-!
The ranges of the machines of the initial sync: they do not overlap, and they cover all
numbers above the head up to the end of the last range, whenever the head advances.
-/

namespace N42.SyncTiling

open ChainTypes TransactionCodec BlockCounters SyncQueue

variable {β : Type}

def numbers (blocksPerRequest : UInt64) (m : StateMachine β) : Set Nat :=
  Set.Ico m.start.value.toNat (m.start.value.toNat + blocksPerRequest.toNat)

/-- There is a machine, no two ranges overlap, and every number above the head and below
the end of a range is in exactly one range. -/
structure Tiled (blocksPerRequest : UInt64) (q : BlocksQueue β) : Prop where
  nonempty : q.smm.machines ≠ []
  disjoint : q.smm.machines.Pairwise fun e e' =>
    Disjoint (numbers blocksPerRequest e.2) (numbers blocksPerRequest e'.2)
  covered : ∀ n, q.head.toNat < n →
    (∃ e ∈ q.smm.machines, n < e.2.start.value.toNat + blocksPerRequest.toNat) →
    ∃! e, e ∈ q.smm.machines ∧ n ∈ numbers blocksPerRequest e.2

structure Inside (blocksPerRequest : UInt64) (highest : Uint256) (r : FetchRequest) : Prop where
  lower : r.machine.toNat ≤ r.start.toNat
  upper : r.start.toNat + r.count.toNat ≤ r.machine.toNat + blocksPerRequest.toNat
  expected : r.start.toNat + r.count.toNat ≤ highest.toNat + 1

/-- The head does not decrease from this number on, and stays below the end of the keys of
the machines. -/
def Advancing (blocksPerRequest : UInt64) : Uint256 → List (Event β) → Prop
  | head, [] => head.toNat + 2 * blocksPerRequest.toNat + 2 ≤ 2 ^ 64
  | head, .head number :: events => head ≤ number ∧ Advancing blocksPerRequest number events
  | head, _ :: events => Advancing blocksPerRequest head events

section Layouts

def starts (smm : StateMachineManager β) : List (UInt64 × Pointer) :=
  smm.machines.map fun e => (e.1, e.2.start)

/-- There are as many keys as machines, and the starts are older than the keys. -/
structure Older (smm : StateMachineManager β) : Prop where
  keys : ∀ e ∈ starts smm, ∀ key ∈ smm.keys, e.2.address < key.address
  allocated : ∀ e ∈ starts smm, e.2.address < smm.allocated
  length : smm.keys.length = smm.machines.length

/-- There are two machines, which start at these numbers.  The keys have been allocated
after the starts. -/
structure Layout (lo hi : Nat) (smm : StateMachineManager β) : Prop where
  lt : lo < hi
  fits : hi < 2 ^ 64
  placed : ∃ a b, starts smm = [(UInt64.ofNat lo, ⟨a, word lo⟩), (UInt64.ofNat hi, ⟨b, word hi⟩)]
  keys : smm.keys.map Pointer.value = [word lo, word hi]
  older : ∀ e ∈ starts smm, ∀ key ∈ smm.keys, e.2.address < key.address
  allocated : ∀ e ∈ starts smm, e.2.address < smm.allocated

variable {lo hi : Nat} {smm smm' : StateMachineManager β}

theorem Older.isFirst_isLast (h : Older smm) {e : UInt64 × StateMachine β}
    (he : e ∈ smm.machines) : smm.isFirst e.2 = some false ∧ smm.isLast e.2 = some false := by
  have hstart : (e.1, e.2.start) ∈ starts smm := List.mem_map.mpr ⟨e, he, rfl⟩
  have hne : smm.keys ≠ [] := by
    intro hnil
    have hlength := h.length
    rw [hnil] at hlength
    exact List.ne_nil_of_mem he (List.length_eq_zero_iff.mp hlength.symm)
  have hfirst := h.keys _ hstart _ (List.head_mem hne)
  have hlast := h.keys _ hstart _ (List.getLast_mem hne)
  rw [StateMachineManager.isFirst, StateMachineManager.isLast, List.head?_eq_some_head hne,
    List.getLast?_eq_some_getLast hne]
  simp [hfirst.ne, hlast.ne]

theorem older_recalculate (h : ∀ e ∈ starts smm, e.2.address < smm.allocated) :
    Older smm.recalculateMachineAttribs where
  keys := by
    intro e he key hkey
    obtain ⟨entry, hentry, rfl⟩ := List.mem_map.mp hkey
    exact (h e he).trans_le (List.le_snd_of_mem_zipIdx hentry)
  allocated := fun e he => (h e he).trans_le (Nat.le_add_right _ _)
  length := by simp [StateMachineManager.recalculateMachineAttribs]

theorem mem_putMachine {key : UInt64} {m : StateMachine β}
    {machines : List (UInt64 × StateMachine β)} {e : UInt64 × StateMachine β}
    (he : e ∈ StateMachineManager.putMachine key m machines) : e ∈ machines ∨ e = (key, m) := by
  rw [StateMachineManager.putMachine] at he
  split at he
  · obtain ⟨e', he', rfl⟩ := List.mem_map.mp he
    split
    · exact .inr rfl
    · exact .inl he'
  · simpa using he

theorem older_addStateMachine (h : ∀ e ∈ starts smm, e.2.address < smm.allocated)
    (startBlockNr : Uint256) (now : Int) : Older (smm.addStateMachine startBlockNr now) := by
  apply older_recalculate
  intro e he
  obtain ⟨entry, hentry, rfl⟩ := List.mem_map.mp he
  rcases mem_putMachine hentry with hold | rfl
  · exact (h _ (List.mem_map.mpr ⟨entry, hold, rfl⟩)).trans (Nat.lt_succ_self _)
  · exact Nat.lt_succ_self _

section

variable (h : Layout lo hi smm)
include h

theorem Layout.congr (hstarts : starts smm' = starts smm) (hkeys : smm'.keys = smm.keys)
    (hallocated : smm'.allocated = smm.allocated) :
    Layout lo hi smm' where
  lt := h.lt
  fits := h.fits
  placed := hstarts ▸ h.placed
  keys := hkeys ▸ h.keys
  older := hstarts ▸ hkeys ▸ h.older
  allocated := hstarts ▸ hallocated ▸ h.allocated

theorem Layout.machines :
    ∃ m₁ m₂, smm.machines = [(UInt64.ofNat lo, m₁), (UInt64.ofNat hi, m₂)] ∧
      m₁.start.value = word lo ∧ m₂.start.value = word hi := by
  obtain ⟨a, b, hstarts⟩ := h.placed
  obtain ⟨e₁, rest, hmachines, he₁, hrest⟩ := List.map_eq_cons_iff.mp hstarts
  obtain ⟨e₂, rest, rfl, he₂, hnil⟩ := List.map_eq_cons_iff.mp hrest
  obtain rfl := List.map_eq_nil_iff.mp hnil
  obtain ⟨key₁, m₁⟩ := e₁
  obtain ⟨key₂, m₂⟩ := e₂
  simp only [Prod.mk.injEq] at he₁ he₂
  obtain ⟨rfl, hm₁⟩ := he₁
  obtain ⟨rfl, hm₂⟩ := he₂
  exact ⟨m₁, m₂, hmachines, by rw [hm₁], by rw [hm₂]⟩

theorem Layout.ofNat_ne : UInt64.ofNat lo ≠ UInt64.ofNat hi := by
  have hlt := h.lt
  have hfits := h.fits
  intro heq
  have hnat := congrArg UInt64.toNat heq
  rw [UInt64.toNat_ofNat', UInt64.toNat_ofNat'] at hnat
  omega

theorem Layout.find {n : Nat} (hn : n = lo ∨ n = hi) :
    ∃ m, smm.findStateMachine (word n) = some m ∧ m.start.value = word n ∧
      (UInt64.ofNat n, m) ∈ smm.machines := by
  obtain ⟨m₁, m₂, hmachines, hm₁, hm₂⟩ := h.machines
  have hlt := h.lt
  have hfits := h.fits
  rw [StateMachineManager.findStateMachine, hmachines, low64_word (by omega)]
  rcases hn with rfl | rfl
  · exact ⟨m₁, by simp, hm₁, by simp⟩
  · refine ⟨m₂, ?_, hm₂, by simp⟩
    have hne : (UInt64.ofNat n == UInt64.ofNat lo) = false := by
      simpa using h.ofNat_ne.symm
    simp [List.lookup, hne]

theorem Layout.isFirst_isLast {key : UInt64} {m : StateMachine β} (hm : (key, m) ∈ smm.machines) :
    smm.isFirst m = some false ∧ smm.isLast m = some false := by
  obtain ⟨m₁, m₂, hmachines, -, -⟩ := h.machines
  have hlength := congrArg List.length h.keys
  rw [List.length_map] at hlength
  have hold : Older smm := ⟨h.older, h.allocated, by rw [hlength, hmachines]; rfl⟩
  exact hold.isFirst_isLast hm

end

end Layouts

section Managing

variable {lo hi : Nat} {smm : StateMachineManager β} (now : Int)

theorem toNat_ofNat {n : Nat} (h : n < 2 ^ 64) : (UInt64.ofNat n).toNat = n := by
  rw [UInt64.toNat_ofNat', Nat.mod_eq_of_lt h]

theorem layout_addStateMachine {m : StateMachine β}
    (hmachines : smm.machines = [(UInt64.ofNat lo, m)]) (hm : m.start.value = word lo)
    (hallocated : m.start.address < smm.allocated) (hlt : lo < hi) (hfits : hi < 2 ^ 64) :
    Layout lo hi (smm.addStateMachine (word hi) now) := by
  have hlo : (UInt64.ofNat lo).toNat = lo := toNat_ofNat (by omega)
  have hhi : (UInt64.ofNat hi).toNat = hi := toNat_ofNat hfits
  have hne : UInt64.ofNat hi ≠ UInt64.ofNat lo := by
    intro heq
    have hnat := congrArg UInt64.toNat heq
    omega
  have hle : UInt64.ofNat lo ≤ UInt64.ofNat hi := by
    rw [UInt64.le_iff_toNat_le, hlo, hhi]
    omega
  have hstart : m.start = ⟨m.start.address, word lo⟩ := by rw [← hm]
  have hadded : smm.addStateMachine (word hi) now =
      { keys := [⟨smm.allocated + 1, word lo⟩, ⟨smm.allocated + 1 + 1, word hi⟩]
        machines := [(UInt64.ofNat lo, m),
          (UInt64.ofNat hi, ⟨⟨smm.allocated, word hi⟩, .stateNew, [], now⟩)]
        allocated := smm.allocated + 1 + 2 } := by
    rw [StateMachineManager.addStateMachine, StateMachineManager.recalculateMachineAttribs,
      low64_word (by omega), StateMachineManager.putMachine, hmachines]
    simp [hne, List.insertionSort, hle, hlo, hhi]
  have hold : Older (smm.addStateMachine (word hi) now) := by
    apply older_addStateMachine
    rw [starts, hmachines]
    simpa using hallocated
  rw [hadded] at hold ⊢
  refine ⟨hlt, hfits, ⟨m.start.address, smm.allocated, ?_⟩, rfl, hold.keys, hold.allocated⟩
  rw [starts, List.map_cons, List.map_cons, List.map_nil, ← hstart]

theorem Layout.remove (h : Layout lo hi smm) {n other : Nat}
    (hn : n = lo ∧ other = hi ∨ n = hi ∧ other = lo) :
    ∃ smm' m, smm.removeStateMachine (word n) = some smm' ∧
      smm'.machines = [(UInt64.ofNat other, m)] ∧ m.start.value = word other ∧
      m.start.address < smm'.allocated := by
  obtain ⟨m₁, m₂, hmachines, hm₁, hm₂⟩ := h.machines
  have hlt := h.lt
  have hfits := h.fits
  have hne := h.ofNat_ne
  have hold : ∀ e ∈ smm.machines, e.2.start.address < smm.allocated := by
    intro e he
    exact h.allocated (e.1, e.2.start) (List.mem_map.mpr ⟨e, he, rfl⟩)
  rw [hmachines] at hold
  rw [StateMachineManager.removeStateMachine, low64_word (by omega), hmachines]
  rcases hn with ⟨rfl, rfl⟩ | ⟨rfl, rfl⟩
  · refine ⟨_, m₂, if_pos (by simp), ?_, hm₂, ?_⟩
    · simp [StateMachineManager.recalculateMachineAttribs, hne.symm]
    · have hm := hold (UInt64.ofNat other, m₂) (by simp)
      exact Nat.lt_of_lt_of_le hm (Nat.le_add_right _ _)
  · refine ⟨_, m₁, if_pos (by simp), ?_, hm₁, ?_⟩
    · simp [StateMachineManager.recalculateMachineAttribs, hne]
    · have hm := hold (UInt64.ofNat other, m₁) (by simp)
      exact Nat.lt_of_lt_of_le hm (Nat.le_add_right _ _)

theorem Layout.highestStartSlot (h : Layout lo hi smm) :
    smm.highestStartSlot = some (some (word hi)) := by
  obtain ⟨m, hm, hstart, -⟩ := h.find (Or.inr rfl)
  obtain ⟨k₁, rest, hkeys, -, hrest⟩ := List.map_eq_cons_iff.mp h.keys
  obtain ⟨k₂, rest, rfl, hk₂, hnil⟩ := List.map_eq_cons_iff.mp hrest
  obtain rfl := List.map_eq_nil_iff.mp hnil
  rw [StateMachineManager.highestStartSlot, hkeys]
  simp only [List.getLast?_cons_cons, List.getLast?_singleton, hk₂, hm, Option.map_some, hstart]

theorem starts_update (address : Nat) {f : StateMachine β → StateMachine β}
    (hf : ∀ m, (f m).start = m.start) : starts (smm.update address f) = starts smm := by
  rw [starts, StateMachineManager.update, List.map_map, starts]
  apply List.map_congr_left
  intro e _
  rw [Function.comp_apply]
  split
  · rw [hf]
  · rfl

theorem start_setState (state : StateID) (now : Int) (m : StateMachine β) :
    (m.setState state now).start = m.start := by
  rw [StateMachine.setState]
  split
  · rfl
  · rfl

end Managing

section Handlers

/-- What a handler may change: the states and blocks of machines, and the requests, to
which only ones inside the range of their machine are added. -/
structure Handles (blocksPerRequest : UInt64) (q q' : BlocksQueue β) : Prop where
  starts : starts q'.smm = starts q.smm
  keys : q'.smm.keys = q.smm.keys
  allocated : q'.smm.allocated = q.smm.allocated
  head : q'.head = q.head
  highest : q'.highestExpectedBlockNr = q.highestExpectedBlockNr
  pending : q'.pending = q.pending
  collecting : q'.collecting = q.collecting
  requests : ∀ r ∈ q'.requests,
    r ∈ q.requests ∨ Inside blocksPerRequest q.highestExpectedBlockNr r

variable {b : UInt64} {lo hi : Nat} {q q' q'' : BlocksQueue β}

theorem Handles.refl (q : BlocksQueue β) : Handles b q q :=
  ⟨rfl, rfl, rfl, rfl, rfl, rfl, rfl, fun _ hr => .inl hr⟩

theorem Handles.trans (h : Handles b q q') (h' : Handles b q' q'') : Handles b q q'' where
  starts := h'.starts.trans h.starts
  keys := h'.keys.trans h.keys
  allocated := h'.allocated.trans h.allocated
  head := h'.head.trans h.head
  highest := h'.highest.trans h.highest
  pending := h'.pending.trans h.pending
  collecting := h'.collecting.trans h.collecting
  requests := by
    intro r hr
    rcases h'.requests r hr with hr | hr
    · exact h.requests r hr
    · exact .inr (h.highest ▸ hr)

theorem handles_update (q : BlocksQueue β) (address : Nat) {f : StateMachine β → StateMachine β}
    (hf : ∀ m, (f m).start = m.start) :
    Handles b q { q with smm := q.smm.update address f } :=
  ⟨starts_update address hf, rfl, rfl, rfl, rfl, rfl, rfl, fun _ hr => .inl hr⟩

theorem inside_request {n : Nat} {highest : Uint256} (hn : n < 2 ^ 64)
    (hle : ¬ word n > highest) :
    Inside b highest ⟨word n, word n,
      if highest < addUint64 (word n) b then low64 (highest - word n) + 1 else b⟩ := by
  have hb := b.toNat_lt
  have hstart : (word n).toNat = n := toNat_word (by omega)
  rw [gt_iff_lt, BitVec.not_lt, BitVec.le_def, hstart] at hle
  rw [addUint64_word]
  split
  · rename_i hlt
    rw [BitVec.lt_def, toNat_word (by omega)] at hlt
    have hcount : (low64 (highest - word n) + 1).toNat = highest.toNat - n + 1 := by
      have hdiff := word_sub_word hle (by omega)
      have hone : (1 : UInt64).toNat = 1 := rfl
      rw [word_toNat] at hdiff
      rw [hdiff, low64_word (by omega), UInt64.toNat_add, toNat_ofNat (by omega), hone]
      omega
    refine ⟨le_rfl, ?_, ?_⟩
    · rw [hcount, hstart]
      omega
    · rw [hcount, hstart]
      omega
  · rename_i hge
    rw [BitVec.not_lt, BitVec.le_def, toNat_word (by omega)] at hge
    refine ⟨le_rfl, le_rfl, ?_⟩
    dsimp only
    omega

variable {m : StateMachine β}

section

variable (input : TickInput)

theorem onScheduleEvent_spec {n : Nat} (hstart : m.start.value = word n) (hn : n < 2 ^ 64)
    (q : BlocksQueue β) :
    ∃ result q', onScheduleEvent b input m q = some (result, q') ∧ Handles b q q' := by
  rw [onScheduleEvent]
  split
  · exact ⟨_, _, rfl, handles_update q _ (start_setState _ _)⟩
  · rename_i hle
    dsimp only
    split
    · exact ⟨_, _, rfl, .refl q⟩
    · split
      · exact ⟨_, _, rfl, .refl q⟩
      · refine ⟨_, _, rfl, rfl, rfl, rfl, rfl, rfl, rfl, rfl, ?_⟩
        intro r hr
        rcases List.mem_append.mp hr with hr | hr
        · exact .inl hr
        · rw [List.mem_singleton.mp hr, hstart]
          rw [hstart] at hle
          exact .inr (inside_request hn hle)

theorem onReadyToSendEvent_spec {first : Bool} (hfirst : q.smm.isFirst m = some first) :
    ∃ result, onReadyToSendEvent input m q = some (result, q) := by
  have hsend : ∃ result, (if input.channelReady then some (.ok .stateSent, q)
      else some (.error .errContextCanceled, q) : Handled β) = some (result, q) := by
    split
    · exact ⟨_, rfl⟩
    · exact ⟨_, rfl⟩
  rw [onReadyToSendEvent, hfirst]
  split
  · exact ⟨_, rfl⟩
  · split
    · exact ⟨_, rfl⟩
    · cases first with
      | true => exact hsend
      | false =>
        dsimp only
        split
        · exact ⟨_, rfl⟩
        · exact hsend

theorem onProcessSkippedEvent_spec (hlast : q.smm.isLast m = some false) :
    ∃ result, onProcessSkippedEvent b input m q = some (result, q) := by
  rw [onProcessSkippedEvent, hlast]
  split
  · exact ⟨_, rfl⟩
  · dsimp only
    split
    · exact ⟨_, rfl⟩
    · exact ⟨_, rfl⟩

theorem onCheckStaleEvent_spec (m : StateMachine β) (q : BlocksQueue β) :
    ∃ result, onCheckStaleEvent input m q = some (result, q) := by
  rw [onCheckStaleEvent]
  split
  · exact ⟨_, rfl⟩
  · split
    · exact ⟨_, rfl⟩
    · exact ⟨_, rfl⟩

theorem onTick_spec (h : Layout lo hi q.smm) (input : TickInput) {n : Nat}
    (hm : (UInt64.ofNat n, m) ∈ q.smm.machines) (hstart : m.start.value = word n) (hn : n < 2 ^ 64) :
    ∃ result q', onTick b input m q = some (result, q') ∧ Handles b q q' := by
  obtain ⟨hfirst, hlast⟩ := h.isFirst_isLast hm
  rw [onTick]
  cases m.state with
  | stateNew => exact onScheduleEvent_spec input hstart hn q
  | stateScheduled => exact ⟨_, q, rfl, .refl q⟩
  | stateDataParsed =>
    obtain ⟨result, hresult⟩ := onReadyToSendEvent_spec input hfirst
    exact ⟨result, q, hresult, .refl q⟩
  | stateSkipped =>
    obtain ⟨result, hresult⟩ := onProcessSkippedEvent_spec (b := b) input hlast
    exact ⟨result, q, hresult, .refl q⟩
  | stateSent =>
    obtain ⟨result, hresult⟩ := onCheckStaleEvent_spec input m q
    exact ⟨result, q, hresult, .refl q⟩

theorem handles_finishTrigger (m : StateMachine β) (result : Except SyncError StateID)
    (q : BlocksQueue β) :
    Handles b q (finishTrigger input m (result, q)).2 := by
  cases result with
  | error e => exact .refl q
  | ok state => exact handles_update q _ (start_setState _ _)

theorem onDataReceivedEvent_spec (response : FetchResponse β) (m : StateMachine β)
    (q : BlocksQueue β) :
    ∃ result q', onDataReceivedEvent input response m q = some (result, q') ∧
      Handles b q q' := by
  rw [onDataReceivedEvent]
  split
  · exact ⟨_, _, rfl, .refl q⟩
  · cases response.err with
    | none => exact ⟨_, _, rfl, handles_update q _ fun _ => rfl⟩
    | some e =>
      dsimp only
      split
      · refine ⟨_, _, rfl, ?_, rfl, rfl, rfl, rfl, rfl, rfl, fun _ hr => .inl hr⟩
        rw [starts, List.map_map, starts]
        apply List.map_congr_left
        intro entry _
        rw [Function.comp_apply]
        split
        · rw [start_setState]
        · rfl
      · exact ⟨_, _, rfl, .refl q⟩

theorem receive_handles (response : FetchResponse β) (q : BlocksQueue β) :
    ∃ q', receive input response q = some q' ∧ Handles b q q' := by
  rw [SyncQueue.receive]
  cases q.smm.findStateMachine response.start with
  | none => exact ⟨q, rfl, .refl q⟩
  | some fsm =>
    dsimp only
    split
    · obtain ⟨result, q₁, hhandled, hhandles⟩ :=
        onDataReceivedEvent_spec (b := b) input response fsm q
      have hfinish := hhandles.trans (handles_finishTrigger input fsm result q₁)
      rw [hhandled, Option.map_some]
      generalize finishTrigger input fsm (result, q₁) = finished at hfinish ⊢
      obtain ⟨outcome, q₂⟩ := finished
      cases outcome with
      | ok u => exact ⟨q₂, rfl, hfinish⟩
      | error e =>
        exact ⟨_, rfl, hfinish.trans
          (handles_update q₂ fsm.start.address (start_setState .stateNew input.now))⟩
    · exact ⟨q, rfl, .refl q⟩

end

end Handlers

section Steps

/-- The two machines and the head: the ranges do not overlap, the first one does not begin
behind the head, and the second one begins where the first one ends unless the head has
reached it.  The captured keys that are left are keys of machines. -/
structure Window (b : UInt64) (lo hi : Nat) (q : BlocksQueue β) : Prop where
  layout : Layout lo hi q.smm
  apart : lo + b.toNat ≤ hi
  begun : lo ≤ q.head.toNat + 1
  joined : hi = lo + b.toNat ∨ hi ≤ q.head.toNat + 1
  room : q.head.toNat + 2 * b.toNat + 2 ≤ 2 ^ 64
  nodup : (q.pending.map Pointer.value).Nodup
  pending : ∀ key ∈ q.pending, key.value = word lo ∨ key.value = word hi
  collecting : ∀ start, q.collecting = some start →
    (start.value = word lo ∨ start.value = word hi) ∧ start.value ∉ q.pending.map Pointer.value
  requests : ∀ r ∈ q.requests, Inside b q.highestExpectedBlockNr r

variable {b : UInt64} {lo hi : Nat} {q q' : BlocksQueue β}

theorem Inside.mono {highest highest' : Uint256} {r : FetchRequest} (h : Inside b highest r)
    (hle : highest ≤ highest') : Inside b highest' r := by
  rw [BitVec.le_def] at hle
  have hexpected := h.expected
  exact ⟨h.lower, h.upper, by omega⟩

theorem Window.handles (h : Window b lo hi q) (h' : Handles b q q') : Window b lo hi q' where
  layout := h.layout.congr h'.starts h'.keys h'.allocated
  apart := h.apart
  begun := h'.head ▸ h.begun
  joined := h'.head ▸ h.joined
  room := h'.head ▸ h.room
  nodup := h'.pending ▸ h.nodup
  pending := h'.pending ▸ h.pending
  collecting := h'.pending ▸ h'.collecting ▸ h.collecting
  requests := by
    intro r hr
    rw [h'.highest]
    rcases h'.requests r hr with hr | hr
    · exact h.requests r hr
    · exact hr

theorem Window.head (h : Window b lo hi q) {number : Uint256} (hle : q.head ≤ number)
    (hroom : number.toNat + 2 * b.toNat + 2 ≤ 2 ^ 64) :
    Window b lo hi { q with head := number } := by
  rw [BitVec.le_def] at hle
  have hbegun := h.begun
  have hjoined := h.joined
  exact { h with begun := by dsimp only; omega, joined := by dsimp only; omega, room := hroom }

theorem Window.tick (h : Window b lo hi q) (hcollecting : q.collecting = none) :
    Window b lo hi { q with pending := q.smm.keys } := by
  have hlt := h.layout.lt
  have hfits := h.layout.fits
  have hne : word lo ≠ word hi := by
    intro heq
    have hnat := congrArg BitVec.toNat heq
    rw [toNat_word (by omega), toNat_word (by omega)] at hnat
    omega
  refine { h with nodup := ?_, pending := ?_, collecting := ?_ }
  · rw [h.layout.keys]
    simpa using hne
  · intro key hkey
    have hvalue : key.value ∈ q.smm.keys.map Pointer.value := List.mem_map_of_mem hkey
    rw [h.layout.keys] at hvalue
    simpa using hvalue
  · intro start hstart
    rw [hcollecting] at hstart
    cases hstart

theorem Window.triggerTick (h : Window b lo hi q) (input : TickInput) {key : Pointer}
    {rest : List Pointer} (hpending : q.pending = key :: rest) (hcollecting : q.collecting = none) :
    ∃ q', triggerTick b input key { q with pending := rest } = some q' ∧ q'.head = q.head ∧
      Window b lo hi q' := by
  have hlt := h.layout.lt
  have hfits := h.layout.fits
  have hnodup := h.nodup
  rw [hpending, List.map_cons, List.nodup_cons] at hnodup
  obtain ⟨n, hn, hvalue⟩ : ∃ n, (n = lo ∨ n = hi) ∧ key.value = word n := by
    rcases h.pending key (by rw [hpending]; exact List.mem_cons_self) with hkey | hkey
    · exact ⟨lo, .inl rfl, hkey⟩
    · exact ⟨hi, .inr rfl, hkey⟩
  have hwindow : Window b lo hi { q with pending := rest } :=
    { h with
      nodup := hnodup.2
      pending := fun k hk => h.pending k (by rw [hpending]; exact List.mem_cons_of_mem _ hk)
      collecting := fun start hstart => by
        rw [hcollecting] at hstart
        cases hstart }
  obtain ⟨fsm, hfound, hstart, hmem⟩ := hwindow.layout.find hn
  obtain ⟨result, q₁, hhandled, hhandles⟩ :=
    onTick_spec (b := b) hwindow.layout input hmem hstart (by omega)
  have hfinish := hhandles.trans (handles_finishTrigger input fsm result q₁)
  rw [SyncQueue.triggerTick, hvalue, hfound]
  dsimp only
  rw [hhandled, Option.map_some]
  -- the queue after the handler, whatever the handler has returned
  generalize finishTrigger input fsm (result, q₁) = finished at hfinish ⊢
  obtain ⟨outcome, q₂⟩ := finished
  have hq₂ := hwindow.handles hfinish
  have hcollect : Window b lo hi { q₂ with collecting := some fsm.start } := by
    refine { hq₂ with collecting := ?_ }
    intro start heq
    cases heq
    rw [hstart, hfinish.pending, ← hvalue]
    refine ⟨?_, hnodup.1⟩
    rw [hvalue]
    rcases hn with rfl | rfl
    · exact .inl rfl
    · exact .inr rfl
  split
  · rename_i heq
    cases heq
  · rename_i heq
    cases heq
    split
    · exact ⟨_, rfl, hfinish.head, hq₂⟩
    · exact ⟨_, rfl, hfinish.head, { hq₂ with }⟩
  · rename_i heq
    cases heq
    exact ⟨_, rfl, hfinish.head, hcollect⟩

theorem Window.collect (hb : b ≠ 0) (h : Window b lo hi q) (now : Int) {start : Pointer}
    (hcollecting : q.collecting = some start) :
    ∃ q' lo' hi', collect b start now { q with collecting := none } = some q' ∧
      q'.head = q.head ∧ Window b lo' hi' q' := by
  have hroom := h.room
  have hjoined := h.joined
  have hapart := h.apart
  have hbegun := h.begun
  have hpos : b.toNat ≠ 0 := fun h0 => hb (UInt64.toNat_inj.mp h0)
  have hone : (b - 1).toNat = b.toNat - 1 := by
    rw [← toNat_one_mul_sub_one hpos, UInt64.one_mul]
  obtain ⟨hplace, hfree⟩ := h.collecting start hcollecting
  have hkept : Window b lo hi { q with collecting := none } :=
    { h with collecting := fun _ heq => by cases heq }
  obtain ⟨n, other, hn, hvalue⟩ : ∃ n other,
      (n = lo ∧ other = hi ∨ n = hi ∧ other = lo) ∧ start.value = word n := by
    rcases hplace with hstart | hstart
    · exact ⟨lo, hi, .inl ⟨rfl, rfl⟩, hstart⟩
    · exact ⟨hi, lo, .inr ⟨rfl, rfl⟩, hstart⟩
  rw [SyncQueue.collect, hvalue, addUint64_word, hone]
  split
  · rename_i hbehind
    rw [BitVec.le_def, toNat_word (by omega)] at hbehind
    dsimp only at hbehind
    obtain ⟨smm', m, hremoved, hmachines, hm, hallocated⟩ := h.layout.remove hn
    have hlayout : Layout other (hi + b.toNat) (smm'.addStateMachine (word (hi + b.toNat)) now) :=
      layout_addStateMachine now hmachines hm hallocated (by omega) (by omega)
    rw [h.layout.highestStartSlot, hremoved]
    dsimp only [Option.getD_some]
    have hshort : smm'.machines.length < lookaheadSteps.toNat := by
      rw [hmachines]
      exact Nat.lt_succ_self 1
    rw [if_pos hshort, addUint64_word]
    refine ⟨_, other, hi + b.toNat, rfl, rfl, ?_⟩
    refine
      { hkept with
        layout := hlayout
        apart := by omega
        begun := by dsimp only; omega
        joined := by dsimp only; omega
        pending := ?_
        collecting := fun _ heq => by cases heq }
    intro key hkey
    have hother : key.value ≠ word n := by
      intro heq
      exact hfree (List.mem_map.mpr ⟨key, hkey, by rw [heq, hvalue]⟩)
    rcases hn with ⟨rfl, rfl⟩ | ⟨rfl, rfl⟩
    · exact .inl ((h.pending key hkey).resolve_left hother)
    · exact .inl ((h.pending key hkey).resolve_right hother)
  · exact ⟨_, lo, hi, rfl, rfl, hkept⟩

variable {events : List (Event β)}

theorem Advancing.room {head : Uint256} (h : Advancing b head events) :
    head.toNat + 2 * b.toNat + 2 ≤ 2 ^ 64 := by
  induction events generalizing head with
  | nil => exact h
  | cons event events ih =>
    cases event with
    | head number =>
      obtain ⟨hle, hrest⟩ := h
      have hroom := ih hrest
      rw [BitVec.le_def] at hle
      omega
    | raise target => exact ih  h
    | tick => exact ih  h
    | trigger input => exact ih  h
    | collect now => exact ih  h
    | response input response => exact ih  h

theorem Window.step (hb : b ≠ 0) (h : Window b lo hi q) {event : Event β}
    (hadvance : Advancing b q.head (event :: events)) :
    ∃ q' lo' hi', step b q event = some q' ∧ Advancing b q'.head events ∧
      Window b lo' hi' q' := by
  cases event with
  | head number =>
    exact ⟨_, lo, hi, rfl, hadvance.2, h.head hadvance.1 hadvance.2.room⟩
  | raise target =>
    rw [SyncQueue.step]
    split
    · rename_i hraise
      refine ⟨_, lo, hi, rfl, hadvance, { h with requests := ?_ }⟩
      intro r hr
      exact (h.requests r hr).mono (BitVec.le_of_lt hraise.2.2.2)
    · exact ⟨q, lo, hi, rfl, hadvance, h⟩
  | tick =>
    rw [SyncQueue.step]
    split
    · rename_i hidle
      exact ⟨_, lo, hi, rfl, hadvance, h.tick hidle.2⟩
    · exact ⟨q, lo, hi, rfl, hadvance, h⟩
  | trigger input =>
    rw [SyncQueue.step]
    split
    · rename_i key rest hpending hcollecting
      obtain ⟨q', hq', hhead, hwindow⟩ := h.triggerTick input hpending hcollecting
      exact ⟨q', lo, hi, hq', hhead ▸ hadvance, hwindow⟩
    · exact ⟨q, lo, hi, rfl, hadvance, h⟩
  | collect now =>
    rw [SyncQueue.step]
    cases hcollecting : q.collecting with
    | none => exact ⟨q, lo, hi, rfl, hadvance, h⟩
    | some start =>
      obtain ⟨q', lo', hi', hq', hhead, hwindow⟩ := h.collect hb now hcollecting
      exact ⟨q', lo', hi', hq', hhead ▸ hadvance, hwindow⟩
  | response input response =>
    rw [SyncQueue.step]
    split
    · obtain ⟨q', hq', hhandles⟩ := receive_handles (b := b) input response q
      exact ⟨q', lo, hi, hq', hhandles.head ▸ hadvance, h.handles hhandles⟩
    · exact ⟨q, lo, hi, rfl, hadvance, h⟩

theorem Window.run (hb : b ≠ 0) (h : Window b lo hi q) (hadvance : Advancing b q.head events) :
    ∃ q' lo' hi', run b q events = some q' ∧ Window b lo' hi' q' := by
  induction events generalizing q lo hi with
  | nil => exact ⟨q, lo, hi, rfl, h⟩
  | cons event events ih =>
    obtain ⟨q₁, lo₁, hi₁, hq₁, hadvance₁, h₁⟩ := h.step hb hadvance
    obtain ⟨q', lo', hi', hq', h'⟩ := ih h₁ hadvance₁
    refine ⟨q', lo', hi', ?_, h'⟩
    rw [SyncQueue.run, List.foldlM_cons, hq₁]
    exact hq'

theorem startQueue_window (hb : b ≠ 0) {head : Uint256} (highest : Uint256) (now : Int)
    (hroom : head.toNat + 2 * b.toNat + 2 ≤ 2 ^ 64) :
    ∃ q : BlocksQueue β, startQueue b head highest now = some q ∧ q.head = head ∧
      Window b (head.toNat + 1) (head.toNat + 1 + b.toNat) q := by
  have hpos : b.toNat ≠ 0 := fun h0 => hb (UInt64.toNat_inj.mp h0)
  have hfirst : addUint64 head 1 = word (head.toNat + 1) := by
    have hword := addUint64_word head.toNat 1
    rw [word_toNat] at hword
    exact hword
  have hsteps : (b * lookaheadSteps).toNat = b.toNat * 2 := by
    have htwo : lookaheadSteps.toNat = 2 := rfl
    rw [UInt64.toNat_mul, htwo]
    omega
  have hone : (StateMachineManager.new.addStateMachine (word (head.toNat + 1)) now :
      StateMachineManager β).machines = [(UInt64.ofNat (head.toNat + 1),
        ⟨⟨0, word (head.toNat + 1)⟩, .stateNew, [], now⟩)] := by
    rw [StateMachineManager.addStateMachine, low64_word (by omega)]
    rfl
  have hlayout : Layout (head.toNat + 1) (head.toNat + 1 + b.toNat)
      ((StateMachineManager.new.addStateMachine (word (head.toNat + 1)) now).addStateMachine
        (word (head.toNat + 1 + b.toNat)) now : StateMachineManager β) :=
    layout_addStateMachine now hone rfl (Nat.zero_lt_succ _) (by omega) (by omega)
  rw [startQueue, hfirst, addUint64_word, hsteps]
  -- two machines are added, then the loop has reached its bound
  rw [StateMachineManager.addMachines,
    if_pos ((word_lt_word_iff (by omega) (by omega)).mpr (by omega)), addUint64_word]
  rw [show lookaheadSteps.toNat = 1 + 1 from rfl, StateMachineManager.addMachines,
    if_pos ((word_lt_word_iff (by omega) (by omega)).mpr (by omega)), addUint64_word]
  rw [StateMachineManager.addMachines,
    if_neg (by rw [word_lt_word_iff (by omega) (by omega)]; omega), Option.map_some]
  refine ⟨_, rfl, rfl, ?_⟩
  exact
    { layout := hlayout
      apart := le_rfl
      begun := le_rfl
      joined := .inl rfl
      room := hroom
      nodup := List.nodup_nil
      pending := fun key hkey => by cases hkey
      collecting := fun start hstart => by cases hstart
      requests := fun r hr => by cases hr }

theorem Window.tiled (h : Window b lo hi q) : Tiled b q := by
  obtain ⟨m₁, m₂, hmachines, hm₁, hm₂⟩ := h.layout.machines
  have hfits := h.layout.fits
  have hapart := h.apart
  have hbegun := h.begun
  have hjoined := h.joined
  have hlo : (word lo).toNat = lo := toNat_word (by omega)
  have hhi : (word hi).toNat = hi := toNat_word (by omega)
  refine ⟨?_, ?_, ?_⟩
  · rw [hmachines]
    exact List.cons_ne_nil _ _
  · rw [hmachines, List.pairwise_pair, numbers, numbers, hm₁, hm₂, hlo, hhi]
    exact Set.disjoint_left.mpr fun n h₁ h₂ => by
      have hn₁ := h₁.2
      have hn₂ := h₂.1
      omega
  · intro n hn hbelow
    rw [hmachines] at hbelow ⊢
    have hend : n < hi + b.toNat := by
      obtain ⟨e, he, hlt'⟩ := hbelow
      simp only [List.mem_cons, List.not_mem_nil, or_false] at he
      rcases he with rfl | rfl
      · rw [hm₁, hlo] at hlt'
        omega
      · rw [hm₂, hhi] at hlt'
        exact hlt'
    simp only [numbers, Set.mem_Ico, List.mem_cons, List.not_mem_nil, or_false]
    rcases Nat.lt_or_ge n hi with hbefore | hafter
    · refine ⟨(UInt64.ofNat lo, m₁), ⟨.inl rfl, ?_⟩, ?_⟩
      · rw [hm₁, hlo]
        omega
      · rintro e ⟨rfl | rfl, he⟩
        · rfl
        · rw [hm₂, hhi] at he
          omega
    · refine ⟨(UInt64.ofNat hi, m₂), ⟨.inr rfl, ?_⟩, ?_⟩
      · rw [hm₂, hhi]
        omega
      · rintro e ⟨rfl | rfl, he⟩
        · rw [hm₁, hlo] at he
          omega
        · rfl

end Steps

/-- In every run of a queue that asks for blocks, while the head does not decrease, no
machine is missing when it is triggered, the ranges tile the numbers above the head, and
the requests are inside the ranges of their machines. -/
theorem run_tiled (b : UInt64) (head highest : Uint256) (now : Int) (events : List (Event β))
    (hb : b ≠ 0) (hadvance : Advancing b head events) :
    ∃ q₀ q, startQueue b head highest now = some q₀ ∧ run b q₀ events = some q ∧ Tiled b q ∧
      ∀ r ∈ q.requests, Inside b q.highestExpectedBlockNr r := by
  obtain ⟨q₀, hq₀, hhead, hwindow⟩ :=
    startQueue_window (β := β) hb highest now hadvance.room
  obtain ⟨q, lo, hi, hq, h⟩ := hwindow.run hb (hhead ▸ hadvance)
  exact ⟨q₀, q, hq₀, hq, h.tiled, h.requests⟩

section Toys

def toyInput : TickInput :=
  ⟨0, false, true, 0⟩

def toyEvents : List (Event Unit) :=
  [.tick, .trigger toyInput, .collect 0, .head 8, .trigger toyInput, .collect 0]

end Toys

/-- The second machine is replaced before the first one, and the rest of the numbers is
still covered. -/
theorem toyEvents_tiled :
    ∃ q₀ q, startQueue 4 0 100 0 = some q₀ ∧ run 4 q₀ toyEvents = some q ∧ Tiled 4 q ∧
      ∀ r ∈ q.requests, Inside 4 q.highestExpectedBlockNr r :=
  run_tiled 4 0 100 0 toyEvents (by decide)
    ⟨by decide, (by decide : (8 : Uint256).toNat + 2 * (4 : UInt64).toNat + 2 ≤ 2 ^ 64)⟩

/-- A queue that asks for no blocks at a time has no machines. -/
theorem no_machines_without_blocks :
    (startQueue 0 0 100 0 : Option (BlocksQueue Unit)).map (fun q => q.smm.machines.length) =
      some 0 := by
  decide +kernel

end N42.SyncTiling
