import Mathlib.Data.List.Sort
import N42.BlockCounters

/-!
The queue of the initial sync.  Every machine of the queue is responsible for a range of
block numbers: it asks for the blocks, receives them and hands them on.  The head of the
chain advances while the queue runs.  Integers are compared by their addresses where the
source compares pointers.
-/

namespace N42.SyncQueue

open ChainTypes TransactionCodec BlockCounters

structure Pointer where
  address : Nat
  value : Uint256
deriving DecidableEq

inductive StateID where
  | stateNew
  | stateScheduled
  | stateDataParsed
  | stateSkipped
  | stateSent
deriving DecidableEq

inductive SyncError where
  | errBlockNrIsTooHigh
  | errNoRequiredPeers
  | errFetcherCtxIsDone
  | errContextCanceled
  | errInvalidFetchedData
  | errNoPeersAvailable
  | errMachineNotFound
deriving DecidableEq

structure StateMachine (β : Type) where
  start : Pointer
  state : StateID
  blocks : List β
  updated : Int

/-- The machines under their keys, and the list of the keys in ascending order, which is
allocated anew whenever the machines change. -/
structure StateMachineManager (β : Type) where
  keys : List Pointer
  machines : List (UInt64 × StateMachine β)
  allocated : Nat

def lookaheadSteps : UInt64 :=
  2

def staleEpochTimeout : Int :=
  1000

def skippedMachineTimeout : Int :=
  10 * staleEpochTimeout

def noRequiredPeersErrMaxRetries : Nat :=
  1000

variable {β : Type}

namespace StateMachine

def setState (state : StateID) (now : Int) (m : StateMachine β) : StateMachine β :=
  if m.state = state then m else { m with state, updated := now }

end StateMachine

namespace StateMachineManager

def new : StateMachineManager β :=
  ⟨[], [], 0⟩

def recalculateMachineAttribs (smm : StateMachineManager β) : StateMachineManager β :=
  let sorted := (smm.machines.map Prod.fst).insertionSort (· ≤ ·)
  { smm with
    keys := (sorted.zipIdx smm.allocated).map fun e => ⟨e.2, word e.1.toNat⟩
    allocated := smm.allocated + sorted.length }

def findStateMachine (startSlot : Uint256) (smm : StateMachineManager β) :
    Option (StateMachine β) :=
  smm.machines.lookup (low64 startSlot)

def putMachine (key : UInt64) (m : StateMachine β) (machines : List (UInt64 × StateMachine β)) :
    List (UInt64 × StateMachine β) :=
  if key ∈ machines.map Prod.fst then
    machines.map fun e => if e.1 = key then (key, m) else e
  else machines ++ [(key, m)]

def addStateMachine (startBlockNr : Uint256) (now : Int) (smm : StateMachineManager β) :
    StateMachineManager β :=
  let m : StateMachine β := ⟨⟨smm.allocated, startBlockNr⟩, .stateNew, [], now⟩
  recalculateMachineAttribs { smm with
      machines := putMachine (low64 startBlockNr) m smm.machines
      allocated := smm.allocated + 1 }

def removeStateMachine (startSlot : Uint256) (smm : StateMachineManager β) :
    Option (StateMachineManager β) :=
  if low64 startSlot ∈ smm.machines.map Prod.fst then
    some (recalculateMachineAttribs
      { smm with machines := smm.machines.filter fun e => e.1 ≠ low64 startSlot })
  else none

/-- The loop of `removeAllStateMachines`, which stops at a machine that is not there. -/
def removeMachines : List Pointer → StateMachineManager β → Except SyncError Unit × StateMachineManager β
  | [], smm => (.ok (), recalculateMachineAttribs smm)
  | key :: keys, smm =>
    match smm.removeStateMachine key.value with
    | none => (.error .errMachineNotFound, smm)
    | some smm => removeMachines keys smm

/-- `none` is a nil pointer, and there may be no machine at all. -/
def highestStartSlot (smm : StateMachineManager β) : Option (Option Uint256) :=
  match smm.keys.getLast? with
  | none => some none
  | some key => (smm.findStateMachine key.value).map fun m => some m.start.value

def allMachinesInState (state : StateID) (smm : StateMachineManager β) : Bool :=
  !smm.machines.isEmpty && smm.machines.all fun e => decide (e.2.state = state)

/-- `isFirst`, which compares pointers; `none` if there are no keys. -/
def isFirst (m : StateMachine β) (smm : StateMachineManager β) : Option Bool :=
  smm.keys.head?.map fun key => decide (m.start.address = key.address)

def isLast (m : StateMachine β) (smm : StateMachineManager β) : Option Bool :=
  smm.keys.getLast?.map fun key => decide (m.start.address = key.address)

/-- Change the machine that has its start at this address, if it is still there. -/
def update (address : Nat) (f : StateMachine β → StateMachine β) (smm : StateMachineManager β) :
    StateMachineManager β :=
  { smm with
    machines := smm.machines.map fun e => if e.2.start.address = address then (e.1, f e.2) else e }

def addMachines (blocksPerRequest : UInt64) (bound : Uint256) (now : Int) :
    Nat → Uint256 → StateMachineManager β → Option (StateMachineManager β)
  | 0, _, _ => none
  | fuel + 1, i, smm =>
    if i < bound then
      addMachines blocksPerRequest bound now fuel (addUint64 i blocksPerRequest)
        (smm.addStateMachine i now)
    else some smm

end StateMachineManager

structure FetchRequest where
  machine : Uint256
  start : Uint256
  count : UInt64

structure FetchResponse (β : Type) where
  start : Uint256
  blocks : List β
  err : Option SyncError

/-- The queue, with the head of the chain.  While a tick is handled, `pending` has the keys
that are left of those captured at its start, and `collecting` the start of the machine
whose event has been handled. -/
structure BlocksQueue (β : Type) where
  smm : StateMachineManager β
  head : Uint256
  highestExpectedBlockNr : Uint256
  noRequiredPeersErrRetries : Nat
  pending : List Pointer
  collecting : Option Pointer
  requests : List FetchRequest

/-- What a handler finds: the clock, whether the context is done, whether a request or data
can be put into a channel, and the best number of the peers. -/
structure TickInput where
  now : Int
  cancelled : Bool
  channelReady : Bool
  bestFinalizedBlockNr : Uint256

section Handlers

variable (blocksPerPeriod : UInt64)

/-- A handler returns the next state or an error; `none` is a panic. -/
abbrev Handled (β : Type) := Option (Except SyncError StateID × BlocksQueue β)

section

variable (input : TickInput) (m : StateMachine β)

section

variable (q : BlocksQueue β)

def onScheduleEvent : Handled β :=
  if m.start.value > q.highestExpectedBlockNr then
    some (.error .errBlockNrIsTooHigh,
      { q with smm := q.smm.update m.start.address (StateMachine.setState .stateSkipped input.now) })
  else
    let blocksPerRequest :=
      if q.highestExpectedBlockNr < addUint64 m.start.value blocksPerPeriod then
        low64 (q.highestExpectedBlockNr - m.start.value) + 1
      else blocksPerPeriod
    if input.cancelled then some (.error .errContextCanceled, q)
    else if ¬ input.channelReady then some (.error .errFetcherCtxIsDone, q)
    else some (.ok .stateScheduled,
      { q with requests := q.requests ++ [⟨m.start.value, m.start.value, blocksPerRequest⟩] })

def onDataReceivedEvent (response : FetchResponse β) (m : StateMachine β) (q : BlocksQueue β) :
    Handled β :=
  if input.cancelled then some (.error .errContextCanceled, q)
  else match response.err with
    | some e =>
      if e = .errBlockNrIsTooHigh then
        let reset (m : StateMachine β) :=
          if m.start.value < response.start ∧ m.state = .stateSkipped then
            m.setState .stateNew input.now
          else m
        some (.error e,
          { q with smm := { q.smm with machines := q.smm.machines.map fun e => (e.1, reset e.2) } })
      else some (.error e, q)
    | none =>
      some (.ok .stateDataParsed,
        { q with smm := q.smm.update m.start.address fun m => { m with blocks := response.blocks } })

def onReadyToSendEvent : Handled β :=
  let send : Handled β :=
    if input.channelReady then some (.ok .stateSent, q) else some (.error .errContextCanceled, q)
  if input.cancelled then some (.error .errContextCanceled, q)
  else if m.blocks.isEmpty then some (.ok .stateSkipped, q)
  else
    match q.smm.isFirst m with
    | none => none
    | some true => send
    | some false =>
      if q.smm.machines.any fun e => decide (e.2.start.value < m.start.value ∧
          (e.2.state = .stateNew ∨ e.2.state = .stateScheduled ∨ e.2.state = .stateDataParsed)) then
        some (.ok m.state, q)
      else send

def resetFromBlockNr (startBlockNr : Uint256) (q : BlocksQueue β) :
    Handled β :=
  match q.smm.removeMachines q.smm.keys with
  | (.error e, smm) => some (.error e, { q with smm })
  | (.ok (), smm) =>
    let bound := addUint64 startBlockNr (blocksPerPeriod * (lookaheadSteps - 1))
    (smm.addMachines blocksPerPeriod bound input.now (lookaheadSteps.toNat + 1)
      startBlockNr).map fun smm => (.ok .stateSkipped, { q with smm })

def onProcessSkippedEvent :
    Handled β :=
  if input.cancelled then some (.error .errContextCanceled, q)
  else
    match q.smm.isLast m with
    | none => none
    | some false =>
      if input.now - m.updated > skippedMachineTimeout then some (.ok .stateNew, q)
      else some (.ok m.state, q)
    | some true =>
      if ¬ q.smm.allMachinesInState .stateSkipped then some (.ok m.state, q)
      else if ¬ input.bestFinalizedBlockNr < q.head then some (.error .errNoRequiredPeers, q)
      else resetFromBlockNr blocksPerPeriod input (addUint64 q.head 1) q

def onCheckStaleEvent : Handled β :=
  if input.cancelled then some (.error .errContextCanceled, q)
  else if input.now - m.updated < staleEpochTimeout then some (.ok m.state, q)
  else some (.ok .stateSkipped, q)

def onTick : Handled β :=
  match m.state with
  | .stateNew => onScheduleEvent blocksPerPeriod input m q
  | .stateScheduled => some (.ok m.state, q)
  | .stateDataParsed => onReadyToSendEvent input m q
  | .stateSkipped => onProcessSkippedEvent blocksPerPeriod input m q
  | .stateSent => onCheckStaleEvent input m q

end

def finishTrigger :
    Except SyncError StateID × BlocksQueue β → Except SyncError Unit × BlocksQueue β
  | (.error e, q) => (.error e, q)
  | (.ok state, q) =>
    (.ok (), { q with smm := q.smm.update m.start.address (StateMachine.setState state input.now) })

end

end Handlers

section Loop

variable (blocksPerPeriod : UInt64)

def startQueue (head highestExpectedBlockNr : Uint256) (now : Int) : Option (BlocksQueue β) :=
  let startBlockNr := addUint64 head 1
  let bound := addUint64 startBlockNr (blocksPerPeriod * lookaheadSteps)
  (StateMachineManager.new.addMachines blocksPerPeriod bound now (lookaheadSteps.toNat + 1)
    startBlockNr).map fun smm => ⟨smm, head, highestExpectedBlockNr, 0, [], none, []⟩

def triggerTick (input : TickInput) (key : Pointer) (q : BlocksQueue β) : Option (BlocksQueue β) :=
  match q.smm.findStateMachine key.value with
  | none => none
  | some fsm =>
    match (onTick blocksPerPeriod input fsm q).map (finishTrigger input fsm) with
    | none => none
    | some (.error .errNoRequiredPeers, q) =>
      if q.noRequiredPeersErrRetries > noRequiredPeersErrMaxRetries then some q
      else some { q with noRequiredPeersErrRetries := q.noRequiredPeersErrRetries + 1 }
    | some (_, q) => some { q with collecting := some fsm.start }

def collect (start : Pointer) (now : Int) (q : BlocksQueue β) : Option (BlocksQueue β) :=
  if addUint64 start.value (blocksPerPeriod - 1) ≤ q.head then
    match q.smm.highestStartSlot with
    | none => none
    | some none => some q
    | some (some highestStartSlot) =>
      let smm := (q.smm.removeStateMachine start.value).getD q.smm
      if smm.machines.length < lookaheadSteps.toNat then
        some { q with smm := smm.addStateMachine (addUint64 highestStartSlot blocksPerPeriod) now }
      else some { q with smm }
  else some q

def receive (input : TickInput) (response : FetchResponse β) (q : BlocksQueue β) :
    Option (BlocksQueue β) :=
  match q.smm.findStateMachine response.start with
  | none => some q
  | some fsm =>
    if fsm.state = .stateScheduled then
      match (onDataReceivedEvent input response fsm q).map (finishTrigger input fsm) with
      | none => none
      | some (.ok (), q) => some q
      | some (.error _, q) =>
        some { q with
          smm := q.smm.update fsm.start.address (StateMachine.setState .stateNew input.now) }
    else some q

/-- What can happen: the head changes, the loop raises the number it expects, begins a tick,
triggers the next captured machine, collects it, or gets a response. -/
inductive Event (β : Type) where
  | head (number : Uint256)
  | raise (target : Uint256)
  | tick
  | trigger (input : TickInput)
  | collect (now : Int)
  | response (input : TickInput) (response : FetchResponse β)

/-- An event that cannot happen in a state leaves it as it is; `none` is a panic. -/
def step (q : BlocksQueue β) : Event β → Option (BlocksQueue β)
  | .head number => some { q with head := number }
  | .raise target =>
    if q.pending = [] ∧ q.collecting = none ∧ q.highestExpectedBlockNr ≤ q.head ∧
        q.highestExpectedBlockNr < target then
      some { q with highestExpectedBlockNr := target }
    else some q
  | .tick =>
    if q.pending = [] ∧ q.collecting = none then some { q with pending := q.smm.keys } else some q
  | .trigger input =>
    match q.pending, q.collecting with
    | key :: pending, none => triggerTick blocksPerPeriod input key { q with pending }
    | _, _ => some q
  | .collect now =>
    match q.collecting with
    | some start => collect blocksPerPeriod start now { q with collecting := none }
    | none => some q
  | .response input response =>
    if q.pending = [] ∧ q.collecting = none then receive input response q else some q

def run (q : BlocksQueue β) (events : List (Event β)) : Option (BlocksQueue β) :=
  events.foldlM (step blocksPerPeriod) q

end Loop

end N42.SyncQueue
