import N42.MemoryGas

/-!
The gas functions of the opcodes that use memory, call or create.  The stack of a frame is
known to be long enough when they run.
-/

namespace N42.GasTable

open ChainTypes StateObjects IntraBlock StateOperations StatefulActions
open VirtualMachine
open Interpreter (toWordSize)
open MemoryGas
open Relation (ReflTransGen)

def copyGas : UInt64 := 3
def keccak256WordGas : UInt64 := 6
def initCodeWordGas : UInt64 := 2
def logGas : UInt64 := 375
def logTopicGas : UInt64 := 375
def logDataGas : UInt64 := 8
def callValueTransferGas : UInt64 := 9000
def callNewAccountGas : UInt64 := 25000
def coldAccountAccessCostEIP2929 : UInt64 := 2600
def warmStorageReadCostEIP2929 : UInt64 := 100
def maxInitCodeSize : Nat := 2 * maxCodeSize

def back (stack : List Uint256) (n : Nat) : Uint256 :=
  stack.getD n 0

def orOverflow {α : Type} : Option α → Except VmError α
  | none => .error .errGasUintOverflow
  | some a => .ok a

section Plain

def memoryGas (scope : Scope) (memorySize : UInt64) : Except VmError UInt64 :=
  (memoryGasCost (.paid scope.memory) memorySize).map Prod.fst

def wordCost (stackpos : Nat) (price : UInt64) (scope : Scope) (memorySize : UInt64) :
    Except VmError UInt64 := do
  let gas ← memoryGas scope memorySize
  let size ← orOverflow (uint64 (back scope.stack stackpos))
  let wordGas ← orOverflow (safeMul (toWordSize size) price)
  orOverflow (safeAdd gas wordGas)

def memoryCopierGas (stackpos : Nat) : Scope → UInt64 → Except VmError UInt64 :=
  wordCost stackpos copyGas

def gasCallDataCopy := memoryCopierGas 2
def gasCodeCopy := memoryCopierGas 2
def gasExtCodeCopy := memoryCopierGas 3
def gasReturnDataCopy := memoryCopierGas 2

def gasKeccak256 : Scope → UInt64 → Except VmError UInt64 :=
  wordCost 1 keccak256WordGas

def gasCreate2 : Scope → UInt64 → Except VmError UInt64 :=
  wordCost 2 keccak256WordGas

def pureMemoryGascost : Scope → UInt64 → Except VmError UInt64 :=
  memoryGas

def makeGasLog (n : UInt64) (scope : Scope) (memorySize : UInt64) : Except VmError UInt64 := do
  let requestedSize ← orOverflow (uint64 (back scope.stack 1))
  let gas ← memoryGas scope memorySize
  let gas ← orOverflow (safeAdd gas logGas)
  let gas ← orOverflow (safeAdd gas (n * logTopicGas))
  let memorySizeGas ← orOverflow (safeMul requestedSize logDataGas)
  orOverflow (safeAdd gas memorySizeGas)

def initCodeCost (price : UInt64) (scope : Scope) (memorySize : UInt64) :
    Except VmError UInt64 := do
  let gas ← memoryGas scope memorySize
  let len ← orOverflow (uint64 (back scope.stack 2))
  if maxInitCodeSize < len.toNat then .error .errGasUintOverflow
  else orOverflow (safeAdd gas (price * toWordSize len))

def gasCreateEip3860 : Scope → UInt64 → Except VmError UInt64 :=
  initCodeCost initCodeWordGas

def gasCreate2Eip3860 : Scope → UInt64 → Except VmError UInt64 :=
  initCodeCost (initCodeWordGas + keccak256WordGas)

end Plain

section Calls

/-- The gas for the callee; `availableGas - base` may wrap around. -/
def callGas (isEip150 : Bool) (availableGas base : UInt64) (callCost : Uint256) :
    Except VmError UInt64 :=
  let available := availableGas - base
  let gas := available - available / 64
  if isEip150 ∧ (2 ^ 64 ≤ callCost.toNat ∨ gas < UInt64.ofNat callCost.toNat) then .ok gas
  else orOverflow (uint64 callCost)

variable {db : Backend}

def callBase (extra : UInt64) (scope : Scope) (memorySize : UInt64) : Except VmError UInt64 := do
  let memory ← memoryGas scope memorySize
  orOverflow (safeAdd extra memory)

/-- The end of all gas functions for calls: the gas for the callee is set aside. -/
def priceCall (isEip150 : Bool) (extra : UInt64) (scope : Scope) (memorySize : UInt64) :
    Evm db (Except VmError UInt64 × Contract) :=
  match callBase extra scope memorySize with
  | .error e => return (.error e, scope.contract)
  | .ok gas => do
      let callGasTemp := callGas isEip150 scope.contract.gas gas (back scope.stack 0)
      Action.modify fun m => { m with callGasTemp := callGasTemp.toOption.getD 0 }
      return (callGasTemp.bind fun temp => orOverflow (safeAdd gas temp), scope.contract)

def newAccountGas (isSpuriousDragon transfersValue : Bool) (address : Address) :
    Evm db UInt64 :=
  if isSpuriousDragon then
    if transfersValue then do
      let empty_ ← onState (empty address)
      return if empty_ then callNewAccountGas else 0
    else return 0
  else do
    let exists_ ← onState (exist address)
    return if exists_ then 0 else callNewAccountGas

def valueGas (scope : Scope) : UInt64 :=
  if back scope.stack 2 ≠ 0 then callValueTransferGas else 0

def gasCall (rules : Rules) (isEip150 : Bool) : GasFunc db := fun scope memorySize => do
  let gas ← newAccountGas rules.isSpuriousDragon (back scope.stack 2 ≠ 0)
    (toAddress (back scope.stack 1))
  priceCall isEip150 (gas + valueGas scope) scope memorySize

def gasCallCode (isEip150 : Bool) : GasFunc db := fun scope memorySize =>
  priceCall isEip150 (valueGas scope) scope memorySize

def gasDelegateCall (isEip150 : Bool) : GasFunc db :=
  priceCall isEip150 0

def gasStaticCall (isEip150 : Bool) : GasFunc db :=
  priceCall isEip150 0

def coldCost : UInt64 :=
  coldAccountAccessCostEIP2929 - warmStorageReadCostEIP2929

/-- A cold account is paid for before the gas for the callee is worked out; the payment is
then given back and added to the cost. -/
def makeCallVariantGasCallEIP2929 (oldCalculator : GasFunc db) : GasFunc db :=
  fun scope memorySize => do
    let addr := toAddress (back scope.stack 1)
    let m ← Action.get
    if m.state.accessList.containsAddress addr then oldCalculator scope memorySize
    else do
      change (addAddressToAccessList addr)
      match scope.contract.useGas coldCost with
      | none => return (.error .errOutOfGas, scope.contract)
      | some contract => do
          let (gas, contract) ← oldCalculator { scope with contract := contract } memorySize
          match gas with
          | .error e => return (.error e, contract)
          | .ok gas =>
            return (.ok (gas + coldCost), { contract with gas := contract.gas + coldCost })

def gasExtCodeCopyEIP2929 : GasFunc db := fun scope memorySize =>
  match gasExtCodeCopy scope memorySize with
  | .error e => return (.error e, scope.contract)
  | .ok gas => do
      let addr := toAddress (back scope.stack 0)
      let m ← Action.get
      if m.state.accessList.containsAddress addr then return (.ok gas, scope.contract)
      else do
        change (addAddressToAccessList addr)
        return (orOverflow (safeAdd gas coldCost), scope.contract)

def ofFrame (f : Scope → UInt64 → Except VmError UInt64) : GasFunc db :=
  fun scope memorySize => return (f scope memorySize, scope.contract)

end Calls

section Metering

variable {db : Backend} {α β : Type}

def Modest (x : Evm db α) : Prop :=
  ∀ m, ReflTransGen MeteringStep m.state (x m).2.state ∧ (x m).2.depth = m.depth ∧
    (x m).2.readOnly = m.readOnly

theorem meters_of_modest {g : GasFunc db} (h : ∀ scope size, Modest (g scope size)) : Meters g where
  state scope size m := (h scope size m).1
  depth scope size m := (h scope size m).2.1
  readOnly scope size m := (h scope size m).2.2

theorem modest_pure (a : α) : Modest (pure a : Evm db α) :=
  fun _ => ⟨.refl, rfl, rfl⟩

theorem modest_get : Modest (Action.get : Evm db (Machine db)) :=
  fun _ => ⟨.refl, rfl, rfl⟩

theorem modest_bind {x : Evm db α} {f : α → Evm db β} (hx : Modest x) (hf : ∀ a, Modest (f a)) :
    Modest (x >>= f) := by
  intro m
  obtain ⟨hstate, hdepth, hflag⟩ := hx m
  rcases Action.bind_cases x f m with ⟨e, t, hrun, hresult⟩ | ⟨a, t, hrun, hresult⟩
  · rw [hrun] at hstate hdepth hflag
    rw [hresult]
    exact ⟨hstate, hdepth, hflag⟩
  · rw [hrun] at hstate hdepth hflag
    obtain ⟨hstate', hdepth', hflag'⟩ := hf a t
    rw [hresult]
    exact ⟨hstate.trans hstate', hdepth'.trans hdepth, hflag'.trans hflag⟩

theorem modest_asked {f : IntraBlockState db → α × IntraBlockState db} (q : Query)
    (h : ∀ s, (ask s q).2 = (f s).2) : Modest (onState f) :=
  fun m => ⟨.single ⟨.ask q, trivial, congrArg some (h m.state)⟩, rfl, rfl⟩

theorem modest_warm (addr : Address) :
    Modest (change (addAddressToAccessList addr) : Evm db Unit) :=
  fun _ => ⟨.single ⟨.addAddressToAccessList addr, trivial, rfl⟩, rfl, rfl⟩

theorem modest_priceCall (isEip150 : Bool) (extra : UInt64) (scope : Scope) (size : UInt64) :
    Modest (priceCall isEip150 extra scope size : Evm db _) := by
  rw [priceCall]
  split
  · exact modest_pure _
  · exact modest_bind (fun _ => ⟨.refl, rfl, rfl⟩) fun _ => modest_pure _

theorem modest_newAccountGas (isSpuriousDragon transfersValue : Bool) (address : Address) :
    Modest (newAccountGas isSpuriousDragon transfersValue address : Evm db _) := by
  rw [newAccountGas]
  split
  · split
    · exact modest_bind (modest_asked (.empty address) fun _ => rfl) fun _ => modest_pure _
    · exact modest_pure _
  · exact modest_bind (modest_asked (.exist address) fun _ => rfl) fun _ => modest_pure _

theorem meters_ofFrame (f : Scope → UInt64 → Except VmError UInt64) :
    Meters (ofFrame f : GasFunc db) :=
  meters_of_modest fun _ _ => modest_pure _

theorem meters_gasCall (rules : Rules) (isEip150 : Bool) :
    Meters (gasCall rules isEip150 : GasFunc db) :=
  meters_of_modest fun _ _ =>
    modest_bind (modest_newAccountGas _ _ _) fun _ => modest_priceCall _ _ _ _

theorem meters_gasCallCode (isEip150 : Bool) : Meters (gasCallCode isEip150 : GasFunc db) :=
  meters_of_modest fun _ _ => modest_priceCall _ _ _ _

theorem meters_gasDelegateCall (isEip150 : Bool) : Meters (gasDelegateCall isEip150 : GasFunc db) :=
  meters_of_modest fun _ _ => modest_priceCall _ _ _ _

theorem meters_gasStaticCall (isEip150 : Bool) : Meters (gasStaticCall isEip150 : GasFunc db) :=
  meters_of_modest fun _ _ => modest_priceCall _ _ _ _

theorem meters_gasCallEIP2929 {oldCalculator : GasFunc db} (h : Meters oldCalculator) :
    Meters (makeCallVariantGasCallEIP2929 oldCalculator) := by
  have hold : ∀ scope size, Modest (oldCalculator scope size) :=
    fun scope size m => ⟨h.state scope size m, h.depth scope size m, h.readOnly scope size m⟩
  refine meters_of_modest fun scope size => modest_bind modest_get fun m => ?_
  split
  · exact hold _ _
  · refine modest_bind (modest_warm _) fun _ => ?_
    split
    · exact modest_pure _
    · refine modest_bind (hold _ _) fun result => ?_
      obtain ⟨gas | gas, contract⟩ := result
      · exact modest_pure _
      · exact modest_pure _

theorem meters_gasExtCodeCopyEIP2929 : Meters (gasExtCodeCopyEIP2929 : GasFunc db) := by
  refine meters_of_modest fun scope size => ?_
  rw [gasExtCodeCopyEIP2929]
  split
  · exact modest_pure _
  · refine modest_bind modest_get fun m => ?_
    split
    · exact modest_pure _
    · exact modest_bind (modest_warm _) fun _ => modest_pure _

end Metering

end N42.GasTable
