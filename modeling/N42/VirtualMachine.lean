import N42.BigEndianWords
import N42.RevisionSafety
import N42.StatefulActions

/-!
The virtual machine: frames that run byte code, calls and creations between them, and the
read-only flag that is shared by all frames.  Opcodes that work on their own frame alone are
parameters, as are the gas functions; those that read or change the state are not.
-/

namespace N42.VirtualMachine

open ByteStrings ChainTypes
open MessageCalls (Log emptyCodeHash)
open StateObjects IntraBlock StateOperations StatefulActions
open Relation (ReflTransGen)

inductive VmError where
  | errOutOfGas
  | errCodeStoreOutOfGas
  | errDepth
  | errInsufficientBalance
  | errContractAddressCollision
  | errExecutionReverted
  | errMaxCodeSizeExceeded
  | errInvalidJump
  | errWriteProtection
  | errReturnDataOutOfBounds
  | errGasUintOverflow
  | errInvalidCode
  | errNonceUintOverflow
  | errStackUnderflow
  | errStackOverflow
  | errInvalidOpCode
  | errPrecompile
deriving DecidableEq

inductive Halted where
  | panic
  | outOfFuel
deriving DecidableEq

/-- `Contract` without the cached analysis of jump destinations. -/
structure Contract where
  callerAddress : Address
  self : Address
  code : Bytes
  codeAddr : Address
  input : Bytes
  gas : UInt64
  value : Uint256

def Contract.getOp (c : Contract) (pc : UInt64) : UInt8 :=
  c.code[pc.toNat]?.getD 0

def Contract.useGas (c : Contract) (gas : UInt64) : Option Contract :=
  if c.gas < gas then none else some { c with gas := c.gas - gas }

inductive ContractRef where
  | account (address : Address)
  | contract (c : Contract)

def ContractRef.address : ContractRef → Address
  | .account address => address
  | .contract c => c.self

structure Scope where
  pc : UInt64
  stack : List Uint256
  memory : Bytes
  contract : Contract

structure Machine (db : Backend) where
  state : IntraBlockState db
  depth : Nat
  readOnly : Bool
  returnData : Bytes
  callGasTemp : UInt64

abbrev Evm (db : Backend) := Action (Machine db) Halted

section StateAccess

variable {db : Backend} {α : Type}

def onState (f : IntraBlockState db → α × IntraBlockState db) : Evm db α :=
  Action.ofState fun m => ((f m.state).1, { m with state := (f m.state).2 })

def change (f : IntraBlockState db → IntraBlockState db) : Evm db Unit :=
  Action.modify fun m => { m with state := f m.state }

def attempt (f : IntraBlockState db → Option (IntraBlockState db)) : Evm db Unit := do
  let m ← Action.get
  let s ← Action.require .panic (f m.state)
  Action.modify fun m => { m with state := s }

end StateAccess

section Words

def toAddress (v : Uint256) : Address :=
  FixedBytes.copy 20 ((BigEndianWords.digits 32 v.toNat).drop 12)

def toHash (v : Uint256) : Hash :=
  FixedBytes.copy 32 (BigEndianWords.digits 32 v.toNat)

def low64 (v : Uint256) : Nat :=
  v.toNat % 2 ^ 64

def getPtr (memory : Bytes) (offset size : Uint256) : Bytes :=
  (memory.drop (low64 offset)).take (low64 size)

def getCopy (memory : Bytes) (offset size : Uint256) : Bytes :=
  if low64 offset < memory.length then
    ((memory.drop (low64 offset)) ++ List.replicate (low64 size) 0).take (low64 size)
  else []

/-- `Memory.Set`; memory that has not been resized panics. -/
def setMemory (memory : Bytes) (offset size : Nat) (value : Bytes) : Option Bytes :=
  if size = 0 then some memory
  else if memory.length < offset + size then none
  else some (memory.take offset ++ value.take size ++
    memory.drop (offset + (value.take size).length))

def getDataBig (data : Bytes) (start : Uint256) (size : Nat) : Bytes :=
  ((data.drop start.toNat).take size ++ List.replicate size 0).take size

end Words

inductive Signal where
  | next
  | stop
  | fail (err : VmError)

/-- What an opcode that works on its own frame leaves: the frame, the returned bytes and the
buffer for the data of the last call. -/
structure Computed where
  scope : Scope
  res : Bytes
  signal : Signal
  returnData : Bytes

inductive Execution where
  | compute (f : Scope → Bytes → Computed)
  | opBalance
  | opSelfBalance
  | opExtCodeSize
  | opExtCodeCopy
  | opExtCodeHash
  | opSload
  | opSstore
  | makeLog (size : Nat)
  | opCreate
  | opCreate2
  | opCall
  | opCallCode
  | opDelegateCall
  | opStaticCall
  | opSelfdestruct

def IsMetering : Operation → Prop
  | .ask _ | .addAddressToAccessList _ | .addSlotToAccessList _ _ | .addRefund _
  | .subRefund _ => True
  | _ => False

inductive MeteringStep {db : Backend} (s t : IntraBlockState db) : Prop
  | mk (op : Operation) (hop : IsMetering op) (h : perform s op = some t)

/-- A gas function gets the frame and the new size of its memory.  It returns a cost or an
error, with the contract, whose gas may have been used. -/
abbrev GasFunc (db : Backend) := Scope → UInt64 → Evm db (Except VmError UInt64 × Contract)

/-- The function changes nothing but the access list, the refund counter and the gas for the
next call. -/
structure Meters {db : Backend} (g : GasFunc db) : Prop where
  state : ∀ scope size m, ReflTransGen MeteringStep m.state (g scope size m).2.state
  depth : ∀ scope size m, (g scope size m).2.depth = m.depth
  readOnly : ∀ scope size m, (g scope size m).2.readOnly = m.readOnly

structure OperationInfo (db : Backend) where
  execute : Execution
  constantGas : UInt64
  dynamicGas : Option (GasFunc db)
  maxStack : Nat
  numPop : Nat
  /-- Without a size the calculation overflows. -/
  memorySize : Option (List Uint256 → Option UInt64)

structure JumpTable (db : Backend) where
  operation : UInt8 → OperationInfo db
  metered : ∀ op g, (operation op).dynamicGas = some g → Meters g

structure PrecompiledContract where
  requiredGas : Bytes → UInt64
  run : Bytes → Bytes × Option VmError

structure Environment (db : Backend) where
  rules : Rules
  isTangerineWhistle : Bool
  noRecursion : Bool
  restoreState : Bool
  extraEips : List Nat
  precompile : Address → Option PrecompiledContract
  table : JumpTable db

inductive CallType where
  | call
  | callCode
  | delegateCall
  | staticCall
deriving DecidableEq

structure RunResult where
  ret : Bytes
  gas : UInt64
  err : Option VmError

structure CreateResult where
  ret : Bytes
  address : Address
  gas : UInt64
  err : Option VmError

def callCreateDepth : Nat := 1024

def callStipend : UInt64 := 2300

def maxCodeSize : Nat := 24576

def createDataGas : UInt64 := 200

section Calls

variable {db : Backend} (env : Environment db)

def transfer (sender recipient : Address) (amount : Uint256) (bailout : Bool) :
    Evm db Unit := do
  if !bailout then
    change (subBalance sender amount)
  change (addBalance recipient amount)

def lacksBalance (typ : CallType) (caller : Address) (value : Uint256) : Evm db Bool :=
  if (typ = .call ∨ typ = .callCode) ∧ value ≠ 0 then do
    let balance ← onState (getBalance caller)
    return decide (balance < value)
  else return false

def calleeCode (addr : Address) : Evm db Bytes :=
  if (env.precompile addr).isSome then return []
  else do
    let code ← onState (getCode addr)
    return code.getD []

/-- What a call does to the accounts before anything runs; whether it ends there, because
nothing is sent to an account that does not exist. -/
def prepareCall (typ : CallType) (caller addr : Address) (value : Uint256) (bailout : Bool) :
    Evm db Bool :=
  match typ with
  | .call => do
      let exists_ ← onState (exist addr)
      if !exists_ && (env.precompile addr).isNone && env.rules.isSpuriousDragon &&
          value = 0 then
        return true
      if !exists_ then
        change (createAccount addr false)
      transfer caller addr value bailout
      return false
  | .staticCall => do
      change (addBalance addr 0)
      return false
  | .callCode | .delegateCall => return false

/-- `NewContract` for the kind of call; a delegate call by an account panics. -/
def newContract (typ : CallType) (caller : ContractRef) (addr : Address) (value : Uint256)
    (gas : UInt64) (code : Bytes) : Option Contract :=
  match typ, caller with
  | .callCode, _ => some ⟨caller.address, caller.address, code, addr, [], gas, value⟩
  | .delegateCall, .contract parent =>
    some ⟨parent.callerAddress, caller.address, code, addr, [], gas, parent.value⟩
  | .delegateCall, .account _ => none
  | _, _ => some ⟨caller.address, addr, code, addr, [], gas, value⟩

def runPrecompiledContract (p : PrecompiledContract) (input : Bytes) (suppliedGas : UInt64) :
    RunResult :=
  if suppliedGas < p.requiredGas input then ⟨[], 0, some .errOutOfGas⟩
  else ⟨(p.run input).1, suppliedGas - p.requiredGas input, (p.run input).2⟩

variable (run : Contract → Bytes → Bool → Evm db RunResult)

def runCallee (typ : CallType) (caller : ContractRef) (addr : Address) (input : Bytes)
    (gas : UInt64) (value : Uint256) (code : Bytes) : Evm db RunResult :=
  match env.precompile addr with
  | some p => return runPrecompiledContract p input gas
  | none =>
    if code = [] then return ⟨[], gas, none⟩
    else do
      let _ ← onState (getCodeHash addr)
      let contract ← Action.require .panic (newContract typ caller addr value gas code)
      run contract input (typ = .staticCall)

def call (typ : CallType) (caller : ContractRef) (addr : Address) (input : Bytes)
    (gas : UInt64) (value : Uint256) (bailout : Bool) : Evm db RunResult := do
  let m ← Action.get
  if env.noRecursion && 0 < m.depth then
    return ⟨[], gas, none⟩
  if callCreateDepth < m.depth then
    return ⟨[], gas, some .errDepth⟩
  let lacks ← lacksBalance typ caller.address value
  if lacks && !bailout then
    return ⟨[], gas, some .errInsufficientBalance⟩
  let code ← calleeCode env addr
  let revid ← onState IntraBlockState.snapshot
  let done ← prepareCall env typ caller.address addr value bailout
  if done then
    return ⟨[], gas, none⟩
  let result ← runCallee env run typ caller addr input gas value code
  if result.err ≠ none ∨ env.restoreState then
    attempt (IntraBlockState.revertToSnapshot revid)
    return { result with
      gas := if result.err = some .errExecutionReverted then result.gas else 0 }
  return result

def staticCall (caller : ContractRef) (addr : Address) (input : Bytes) (gas : UInt64) :
    Evm db RunResult :=
  call env run .staticCall caller addr input gas 0 false

/-- Whether the nonce of the caller overflows; otherwise it is incremented. -/
def incrementNonce (caller : Address) (increment : Bool) : Evm db Bool :=
  if increment then do
    let nonce ← onState (getNonce caller)
    if nonce + 1 < nonce then
      return true
    change (setNonce caller (nonce + 1))
    return false
  else return false

def checkCode (ret : Bytes) : Option VmError :=
  if env.rules.isSpuriousDragon ∧ maxCodeSize < ret.length ∧
      (!env.rules.isAura || 3860 ∈ env.extraEips || env.rules.isShanghai) then
    some .errMaxCodeSizeExceeded
  else if env.rules.isLondon ∧ ret.head? = some 0xEF then some .errInvalidCode
  else none

def storeCode (address : Address) (result : RunResult) : Evm db RunResult :=
  match result.err.or (checkCode env result.ret) with
  | some err => return { result with err := some err }
  | none =>
    let cost := UInt64.ofNat result.ret.length * createDataGas
    if cost ≤ result.gas then do
      change (setCode address (if result.ret = [] then none else some result.ret))
      return { result with gas := result.gas - cost }
    else if env.rules.isHomestead then
      return { result with err := some .errCodeStoreOutOfGas }
    else return result

def prepareCreate (caller address : Address) (value : Uint256) : Evm db Unit := do
  change (createAccount address true)
  if env.rules.isSpuriousDragon then
    change (setNonce address 1)
  transfer caller address value false

def collides (address : Address) : Evm db Bool := do
  let contractHash ← onState (getCodeHash address)
  let nonce ← onState (getNonce address)
  return decide (nonce ≠ 0 ∨ (contractHash ≠ default ∧ contractHash ≠ emptyCodeHash db.lib))

def create (caller : ContractRef) (code : Bytes) (gas : UInt64) (value : Uint256)
    (address : Address) (increment : Bool) : Evm db CreateResult := do
  let m ← Action.get
  if callCreateDepth < m.depth then
    return ⟨[], default, gas, some .errDepth⟩
  let balance ← onState (getBalance caller.address)
  if balance < value then
    return ⟨[], default, gas, some .errInsufficientBalance⟩
  let overflows ← incrementNonce caller.address increment
  if overflows then
    return ⟨[], default, gas, some .errNonceUintOverflow⟩
  if env.rules.isBerlin then
    change (addAddressToAccessList address)
  let collision ← collides address
  if collision then
    return ⟨[], default, 0, some .errContractAddressCollision⟩
  let revid ← onState IntraBlockState.snapshot
  prepareCreate env caller.address address value
  if env.noRecursion && 0 < m.depth then
    return ⟨[], address, gas, none⟩
  let result ← run ⟨caller.address, address, code, address, [], gas, value⟩ [] false
  let result ← storeCode env address result
  if result.err ≠ none ∧
      (env.rules.isHomestead ∨ result.err ≠ some .errCodeStoreOutOfGas) then
    attempt (IntraBlockState.revertToSnapshot revid)
    return ⟨result.ret, address,
      if result.err = some .errExecutionReverted then result.gas else 0, result.err⟩
  return ⟨result.ret, address, result.gas, result.err⟩

def createAddress2 (lib : Primitives) (caller : Address) (salt : Hash) (code : Bytes) :
    Address :=
  FixedBytes.copy 20 ((lib.keccak256
    (0xff :: caller.bytes ++ salt.bytes ++ (lib.keccak256 code).bytes)).bytes.drop 12)

end Calls

end N42.VirtualMachine
