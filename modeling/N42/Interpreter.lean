import N42.VirtualMachine

/-!
The loop that runs the byte code of a frame, and the opcodes that reach beyond their frame.
A run has fuel for its loop and for the frames below it.
-/

namespace N42.Interpreter

open ChainTypes
open MessageCalls (Log emptyCodeHash)
open MessageCalls.EVM (createAddress)
open StateObjects StateOperations StatefulActions VirtualMachine

structure Executed where
  scope : Scope
  res : Bytes
  signal : Signal

def Executed.next (scope : Scope) : Executed :=
  ⟨scope, [], .next⟩

section Opcodes

variable {db : Backend}

section

variable (scope : Scope)

def protect (act : Evm db Executed) : Evm db Executed := do
  let m ← Action.get
  if m.readOnly then
    return ⟨scope, [], .fail .errWriteProtection⟩
  act

def push (stack : List Uint256) (v : Uint256) : Executed :=
  .next { scope with stack := v :: stack }

def opBalance : Evm db Executed :=
  match scope.stack with
  | slot :: rest => do
      let balance ← onState (getBalance (toAddress slot))
      return push scope rest balance
  | [] => Action.fail .panic

def opSelfBalance : Evm db Executed := do
  let balance ← onState (getBalance scope.contract.self)
  return push scope scope.stack balance

def opExtCodeSize : Evm db Executed :=
  match scope.stack with
  | slot :: rest => do
      let size ← onState (getCodeSize (toAddress slot))
      return push scope rest (BitVec.ofNat 256 size)
  | [] => Action.fail .panic

def opExtCodeCopy : Evm db Executed :=
  match scope.stack with
  | a :: memOffset :: codeOffset :: length :: rest => do
      let code ← onState (getCode (toAddress a))
      let memory ← Action.require .panic (setMemory scope.memory (low64 memOffset)
        (low64 length) (getDataBig (code.getD []) codeOffset (low64 length)))
      return .next { scope with stack := rest, memory := memory }
  | _ => Action.fail .panic

def opExtCodeHash : Evm db Executed :=
  match scope.stack with
  | slot :: rest => do
      let none_ ← onState (empty (toAddress slot))
      if none_ then
        return push scope rest 0
      let hash ← onState (getCodeHash (toAddress slot))
      return push scope rest (setBytes hash.bytes)
  | [] => Action.fail .panic

def opSload : Evm db Executed :=
  match scope.stack with
  | loc :: rest => do
      let value ← onState (getState scope.contract.self (toHash loc))
      return push scope rest value
  | [] => Action.fail .panic

def opSstore : Evm db Executed :=
  protect scope <|
    match scope.stack with
    | loc :: val :: rest => do
        change (setState scope.contract.self (toHash loc) val)
        return .next { scope with stack := rest }
    | _ => Action.fail .panic

def makeLog (size : Nat) (scope : Scope) : Evm db Executed :=
  protect scope <|
    match scope.stack with
    | mStart :: mSize :: rest =>
      if rest.length < size then Action.fail .panic
      else do
        change (addLog ⟨scope.contract.self, (rest.take size).map toHash,
          getCopy scope.memory mStart mSize⟩)
        return .next { scope with stack := rest.drop size }
    | _ => Action.fail .panic

def opSelfdestruct : Evm db Executed :=
  protect scope <|
    match scope.stack with
    | beneficiary :: rest => do
        let balance ← onState (getBalance scope.contract.self)
        change (addBalance (toAddress beneficiary) balance)
        let _ ← onState (selfdestruct scope.contract.self)
        return ⟨{ scope with stack := rest }, [], .stop⟩
    | [] => Action.fail .panic

end

variable (env : Environment db) (run : Contract → Bytes → Bool → Evm db RunResult)

section

variable (scope : Scope)

def finishCreate (rest : List Uint256) (failed : Bool) (result : CreateResult) :
    Evm db Executed := do
  let reverted := result.err = some .errExecutionReverted
  let returned := if reverted then result.ret else []
  Action.modify fun m => { m with returnData := returned }
  let v := if failed then 0 else setBytes result.address.bytes
  return ⟨{ scope with
    stack := v :: rest
    contract := { scope.contract with gas := scope.contract.gas + result.gas } },
    returned, .next⟩

def opCreate : Evm db Executed :=
  protect scope <|
    match scope.stack with
    | value :: offset :: size :: rest => do
        let input := getCopy scope.memory offset size
        let all := scope.contract.gas
        let gas := if env.isTangerineWhistle then all - all / 64 else all
        let caller := { scope.contract with gas := all - gas }
        let nonce ← onState (getNonce caller.self)
        let result ← create env run (.contract caller) input gas value
          (createAddress db.lib caller.self nonce) true
        let failed := if env.rules.isHomestead then result.err.isSome
          else result.err.any (· ≠ .errCodeStoreOutOfGas)
        finishCreate { scope with contract := caller } rest failed result
    | _ => Action.fail .panic

def opCreate2 : Evm db Executed :=
  protect scope <|
    match scope.stack with
    | endowment :: offset :: size :: salt :: rest => do
        let input := getCopy scope.memory offset size
        let all := scope.contract.gas
        let gas := all - all / 64
        let caller := { scope.contract with gas := all - gas }
        let result ← create env run (.contract caller) input gas endowment
          (createAddress2 db.lib caller.self (toHash salt) input) true
        finishCreate { scope with contract := caller } rest result.err.isSome result
    | _ => Action.fail .panic

def finishCall (rest : List Uint256) (retOffset retSize : Uint256) (result : RunResult) :
    Evm db Executed := do
  let memory ← if result.err = none ∨ result.err = some .errExecutionReverted then
      Action.require .panic (setMemory scope.memory (low64 retOffset) (low64 retSize) result.ret)
    else pure scope.memory
  Action.modify fun m => { m with returnData := result.ret }
  return ⟨{ scope with
    stack := (if result.err = none then 1 else 0) :: rest
    memory := memory
    contract := { scope.contract with gas := scope.contract.gas + result.gas } },
    result.ret, .next⟩

def opCall : Evm db Executed :=
  match scope.stack with
  | _ :: addr :: value :: inOffset :: inSize :: retOffset :: retSize :: rest => do
      let m ← Action.get
      if value ≠ 0 ∧ m.readOnly then
        return ⟨scope, [], .fail .errWriteProtection⟩
      let gas := if value ≠ 0 then m.callGasTemp + callStipend else m.callGasTemp
      let result ← call env run .call (.contract scope.contract) (toAddress addr)
        (getPtr scope.memory inOffset inSize) gas value false
      finishCall scope rest retOffset retSize result
  | _ => Action.fail .panic

def opCallCode : Evm db Executed :=
  match scope.stack with
  | _ :: addr :: value :: inOffset :: inSize :: retOffset :: retSize :: rest => do
      let m ← Action.get
      let gas := if value ≠ 0 then m.callGasTemp + callStipend else m.callGasTemp
      let result ← call env run .callCode (.contract scope.contract) (toAddress addr)
        (getPtr scope.memory inOffset inSize) gas value false
      finishCall scope rest retOffset retSize result
  | _ => Action.fail .panic

def callWithoutValue (typ : CallType) (scope : Scope) : Evm db Executed :=
  match scope.stack with
  | _ :: addr :: inOffset :: inSize :: retOffset :: retSize :: rest => do
      let m ← Action.get
      let result ← call env run typ (.contract scope.contract) (toAddress addr)
        (getPtr scope.memory inOffset inSize) m.callGasTemp 0 false
      finishCall scope rest retOffset retSize result
  | _ => Action.fail .panic

def opDelegateCall : Scope → Evm db Executed :=
  callWithoutValue env run .delegateCall

def opStaticCall : Scope → Evm db Executed :=
  callWithoutValue env run .staticCall

def compute (f : Scope → Bytes → Computed) (scope : Scope) : Evm db Executed := do
  let m ← Action.get
  let result := f scope m.returnData
  Action.modify fun m => { m with returnData := result.returnData }
  return ⟨result.scope, result.res, result.signal⟩

def execute : Execution → Evm db Executed
  | .compute f => compute f scope
  | .opBalance => opBalance scope
  | .opSelfBalance => opSelfBalance scope
  | .opExtCodeSize => opExtCodeSize scope
  | .opExtCodeCopy => opExtCodeCopy scope
  | .opExtCodeHash => opExtCodeHash scope
  | .opSload => opSload scope
  | .opSstore => opSstore scope
  | .makeLog size => makeLog size scope
  | .opCreate => opCreate env run scope
  | .opCreate2 => opCreate2 env run scope
  | .opCall => opCall env run scope
  | .opCallCode => opCallCode env run scope
  | .opDelegateCall => opDelegateCall env run scope
  | .opStaticCall => opStaticCall env run scope
  | .opSelfdestruct => opSelfdestruct scope

end

end Opcodes

section Loop

variable {db : Backend} (env : Environment db)

def toWordSize (size : UInt64) : UInt64 :=
  if 0xffffffffffffffff - 31 < size then 0xffffffffffffffff / 32 + 1 else (size + 31) / 32

/-- The size of the memory that an operation needs, in whole words; none if it overflows. -/
def wordMemory (info : OperationInfo db) (stack : List Uint256) : Option UInt64 :=
  match info.memorySize with
  | none => some 0
  | some f => (f stack).bind fun size =>
    if (toWordSize size).toNat * 32 < 2 ^ 64 then some (toWordSize size * 32) else none

def resize (memory : Bytes) (size : UInt64) : Bytes :=
  memory ++ List.replicate (size.toNat - memory.length) 0

def payDynamic (info : OperationInfo db) (scope : Scope) : Evm db (Except VmError Scope) :=
  match info.dynamicGas with
  | none => return .ok scope
  | some gasFunc =>
    match wordMemory info scope.stack with
    | none => return .error .errGasUintOverflow
    | some size => do
        let (cost, contract) ← gasFunc scope size
        match cost.toOption.bind contract.useGas with
        | none => return .error .errOutOfGas
        | some contract =>
          return .ok { scope with contract := contract, memory := resize scope.memory size }

def charge (info : OperationInfo db) (scope : Scope) : Evm db (Except VmError Scope) :=
  if scope.stack.length < info.numPop then return .error .errStackUnderflow
  else if info.maxStack < scope.stack.length then return .error .errStackOverflow
  else
    match scope.contract.useGas info.constantGas with
    | none => return .error .errOutOfGas
    | some contract => payDynamic info { scope with contract := contract }

variable (run : Contract → Bytes → Bool → Evm db RunResult)

def step (scope : Scope) : Evm db (Scope ⊕ RunResult) := do
  let info := env.table.operation (scope.contract.getOp scope.pc)
  let charged ← charge info scope
  match charged with
  | .error err => return .inr ⟨[], scope.contract.gas, some err⟩
  | .ok scope => do
      let done ← execute env run scope info.execute
      match done.signal with
      | .next => return .inl { done.scope with pc := done.scope.pc + 1 }
      | .stop => return .inr ⟨done.res, done.scope.contract.gas, none⟩
      | .fail err => return .inr ⟨done.res, done.scope.contract.gas, some err⟩

def enter (readOnly : Bool) (m : Machine db) : Machine db :=
  { m with
    depth := m.depth + 1
    readOnly := m.readOnly || readOnly
    returnData := [] }

def leave (sets : Bool) (m : Machine db) : Machine db :=
  { m with
    depth := m.depth - 1
    readOnly := m.readOnly && !sets }

end Loop

variable {db : Backend} (env : Environment db)

def run : Nat → Contract → Bytes → Bool → Evm db RunResult
  | 0 => fun _ _ _ => Action.fail .outOfFuel
  | fuel + 1 => fun contract input readOnly =>
    if contract.code = [] then return ⟨[], contract.gas, none⟩
    else do
      let m ← Action.get
      Action.modify (enter readOnly)
      let result ← Action.loop .outOfFuel (step env (run fuel)) fuel
        ⟨0, [], [], { contract with input := input }⟩
      Action.modify (leave (readOnly && !m.readOnly))
      return result

end N42.Interpreter
