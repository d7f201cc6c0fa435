import N42.BlockHeader
import N42.Transactions

/-!
The state that a transaction works on, and the outermost call or contract creation of
a message.  The byte code interpreter is a parameter; what surrounds a run of it is not.

The state objects that the node loads on demand and journals are identified with the
accounts they stand for, and reverting to a snapshot with going back to the state at it.
-/

namespace N42.MessageCalls

open ByteStrings RlpEncoding ChainTypes BlockHeader Transactions

structure Account where
  nonce : UInt64
  balance : Uint256
  codeHash : Hash

structure Log where
  address : Address
  topics : List Hash
  data : List UInt8

/-- The state within a block; `contracts` is what only contract code can change, the code
and the storage of the accounts. -/
structure IntraBlockState (ξ : Type) where
  accounts : Address → Option Account
  contracts : ξ
  refund : UInt64
  logs : Hash → List Log
  thash : Hash
  bhash : Hash
  txIndex : Nat
  accessedAddresses : List Address
  accessedSlots : List (Address × Hash)

def emptyCodeHash (lib : Primitives) : Hash :=
  lib.keccak256 []

def newAccount (lib : Primitives) : Account :=
  ⟨0, 0, emptyCodeHash lib⟩

namespace IntraBlockState

variable {ξ : Type}

def new (accounts : Address → Option Account) (contracts : ξ) : IntraBlockState ξ :=
  ⟨accounts, contracts, 0, fun _ => [], default, default, 0, [], []⟩

section

variable (s : IntraBlockState ξ)

section

variable (address : Address)

def exist : Bool :=
  (s.accounts address).isSome

def getBalance : Uint256 :=
  (s.accounts address).elim 0 Account.balance

def getNonce : UInt64 :=
  (s.accounts address).elim 0 Account.nonce

def getCodeHash : Hash :=
  (s.accounts address).elim default Account.codeHash

section

variable (lib : Primitives)

def updateAccount (f : Account → Account) (s : IntraBlockState ξ) (address : Address) :
    IntraBlockState ξ :=
  { s with
    accounts := fun a =>
      if a = address then some (f ((s.accounts address).getD (newAccount lib)))
      else s.accounts a }

section

variable (s : IntraBlockState ξ)

def addBalance (address : Address) (amount : Uint256) : IntraBlockState ξ :=
  s.updateAccount lib (fun account => { account with balance := account.balance + amount }) address

def subBalance (address : Address) (amount : Uint256) : IntraBlockState ξ :=
  s.updateAccount lib (fun account => { account with balance := account.balance - amount }) address

def setNonce (address : Address) (nonce : UInt64) : IntraBlockState ξ :=
  s.updateAccount lib (fun account => { account with nonce := nonce }) address

def createAccount (address : Address) :
    IntraBlockState ξ :=
  s.updateAccount lib (fun account => { newAccount lib with balance := account.balance }) address

end

end

def prepare (thash bhash : Hash) (txIndex : Nat) :
    IntraBlockState ξ :=
  { s with
    thash := thash
    bhash := bhash
    txIndex := txIndex
    accessedAddresses := []
    accessedSlots := [] }

def addAddressToAccessList :
    IntraBlockState ξ :=
  if address ∈ s.accessedAddresses then s
  else { s with accessedAddresses := s.accessedAddresses ++ [address] }

def addSlotToAccessList (slot : Hash) :
    IntraBlockState ξ :=
  let s := s.addAddressToAccessList address
  if (address, slot) ∈ s.accessedSlots then s
  else { s with accessedSlots := s.accessedSlots ++ [(address, slot)] }

end

def prepareAccessList (sender : Address) (dst : Option Address) (precompiles : List Address)
    (list : List AccessTuple) : IntraBlockState ξ :=
  let s := s.addAddressToAccessList sender
  let s := dst.elim s s.addAddressToAccessList
  let s := precompiles.foldl addAddressToAccessList s
  list.foldl (fun s tuple => tuple.storageKeys.foldl
    (fun s slot => s.addSlotToAccessList tuple.address slot)
    (s.addAddressToAccessList tuple.address)) s

end

end IntraBlockState

open IntraBlockState

/-- The errors of the virtual machine; `interpreted` stands for all that only the
interpreter raises. -/
inductive VmError where
  | errExecutionReverted
  | errInsufficientBalance
  | errNonceUintOverflow
  | errContractAddressCollision
  | errMaxCodeSizeExceeded
  | errInvalidCode
  | errCodeStoreOutOfGas
  | errOutOfGas
  | interpreted
deriving DecidableEq

structure Config where
  noBaseFee : Bool
  noReceipts : Bool
  readOnly : Bool
  statelessExec : Bool
  restoreState : Bool
  extraEips : List Nat

def Config.zero : Config :=
  ⟨false, false, false, false, false, []⟩

def Config.hasEip3860 (config : Config) (rules : Rules) : Bool :=
  3860 ∈ config.extraEips || rules.isShanghai

structure BlockContext where
  coinbase : Address
  baseFee : Uint256
  header : Header

structure TxContext where
  origin : Address
  gasPrice : Uint256

structure Contract where
  callerAddress : Address
  self : Address
  value : Uint256
  gas : UInt64
  code : List UInt8
  input : List UInt8

structure CallResult (ξ : Type) where
  ret : List UInt8
  leftOverGas : UInt64
  err : Option VmError
  state : IntraBlockState ξ

structure PrecompiledContract where
  requiredGas : List UInt8 → UInt64
  run : List UInt8 → List UInt8 × Option VmError

/-- The byte code interpreter with the code and the storage it works on.  A run never
returns more gas than it was given. -/
structure Interpreter (ξ : Type) where
  precompiles : Rules → List (Address × PrecompiledContract)
  getCode : ξ → Address → List UInt8
  setCode : Address → List UInt8 → ξ → ξ
  /-- Drop the storage of earlier contracts at the address. -/
  renewStorage : Address → ξ → ξ
  run : Rules → BlockContext → TxContext → Contract → IntraBlockState ξ → CallResult ξ
  /-- `FinalizeTx` with a writer that never fails. -/
  finalizeTx : Rules → IntraBlockState ξ → IntraBlockState ξ
  run_gas_le : ∀ rules context tx contract s,
    (run rules context tx contract s).leftOverGas ≤ contract.gas

structure EVM (ξ : Type) where
  lib : Primitives
  interpreter : Interpreter ξ
  chainConfig : ChainConfig
  config : Config
  context : BlockContext
  txContext : TxContext

namespace EVM

variable {ξ : Type} (evm : EVM ξ)

def chainRules : Rules :=
  evm.chainConfig.rules evm.context.header.number64

def canTransfer (s : IntraBlockState ξ) (address : Address) (amount : Uint256) : Bool :=
  amount ≤ s.getBalance address

def transfer (s : IntraBlockState ξ) (sender recipient : Address) (amount : Uint256)
    (bailout : Bool) : IntraBlockState ξ :=
  (if bailout then s else s.subBalance evm.lib sender amount).addBalance evm.lib recipient amount

def precompile (address : Address) : Option PrecompiledContract :=
  (evm.interpreter.precompiles evm.chainRules).lookup address

def runPrecompiledContract (p : PrecompiledContract) (input : List UInt8)
    (suppliedGas : UInt64) (s : IntraBlockState ξ) : CallResult ξ :=
  if suppliedGas < p.requiredGas input then ⟨[], 0, some .errOutOfGas, s⟩
  else ⟨(p.run input).1, suppliedGas - p.requiredGas input, (p.run input).2, s⟩

def runContract (contract : Contract) (s : IntraBlockState ξ) : CallResult ξ :=
  evm.interpreter.run evm.chainRules evm.context evm.txContext contract s

section

variable (caller address : Address)

def runCallee (input : List UInt8) (gas : UInt64) (value : Uint256) (s : IntraBlockState ξ) :
    CallResult ξ :=
  match evm.precompile address with
  | some p => runPrecompiledContract p input gas s
  | none =>
    let code := evm.interpreter.getCode s.contracts address
    if code.isEmpty then ⟨[], gas, none, s⟩
    else evm.runContract ⟨caller, address, value, gas, code, input⟩ s

def revertToSnapshot (snapshot : IntraBlockState ξ) (result : CallResult ξ) : CallResult ξ :=
  { result with
    leftOverGas := if result.err = some .errExecutionReverted then result.leftOverGas else 0
    state := snapshot }

def call (input : List UInt8) (gas : UInt64) (value : Uint256) (bailout : Bool)
    (s : IntraBlockState ξ) : CallResult ξ :=
  if value ≠ 0 && !canTransfer s caller value && !bailout then
    ⟨[], gas, some .errInsufficientBalance, s⟩
  else if !s.exist address && (evm.precompile address).isNone &&
      evm.chainRules.isSpuriousDragon && value = 0 then
    ⟨[], gas, none, s⟩
  else
    let created := if s.exist address then s else s.createAccount evm.lib address
    let result := evm.runCallee caller address input gas value
      (evm.transfer created caller address value bailout)
    if result.err ≠ none ∨ evm.config.restoreState then revertToSnapshot s result else result

def createAddress (lib : Primitives) (creator : Address) (nonce : UInt64) : Address :=
  FixedBytes.copy 20
    ((lib.keccak256 (encode (.list [.bytes creator.bytes, uintItem nonce.toNat]))).bytes.drop 12)

def maxCodeSize : Nat := 24576

def createDataGas : UInt64 := 200

def checkCode (code : List UInt8) : Option VmError :=
  if evm.chainRules.isSpuriousDragon ∧ maxCodeSize < code.length ∧
      (!evm.chainRules.isAura || evm.config.hasEip3860 evm.chainRules) then
    some .errMaxCodeSizeExceeded
  else if evm.chainRules.isLondon ∧ code.head? = some 0xEF then some .errInvalidCode
  else none

def storeCode (address : Address) (result : CallResult ξ) : CallResult ξ :=
  let cost := UInt64.ofNat result.ret.length * createDataGas
  if cost ≤ result.leftOverGas then
    let s := result.state.updateAccount evm.lib
      (fun account => { account with codeHash := evm.lib.keccak256 result.ret }) address
    { result with
      leftOverGas := result.leftOverGas - cost
      state := { s with contracts := evm.interpreter.setCode address result.ret s.contracts } }
  else if evm.chainRules.isHomestead then { result with err := some .errCodeStoreOutOfGas }
  else result

def runCreation (code : List UInt8) (gas : UInt64) (value : Uint256) (s : IntraBlockState ξ) :
    CallResult ξ :=
  let result := evm.runContract ⟨caller, address, value, gas, code, []⟩ s
  match result.err.or (evm.checkCode result.ret) with
  | some err => { result with err := some err }
  | none => evm.storeCode address result

def newContractAccount (address : Address) (s : IntraBlockState ξ) : IntraBlockState ξ :=
  let s := s.createAccount evm.lib address
  let s := { s with contracts := evm.interpreter.renewStorage address s.contracts }
  if evm.chainRules.isSpuriousDragon then s.setNonce evm.lib address 1 else s

def deploy (code : List UInt8) (gas : UInt64) (value : Uint256) (s : IntraBlockState ξ) :
    CallResult ξ :=
  let codeHash := s.getCodeHash address
  if s.getNonce address ≠ 0 ∨ (codeHash ≠ default ∧ codeHash ≠ emptyCodeHash evm.lib) then
    ⟨[], 0, some .errContractAddressCollision, s⟩
  else
    let result := evm.runCreation caller address code gas value
      (evm.transfer (evm.newContractAccount address s) caller address value false)
    if result.err ≠ none ∧
        (evm.chainRules.isHomestead ∨ result.err ≠ some .errCodeStoreOutOfGas) then
      revertToSnapshot s result
    else result

end

/-- `Create` at depth zero.  The nonce of the caller and the access list are changed
before the snapshot is taken. -/
def create (caller : Address) (code : List UInt8) (gas : UInt64) (value : Uint256)
    (s : IntraBlockState ξ) : CallResult ξ :=
  let nonce := s.getNonce caller
  let address := createAddress evm.lib caller nonce
  if !canTransfer s caller value then ⟨[], gas, some .errInsufficientBalance, s⟩
  else if nonce + 1 < nonce then ⟨[], gas, some .errNonceUintOverflow, s⟩
  else
    let s := s.setNonce evm.lib caller (nonce + 1)
    evm.deploy caller address code gas value
      (if evm.chainRules.isBerlin then s.addAddressToAccessList address else s)

theorem runPrecompiledContract_gas_le (p : PrecompiledContract) (input : List UInt8)
    (gas : UInt64) (s : IntraBlockState ξ) :
    (runPrecompiledContract p input gas s).leftOverGas ≤ gas := by
  rw [runPrecompiledContract]
  split
  · exact UInt64.zero_le
  · rename_i h
    exact UInt64.sub_le (UInt64.not_lt.mp h)

theorem runCallee_gas_le (caller address : Address) (input : List UInt8) (gas : UInt64)
    (value : Uint256) (s : IntraBlockState ξ) :
    (evm.runCallee caller address input gas value s).leftOverGas ≤ gas := by
  rw [runCallee]
  split
  · exact runPrecompiledContract_gas_le _ _ _ _
  · dsimp only
    split
    · exact UInt64.le_refl gas
    · exact evm.interpreter.run_gas_le _ _ _ _ _

theorem settle_gas_le (p : Prop) [Decidable p] (snapshot : IntraBlockState ξ)
    (result : CallResult ξ) :
    (if p then revertToSnapshot snapshot result else result).leftOverGas ≤ result.leftOverGas := by
  rw [revertToSnapshot]
  split
  · dsimp only
    split
    · exact UInt64.le_refl _
    · exact UInt64.zero_le
  · exact UInt64.le_refl _

theorem call_gas_le (caller address : Address) (input : List UInt8) (gas : UInt64)
    (value : Uint256) (bailout : Bool) (s : IntraBlockState ξ) :
    (evm.call caller address input gas value bailout s).leftOverGas ≤ gas := by
  rw [call]
  split
  · exact UInt64.le_refl gas
  · split
    · exact UInt64.le_refl gas
    · exact UInt64.le_trans (settle_gas_le _ _ _) (evm.runCallee_gas_le _ _ _ _ _ _)

theorem storeCode_gas_le (address : Address) (result : CallResult ξ) :
    (evm.storeCode address result).leftOverGas ≤ result.leftOverGas := by
  rw [storeCode]
  dsimp only
  split
  · rename_i h
    exact UInt64.sub_le h
  · split
    · exact UInt64.le_refl _
    · exact UInt64.le_refl _

section

variable (caller address : Address) (code : List UInt8) (gas : UInt64) (value : Uint256)
  (s : IntraBlockState ξ)

theorem runCreation_gas_le :
    (evm.runCreation caller address code gas value s).leftOverGas ≤ gas := by
  have hrun : (evm.runContract ⟨caller, address, value, gas, code, []⟩ s).leftOverGas ≤ gas :=
    evm.interpreter.run_gas_le _ _ _ _ _
  rw [runCreation]
  split
  · exact hrun
  · exact UInt64.le_trans (evm.storeCode_gas_le address _) hrun

theorem deploy_gas_le : (evm.deploy caller address code gas value s).leftOverGas ≤ gas := by
  rw [deploy]
  split
  · exact UInt64.zero_le
  · exact UInt64.le_trans (settle_gas_le _ _ _) (evm.runCreation_gas_le _ _ _ _ _ _)

end

theorem create_gas_le (caller : Address) (code : List UInt8) (gas : UInt64)
    (value : Uint256) (s : IntraBlockState ξ) :
    (evm.create caller code gas value s).leftOverGas ≤ gas := by
  rw [create]
  split
  · exact UInt64.le_refl gas
  · split
    · exact UInt64.le_refl gas
    · exact evm.deploy_gas_le _ _ _ _ _ _

end EVM

end N42.MessageCalls
