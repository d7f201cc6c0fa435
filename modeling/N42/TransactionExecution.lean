import N42.FallibleRuns
import N42.MessageCalls
import N42.StatefulActions

/-!
The execution of one transaction in a block: the checks before it, the purchase of gas,
the outermost call, the refund and the fees.
-/

namespace N42.TransactionExecution

open ChainTypes BlockHeader Transactions MessageCalls StatefulActions
open StatefulActions.Action

/-- The values in an error are those printed in its text. -/
inductive TxError where
  | errNonceTooHigh (address : Address) (tx state : UInt64)
  | errNonceTooLow (address : Address) (tx state : UInt64)
  | errNonceMax (address : Address) (nonce : UInt64)
  | errSenderNoEOA (address : Address) (codeHash : Hash)
  | errTipAboveFeeCap (address : Address) (tip gasFeeCap : Uint256)
  | errFeeCapTooLow (address : Address) (gasFeeCap baseFee : Uint256)
  | errInsufficientFunds (address : Address) (given : Option Uint256) (wanted : Option Nat)
  | errGasLimitReached
  | errGasUintOverflow
  | errIntrinsicGas (given wanted : UInt64)
  | panic
deriving DecidableEq

def maxUint64 : UInt64 := 0xffffffffffffffff

def txGas : UInt64 := 21000

def txGasContractCreation : UInt64 := 53000

def txDataNonZeroGasFrontier : UInt64 := 68

def txDataNonZeroGasEIP2028 : UInt64 := 16

def txDataZeroGas : UInt64 := 4

def initCodeWordGas : UInt64 := 2

def txAccessListAddressGas : UInt64 := 2400

def txAccessListStorageKeyGas : UInt64 := 1900

def refundQuotient : UInt64 := 2

def refundQuotientEIP3529 : UInt64 := 5

def toWordSize (size : UInt64) : UInt64 :=
  if maxUint64 - 31 < size then maxUint64 / 32 + 1 else (size + 31) / 32

def charge (price count gas : UInt64) : Except TxError UInt64 :=
  if (maxUint64 - gas) / price < count then .error .errGasUintOverflow
  else .ok (gas + count * price)

def storageKeys (accessList : List AccessTuple) : Nat :=
  (accessList.map fun tuple => tuple.storageKeys.length).sum

def dataGas (data : List UInt8) (isContractCreation isEIP2028 isEIP3860 : Bool)
    (gas : UInt64) : Except TxError UInt64 := do
  let dataLen := UInt64.ofNat data.length
  let nz := UInt64.ofNat (data.countP fun byte => byte ≠ 0)
  let gas ← charge (if isEIP2028 then txDataNonZeroGasEIP2028 else txDataNonZeroGasFrontier)
    nz gas
  let gas ← charge txDataZeroGas (dataLen - nz) gas
  if isContractCreation && isEIP3860 then charge initCodeWordGas (toWordSize dataLen) gas
  else .ok gas

/-- `IntrinsicGas`; the gas for an access list wraps around. -/
def intrinsicGas (data : List UInt8) (accessList : List AccessTuple)
    (isContractCreation isHomestead isEIP2028 isEIP3860 : Bool) : Except TxError UInt64 := do
  let start := if isContractCreation && isHomestead then txGasContractCreation else txGas
  let gas ← if data.isEmpty then .ok start
    else dataGas data isContractCreation isEIP2028 isEIP3860 start
  return gas + UInt64.ofNat accessList.length * txAccessListAddressGas +
    UInt64.ofNat (storageKeys accessList) * txAccessListStorageKeyGas

def addGas (gp amount : UInt64) : Except TxError UInt64 :=
  if maxUint64 - amount < gp then .error .panic else .ok (gp + amount)

structure StateTransition (ξ : Type) where
  gp : UInt64
  gas : UInt64
  initialGas : UInt64
  state : IntraBlockState ξ

variable {ξ : Type}

def StateTransition.gasUsed (st : StateTransition ξ) : UInt64 :=
  st.initialGas - st.gas

def maxCost (msg : Message) : Nat :=
  msg.gasLimit.toNat * msg.feeCap.toNat + msg.amount.toNat

section

variable (evm : EVM ξ) (msg : Message)

/-- The transition after the purchase of gas.  A sender who cannot pay pays nothing. -/
def purchase (st : StateTransition ξ) : StateTransition ξ where
  gp := if st.gp < msg.gasLimit then st.gp else st.gp - msg.gasLimit
  gas := st.gas + msg.gasLimit
  initialGas := msg.gasLimit
  state :=
    if (st.state.getBalance msg.fromAddress).toNat < maxCost msg then st.state
    else st.state.subBalance evm.lib msg.fromAddress
      (BitVec.ofNat 256 (msg.gasLimit.toNat * msg.gasPrice.toNat))

/-- `buyGas`.  With a bailout neither the sender nor the block need have enough. -/
def buyGas (gasBailout : Bool) :
    Action (StateTransition ξ) TxError Unit := do
  let st ← get
  failIf (2 ^ 256 ≤ msg.gasLimit.toNat * msg.gasPrice.toNat)
    (.errInsufficientFunds msg.fromAddress none none)
  failIf (2 ^ 256 ≤ msg.gasLimit.toNat * msg.feeCap.toNat)
    (.errInsufficientFunds msg.fromAddress none none)
  failIf (2 ^ 256 ≤ maxCost msg) (.errInsufficientFunds msg.fromAddress none none)
  let funds := st.state.getBalance msg.fromAddress
  failIf (funds.toNat < maxCost msg ∧ gasBailout = false)
    (.errInsufficientFunds msg.fromAddress (some funds) (some (maxCost msg)))
  failIf (st.gp < msg.gasLimit ∧ gasBailout = false) .errGasLimitReached
  modify (purchase evm msg)

def checkSender (lib : Primitives) (msg : Message) (s : IntraBlockState ξ) :
    Except TxError Unit := do
  let stNonce := s.getNonce msg.fromAddress
  let codeHash := s.getCodeHash msg.fromAddress
  FallibleRuns.failIf (stNonce < msg.nonce) (.errNonceTooHigh msg.fromAddress msg.nonce stNonce)
  FallibleRuns.failIf (msg.nonce < stNonce) (.errNonceTooLow msg.fromAddress msg.nonce stNonce)
  FallibleRuns.failIf (stNonce + 1 < stNonce) (.errNonceMax msg.fromAddress stNonce)
  FallibleRuns.failIf (codeHash ≠ emptyCodeHash lib ∧ codeHash ≠ default)
    (.errSenderNoEOA msg.fromAddress codeHash)

def checkEip1559TxGasFeeCap (baseFee : Uint256) : Except TxError Unit := do
  FallibleRuns.failIf (msg.feeCap < msg.tip) (.errTipAboveFeeCap msg.fromAddress msg.tip msg.feeCap)
  FallibleRuns.failIf (msg.feeCap < baseFee ∧ msg.isFree = false)
    (.errFeeCapTooLow msg.fromAddress msg.feeCap baseFee)

def checksFees : Bool :=
  evm.chainRules.isLondon && (!evm.config.noBaseFee || msg.feeCap ≠ 0 || msg.tip ≠ 0)

def preCheck (gasBailout : Bool) :
    Action (StateTransition ξ) TxError Unit := do
  let st ← get
  lift (if msg.checkNonce then checkSender evm.lib msg st.state else .ok ())
  lift (if checksFees evm msg then checkEip1559TxGasFeeCap msg evm.context.baseFee else .ok ())
  buyGas evm msg gasBailout

def useIntrinsicGas :
    Action (StateTransition ξ) TxError Unit := do
  let gas ← lift (intrinsicGas msg.data msg.accessList msg.toAddress.isNone
    evm.chainRules.isHomestead evm.chainRules.isIstanbul evm.chainRules.isShanghai)
  let st ← get
  failIf (st.gas < gas) (.errIntrinsicGas st.gas gas)
  modify fun st => { st with gas := st.gas - gas }

def enter (s : IntraBlockState ξ) : IntraBlockState ξ :=
  if evm.chainRules.isBerlin then
    let s := s.prepareAccessList msg.fromAddress msg.toAddress
      ((evm.interpreter.precompiles evm.chainRules).map Prod.fst) msg.accessList
    if evm.chainRules.isShanghai then s.addAddressToAccessList evm.context.coinbase else s
  else s

def dispatch (bailout : Bool) (gas : UInt64) (s : IntraBlockState ξ) :
    CallResult ξ :=
  match msg.toAddress with
  | none => evm.create msg.fromAddress msg.data gas msg.amount s
  | some address =>
    evm.call msg.fromAddress address msg.data gas msg.amount bailout
      (s.setNonce evm.lib msg.fromAddress (s.getNonce msg.fromAddress + 1))

def execute (gasBailout : Bool) :
    Action (StateTransition ξ) TxError (List UInt8 × Option VmError) := do
  let st ← get
  let bailout := gasBailout && msg.amount ≠ 0 &&
    !EVM.canTransfer st.state msg.fromAddress msg.amount
  let result := dispatch evm msg bailout st.gas (enter evm msg st.state)
  modify fun st => { st with gas := result.leftOverGas, state := result.state }
  return (result.ret, result.err)

def cappedRefund (st : StateTransition ξ) (quotient : UInt64) : UInt64 :=
  if st.state.refund < st.gasUsed / quotient then st.state.refund else st.gasUsed / quotient

/-- `refundGas`: the remaining gas goes back to the sender and to the block. -/
def refundGas (quotient : UInt64) :
    Action (StateTransition ξ) TxError Unit := do
  let st ← get
  let gas := st.gas + cappedRefund st quotient
  let gp ← lift (addGas st.gp gas)
  modify fun st =>
    { st with
      gp := gp
      gas := gas
      state := st.state.addBalance evm.lib msg.fromAddress
        (BitVec.ofNat 256 gas.toNat * msg.gasPrice) }

def min256 (x y : Uint256) : Uint256 :=
  if x < y then x else y

/-- The refund after execution, which calls for a trace go without. -/
def settleGas : Bool → Action (StateTransition ξ) TxError Unit
  | true =>
    refundGas evm msg (if evm.chainRules.isLondon then refundQuotientEIP3529 else refundQuotient)
  | false => pure ()

def effectiveTip : Uint256 :=
  if evm.chainRules.isLondon then
    if evm.context.baseFee < msg.feeCap then min256 msg.tip (msg.feeCap - evm.context.baseFee)
    else 0
  else msg.gasPrice

def systemAddress : Address :=
  ⟨List.replicate 19 0xff ++ [0xfe], rfl⟩

def payFees (gasUsed : UInt64) (s : IntraBlockState ξ) :
    IntraBlockState ξ :=
  let used := BitVec.ofNat 256 gasUsed.toNat
  let s := s.addBalance evm.lib
    (if evm.chainConfig.parlia then systemAddress else evm.context.coinbase)
    (used * effectiveTip evm msg)
  if !msg.isFree && evm.chainRules.isLondon && evm.chainRules.isEip1559FeeCollector then
    evm.chainConfig.eip1559FeeCollector.elim s fun collector =>
      s.addBalance evm.lib collector (used * evm.context.baseFee)
  else s

structure ExecutionResult where
  usedGas : UInt64
  err : Option VmError
  returnData : List UInt8

def transitionDb (refunds gasBailout : Bool) :
    Action (StateTransition ξ) TxError ExecutionResult := do
  let gasBailout := gasBailout || evm.chainConfig.parlia
  preCheck evm msg gasBailout
  useIntrinsicGas evm msg
  let result ← execute evm msg gasBailout
  settleGas evm msg refunds
  modify fun st => { st with state := payFees evm msg st.gasUsed st.state }
  let st ← get
  return ⟨st.gasUsed, result.2, result.1⟩

structure BlockState (ξ : Type) where
  gp : UInt64
  usedGas : UInt64
  ibs : IntraBlockState ξ

def applyMessage (refunds gasBailout : Bool) :
    Action (BlockState ξ) TxError ExecutionResult :=
  zoom (fun s => ⟨s.gp, 0, 0, s.ibs⟩) (fun st s => { s with gp := st.gp, ibs := st.state })
    (transitionDb evm msg refunds gasBailout)

end

structure Receipt where
  txType : UInt8
  successful : Bool
  cumulativeGasUsed : UInt64
  txHash : Hash
  gasUsed : UInt64
  contractAddress : Address
  logs : List Log
  blockNumber : Uint256
  transactionIndex : Nat

structure Environment (ξ : Type) where
  lib : Primitives
  interpreter : Interpreter ξ
  chainConfig : ChainConfig
  config : Config
  /-- `engine.Author`; the zero address if it fails. -/
  author : Header → Address
  header : Header

section

variable (env : Environment ξ)

/-- `NewEVMBlockContext`, which dereferences the difficulty. -/
def Environment.blockContext : Except TxError BlockContext :=
  if env.header.difficulty.isNone then .error .panic
  else .ok ⟨env.author env.header, env.header.baseFee.getD 0, env.header⟩

def Environment.signer : Signer :=
  makeSigner env.chainConfig env.header.number64

def Environment.message (tx : Transaction) :
    Except TxError (Message × EVM ξ) := do
  let context ← env.blockContext
  match tx.asMessage env.signer env.header.baseFee with
  | none => .error .panic
  | some msg =>
    .ok ({ msg with checkNonce := !env.config.statelessExec },
      ⟨env.lib, env.interpreter, env.chainConfig, env.config, context,
        ⟨msg.fromAddress, msg.gasPrice⟩⟩)

def applyTransaction (tx : Transaction) :
    Action (BlockState ξ) TxError (Option Receipt × List UInt8) := do
  let message ← lift (env.message tx)
  let msg := message.1
  let evm := message.2
  let result ← applyMessage evm msg true false
  modify fun s =>
    { s with
      ibs := env.interpreter.finalizeTx evm.chainRules s.ibs
      usedGas := s.usedGas + result.usedGas }
  let s ← get
  let receipt :=
    { txType := tx.txType
      successful := result.err.isNone
      cumulativeGasUsed := s.usedGas
      txHash := tx.hash env.lib
      gasUsed := result.usedGas
      contractAddress :=
        if msg.toAddress.isNone then EVM.createAddress env.lib msg.fromAddress tx.nonce
        else default
      logs := s.ibs.logs (tx.hash env.lib)
      blockNumber := env.header.number
      transactionIndex := s.ibs.txIndex }
  return (if env.config.noReceipts then none else some receipt, result.returnData)

end

variable {evm : EVM ξ} {msg : Message} {gasBailout : Bool} {st st' : StateTransition ξ}

theorem buyGas_eq_ok_iff {u : Unit} :
    buyGas evm msg gasBailout st = (.ok u, st') ↔
      msg.gasLimit.toNat * msg.gasPrice.toNat < 2 ^ 256 ∧ maxCost msg < 2 ^ 256 ∧
      (gasBailout = false → maxCost msg ≤ (st.state.getBalance msg.fromAddress).toNat) ∧
      (gasBailout = false → msg.gasLimit ≤ st.gp) ∧ purchase evm msg st = st' := by
  simp only [buyGas, bind_eq_ok_iff, get_eq_ok_iff, failIf_eq_ok_iff, modify_eq_ok_iff]
  constructor
  · rintro ⟨_, _, ⟨rfl, rfl⟩, _, _, ⟨hprice, rfl⟩, _, _, ⟨-, rfl⟩, _, _, ⟨hcost, rfl⟩, _, _,
      ⟨hfunds, rfl⟩, _, _, ⟨hgp, rfl⟩, hst⟩
    refine ⟨Nat.not_le.mp hprice, Nat.not_le.mp hcost, fun h => ?_, fun h => ?_, hst⟩
    · exact Nat.not_lt.mp fun hlt => hfunds ⟨hlt, h⟩
    · exact UInt64.not_lt.mp fun hlt => hgp ⟨hlt, h⟩
  · rintro ⟨hprice, hcost, hfunds, hgp, hst⟩
    have hfees : msg.gasLimit.toNat * msg.feeCap.toNat < 2 ^ 256 := by
      rw [maxCost] at hcost
      omega
    exact ⟨st, st, ⟨rfl, rfl⟩, (), st, ⟨Nat.not_le.mpr hprice, rfl⟩, (), st,
      ⟨Nat.not_le.mpr hfees, rfl⟩, (), st, ⟨Nat.not_le.mpr hcost, rfl⟩, (), st,
      ⟨fun h => Nat.not_lt.mpr (hfunds h.2) h.1, rfl⟩, (), st,
      ⟨fun h => UInt64.not_lt.mpr (hgp h.2) h.1, rfl⟩, hst⟩

theorem preCheck_eq_ok_iff {u : Unit} :
    preCheck evm msg gasBailout st = (.ok u, st') ↔
      (msg.checkNonce = true → checkSender evm.lib msg st.state = .ok ()) ∧
      (checksFees evm msg = true → checkEip1559TxGasFeeCap msg evm.context.baseFee = .ok ()) ∧
      buyGas evm msg gasBailout st = (.ok u, st') := by
  have hguard : ∀ (p : Bool) (x : Except TxError Unit),
      (if p then x else .ok ()) = .ok () ↔ (p = true → x = .ok ()) := by
    intro p x
    cases p with
    | false => simp
    | true => simp
  simp only [preCheck, bind_eq_ok_iff, get_eq_ok_iff, lift_eq_ok_iff]
  constructor
  · rintro ⟨_, _, ⟨rfl, rfl⟩, ⟨⟩, _, ⟨hsender, rfl⟩, ⟨⟩, _, ⟨hfees, rfl⟩, hbuy⟩
    exact ⟨(hguard _ _).mp hsender, (hguard _ _).mp hfees, hbuy⟩
  · rintro ⟨hsender, hfees, hbuy⟩
    exact ⟨st, st, ⟨rfl, rfl⟩, (), st, ⟨(hguard _ _).mpr hsender, rfl⟩, (), st,
      ⟨(hguard _ _).mpr hfees, rfl⟩, hbuy⟩

def messageGas (evm : EVM ξ) (msg : Message) : Except TxError UInt64 :=
  intrinsicGas msg.data msg.accessList msg.toAddress.isNone evm.chainRules.isHomestead
    evm.chainRules.isIstanbul evm.chainRules.isShanghai

theorem useIntrinsicGas_eq_ok_iff {u : Unit} :
    useIntrinsicGas evm msg st = (.ok u, st') ↔ ∃ gas, messageGas evm msg = .ok gas ∧ gas ≤ st.gas ∧
        { st with gas := st.gas - gas } = st' := by
  simp only [useIntrinsicGas, bind_eq_ok_iff, get_eq_ok_iff, failIf_eq_ok_iff,
    modify_eq_ok_iff, lift_eq_ok_iff]
  constructor
  · rintro ⟨gas, _, ⟨hgas, rfl⟩, _, _, ⟨rfl, rfl⟩, _, _, ⟨henough, rfl⟩, hst⟩
    exact ⟨gas, hgas, UInt64.not_lt.mp henough, hst⟩
  · rintro ⟨gas, hgas, henough, hst⟩
    exact ⟨gas, st, ⟨hgas, rfl⟩, st, st, ⟨rfl, rfl⟩, (), st, ⟨UInt64.not_lt.mpr henough, rfl⟩, hst⟩

theorem dispatch_gas_le (evm : EVM ξ) (msg : Message) (bailout : Bool) (gas : UInt64)
    (s : IntraBlockState ξ) : (dispatch evm msg bailout gas s).leftOverGas ≤ gas := by
  rw [dispatch]
  split
  · exact evm.create_gas_le _ _ _ _ _
  · exact evm.call_gas_le _ _ _ _ _ _ _

theorem execute_completes (evm : EVM ξ) (msg : Message) (gasBailout : Bool)
    (st : StateTransition ξ) :
    ∃ r st', execute evm msg gasBailout st = (.ok r, st') ∧ st'.gas ≤ st.gas ∧
      st'.gp = st.gp ∧ st'.initialGas = st.initialGas := by
  let bailout := gasBailout && msg.amount ≠ 0 &&
    !EVM.canTransfer st.state msg.fromAddress msg.amount
  let result := dispatch evm msg bailout st.gas (enter evm msg st.state)
  refine ⟨(result.ret, result.err),
    { st with gas := result.leftOverGas, state := result.state }, ?_,
    dispatch_gas_le _ _ _ _ _, rfl, rfl⟩
  simp only [execute, bind_eq_ok_iff, get_eq_ok_iff, modify_eq_ok_iff, pure_eq_ok_iff]
  exact ⟨st, st, ⟨rfl, rfl⟩, (), _, rfl, rfl, rfl⟩

theorem refundGas_completes (evm : EVM ξ) (msg : Message) (quotient : UInt64)
    (st : StateTransition ξ) (hgas : st.gas ≤ st.initialGas)
    (hgp : st.gp.toNat + st.initialGas.toNat < 2 ^ 64) :
    ∃ st', refundGas evm msg quotient st = (.ok (), st') := by
  have hdiv : (st.gasUsed / quotient).toNat ≤ st.gasUsed.toNat := by
    rw [UInt64.toNat_div]
    exact Nat.div_le_self _ _
  have hrefund : (cappedRefund st quotient).toNat ≤ st.gasUsed.toNat := by
    rw [cappedRefund]
    split
    · rename_i hlt
      exact (UInt64.lt_iff_toNat_lt.mp hlt).le.trans hdiv
    · exact hdiv
  have hused : st.gasUsed.toNat = st.initialGas.toNat - st.gas.toNat :=
    UInt64.toNat_sub_of_le _ _ hgas
  have hle : st.gas.toNat ≤ st.initialGas.toNat := UInt64.le_iff_toNat_le.mp hgas
  have hsum : (st.gas + cappedRefund st quotient).toNat ≤ st.initialGas.toNat := by
    rw [UInt64.toNat_add, Nat.mod_eq_of_lt (by omega)]
    omega
  have hadd : addGas st.gp (st.gas + cappedRefund st quotient) =
      .ok (st.gp + (st.gas + cappedRefund st quotient)) := by
    rw [addGas, if_neg]
    rw [UInt64.not_lt, UInt64.le_iff_toNat_le, UInt64.toNat_sub_of_le]
    · change _ ≤ 2 ^ 64 - 1 - _
      omega
    · rw [UInt64.le_iff_toNat_le]
      change _ ≤ 2 ^ 64 - 1
      omega
  simp only [refundGas, bind_eq_ok_iff, get_eq_ok_iff, modify_eq_ok_iff, lift_eq_ok_iff]
  exact ⟨_, st, st, ⟨rfl, rfl⟩, _, st, ⟨hadd, rfl⟩, rfl⟩

end N42.TransactionExecution
