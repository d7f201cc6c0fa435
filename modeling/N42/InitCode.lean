import N42.IntrinsicGasBounds
import N42.OpcodeCharges
import N42.SenderBinding

/-!
The limit on the length of init code.  The opcodes that create contracts refuse init code
that is too long before anything of it is read; a transaction that creates a contract does not.
-/

namespace N42.InitCode

open ChainTypes StateObjects StatefulActions VirtualMachine Interpreter
open MemoryGas GasTable InstructionSets OpcodeCharges

def wordsOf (code : Bytes) : Nat :=
  (code.length + 31) / 32

section Opcodes

variable {db : Backend} (env : Environment db)
  (run : Contract → Bytes → Bool → Evm db RunResult)

def limited (contract : Contract) (input : Bytes) (readOnly : Bool) : Evm db RunResult :=
  if maxInitCodeSize < contract.code.length then Action.fail .panic
  else run contract input readOnly

/-- `execute` with creations that run their init code only if it is not too long. -/
def executeLimited (scope : Scope) : Execution → Evm db Executed
  | .opCreate => opCreate env (limited run) scope
  | .opCreate2 => opCreate2 env (limited run) scope
  | execution => execute env run scope execution

def stepLimited (scope : Scope) : Evm db (Scope ⊕ RunResult) := do
  let info := env.table.operation (scope.contract.getOp scope.pc)
  let charged ← charge info scope
  match charged with
  | .error err => return .inr ⟨[], scope.contract.gas, some err⟩
  | .ok scope => do
      let done ← executeLimited env run scope info.execute
      match done.signal with
      | .next => return .inl { done.scope with pc := done.scope.pc + 1 }
      | .stop => return .inr ⟨done.res, done.scope.contract.gas, none⟩
      | .fail err => return .inr ⟨done.res, done.scope.contract.gas, some err⟩

end Opcodes

/-- The machine that stops at a creation whose init code is too long, at any depth. -/
def runLimited {db : Backend} (env : Environment db) :
    Nat → Contract → Bytes → Bool → Evm db RunResult
  | 0 => fun _ _ _ => Action.fail .outOfFuel
  | fuel + 1 => fun contract input readOnly =>
    if contract.code = [] then return ⟨[], contract.gas, none⟩
    else do
      let m ← Action.get
      Action.modify (enter readOnly)
      let result ← Action.loop .outOfFuel (stepLimited env (runLimited env fuel)) fuel
        ⟨0, [], [], { contract with input := input }⟩
      Action.modify (leave (readOnly && !m.readOnly))
      return result

structure Limited {db : Backend} (t : Table db) : Prop where
  create : ∀ e, t .create = some e →
    e.constantGas = 32000 ∧ e.dynamicGas.1 = ofFrame gasCreateEip3860
  create2 : ∀ e, t .create2 = some e →
    e.constantGas = 32000 ∧ e.dynamicGas.1 = ofFrame gasCreate2Eip3860

section Sets

variable {db : Backend} {local_ : Opcode → Scope → Bytes → Computed} {forks : Forks}

theorem limited_shanghai : Limited (newShanghaiInstructionSet local_ forks : Table db) where
  create e h := by
    cases h
    exact ⟨rfl, rfl⟩
  create2 e h := by
    cases h
    exact ⟨rfl, rfl⟩

theorem limited_selected (h : forks.rules.isShanghai = true) :
    Limited (selected local_ forks : Table db) := by
  rw [selected]
  split
  · exact limited_shanghai
  · split
    · exact limited_shanghai
    · exact limited_shanghai

theorem Limited.enable2929 {t : Table db} (h : Limited t) : Limited (enable2929 forks t) where
  create := h.create
  create2 := h.create2

theorem Limited.enable3860 {t : Table db} (h : Limited t) : Limited (enable3860 t) where
  create e he := by
    obtain ⟨e', he', rfl⟩ := Option.map_eq_some_iff.mp he
    exact ⟨(h.create e' he').1, rfl⟩
  create2 e he := by
    obtain ⟨e', he', rfl⟩ := Option.map_eq_some_iff.mp he
    exact ⟨(h.create2 e' he').1, rfl⟩

theorem Limited.enableEIP {t : Table db} (h : Limited t) (eip : Nat) :
    Limited (enableEIP forks eip t) := by
  rw [InstructionSets.enableEIP]
  repeat' split
  · exact h.enable2929
  · exact h.enable3860
  · exact h

theorem limited_newEVMInterpreter (h : forks.rules.isShanghai = true) (extraEips : List Nat) :
    Limited (newEVMInterpreter local_ forks extraEips : Table db) :=
  List.foldlRecOn extraEips _ (limited_selected h) fun _ h eip _ => h.enableEIP eip

end Sets

section Runs

variable {db : Backend} {env : Environment db} {local_ : Opcode → Scope → Bytes → Computed}
  {forks : Forks} {t : Table db} {other : OtherOpcodes db} {scope scope' : Scope}
  {m m' : Machine db}

theorem length_getCopy_le (memory : Bytes) (offset size : Uint256) :
    (getCopy memory offset size).length ≤ size.toNat := by
  have hlow : low64 size ≤ size.toNat := Nat.mod_le _ _
  rw [getCopy]
  split
  · rw [List.length_take]
    omega
  · exact Nat.zero_le _

theorem create_limited {run : Contract → Bytes → Bool → Evm db RunResult} {caller : ContractRef}
    {code : Bytes} (hcode : code.length ≤ maxInitCodeSize) (gas : UInt64) (value : Uint256)
    (address : Address) (increment : Bool) :
    create env (limited run) caller code gas value address increment =
      create env run caller code gas value address increment := by
  simp only [create, limited, Nat.not_lt.mpr hcode, if_false]

theorem opCreate_limited {run : Contract → Bytes → Bool → Evm db RunResult}
    (hsize : (back scope.stack 2).toNat ≤ maxInitCodeSize) :
    opCreate env (limited run) scope = opCreate env run scope := by
  rw [opCreate, opCreate]
  rcases hstack : scope.stack with _ | ⟨value, _ | ⟨offset, _ | ⟨size, rest⟩⟩⟩
  · rfl
  · rfl
  · rfl
  · rw [hstack] at hsize
    have hcode := (length_getCopy_le scope.memory offset size).trans hsize
    simp only [create_limited hcode]

theorem opCreate2_limited {run : Contract → Bytes → Bool → Evm db RunResult}
    (hsize : (back scope.stack 2).toNat ≤ maxInitCodeSize) :
    opCreate2 env (limited run) scope = opCreate2 env run scope := by
  rw [opCreate2, opCreate2]
  rcases hstack : scope.stack with _ | ⟨value, _ | ⟨offset, _ | ⟨size, _ | ⟨salt, rest⟩⟩⟩⟩
  · rfl
  · rfl
  · rfl
  · rfl
  · rw [hstack] at hsize
    have hcode := (length_getCopy_le scope.memory offset size).trans hsize
    simp only [create_limited hcode]

theorem initCodeCost_spec {price size cost : UInt64} (hprice : price.toNat ≤ 8)
    (h : initCodeCost price scope size = .ok cost) :
    (back scope.stack 2).toNat ≤ maxInitCodeSize ∧ ∃ fee, memoryGas scope size = .ok fee ∧
      cost.toNat = fee.toNat + price.toNat * (((back scope.stack 2).toNat + 31) / 32) := by
  obtain ⟨fee, hfee, h⟩ := memoryGas_of_bind h
  obtain ⟨len, hlen, h⟩ := FallibleRuns.bind_eq_ok_iff.mp h
  rw [orOverflow_eq_ok_iff, uint64_eq_some_iff] at hlen
  split at h
  · cases h
  · rename_i hle
    rw [orOverflow_eq_ok_iff, safeAdd_eq_some_iff] at h
    rw [hlen]
    refine ⟨Nat.not_lt.mp hle, fee, hfee, ?_⟩
    have hwords : (price * toWordSize len).toNat = price.toNat * ((len.toNat + 31) / 32) := by
      have hmax : maxInitCodeSize = 49152 := rfl
      have hcount : (len.toNat + 31) / 32 ≤ 1536 := by omega
      have hproduct := Nat.mul_le_mul hprice hcount
      rw [UInt64.toNat_mul, toNat_toWordSize, Nat.mod_eq_of_lt (by omega)]
    rw [h.2, hwords]

variable {opcode : Opcode}

theorem entry_of_execute {op : UInt8} (hfits : FitsAll local_ forks t)
    (hcreates : opcode = .create ∨ opcode = .create2)
    (h : (operationOf t other op).execute = executionOf local_ opcode) :
    ∃ e, t opcode = some e ∧ operationOf t other op = e.info := by
  have hother := other.execute op
  rw [operationOf] at h ⊢
  rcases hbyte : Opcode.ofByte op with _ | found
  · rw [hbyte] at h
    rcases hcreates with rfl | rfl
    · exact absurd h hother.1
    · exact absurd h hother.2
  · rw [hbyte] at h
    dsimp only at h ⊢
    rcases hentry : t found with _ | e
    · rw [hentry] at h
      rcases hcreates with rfl | rfl
      · cases h
      · cases h
    · rw [hentry] at h
      have hexecute : executionOf local_ found = executionOf local_ opcode :=
        (hfits found e hentry).execute.symm.trans h
      have hsame : found = opcode := by
        rcases hcreates with rfl | rfl
        · cases found <;> first | rfl | cases hexecute
        · cases found <;> first | rfl | cases hexecute
      exact ⟨e, hsame ▸ hentry, rfl⟩

def initCodePrice (opcode : Opcode) : UInt64 :=
  if opcode = .create then initCodeWordGas else initCodeWordGas + keccak256WordGas

def handedOver (scope : Scope) : Bytes :=
  getCopy scope.memory (back scope.stack 1) (back scope.stack 2)

theorem Limited.entry (h : Limited t) (hcreates : opcode = .create ∨ opcode = .create2)
    {e : Entry db} (he : t opcode = some e) :
    e.constantGas = 32000 ∧ e.dynamicGas.1 = ofFrame (initCodeCost (initCodePrice opcode)) := by
  rcases hcreates with rfl | rfl
  · exact h.create e he
  · exact h.create2 e he

theorem length_getCopy {memory : Bytes} {offset size : Uint256} {bytes : UInt64}
    (h : calcMemSize64 offset size = some bytes) (hmemory : bytes.toNat ≤ memory.length) :
    (getCopy memory offset size).length = size.toNat := by
  obtain ⟨hlt, rfl | hsum⟩ := calcMemSize64_spec h
  · rw [getCopy]
    split
    · exact List.length_take_le 0 _ |> Nat.le_zero.mp
    · rfl
  · have hbytes := bytes.toNat_lt
    have hsize : low64 size = size.toNat := Nat.mod_eq_of_lt hlt
    have hoffset : low64 offset = offset.toNat := Nat.mod_eq_of_lt (by omega)
    rw [getCopy, hsize, hoffset]
    split
    · rw [List.length_take, List.length_append, List.length_replicate]
      omega
    · rw [List.length_nil]
      omega

section

variable (hfits : FitsAll local_ forks t) (hlimited : Limited t)
include hfits hlimited

/-- What the checks before a creation guarantee: the init code that is handed over is not too
long, and its words have been paid for. -/
theorem handedOver_of_charge {op : UInt8} (hcreates : opcode = .create ∨ opcode = .create2)
    (hexecute : (operationOf t other op).execute = executionOf local_ opcode)
    (h : charge (operationOf t other op) scope m = (.ok (.ok scope'), m')) :
    (back scope'.stack 2).toNat ≤ maxInitCodeSize ∧ (MemoryGas.Sized scope.memory →
        scope.contract.gas.toNat + feeOf (scope.memory.length / 32) =
          scope'.contract.gas.toNat + feeOf (scope'.memory.length / 32) + 32000 +
            (initCodePrice opcode).toNat * wordsOf (handedOver scope')) := by
  obtain ⟨e, hentry, hinfo⟩ := entry_of_execute hfits hcreates hexecute
  obtain ⟨hconstant, hdynamic⟩ := hlimited.entry hcreates hentry
  rw [hinfo] at h
  obtain ⟨bytes, size, cost, before, between, after, hpassed⟩ :=
    passed_of_charge (show e.info.dynamicGas = some e.dynamicGas.1 from rfl)
      (show e.info.memorySize = some e.memorySize from rfl) h
  have hpriced := (hfits opcode e hentry).dynamicGas
  have hneed : calcMemSize64 (back scope.stack 1) (back scope.stack 2) = some bytes := by
    have hbytes := hpassed.bytes_eq
    rw [(hfits opcode e hentry).memorySize] at hbytes
    rcases hcreates with rfl | rfl
    · exact hbytes
    · exact hbytes
  have hgas := hpassed.dynamic
  rw [hdynamic] at hgas
  obtain ⟨hcost, hbetween, -⟩ := ofFrame_eq_ok hgas
  have hprice : (initCodePrice opcode).toNat ≤ 8 := by
    rcases hcreates with rfl | rfl
    · decide
    · decide
  obtain ⟨hmax, fee, hfee, hsum⟩ := initCodeCost_spec hprice hcost
  have hstack : scope'.stack = scope.stack := by rw [hpassed.scope_eq]
  rw [handedOver, hstack]
  refine ⟨hmax, fun hsized => ?_⟩
  obtain ⟨-, -, hreach⟩ := hpassed.memory hpriced hsized
  obtain ⟨-, hmemory⟩ := memoryGas_spec hsized (Dvd.intro_left _ hpassed.size_eq.symm) hfee
  have hfirst := toNat_of_useGas hpassed.constant
  have hsecond := toNat_of_useGas hpassed.paid
  have hscope := hpassed.scope_eq
  rw [wordsOf, length_getCopy hneed hreach]
  have hlength : scope'.memory = resize scope.memory size := by rw [hscope]
  have hafter : scope'.contract = after := by rw [hscope]
  have hinfoGas : e.info.constantGas.toNat = 32000 := by
    change e.constantGas.toNat = _
    rw [hconstant]
    rfl
  rw [hlength, hafter, ← hmemory]
  rw [hbetween] at hsecond
  change after.gas.toNat + cost.toNat = before.gas.toNat at hsecond
  change cost.toNat = fee.toNat + (initCodePrice opcode).toNat *
    (((back scope.stack 2).toNat + 31) / 32) at hsum
  omega

variable (env) in
theorem stepLimited_eq (htable : env.table = jumpTable t other)
    (run : Contract → Bytes → Bool → Evm db RunResult) : stepLimited env run = step env run := by
  funext scope m
  rw [stepLimited, step]
  refine Action.bind_congr fun charged m' hcharge => ?_
  cases charged with
  | error err => rfl
  | ok scope' =>
    rw [htable] at hcharge ⊢
    change charge (operationOf t other _) scope m = _ at hcharge
    have hsame : executeLimited env run scope'
          (operationOf t other (scope.contract.getOp scope.pc)).execute = execute env run scope'
          (operationOf t other (scope.contract.getOp scope.pc)).execute := by
      rcases hexecute : (operationOf t other (scope.contract.getOp scope.pc)).execute
      case opCreate =>
        exact opCreate_limited (handedOver_of_charge hfits hlimited (.inl rfl) hexecute hcharge).1
      case opCreate2 =>
        exact opCreate2_limited (handedOver_of_charge hfits hlimited (.inr rfl) hexecute hcharge).1
      all_goals rfl
    exact congrFun (congrArg (· >>= _) hsame) m'

theorem runLimited_eq (htable : env.table = jumpTable t other) (fuel : Nat) :
    runLimited env fuel = run env fuel := by
  induction fuel with
  | zero => rfl
  | succ fuel ih =>
    funext contract input readOnly
    rw [runLimited, run, ih, stepLimited_eq env hfits hlimited htable]

end

end Runs

section Transactions

open MessageCalls (EVM)
open Transactions (Message AccessTuple)
open TransactionExecution (transitionDb intrinsicGas dataGas messageGas StateTransition)
open ExecutionConditions (Executable)

theorem toWordSize_ofNat {data : Bytes} (h : data.length < 2 ^ 64) :
    TransactionExecution.toWordSize (UInt64.ofNat data.length) = UInt64.ofNat (wordsOf data) := by
  have hwords := toNat_toWordSize (UInt64.ofNat data.length)
  rw [UInt64.toNat_ofNat', Nat.mod_eq_of_lt h] at hwords
  rw [← UInt64.toNat_inj, UInt64.toNat_ofNat', wordsOf, Nat.mod_eq_of_lt (by omega)]
  exact hwords

theorem intrinsicGas_words {data : Bytes} {accessList : List AccessTuple}
    {isHomestead isEIP2028 : Bool} {gas : UInt64} (hlength : data.length < 2 ^ 64)
    (h : intrinsicGas data accessList true isHomestead isEIP2028 true = .ok gas) :
    ∃ rest, intrinsicGas data accessList true isHomestead isEIP2028 false = .ok rest ∧
      gas = rest + UInt64.ofNat (wordsOf data) * initCodeWordGas := by
  cases data with
  | nil =>
    have hnone : UInt64.ofNat (wordsOf []) * initCodeWordGas = 0 := by decide
    rw [intrinsicGas, if_pos List.isEmpty_nil] at h ⊢
    exact ⟨gas, h, by rw [hnone, UInt64.add_zero]⟩
  | cons byte data =>
    obtain ⟨start, hstart, h⟩ := FallibleRuns.bind_eq_ok_iff.mp
      (show (dataGas (byte :: data) true isEIP2028 true _ >>= _) = .ok gas from h)
    rw [dataGas] at hstart
    obtain ⟨first, hfirst, hstart⟩ := FallibleRuns.bind_eq_ok_iff.mp hstart
    obtain ⟨second, hsecond, hstart⟩ := FallibleRuns.bind_eq_ok_iff.mp hstart
    rw [Bool.and_self, if_pos rfl, TransactionExecution.charge, toWordSize_ofNat hlength] at hstart
    split at hstart
    · cases hstart
    · cases hstart
      cases h
      have hrest : dataGas (byte :: data) true isEIP2028 false
          (if true && isHomestead then TransactionExecution.txGasContractCreation
            else TransactionExecution.txGas) = .ok second := by
        rw [dataGas]
        exact FallibleRuns.bind_eq_ok_iff.mpr ⟨first, hfirst,
          FallibleRuns.bind_eq_ok_iff.mpr ⟨second, hsecond, rfl⟩⟩
      refine ⟨second + UInt64.ofNat accessList.length *
        TransactionExecution.txAccessListAddressGas +
        UInt64.ofNat (TransactionExecution.storageKeys accessList) *
          TransactionExecution.txAccessListStorageKeyGas, ?_, ?_⟩
      · rw [intrinsicGas, if_neg (show ¬(byte :: data).isEmpty = true from Bool.false_ne_true),
          hrest]
        rfl
      · change _ + _ * TransactionExecution.initCodeWordGas + _ + _ =
          _ + _ + _ + _ * TransactionExecution.initCodeWordGas
        ac_rfl

variable {ξ : Type}

def Creates (evm : EVM ξ) (msg : Message) (st : StateTransition ξ) (code : Bytes) : Prop :=
  msg.toAddress = none ∧ msg.data = code ∧
    ∃ r st', transitionDb evm msg true false st = (.ok r, st')

theorem contracts_of_transitionDb {evm : EVM ξ} {msg : Message} {st st' : StateTransition ξ}
    {r : TransactionExecution.ExecutionResult} (hcreates : msg.toAddress = none)
    (h : transitionDb evm msg true false st = (.ok r, st')) :
    ∃ gas, st'.state.contracts = (evm.create msg.fromAddress msg.data gas msg.amount
      (TransactionExecution.enter evm msg
        (TransactionExecution.purchase evm msg st).state)).state.contracts := by
  rw [transitionDb, Action.bind_eq_ok_iff] at h
  obtain ⟨⟨⟩, bought, hpre, h⟩ := h
  rw [Action.bind_eq_ok_iff] at h
  obtain ⟨⟨⟩, charged, huse, h⟩ := h
  rw [Action.bind_eq_ok_iff] at h
  obtain ⟨result, st₁, hexecute, h⟩ := h
  rw [Action.bind_eq_ok_iff] at h
  obtain ⟨⟨⟩, st₂, hsettle, h⟩ := h
  simp only [Action.bind_eq_ok_iff, Action.modify_eq_ok_iff, Action.get_eq_ok_iff,
    Action.pure_eq_ok_iff] at h
  obtain ⟨_, _, rfl, _, _, ⟨rfl, rfl⟩, -, rfl⟩ := h
  obtain ⟨-, -, hbuy⟩ := TransactionExecution.preCheck_eq_ok_iff.mp hpre
  obtain ⟨-, -, -, -, rfl⟩ := TransactionExecution.buyGas_eq_ok_iff.mp hbuy
  obtain ⟨intrinsic, -, -, rfl⟩ := TransactionExecution.useIntrinsicGas_eq_ok_iff.mp huse
  refine ⟨(TransactionExecution.purchase evm msg st).gas - intrinsic, ?_⟩
  have hpaid : ∀ used s, (TransactionExecution.payFees evm msg used s).contracts = s.contracts := by
    intro used s
    rw [TransactionExecution.payFees]
    split
    · cases evm.chainConfig.eip1559FeeCollector with
      | none => rfl
      | some collector => rfl
    · rfl
  have hsettled : st₂.state.contracts = st₁.state.contracts := by
    simp only [TransactionExecution.settleGas, TransactionExecution.refundGas,
      Action.bind_eq_ok_iff, Action.get_eq_ok_iff, Action.modify_eq_ok_iff,
      Action.lift_eq_ok_iff] at hsettle
    obtain ⟨_, _, ⟨rfl, rfl⟩, gp, _, ⟨-, rfl⟩, rfl⟩ := hsettle
    rfl
  rw [hpaid, hsettled]
  obtain ⟨-, rfl⟩ := Prod.mk.inj hexecute
  change (TransactionExecution.dispatch evm msg _ _ _).state.contracts = _
  rw [TransactionExecution.dispatch, hcreates]

theorem creates_within_iff [Inhabited ξ] {evm : EVM ξ} {msg : Message}
    (hcreates : msg.toAddress = none) (h : Executable evm msg) :
    (∀ st code, Creates evm msg st code → code.length ≤ maxInitCodeSize) ↔
      msg.data.length ≤ maxInitCodeSize := by
  constructor
  · intro hwithin
    let s : TransactionExecution.BlockState ξ :=
      ExecutionConditions.readyState evm.lib default msg
    obtain ⟨r, st', hrun⟩ := ExecutionConditions.transitionDb_completes h
      (ExecutionConditions.readyState_ready h.cost : ExecutionConditions.Ready _ _ s) false
    exact hwithin _ _ ⟨hcreates, rfl, r, st', hrun⟩
  · rintro hshort st code ⟨-, rfl, -⟩
    exact hshort

end Transactions

section Toys

open HeaderSealing
open MessageCalls (Interpreter EVM)
open RevisionSafety (toyBackend)

def recorder : Interpreter Nat where
  precompiles := fun _ => []
  getCode := fun _ _ => []
  setCode := fun _ _ n => n
  renewStorage := fun _ n => n
  run := fun _ _ _ contract s =>
    ⟨[], contract.gas, none, { s with contracts := contract.code.length }⟩
  finalizeTx := fun _ s => s
  run_gas_le := fun _ _ _ _ _ => UInt64.le_refl _

def toyEvm : EVM Nat where
  lib := SenderBinding.toyEnvironment.lib
  interpreter := recorder
  chainConfig := { ChainConfig.unforked with shanghaiBlock := some 0 }
  config := .zero
  context := ⟨toyAddress 9, 0, SenderBinding.toyEnvironment.header⟩
  txContext := ⟨toyAddress 1, 0⟩

def toyCreation (length : Nat) : Transactions.Message where
  toAddress := none
  fromAddress := toyAddress 1
  nonce := 0
  amount := 0
  gasLimit := 300000
  gasPrice := 0
  feeCap := 0
  tip := 0
  data := List.replicate length 0
  accessList := []
  checkNonce := true
  isFree := false

def toyStart : TransactionExecution.BlockState Nat :=
  ⟨300000, 0, .new (fun a => if a = toyAddress 1 then
    some ⟨0, 0, MessageCalls.emptyCodeHash toyEvm.lib⟩ else none) 0⟩

theorem executable_toyCreation :
    ExecutionConditions.Executable toyEvm (toyCreation 49153) where
  nonce := fun _ => by decide +kernel
  fees := fun hchecks => absurd hchecks (by decide +kernel)
  price := by decide +kernel
  cost := by decide +kernel
  gas := by
    have hlength : (toyCreation 49153).data.length = 49153 := List.length_replicate
    have hzeros : ((toyCreation 49153).data.countP fun byte => byte ≠ 0) = 0 := by
      rw [toyCreation, List.countP_replicate]
      rfl
    have hsized : IntrinsicGasBounds.Sized (toyCreation 49153).data
        (toyCreation 49153).accessList := by
      refine ⟨?_, by decide +kernel, by decide +kernel⟩
      rw [hlength]
      decide
    obtain ⟨gas, hgas, hneeded⟩ :=
      IntrinsicGasBounds.intrinsicGas_of_sized hsized true false false true
    refine ⟨gas, hgas, UInt64.le_iff_toNat_le.mpr ?_⟩
    rw [hneeded, IntrinsicGasBounds.gasNeeded, IntrinsicGasBounds.dataCost, hzeros, hlength]
    decide +kernel

theorem ready_toyStart :
    ExecutionConditions.Ready toyEvm.lib (toyCreation 49153) toyStart where
  sender := fun _ => by decide +kernel
  funds := by decide +kernel
  gp := by decide +kernel

theorem runCreation_toyEvm (address : Address) (code : Bytes) (gas : UInt64)
    (s : MessageCalls.IntraBlockState Nat) :
    (toyEvm.runCreation (toyAddress 1) address code gas 0 s).err = none ∧
      (toyEvm.runCreation (toyAddress 1) address code gas 0 s).state.contracts = code.length := by
  have hrun : toyEvm.runContract ⟨toyAddress 1, address, 0, gas, code, []⟩ s =
      ⟨[], gas, none, { s with contracts := code.length }⟩ := rfl
  have hcode : toyEvm.checkCode [] = none := by decide +kernel
  have hfree : UInt64.ofNat ([] : Bytes).length * EVM.createDataGas = 0 := by decide
  rw [EVM.runCreation, hrun]
  dsimp only [Option.none_or]
  rw [hcode]
  dsimp only
  rw [EVM.storeCode, hfree]
  dsimp only
  rw [if_pos UInt64.zero_le]
  exact ⟨rfl, rfl⟩

def taken (s : MessageCalls.IntraBlockState Nat) (address : Address) : Bool :=
  s.getNonce address ≠ 0 ∨ (s.getCodeHash address ≠ default ∧
    s.getCodeHash address ≠ MessageCalls.emptyCodeHash toyEvm.lib)

theorem contracts_toyEvm (code : Bytes) (gas : UInt64) {s : MessageCalls.IntraBlockState Nat}
    (hfunds : EVM.canTransfer s (toyAddress 1) 0 = true)
    (hnonce : ¬s.getNonce (toyAddress 1) + 1 < s.getNonce (toyAddress 1))
    (hfree : taken (s.setNonce toyEvm.lib (toyAddress 1) (s.getNonce (toyAddress 1) + 1))
      (EVM.createAddress toyEvm.lib (toyAddress 1) (s.getNonce (toyAddress 1))) = false) :
    (toyEvm.create (toyAddress 1) code gas 0 s).state.contracts = code.length := by
  have hberlin : toyEvm.chainRules.isBerlin = false := by decide +kernel
  rw [EVM.create]
  dsimp only
  rw [hfunds, hberlin, if_neg (by decide), if_neg hnonce, if_neg (by decide), EVM.deploy]
  dsimp only
  rw [if_neg (of_decide_eq_false hfree)]
  obtain ⟨hok, hlength⟩ := runCreation_toyEvm _ code gas _
  rw [if_neg fun h => h.1 hok]
  exact hlength

def noOther : OtherOpcodes toyBackend where
  operation _ := opUndefined
  metered _ _ h := by cases h
  execute _ := ⟨fun h => (by cases h), fun h => (by cases h)⟩

def toyMachine : Environment toyBackend where
  rules := shanghaiForks.rules
  isTangerineWhistle := true
  noRecursion := false
  restoreState := false
  extraEips := [3860]
  precompile _ := none
  table := jumpTable (newEVMInterpreter (fun _ scope data => ⟨scope, [], .next, data⟩) shanghaiForks
    [3860]) noOther

end Toys

end N42.InitCode
