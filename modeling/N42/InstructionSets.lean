import N42.GasTable

/-!
The instruction sets of the forks, for the opcodes that need memory.  A set is made from the
one before it, and extra proposals change the set that the rules have selected.
-/

namespace N42.InstructionSets

open ChainTypes StateObjects VirtualMachine MemoryGas GasTable

inductive Opcode where
  | keccak256
  | callDataCopy
  | codeCopy
  | extCodeCopy
  | returnDataCopy
  | mload
  | mstore
  | mstore8
  | log (topics : Fin 5)
  | create
  | call
  | callCode
  | return_
  | delegateCall
  | create2
  | staticCall
  | revert
deriving DecidableEq

section MemoryTable

section

variable (stack : List Uint256)

def memoryKeccak256 := calcMemSize64 (back stack 0) (back stack 1)
def memoryCallDataCopy := calcMemSize64 (back stack 0) (back stack 2)
def memoryReturnDataCopy := calcMemSize64 (back stack 0) (back stack 2)
def memoryCodeCopy := calcMemSize64 (back stack 0) (back stack 2)
def memoryExtCodeCopy := calcMemSize64 (back stack 1) (back stack 3)
def memoryMLoad := calcMemSize64WithUint (back stack 0) 32
def memoryMStore8 := calcMemSize64WithUint (back stack 0) 1
def memoryMStore := calcMemSize64WithUint (back stack 0) 32
def memoryCreate := calcMemSize64 (back stack 1) (back stack 2)
def memoryCreate2 := calcMemSize64 (back stack 1) (back stack 2)
def memoryReturn := calcMemSize64 (back stack 0) (back stack 1)
def memoryRevert := calcMemSize64 (back stack 0) (back stack 1)
def memoryLog := calcMemSize64 (back stack 0) (back stack 1)

def largerSize (retOffset retSize inOffset inSize : Uint256) : Option UInt64 := do
  let x ← calcMemSize64 retOffset retSize
  let y ← calcMemSize64 inOffset inSize
  return if y < x then x else y

def memoryCall :=
  largerSize (back stack 5) (back stack 6) (back stack 3) (back stack 4)

def memoryDelegateCall :=
  largerSize (back stack 4) (back stack 5) (back stack 2) (back stack 3)

def memoryStaticCall :=
  largerSize (back stack 4) (back stack 5) (back stack 2) (back stack 3)

end

end MemoryTable

structure Entry (db : Backend) where
  execute : Execution
  constantGas : UInt64
  dynamicGas : { g : GasFunc db // Meters g }
  numPop : Nat
  numPush : Nat
  memorySize : List Uint256 → Option UInt64

abbrev Table (db : Backend) := Opcode → Option (Entry db)

/-- The rules that select an instruction set, with those that the model has already. -/
structure Forks where
  rules : Rules
  isTangerineWhistle : Bool
  isByzantium : Bool
  isConstantinople : Bool
  isCancun : Bool
  isPrague : Bool

def shanghaiForks : Forks where
  rules := ⟨true, true, true, true, true, true, false, false⟩
  isTangerineWhistle := true
  isByzantium := true
  isConstantinople := true
  isCancun := false
  isPrague := false

section Sets

variable {db : Backend}

def frame (f : Scope → UInt64 → Except VmError UInt64) : { g : GasFunc db // Meters g } :=
  ⟨ofFrame f, meters_ofFrame f⟩

def Table.set (t : Table db) (op : Opcode) (e : Entry db) : Table db :=
  fun o => if o = op then some e else t o

def Table.adjust (t : Table db) (op : Opcode) (f : Entry db → Entry db) : Table db :=
  fun o => if o = op then (t o).map f else t o

def Table.price (t : Table db) (op : Opcode) (constantGas : UInt64) : Table db :=
  t.adjust op fun e => { e with constantGas := constantGas }

def Table.meter (t : Table db) (op : Opcode) (dynamicGas : { g : GasFunc db // Meters g }) :
    Table db :=
  t.adjust op fun e => { e with dynamicGas := dynamicGas }

-- what the opcodes that work on their own frame alone do, and the rules
variable (local_ : Opcode → Scope → Bytes → Computed) (forks : Forks)

def newFrontierInstructionSet : Table db
  | .keccak256 =>
    some ⟨.compute (local_ .keccak256), 30, frame gasKeccak256, 2, 1, memoryKeccak256⟩
  | .callDataCopy =>
    some ⟨.compute (local_ .callDataCopy), 3, frame gasCallDataCopy, 3, 0, memoryCallDataCopy⟩
  | .codeCopy =>
    some ⟨.compute (local_ .codeCopy), 3, frame gasCodeCopy, 3, 0, memoryCodeCopy⟩
  | .extCodeCopy => some ⟨.opExtCodeCopy, 20, frame gasExtCodeCopy, 4, 0, memoryExtCodeCopy⟩
  | .mload => some ⟨.compute (local_ .mload), 3, frame pureMemoryGascost, 1, 1, memoryMLoad⟩
  | .mstore => some ⟨.compute (local_ .mstore), 3, frame pureMemoryGascost, 2, 0, memoryMStore⟩
  | .mstore8 =>
    some ⟨.compute (local_ .mstore8), 3, frame pureMemoryGascost, 2, 0, memoryMStore8⟩
  | .log topics =>
    some ⟨.makeLog topics, 0, frame (makeGasLog (UInt64.ofNat topics)), topics + 2, 0, memoryLog⟩
  | .create => some ⟨.opCreate, 32000, frame pureMemoryGascost, 3, 1, memoryCreate⟩
  | .call =>
    some ⟨.opCall, 40, ⟨_, meters_gasCall forks.rules forks.isTangerineWhistle⟩, 7, 1, memoryCall⟩
  | .callCode =>
    some ⟨.opCallCode, 40, ⟨_, meters_gasCallCode forks.isTangerineWhistle⟩, 7, 1, memoryCall⟩
  | .return_ => some ⟨.compute (local_ .return_), 0, frame pureMemoryGascost, 2, 0, memoryReturn⟩
  | .returnDataCopy | .delegateCall | .create2 | .staticCall | .revert => none

def newHomesteadInstructionSet : Table db :=
  (newFrontierInstructionSet local_ forks).set .delegateCall
    ⟨.opDelegateCall, 40, ⟨_, meters_gasDelegateCall forks.isTangerineWhistle⟩, 6, 1,
      memoryDelegateCall⟩

def newTangerineWhistleInstructionSet : Table db :=
  ((((newHomesteadInstructionSet local_ forks).price .extCodeCopy 700).price .call 700).price
    .callCode 700).price .delegateCall 700

def newSpuriousDragonInstructionSet : Table db :=
  newTangerineWhistleInstructionSet local_ forks

def newByzantiumInstructionSet : Table db :=
  (((newSpuriousDragonInstructionSet local_ forks).set .staticCall
    ⟨.opStaticCall, 700, ⟨_, meters_gasStaticCall forks.isTangerineWhistle⟩, 6, 1,
      memoryStaticCall⟩).set .returnDataCopy
    ⟨.compute (local_ .returnDataCopy), 3, frame gasReturnDataCopy, 3, 0,
      memoryReturnDataCopy⟩).set .revert
    ⟨.compute (local_ .revert), 0, frame pureMemoryGascost, 2, 0, memoryRevert⟩

def newConstantinopleInstructionSet : Table db :=
  (newByzantiumInstructionSet local_ forks).set .create2
    ⟨.opCreate2, 32000, frame gasCreate2, 4, 1, memoryCreate2⟩

def newIstanbulInstructionSet : Table db :=
  newConstantinopleInstructionSet local_ forks

def gasCallEIP2929 : { g : GasFunc db // Meters g } :=
  ⟨makeCallVariantGasCallEIP2929 (gasCall forks.rules forks.isTangerineWhistle),
    meters_gasCallEIP2929 (meters_gasCall _ _)⟩

def gasCallCodeEIP2929 : { g : GasFunc db // Meters g } :=
  ⟨makeCallVariantGasCallEIP2929 (gasCallCode forks.isTangerineWhistle),
    meters_gasCallEIP2929 (meters_gasCallCode _)⟩

def gasStaticCallEIP2929 : { g : GasFunc db // Meters g } :=
  ⟨makeCallVariantGasCallEIP2929 (gasStaticCall forks.isTangerineWhistle),
    meters_gasCallEIP2929 (meters_gasStaticCall _)⟩

def gasDelegateCallEIP2929 : { g : GasFunc db // Meters g } :=
  ⟨makeCallVariantGasCallEIP2929 (gasDelegateCall forks.isTangerineWhistle),
    meters_gasCallEIP2929 (meters_gasDelegateCall _)⟩

def enable2929 (t : Table db) : Table db :=
  (((((((((t.price .extCodeCopy warmStorageReadCostEIP2929).meter .extCodeCopy
    ⟨_, meters_gasExtCodeCopyEIP2929⟩).price .call warmStorageReadCostEIP2929).meter .call
    (gasCallEIP2929 forks)).price .callCode warmStorageReadCostEIP2929).meter .callCode
    (gasCallCodeEIP2929 forks)).price .staticCall warmStorageReadCostEIP2929).meter .staticCall
    (gasStaticCallEIP2929 forks)).price .delegateCall warmStorageReadCostEIP2929).meter
    .delegateCall (gasDelegateCallEIP2929 forks)

def enable3860 (t : Table db) : Table db :=
  (t.meter .create (frame gasCreateEip3860)).meter .create2 (frame gasCreate2Eip3860)

def newBerlinInstructionSet : Table db :=
  enable2929 forks (newIstanbulInstructionSet local_ forks)

def newLondonInstructionSet : Table db :=
  newBerlinInstructionSet local_ forks

def newShanghaiInstructionSet : Table db :=
  enable3860 (newLondonInstructionSet local_ forks)

def newCancunInstructionSet : Table db :=
  newShanghaiInstructionSet local_ forks

def newPragueInstructionSet : Table db :=
  newCancunInstructionSet local_ forks

def enableEIP (eipNum : Nat) (t : Table db) : Table db :=
  if eipNum = 2929 then enable2929 forks t
  else if eipNum = 3860 then enable3860 t
  else t

def selected : Table db :=
  if forks.isPrague then newPragueInstructionSet local_ forks
  else if forks.isCancun then newCancunInstructionSet local_ forks
  else if forks.rules.isShanghai then newShanghaiInstructionSet local_ forks
  else if forks.rules.isLondon then newLondonInstructionSet local_ forks
  else if forks.rules.isBerlin then newBerlinInstructionSet local_ forks
  else if forks.rules.isIstanbul then newIstanbulInstructionSet local_ forks
  else if forks.isConstantinople then newConstantinopleInstructionSet local_ forks
  else if forks.isByzantium then newByzantiumInstructionSet local_ forks
  else if forks.rules.isSpuriousDragon then newSpuriousDragonInstructionSet local_ forks
  else if forks.isTangerineWhistle then newTangerineWhistleInstructionSet local_ forks
  else if forks.rules.isHomestead then newHomesteadInstructionSet local_ forks
  else newFrontierInstructionSet local_ forks

def newEVMInterpreter (extraEips : List Nat) : Table db :=
  extraEips.foldl (fun t eip => enableEIP forks eip t) (selected local_ forks)

end Sets

section Machine

def Opcode.ofByte : UInt8 → Option Opcode
  | 0x20 => some .keccak256
  | 0x37 => some .callDataCopy
  | 0x39 => some .codeCopy
  | 0x3c => some .extCodeCopy
  | 0x3e => some .returnDataCopy
  | 0x51 => some .mload
  | 0x52 => some .mstore
  | 0x53 => some .mstore8
  | 0xa0 => some (.log 0)
  | 0xa1 => some (.log 1)
  | 0xa2 => some (.log 2)
  | 0xa3 => some (.log 3)
  | 0xa4 => some (.log 4)
  | 0xf0 => some .create
  | 0xf1 => some .call
  | 0xf2 => some .callCode
  | 0xf3 => some .return_
  | 0xf4 => some .delegateCall
  | 0xf5 => some .create2
  | 0xfa => some .staticCall
  | 0xfd => some .revert
  | _ => none

variable {db : Backend}

def Entry.info (e : Entry db) : OperationInfo db where
  execute := e.execute
  constantGas := e.constantGas
  dynamicGas := some e.dynamicGas.1
  maxStack := 1024 + e.numPop - e.numPush
  numPop := e.numPop
  memorySize := some e.memorySize

def opUndefined : OperationInfo db where
  execute := .compute fun scope returnData => ⟨scope, [], .fail .errInvalidOpCode, returnData⟩
  constantGas := 0
  dynamicGas := none
  maxStack := 1024
  numPop := 0
  memorySize := none

/-- The opcodes that need no memory; none of them creates contracts. -/
structure OtherOpcodes (db : Backend) where
  operation : UInt8 → OperationInfo db
  metered : ∀ op g, (operation op).dynamicGas = some g → Meters g
  execute : ∀ op, (operation op).execute ≠ .opCreate ∧ (operation op).execute ≠ .opCreate2

def operationOf (t : Table db) (other : OtherOpcodes db) (op : UInt8) : OperationInfo db :=
  match Opcode.ofByte op with
  | none => other.operation op
  | some op => (t op).elim opUndefined Entry.info

theorem metered_operationOf (t : Table db) (other : OtherOpcodes db) (op : UInt8)
    (g : GasFunc db) (h : (operationOf t other op).dynamicGas = some g) : Meters g := by
  rw [operationOf] at h
  split at h
  · exact other.metered _ _ h
  · rename_i opcode _
    rcases hentry : t opcode with _ | e
    · rw [hentry] at h
      cases h
    · rw [hentry] at h
      cases h
      exact e.dynamicGas.2

def jumpTable (t : Table db) (other : OtherOpcodes db) : JumpTable db :=
  ⟨operationOf t other, metered_operationOf t other⟩

end Machine

section Contents

variable {db : Backend} {local_ : Opcode → Scope → Bytes → Computed} {forks : Forks}

def memorySizeOf : Opcode → List Uint256 → Option UInt64
  | .keccak256 => memoryKeccak256
  | .callDataCopy => memoryCallDataCopy
  | .codeCopy => memoryCodeCopy
  | .extCodeCopy => memoryExtCodeCopy
  | .returnDataCopy => memoryReturnDataCopy
  | .mload => memoryMLoad
  | .mstore => memoryMStore
  | .mstore8 => memoryMStore8
  | .log _ => memoryLog
  | .create => memoryCreate
  | .call => memoryCall
  | .callCode => memoryCall
  | .return_ => memoryReturn
  | .delegateCall => memoryDelegateCall
  | .create2 => memoryCreate2
  | .staticCall => memoryStaticCall
  | .revert => memoryRevert

def numPopOf : Opcode → Nat
  | .keccak256 | .mstore | .mstore8 | .return_ | .revert => 2
  | .callDataCopy | .codeCopy | .returnDataCopy | .create => 3
  | .extCodeCopy | .create2 => 4
  | .mload => 1
  | .log topics => topics + 2
  | .call | .callCode => 7
  | .delegateCall | .staticCall => 6

def executionOf (local_ : Opcode → Scope → Bytes → Computed) : Opcode → Execution
  | .extCodeCopy => .opExtCodeCopy
  | .log topics => .makeLog topics
  | .create => .opCreate
  | .call => .opCall
  | .callCode => .opCallCode
  | .delegateCall => .opDelegateCall
  | .create2 => .opCreate2
  | .staticCall => .opStaticCall
  | op => .compute (local_ op)

def callCalculator (forks : Forks) : Opcode → Option (GasFunc db)
  | .call => some (gasCall forks.rules forks.isTangerineWhistle)
  | .callCode => some (gasCallCode forks.isTangerineWhistle)
  | .delegateCall => some (gasDelegateCall forks.isTangerineWhistle)
  | .staticCall => some (gasStaticCall forks.isTangerineWhistle)
  | _ => none

inductive Priced (forks : Forks) : Opcode → GasFunc db → Prop
  | keccak256 : Priced forks .keccak256 (ofFrame gasKeccak256)
  | callDataCopy : Priced forks .callDataCopy (ofFrame gasCallDataCopy)
  | codeCopy : Priced forks .codeCopy (ofFrame gasCodeCopy)
  | extCodeCopy : Priced forks .extCodeCopy (ofFrame gasExtCodeCopy)
  | extCodeCopyEIP2929 : Priced forks .extCodeCopy gasExtCodeCopyEIP2929
  | returnDataCopy : Priced forks .returnDataCopy (ofFrame gasReturnDataCopy)
  | expansion (op : Opcode) (h : op ∈ [.mload, .mstore, .mstore8, .return_, .revert, .create]) :
      Priced forks op (ofFrame pureMemoryGascost)
  | log (topics : Fin 5) : Priced forks (.log topics) (ofFrame (makeGasLog (UInt64.ofNat topics)))
  | createEip3860 : Priced forks .create (ofFrame gasCreateEip3860)
  | create2 : Priced forks .create2 (ofFrame gasCreate2)
  | create2Eip3860 : Priced forks .create2 (ofFrame gasCreate2Eip3860)
  | call (op : Opcode) (g : GasFunc db) (h : callCalculator forks op = some g) : Priced forks op g
  | callEIP2929 (op : Opcode) (g : GasFunc db) (h : callCalculator forks op = some g) :
      Priced forks op (makeCallVariantGasCallEIP2929 g)

structure Fits (local_ : Opcode → Scope → Bytes → Computed) (forks : Forks) (op : Opcode)
    (e : Entry db) : Prop where
  execute : e.execute = executionOf local_ op
  numPop : e.numPop = numPopOf op
  memorySize : e.memorySize = memorySizeOf op
  dynamicGas : Priced forks op e.dynamicGas.1

def FitsAll (local_ : Opcode → Scope → Bytes → Computed) (forks : Forks) (t : Table db) : Prop :=
  ∀ op e, t op = some e → Fits local_ forks op e

variable {t : Table db}

theorem FitsAll.set (h : FitsAll local_ forks t) {op : Opcode} {e : Entry db}
    (he : Fits local_ forks op e) : FitsAll local_ forks (t.set op e) := by
  intro o e' ho
  rw [Table.set] at ho
  split at ho
  · rename_i heq
    cases ho
    exact heq ▸ he
  · exact h o e' ho

theorem FitsAll.price (h : FitsAll local_ forks t) (op : Opcode) (constantGas : UInt64) :
    FitsAll local_ forks (t.price op constantGas) := by
  intro o e' ho
  rw [Table.price, Table.adjust] at ho
  split at ho
  · obtain ⟨e, he, rfl⟩ := Option.map_eq_some_iff.mp ho
    exact ⟨(h o e he).1, (h o e he).2, (h o e he).3, (h o e he).4⟩
  · exact h o e' ho

theorem FitsAll.meter (h : FitsAll local_ forks t) {op : Opcode}
    {g : { g : GasFunc db // Meters g }} (hg : Priced forks op g.1) :
    FitsAll local_ forks (t.meter op g) := by
  intro o e' ho
  rw [Table.meter, Table.adjust] at ho
  split at ho
  · rename_i heq
    obtain ⟨e, he, rfl⟩ := Option.map_eq_some_iff.mp ho
    exact ⟨(h o e he).1, (h o e he).2, (h o e he).3, heq ▸ hg⟩
  · exact h o e' ho

theorem fitsAll_frontier : FitsAll local_ forks (newFrontierInstructionSet local_ forks : Table db) := by
  intro op e h
  cases op with
  | keccak256 => cases h; exact ⟨rfl, rfl, rfl, .keccak256⟩
  | callDataCopy => cases h; exact ⟨rfl, rfl, rfl, .callDataCopy⟩
  | codeCopy => cases h; exact ⟨rfl, rfl, rfl, .codeCopy⟩
  | extCodeCopy => cases h; exact ⟨rfl, rfl, rfl, .extCodeCopy⟩
  | mload => cases h; exact ⟨rfl, rfl, rfl, .expansion _ (by decide)⟩
  | mstore => cases h; exact ⟨rfl, rfl, rfl, .expansion _ (by decide)⟩
  | mstore8 => cases h; exact ⟨rfl, rfl, rfl, .expansion _ (by decide)⟩
  | log topics => cases h; exact ⟨rfl, rfl, rfl, .log topics⟩
  | create => cases h; exact ⟨rfl, rfl, rfl, .expansion _ (by decide)⟩
  | call => cases h; exact ⟨rfl, rfl, rfl, .call _ _ rfl⟩
  | callCode => cases h; exact ⟨rfl, rfl, rfl, .call _ _ rfl⟩
  | return_ => cases h; exact ⟨rfl, rfl, rfl, .expansion _ (by decide)⟩
  | returnDataCopy | delegateCall | create2 | staticCall | revert => cases h

theorem fitsAll_homestead :
    FitsAll local_ forks (newHomesteadInstructionSet local_ forks : Table db) :=
  fitsAll_frontier.set ⟨rfl, rfl, rfl, .call _ _ rfl⟩

theorem fitsAll_tangerineWhistle :
    FitsAll local_ forks (newTangerineWhistleInstructionSet local_ forks : Table db) :=
  (((fitsAll_homestead.price _ _).price _ _).price _ _).price _ _

theorem fitsAll_byzantium :
    FitsAll local_ forks (newByzantiumInstructionSet local_ forks : Table db) :=
  ((fitsAll_tangerineWhistle.set ⟨rfl, rfl, rfl, .call _ _ rfl⟩).set
    ⟨rfl, rfl, rfl, .returnDataCopy⟩).set ⟨rfl, rfl, rfl, .expansion _ (by decide)⟩

theorem fitsAll_constantinople :
    FitsAll local_ forks (newConstantinopleInstructionSet local_ forks : Table db) :=
  fitsAll_byzantium.set ⟨rfl, rfl, rfl, .create2⟩

theorem FitsAll.enable2929 (h : FitsAll local_ forks t) :
    FitsAll local_ forks (enable2929 forks t) :=
  (((((((((h.price _ _).meter .extCodeCopyEIP2929).price _ _).meter
    (.callEIP2929 _ _ rfl)).price _ _).meter (.callEIP2929 _ _ rfl)).price _ _).meter
    (.callEIP2929 _ _ rfl)).price _ _).meter (.callEIP2929 _ _ rfl)

theorem FitsAll.enable3860 (h : FitsAll local_ forks t) : FitsAll local_ forks (enable3860 t) :=
  (h.meter .createEip3860).meter .create2Eip3860

theorem fitsAll_berlin : FitsAll local_ forks (newBerlinInstructionSet local_ forks : Table db) :=
  fitsAll_constantinople.enable2929

theorem fitsAll_shanghai :
    FitsAll local_ forks (newShanghaiInstructionSet local_ forks : Table db) :=
  fitsAll_berlin.enable3860

theorem FitsAll.ite {p : Prop} [Decidable p] {t u : Table db} (ht : FitsAll local_ forks t)
    (hu : FitsAll local_ forks u) : FitsAll local_ forks (if p then t else u) := by
  split
  · exact ht
  · exact hu

theorem fitsAll_selected : FitsAll local_ forks (selected local_ forks : Table db) :=
  .ite fitsAll_shanghai <| .ite fitsAll_shanghai <| .ite fitsAll_shanghai <|
  .ite fitsAll_berlin <| .ite fitsAll_berlin <| .ite fitsAll_constantinople <|
  .ite fitsAll_constantinople <| .ite fitsAll_byzantium <| .ite fitsAll_tangerineWhistle <|
  .ite fitsAll_tangerineWhistle <| .ite fitsAll_homestead fitsAll_frontier

theorem FitsAll.enableEIP (h : FitsAll local_ forks t) (eip : Nat) :
    FitsAll local_ forks (enableEIP forks eip t) := by
  rw [InstructionSets.enableEIP]
  repeat' split
  · exact h.enable2929
  · exact h.enable3860
  · exact h

theorem fitsAll_newEVMInterpreter (extraEips : List Nat) :
    FitsAll local_ forks (newEVMInterpreter local_ forks extraEips : Table db) :=
  List.foldlRecOn extraEips _ fitsAll_selected fun _ h eip _ => h.enableEIP eip

end Contents

end N42.InstructionSets
