import N42.FallibleRuns
import N42.InstructionSets

/-!
What it means that the checks before an opcode have passed: the size of its memory was worked
out, its gas function gave a cost, the cost was paid and the memory was expanded.
-/

namespace N42.OpcodeCharges

open ChainTypes StateObjects StatefulActions VirtualMachine Interpreter
open MemoryGas GasTable InstructionSets

variable {db : Backend} {info : OperationInfo db} {scope scope' : Scope} {m m' : Machine db}

theorem useGas_eq_some_iff {c c' : Contract} {gas : UInt64} :
    c.useGas gas = some c' ↔ gas ≤ c.gas ∧ c' = { c with gas := c.gas - gas } := by
  rw [Contract.useGas]
  split
  · rename_i hlt
    exact ⟨fun h => (by cases h), fun h => absurd (UInt64.lt_of_lt_of_le hlt h.1)
      (UInt64.lt_irrefl _)⟩
  · rename_i hle
    rw [Option.some_inj]
    exact ⟨fun h => ⟨UInt64.not_lt.mp hle, h.symm⟩, fun h => h.2.symm⟩

theorem toNat_of_useGas {c c' : Contract} {gas : UInt64} (h : c.useGas gas = some c') :
    c'.gas.toNat + gas.toNat = c.gas.toNat := by
  obtain ⟨hle, rfl⟩ := useGas_eq_some_iff.mp h
  have hnat := UInt64.le_iff_toNat_le.mp hle
  change (c.gas - gas).toNat + _ = _
  rw [UInt64.toNat_sub_of_le _ _ hle]
  omega

variable {need : List Uint256 → Option UInt64}

theorem wordMemory_spec {stack : List Uint256} {size : UInt64} (hneed : info.memorySize = some need)
    (h : wordMemory info stack = some size) :
    ∃ bytes, need stack = some bytes ∧ size.toNat = (bytes.toNat + 31) / 32 * 32 := by
  rw [wordMemory, hneed] at h
  obtain ⟨bytes, hbytes, h⟩ := Option.bind_eq_some_iff.mp h
  refine ⟨bytes, hbytes, ?_⟩
  split at h
  · rename_i hfits
    cases h
    rw [UInt64.toNat_mul]
    change (toWordSize bytes).toNat * 32 % 2 ^ 64 = _
    rw [Nat.mod_eq_of_lt hfits, toNat_toWordSize]
  · cases h

structure Passed (info : OperationInfo db) (g : GasFunc db)
    (need : List Uint256 → Option UInt64) (scope scope' : Scope) (m m' : Machine db)
    (bytes size cost : UInt64) (before between after : Contract) : Prop where
  numPop : info.numPop ≤ scope.stack.length
  constant : scope.contract.useGas info.constantGas = some before
  bytes_eq : need scope.stack = some bytes
  size_eq : size.toNat = (bytes.toNat + 31) / 32 * 32
  dynamic : g { scope with contract := before } size m = (.ok (.ok cost, between), m')
  paid : between.useGas cost = some after
  scope_eq : scope' = { scope with contract := after, memory := resize scope.memory size }

theorem passed_of_charge {g : GasFunc db} (hgas : info.dynamicGas = some g)
    (hneed : info.memorySize = some need) (h : charge info scope m = (.ok (.ok scope'), m')) :
    ∃ bytes size cost before between after,
      Passed info g need scope scope' m m' bytes size cost before between after := by
  rw [charge] at h
  split at h
  · cases h
  · rename_i hpop
    split at h
    · cases h
    · rcases hbefore : scope.contract.useGas info.constantGas with _ | before
      · rw [hbefore] at h
        cases h
      · rw [hbefore] at h
        dsimp only at h
        rw [payDynamic, hgas] at h
        dsimp only at h
        rcases hsize : wordMemory info scope.stack with _ | size
        · rw [hsize] at h
          cases h
        · rw [hsize] at h
          obtain ⟨⟨cost, between⟩, m₁, hcost, h⟩ := Action.bind_eq_ok_iff.mp h
          dsimp only at h
          rcases hafter : cost.toOption.bind between.useGas with _ | after
          · rw [hafter] at h
            cases h
          · rw [hafter] at h
            cases h
            obtain ⟨bytes, hbytes, hwords⟩ := wordMemory_spec hneed hsize
            rcases cost with e | cost
            · cases hafter
            · exact ⟨bytes, size, cost, before, between, after, Nat.not_lt.mp hpop, hbefore,
                hbytes, hwords, hcost, hafter, rfl⟩

section GasFunctions

variable {size cost base : UInt64} {forks : Forks} {op : Opcode} {g : GasFunc db}
  {contract : Contract}

theorem orOverflow_eq_ok_iff {α : Type} {x : Option α} {a : α} :
    orOverflow x = .ok a ↔ x = some a := by
  cases x with
  | none => exact ⟨fun h => (by cases h), fun h => (by cases h)⟩
  | some b =>
    constructor
    · intro h
      cases h
      rfl
    · intro h
      cases h
      rfl

theorem memoryGas_of_bind {α : Type} {f : UInt64 → Except VmError α} {a : α}
    (h : (memoryGas scope size >>= f) = .ok a) :
    ∃ fee, memoryGas scope size = .ok fee ∧ f fee = .ok a :=
  FallibleRuns.bind_eq_ok_iff.mp h

theorem callBase_spec {extra : UInt64} (h : callBase extra scope size = .ok base) :
    ∃ fee, memoryGas scope size = .ok fee ∧ base.toNat = extra.toNat + fee.toNat := by
  obtain ⟨fee, hfee, h⟩ := memoryGas_of_bind h
  exact ⟨fee, hfee, (safeAdd_eq_some_iff.mp (orOverflow_eq_ok_iff.mp h)).2⟩

theorem priceCall_spec {isEip150 : Bool} {extra : UInt64}
    (h : priceCall isEip150 extra scope size m = (.ok (.ok cost, contract), m')) :
    ∃ base temp, callBase extra scope size = .ok base ∧
      callGas isEip150 scope.contract.gas base (back scope.stack 0) = .ok temp ∧
      cost.toNat = base.toNat + temp.toNat ∧ contract = scope.contract ∧
      m' = { m with callGasTemp := temp } := by
  rw [priceCall] at h
  rcases hbase : callBase extra scope size with e | base
  · rw [hbase] at h
    cases h
  · rw [hbase] at h
    dsimp only at h
    rcases htemp : callGas isEip150 scope.contract.gas base (back scope.stack 0) with e | temp
    · rw [htemp] at h
      cases h
    · rw [htemp] at h
      obtain ⟨hresult, hstate⟩ := Prod.mk.inj h
      obtain ⟨hsum, hcontract⟩ := Prod.mk.inj (Except.ok.inj hresult)
      exact ⟨base, temp, rfl, htemp, (safeAdd_eq_some_iff.mp (orOverflow_eq_ok_iff.mp hsum)).2,
        hcontract.symm, hstate.symm⟩

theorem ofFrame_eq_ok {f : Scope → UInt64 → Except VmError UInt64}
    (h : ofFrame f scope size m = (.ok (.ok cost, contract), m')) :
    f scope size = .ok cost ∧ contract = scope.contract ∧ m' = m := by
  obtain ⟨hresult, hstate⟩ := Prod.mk.inj h
  obtain ⟨hcost, hcontract⟩ := Prod.mk.inj (Except.ok.inj hresult)
  exact ⟨hcost, hcontract.symm, hstate.symm⟩

def valueOf (op : Opcode) (scope : Scope) : Uint256 :=
  if op = .call ∨ op = .callCode then back scope.stack 2 else 0

theorem newAccountGas_spec {isSpuriousDragon transfersValue : Bool} {address : Address}
    {gas : UInt64}
    (h : newAccountGas isSpuriousDragon transfersValue address m = (.ok gas, m')) :
    gas = 0 ∨ gas = callNewAccountGas := by
  rw [newAccountGas] at h
  split at h
  · split at h
    · obtain ⟨found, _, -, hgas⟩ := Action.bind_eq_ok_iff.mp h
      cases found with
      | false =>
        cases hgas
        exact .inl rfl
      | true =>
        cases hgas
        exact .inr rfl
    · cases h
      exact .inl rfl
  · obtain ⟨found, _, -, hgas⟩ := Action.bind_eq_ok_iff.mp h
    cases found with
    | false =>
      cases hgas
      exact .inr rfl
    | true =>
      cases hgas
      exact .inl rfl

theorem valueGas_eq (scope : Scope) :
    (valueGas scope).toNat = if back scope.stack 2 ≠ 0 then 9000 else 0 := by
  rw [valueGas]
  split
  · rfl
  · rfl

/-- The gas functions for calls come to one: what is paid for a new account and for sending
value is bounded, and value is paid for. -/
theorem calculator_spec (hcall : callCalculator forks op = some g)
    (h : g scope size m = (.ok (.ok cost, contract), m')) :
    ∃ extra m₀, extra.toNat ≤ 34000 ∧ (valueOf op scope ≠ 0 → 9000 ≤ extra.toNat) ∧
      priceCall forks.isTangerineWhistle extra scope size m₀ = (.ok (.ok cost, contract), m') := by
  have hvalue := valueGas_eq scope
  cases op with
  | call =>
    cases hcall
    obtain ⟨gas, m₀, hgas, hprice⟩ := Action.bind_eq_ok_iff.mp h
    refine ⟨gas + valueGas scope, m₀, ?_, fun (hne : back scope.stack 2 ≠ 0) => ?_, hprice⟩
    · rw [UInt64.toNat_add, hvalue]
      rcases newAccountGas_spec hgas with rfl | rfl
      · split
        · decide
        · decide
      · split
        · decide
        · decide
    · rw [UInt64.toNat_add, hvalue, if_pos hne]
      rcases newAccountGas_spec hgas with rfl | rfl
      · decide
      · decide
  | callCode =>
    cases hcall
    refine ⟨valueGas scope, m, ?_, fun (hne : back scope.stack 2 ≠ 0) => ?_, h⟩
    · rw [hvalue]
      split
      · decide
      · decide
    · rw [hvalue, if_pos hne]
  | delegateCall =>
    cases hcall
    exact ⟨0, m, by decide, fun hne => absurd rfl hne, h⟩
  | staticCall =>
    cases hcall
    exact ⟨0, m, by decide, fun hne => absurd rfl hne, h⟩
  | _ => cases hcall

theorem variant_spec
    (h : makeCallVariantGasCallEIP2929 g scope size m = (.ok (.ok cost, contract), m')) :
    g scope size m = (.ok (.ok cost, contract), m') ∨
      ∃ cold cost₀ contract₀ m₀, scope.contract.useGas coldCost = some cold ∧
        g { scope with contract := cold } size m₀ = (.ok (.ok cost₀, contract₀), m') ∧
        cost = cost₀ + coldCost ∧
        contract = { contract₀ with gas := contract₀.gas + coldCost } := by
  rw [makeCallVariantGasCallEIP2929, Action.get_bind] at h
  split at h
  · exact .inl h
  · obtain ⟨⟨⟩, m₀, -, h⟩ := Action.bind_eq_ok_iff.mp h
    rcases hcold : scope.contract.useGas coldCost with _ | cold
    · rw [hcold] at h
      cases h
    · rw [hcold] at h
      obtain ⟨⟨gas, contract₀⟩, m₁, hold, h⟩ := Action.bind_eq_ok_iff.mp h
      cases gas with
      | error e => cases h
      | ok cost₀ =>
        obtain ⟨hresult, rfl⟩ := Prod.mk.inj h
        obtain ⟨hcost, hcontract⟩ := Prod.mk.inj (Except.ok.inj hresult)
        exact .inr ⟨cold, cost₀, contract₀, m₀, rfl, hold, (Except.ok.inj hcost).symm,
          hcontract.symm⟩

theorem memoryGas_of_calculator (hcall : callCalculator forks op = some g)
    (h : g scope size m = (.ok (.ok cost, contract), m')) :
    ∃ fee, memoryGas scope size = .ok fee := by
  obtain ⟨extra, m₀, -, -, hprice⟩ := calculator_spec hcall h
  obtain ⟨base, temp, hbase, -⟩ := priceCall_spec hprice
  obtain ⟨fee, hfee, -⟩ := callBase_spec hbase
  exact ⟨fee, hfee⟩

theorem memoryGas_of_priced (hpriced : Priced forks op g)
    (h : g scope size m = (.ok (.ok cost, contract), m')) :
    ∃ fee, memoryGas scope size = .ok fee := by
  have hwords : ∀ {stackpos : Nat} {price : UInt64},
      ofFrame (wordCost stackpos price) scope size m = (.ok (.ok cost, contract), m') →
      ∃ fee, memoryGas scope size = .ok fee := by
    intro stackpos price h
    obtain ⟨fee, hfee, -⟩ := memoryGas_of_bind (ofFrame_eq_ok h).1
    exact ⟨fee, hfee⟩
  cases hpriced with
  | keccak256 => exact hwords h
  | callDataCopy => exact hwords h
  | codeCopy => exact hwords h
  | extCodeCopy => exact hwords h
  | returnDataCopy => exact hwords h
  | create2 => exact hwords h
  | extCodeCopyEIP2929 =>
    rw [gasExtCodeCopyEIP2929] at h
    rcases hcopy : gasExtCodeCopy scope size with e | gas
    · rw [hcopy] at h
      cases h
    · obtain ⟨fee, hfee, -⟩ := memoryGas_of_bind hcopy
      exact ⟨fee, hfee⟩
  | expansion _ _ => exact ⟨cost, (ofFrame_eq_ok h).1⟩
  | log topics =>
    obtain ⟨_, -, hgas⟩ := FallibleRuns.bind_eq_ok_iff.mp (ofFrame_eq_ok h).1
    obtain ⟨fee, hfee, -⟩ := memoryGas_of_bind hgas
    exact ⟨fee, hfee⟩
  | createEip3860 =>
    obtain ⟨fee, hfee, -⟩ := memoryGas_of_bind (ofFrame_eq_ok h).1
    exact ⟨fee, hfee⟩
  | create2Eip3860 =>
    obtain ⟨fee, hfee, -⟩ := memoryGas_of_bind (ofFrame_eq_ok h).1
    exact ⟨fee, hfee⟩
  | call _ _ hcall => exact memoryGas_of_calculator hcall h
  | callEIP2929 _ _ hcall =>
    rcases variant_spec h with hwarm | ⟨cold, cost₀, contract₀, m₀, -, hcold, -⟩
    · exact memoryGas_of_calculator hcall hwarm
    · obtain ⟨fee, hfee⟩ := memoryGas_of_calculator hcall hcold
      exact ⟨fee, hfee⟩

end GasFunctions

theorem memoryGas_spec {size fee : UInt64} (hsized : Sized scope.memory)
    (hwords : 32 ∣ size.toNat) (h : memoryGas scope size = .ok fee) :
    Sized (resize scope.memory size) ∧ fee.toNat + feeOf (scope.memory.length / 32) =
        feeOf ((resize scope.memory size).length / 32) := by
  obtain ⟨⟨fee', mem⟩, hcost, hfee⟩ := FallibleRuns.exists_ok_of_map h
  cases hfee
  obtain ⟨hmax, hsum, -⟩ := memoryGasCost_spec hsized hwords hcost
  refine ⟨hsized.resize hwords hmax, ?_⟩
  rw [length_resize]
  exact hsum

theorem Passed.memory {g : GasFunc db} {bytes size cost : UInt64} {before between after : Contract}
    {forks : Forks} {op : Opcode}
    (h : Passed info g need scope scope' m m' bytes size cost before between after)
    (hpriced : Priced forks op g) (hsized : Sized scope.memory) :
    Sized scope'.memory ∧ scope.memory.length ≤ scope'.memory.length ∧
      bytes.toNat ≤ scope'.memory.length := by
  have hsize := h.size_eq
  obtain ⟨fee, hfee⟩ := memoryGas_of_priced hpriced h.dynamic
  obtain ⟨hsized', -⟩ := memoryGas_spec hsized (Dvd.intro_left _ hsize.symm) hfee
  rw [h.scope_eq]
  refine ⟨hsized', ?_⟩
  change scope.memory.length ≤ (resize scope.memory size).length ∧
    bytes.toNat ≤ (resize scope.memory size).length
  rw [length_resize]
  omega

end N42.OpcodeCharges
