import N42.MemoryAccesses

/-!
The gas of calls.  What a call costs is spread over a constant part, a part for a cold account
that is taken, given back and taken again, a part for the memory and the gas for the callee,
with a subtraction in between that is not checked.
-/

namespace N42.CallGas

open ChainTypes StateObjects StatefulActions VirtualMachine Interpreter
open MemoryGas GasTable InstructionSets OpcodeCharges MemoryAccesses

def calls : List Opcode :=
  [.call, .callCode, .delegateCall, .staticCall]

def share (gas : Nat) : Nat :=
  gas - gas / 64

section Pricing

variable {db : Backend} {forks : Forks} {op : Opcode} {g : GasFunc db} {scope scope' : Scope}
  {size cost base temp availableGas : UInt64} {callCost : Uint256} {m m' : Machine db}
  {contract : Contract}

theorem toNat_share (gas : UInt64) : (gas - gas / 64).toNat = share gas.toNat := by
  have hquotient : (gas / 64).toNat = gas.toNat / 64 := UInt64.toNat_div gas 64
  have hle : gas / 64 ≤ gas := by
    rw [UInt64.le_iff_toNat_le, hquotient]
    exact Nat.div_le_self _ _
  rw [UInt64.toNat_sub_of_le _ _ hle, hquotient, share]

theorem toNat_coldCost : coldCost.toNat = 2500 :=
  rfl

theorem callGas_le_share (h : callGas true availableGas base callCost = .ok temp) :
    temp.toNat ≤ share (availableGas - base).toNat := by
  rw [← toNat_share]
  rw [callGas] at h
  split at h
  · cases h
    exact Nat.le_refl _
  · rename_i hsmall
    have hsmall' := not_or.mp (not_and.mp hsmall rfl)
    have htemp : callCost.toNat = temp.toNat := uint64_eq_some_iff.mp (orOverflow_eq_ok_iff.mp h)
    have hle := UInt64.le_iff_toNat_le.mp (UInt64.not_lt.mp hsmall'.2)
    rw [htemp, UInt64.ofNat_toNat] at hle
    exact hle

theorem toNat_callGas (h : callGas false availableGas base callCost = .ok temp) :
    temp.toNat = callCost.toNat := by
  rw [callGas, if_neg (fun hand => absurd hand.1 Bool.false_ne_true)] at h
  exact (uint64_eq_some_iff.mp (orOverflow_eq_ok_iff.mp h)).symm

/-- What a gas function for calls asks for: a part for a new account and for sending value, a
part for the memory, and the gas that it has set aside. -/
structure Quote (forks : Forks) (op : Opcode) (scope : Scope) (size cost : UInt64)
    (m' : Machine db) (extra fee : Nat) (base : UInt64) : Prop where
  extra_le : extra ≤ 34000
  value : valueOf op scope ≠ 0 → 9000 ≤ extra
  memory : fee + feeOf (scope.memory.length / 32) = feeOf ((resize scope.memory size).length / 32)
  fee_lt : fee < 2 ^ 56
  base_eq : base.toNat = extra + fee
  aside : callGas forks.isTangerineWhistle scope.contract.gas base (back scope.stack 0) =
    .ok m'.callGasTemp
  cost_eq : cost.toNat = extra + fee + m'.callGasTemp.toNat

theorem quote_of_calculator (hcall : callCalculator forks op = some g)
    (hsized : Sized scope.memory) (hwords : 32 ∣ size.toNat)
    (h : g scope size m = (.ok (.ok cost, contract), m')) :
    contract = scope.contract ∧
      ∃ extra fee base, Quote forks op scope size cost m' extra fee base := by
  obtain ⟨extra, m₀, hextra, hvalue, hprice⟩ := calculator_spec hcall h
  obtain ⟨base, temp, hbase, htemp, hcost, hcontract, hstate⟩ := priceCall_spec hprice
  obtain ⟨fee, hfee, hsum⟩ := callBase_spec hbase
  obtain ⟨hsized', hmemory⟩ := memoryGas_spec hsized hwords hfee
  have hbounded := hsized'.bounded
  rw [toNat_maxMemSize] at hbounded
  have hlt : feeOf ((resize scope.memory size).length / 32) < 2 ^ 56 :=
    feeOf_lt (Nat.div_le_of_le_mul (by omega))
  subst hstate
  rw [hsum] at hcost
  exact ⟨hcontract, extra.toNat, fee.toNat, base, hextra, hvalue, hmemory, by omega, hsum, htemp,
    hcost⟩

variable {extra fee : Nat}

section

variable (h : Quote forks op scope size cost m' extra fee base)
include h

/-- Under the rule of the 64th part a quote is far from the end of the numbers, even if the
subtraction inside it has wrapped around. -/
theorem Quote.cost_lt (heip : forks.isTangerineWhistle = true) : cost.toNat + 2500 < 2 ^ 64 := by
  have hextra := h.extra_le
  have hfee := h.fee_lt
  have haside := h.aside
  rw [heip] at haside
  have hshare := callGas_le_share haside
  have hgas := (scope.contract.gas - base).toNat_lt
  have hcost := h.cost_eq
  rw [share] at hshare
  omega

theorem Quote.le_share (heip : forks.isTangerineWhistle = true)
    (hpaid : cost.toNat ≤ scope.contract.gas.toNat) :
    m'.callGasTemp.toNat ≤ share (scope.contract.gas.toNat - (extra + fee)) := by
  have hbase := h.base_eq
  have hcost := h.cost_eq
  have haside := h.aside
  rw [heip] at haside
  have hshare := callGas_le_share haside
  have hle : base ≤ scope.contract.gas := by
    rw [UInt64.le_iff_toNat_le]
    omega
  rw [UInt64.toNat_sub_of_le _ _ hle, hbase] at hshare
  exact hshare

theorem Quote.requested (heip : forks.isTangerineWhistle = false) :
    m'.callGasTemp.toNat = (back scope.stack 0).toNat := by
  have haside := h.aside
  rw [heip] at haside
  exact toNat_callGas haside

end

end Pricing

section Bills

variable {db : Backend} {local_ : Opcode → Scope → Bytes → Computed} {forks : Forks}
  {extraEips : List Nat} {op : Opcode} {e : Entry db} {scope scope' : Scope} {m m' : Machine db}

/-- What a call has paid, in numbers: the constant part, a part for a cold account, a part for
a new account and for sending value, a part for the memory, and the gas that is set aside. -/
structure Bill (info : OperationInfo db) (op : Opcode) (scope scope' : Scope) (m' : Machine db)
    (cold extra fee : Nat) : Prop where
  cold_eq : cold = 0 ∨ cold = 2500
  extra_le : extra ≤ 34000
  value : valueOf op scope ≠ 0 → 9000 ≤ extra
  memory : fee + feeOf (scope.memory.length / 32) = feeOf (scope'.memory.length / 32)
  total : scope'.contract.gas.toNat + m'.callGasTemp.toNat +
    (info.constantGas.toNat + cold + extra + fee) = scope.contract.gas.toNat

structure Sharing (forks : Forks) (scope : Scope) (m' : Machine db) (charges : Nat) : Prop where
  share : forks.isTangerineWhistle = true →
    m'.callGasTemp.toNat ≤ share (scope.contract.gas.toNat - charges)
  requested : forks.isTangerineWhistle = false → m'.callGasTemp.toNat = (back scope.stack 0).toNat

variable {bytes size cost : UInt64} {before between after : Contract} {g : GasFunc db}
  {need : List Uint256 → Option UInt64} {info : OperationInfo db}

theorem bill_of_calculator
    (h : Passed info g need scope scope' m m' bytes size cost before between after)
    (hcall : callCalculator forks op = some g) (hsized : Sized scope.memory) :
    ∃ extra fee, Bill info op scope scope' m' 0 extra fee ∧
      Sharing forks scope m' (info.constantGas.toNat + 0 + extra + fee) := by
  obtain ⟨hcontract, extra, fee, base, hquote⟩ := quote_of_calculator hcall
    (show Sized ({ scope with contract := before } : Scope).memory from hsized)
    (Dvd.intro_left _ h.size_eq.symm) h.dynamic
  have hcontract' : between = before := hcontract
  have hconstant := toNat_of_useGas h.constant
  have hpaid := toNat_of_useGas h.paid
  have hcost := hquote.cost_eq
  rw [hcontract'] at hpaid
  rw [h.scope_eq]
  refine ⟨extra, fee, ⟨.inl rfl, hquote.extra_le, hquote.value, hquote.memory, ?_⟩, ?_, ?_⟩
  · change after.gas.toNat + _ + _ = _
    omega
  · intro heip
    have hshare := hquote.le_share heip (show cost.toNat ≤ before.gas.toNat from by omega)
    have hgas : before.gas.toNat - (extra + fee) =
        scope.contract.gas.toNat - (info.constantGas.toNat + 0 + extra + fee) := by
      omega
    rw [← hgas]
    exact hshare
  · intro heip
    exact hquote.requested heip

theorem bill_of_variant (hcall : callCalculator forks op = some g)
    (h : Passed info (makeCallVariantGasCallEIP2929 g) need scope scope' m m' bytes size cost
      before between after)
    (heip : forks.isTangerineWhistle = true) (hsized : Sized scope.memory) :
    ∃ cold extra fee, Bill info op scope scope' m' cold extra fee ∧
      Sharing forks scope m' (info.constantGas.toNat + cold + extra + fee) := by
  rcases variant_spec h.dynamic with hwarm | ⟨cold, cost₀, contract₀, m₀, hcold, hold, rfl, rfl⟩
  · obtain ⟨extra, fee, hbill⟩ := bill_of_calculator
      ⟨h.numPop, h.constant, h.bytes_eq, h.size_eq, hwarm, h.paid, h.scope_eq⟩ hcall hsized
    exact ⟨0, extra, fee, hbill⟩
  · obtain ⟨hcontract, extra, fee, base, hquote⟩ := quote_of_calculator hcall
      (show Sized ({ scope with contract := cold } : Scope).memory from hsized)
      (Dvd.intro_left _ h.size_eq.symm) hold
    have hcontract' : contract₀ = cold := hcontract
    subst hcontract'
    have hconstant := toNat_of_useGas h.constant
    have hgone := toNat_of_useGas hcold
    dsimp only at hgone
    rw [toNat_coldCost] at hgone
    have hlt := before.gas.toNat_lt
    -- The part for the cold account comes back, and neither sum wraps around.
    have hback : (contract₀.gas + coldCost).toNat = contract₀.gas.toNat + 2500 := by
      rw [UInt64.toNat_add, toNat_coldCost]
      exact Nat.mod_eq_of_lt (by omega)
    have hasked : (cost₀ + coldCost).toNat = cost₀.toNat + 2500 := by
      rw [UInt64.toNat_add, toNat_coldCost]
      exact Nat.mod_eq_of_lt (hquote.cost_lt heip)
    have hpaid := toNat_of_useGas h.paid
    dsimp only at hpaid
    rw [hback, hasked] at hpaid
    have hcost := hquote.cost_eq
    rw [h.scope_eq]
    refine ⟨2500, extra, fee,
      ⟨.inr rfl, hquote.extra_le, hquote.value, hquote.memory, ?_⟩, fun _ => ?_, ?_⟩
    · change after.gas.toNat + _ + _ = _
      omega
    · have hshare := hquote.le_share heip (show cost₀.toNat ≤ contract₀.gas.toNat from by omega)
      have hgas : contract₀.gas.toNat - (extra + fee) =
          scope.contract.gas.toNat - (info.constantGas.toNat + 2500 + extra + fee) := by
        omega
      rw [← hgas]
      exact hshare
    · intro hneg
      rw [heip] at hneg
      cases hneg

variable (op scope m) in
def handed : UInt64 :=
  if valueOf op scope ≠ 0 then m.callGasTemp + callStipend else m.callGasTemp

variable (op scope) in
def stipend : Nat :=
  if valueOf op scope ≠ 0 then 2300 else 0

theorem Bill.handed {cold extra fee : Nat} (h : Bill info op scope scope' m' cold extra fee)
    (hstack : scope'.stack = scope.stack) :
    (handed op scope' m').toNat = m'.callGasTemp.toNat + stipend op scope ∧
      scope'.contract.gas.toNat + (CallGas.handed op scope' m').toNat < 2 ^ 64 := by
  have hvalue : valueOf op scope' = valueOf op scope := by
    rw [valueOf, valueOf, hstack]
  have htotal := h.total
  have hlt := scope.contract.gas.toNat_lt
  rw [CallGas.handed, stipend, hvalue]
  rcases eq_or_ne (valueOf op scope) 0 with hzero | hne
  · rw [if_neg (not_not_intro hzero), if_neg (not_not_intro hzero)]
    omega
  · have hpaid := h.value hne
    rw [if_pos hne, if_pos hne, UInt64.toNat_add]
    have hstipend : callStipend.toNat = 2300 := rfl
    rw [hstipend, Nat.mod_eq_of_lt (by omega)]
    omega

variable (env : Environment db) (run : Contract → Bytes → Bool → Evm db RunResult)

/-- An opcode calls another contract with some gas, or does not come to that. -/
def HandsOver (scope : Scope) (m : Machine db) (gas : UInt64) (x : Evm db Executed) : Prop :=
  (∃ typ addr input value rest retOffset retSize,
    x m = (call env run typ (.contract scope.contract) addr input gas value false >>=
      finishCall scope rest retOffset retSize) m) ∨
    x m = (.ok ⟨scope, [], .fail .errWriteProtection⟩, m)

theorem exists_pop {n : Nat} {stack : List Uint256} (h : n + 1 ≤ stack.length) :
    ∃ x rest, stack = x :: rest ∧ n ≤ rest.length := by
  cases stack with
  | nil => cases h
  | cons x rest => exact ⟨x, rest, rfl, Nat.le_of_succ_le_succ h⟩

theorem handsOver_without_value {typ : CallType} (hlength : 6 ≤ scope.stack.length) :
    HandsOver env run scope m m.callGasTemp (callWithoutValue env run typ scope) := by
  rcases scope with ⟨pc, stack, memory, contract⟩
  obtain ⟨_, stack₁, rfl, h₁⟩ := exists_pop hlength
  obtain ⟨addr, stack₂, rfl, h₂⟩ := exists_pop h₁
  obtain ⟨inOffset, stack₃, rfl, h₃⟩ := exists_pop h₂
  obtain ⟨inSize, stack₄, rfl, h₄⟩ := exists_pop h₃
  obtain ⟨retOffset, stack₅, rfl, h₅⟩ := exists_pop h₄
  obtain ⟨retSize, rest, rfl, -⟩ := exists_pop h₅
  exact .inl ⟨typ, _, _, 0, rest, retOffset, retSize, rfl⟩

theorem exists_pop_seven {stack : List Uint256} (h : 7 ≤ stack.length) :
    ∃ temp addr value inOffset inSize retOffset retSize rest,
      stack = temp :: addr :: value :: inOffset :: inSize :: retOffset :: retSize :: rest := by
  obtain ⟨temp, stack₁, rfl, h₁⟩ := exists_pop h
  obtain ⟨addr, stack₂, rfl, h₂⟩ := exists_pop h₁
  obtain ⟨value, stack₃, rfl, h₃⟩ := exists_pop h₂
  obtain ⟨inOffset, stack₄, rfl, h₄⟩ := exists_pop h₃
  obtain ⟨inSize, stack₅, rfl, h₅⟩ := exists_pop h₄
  obtain ⟨retOffset, stack₆, rfl, h₆⟩ := exists_pop h₅
  obtain ⟨retSize, rest, rfl, -⟩ := exists_pop h₆
  exact ⟨_, _, _, _, _, _, _, _, rfl⟩

theorem handsOver_of_call (hop : op ∈ calls) (hlength : numPopOf op ≤ scope.stack.length) :
    HandsOver env run scope m (CallGas.handed op scope m)
      (execute env run scope (executionOf local_ op)) := by
  cases op with
  | call =>
    rcases scope with ⟨pc, stack, memory, contract⟩
    obtain ⟨_, addr, value, inOffset, inSize, retOffset, retSize, rest, rfl⟩ :=
      exists_pop_seven hlength
    rcases Decidable.em (value ≠ 0 ∧ m.readOnly) with hstatic | hfree
    · refine .inr ?_
      rw [executionOf, execute, opCall]
      dsimp only
      rw [Action.get_bind, if_pos hstatic]
      rfl
    · refine .inl ⟨.call, toAddress addr, getPtr memory inOffset inSize, value, rest, retOffset,
        retSize, ?_⟩
      rw [executionOf, execute, opCall]
      dsimp only
      rw [Action.get_bind, if_neg hfree]
      rfl
  | callCode =>
    rcases scope with ⟨pc, stack, memory, contract⟩
    obtain ⟨_, addr, value, inOffset, inSize, retOffset, retSize, rest, rfl⟩ :=
      exists_pop_seven hlength
    exact .inl ⟨.callCode, _, _, value, rest, retOffset, retSize, rfl⟩
  | delegateCall => exact handsOver_without_value env run hlength
  | staticCall => exact handsOver_without_value env run hlength
  | _ => simp [calls] at hop

theorem callCalculator_of_priced (hop : op ∈ calls) (h : Priced forks op g) :
    callCalculator forks op = some g ∨
      ∃ g₀, callCalculator forks op = some g₀ ∧ g = makeCallVariantGasCallEIP2929 g₀ := by
  cases h with
  | call _ _ hcall => exact .inl hcall
  | callEIP2929 _ g₀ hcall => exact .inr ⟨g₀, hcall, rfl⟩
  | expansion _ hmem =>
    have hdisjoint : ∀ op' ∈ calls,
        op' ∉ [Opcode.mload, .mstore, .mstore8, .return_, .revert, .create] := by
      decide
    exact absurd hmem (hdisjoint op hop)
  | _ => simp [calls] at hop

theorem bill_of_passed (hop : op ∈ calls) (hpriced : Priced forks op g)
    (hforks : forks.isTangerineWhistle = true ∨ callCalculator forks op = some g)
    (hsized : Sized scope.memory)
    (h : Passed info g need scope scope' m m' bytes size cost before between after) :
    ∃ cold extra fee, Bill info op scope scope' m' cold extra fee ∧
      Sharing forks scope m' (info.constantGas.toNat + cold + extra + fee) := by
  have hold : callCalculator forks op = some g → ∃ cold extra fee,
      Bill info op scope scope' m' cold extra fee ∧
        Sharing forks scope m' (info.constantGas.toNat + cold + extra + fee) := by
    intro hcall
    obtain ⟨extra, fee, hbill⟩ := bill_of_calculator h hcall hsized
    exact ⟨0, extra, fee, hbill⟩
  rcases hforks with heip | hcall
  · rcases callCalculator_of_priced hop hpriced with hcall | ⟨g₀, hcall, rfl⟩
    · exact hold hcall
    · exact bill_of_variant hcall h heip hsized
  · exact hold hcall

/-- Whatever the stack, the memory of the frame, the gas and the fork, where gas functions for
access lists come with the rule of the 64th part: when the checks before a call have passed,
every part of the cost is a number that fits, the gas that is set aside is at most the share of
what the other parts leave (what was asked for, before there was that rule), the callee gets
that and the stipend, and the gas of both is at most the gas before and the stipend. -/
theorem call_gas_shared (he : newEVMInterpreter local_ forks extraEips op = some e)
    (hop : op ∈ calls)
    (hforks : forks.isTangerineWhistle = true ∨ callCalculator forks op = some e.dynamicGas.1)
    (hmemory : FrameMemory (newEVMInterpreter local_ forks extraEips : Table db) scope.memory)
    (hcharge : charge e.info scope m = (.ok (.ok scope'), m')) :
    (∃ cold extra fee, Bill e.info op scope scope' m' cold extra fee ∧
      Sharing forks scope m' (e.constantGas.toNat + cold + extra + fee)) ∧ (∀ env run,
        HandsOver env run scope' m' (handed op scope' m') (execute env run scope' e.execute)) ∧
      (handed op scope' m').toNat = m'.callGasTemp.toNat + stipend op scope ∧
      scope'.contract.gas.toNat + (handed op scope' m').toNat ≤
        scope.contract.gas.toNat + stipend op scope ∧
      scope'.contract.gas.toNat + (handed op scope' m').toNat < 2 ^ 64 := by
  have hfits := fitsAll_newEVMInterpreter extraEips op e he
  obtain ⟨bytes, size, cost, before, between, after, hpassed⟩ :=
    passed_of_charge (show e.info.dynamicGas = some e.dynamicGas.1 from rfl)
      (show e.info.memorySize = some e.memorySize from rfl) hcharge
  have hstack : scope'.stack = scope.stack := by
    rw [hpassed.scope_eq]
  obtain ⟨cold, extra, fee, hbill, hsharing⟩ :=
    bill_of_passed hop hfits.dynamicGas hforks hmemory.sized hpassed
  obtain ⟨hhanded, hlt⟩ := hbill.handed hstack
  have htotal := hbill.total
  refine ⟨⟨cold, extra, fee, hbill, hsharing⟩, fun env run => ?_, hhanded, by omega, hlt⟩
  rw [hfits.execute]
  refine handsOver_of_call env run hop ?_
  rw [hstack, ← hfits.numPop]
  exact hpassed.numPop

end Bills

section Toys

open RevisionSafety (toyBackend)

def toyFrame (arguments : List Uint256) (gas : UInt64) : Scope :=
  ⟨0, arguments, [], ⟨default, default, [], default, [], gas, 0⟩⟩

def toyCall : Entry toyBackend :=
  ⟨.opCall, 100, gasCallEIP2929 shanghaiForks, 7, 1, memoryCall⟩

def toyCharge : Except Halted (Except VmError Scope) × Machine toyBackend :=
  charge toyCall.info (toyFrame [1000000, 7, 1, 0, 0, 0, 0] 43000) toyMachine

/-- A call of an account that does not exist, with value.  Of 43000 units 36600 are for the
call itself, and 100 of the other 6400 stay. -/
theorem call_gas_shared_value :
    toyCharge.1 = .ok (.ok (toyFrame [1000000, 7, 1, 0, 0, 0, 0] 100)) ∧
      toyCharge.2.callGasTemp = 6300 ∧
      (handed .call (toyFrame [1000000, 7, 1, 0, 0, 0, 0] 100) toyCharge.2).toNat = 8600 := by
  have hcharge : toyCharge = (.ok (.ok (toyFrame [1000000, 7, 1, 0, 0, 0, 0] 100)), toyCharge.2) :=
    rfl
  have htemp : toyCharge.2.callGasTemp = 6300 := by
    decide +kernel
  obtain ⟨-, -, hhanded, -⟩ := @call_gas_shared toyBackend toyLocal shanghaiForks [] .call toyCall
    _ _ _ _ rfl (by decide) (.inl rfl) .start hcharge
  rw [htemp] at hhanded
  exact ⟨rfl, htemp, hhanded⟩

def toyForks (isBerlin : Bool) : Forks where
  rules := ⟨true, false, false, isBerlin, false, false, false, false⟩
  isTangerineWhistle := false
  isByzantium := false
  isConstantinople := false
  isCancun := false
  isPrague := false

def toyOldCall : Entry toyBackend :=
  ⟨.opCall, 40, ⟨_, meters_gasCall (toyForks false).rules false⟩, 7, 1, memoryCall⟩

def toyDelegateCall : Entry toyBackend :=
  ⟨.opDelegateCall, 100, gasDelegateCallEIP2929 (toyForks true), 6, 1, memoryDelegateCall⟩

def toyOldCharge : Except Halted (Except VmError Scope) × Machine toyBackend :=
  charge toyOldCall.info (toyFrame [1000, 7, 0, 0, 0, 0, 0] 26040) toyMachine

def toyWrappedCharge : Except Halted (Except VmError Scope) × Machine toyBackend :=
  charge toyDelegateCall.info (toyFrame [18446744073709551615, 7, 0, 0, 0, 0] 2600) toyMachine

/-- Without the rule of the 64th part a callee gets all that there is; with access lists but
without that rule, the sum with the part for a cold account wraps around, and a frame with
2600 units hands on more than any frame can have. -/
theorem call_gas_unshared :
    (newEVMInterpreter toyLocal (toyForks false) [] .call = some toyOldCall ∧
      toyOldCharge.1 = .ok (.ok (toyFrame [1000, 7, 0, 0, 0, 0, 0] 0)) ∧
      toyOldCharge.2.callGasTemp = 1000 ∧ share (26040 - (40 + 25000)) < 1000) ∧
    (newEVMInterpreter toyLocal (toyForks true) [] .delegateCall = some toyDelegateCall ∧
      toyWrappedCharge.1 = .ok (.ok (toyFrame [18446744073709551615, 7, 0, 0, 0, 0] 1)) ∧
      toyWrappedCharge.2.callGasTemp.toNat = 2 ^ 64 - 1) := by
  exact ⟨⟨rfl, rfl, by decide +kernel, by decide +kernel⟩, rfl, rfl, by decide +kernel⟩

end Toys

end N42.CallGas
