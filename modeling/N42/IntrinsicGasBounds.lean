import N42.TransactionExecution

/-!
The intrinsic gas of a transaction as a number without bound.  The two agree for data and
access lists that fit into the memory of a machine.
-/

namespace N42.IntrinsicGasBounds

open Transactions TransactionExecution

def dataCost (data : List UInt8) (isEIP2028 countsWords : Bool) : Nat :=
  (data.countP fun byte => byte ≠ 0) * (if isEIP2028 then 16 else 68) +
    (data.length - data.countP fun byte => byte ≠ 0) * 4 +
    (if countsWords then (data.length + 31) / 32 * 2 else 0)

def accessCost (accessList : List AccessTuple) : Nat :=
  accessList.length * 2400 + storageKeys accessList * 1900

def gasNeeded (data : List UInt8) (accessList : List AccessTuple)
    (isContractCreation isHomestead isEIP2028 isEIP3860 : Bool) : Nat :=
  (if isContractCreation && isHomestead then 53000 else 21000) +
    dataCost data isEIP2028 (isContractCreation && isEIP3860) + accessCost accessList

def Sized (data : List UInt8) (accessList : List AccessTuple) : Prop :=
  data.length < 2 ^ 48 ∧ accessList.length < 2 ^ 48 ∧ storageKeys accessList < 2 ^ 48

theorem charge_eq (price count gas : UInt64) (hprice : 0 < price.toNat)
    (h : gas.toNat + count.toNat * price.toNat < 2 ^ 64) :
    ∃ total, charge price count gas = .ok total ∧
      total.toNat = gas.toNat + count.toNat * price.toNat := by
  have hmax : maxUint64.toNat = 2 ^ 64 - 1 := rfl
  have hrest : (maxUint64 - gas).toNat = 2 ^ 64 - 1 - gas.toNat := by
    rw [UInt64.toNat_sub_of_le _ _ (UInt64.le_iff_toNat_le.mpr (by omega)), hmax]
  have henough : ¬ (maxUint64 - gas) / price < count := by
    rw [UInt64.not_lt, UInt64.le_iff_toNat_le, UInt64.toNat_div, hrest]
    exact (Nat.le_div_iff_mul_le hprice).mpr (by omega)
  refine ⟨gas + count * price, ?_, ?_⟩
  · rw [charge, if_neg henough]
  · rw [UInt64.toNat_add, UInt64.toNat_mul, Nat.mod_eq_of_lt (by omega : count.toNat * _ < 2 ^ 64),
      Nat.mod_eq_of_lt h]

theorem toNat_toWordSize {size : UInt64} (h : size.toNat < 2 ^ 48) :
    (toWordSize size).toNat = (size.toNat + 31) / 32 := by
  have hsmall : ¬ maxUint64 - 31 < size := by
    rw [UInt64.not_lt, UInt64.le_iff_toNat_le]
    have : (maxUint64 - 31).toNat = 2 ^ 64 - 32 := rfl
    omega
  rw [toWordSize, if_neg hsmall, UInt64.toNat_div, UInt64.toNat_add]
  change (size.toNat + 31) % 2 ^ 64 / 32 = _
  rw [Nat.mod_eq_of_lt (by omega)]

theorem toNat_ofNat_of_lt {n : Nat} (h : n < 2 ^ 48) : (UInt64.ofNat n).toNat = n := by
  rw [UInt64.toNat_ofNat', Nat.mod_eq_of_lt (by omega)]

variable {data : List UInt8}

theorem dataCost_lt (h : data.length < 2 ^ 48) (isEIP2028 countsWords : Bool) :
    dataCost data isEIP2028 countsWords < 2 ^ 56 := by
  have hcount : (data.countP fun byte => byte ≠ 0) ≤ data.length := List.countP_le_length
  rw [dataCost]
  split
  · split
    · omega
    · omega
  · split
    · omega
    · omega

theorem dataGas_of_sized (h : data.length < 2 ^ 48) {start : UInt64} (hstart : start.toNat ≤ 53000)
    (isContractCreation isEIP2028 isEIP3860 : Bool) :
    ∃ gas, dataGas data isContractCreation isEIP2028 isEIP3860 start = .ok gas ∧
      gas.toNat = start.toNat + dataCost data isEIP2028 (isContractCreation && isEIP3860) := by
  have hcount : (data.countP fun byte => byte ≠ 0) ≤ data.length := List.countP_le_length
  generalize hnz : (data.countP fun byte => byte ≠ 0) = nz at hcount
  have hnzNat : (UInt64.ofNat nz).toNat = nz := toNat_ofNat_of_lt (by omega)
  have hlengthNat := toNat_ofNat_of_lt h
  have hzeros : (UInt64.ofNat data.length - UInt64.ofNat nz).toNat = data.length - nz := by
    rw [UInt64.toNat_sub_of_le _ _ (UInt64.le_iff_toNat_le.mpr (by omega)), hlengthNat, hnzNat]
  have hprice : (if isEIP2028 then txDataNonZeroGasEIP2028 else txDataNonZeroGasFrontier).toNat =
      if isEIP2028 then 16 else 68 := by
    split
    · rfl
    · rfl
  have hbounds : 16 ≤ (if isEIP2028 then 16 else 68) ∧ (if isEIP2028 then 16 else 68) ≤ 68 := by
    split
    · omega
    · omega
  generalize hunit : (if isEIP2028 then 16 else 68 : Nat) = unit at hprice hbounds
  have hfour : txDataZeroGas.toNat = 4 := by decide
  have htwo : initCodeWordGas.toNat = 2 := by decide
  have hunits : nz * unit ≤ 2 ^ 48 * 68 := Nat.mul_le_mul (by omega) hbounds.2
  obtain ⟨first, hfirst, hfirstNat⟩ := charge_eq _ (UInt64.ofNat nz) start
    (by rw [hprice]; omega) (by rw [hprice, hnzNat]; omega)
  rw [hprice, hnzNat] at hfirstNat
  obtain ⟨second, hsecond, hsecondNat⟩ := charge_eq txDataZeroGas
    (UInt64.ofNat data.length - UInt64.ofNat nz) first (by decide)
    (by rw [hfirstNat, hzeros, hfour]; omega)
  rw [hfirstNat, hzeros, hfour] at hsecondNat
  have hwords := toNat_toWordSize (hlengthNat.symm ▸ h : (UInt64.ofNat data.length).toNat < 2 ^ 48)
  rw [hlengthNat] at hwords
  obtain ⟨third, hthird, hthirdNat⟩ := charge_eq initCodeWordGas
    (toWordSize (UInt64.ofNat data.length)) second (by decide)
    (by rw [hsecondNat, hwords, htwo]; omega)
  rw [hsecondNat, hwords, htwo] at hthirdNat
  rw [dataGas, hnz, dataCost, hnz, hunit]
  cases hflag : isContractCreation && isEIP3860 with
  | false =>
    refine ⟨second, FallibleRuns.bind_eq_ok_iff.mpr ⟨first, hfirst,
      FallibleRuns.bind_eq_ok_iff.mpr ⟨second, hsecond, ?_⟩⟩, ?_⟩
    · exact if_neg Bool.false_ne_true
    · rw [if_neg Bool.false_ne_true]
      omega
  | true =>
    refine ⟨third, FallibleRuns.bind_eq_ok_iff.mpr ⟨first, hfirst,
      FallibleRuns.bind_eq_ok_iff.mpr ⟨second, hsecond, ?_⟩⟩, ?_⟩
    · rw [if_pos rfl, hthird]
    · rw [if_pos rfl]
      omega

theorem intrinsicGas_of_sized {accessList : List AccessTuple} (h : Sized data accessList)
    (isContractCreation isHomestead isEIP2028 isEIP3860 : Bool) :
    ∃ gas, intrinsicGas data accessList isContractCreation isHomestead isEIP2028 isEIP3860 =
        .ok gas ∧ gas.toNat =
        gasNeeded data accessList isContractCreation isHomestead isEIP2028 isEIP3860 := by
  obtain ⟨hdata, haccesses, hkeys⟩ := h
  obtain ⟨start, hstart, hlow⟩ : ∃ start : UInt64,
      (if isContractCreation && isHomestead then txGasContractCreation else txGas) = start ∧
        start.toNat = if isContractCreation && isHomestead then 53000 else 21000 := by
    refine ⟨_, rfl, ?_⟩
    split
    · rfl
    · rfl
  have hbound : start.toNat ≤ 53000 := by
    rw [hlow]
    split
    · omega
    · omega
  obtain ⟨gas, hgas, htotal⟩ : ∃ gas, (if data.isEmpty then .ok start
      else dataGas data isContractCreation isEIP2028 isEIP3860 start) = .ok gas ∧
      gas.toNat = start.toNat + dataCost data isEIP2028 (isContractCreation && isEIP3860) := by
    cases data with
    | nil => exact ⟨start, rfl, by simp [dataCost]⟩
    | cons byte rest => exact dataGas_of_sized hdata hbound _ _ _
  have hlist := toNat_ofNat_of_lt haccesses
  have hslots := toNat_ofNat_of_lt hkeys
  have hperAddress : txAccessListAddressGas.toNat = 2400 := by decide
  have hperKey : txAccessListStorageKeyGas.toNat = 1900 := by decide
  refine ⟨gas + UInt64.ofNat accessList.length * txAccessListAddressGas +
    UInt64.ofNat (storageKeys accessList) * txAccessListStorageKeyGas, ?_, ?_⟩
  · rw [intrinsicGas, hstart]
    cases hempty : data.isEmpty with
    | true =>
      rw [hempty, if_pos rfl] at hgas
      exact FallibleRuns.bind_eq_ok_iff.mpr ⟨gas, hgas, rfl⟩
    | false =>
      rw [hempty, if_neg Bool.false_ne_true] at hgas
      exact FallibleRuns.bind_eq_ok_iff.mpr ⟨gas, hgas, rfl⟩
  · have hcost : dataCost data isEIP2028 (isContractCreation && isEIP3860) < 2 ^ 56 :=
      dataCost_lt hdata _ _
    rw [UInt64.toNat_add, UInt64.toNat_add, UInt64.toNat_mul, UInt64.toNat_mul, hlist, hslots,
      hperAddress, hperKey, htotal, gasNeeded, accessCost, ← hlow]
    omega

theorem gasNeeded_mono {accessList : List AccessTuple}
    {isContractCreation isHomestead isEIP2028 isEIP2028' isEIP3860 isEIP3860' : Bool}
    (h2028 : isEIP2028 = true → isEIP2028' = true)
    (h3860 : (isContractCreation && isEIP3860') = true → isEIP3860 = true) :
    gasNeeded data accessList isContractCreation isHomestead isEIP2028' isEIP3860' ≤
      gasNeeded data accessList isContractCreation true isEIP2028 isEIP3860 := by
  have hstart : (if isContractCreation && isHomestead then 53000 else 21000) ≤
      if isContractCreation && true then 53000 else 21000 := by
    cases isContractCreation with
    | false => exact Nat.le_refl _
    | true =>
      cases isHomestead with
      | false => decide
      | true => decide
  have hunit : (if isEIP2028' then 16 else 68) ≤ if isEIP2028 then 16 else 68 := by
    cases isEIP2028 with
    | true => rw [h2028 rfl]
    | false =>
      cases isEIP2028' with
      | true => decide
      | false => decide
  have hunits := Nat.mul_le_mul_left (data.countP fun byte => byte ≠ 0) hunit
  have hwords : (if isContractCreation && isEIP3860' then (data.length + 31) / 32 * 2 else 0) ≤
      if isContractCreation && isEIP3860 then (data.length + 31) / 32 * 2 else 0 := by
    cases hcounted : isContractCreation && isEIP3860' with
    | false => exact Nat.zero_le _
    | true =>
      have hcreation := (Bool.and_eq_true_iff.mp hcounted).1
      rw [h3860 hcounted, hcreation]
      exact Nat.le_refl _
  rw [gasNeeded, gasNeeded, dataCost, dataCost]
  omega

end N42.IntrinsicGasBounds
