import N42.RevertedWrites

/-!
What the state root of a header commits to.  The bytes that are hashed determine the data of
the accounts that have changed, in the order of their addresses, but neither the addresses
nor the storage.
-/

namespace N42.RootCommitment

open ByteStrings RlpEncoding ChainTypes
open Transactions (uintItem)
open HeaderSealing FiniteTables StateObjects IntraBlock StateOperations
open StateFinalization CommittedWrites
open RevisionSafety (toyBackend)
open RevertedWrites (toyRules)

def recordStrings (data : StateAccount) : List (List UInt8) :=
  [bigEndian data.incarnation.toNat, bigEndian data.balance.toNat, bigEndian data.nonce.toNat,
    bigEndian data.initialised.toNat, data.codeHash.bytes, data.root.bytes]

theorem recordItem_eq (data : StateAccount) :
    recordItem data = .list ((recordStrings data).map .bytes) :=
  rfl

theorem recordStrings_inj {x y : StateAccount} (h : recordStrings x = recordStrings y) : x = y := by
  obtain ⟨initialised, nonce, balance, root, codeHash, incarnation⟩ := x
  obtain ⟨initialised', nonce', balance', root', codeHash', incarnation'⟩ := y
  simp only [recordStrings, List.cons.injEq, and_true] at h
  obtain ⟨hinc, hbalance, hnonce, hinit, hcode, hroot⟩ := h
  obtain rfl : incarnation = incarnation' := UInt16.toNat_inj.mp (bigEndian_injective hinc)
  obtain rfl : balance = balance' := BitVec.eq_of_toNat_eq (bigEndian_injective hbalance)
  obtain rfl : nonce = nonce' := UInt64.toNat_inj.mp (bigEndian_injective hnonce)
  obtain rfl : initialised = initialised' := by
    have hnat := bigEndian_injective hinit
    revert hnat
    cases initialised <;> cases initialised' <;> decide
  obtain rfl : codeHash = codeHash' := FixedBytes.ext hcode
  obtain rfl : root = root' := FixedBytes.ext hroot
  rfl

theorem recordStrings_length (data : StateAccount) :
    ∀ value ∈ recordStrings data, value.length ≤ 32 := by
  have hinc : (bigEndian data.incarnation.toNat).length ≤ 32 := by
    rw [bigEndian_length_le_iff]
    exact Nat.lt_of_lt_of_le data.incarnation.toNat_lt (by decide)
  have hbalance := bigEndian_uint256_length data.balance
  have hnonce := bigEndian_uint64_length data.nonce
  have hinit : (bigEndian data.initialised.toNat).length ≤ 32 := by
    rw [bigEndian_length_le_iff]
    exact Nat.lt_of_le_of_lt (Bool.toNat_le data.initialised) (by decide)
  simp only [recordStrings, List.mem_cons, List.not_mem_nil, or_false, forall_eq_or_imp,
    forall_eq, FixedBytes.length_eq]
  omega

theorem recordItem_size (data : StateAccount) : (encode (recordItem data)).length < 2 ^ 64 := by
  have hshort := recordStrings_length data
  have hsum : ((recordStrings data).map fun value => value.length + 9).sum ≤ 6 * 41 := by
    refine List.sum_le_card_nsmul _ 41 fun size hsize => ?_
    obtain ⟨value, hvalue, rfl⟩ := List.mem_map.mp hsize
    have := hshort value hvalue
    omega
  have hpayload := encodeAll_strings_length_le (recordStrings data)
    fun value hvalue => Nat.lt_of_le_of_lt (hshort value hvalue) (by decide)
  have hhead : (encodeListHeader (encodeAll ((recordStrings data).map .bytes)).length).length
      ≤ 9 := by
    unfold encodeListHeader putHead
    split
    · simp
    · rename_i hlarge
      have := (bigEndian_size_bounds hlarge (by omega)).2
      rw [List.length_cons]
      omega
  rw [recordItem_eq, encode, List.length_append]
  omega

theorem encode_recordItem_append_inj {x y : StateAccount} {r t : List UInt8}
    (h : encode (recordItem x) ++ r = encode (recordItem y) ++ t) : x = y ∧ r = t := by
  obtain ⟨hitem, hrest⟩ := encode_append_inj _ _ (recordItem_size x) (recordItem_size y) h
  rw [recordItem_eq, recordItem_eq] at hitem
  have hstrings : recordStrings x = recordStrings y :=
    List.map_injective_iff.mpr (fun _ _ h => Item.bytes.inj h) (Item.list.inj hitem)
  exact ⟨recordStrings_inj hstrings, hrest⟩

theorem rootBytes_inj {xs ys : List StateAccount} (h : rootBytes xs = rootBytes ys) : xs = ys := by
  induction xs generalizing ys with
  | nil =>
    cases ys with
    | nil => rfl
    | cons y ys =>
      have hempty := (List.append_eq_nil_iff.mp h.symm).1
      exact absurd hempty (encode_ne_nil (recordItem_size y))
  | cons x xs ih =>
    cases ys with
    | nil =>
      have hempty := (List.append_eq_nil_iff.mp h).1
      exact absurd hempty (encode_ne_nil (recordItem_size x))
    | cons y ys =>
      obtain ⟨rfl, hrest⟩ := encode_recordItem_append_inj h
      rw [ih hrest]

variable {db : Backend}

/-- The data of the accounts that have changed; `none` is a panic. -/
def hashedRecords (s : IntraBlockState db) : Option (List StateAccount) :=
  (rootRecords (ascending s.stateObjectsDirty) s).map Prod.fst

def hashedBytes (s : IntraBlockState db) : Option Bytes :=
  (hashedRecords s).map rootBytes

theorem hashedBytes_eq_iff (s t : IntraBlockState db) :
    hashedBytes s = hashedBytes t ↔ hashedRecords s = hashedRecords t := by
  constructor
  · intro h
    exact Option.map_injective (fun _ _ => rootBytes_inj) h
  · intro h
    rw [hashedBytes, hashedBytes, h]

/-- Two executions with different writes have different bytes hashed just if the data of the
accounts that changed, listed without their addresses, differ. -/
theorem writes_committed_iff (rules : Rules) (s t : IntraBlockState db) :
    (finalValues (commitBlock rules s).1 ≠ finalValues (commitBlock rules t).1 →
        hashedBytes s ≠ hashedBytes t) ↔
      finalValues (commitBlock rules s).1 = finalValues (commitBlock rules t).1 ∨
        hashedRecords s ≠ hashedRecords t := by
  rw [ne_eq, ne_eq, ne_eq, hashedBytes_eq_iff]
  constructor
  · intro h
    by_cases hwrites : finalValues (commitBlock rules s).1 = finalValues (commitBlock rules t).1
    · exact Or.inl hwrites
    · exact Or.inr (h hwrites)
  · rintro (hwrites | hrecords) hne
    · exact absurd hwrites hne
    · exact hrecords

def toyStored (value : Uint256) : IntraBlockState toyBackend :=
  (finalizeTx toyRules (setState (toyAddress 2) default value (setNonce (toyAddress 2) 1
    (createAccount (toyAddress 2) true (IntraBlockState.new toyBackend))))).2

/-- Two executions that store different values have the same bytes hashed. -/
theorem storage_not_committed :
    finalValues (commitBlock toyRules (toyStored 1)).1 ≠
        finalValues (commitBlock toyRules (toyStored 2)).1 ∧
      hashedBytes (toyStored 1) = hashedBytes (toyStored 2) ∧
      (hashedBytes (toyStored 1)).isSome = true := by
  refine ⟨fun h => ?_, by decide +kernel, by decide +kernel⟩
  have hslot := congrArg (fun w => (w (toyAddress 2)).writeAccountStorage default) h
  revert hslot
  decide +kernel

end N42.RootCommitment
