import N42.AdmissionConditions
import N42.ExecutionConditions
import N42.HeaderSealing

/-!
Whether the account that pays for a transaction is the one that signed it.  Neither the
pool nor the execution of a block asks the signer, so this holds of a transaction just if
its `From` field happens to be right or nothing accepts it for another reason.
-/

namespace N42.SenderBinding

open HeaderSealing Transactions MessageCalls StatefulActions
open TransactionExecution ExecutionConditions PoolAdmission AdmissionConditions

variable {ξ π : Type}

def SignedByFrom (env : Environment ξ) (tx : Transaction) : Prop :=
  ∃ address, tx.fromAddress = some address ∧ env.signer.sender env.lib tx = .ok address

def SameAccounts (s t : IntraBlockState ξ) : Prop :=
  ∀ address, s.getBalance address = t.getBalance address ∧
    s.getNonce address = t.getNonce address

/-- A transaction enters a pool for the block, or is executed in it, only on the account
of its signer, and has no effect on accounts otherwise. -/
structure SenderBound (π : Type) (env : Environment ξ) (tx : Transaction) : Prop where
  admission : ∀ (ctx : PoolContext π) (pool : TxsPool π) (isLocal : Bool)
    (txs : List Transaction), ctx.lib = env.lib →
    forks pool = forksAt env.chainConfig env.header.number64 →
    Admitted ctx pool isLocal txs tx → SignedByFrom env tx
  execution : ∀ s r t, applyTransaction env tx s = (.ok r, t) →
    ∃ msg evm, env.message tx = .ok (msg, evm) ∧
      env.signer.sender env.lib tx = .ok msg.fromAddress
  effects : ∀ s r t, applyTransaction env tx s = (.ok r, t) → ¬ SignedByFrom env tx →
    SameAccounts s.ibs t.ibs

theorem fromAddress_of_message {env : Environment ξ} {tx : Transaction} {msg : Message}
    {evm : EVM ξ} (h : env.message tx = .ok (msg, evm)) :
    tx.fromAddress = some msg.fromAddress := by
  obtain ⟨context, -, h⟩ := FallibleRuns.bind_eq_ok_iff.mp h
  split at h
  · cases h
  · rename_i derived hderived
    cases h
    have hsender := fromAddress_of_asMessage hderived
    exact hsender

theorem signedByFrom_of_message {env : Environment ξ} {tx : Transaction} {msg : Message}
    {evm : EVM ξ} (h : env.message tx = .ok (msg, evm)) :
    SignedByFrom env tx ↔ env.signer.sender env.lib tx = .ok msg.fromAddress := by
  have hsender := fromAddress_of_message h
  constructor
  · rintro ⟨address, haddress, hsigned⟩
    rw [hsender] at haddress
    exact Option.some.inj haddress ▸ hsigned
  · exact fun hsigned => ⟨msg.fromAddress, hsender, hsigned⟩

/-- The payer of a transaction is its signer just if the `From` field says so, or the
transaction passes neither the checks of the pool nor those of the block. -/
theorem payer_is_signer_iff [Inhabited ξ] [Inhabited π] (env : Environment ξ)
    (tx : Transaction) :
    SenderBound π env tx ↔ SignedByFrom env tx ∨
      (¬ Admissible env.chainConfig env.header.number64 tx ∧
        ¬ Environment.Executable env tx) := by
  constructor
  · intro hbound
    by_contra hneither
    obtain ⟨hforged, haccepted⟩ := not_or.mp hneither
    refine haccepted ⟨fun hadmissible => hforged ?_, fun hexecutable => hforged ?_⟩
    · exact hbound.admission _ _ _ _ rfl rfl (admitted_of_admissible env.lib hadmissible)
    · obtain ⟨s, r, t, hrun⟩ := (applyTransaction_completes_iff env tx).mpr hexecutable
      obtain ⟨msg, evm, hmessage, hsigned⟩ := hbound.execution s r t hrun
      exact (signedByFrom_of_message hmessage).mpr hsigned
  · rintro (hsigned | ⟨hadmissible, hexecutable⟩)
    · refine ⟨fun _ _ _ _ _ _ _ => hsigned, fun s r t hrun => ?_,
        fun _ _ _ _ hforged => absurd hsigned hforged⟩
      obtain ⟨msg, evm, hmessage, -⟩ := message_of_applyTransaction hrun
      exact ⟨msg, evm, hmessage, (signedByFrom_of_message hmessage).mp hsigned⟩
    · have hnever : ∀ s r t, applyTransaction env tx s ≠ (.ok r, t) := fun s r t hrun =>
        hexecutable ((applyTransaction_completes_iff env tx).mp ⟨s, r, t, hrun⟩)
      refine ⟨fun _ _ _ _ _ hforks hadmitted => ?_, fun s r t hrun => ?_,
        fun s r t hrun => ?_⟩
      · exact absurd (admissible_of_admitted hforks hadmitted) hadmissible
      · exact absurd hrun (hnever s r t)
      · exact absurd hrun (hnever s r t)

def plainInterpreter : Interpreter Unit where
  precompiles := fun _ => []
  getCode := fun _ _ => []
  setCode := fun _ _ _ => ()
  renewStorage := fun _ _ => ()
  run := fun _ _ _ _ s => ⟨[], 0, some .interpreted, s⟩
  finalizeTx := fun _ s => { s with refund := 0 }
  run_gas_le := fun _ _ _ _ _ => UInt64.zero_le

def toyEnvironment : Environment Unit where
  lib := toyPrimitives
  interpreter := plainInterpreter
  chainConfig := .unforked
  config := .zero
  author := fun h => (ecrecover toyPrimitives h).toOption.getD default
  header := toyHeader 1 2 (toyAddress 9)

/-- A transfer of 5 from account 1 to account 3 that account 2 has signed. -/
def forgedTransfer : Transaction :=
  .legacy
    { nonce := 0
      gasPrice := 1
      gas := 21000
      toAddress := some (toyAddress 3)
      fromAddress := some (toyAddress 1)
      value := 5
      data := []
      v := 27
      r := 1
      s := 2 }

def toyBlockState : BlockState Unit where
  gp := 21000
  usedGas := 0
  ibs := .new (fun a => if a = toyAddress 1 then
    some ⟨0, 30000, emptyCodeHash toyPrimitives⟩ else none) ()

/-- The transfer is recovered to account 2, admitted to the pool and executed, and it is
account 1 that pays the value and the gas and whose nonce is used up. -/
theorem forged_transfer_spends_from_victim :
    forgedTransfer.fromAddress = some (toyAddress 1) ∧
      toyEnvironment.signer.sender toyPrimitives forgedTransfer = .ok (toyAddress 2) ∧
      Admitted (freeContext toyPrimitives : PoolContext Unit)
        (emptyPool .unforked 1 21000) false [forgedTransfer] forgedTransfer ∧
      ∃ r t, applyTransaction toyEnvironment forgedTransfer toyBlockState = (.ok r, t) ∧
        toyBlockState.ibs.getBalance (toyAddress 1) = 30000 ∧
        t.ibs.getBalance (toyAddress 1) = 8995 ∧ t.ibs.getNonce (toyAddress 1) = 1 ∧
        t.ibs.getBalance (toyAddress 3) = 5 := by
  refine ⟨rfl, by decide +kernel, ?_, ?_⟩
  · have hadmissible : Admissible .unforked 1 forgedTransfer :=
      ⟨by decide, by decide, by decide, by decide, by decide, 21000, by decide +kernel,
        by decide⟩
    exact admitted_of_admissible toyPrimitives hadmissible
  · obtain ⟨r, hrun⟩ := Action.eq_ok_of_isOk
      (show (applyTransaction toyEnvironment forgedTransfer toyBlockState).1.isOk = true by
        decide +kernel)
    exact ⟨r, _, hrun, by decide +kernel, by decide +kernel, by decide +kernel,
      by decide +kernel⟩

end N42.SenderBinding
