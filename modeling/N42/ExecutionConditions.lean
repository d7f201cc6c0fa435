import N42.TransactionExecution

/-!
Which transactions can be executed at all: the checks that depend on the transaction,
the header and the chain alone, and a state in which nothing else stands in the way.
-/

namespace N42.ExecutionConditions

open ChainTypes Transactions MessageCalls StatefulActions.Action
open TransactionExecution

variable {ξ : Type}

structure Executable (evm : EVM ξ) (msg : Message) : Prop where
  nonce : msg.checkNonce = true → msg.nonce ≠ maxUint64
  fees : checksFees evm msg = true → checkEip1559TxGasFeeCap msg evm.context.baseFee = .ok ()
  price : msg.gasLimit.toNat * msg.gasPrice.toNat < 2 ^ 256
  cost : maxCost msg < 2 ^ 256
  gas : ∃ gas, messageGas evm msg = .ok gas ∧ gas ≤ msg.gasLimit

/-- A state in which the sender has the nonce of the message and no code, and in which the
sender and the block have enough for it. -/
structure Ready (lib : Primitives) (msg : Message) (s : BlockState ξ) : Prop where
  sender : msg.checkNonce = true → s.ibs.getNonce msg.fromAddress = msg.nonce ∧
    s.ibs.getCodeHash msg.fromAddress = emptyCodeHash lib
  funds : maxCost msg ≤ (s.ibs.getBalance msg.fromAddress).toNat
  gp : msg.gasLimit ≤ s.gp

variable {evm : EVM ξ} {msg : Message}

theorem checkSender_eq_ok_iff {lib : Primitives} {s : IntraBlockState ξ} :
    checkSender lib msg s = .ok () ↔
      s.getNonce msg.fromAddress = msg.nonce ∧ msg.nonce ≠ maxUint64 ∧
      (s.getCodeHash msg.fromAddress = emptyCodeHash lib ∨
        s.getCodeHash msg.fromAddress = default) := by
  have hmax : ∀ n : UInt64, n + 1 < n ↔ n = maxUint64 := by
    intro n
    rw [UInt64.lt_iff_toNat_lt, UInt64.toNat_add, ← UInt64.toNat_inj]
    have := n.toNat_lt
    change (n.toNat + 1) % 2 ^ 64 < n.toNat ↔ n.toNat = 2 ^ 64 - 1
    omega
  simp only [checkSender, FallibleRuns.seq_eq_ok_iff, FallibleRuns.failIf_eq_ok_iff, hmax]
  constructor
  · rintro ⟨hhigh, hlow, hnonce, hcode⟩
    have heq : s.getNonce msg.fromAddress = msg.nonce :=
      UInt64.le_antisymm (UInt64.not_lt.mp hlow) (UInt64.not_lt.mp hhigh)
    refine ⟨heq, heq ▸ hnonce, ?_⟩
    by_contra hneither
    exact hcode (not_or.mp hneither)
  · rintro ⟨heq, hnonce, hcode⟩
    rw [heq]
    exact ⟨UInt64.lt_irrefl _, UInt64.lt_irrefl _, hnonce,
      fun hneither => hcode.elim hneither.1 hneither.2⟩

theorem executable_of_transitionDb {gasBailout : Bool} {st st' : StateTransition ξ}
    {r : ExecutionResult} (hgas : st.gas = 0)
    (h : transitionDb evm msg true gasBailout st = (.ok r, st')) : Executable evm msg := by
  rw [transitionDb, bind_eq_ok_iff] at h
  obtain ⟨⟨⟩, bought, hpre, h⟩ := h
  rw [bind_eq_ok_iff] at h
  obtain ⟨⟨⟩, charged, huse, -⟩ := h
  obtain ⟨hsender, hfees, hbuy⟩ := preCheck_eq_ok_iff.mp hpre
  obtain ⟨hprice, hcost, -, -, rfl⟩ := buyGas_eq_ok_iff.mp hbuy
  obtain ⟨gas, hmessage, henough, -⟩ := useIntrinsicGas_eq_ok_iff.mp huse
  refine ⟨fun hcheck => ?_, hfees, hprice, hcost, gas, hmessage, ?_⟩
  · exact (checkSender_eq_ok_iff.mp (hsender hcheck)).2.1
  · simpa [purchase, hgas] using henough

theorem transitionDb_completes (h : Executable evm msg) {s : BlockState ξ}
    (hready : Ready evm.lib msg s) (gasBailout : Bool) :
    ∃ r st', transitionDb evm msg true gasBailout ⟨s.gp, 0, 0, s.ibs⟩ = (.ok r, st') := by
  let st : StateTransition ξ := ⟨s.gp, 0, 0, s.ibs⟩
  obtain ⟨gas, hmessage, henough⟩ := h.gas
  have hpre : preCheck evm msg (gasBailout || evm.chainConfig.parlia) st =
      (.ok (), purchase evm msg st) := by
    refine preCheck_eq_ok_iff.mpr ⟨fun hcheck => ?_, h.fees, ?_⟩
    · obtain ⟨hnonce, hcode⟩ := hready.sender hcheck
      exact checkSender_eq_ok_iff.mpr ⟨hnonce, h.nonce hcheck, Or.inl hcode⟩
    · exact buyGas_eq_ok_iff.mpr ⟨h.price, h.cost, fun _ => hready.funds, fun _ => hready.gp, rfl⟩
  have hbought : (purchase evm msg st).gas = msg.gasLimit := by
    simp [purchase, st]
  let charged : StateTransition ξ :=
    { purchase evm msg st with gas := (purchase evm msg st).gas - gas }
  have huse : useIntrinsicGas evm msg (purchase evm msg st) = (.ok (), charged) :=
    useIntrinsicGas_eq_ok_iff.mpr ⟨gas, hmessage, hbought ▸ henough, rfl⟩
  obtain ⟨result, st₁, hexecute, hle, hgp, hinitial⟩ := execute_completes evm msg
    (gasBailout || evm.chainConfig.parlia) charged
  -- the pool holds what is left after the purchase, so that all of it can come back
  have hgasLimit : st₁.initialGas = msg.gasLimit := hinitial
  have hpool : st₁.gp = s.gp - msg.gasLimit := by
    rw [hgp]
    exact if_neg (UInt64.not_lt.mpr hready.gp)
  have hroom : st₁.gp.toNat + st₁.initialGas.toNat < 2 ^ 64 := by
    have := s.gp.toNat_lt
    have hle : msg.gasLimit.toNat ≤ s.gp.toNat := UInt64.le_iff_toNat_le.mp hready.gp
    rw [hgasLimit, hpool, UInt64.toNat_sub_of_le _ _ hready.gp]
    omega
  have hused : st₁.gas ≤ st₁.initialGas := by
    rw [hgasLimit]
    refine UInt64.le_trans hle (UInt64.le_trans (UInt64.sub_le (hbought ▸ henough)) ?_)
    exact hbought ▸ UInt64.le_refl _
  obtain ⟨st₂, hrefund⟩ := refundGas_completes evm msg
    (if evm.chainRules.isLondon then refundQuotientEIP3529 else refundQuotient) st₁ hused hroom
  let paid : StateTransition ξ := { st₂ with state := payFees evm msg st₂.gasUsed st₂.state }
  refine ⟨⟨paid.gasUsed, result.2, result.1⟩, paid, ?_⟩
  rw [transitionDb, bind_of_eq_ok hpre, bind_of_eq_ok huse, bind_of_eq_ok hexecute, settleGas,
    bind_of_eq_ok hrefund]
  rfl

def Environment.Executable (env : Environment ξ) (tx : Transaction) : Prop :=
  ∃ msg evm, env.message tx = .ok (msg, evm) ∧ ExecutionConditions.Executable evm msg

theorem applyMessage_eq_ok_iff {refunds gasBailout : Bool} {s s' : BlockState ξ}
    {r : ExecutionResult} :
    applyMessage evm msg refunds gasBailout s = (.ok r, s') ↔
      ∃ st, transitionDb evm msg refunds gasBailout ⟨s.gp, 0, 0, s.ibs⟩ = (.ok r, st) ∧
        { s with gp := st.gp, ibs := st.state } = s' :=
  zoom_eq_ok_iff

theorem message_of_applyTransaction {env : Environment ξ} {tx : Transaction}
    {s s' : BlockState ξ} {r : Option Receipt × List UInt8}
    (h : applyTransaction env tx s = (.ok r, s')) :
    ∃ msg evm, env.message tx = .ok (msg, evm) ∧
      ∃ result t, applyMessage evm msg true false s = (.ok result, t) := by
  rw [applyTransaction, bind_eq_ok_iff] at h
  obtain ⟨⟨msg, evm⟩, t, hlift, h⟩ := h
  obtain ⟨hmessage, rfl⟩ := lift_eq_ok_iff.mp hlift
  rw [bind_eq_ok_iff] at h
  obtain ⟨result, t, hresult, -⟩ := h
  exact ⟨msg, evm, hmessage, result, t, hresult⟩

def readyState (lib : Primitives) (contracts : ξ) (msg : Message) : BlockState ξ :=
  ⟨msg.gasLimit, 0, .new (fun a =>
    if a = msg.fromAddress then
      some ⟨msg.nonce, BitVec.ofNat 256 (maxCost msg), emptyCodeHash lib⟩
    else none) contracts⟩

theorem readyState_ready {lib : Primitives} {contracts : ξ} (hcost : maxCost msg < 2 ^ 256) :
    Ready lib msg (readyState lib contracts msg) where
  sender := fun _ => by
    simp [readyState, IntraBlockState.new, IntraBlockState.getNonce, IntraBlockState.getCodeHash]
  funds := by
    simp only [readyState, IntraBlockState.new, IntraBlockState.getBalance, if_true,
      Option.elim_some, BitVec.toNat_ofNat]
    exact (Nat.mod_eq_of_lt hcost).ge
  gp := UInt64.le_refl _

theorem applyTransaction_completes_iff [Inhabited ξ] (env : Environment ξ)
    (tx : Transaction) :
    (∃ s r s', applyTransaction env tx s = (.ok r, s')) ↔ Environment.Executable env tx := by
  constructor
  · rintro ⟨s, r, s', h⟩
    obtain ⟨msg, evm, hmessage, result, t, hresult⟩ := message_of_applyTransaction h
    obtain ⟨st, htransition, -⟩ := applyMessage_eq_ok_iff.mp hresult
    exact ⟨msg, evm, hmessage, executable_of_transitionDb rfl htransition⟩
  · rintro ⟨msg, evm, hmessage, hexecutable⟩
    let s : BlockState ξ := readyState evm.lib default msg
    obtain ⟨result, st, htransition⟩ :=
      transitionDb_completes hexecutable (readyState_ready hexecutable.cost : Ready _ _ s) false
    have happly := applyMessage_eq_ok_iff.mpr ⟨st, htransition, rfl⟩
    have hrun : ∃ r s', applyTransaction env tx s = (.ok r, s') := by
      simp only [applyTransaction, bind_eq_ok_iff, lift_eq_ok_iff, modify_eq_ok_iff,
        get_eq_ok_iff, pure_eq_ok_iff]
      exact ⟨_, _, (msg, evm), s, ⟨hmessage, rfl⟩, result, _, happly, (), _, rfl, _, _,
        ⟨rfl, rfl⟩, rfl, rfl⟩
    exact ⟨s, hrun⟩

end N42.ExecutionConditions
