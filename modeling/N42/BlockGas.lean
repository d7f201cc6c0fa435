import N42.BlockProcessing
import N42.SenderBinding

/-!
The gas of a block.  What the pool of the block holds and what the transactions have used
always add up to the limit of the block: a transaction takes its gas limit out of the pool
and puts back what is left of it and the refund.
-/

namespace N42.BlockGas

open ChainTypes Transactions MessageCalls StatefulActions
open StatefulActions.Action TransactionExecution ExecutionConditions
open BlockProcessing

variable {ξ : Type}

def quotientOf (evm : EVM ξ) : UInt64 :=
  if evm.chainRules.isLondon then refundQuotientEIP3529 else refundQuotient

def executed (evm : EVM ξ) (msg : Message) (gp : UInt64) (s : IntraBlockState ξ)
    (intrinsic : UInt64) : StateTransition ξ :=
  (execute evm msg false
    { purchase evm msg ⟨gp, 0, 0, s⟩ with gas := msg.gasLimit - intrinsic }).2

def refundOf (evm : EVM ξ) (msg : Message) (gp : UInt64) (s : IntraBlockState ξ)
    (intrinsic : UInt64) : UInt64 :=
  cappedRefund (executed evm msg gp s intrinsic) (quotientOf evm)

/-- The gas of one message, in numbers that do not wrap around: the pool `gp` before and
`gp'` after it, and the gas used. -/
structure Settled (evm : EVM ξ) (msg : Message) (gp gp' used : UInt64) (s : IntraBlockState ξ)
    (intrinsic : UInt64) : Prop where
  intrinsic_eq : messageGas evm msg = .ok intrinsic
  bought : msg.gasLimit.toNat ≤ gp.toNat
  charged : intrinsic.toNat ≤ msg.gasLimit.toNat
  left : intrinsic.toNat + (executed evm msg gp s intrinsic).gas.toNat ≤ msg.gasLimit.toNat
  refund : (refundOf evm msg gp s intrinsic).toNat ≤
    (msg.gasLimit.toNat - (executed evm msg gp s intrinsic).gas.toNat) / (quotientOf evm).toNat
  used_eq : used.toNat + (refundOf evm msg gp s intrinsic).toNat +
    (executed evm msg gp s intrinsic).gas.toNat = msg.gasLimit.toNat
  pool_eq : gp'.toNat + used.toNat = gp.toNat

section Messages

variable {evm : EVM ξ} {msg : Message} {gp gp' used : UInt64} {s : IntraBlockState ξ}
  {intrinsic : UInt64}

theorem Settled.bounds (h : Settled evm msg gp gp' used s intrinsic) :
    intrinsic.toNat ≤ used.toNat + (refundOf evm msg gp s intrinsic).toNat ∧
      used.toNat ≤ msg.gasLimit.toNat := by
  have hleft := h.left
  have hused := h.used_eq
  omega

theorem cappedRefund_le (st : StateTransition ξ) (quotient : UInt64) :
    (cappedRefund st quotient).toNat ≤ st.gasUsed.toNat / quotient.toNat := by
  rw [cappedRefund, ← UInt64.toNat_div]
  split
  · rename_i hlt
    exact Nat.le_of_lt (UInt64.lt_iff_toNat_lt.mp hlt)
  · exact Nat.le_refl _

theorem gas_of_refundGas {quotient : UInt64} {st st' : StateTransition ξ} {u : Unit}
    (h : refundGas evm msg quotient st = (.ok u, st')) :
    st'.gas = st.gas + cappedRefund st quotient ∧ st'.initialGas = st.initialGas ∧
      addGas st.gp (st.gas + cappedRefund st quotient) = .ok st'.gp := by
  simp only [refundGas, bind_eq_ok_iff, get_eq_ok_iff, modify_eq_ok_iff, lift_eq_ok_iff] at h
  obtain ⟨_, _, ⟨rfl, rfl⟩, gp, _, ⟨hgp, rfl⟩, rfl⟩ := h
  exact ⟨rfl, rfl, hgp⟩

theorem toNat_addGas {amount : UInt64} (h : addGas gp amount = .ok gp') :
    gp'.toNat = gp.toNat + amount.toNat := by
  rw [addGas] at h
  split at h
  · cases h
  · rename_i hroom
    cases h
    have hle : (maxUint64 - amount).toNat = 2 ^ 64 - 1 - amount.toNat := by
      have hamount := amount.toNat_lt
      rw [UInt64.toNat_sub_of_le]
      · rfl
      · rw [UInt64.le_iff_toNat_le]
        change amount.toNat ≤ 2 ^ 64 - 1
        omega
    rw [UInt64.not_lt, UInt64.le_iff_toNat_le, hle] at hroom
    have hamount := amount.toNat_lt
    rw [UInt64.toNat_add]
    omega

theorem settled_of_transitionDb {st : StateTransition ξ} {r : ExecutionResult}
    (hparlia : evm.chainConfig.parlia = false)
    (h : transitionDb evm msg true false ⟨gp, 0, 0, s⟩ = (.ok r, st)) :
    ∃ intrinsic, Settled evm msg gp st.gp r.usedGas s intrinsic := by
  rw [transitionDb, hparlia, bind_eq_ok_iff] at h
  obtain ⟨⟨⟩, bought, hpre, h⟩ := h
  rw [bind_eq_ok_iff] at h
  obtain ⟨⟨⟩, charged, huse, h⟩ := h
  rw [bind_eq_ok_iff] at h
  obtain ⟨result, st₁, hexecute, h⟩ := h
  rw [bind_eq_ok_iff] at h
  obtain ⟨⟨⟩, st₂, hsettle, h⟩ := h
  simp only [bind_eq_ok_iff, modify_eq_ok_iff, get_eq_ok_iff, pure_eq_ok_iff] at h
  obtain ⟨_, _, rfl, _, _, ⟨rfl, rfl⟩, rfl, rfl⟩ := h
  obtain ⟨-, -, hbuy⟩ := preCheck_eq_ok_iff.mp hpre
  obtain ⟨-, -, -, hroom, rfl⟩ := buyGas_eq_ok_iff.mp hbuy
  obtain ⟨intrinsic, hintrinsic, henough, rfl⟩ := useIntrinsicGas_eq_ok_iff.mp huse
  have hbought : (purchase evm msg ⟨gp, 0, 0, s⟩).gas = msg.gasLimit := UInt64.zero_add _
  rw [hbought] at henough hexecute
  have hst₁ : executed evm msg gp s intrinsic = st₁ := by
    rw [executed]
    exact (congrArg Prod.snd hexecute :)
  obtain ⟨_, _, hrun, hgas, hgp, hinitial⟩ := execute_completes evm msg false
    { purchase evm msg ⟨gp, 0, 0, s⟩ with gas := msg.gasLimit - intrinsic }
  cases hexecute.symm.trans hrun
  have hlimit : st₁.initialGas = msg.gasLimit := hinitial
  have hpool : st₁.gp = gp - msg.gasLimit :=
    hgp.trans (if_neg (UInt64.not_lt.mpr (hroom rfl)))
  obtain ⟨hgas₂, hinitial₂, hgp₂⟩ := gas_of_refundGas hsettle
  have hfirst : msg.gasLimit.toNat ≤ gp.toNat := UInt64.le_iff_toNat_le.mp (hroom rfl)
  have hsecond := UInt64.le_iff_toNat_le.mp henough
  have hthird : st₁.gas.toNat ≤ msg.gasLimit.toNat - intrinsic.toNat := by
    rw [← UInt64.toNat_sub_of_le _ _ henough]
    exact UInt64.le_iff_toNat_le.mp hgas
  have hused₁ : st₁.gasUsed.toNat = msg.gasLimit.toNat - st₁.gas.toNat := by
    rw [StateTransition.gasUsed, hlimit, UInt64.toNat_sub_of_le]
    rw [UInt64.le_iff_toNat_le]
    omega
  have hquotient := cappedRefund_le st₁ (quotientOf evm)
  rw [hused₁] at hquotient
  have hrefund := hquotient.trans (Nat.div_le_self _ _)
  have hback : (st₁.gas + cappedRefund st₁ (quotientOf evm)).toNat =
      st₁.gas.toNat + (cappedRefund st₁ (quotientOf evm)).toNat := by
    have hlt := msg.gasLimit.toNat_lt
    rw [UInt64.toNat_add]
    omega
  have hused₂ : st₂.gasUsed.toNat =
      msg.gasLimit.toNat - (st₁.gas.toNat + (cappedRefund st₁ (quotientOf evm)).toNat) := by
    rw [StateTransition.gasUsed, hinitial₂, hlimit, hgas₂, ← hback]
    refine UInt64.toNat_sub_of_le _ _ (UInt64.le_iff_toNat_le.mpr ?_)
    change (st₁.gas + cappedRefund st₁ (quotientOf evm)).toNat ≤ _
    omega
  have hpool₂ : st₂.gp.toNat = gp.toNat - msg.gasLimit.toNat +
      (st₁.gas.toNat + (cappedRefund st₁ (quotientOf evm)).toNat) := by
    have hadd : st₂.gp.toNat =
        st₁.gp.toNat + (st₁.gas + cappedRefund st₁ (quotientOf evm)).toNat := toNat_addGas hgp₂
    rw [hadd, hback, hpool, UInt64.toNat_sub_of_le _ _ (hroom rfl)]
  refine ⟨intrinsic, hintrinsic, hfirst, hsecond, ?_, ?_, ?_, ?_⟩
  · rw [hst₁]
    omega
  · rw [refundOf, hst₁]
    exact hquotient
  · rw [refundOf, hst₁]
    change st₂.gasUsed.toNat + _ + _ = _
    omega
  · change st₂.gp.toNat + st₂.gasUsed.toNat = _
    omega

end Messages

section Blocks

variable {env : Environment ξ} {tx : Transaction} {s t : BlockState ξ}

structure Balanced (limit : UInt64) (spent : Nat) (s : BlockState ξ) : Prop where
  pool : s.gp.toNat + spent = limit.toNat
  counter : s.usedGas.toNat = spent

structure Charged (env : Environment ξ) (tx : Transaction) (s t : BlockState ξ)
    (gasUsed : UInt64) : Prop where
  message : ∃ msg evm intrinsic, env.message tx = .ok (msg, evm) ∧ msg.gasLimit = tx.gas ∧
    Settled evm msg s.gp t.gp gasUsed s.ibs intrinsic ∧
    intrinsic.toNat - (refundOf evm msg s.gp s.ibs intrinsic).toNat ≤ gasUsed.toNat ∧
    gasUsed.toNat ≤ tx.gas.toNat
  counter : t.usedGas.toNat = s.usedGas.toNat + gasUsed.toNat

theorem message_spec {msg : Message} {evm : EVM ξ} (h : env.message tx = .ok (msg, evm)) :
    msg.gasLimit = tx.gas ∧ evm.chainConfig = env.chainConfig := by
  obtain ⟨context, -, h⟩ := FallibleRuns.bind_eq_ok_iff.mp h
  split at h
  · cases h
  · rename_i derived hderived
    obtain ⟨sender, -, rfl⟩ := Option.map_eq_some_iff.mp hderived
    cases h
    exact ⟨rfl, rfl⟩

/-- The step: a transaction adds what it uses to what was spent. -/
theorem charged_of_applyTransaction {limit : UInt64} {spent : Nat}
    {r : Option Receipt × List UInt8} (hparlia : env.chainConfig.parlia = false)
    (hbalanced : Balanced limit spent s) (h : applyTransaction env tx s = (.ok r, t)) :
    ∃ gasUsed, Charged env tx s t gasUsed ∧ Balanced limit (spent + gasUsed.toNat) t ∧
      ∀ receipt, r.1 = some receipt → receipt.gasUsed = gasUsed := by
  simp only [applyTransaction, bind_eq_ok_iff, lift_eq_ok_iff, modify_eq_ok_iff,
    get_eq_ok_iff, pure_eq_ok_iff] at h
  obtain ⟨⟨msg, evm⟩, _, ⟨hmessage, rfl⟩, result, _, happly, _, _, rfl, _, _, ⟨rfl, rfl⟩, rfl,
    rfl⟩ := h
  obtain ⟨st, htransition, rfl⟩ := applyMessage_eq_ok_iff.mp happly
  obtain ⟨hlimit, hconfig⟩ := message_spec hmessage
  obtain ⟨intrinsic, hsettled⟩ := settled_of_transitionDb (hconfig ▸ hparlia) htransition
  have hpool := hsettled.pool_eq
  have hspent := hbalanced.pool
  have hcounter := hbalanced.counter
  -- what is spent stays below the limit, so the counter does not wrap around
  have hsum : (s.usedGas + result.usedGas).toNat = s.usedGas.toNat + result.usedGas.toNat := by
    have hlt := limit.toNat_lt
    rw [UInt64.toNat_add]
    omega
  obtain ⟨hleast, hmost⟩ := hsettled.bounds
  refine ⟨result.usedGas, ⟨⟨msg, evm, intrinsic, hmessage, hlimit, hsettled,
    Nat.sub_le_iff_le_add.mpr hleast, hlimit ▸ hmost⟩, hsum⟩,
    ⟨?_, hsum.trans (by rw [hcounter])⟩, ?_⟩
  · change st.gp.toNat + _ = _
    omega
  · intro receipt hreceipt
    dsimp only at hreceipt
    split at hreceipt
    · cases hreceipt
    · cases hreceipt
      rfl

/-- A run of the transactions of a block from a position on.  Before each of them and at the
end the gas of the block is balanced, and each is charged what the list says. -/
inductive Metered (env : Environment ξ) (bhash : Hash) (limit : UInt64) :
    Nat → Nat → BlockState ξ → List Transaction → List UInt64 → BlockState ξ → Prop
  | done {index spent : Nat} {s : BlockState ξ} (balanced : Balanced limit spent s) :
      Metered env bhash limit index spent s [] [] s
  | tx {index spent : Nat} {s m t : BlockState ξ} {tx : Transaction} {txs : List Transaction}
      {gasUsed : UInt64} {gas : List UInt64} (balanced : Balanced limit spent s)
      (charged : Charged env tx
        { s with ibs := s.ibs.prepare (tx.hash env.lib) bhash index } m gasUsed)
      (rest : Metered env bhash limit (index + 1) (spent + gasUsed.toNat) m txs gas t) :
      Metered env bhash limit index spent s (tx :: txs) (gasUsed :: gas) t

theorem Metered.balanced {bhash : Hash} {limit : UInt64} {index spent : Nat}
    {txs : List Transaction} {gas : List UInt64}
    (h : Metered env bhash limit index spent s txs gas t) :
    Balanced limit (spent + (gas.map UInt64.toNat).sum) t := by
  induction h with
  | done balanced => exact balanced
  | tx balanced charged rest ih =>
    rw [List.map_cons, List.sum_cons, ← Nat.add_assoc]
    exact ih

/-- The run: the transactions of a block that is processed are metered. -/
theorem metered_of_processTxs (hparlia : env.chainConfig.parlia = false) {bhash : Hash}
    {limit : UInt64} {index spent : Nat} {txs : List Transaction} {receipts : List Receipt}
    (hbalanced : Balanced limit spent s)
    (h : processTxs env bhash index txs s = (.ok receipts, t)) :
    ∃ gas, Metered env bhash limit index spent s txs gas t ∧
      (env.config.noReceipts = false → receipts.map Receipt.gasUsed = gas) := by
  induction txs generalizing index spent s receipts with
  | nil =>
    obtain ⟨rfl, rfl⟩ := pure_eq_ok_iff.mp h
    exact ⟨[], .done hbalanced, fun _ => rfl⟩
  | cons tx txs ih =>
    simp only [processTxs, bind_eq_ok_iff, pure_eq_ok_iff] at h
    obtain ⟨receipt, m, hfirst, rest, u, hrest, rfl, rfl⟩ := h
    obtain ⟨ret, happly⟩ := processTx_eq_ok_iff.mp hfirst
    have hprepared : Balanced limit spent
        { s with ibs := s.ibs.prepare (tx.hash env.lib) bhash index } :=
      ⟨hbalanced.pool, hbalanced.counter⟩
    obtain ⟨gasUsed, hcharged, hnext, hreceipt⟩ :=
      charged_of_applyTransaction hparlia hprepared happly
    obtain ⟨gas, hmetered, hgas⟩ := ih hnext hrest
    refine ⟨gasUsed :: gas, .tx hbalanced hcharged hmetered, fun hreceipts => ?_⟩
    obtain ⟨r, hr⟩ := Option.isSome_iff_exists.mp (isSome_receipt hreceipts happly)
    obtain rfl : receipt = some r := hr
    rw [Option.toList_some, List.map_append, hgas hreceipts, List.map_singleton,
      hreceipt r rfl, List.singleton_append]

end Blocks

section Toys

open SenderBinding HeaderSealing

def toyTransfer (gas : UInt64) (nonce : UInt64) : Transaction :=
  .legacy
    { nonce := nonce
      gasPrice := 0
      gas := gas
      toAddress := some (toyAddress 3)
      fromAddress := some (toyAddress 1)
      value := 0
      data := []
      v := 27
      r := 1
      s := 2 }

end Toys

end N42.BlockGas
