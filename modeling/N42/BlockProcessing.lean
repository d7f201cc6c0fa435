import N42.ExecutionConditions
import N42.RewardWindows

/-!
`Process`: the transactions of a block one after the other, the comparison of the gas they
used with the header, and the rewards.
-/

namespace N42.BlockProcessing

open ChainTypes BlockHeader Transactions MessageCalls StatefulActions
open StatefulActions.Action TransactionExecution RewardBinding RewardWindows

inductive ProcessError where
  | couldNotApply (index : Nat) (err : TxError)
  | gasUsedMismatch (used header : UInt64)
  | rewards (err : RewardError)
deriving DecidableEq

/-- The processor with the engine's share in it: who sealed a header, and the rewards. -/
structure Processor (ξ : Type) where
  lib : Primitives
  interpreter : Interpreter ξ
  chainConfig : ChainConfig
  author : Header → Address
  conf : AposConfig
  chain : RewardReader
  /-- The chain is run by its own consensus. -/
  notParlia : chainConfig.parlia = false

variable {ξ : Type}

def Processor.environment (p : Processor ξ) (header : Header) : Environment ξ :=
  ⟨p.lib, p.interpreter, p.chainConfig, Config.zero, p.author, header⟩

def processTx (env : Environment ξ) (bhash : Hash) (index : Nat) (tx : Transaction) :
    Action (BlockState ξ) ProcessError (Option Receipt) := fun s =>
  match applyTransaction env tx { s with ibs := s.ibs.prepare (tx.hash env.lib) bhash index } with
  | (.ok result, t) => (.ok result.1, t)
  | (.error e, t) => (.error (.couldNotApply index e), t)

def processTxs (env : Environment ξ) (bhash : Hash) :
    Nat → List Transaction → Action (BlockState ξ) ProcessError (List Receipt)
  | _, [] => pure []
  | index, tx :: txs => do
      let receipt ← processTx env bhash index tx
      let receipts ← processTxs env bhash (index + 1) txs
      return receipt.toList ++ receipts

def payRewards (lib : Primitives) (pay : RewardMap) (s : IntraBlockState ξ) :
    IntraBlockState ξ :=
  { s with
    accounts := fun address =>
      match pay address with
      | none => s.accounts address
      | some amount =>
        let account := (s.accounts address).getD (newAccount lib)
        some { account with balance := account.balance + amount } }

/-- `Finalize`: pay the rewards of an epoch that ends here.  The sums that stay unpaid are
returned. -/
def finalize (p : Processor ξ) (fuel : Nat) (header : Header) :
    Action (BlockState ξ) ProcessError (Option RewardMap) := fun s =>
  match doReward p.conf header.number p.chain fuel with
  | .error e => (.error (.rewards e), s)
  | .ok (pay, unpaid) => (.ok unpaid, { s with ibs := payRewards p.lib pay s.ibs })

structure ProcessResult where
  receipts : List Receipt
  nopay : Option RewardMap
  usedGas : UInt64

def process (p : Processor ξ) (fuel : Nat) (header : Header) (bhash : Hash)
    (txs : List Transaction) : Action (BlockState ξ) ProcessError ProcessResult := do
  let receipts ← processTxs (p.environment header) bhash 0 txs
  let s ← get
  failIf (s.usedGas ≠ header.gasUsed) (.gasUsedMismatch s.usedGas header.gasUsed)
  let nopay ← finalize p fuel header
  return ⟨receipts, nopay, s.usedGas⟩

def Calm {σ α : Type} (x : Action σ TxError α) (s : σ) : Prop :=
  (x s).1 ≠ .error .panic

section Calm

variable {σ α β : Type} {s t : σ}

theorem calm_bind {x : Action σ TxError α} {f : α → Action σ TxError β} (hx : Calm x s)
    (hf : ∀ a t, x s = (.ok a, t) → Calm (f a) t) : Calm (x >>= f) s := by
  rcases bind_cases x f s with ⟨e, t, hxs, hresult⟩ | ⟨a, t, hxs, hresult⟩
  · rw [Calm, hresult]
    rw [Calm, hxs] at hx
    intro h
    cases h
    exact hx rfl
  · rw [Calm, hresult]
    exact hf a t hxs

theorem calm_of_ok {x : Action σ TxError α} {a : α} (h : x s = (.ok a, t)) : Calm x s := by
  rw [Calm, h]
  intro hpanic
  cases hpanic

theorem calm_get {f : σ → Action σ TxError β} (hf : Calm (f s) s) : Calm (get >>= f) s :=
  hf

theorem calm_failIf {p : Prop} [Decidable p] {e : TxError} {f : Unit → Action σ TxError β}
    (he : e ≠ .panic) (hf : ¬ p → Calm (f ()) s) : Calm (failIf p e >>= f) s := by
  refine calm_bind ?_ ?_
  · intro h
    rw [failIf] at h
    split at h
    · cases h
      exact he rfl
    · cases h
  · rintro ⟨⟩ t ht
    obtain ⟨hp, rfl⟩ := failIf_eq_ok_iff.mp ht
    exact hf hp

theorem calm_lift {x : Except TxError α} {f : α → Action σ TxError β}
    (hx : x ≠ .error .panic) (hf : ∀ a, x = .ok a → Calm (f a) s) :
    Calm (lift x >>= f) s := by
  refine calm_bind hx ?_
  rintro a t ht
  obtain ⟨ha, rfl⟩ := lift_eq_ok_iff.mp ht
  exact hf a ha

end Calm

theorem bind_ne_panic {α β : Type} {x : Except TxError α} {f : α → Except TxError β}
    (hx : x ≠ .error .panic) (hf : ∀ a, f a ≠ .error .panic) : x >>= f ≠ .error .panic := by
  cases x with
  | error e =>
    intro h
    cases h
    exact hx rfl
  | ok a => exact hf a

theorem failIf_ne_panic {p : Prop} [Decidable p] {e : TxError} (he : e ≠ .panic) :
    (FallibleRuns.failIf p e : Except TxError Unit) ≠ .error .panic := by
  rw [FallibleRuns.failIf]
  split
  · intro h
    cases h
    exact he rfl
  · intro h
    cases h

theorem checkSender_ne_panic (lib : Primitives) (msg : Message) (s : IntraBlockState ξ) :
    checkSender lib msg s ≠ .error .panic :=
  bind_ne_panic (failIf_ne_panic (by simp)) fun _ =>
    bind_ne_panic (failIf_ne_panic (by simp)) fun _ =>
      bind_ne_panic (failIf_ne_panic (by simp)) fun _ => failIf_ne_panic (by simp)

theorem checkEip1559TxGasFeeCap_ne_panic (msg : Message) (baseFee : Uint256) :
    checkEip1559TxGasFeeCap msg baseFee ≠ .error .panic :=
  bind_ne_panic (failIf_ne_panic (by simp)) fun _ => failIf_ne_panic (by simp)

theorem charge_ne_panic (price count gas : UInt64) : charge price count gas ≠ .error .panic := by
  rw [charge]
  split
  · simp
  · simp

theorem intrinsicGas_ne_panic (data : List UInt8) (accessList : List AccessTuple)
    (isContractCreation isHomestead isEIP2028 isEIP3860 : Bool) :
    intrinsicGas data accessList isContractCreation isHomestead isEIP2028 isEIP3860 ≠
      .error .panic := by
  have hdata (start : UInt64) :
      dataGas data isContractCreation isEIP2028 isEIP3860 start ≠ .error .panic := by
    refine bind_ne_panic (charge_ne_panic _ _ _) fun _ => ?_
    refine bind_ne_panic (charge_ne_panic _ _ _) fun _ => ?_
    split
    · exact charge_ne_panic _ _ _
    · simp
  simp only [intrinsicGas]
  split
  · exact bind_ne_panic (by simp) fun _ => by simp [pure, Except.pure]
  · exact bind_ne_panic (hdata _) fun _ => by simp [pure, Except.pure]

variable {evm : EVM ξ} {msg : Message}

theorem calm_preCheck (gasBailout : Bool) (st : StateTransition ξ) :
    Calm (preCheck evm msg gasBailout) st := by
  refine calm_get (calm_lift ?_ fun _ _ => calm_lift ?_ fun _ _ => ?_)
  · split
    · exact checkSender_ne_panic _ _ _
    · simp
  · split
    · exact checkEip1559TxGasFeeCap_ne_panic _ _
    · simp
  · refine calm_get (calm_failIf (by simp) fun _ => calm_failIf (by simp) fun _ =>
      calm_failIf (by simp) fun _ => calm_failIf (by simp) fun _ =>
        calm_failIf (by simp) fun _ => ?_)
    exact calm_of_ok rfl

theorem calm_useIntrinsicGas (st : StateTransition ξ) : Calm (useIntrinsicGas evm msg) st := by
  refine calm_lift (intrinsicGas_ne_panic _ _ _ _ _ _) fun _ _ => calm_get ?_
  exact calm_failIf (by simp) fun _ => calm_of_ok rfl

theorem calm_transitionDb (msg : Message) (hparlia : evm.chainConfig.parlia = false)
    (gp : UInt64) (s : IntraBlockState ξ) : Calm (transitionDb evm msg true false) ⟨gp, 0, 0, s⟩ := by
  rw [transitionDb]
  refine calm_bind (calm_preCheck _ _) ?_
  rintro ⟨⟩ bought hpre
  refine calm_bind (calm_useIntrinsicGas _) ?_
  rintro ⟨⟩ charged huse
  obtain ⟨-, -, hbuy⟩ := preCheck_eq_ok_iff.mp hpre
  obtain ⟨-, -, -, hpool, rfl⟩ := buyGas_eq_ok_iff.mp hbuy
  have hlimit : msg.gasLimit ≤ gp := hpool (by rw [hparlia]; rfl)
  obtain ⟨gas, -, henough, rfl⟩ := useIntrinsicGas_eq_ok_iff.mp huse
  obtain ⟨result, executed, hexecute, hle, hgp, hinitial⟩ := execute_completes evm msg
    (false || evm.chainConfig.parlia) { purchase evm msg ⟨gp, 0, 0, s⟩ with
      gas := (purchase evm msg ⟨gp, 0, 0, s⟩).gas - gas }
  rw [Calm, bind_of_eq_ok hexecute]
  have hbought : (purchase evm msg ⟨gp, 0, 0, s⟩).gas = msg.gasLimit := UInt64.zero_add _
  rw [hbought] at henough hle
  have hinitial' : executed.initialGas = msg.gasLimit := hinitial
  have hgp' : executed.gp = gp - msg.gasLimit := by
    rw [hgp]
    exact if_neg (UInt64.not_lt.mpr hlimit)
  have hused : executed.gas ≤ executed.initialGas := by
    rw [hinitial']
    exact UInt64.le_trans hle (UInt64.sub_le henough)
  have hroom : executed.gp.toNat + executed.initialGas.toNat < 2 ^ 64 := by
    have hlt := gp.toNat_lt
    have hle : msg.gasLimit.toNat ≤ gp.toNat := UInt64.le_iff_toNat_le.mp hlimit
    rw [hinitial', hgp', UInt64.toNat_sub_of_le _ _ hlimit]
    omega
  obtain ⟨settled, hrefund⟩ := refundGas_completes evm msg
    (if evm.chainRules.isLondon then refundQuotientEIP3529 else refundQuotient) executed hused hroom
  rw [settleGas, bind_of_eq_ok hrefund]
  exact calm_of_ok rfl

variable {env : Environment ξ} {tx : Transaction}

theorem calm_applyTransaction (hparlia : env.chainConfig.parlia = false)
    (hdifficulty : env.header.difficulty.isSome) (hsender : tx.fromAddress.isSome)
    (s : BlockState ξ) : Calm (applyTransaction env tx) s := by
  obtain ⟨sender, hfrom⟩ := Option.isSome_iff_exists.mp hsender
  obtain ⟨difficulty, hsome⟩ := Option.isSome_iff_exists.mp hdifficulty
  have hmessage : ∃ msg evm, env.message tx = .ok (msg, evm) ∧
      evm.chainConfig = env.chainConfig := by
    rw [Environment.message, Environment.blockContext, hsome, Transaction.asMessage, hfrom]
    exact ⟨_, _, rfl, rfl⟩
  obtain ⟨msg, evm, hmessage, hconfig⟩ := hmessage
  rw [applyTransaction]
  refine calm_lift (by rw [hmessage]; simp) fun message hm => ?_
  rw [hmessage] at hm
  cases hm
  refine calm_bind ?_ fun _ _ _ => calm_of_ok rfl
  have htransition := calm_transitionDb msg (hconfig ▸ hparlia) s.gp s.ibs
  rw [Calm, applyMessage, zoom]
  exact htransition

variable {s t : BlockState ξ}

theorem isSome_receipt (hreceipts : env.config.noReceipts = false)
    {result : Option Receipt × List UInt8} (h : applyTransaction env tx s = (.ok result, t)) :
    result.1.isSome := by
  simp only [applyTransaction, bind_eq_ok_iff, pure_eq_ok_iff, get_eq_ok_iff] at h
  obtain ⟨_, _, -, _, _, -, _, _, -, _, _, -, rfl, -⟩ := h
  simp [hreceipts]

theorem processTx_eq_ok_iff {bhash : Hash} {index : Nat} {receipt : Option Receipt} :
    processTx env bhash index tx s = (.ok receipt, t) ↔ ∃ ret,
      applyTransaction env tx { s with ibs := s.ibs.prepare (tx.hash env.lib) bhash index } =
        (.ok (receipt, ret), t) := by
  rw [processTx]
  rcases applyTransaction env tx _ with ⟨e | ⟨r, ret⟩, u⟩
  · simp
  · simp

theorem length_of_processTxs (hreceipts : env.config.noReceipts = false) {bhash : Hash}
    {index : Nat} {txs : List Transaction} {receipts : List Receipt}
    (h : processTxs env bhash index txs s = (.ok receipts, t)) :
    receipts.length = txs.length := by
  induction txs generalizing index s t receipts with
  | nil =>
    obtain ⟨rfl, -⟩ := pure_eq_ok_iff.mp h
    rfl
  | cons tx txs ih =>
    simp only [processTxs, bind_eq_ok_iff, pure_eq_ok_iff] at h
    obtain ⟨receipt, m, hfirst, rest, u, hrest, rfl, -⟩ := h
    obtain ⟨ret, happly⟩ := processTx_eq_ok_iff.mp hfirst
    obtain ⟨r, hr⟩ := Option.isSome_iff_exists.mp (isSome_receipt hreceipts happly)
    obtain rfl : receipt = some r := hr
    simp [ih hrest]

def ProcessError.Reported : ProcessError → Prop
  | couldNotApply _ e => e ≠ .panic
  | gasUsedMismatch _ _ => True
  | rewards _ => False

theorem reported_of_processTxs (hparlia : env.chainConfig.parlia = false)
    (hdifficulty : env.header.difficulty.isSome) {bhash : Hash} {index : Nat}
    {txs : List Transaction} (hsenders : ∀ tx ∈ txs, tx.fromAddress.isSome) {e : ProcessError}
    (h : processTxs env bhash index txs s = (.error e, t)) :
    e.Reported := by
  induction txs generalizing index s t with
  | nil => cases h
  | cons tx txs ih =>
    have htail : ∀ tx ∈ txs, tx.fromAddress.isSome :=
      fun tx htx => hsenders tx (List.mem_cons_of_mem _ htx)
    rw [processTxs] at h
    rcases bind_cases (processTx env bhash index tx) _ s with
      ⟨e', m, hfirst, hresult⟩ | ⟨receipt, m, -, hresult⟩
    · rw [hresult] at h
      cases h
      rw [processTx] at hfirst
      have hcalm := calm_applyTransaction hparlia hdifficulty (hsenders tx List.mem_cons_self)
        { s with ibs := s.ibs.prepare (tx.hash env.lib) bhash index }
      rw [Calm] at hcalm
      revert hfirst hcalm
      rcases applyTransaction env tx _ with ⟨err | r, u⟩
      · intro hfirst hcalm
        cases hfirst
        intro herr
        exact hcalm (by rw [herr])
      · intro hfirst
        cases hfirst
    · rw [hresult] at h
      rcases bind_cases (processTxs env bhash (index + 1) txs) _ m with
        ⟨e', u, hrest, hresult'⟩ | ⟨receipts, u, -, hresult'⟩
      · rw [hresult'] at h
        cases h
        exact ih htail hrest
      · rw [hresult'] at h
        cases h

def WindowPresent (conf : AposConfig) (chain : RewardReader) (number : Uint256) : Prop :=
  ∃ fuel numbers,
    rewardNumbers (number - (newReward conf).rewardEpoch) fuel (number - 1) = some numbers ∧
      ∀ n ∈ numbers, (chain.getBlockByNumber n).isSome

variable {chain : RewardReader}

theorem numbers_of_rewardBlocks {endNumber : Uint256} {fuel : Nat} {currentNr : Uint256}
    {rewards result : RewardMap}
    (h : rewardBlocks chain endNumber fuel currentNr rewards = .ok result) :
    ∃ numbers, rewardNumbers endNumber fuel currentNr = some numbers ∧
      ∀ n ∈ numbers, (chain.getBlockByNumber n).isSome := by
  induction fuel generalizing currentNr rewards with
  | zero => cases h
  | succ fuel ih =>
    rw [rewardBlocks] at h
    rw [rewardNumbers]
    split at h
    · rename_i hend
      rw [if_pos hend]
      exact ⟨[], rfl, by simp⟩
    · rename_i hend
      rw [if_neg hend]
      cases hblock : chain.getBlockByNumber currentNr with
      | none =>
        rw [hblock] at h
        cases h
      | some b =>
        rw [hblock] at h
        obtain ⟨numbers, hnumbers, hpresent⟩ := ih h
        refine ⟨currentNr :: numbers, by rw [hnumbers]; rfl, ?_⟩
        rw [List.forall_mem_cons, hblock]
        exact ⟨rfl, hpresent⟩

theorem exists_foldlM_countNumber {numbers : List Uint256}
    (h : ∀ n ∈ numbers, (chain.getBlockByNumber n).isSome) (rewards : RewardMap) :
    ∃ result, numbers.foldlM (countNumber chain) rewards = .ok result := by
  induction numbers generalizing rewards with
  | nil => exact ⟨rewards, rfl⟩
  | cons n numbers ih =>
    rw [List.forall_mem_cons] at h
    obtain ⟨b, hb⟩ := Option.isSome_iff_exists.mp h.1
    obtain ⟨result, hresult⟩ := ih h.2 (countBlock chain rewards b)
    refine ⟨result, ?_⟩
    rw [List.foldlM_cons, countNumber, hb]
    exact hresult

theorem exists_doReward_iff {conf : AposConfig} {number : Uint256} :
    (∃ fuel result, doReward conf number chain fuel = .ok result) ↔
      (isRewardBlock conf number = true → WindowPresent conf chain number) := by
  constructor
  · rintro ⟨fuel, result, h⟩ hreward
    rw [doReward, if_pos hreward] at h
    obtain ⟨paid, haccumulated, -⟩ := FallibleRuns.bind_eq_ok_iff.mp h
    obtain ⟨rewards, hrewards, -⟩ := FallibleRuns.bind_eq_ok_iff.mp haccumulated
    exact ⟨fuel, numbers_of_rewardBlocks hrewards⟩
  · intro h
    by_cases hreward : isRewardBlock conf number = true
    · obtain ⟨fuel, numbers, hnumbers, hpresent⟩ := h hreward
      obtain ⟨rewards, hrewards⟩ := exists_foldlM_countNumber hpresent fun _ => none
      rw [← rewardBlocks_eq_foldlM chain hnumbers] at hrewards
      refine ⟨fuel, ?_⟩
      rw [doReward, if_pos hreward, accumulateRewards, hrewards]
      exact ⟨_, rfl⟩
    · refine ⟨0, ?_⟩
      rw [doReward, if_neg hreward]
      exact ⟨_, rfl⟩

end N42.BlockProcessing
