import N42.BlockProcessing
import N42.PeerMessages

/-!
What a node does with a block message of a peer: decoding, `ValidateBody`, `Process` and
`ValidateState`.  The messages on which it returns are told apart from those on which it
panics.
-/

namespace N42.PeerBlocks

open ChainTypes BlockHeader Transactions ChainDatabase ChainReorg
open MessageCalls StatefulActions StatefulActions.Action TransactionExecution
open RewardBinding (RewardMap)
open RewardWindows BlockValidation BlockProcessing HeaderCodec
open TransactionCodec BlockCodec PeerMessages

structure Node (ξ κ σ : Type) where
  validator : BlockValidator κ σ
  bc : BlockChain
  processor : Processor ξ
  state : IntraBlockState ξ
  createBloom : List Receipt → Bloom
  deriveReceipts : List Receipt → Hash
  intermediateRoot : IntraBlockState ξ → Hash

inductive StateError where
  | invalidGasUsed (remote used : UInt64)
  | invalidBloom (remote computed : Bloom)
  | invalidReceiptRoot (remote computed : Hash)
  | invalidMerkleRoot (remote computed : Hash)
  | panic
deriving DecidableEq

variable {ξ κ σ : Type}

/-- The warnings about the receipts can be written: every transaction has a receipt, and
every log in it a first topic. -/
def warns (txs : List Transaction) (receipts : List Receipt) : Bool :=
  (List.range txs.length).all fun i =>
    (receipts[i]?).elim false fun r => r.logs.all fun l => !l.topics.isEmpty

section

variable (node : Node ξ κ σ)

def validateState (b : Block) (s : IntraBlockState ξ) (receipts : List Receipt) (usedGas : UInt64) :
    Except StateError Unit :=
  let rbloom := node.createBloom receipts
  let receiptSha := node.deriveReceipts receipts
  let root := node.intermediateRoot s
  if b.header.gasUsed ≠ usedGas then .error (.invalidGasUsed b.header.gasUsed usedGas)
  else if rbloom ≠ b.header.bloom then .error (.invalidBloom b.header.bloom rbloom)
  else if receiptSha ≠ b.header.receiptHash then
    if warns b.transactions receipts then
      .error (.invalidReceiptRoot b.header.receiptHash receiptSha)
    else .error .panic
  else if b.header.root ≠ root then .error (.invalidMerkleRoot b.header.root root)
  else .ok ()

inductive ImportError where
  | panic
  | validation (err : ValidationError)
  | processing (err : ProcessError)
  | state (err : StateError)

def ImportError.Reported : ImportError → Prop
  | panic => False
  | validation _ => True
  | processing e => e.Reported
  | state e => e ≠ .panic

def Node.process (node : Node ξ κ σ) (fuel : Nat) (b : Block) :
    Except ProcessError ProcessResult × BlockState ξ :=
  BlockProcessing.process node.processor fuel b.header (b.hash node.validator.lib)
    b.transactions ⟨b.header.gasLimit, 0, node.state⟩

def importBlock (fuel : Nat) (b : Block) : Except ImportError Unit :=
  match (node.validator.validateBody b node.bc).1 with
  | .error e => .error (.validation e)
  | .ok () =>
    match node.process fuel b with
    | (.error e, _) => .error (.processing e)
    | (.ok result, t) =>
      (validateState node b t.ibs result.receipts result.usedGas).mapError .state

def decodedBlock (decoded : Header × Body) : Block where
  header := decoded.1
  transactions := decoded.2.txs.map TxData.view
  verifiers := decoded.2.verifiers
  rewards := decoded.2.rewards

def importMessage (fuel : Nat) (m : PbBlock) : Except ImportError Unit :=
  match blockFromProtoMessage m with
  | none => .error .panic
  | some decoded => importBlock node fuel (decodedBlock decoded)

def Returns (m : PbBlock) : Prop :=
  ∃ fuel, ∀ e, importMessage node fuel m = .error e → e.Reported

/-- If the block is executed: no block of the epoch it ends is missing, and receipts that
are not those of the header have topics in all their logs. -/
def Harmless (b : Block) : Prop :=
  ∀ receipts t, Accepts node.validator node.bc b →
    processTxs (node.processor.environment b.header) (b.hash node.validator.lib) 0
      b.transactions ⟨b.header.gasLimit, 0, node.state⟩ = (.ok receipts, t) →
    t.usedGas = b.header.gasUsed → (isRewardBlock node.processor.conf b.header.number = true →
      WindowPresent node.processor.conf node.processor.chain b.header.number) ∧
    (node.createBloom receipts = b.header.bloom →
      node.deriveReceipts receipts ≠ b.header.receiptHash →
      ∀ r ∈ receipts, ∀ l ∈ r.logs, l.topics ≠ [])

end

variable {receipts : List Receipt}

theorem warns_iff {txs : List Transaction} (h : receipts.length = txs.length) :
    warns txs receipts = true ↔ ∀ r ∈ receipts, ∀ l ∈ r.logs, l.topics ≠ [] := by
  simp only [warns, List.all_eq_true, List.mem_range, ← h]
  constructor
  · intro hall r hr l hl
    obtain ⟨i, hi, rfl⟩ := List.mem_iff_getElem.mp hr
    have hget := hall i hi
    rw [List.getElem?_eq_getElem hi, Option.elim_some, List.all_eq_true] at hget
    simpa using hget l hl
  · intro hall i hi
    rw [List.getElem?_eq_getElem hi, Option.elim_some, List.all_eq_true]
    intro l hl
    simpa using hall _ (List.getElem_mem hi) l hl

section Process

variable {p : Processor ξ} {fuel : Nat} {header : Header} {bhash : Hash}
  {txs : List Transaction} {s t : BlockState ξ} {receipts : List Receipt}

theorem process_of_error {e : ProcessError}
    (h : processTxs (p.environment header) bhash 0 txs s = (.error e, t)) :
    BlockProcessing.process p fuel header bhash txs s = (.error e, t) :=
  bind_of_eq_error h

section

variable (h : processTxs (p.environment header) bhash 0 txs s = (.ok receipts, t))
include h

theorem process_of_mismatch (hgas : t.usedGas ≠ header.gasUsed) :
    BlockProcessing.process p fuel header bhash txs s =
      (.error (.gasUsedMismatch t.usedGas header.gasUsed), t) := by
  rw [BlockProcessing.process, bind_of_eq_ok h, get_bind]
  exact bind_of_eq_error (by rw [failIf, if_pos hgas])

theorem process_of_gasUsed (hgas : t.usedGas = header.gasUsed) :
    BlockProcessing.process p fuel header bhash txs s =
      match doReward p.conf header.number p.chain fuel with
      | .error e => (.error (.rewards e), t)
      | .ok (pay, unpaid) =>
        (.ok ⟨receipts, unpaid, t.usedGas⟩, { t with ibs := payRewards p.lib pay t.ibs }) := by
  have hpass : (failIf (t.usedGas ≠ header.gasUsed)
      (.gasUsedMismatch t.usedGas header.gasUsed) : Action (BlockState ξ) ProcessError Unit) t =
        (.ok (), t) :=
    failIf_eq_ok_iff.mpr ⟨not_not.mpr hgas, rfl⟩
  rw [BlockProcessing.process, bind_of_eq_ok h, get_bind, bind_of_eq_ok hpass]
  cases hreward : doReward p.conf header.number p.chain fuel with
  | error e => exact bind_of_eq_error (by rw [finalize, hreward])
  | ok paid => exact bind_of_eq_ok (by rw [finalize, hreward])

end

end Process

variable {node : Node ξ κ σ} {b : Block}

theorem importBlock_of_accepts (h : Accepts node.validator node.bc b) (fuel : Nat) :
    importBlock node fuel b =
      match node.process fuel b with
      | (.error e, _) => .error (.processing e)
      | (.ok result, t) =>
        (validateState node b t.ibs result.receipts result.usedGas).mapError .state := by
  obtain ⟨bc, hbc⟩ := h
  rw [importBlock, hbc]

theorem importBlock_of_paid {t : BlockState ξ} {fuel : Nat} {paid : RewardMap × Option RewardMap}
    (haccepts : Accepts node.validator node.bc b)
    (hrun : processTxs (node.processor.environment b.header) (b.hash node.validator.lib) 0
      b.transactions ⟨b.header.gasLimit, 0, node.state⟩ = (.ok receipts, t))
    (hgas : t.usedGas = b.header.gasUsed)
    (hreward : doReward node.processor.conf b.header.number node.processor.chain fuel = .ok paid) :
    importBlock node fuel b =
      (validateState node b (payRewards node.processor.lib paid.1 t.ibs) receipts
        t.usedGas).mapError .state := by
  rw [importBlock_of_accepts haccepts, Node.process, process_of_gasUsed hrun hgas, hreward]

theorem validateState_ne_panic_iff (node : Node ξ κ σ) (s : IntraBlockState ξ) {usedGas : UInt64}
    (hgas : usedGas = b.header.gasUsed) (hlength : receipts.length = b.transactions.length) :
    validateState node b s receipts usedGas ≠ .error .panic ↔
      (node.createBloom receipts = b.header.bloom →
        node.deriveReceipts receipts ≠ b.header.receiptHash →
        ∀ r ∈ receipts, ∀ l ∈ r.logs, l.topics ≠ []) := by
  rw [← warns_iff hlength, validateState, if_neg (not_not.mpr hgas.symm)]
  by_cases hbloom : node.createBloom receipts = b.header.bloom
  · by_cases hsha : node.deriveReceipts receipts = b.header.receiptHash
    · simp only [hbloom, hsha, ne_eq, not_true, if_false]
      split
      · simp
      · simp
    · cases hwarns : warns b.transactions receipts with
      | false => simp [hbloom, hsha]
      | true => simp [hbloom, hsha]
  · simp [hbloom]

theorem importBlock_of_not_accepts (h : ¬ Accepts node.validator node.bc b) (fuel : Nat) :
    ∃ e, importBlock node fuel b = .error (.validation e) := by
  rw [importBlock]
  rcases hv : node.validator.validateBody b node.bc with ⟨e | ⟨⟩, bc⟩
  · exact ⟨e, rfl⟩
  · exact absurd ⟨bc, hv⟩ h

theorem harmless_of_reported {fuel : Nat}
    (h : ∀ e, importBlock node fuel b = .error e → e.Reported) : Harmless node b := by
  intro receipts t haccepts hrun hgas
  cases hreward : doReward node.processor.conf b.header.number node.processor.chain fuel with
  | error e =>
    rw [importBlock_of_accepts haccepts, Node.process, process_of_gasUsed hrun hgas, hreward] at h
    exact (h _ rfl).elim
  | ok paid =>
    refine ⟨exists_doReward_iff.mp ⟨fuel, paid, hreward⟩, ?_⟩
    rw [importBlock_of_paid haccepts hrun hgas hreward] at h
    refine (validateState_ne_panic_iff node (payRewards node.processor.lib paid.1 t.ibs) hgas
      (length_of_processTxs rfl hrun)).mp ?_
    intro hpanic
    exact h (.state .panic) (congrArg (Except.mapError _) hpanic) rfl

theorem reported_of_harmless (hdifficulty : b.header.difficulty.isSome)
    (hsenders : ∀ tx ∈ b.transactions, tx.fromAddress.isSome) (h : Harmless node b) :
    ∃ fuel, ∀ e, importBlock node fuel b = .error e → e.Reported := by
  by_cases haccepts : Accepts node.validator node.bc b
  · rcases hrun : processTxs (node.processor.environment b.header) (b.hash node.validator.lib) 0
      b.transactions ⟨b.header.gasLimit, 0, node.state⟩ with ⟨err | receipts, t⟩
    · refine ⟨0, fun e he => ?_⟩
      rw [importBlock_of_accepts haccepts, Node.process, process_of_error hrun] at he
      cases he
      exact reported_of_processTxs node.processor.notParlia hdifficulty hsenders hrun
    by_cases hgas : t.usedGas = b.header.gasUsed
    · obtain ⟨hwindow, htopics⟩ := h receipts t haccepts hrun hgas
      obtain ⟨fuel, paid, hreward⟩ := exists_doReward_iff.mpr hwindow
      refine ⟨fuel, fun e he => ?_⟩
      rw [importBlock_of_paid haccepts hrun hgas hreward] at he
      have hcalm := (validateState_ne_panic_iff node
        (payRewards node.processor.lib paid.1 t.ibs) hgas
        (length_of_processTxs rfl hrun)).mpr htopics
      generalize validateState node b _ receipts t.usedGas = result at he hcalm
      cases result with
      | error err =>
        cases he
        intro hpanic
        exact hcalm (congrArg Except.error hpanic)
      | ok u => cases he
    · refine ⟨0, fun e he => ?_⟩
      rw [importBlock_of_accepts haccepts, Node.process, process_of_mismatch hrun hgas] at he
      cases he
      exact trivial
  · obtain ⟨err, herr⟩ := importBlock_of_not_accepts haccepts 0
    refine ⟨0, fun e he => ?_⟩
    rw [herr] at he
    cases he
    exact trivial

theorem sender_of_fromProtoMessage {m : PbTransaction} {tx : TxData}
    (h : TransactionCodec.fromProtoMessage m = some tx) : tx.view.fromAddress.isSome := by
  obtain ⟨data, hdata, hcopy⟩ := Option.bind_eq_some_iff.mp h
  have hsender : data.view.fromAddress.isSome := by
    simp only [txDataFromProtoMessage, Option.bind_eq_bind, Option.bind_eq_some_iff,
      Option.pure_def, Option.some.injEq] at hdata
    obtain ⟨kind, -, fields, hfields, -, -, rfl⟩ := hdata
    simp only [decodeFields, Option.bind_eq_bind, Option.bind_eq_some_iff, Option.pure_def,
      Option.some.injEq] at hfields
    obtain ⟨_, -, _, -, _, -, _, -, _, -, _, -, rfl⟩ := hfields
    cases kind with
    | legacy gasPrice => rfl
    | accessList chainID gasPrice accesses => rfl
    | dynamicFee chainID gasTipCap gasFeeCap accesses => rfl
  rwa [TxData.view_copy hcopy]

theorem difficulty_of_fromProtoMessage {m : PbHeader} {header : Header}
    (h : Header.fromProtoMessage m = some header) : header.difficulty.isSome := by
  simp only [Header.fromProtoMessage, Option.bind_eq_bind, Option.bind_eq_some_iff,
    Option.pure_def, Option.some.injEq] at h
  obtain ⟨_, -, _, -, _, -, _, -, _, -, _, -, _, -, _, -, _, -, _, -, _, -, rfl⟩ := h
  rfl

theorem decoded_of_blockFromProtoMessage {m : PbBlock} {decoded : Header × Body}
    (h : blockFromProtoMessage m = some decoded) :
    (decodedBlock decoded).header.difficulty.isSome ∧
      ∀ tx ∈ (decodedBlock decoded).transactions, tx.fromAddress.isSome := by
  simp only [blockFromProtoMessage, Option.bind_eq_bind, Option.bind_eq_some_iff,
    Option.pure_def, Option.some.injEq] at h
  obtain ⟨header, ⟨mh, -, hheader⟩, body, ⟨mb, -, hbody⟩, rfl⟩ := h
  refine ⟨difficulty_of_fromProtoMessage hheader, ?_⟩
  simp only [Body.fromProtoMessage, Option.bind_eq_bind, Option.bind_eq_some_iff,
    Option.pure_def, Option.some.injEq] at hbody
  obtain ⟨txs, htxs, _, -, _, -, rfl⟩ := hbody
  intro view hview
  obtain ⟨tx, htx, rfl⟩ := List.mem_map.mp hview
  obtain ⟨mtx, -, hmtx⟩ := FallibleRuns.exists_of_mem_mapM htxs htx
  exact sender_of_fromProtoMessage hmtx

def toyMessage (type : UInt64) : PbTransaction where
  type := type
  nonce := 0
  gasPrice := some (WordMessages.writeUint256 1)
  gas := 21000
  feePerGas := none
  priorityFeePerGas := none
  value := some (WordMessages.writeUint256 1)
  data := []
  sign := []
  toAddress := none
  fromAddress := some (WordMessages.convertAddressToH160 default)
  chainID := 0
  hash := none
  r := none
  s := none
  v := none

end N42.PeerBlocks
