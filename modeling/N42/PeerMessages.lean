import N42.BlockCodec

/-!
Which messages of a peer can be decoded at all: the decoders follow the pointers of nested
messages without looking, and have no answer to a transaction of an unknown type.
-/

namespace N42.PeerMessages

open FallibleRuns WordMessages HeaderCodec TransactionCodec BlockCodec

variable {α β : Type}

theorem isSome_bind_iff {x : Option α} {f : α → Option β} {P : Prop} (h : ∀ a, (f a).isSome ↔ P) :
    (x >>= f).isSome ↔ x.isSome ∧ P := by
  cases x with
  | none => simp
  | some a => simpa using h a

variable {convert : Option α → Option β}

theorem isSome_optionalField_iff {P : α → Prop} (h : ∀ m, (convert m).isSome ↔ Present P m)
    (m : Option α) :
    (optionalField convert m).isSome ↔ m = none ∨ Present P m := by
  cases m with
  | none => simp [optionalField]
  | some a => simp [optionalField, h, Present]

def Optional256 (m : Option H256) : Prop :=
  m = none ∨ Present H256.Complete m

/-- The fields that every transaction must have, and those it may have. -/
structure TxFieldsComplete (m : PbTransaction) : Prop where
  toAddress : m.toAddress = none ∨ Present H160.Complete m.toAddress
  fromAddress : Present H160.Complete m.fromAddress
  value : Present H256.Complete m.value
  v : Optional256 m.v
  r : Optional256 m.r
  s : Optional256 m.s

theorem isSome_decodeFields_iff (m : PbTransaction) :
    (decodeFields m).isSome ↔ TxFieldsComplete m := by
  have hdecoded : (decodeFields m).isSome ↔ (recipient m.toAddress).isSome ∧
      (convertH160toAddress m.fromAddress).isSome ∧ (convertH256ToUint256Int m.value).isSome ∧
      (optionalField convertH256ToUint256Int m.v).isSome ∧
      (optionalField convertH256ToUint256Int m.r).isSome ∧
      (optionalField convertH256ToUint256Int m.s).isSome ∧ True :=
    isSome_bind_iff fun _ => isSome_bind_iff fun _ => isSome_bind_iff fun _ =>
      isSome_bind_iff fun _ => isSome_bind_iff fun _ => isSome_bind_iff fun _ =>
        iff_of_true rfl trivial
  rw [hdecoded, recipient, Option.isSome_map,
    isSome_optionalField_iff isSome_convertH160toAddress_iff, isSome_convertH160toAddress_iff,
    isSome_convertH256ToUint256Int_iff, isSome_optionalField_iff isSome_convertH256ToUint256Int_iff,
    isSome_optionalField_iff isSome_convertH256ToUint256Int_iff,
    isSome_optionalField_iff isSome_convertH256ToUint256Int_iff]
  constructor
  · rintro ⟨hto, hfrom, hvalue, hv, hr, hs, -⟩
    exact ⟨hto, hfrom, hvalue, hv, hr, hs⟩
  · rintro ⟨hto, hfrom, hvalue, hv, hr, hs⟩
    exact ⟨hto, hfrom, hvalue, hv, hr, hs, trivial⟩

def TxKindComplete (m : PbTransaction) : Prop :=
  m.type = 0 ∧ Present H256.Complete m.gasPrice ∨ m.type = 1 ∧ Present H256.Complete m.gasPrice ∨
    m.type = 2 ∧ Present H256.Complete m.priorityFeePerGas ∧ Present H256.Complete m.feePerGas

theorem isSome_decodeKind_iff (m : PbTransaction) : (decodeKind m).isSome ↔ TxKindComplete m := by
  have hprice {f : ChainTypes.Uint256 → TxKind} :
      (convertH256ToUint256Int m.gasPrice >>= fun price => some (f price)).isSome ↔
        Present H256.Complete m.gasPrice := by
    rw [isSome_bind_iff fun _ => iff_of_true rfl trivial, and_true,
      isSome_convertH256ToUint256Int_iff]
  have hfees {f : ChainTypes.Uint256 → ChainTypes.Uint256 → TxKind} :
      (convertH256ToUint256Int m.priorityFeePerGas >>= fun tip =>
        convertH256ToUint256Int m.feePerGas >>= fun cap => some (f tip cap)).isSome ↔
        Present H256.Complete m.priorityFeePerGas ∧ Present H256.Complete m.feePerGas := by
    rw [isSome_bind_iff fun _ => isSome_bind_iff fun _ => iff_of_true rfl trivial, and_true,
      isSome_convertH256ToUint256Int_iff, isSome_convertH256ToUint256Int_iff]
  rw [TxKindComplete, decodeKind]
  split
  · rename_i h0
    exact hprice.trans (by simp [h0])
  · rename_i h0
    split
    · rename_i h1
      exact hprice.trans (by simp [h1])
    · rename_i h1
      split
      · rename_i h2
        exact hfees.trans (by simp [h2])
      · rename_i h2
        simp [h0, h1, h2]

/-- A transaction message that is decoded: its nested messages are complete, its type is
known, and it is not a signed access list transaction. -/
structure TxComplete (m : PbTransaction) : Prop where
  fields : TxFieldsComplete m
  kind : TxKindComplete m
  hash : Optional256 m.hash
  copyable : m.type = 1 → m.v = none ∧ m.r = none ∧ m.s = none

theorem optionalField_eq_none_iff {m : Option α} {x : Option β}
    (h : optionalField convert m = some x) : x = none ↔ m = none := by
  cases m with
  | none =>
    cases h
    simp
  | some a =>
    obtain ⟨b, -, rfl⟩ := Option.map_eq_some_iff.mp h
    simp

theorem txType_of_decodeKind {m : PbTransaction} {kind : TxKind} (h : decodeKind m = some kind) :
    kind.txType = m.type := by
  rw [decodeKind] at h
  split at h
  · rename_i h0
    obtain ⟨price, -, h⟩ := Option.bind_eq_some_iff.mp h
    cases h
    exact h0.symm
  · split at h
    · rename_i h1
      obtain ⟨price, -, h⟩ := Option.bind_eq_some_iff.mp h
      cases h
      exact h1.symm
    · split at h
      · rename_i h2
        obtain ⟨tip, -, h⟩ := Option.bind_eq_some_iff.mp h
        obtain ⟨cap, -, h⟩ := Option.bind_eq_some_iff.mp h
        cases h
        exact h2.symm
      · cases h

theorem signature_of_decodeFields {m : PbTransaction} {fields : TxFields}
    (h : decodeFields m = some fields) :
    (fields.v = none ↔ m.v = none) ∧ (fields.r = none ↔ m.r = none) ∧
      (fields.s = none ↔ m.s = none) := by
  simp only [decodeFields, Option.bind_eq_bind, Option.bind_eq_some_iff, Option.pure_def,
    Option.some.injEq] at h
  obtain ⟨_, -, _, -, _, -, v, hv, r, hr, s, hs, rfl⟩ := h
  exact ⟨optionalField_eq_none_iff hv, optionalField_eq_none_iff hr, optionalField_eq_none_iff hs⟩

theorem isSome_fromProtoMessage_iff (m : PbTransaction) :
    (TransactionCodec.fromProtoMessage m).isSome ↔ TxComplete m := by
  have hdata : (txDataFromProtoMessage m).isSome ↔ TxKindComplete m ∧ TxFieldsComplete m ∧
      Optional256 m.hash := by
    have hbinds : (txDataFromProtoMessage m).isSome ↔ (decodeKind m).isSome ∧
        (decodeFields m).isSome ∧ (convertH256ToHash m.hash).isSome ∧ True :=
      isSome_bind_iff fun _ => isSome_bind_iff fun _ => isSome_bind_iff fun _ =>
        iff_of_true rfl trivial
    rw [hbinds, and_true, isSome_decodeKind_iff, isSome_decodeFields_iff,
      isSome_convertH256ToHash_iff, Optional256]
  have hcopy {tx : TxData} (htx : txDataFromProtoMessage m = some tx) :
      tx.Copyable ↔ (m.type = 1 → m.v = none ∧ m.r = none ∧ m.s = none) := by
    simp only [txDataFromProtoMessage, Option.bind_eq_bind, Option.bind_eq_some_iff,
      Option.pure_def, Option.some.injEq] at htx
    obtain ⟨kind, hkind, fields, hfields, -, -, rfl⟩ := htx
    obtain ⟨hv, hr, hs⟩ := signature_of_decodeFields hfields
    rw [TxData.Copyable, txType_of_decodeKind hkind, hv, hr, hs]
  rw [TransactionCodec.fromProtoMessage]
  cases htx : txDataFromProtoMessage m with
  | none =>
    refine iff_of_false (by simp) fun hm => ?_
    have hsome := hdata.mpr ⟨hm.kind, hm.fields, hm.hash⟩
    rw [htx] at hsome
    cases hsome
  | some tx =>
    obtain ⟨hkind, hfields, hhash⟩ := hdata.mp (by rw [htx]; rfl)
    rw [Option.bind_some, TxData.isSome_copy_iff, hcopy htx]
    exact ⟨fun h => ⟨hfields, hkind, hhash, h⟩, TxComplete.copyable⟩

/-- A header message that is decoded.  Only hashes may be absent. -/
structure HeaderComplete (m : PbHeader) : Prop where
  parentHash : Optional256 m.parentHash
  coinbase : Present H160.Complete m.coinbase
  root : Optional256 m.root
  txHash : Optional256 m.txHash
  receiptHash : Optional256 m.receiptHash
  difficulty : Present H256.Complete m.difficulty
  number : Present H256.Complete m.number
  baseFee : Present H256.Complete m.baseFee
  signature : Present H768.Complete m.signature
  bloom : Present H2048.Complete m.bloom
  mixDigest : Optional256 m.mixDigest

theorem isSome_headerFromProtoMessage_iff (m : PbHeader) :
    (Header.fromProtoMessage m).isSome ↔ HeaderComplete m := by
  have hbinds : (Header.fromProtoMessage m).isSome ↔ (convertH256ToHash m.parentHash).isSome ∧
      (convertH160toAddress m.coinbase).isSome ∧ (convertH256ToHash m.root).isSome ∧
      (convertH256ToHash m.txHash).isSome ∧ (convertH256ToHash m.receiptHash).isSome ∧
      (convertH256ToUint256Int m.difficulty).isSome ∧
      (convertH256ToUint256Int m.number).isSome ∧ (convertH256ToUint256Int m.baseFee).isSome ∧
      (convertH768ToSignature m.signature).isSome ∧ (convertH2048ToBloom m.bloom).isSome ∧
      (convertH256ToHash m.mixDigest).isSome ∧ True :=
    isSome_bind_iff fun _ => isSome_bind_iff fun _ => isSome_bind_iff fun _ =>
      isSome_bind_iff fun _ => isSome_bind_iff fun _ => isSome_bind_iff fun _ =>
        isSome_bind_iff fun _ => isSome_bind_iff fun _ => isSome_bind_iff fun _ =>
          isSome_bind_iff fun _ => isSome_bind_iff fun _ => iff_of_true rfl trivial
  simp only [hbinds, isSome_convertH256ToHash_iff, isSome_convertH160toAddress_iff,
    isSome_convertH256ToUint256Int_iff, isSome_convertH768ToSignature_iff,
    isSome_convertH2048ToBloom_iff]
  constructor
  · rintro ⟨hparent, hcoinbase, hroot, htx, hreceipt, hdifficulty, hnumber, hbaseFee,
      hsignature, hbloom, hmix, -⟩
    exact ⟨hparent, hcoinbase, hroot, htx, hreceipt, hdifficulty, hnumber, hbaseFee,
      hsignature, hbloom, hmix⟩
  · rintro ⟨hparent, hcoinbase, hroot, htx, hreceipt, hdifficulty, hnumber, hbaseFee,
      hsignature, hbloom, hmix⟩
    exact ⟨hparent, hcoinbase, hroot, htx, hreceipt, hdifficulty, hnumber, hbaseFee,
      hsignature, hbloom, hmix, trivial⟩

def VerifierComplete (m : PbVerifier) : Prop :=
  Present H160.Complete m.address ∧ Present H384.Complete m.publicKey

def RewardComplete (m : PbReward) : Prop :=
  Present H160.Complete m.address ∧ Present H256.Complete m.amount

theorem isSome_verifyFromProtoMessage_iff (m : PbVerifier) :
    (Verify.fromProtoMessage m).isSome ↔ VerifierComplete m := by
  have hbinds : (Verify.fromProtoMessage m).isSome ↔ (convertH160toAddress m.address).isSome ∧
      (convertH384ToPublicKey m.publicKey).isSome ∧ True :=
    isSome_bind_iff fun _ => isSome_bind_iff fun _ => iff_of_true rfl trivial
  rw [hbinds, and_true, isSome_convertH160toAddress_iff, isSome_convertH384ToPublicKey_iff,
    VerifierComplete]

theorem isSome_rewardFromProtoMessage_iff (m : PbReward) :
    (Reward.fromProtoMessage m).isSome ↔ RewardComplete m := by
  have hbinds : (Reward.fromProtoMessage m).isSome ↔ (convertH160toAddress m.address).isSome ∧
      (convertH256ToUint256Int m.amount).isSome ∧ True :=
    isSome_bind_iff fun _ => isSome_bind_iff fun _ => iff_of_true rfl trivial
  rw [hbinds, and_true, isSome_convertH160toAddress_iff, isSome_convertH256ToUint256Int_iff,
    RewardComplete]

structure BodyComplete (m : PbBody) : Prop where
  txs : ∀ tx ∈ m.txs, TxComplete tx
  verifiers : ∀ verifier ∈ m.verifiers, VerifierComplete verifier
  rewards : ∀ reward ∈ m.rewards, RewardComplete reward

theorem isSome_bodyFromProtoMessage_iff (m : PbBody) :
    (Body.fromProtoMessage m).isSome ↔ BodyComplete m := by
  have hbinds : (Body.fromProtoMessage m).isSome ↔
      (m.txs.mapM TransactionCodec.fromProtoMessage).isSome ∧
      (m.verifiers.mapM Verify.fromProtoMessage).isSome ∧
      (m.rewards.mapM Reward.fromProtoMessage).isSome ∧ True :=
    isSome_bind_iff fun _ => isSome_bind_iff fun _ => isSome_bind_iff fun _ =>
      iff_of_true rfl trivial
  simp only [hbinds, isSome_mapM_iff, isSome_fromProtoMessage_iff,
    isSome_verifyFromProtoMessage_iff, isSome_rewardFromProtoMessage_iff]
  constructor
  · rintro ⟨htxs, hverifiers, hrewards, -⟩
    exact ⟨htxs, hverifiers, hrewards⟩
  · rintro ⟨htxs, hverifiers, hrewards⟩
    exact ⟨htxs, hverifiers, hrewards, trivial⟩

def BlockComplete (m : PbBlock) : Prop :=
  Present HeaderComplete m.header ∧ Present BodyComplete m.body

theorem isSome_bind_present_iff {decode : α → Option β} {P : α → Prop}
    (h : ∀ a, (decode a).isSome ↔ P a) (m : Option α) :
    (m.bind decode).isSome ↔ Present P m := by
  cases m with
  | none => simp [Present]
  | some a => simp [Present, h]

theorem isSome_blockFromProtoMessage_iff (m : PbBlock) :
    (blockFromProtoMessage m).isSome ↔ BlockComplete m := by
  have hbinds : (blockFromProtoMessage m).isSome ↔ (m.header.bind Header.fromProtoMessage).isSome ∧
      (m.body.bind Body.fromProtoMessage).isSome ∧ True :=
    isSome_bind_iff fun _ => isSome_bind_iff fun _ => iff_of_true rfl trivial
  rw [hbinds, and_true, isSome_bind_present_iff isSome_headerFromProtoMessage_iff,
    isSome_bind_present_iff isSome_bodyFromProtoMessage_iff, BlockComplete]

end N42.PeerMessages
