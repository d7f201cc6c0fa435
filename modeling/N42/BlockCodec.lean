import N42.ChainDatabase
import N42.HeaderCodec
import N42.TransactionCodec

/-!
The protobuf encodings of block bodies and of blocks.
-/

namespace N42.BlockCodec

open ChainTypes BlockHeader Transactions ChainDatabase HeaderSealing
open FallibleRuns WordMessages HeaderCodec TransactionCodec

structure PbVerifier where
  publicKey : Option H384
  address : Option H160

def Verify.toProtoMessage (v : Verify) : PbVerifier where
  address := some (convertAddressToH160 v.address)
  publicKey := some (convertPublicKeyToH384 v.publicKey)

def Verify.fromProtoMessage (m : PbVerifier) : Option Verify := do
  let address ← convertH160toAddress m.address
  let publicKey ← convertH384ToPublicKey m.publicKey
  return { address, publicKey }

structure PbReward where
  amount : Option H256
  address : Option H160

def Reward.toProtoMessage (r : Reward) : PbReward where
  address := some (convertAddressToH160 r.address)
  amount := some (writeUint256 r.amount)

def Reward.fromProtoMessage (m : PbReward) : Option Reward := do
  let address ← convertH160toAddress m.address
  let amount ← convertH256ToUint256Int m.amount
  return { address, amount }

structure Body where
  txs : List TxData
  verifiers : List Verify
  rewards : List Reward
deriving DecidableEq

structure PbBody where
  txs : List PbTransaction
  verifiers : List PbVerifier
  rewards : List PbReward

def Body.toProtoMessage (lib : Primitives) (b : Body) : Option PbBody := do
  let txs ← b.txs.mapM fun tx => tx.toProtoMessage lib
  return {
    txs
    verifiers := b.verifiers.map Verify.toProtoMessage
    rewards := b.rewards.map Reward.toProtoMessage }

def Body.fromProtoMessage (m : PbBody) : Option Body := do
  let txs ← m.txs.mapM TransactionCodec.fromProtoMessage
  let verifiers ← m.verifiers.mapM Verify.fromProtoMessage
  let rewards ← m.rewards.mapM Reward.fromProtoMessage
  return { txs, verifiers, rewards }

structure PbBlock where
  header : Option PbHeader
  body : Option PbBody

/-- `Block.FromProtoMessage`; a missing header or body is a nil pointer. -/
def blockFromProtoMessage (m : PbBlock) : Option (Header × Body) := do
  let header ← m.header.bind Header.fromProtoMessage
  let body ← m.body.bind Body.fromProtoMessage
  return (header, body)

def Body.view (b : Body) : List Transaction × List Verify × List Reward :=
  (b.txs.map TxData.view, b.verifiers, b.rewards)

/-- The encoding of a body, sent and decoded again, has the same transactions, verifiers
and rewards in order. -/
def BodySurvives (lib : Primitives) (wire : Wire PbBody id) (b : Body) : Prop :=
  ∃ b', (orPanic (b.toProtoMessage lib) >>= fun m => wire.receive (wire.marshal m) >>=
    fun m => orPanic (Body.fromProtoMessage m)) = .ok b' ∧ b'.view = b.view

theorem Verify.fromProtoMessage_toProtoMessage (v : Verify) :
    Verify.fromProtoMessage (Verify.toProtoMessage v) = some v := by
  simp [Verify.fromProtoMessage, Verify.toProtoMessage]

theorem Reward.fromProtoMessage_toProtoMessage (r : Reward) :
    Reward.fromProtoMessage (Reward.toProtoMessage r) = some r := by
  simp [Reward.fromProtoMessage, Reward.toProtoMessage]

theorem Body.fromProtoMessage_mk (txs : List PbTransaction) (vs : List Verify)
    (rs : List Reward) :
    Body.fromProtoMessage ⟨txs, vs.map Verify.toProtoMessage, rs.map Reward.toProtoMessage⟩ =
      (txs.mapM TransactionCodec.fromProtoMessage).map fun txs => ⟨txs, vs, rs⟩ := by
  have hverifiers : (vs.map Verify.toProtoMessage).mapM Verify.fromProtoMessage = some vs :=
    mapM_map_eq_some fun v _ => Verify.fromProtoMessage_toProtoMessage v
  have hrewards : (rs.map Reward.toProtoMessage).mapM Reward.fromProtoMessage = some rs :=
    mapM_map_eq_some fun r _ => Reward.fromProtoMessage_toProtoMessage r
  simp only [Body.fromProtoMessage, hverifiers, hrewards, Option.bind_eq_bind,
    Option.bind_some, Option.pure_def]
  cases txs.mapM TransactionCodec.fromProtoMessage with
  | none => rfl
  | some txs => rfl

theorem bodySurvives_iff (lib : Primitives) (wire : Wire PbBody id) (b : Body) :
    BodySurvives lib wire b ↔ ∀ tx ∈ b.txs, tx.Plain ∧ tx.Copyable := by
  have hsent : (∀ tx ∈ b.txs, tx.Plain ∧ tx.Copyable) ↔ ∀ tx ∈ b.txs, SentAsMessage lib tx := by
    simp only [sentAsMessage_iff]
  rw [hsent]
  refine Iff.trans ?_ mapM_through_iff
  constructor
  · rintro ⟨b', hread, hview⟩
    obtain ⟨m, hm, hread⟩ := bind_eq_ok_iff.mp hread
    have hbody := orPanic_eq_ok_iff.mp hm
    simp only [Body.toProtoMessage, Option.bind_eq_bind, Option.bind_eq_some_iff,
      Option.pure_def, Option.some.injEq] at hbody
    obtain ⟨ms, hms, rfl⟩ := hbody
    rw [wire.receive_marshal] at hread
    have hdecoded := orPanic_eq_ok_iff.mp hread
    rw [id_eq, Body.fromProtoMessage_mk, Option.map_eq_some_iff] at hdecoded
    obtain ⟨ys, hys, rfl⟩ := hdecoded
    exact ⟨ms, ys, hms, hys, congrArg Prod.fst hview⟩
  · rintro ⟨ms, ys, hms, hys, hview⟩
    refine ⟨⟨ys, b.verifiers, b.rewards⟩, ?_, Prod.ext hview rfl⟩
    have hbody : b.toProtoMessage lib = some ⟨ms, b.verifiers.map Verify.toProtoMessage,
        b.rewards.map Reward.toProtoMessage⟩ := by
      rw [Body.toProtoMessage, hms]
      rfl
    have hdecoded := Body.fromProtoMessage_mk ms b.verifiers b.rewards
    rw [hys, Option.map_some] at hdecoded
    rw [hbody, bind_eq_ok_iff]
    refine ⟨_, rfl, ?_⟩
    rw [wire.receive_marshal]
    exact congrArg orPanic hdecoded

/-- A header and a body come back from their encodings exactly if the header has both its
numbers and no extra data that is empty without being nil, and all transactions of the body
survive their own encoding.  The copy of a header is always its own and has its hash. -/
theorem header_and_body_survive_iff (lib : Primitives) (wireHeader : Wire PbHeader canonHeader)
    (wireBody : Wire PbBody id) (h : Header) (b : Body) (s : HeldHeader) :
    HeaderSurvives wireHeader h ∧ BodySurvives lib wireBody b ∧ CopiedApart lib s ↔
      Encodable h ∧ ∀ tx ∈ b.txs, tx.Plain ∧ tx.Copyable := by
  rw [headerSurvives_iff, bodySurvives_iff]
  constructor
  · rintro ⟨hheader, hbody, -⟩
    exact ⟨hheader, hbody⟩
  · rintro ⟨hheader, hbody⟩
    exact ⟨hheader, hbody, copiedApart lib s⟩

/-- A header of a chain before the fork that brings the base fee cannot be encoded. -/
theorem header_without_base_fee_panics :
    (toyHeader 1 2 (toyAddress 1)).baseFee = none ∧
      Header.marshal (Wire.direct canonHeader) (toyHeader 1 2 (toyAddress 1)) = .error .panic :=
  ⟨rfl, rfl⟩

end N42.BlockCodec
