import N42.ChainReorg

/-!
The checks that `ValidateBody` makes before a block is executed: the aggregated signature
of the verifiers, that the block is new, its transaction root and its parent.
-/

namespace N42.BlockValidation

open ByteStrings ChainTypes BlockHeader Transactions ChainDatabase
open ChainReorg StatefulActions StatefulActions.Action

abbrev PublicKey := FixedBytes 48

structure Bls (κ σ : Type) where
  publicKeyFromBytes : PublicKey → Option κ
  signatureFromBytes : Signature → Option σ
  verify : σ → κ → Hash → Bool
  aggregateVerify : σ → List κ → Hash → Bool
  aggregateSignatures : List σ → Signature

def Bls.fastAggregateVerify {κ σ : Type} (bls : Bls κ σ) (sig : σ) (keys : List κ)
    (msg : Hash) : Bool :=
  !keys.isEmpty && bls.aggregateVerify sig keys msg

structure BlockValidator (κ σ : Type) where
  lib : Primitives
  bls : Bls κ σ
  beijingBlock : Option Nat
  deriveSha : List Transaction → Hash

inductive ValidationError where
  | invalidPublicKey
  | invalidSignature
  | aggSignatureFailed
  | errKnownBlock
  | transactionRootMismatch (have_ want : Hash)
  | errUnknownAncestor
  | errPrunedAncestor
deriving DecidableEq

/-- `HasState`: the plain state belongs to the canonical chain only. -/
def hasState (bc : BlockChain) (hash : Hash) : Bool :=
  bc.chainDB.isCanonicalHash hash

def hasBlockAndState (lib : Primitives) (hash : Hash) (number : UInt64) (bc : BlockChain) :
    Bool × BlockChain :=
  match bc.getBlock hash number with
  | (none, bc) => (false, bc)
  | (some ref, bc) => (hasState bc (ref.block.hash lib), bc)

def hasBlock (bc : BlockChain) (hash : Hash) (number : UInt64) : Bool :=
  bc.blockCache.contains hash || (bc.chainDB.readBlock hash number).isSome

variable {κ σ : Type}

namespace BlockValidator

section

variable (v : BlockValidator κ σ)

def isBeijing (number : UInt64) : Bool :=
  isForked v.beijingBlock number

def publicKeys (keys : List PublicKey) : Option (List κ) :=
  keys.mapM v.bls.publicKeyFromBytes

/-- From the Beijing fork on the verifiers must have signed the state root. -/
def checkAggregate (header : Header) (keys : List κ) :
    Except ValidationError Unit :=
  if v.isBeijing header.number64 then
    match v.bls.signatureFromBytes header.signature with
    | none => .error .invalidSignature
    | some sig =>
      if v.bls.fastAggregateVerify sig keys header.root then .ok ()
      else .error .aggSignatureFailed
  else .ok ()

/-- A parent without state has been stored on a side chain, or is not known at all. -/
def checkParent (b : Block) :
    Action BlockChain ValidationError Unit := do
  let linked ← ofState (hasBlockAndState v.lib b.parentHash (b.number64 - 1))
  let bc ← get
  failIf (linked = false ∧ hasBlock bc b.parentHash (b.number64 - 1) = false) .errUnknownAncestor
  failIf (linked = false) .errPrunedAncestor

def validateBody (b : Block) :
    Action BlockChain ValidationError Unit := do
  let keys ← require .invalidPublicKey (v.publicKeys (b.verifiers.map Verify.publicKey))
  lift (v.checkAggregate b.header keys)
  let known ← ofState (hasBlockAndState v.lib (b.hash v.lib) b.number64)
  failIf (known = true) .errKnownBlock
  failIf (v.deriveSha b.transactions ≠ b.header.txHash)
    (.transactionRootMismatch (v.deriveSha b.transactions) b.header.txHash)
  v.checkParent b

end

end BlockValidator

open BlockValidator

variable {v : BlockValidator κ σ} {bc : BlockChain} {b : Block}

def Accepts (v : BlockValidator κ σ) (bc : BlockChain) (b : Block) : Prop :=
  ∃ t, v.validateBody b bc = (.ok (), t)

/-- The keys pass for a header, whoever they are said to belong to. -/
def KeysPass (v : BlockValidator κ σ) (header : Header) (keys : List PublicKey) : Prop :=
  ∃ decoded, v.publicKeys keys = some decoded ∧ v.checkAggregate header decoded = .ok ()

/-- The checks of a block that do not concern its verifiers. -/
structure Linkable (v : BlockValidator κ σ) (bc : BlockChain) (b : Block) : Prop where
  unknown : (hasBlockAndState v.lib (b.hash v.lib) b.number64 bc).1 = false
  txHash : v.deriveSha b.transactions = b.header.txHash
  parent : (hasBlockAndState v.lib b.parentHash (b.number64 - 1)
    (hasBlockAndState v.lib (b.hash v.lib) b.number64 bc).2).1 = true

theorem checkParent_eq_ok_iff {t : BlockChain} :
    v.checkParent b bc = (.ok (), t) ↔
      hasBlockAndState v.lib b.parentHash (b.number64 - 1) bc = (true, t) := by
  simp only [checkParent, bind_eq_ok_iff, ofState_eq_ok_iff, get_eq_ok_iff, failIf_eq_ok_iff]
  constructor
  · rintro ⟨linked, m, hlinked, _, _, ⟨rfl, rfl⟩, _, _, ⟨-, rfl⟩, hstate, rfl⟩
    rwa [Bool.not_eq_false _ |>.mp hstate] at hlinked
  · intro h
    exact ⟨true, t, h, t, t, ⟨rfl, rfl⟩, (), t, ⟨by simp, rfl⟩, by simp, rfl⟩

theorem accepts_iff : Accepts v bc b ↔
    KeysPass v b.header (b.verifiers.map Verify.publicKey) ∧ Linkable v bc b := by
  simp only [Accepts, validateBody, bind_eq_ok_iff, require_eq_ok_iff, lift_eq_ok_iff,
    ofState_eq_ok_iff, failIf_eq_ok_iff, checkParent_eq_ok_iff]
  constructor
  · rintro ⟨t, keys, _, ⟨hkeys, rfl⟩, _, _, ⟨hsig, rfl⟩, known, m, hknown, _, _, ⟨hnew, rfl⟩,
      _, _, ⟨htx, rfl⟩, hparent⟩
    obtain ⟨rfl, rfl⟩ := Prod.ext_iff.mp hknown
    exact ⟨⟨keys, hkeys, hsig⟩, by simpa using hnew, not_not.mp htx, congrArg Prod.fst hparent⟩
  · rintro ⟨⟨keys, hkeys, hsig⟩, hnew, htx, hparent⟩
    have hfalse : ¬ (hasBlockAndState v.lib (b.hash v.lib) b.number64 bc).1 = true := by
      rw [hnew]
      exact Bool.false_ne_true
    exact ⟨_, keys, bc, ⟨hkeys, rfl⟩, (), bc, ⟨hsig, rfl⟩, _, _, rfl, (), _,
      ⟨hfalse, rfl⟩, (), _, ⟨not_not.mpr htx, rfl⟩, Prod.ext hparent rfl⟩

theorem checkAggregate_eq_ok_iff {header : Header} {keys : List κ} :
    v.checkAggregate header keys = .ok () ↔ (v.isBeijing header.number64 = true → ∃ sig,
        v.bls.signatureFromBytes header.signature = some sig ∧
        v.bls.fastAggregateVerify sig keys header.root = true) := by
  unfold checkAggregate
  by_cases hfork : v.isBeijing header.number64 = true
  · rw [if_pos hfork]
    cases v.bls.signatureFromBytes header.signature with
    | none => simp [hfork]
    | some sig => simp [hfork]
  · simp [hfork]

end N42.BlockValidation
