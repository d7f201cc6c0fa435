import N42.BlockValidation
import N42.ReorgCorrectness

/-!
Who is rewarded for a block.  The rewards of an epoch go to the addresses in the verifier
lists of its blocks; the block hash covers these lists no more than `ValidateBody` does.
-/

namespace N42.RewardBinding

open ChainTypes HeaderSealing ChainDatabase ChainReorg BlockValidation
open ReorgCorrectness

structure RewardReader where
  getBlockByNumber : Uint256 → Option Block
  /-- The reward for one block and the most that is paid for an epoch. -/
  getDepositInfo : Address → Option (Uint256 × Uint256)
  getAccountRewardUnpaid : Address → Option Uint256

structure RewardConfig where
  rewardLimit : Uint256
  rewardEpoch : Uint256

/-- A block that is missing is dereferenced all the same. -/
inductive RewardError where
  | panic
  | outOfFuel
deriving DecidableEq

abbrev RewardMap := Address → Option Uint256

def min256 (x y : Uint256) : Uint256 :=
  if y < x then y else x

def rewardVerifier (chain : RewardReader) (rewards : RewardMap) (verifier : Verify) :
    RewardMap :=
  match chain.getDepositInfo verifier.address with
  | none => rewards
  | some (low, max) =>
    Function.update rewards verifier.address
      (some (min256 ((rewards verifier.address).getD 0 + low) max))

def rewardBlocks (chain : RewardReader) (endNumber : Uint256) :
    Nat → Uint256 → RewardMap → Except RewardError RewardMap
  | 0, _, _ => .error .outOfFuel
  | fuel + 1, currentNr, rewards =>
    if currentNr < endNumber then .ok rewards
    else
      match chain.getBlockByNumber currentNr with
      | none => .error .panic
      | some b =>
        rewardBlocks chain endNumber fuel (currentNr - 1)
          (b.verifiers.foldl (rewardVerifier chain) rewards)

def settle (r : RewardConfig) (amount : Uint256) : Uint256 × Uint256 :=
  if r.rewardLimit ≤ amount then (amount, 0) else (0, amount)

def accumulateRewards (r : RewardConfig) (number : Uint256) (chain : RewardReader)
    (fuel : Nat) : Except RewardError (RewardMap × RewardMap) := do
  let rewards ← rewardBlocks chain (number - r.rewardEpoch) fuel (number - 1) fun _ => none
  let total := fun address => (rewards address).map fun amount =>
    amount + (chain.getAccountRewardUnpaid address).getD 0
  return (fun address => (total address).map fun amount => (settle r amount).1,
    fun address => (total address).map fun amount => (settle r amount).2)

variable {κ σ : Type} {v : BlockValidator κ σ} {bc : BlockChain} {b : Block}

theorem accepts_of_same_keys {verifiers : List Verify} {rewards : List Reward}
    (hkeys : verifiers.map Verify.publicKey = b.verifiers.map Verify.publicKey)
    (h : Accepts v bc b) :
    Accepts v bc { b with verifiers := verifiers, rewards := rewards } := by
  obtain ⟨hpass, hlink⟩ := accepts_iff.mp h
  refine accepts_iff.mpr ⟨?_, hlink.unknown, hlink.txHash, hlink.parent⟩
  rw [hkeys]
  exact hpass

/-- A block that passes fixes whom it rewards: every other block with its hash that
passes has the same verifiers and rewards, and each of its verifiers has deposited the key
it is listed with. -/
def BodyBound (v : BlockValidator κ σ) (bc : BlockChain)
    (deposits : Address → Option PublicKey) (b : Block) : Prop :=
  Accepts v bc b → (∀ b', Accepts v bc b' → b'.hash v.lib = b.hash v.lib →
      b'.verifiers = b.verifiers ∧ b'.rewards = b.rewards) ∧
    ∀ verifier ∈ b.verifiers, deposits verifier.address = some verifier.publicKey

/-- No block that passes fixes whom it rewards. -/
theorem bodyBound_iff_rejected (v : BlockValidator κ σ) (bc : BlockChain)
    (deposits : Address → Option PublicKey) (b : Block) :
    BodyBound v bc deposits b ↔ ¬ Accepts v bc b := by
  constructor
  · intro hbound haccepts
    have hpadded : Accepts v bc { b with rewards := ⟨default, 1⟩ :: b.rewards } :=
      accepts_of_same_keys rfl haccepts
    have hrewards := ((hbound haccepts).1 _ hpadded rfl).2
    exact List.cons_ne_self _ _ hrewards
  · intro hrejected haccepts
    exact absurd haccepts hrejected

def toyBls : Bls PublicKey Signature where
  publicKeyFromBytes := some
  signatureFromBytes := some
  verify sig _ msg := sig.bytes.take 32 = msg.bytes
  aggregateVerify sig _ msg := sig.bytes.take 32 = msg.bytes
  aggregateSignatures sigs := sigs.headD default

def toyValidator : BlockValidator PublicKey Signature where
  lib := toyPrimitives
  bls := toyBls
  beijingBlock := some 0
  deriveSha _ := default

def verifiedBlock (address : Address) : Block :=
  { toyNew with verifiers := [⟨address, default⟩] }

def toyRewards (b : Block) : RewardReader where
  getBlockByNumber number := if number = 1 then some b else none
  getDepositInfo _ := some (3, 10)
  getAccountRewardUnpaid _ := none

def toyPayment (b : Block) (address : Address) : Option Uint256 :=
  match accumulateRewards ⟨1, 1⟩ 2 (toyRewards b) 2 with
  | .ok (payments, _) => payments address
  | .error _ => none

theorem accepts_verifiedBlock (address : Address) :
    Accepts toyValidator (toyChain []) (verifiedBlock address) := by
  have hkeys : KeysPass toyValidator toyNew.header [default] :=
    ⟨[default], by decide, by decide +kernel⟩
  have hlink : Linkable toyValidator (toyChain []) toyNew :=
    ⟨by decide +kernel, by decide, by decide +kernel⟩
  exact accepts_iff.mpr ⟨hkeys, hlink.unknown, hlink.txHash, hlink.parent⟩

/-- The verifier of a block is replaced on the way: the hash stays, both blocks pass, and
the reward goes to the second address instead of the first. -/
theorem relayed_block_pays_other_verifier :
    Accepts toyValidator (toyChain []) (verifiedBlock (toyAddress 1)) ∧
      Accepts toyValidator (toyChain []) (verifiedBlock (toyAddress 2)) ∧
      (verifiedBlock (toyAddress 1)).hash toyPrimitives =
        (verifiedBlock (toyAddress 2)).hash toyPrimitives ∧
      (verifiedBlock (toyAddress 1)).verifiers ≠ (verifiedBlock (toyAddress 2)).verifiers ∧
      toyPayment (verifiedBlock (toyAddress 1)) (toyAddress 1) = some 3 ∧
      toyPayment (verifiedBlock (toyAddress 1)) (toyAddress 2) = none ∧
      toyPayment (verifiedBlock (toyAddress 2)) (toyAddress 1) = none ∧
      toyPayment (verifiedBlock (toyAddress 2)) (toyAddress 2) = some 3 :=
  ⟨accepts_verifiedBlock _, accepts_verifiedBlock _, rfl, by decide, by decide +kernel,
    by decide +kernel, by decide +kernel, by decide +kernel⟩

end N42.RewardBinding
