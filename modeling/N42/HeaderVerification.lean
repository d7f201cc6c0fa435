import N42.SealVerification
import N42.SnapshotReplay

/-!
`verifyHeader`: the checks of a header on its own, against its parent, and against the
snapshot of its parent.
-/

namespace N42.HeaderVerification

open ByteStrings FallibleRuns ChainTypes BlockHeader FeeMarket
open HeaderSealing VotingSnapshot SealVerification SnapshotReplay

def maxGasLimit : UInt64 := 0x7fffffffffffffff

def checkDifficulty (h : Header) : Except AposError Unit :=
  match h.difficulty with
  | none => .error .panic
  | some difficulty =>
    if difficulty = 0 ∨ (difficulty ≠ diffInTurn ∧ difficulty ≠ diffNoTurn) then
      .error .errInvalidDifficulty
    else .ok ()

def verifyFields (config : Config) (now : UInt64) (h : Header) : Except AposError Unit := do
  let number := h.number64
  let checkpoint := config.isCheckpoint number
  let length := h.extra.bytes.length
  failIf (h.number = 0) .errUnknownBlock
  failIf (h.time > now) .blockInTheFuture
  failIf (checkpoint ∧ h.coinbase ≠ default) .errInvalidCheckpointBeneficiary
  failIf (h.nonce ≠ nonceAuthVote ∧ h.nonce ≠ nonceDropVote) .errInvalidVote
  failIf (checkpoint ∧ h.nonce ≠ nonceDropVote) .errInvalidCheckpointVote
  failIf (length < extraVanity) .errMissingVanity
  failIf (length < extraVanity + extraSeal) .errMissingSignature
  failIf (¬ checkpoint ∧ length - extraVanity - extraSeal ≠ 0) .errExtraSigners
  failIf (checkpoint ∧ (length - extraVanity - extraSeal) % 20 ≠ 0) .errInvalidCheckpointSigners
  if number > 0 then checkDifficulty h else .ok ()
  failIf (h.gasLimit > maxGasLimit) (.invalidGasLimit h.gasLimit maxGasLimit)

def parentOf (lib : Primitives) (chain : ChainReader) (h : Header) (parents : List Header) :
    Except AposError Header :=
  let parent := match parents.getLast? with
    | some parent => some parent
    | none => chain.getHeader h.parentHash (h.number64 - 1)
  match parent with
  | none => .error .errUnknownBlock
  | some parent =>
    if parent.number64 ≠ h.number64 - 1 ∨ parent.hash lib ≠ h.parentHash then
      .error .errUnknownBlock
    else .ok parent

def verifyParent (config : Config) (rules : ChainConfig) (parent h : Header) :
    Except AposError Unit :=
  if parent.time + config.period > h.time then .error .errInvalidTimestamp
  else if h.gasUsed > h.gasLimit then .error (.invalidGasUsed h.gasUsed h.gasLimit)
  else if !rules.isLondon h.number64 then
    match h.baseFee with
    | some baseFee => .error (.baseFeeBeforeFork baseFee)
    | none => (verifyGaslimit parent.gasLimit h.gasLimit).mapError .fee
  else (verifyEip1559Header rules parent h).mapError .fee

def verifySnapshot (lib : Primitives) (config : Config) (fakeDiff : Bool) (snap : VotingState)
    (h : Header) : Except AposError Unit :=
  let signersBytes := (h.extra.bytes.take (h.extra.bytes.length - extraSeal)).drop extraVanity
  if config.isCheckpoint h.number64 ∧ signersBytes ≠ concat snap.sortedSigners then
    .error .errMismatchingCheckpointSigners
  else verifySeal lib fakeDiff snap h

def verifyCascadingFields (lib : Primitives) (config : Config) (rules : ChainConfig)
    (fakeDiff : Bool) (chain : ChainReader) (st : EngineState) (fuel : Nat) (h : Header)
    (parents : List Header) : Option (Except AposError Unit × EngineState) :=
  if h.number64 = 0 then some (.ok (), st)
  else
    match parentOf lib chain h parents >>= fun parent => verifyParent config rules parent h with
    | .error e => some (.error e, st)
    | .ok () =>
      (snapshot lib config chain st fuel (h.number64 - 1) h.parentHash parents).map
        fun (snap, st) =>
          (snap >>= fun snap => verifySnapshot lib config fakeDiff snap.toVotingState h, st)

def verifyHeader (lib : Primitives) (config : Config) (rules : ChainConfig) (fakeDiff : Bool)
    (now : UInt64) (chain : ChainReader) (st : EngineState) (fuel : Nat) (h : Header)
    (parents : List Header) : Option (Except AposError Unit × EngineState) :=
  match verifyFields config now h with
  | .error e => some (.error e, st)
  | .ok () => verifyCascadingFields lib config rules fakeDiff chain st fuel h parents

variable {lib : Primitives} {config : Config} {h : Header}

theorem verifyFields_checkpoint {now : UInt64} (hfields : verifyFields config now h = .ok ())
    (hcheckpoint : config.isCheckpoint h.number64 = true) :
    h.coinbase = default ∧ h.nonce = nonceDropVote ∧
      extraVanity + extraSeal ≤ h.extra.bytes.length := by
  simp only [verifyFields, seq_eq_ok_iff, failIf_eq_ok_iff] at hfields
  obtain ⟨-, -, hcoinbase, -, hnonce, -, hseal, -⟩ := hfields
  refine ⟨?_, ?_, Nat.not_lt.mp hseal⟩
  · by_contra hne
    exact hcoinbase ⟨hcheckpoint, hne⟩
  · by_contra hne
    exact hnonce ⟨hcheckpoint, hne⟩

theorem verifySnapshot_ok {fakeDiff : Bool} {snap : VotingState}
    (hsnap : verifySnapshot lib config fakeDiff snap h = .ok ()) :
    verifySeal lib fakeDiff snap h = .ok () ∧ (config.isCheckpoint h.number64 = true →
        (h.extra.bytes.take (h.extra.bytes.length - extraSeal)).drop extraVanity =
          concat snap.sortedSigners) := by
  rw [verifySnapshot] at hsnap
  split at hsnap
  · cases hsnap
  · rename_i hlist
    refine ⟨hsnap, ?_⟩
    intro hcheckpoint
    by_contra hne
    exact hlist ⟨hcheckpoint, hne⟩

theorem checkpointSigners_eq {snap : VotingState}
    (hlength : extraVanity + extraSeal ≤ h.extra.bytes.length)
    (hlist : (h.extra.bytes.take (h.extra.bytes.length - extraSeal)).drop extraVanity =
      concat snap.sortedSigners) :
    checkpointSigners h = .ok snap.sortedSigners := by
  have hbytes : h.extra.bytes.length = 97 + snap.sortedSigners.length * 20 := by
    have hcount := congrArg List.length hlist
    rw [concat_length, List.length_drop, List.length_take] at hcount
    simp only [extraVanity, extraSeal] at hlength hcount
    omega
  have hcount : ((h.extra.bytes.length : Int) - extraVanity - extraSeal).tdiv 20 =
      snap.sortedSigners.length := by
    have hroom : (h.extra.bytes.length : Int) - extraVanity - extraSeal =
        snap.sortedSigners.length * 20 := by
      rw [hbytes]
      simp only [extraVanity, extraSeal]
      omega
    rw [hroom, Int.mul_tdiv_cancel _ (by decide)]
  have hdrop : h.extra.bytes.drop extraVanity =
      concat snap.sortedSigners ++ h.extra.bytes.drop (h.extra.bytes.length - extraSeal) := by
    rw [← hlist, ← List.drop_append_of_le_length, List.take_append_drop]
    rw [List.length_take]
    simp only [extraVanity, extraSeal] at hlength ⊢
    omega
  simp only [checkpointSigners, hcount, hdrop]
  rw [if_neg (by omega), Int.toNat_natCast, chunks_concat]

theorem verifyHeader_eq_ok_iff {rules : ChainConfig} {fakeDiff : Bool} {now : UInt64}
    {chain : ChainReader} {st st' : EngineState} {fuel : Nat} {parents : List Header}
    (hnumber : h.number64 ≠ 0) :
    verifyHeader lib config rules fakeDiff now chain st fuel h parents = some (.ok (), st') ↔
      verifyFields config now h = .ok () ∧ (∃ parent, parentOf lib chain h parents = .ok parent ∧
        verifyParent config rules parent h = .ok ()) ∧
      ∃ snap, snapshot lib config chain st fuel (h.number64 - 1) h.parentHash parents =
          some (.ok snap, st') ∧
        verifySnapshot lib config fakeDiff snap.toVotingState h = .ok () := by
  constructor
  · intro hok
    rw [verifyHeader] at hok
    split at hok
    · cases hok
    · rename_i hfields
      rw [verifyCascadingFields, if_neg hnumber] at hok
      split at hok
      · cases hok
      · rename_i hparent
        obtain ⟨⟨result, st''⟩, hcall, hout⟩ := Option.map_eq_some_iff.mp hok
        obtain ⟨hsnap, rfl⟩ := Prod.mk.inj hout
        obtain ⟨snap, rfl, hverify⟩ := bind_eq_ok_iff.mp hsnap
        exact ⟨hfields, bind_eq_ok_iff.mp hparent, snap, hcall, hverify⟩
  · rintro ⟨hfields, hparent, snap, hcall, hverify⟩
    rw [verifyHeader, hfields]
    dsimp only
    rw [verifyCascadingFields, if_neg hnumber, bind_eq_ok_iff.mpr hparent, hcall]
    dsimp only [Option.map_some]
    rw [bind_eq_ok_iff.mpr ⟨snap, rfl, hverify⟩]

end N42.HeaderVerification
