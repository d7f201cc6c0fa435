import N42.HeaderVerification
import N42.SignerLiveness

/-!
The header of a new block: `prepareWork` of the miner and `Prepare` of the engine, against
the rules by which the engine verifies headers.
-/

namespace N42.HeaderPreparation

open ByteStrings FallibleRuns ChainTypes BlockHeader FeeMarket
open HeaderSealing VotingSnapshot SealVerification SnapshotReplay
open HeaderVerification SignerLiveness

def calcGasLimit (parentGasLimit desiredLimit : UInt64) : UInt64 :=
  let delta := parentGasLimit / gasLimitBoundDivisor - 1
  let desiredLimit := if desiredLimit < minGasLimit then minGasLimit else desiredLimit
  if parentGasLimit < desiredLimit then
    let limit := parentGasLimit + delta
    if limit > desiredLimit then desiredLimit else limit
  else if parentGasLimit > desiredLimit then
    let limit := parentGasLimit - delta
    if limit < desiredLimit then desiredLimit else limit
  else parentGasLimit

structure GenerateParams where
  timestamp : UInt64
  parentHash : Hash
  coinbase : Address

structure Miner where
  gasCeil : UInt64
  signer : Address
  proposals : List (Address × Bool)

inductive WorkError where
  | missingParent
  | fee (e : FeeError)
  | apos (e : AposError)
deriving DecidableEq

/-- The base fee is only left out of a header by leaving it nil; here it is zero before
the London fork.  A fee that does not fit 256 bits is cut off. -/
def newHeader (lib : Primitives) (rules : ChainConfig) (gasCeil : UInt64)
    (param : GenerateParams) (parent : Header) : Except FeeError Header := do
  let number := parent.number + 1
  let number64 := UInt64.ofNat number.toNat
  let london := rules.isLondon number64
  let baseFee ← (if london then calcBaseFee rules parent else .ok 0 : Except FeeError Nat)
  let gasLimit :=
    if london && !rules.isLondon parent.number64 then
      calcGasLimit (parent.gasLimit * elasticityMultiplier) gasCeil
    else calcGasLimit parent.gasLimit gasCeil
  return {
    parentHash := parent.hash lib
    coinbase := param.coinbase
    root := default
    txHash := default
    receiptHash := default
    bloom := default
    difficulty := some 0
    number := number
    gasLimit := gasLimit
    gasUsed := 0
    time := if parent.time ≥ param.timestamp then parent.time + 1 else param.timestamp
    mixDigest := default
    nonce := default
    extra := Slice.nil
    baseFee := some (BitVec.ofNat 256 baseFee)
    signature := default }

/-- `prepareWork` on the head of the chain, or on the block that is asked for; `snap` is the
snapshot of the parent that `Prepare` finds. -/
def prepareWork (lib : Primitives) (config : Config) (rules : ChainConfig) (chain : ChainReader)
    (getBlockByHash : Hash → Option Header) (current : Header) (miner : Miner)
    (snap : Snapshot) (random : Nat) (now : UInt64) (param : GenerateParams) :
    Except WorkError Header := do
  let parent ← match if param.parentHash = default then some current
      else getBlockByHash param.parentHash with
    | none => .error .missingParent
    | some parent => .ok parent
  let header ← (newHeader lib rules miner.gasCeil param parent).mapError .fee
  (prepare config snap miner.signer miner.proposals random
    (chain.getHeader header.parentHash (header.number64 - 1)) now header).mapError .apos

section GasLimit

theorem minGasLimit_toNat : minGasLimit.toNat = 5000 := rfl

theorem toNat_gasDelta {parentGasLimit : UInt64} (hmin : minGasLimit ≤ parentGasLimit) :
    (parentGasLimit / gasLimitBoundDivisor - 1).toNat = parentGasLimit.toNat / 1024 - 1 := by
  have hfloor := UInt64.le_iff_toNat_le.mp hmin
  rw [minGasLimit_toNat] at hfloor
  rw [UInt64.toNat_sub_of_le, UInt64.toNat_div]
  · rfl
  · rw [UInt64.le_iff_toNat_le, UInt64.toNat_div]
    change 1 ≤ parentGasLimit.toNat / 1024
    omega

theorem calcGasLimit_cases (parentGasLimit desiredLimit : UInt64)
    (hmin : minGasLimit ≤ parentGasLimit) :
    ∃ step : Nat, step < parentGasLimit.toNat / 1024 ∧
      ((calcGasLimit parentGasLimit desiredLimit).toNat = (parentGasLimit.toNat + step) % 2 ^ 64 ∨
        (calcGasLimit parentGasLimit desiredLimit).toNat = parentGasLimit.toNat - step) := by
  have hfloor := UInt64.le_iff_toNat_le.mp hmin
  rw [minGasLimit_toNat] at hfloor
  have hlt := parentGasLimit.toNat_lt
  have hdelta := toNat_gasDelta hmin
  rw [calcGasLimit]
  dsimp only
  generalize (if desiredLimit < minGasLimit then minGasLimit else desiredLimit) = desired
  have hdesired := desired.toNat_lt
  split
  · rename_i hup
    rw [UInt64.lt_iff_toNat_lt] at hup
    split
    · rename_i hover
      rw [gt_iff_lt, UInt64.lt_iff_toNat_lt, UInt64.toNat_add, hdelta] at hover
      refine ⟨desired.toNat - parentGasLimit.toNat, ?_, .inl ?_⟩ <;> omega
    · refine ⟨parentGasLimit.toNat / 1024 - 1, by omega, .inl ?_⟩
      rw [UInt64.toNat_add, hdelta]
  · split
    · rename_i hdown
      rw [gt_iff_lt, UInt64.lt_iff_toNat_lt] at hdown
      have hsub : (parentGasLimit - (parentGasLimit / gasLimitBoundDivisor - 1)).toNat =
          parentGasLimit.toNat - (parentGasLimit.toNat / 1024 - 1) := by
        rw [UInt64.toNat_sub_of_le, hdelta]
        rw [UInt64.le_iff_toNat_le, hdelta]
        omega
      split
      · rename_i hunder
        rw [UInt64.lt_iff_toNat_lt, hsub] at hunder
        refine ⟨parentGasLimit.toNat - desired.toNat, ?_, .inr ?_⟩ <;> omega
      · exact ⟨parentGasLimit.toNat / 1024 - 1, by omega, .inr hsub⟩
    · exact ⟨0, by omega, .inr (by omega)⟩

theorem verifyGaslimit_calcGasLimit {parentGasLimit : UInt64}
    (hmin : minGasLimit ≤ parentGasLimit) (desiredLimit : UInt64) :
    verifyGaslimit parentGasLimit (calcGasLimit parentGasLimit desiredLimit) = .ok () ↔
      minGasLimit ≤ calcGasLimit parentGasLimit desiredLimit := by
  obtain ⟨step, hstep, hcases⟩ := calcGasLimit_cases parentGasLimit desiredLimit hmin
  have hlt := parentGasLimit.toNat_lt
  have hlimit := (calcGasLimit parentGasLimit desiredLimit).toNat_lt
  have hnear : min (gasDistance parentGasLimit (calcGasLimit parentGasLimit desiredLimit))
      (2 ^ 64 - gasDistance parentGasLimit (calcGasLimit parentGasLimit desiredLimit)) <
      parentGasLimit.toNat / 1024 := by
    rw [gasDistance]
    omega
  rw [verifyGaslimit_eq_ok_iff, UInt64.le_iff_toNat_le, minGasLimit_toNat]
  exact and_iff_right hnear

end GasLimit

section Parent

variable {lib : Primitives} {config : Config} {rules : ChainConfig}

theorem minGasLimit_le_of_verifyGaslimit {parentGasLimit gasLimit : UInt64}
    (h : verifyGaslimit parentGasLimit gasLimit = .ok ()) : minGasLimit ≤ gasLimit := by
  rw [UInt64.le_iff_toNat_le, minGasLimit_toNat]
  exact (verifyGaslimit_eq_ok_iff.mp h).2

/-- What is known of the gas limit and the base fee of a header that was accepted. -/
structure Solid (rules : ChainConfig) (h : Header) : Prop where
  min : minGasLimit ≤ h.gasLimit
  max : h.gasLimit ≤ maxGasLimit
  baseFee : rules.isLondon h.number64 = true → h.baseFee.isSome

theorem solid_of_verifyHeader {fakeDiff : Bool} {now : UInt64} {chain : ChainReader}
    {st st' : EngineState} {fuel : Nat} {h : Header} {parents : List Header}
    (hnumber : h.number64 ≠ 0)
    (haccepted : verifyHeader lib config rules fakeDiff now chain st fuel h parents =
      some (.ok (), st')) : Solid rules h := by
  obtain ⟨hfields, ⟨parent, -, hparent⟩, -⟩ := (verifyHeader_eq_ok_iff hnumber).mp haccepted
  have hmax : h.gasLimit ≤ maxGasLimit := by
    simp only [verifyFields, seq_eq_ok_iff, failIf_eq_ok_iff] at hfields
    obtain ⟨-, -, -, -, -, -, -, -, -, hrest⟩ := hfields
    split at hrest
    · exact UInt64.not_lt.mp (failIf_eq_ok_iff.mp (seq_eq_ok_iff.mp hrest).2)
    · exact UInt64.not_lt.mp (failIf_eq_ok_iff.mp (seq_eq_ok_iff.mp hrest).2)
  rw [verifyParent] at hparent
  split at hparent
  · cases hparent
  · split at hparent
    · cases hparent
    · split at hparent
      · rename_i hbefore
        split at hparent
        · cases hparent
        · refine ⟨minGasLimit_le_of_verifyGaslimit (mapError_eq_ok_iff.mp hparent), hmax, ?_⟩
          intro hlondon
          simp [hlondon] at hbefore
      · have hfee := mapError_eq_ok_iff.mp hparent
        obtain ⟨hgas, hfee⟩ := seq_eq_ok_iff.mp hfee
        refine ⟨minGasLimit_le_of_verifyGaslimit hgas, hmax, fun _ => ?_⟩
        cases hbaseFee : h.baseFee with
        | none =>
          rw [hbaseFee] at hfee
          cases hfee
        | some baseFee => rfl

def parentLimit (rules : ChainConfig) (parent : Header) : UInt64 :=
  if !rules.isLondon parent.number64 then parent.gasLimit * elasticityMultiplier
  else parent.gasLimit

theorem minGasLimit_le_parentLimit {parent : Header} (h : Solid rules parent) :
    minGasLimit ≤ parentLimit rules parent := by
  rw [parentLimit]
  split
  · have hmin := UInt64.le_iff_toNat_le.mp h.min
    have hmax := UInt64.le_iff_toNat_le.mp h.max
    rw [minGasLimit_toNat] at hmin
    change parent.gasLimit.toNat ≤ 0x7fffffffffffffff at hmax
    rw [UInt64.le_iff_toNat_le, UInt64.toNat_mul, minGasLimit_toNat]
    change 5000 ≤ parent.gasLimit.toNat * 2 % 2 ^ 64
    omega
  · exact h.min

end Parent

/-- A header after its block was filled and sealed: the roots, the bloom filter, the gas
used, the mix digest and the end of the extra data are set, the rest is as prepared. -/
structure Completed (prepared h : Header) : Prop where
  parentHash : h.parentHash = prepared.parentHash
  coinbase : h.coinbase = prepared.coinbase
  difficulty : h.difficulty = prepared.difficulty
  number : h.number = prepared.number
  gasLimit : h.gasLimit = prepared.gasLimit
  gasUsed : h.gasUsed ≤ h.gasLimit
  time : h.time = prepared.time
  nonce : h.nonce = prepared.nonce
  baseFee : h.baseFee = prepared.baseFee
  length : h.extra.bytes.length = prepared.extra.bytes.length
  unsealed : Header.unsealedExtra h = Header.unsealedExtra prepared

section Prepared

variable {lib : Primitives} {config : Config} {rules : ChainConfig} {snap : Snapshot}
  {signer : Address} {proposals : List (Address × Bool)} {random : Nat} {parent header prepared h : Header}
  {now : UInt64}

theorem prepare_eq_ok (hok : prepare config snap signer proposals random (some parent) now header =
      .ok prepared) :
    ∃ vote turn, (config.isCheckpoint header.number64 = true → vote = none) ∧
      snap.inturn (snap.number + 1) signer = .ok turn ∧
      prepared.extra.bytes = prepareExtra config snap header ∧
      parent.time + config.period ≤ prepared.time ∧ prepared = { header with
        coinbase := ((vote : Option (Address × Bool)).map Prod.fst).getD default
        nonce := if (vote.map Prod.snd).getD false then nonceAuthVote else nonceDropVote
        difficulty := some (if turn then diffInTurn else diffNoTurn)
        extra := prepared.extra
        mixDigest := default
        time := prepared.time } := by
  rw [prepare] at hok
  obtain ⟨difficulty, hdifficulty, hok⟩ := bind_eq_ok_iff.mp hok
  obtain ⟨turn, hturn, hvalue⟩ := bind_eq_ok_iff.mp hdifficulty
  split at hok
  case isFalse => cases hok
  case isTrue hextra =>
    cases hok
    cases hvalue
    refine ⟨_, turn, fun hcheckpoint => if_pos hcheckpoint, hturn, rfl, ?_, rfl⟩
    dsimp only
    split
    · rename_i hearly
      exact UInt64.le_of_lt hearly
    · exact UInt64.le_refl _

theorem newHeader_eq_ok {gasCeil : UInt64} {param : GenerateParams}
    (hok : newHeader lib rules gasCeil param parent = .ok header) :
    header.parentHash = parent.hash lib ∧ header.number = parent.number + 1 ∧
      header.extra.bytes = [] ∧
      ∃ fee, (if rules.isLondon header.number64 then calcBaseFee rules parent else .ok 0) =
          .ok fee ∧ header.baseFee = some (BitVec.ofNat 256 fee) ∧
        header.gasLimit = if rules.isLondon header.number64 && !rules.isLondon parent.number64
          then calcGasLimit (parent.gasLimit * elasticityMultiplier) gasCeil
          else calcGasLimit parent.gasLimit gasCeil := by
  obtain ⟨fee, hfee, hok⟩ := bind_eq_ok_iff.mp hok
  cases hok
  exact ⟨rfl, rfl, rfl, fee, hfee, rfl, rfl⟩

theorem prepareExtra_eq (hextra : header.extra.bytes = []) :
    prepareExtra config snap header = List.replicate extraVanity 0 ++
      (if config.isCheckpoint header.number64 then concat snap.sortedSigners else []) ++
      List.replicate extraSeal 0 := by
  rw [prepareExtra, hextra, List.nil_append, List.take_of_length_le (by simp)]

end Prepared

end N42.HeaderPreparation
