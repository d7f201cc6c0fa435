import N42.HeaderPreparation

/-!
Which of the headers that a miner prepares and an authorised signer seals are accepted.
-/

namespace N42.PreparedHeaders

open ByteStrings FallibleRuns ChainTypes BlockHeader FeeMarket
open HeaderSealing VotingSnapshot VotingSnapshot.VotingState SealVerification
open SnapshotReplay HeaderVerification SignerLiveness HeaderPreparation

variable {lib : Primitives} {config : Config} {rules : ChainConfig} {miner : Miner}
  {snap : Snapshot} {parent h : Header}

/-- A header that the miner has prepared on its parent and that was sealed by its signer, an
authorised one whose turn has come again. -/
structure Mined (lib : Primitives) (config : Config) (rules : ChainConfig) (miner : Miner)
    (snap : Snapshot) (parent h : Header) : Prop where
  number : parent.number.toNat + 1 < 2 ^ 64
  snapshot : snap.number = parent.number64
  prepared : ∃ chain getBlockByHash current random now param prepared,
    chain.getHeader (parent.hash lib) parent.number64 = some parent ∧
    (if param.parentHash = default then some current else getBlockByHash param.parentHash) =
      some parent ∧
    prepareWork lib config rules chain getBlockByHash current miner snap random now param =
      .ok prepared ∧ Completed prepared h
  signed : ecrecover lib h = .ok miner.signer
  authorised : miner.signer ∈ snap.signers
  fresh : seenRecently snap.toVotingState h.number64 miner.signer = false

def listed (config : Config) (snap : Snapshot) (h : Header) : List UInt8 :=
  if config.isCheckpoint h.number64 then concat snap.sortedSigners else []

structure Fields (lib : Primitives) (config : Config) (rules : ChainConfig) (miner : Miner)
    (snap : Snapshot) (parent h : Header) : Prop where
  parentHash : h.parentHash = parent.hash lib
  number : h.number = parent.number + 1
  coinbase : config.isCheckpoint h.number64 = true → h.coinbase = default
  nonce : h.nonce = nonceAuthVote ∨ h.nonce = nonceDropVote
  checkpointNonce : config.isCheckpoint h.number64 = true → h.nonce = nonceDropVote
  difficulty : ∃ turn, snap.inturn (snap.number + 1) miner.signer = .ok turn ∧
    h.difficulty = some (if turn then diffInTurn else diffNoTurn)
  unsealed : Header.unsealedExtra h = List.replicate extraVanity 0 ++ listed config snap h
  length : h.extra.bytes.length = extraVanity + (listed config snap h).length + extraSeal
  time : parent.time + config.period ≤ h.time
  gasUsed : h.gasUsed ≤ h.gasLimit
  baseFee : ∃ fee, (if rules.isLondon h.number64 then calcBaseFee rules parent else .ok 0) =
    .ok fee ∧ h.baseFee = some (BitVec.ofNat 256 fee)
  gasLimit : rules.isLondon h.number64 = true →
    h.gasLimit = calcGasLimit (parentLimit rules parent) miner.gasCeil

theorem number64_succ (hnumber : parent.number.toNat + 1 < 2 ^ 64)
    (hsucc : h.number = parent.number + 1) :
    h.number.toNat = parent.number.toNat + 1 ∧ h.number64 = parent.number64 + 1 := by
  have htoNat : h.number.toNat = parent.number.toNat + 1 := by
    rw [hsucc, BitVec.toNat_add]
    exact Nat.mod_eq_of_lt (hnumber.trans (by norm_num))
  refine ⟨htoNat, ?_⟩
  rw [Header.number64, Header.number64, htoNat, UInt64.ofNat_add]
  rfl

theorem Mined.fields (hmined : Mined lib config rules miner snap parent h) :
    Fields lib config rules miner snap parent h := by
  obtain ⟨chain, getBlockByHash, current, random, now, param, prepared, hchain, hfound, hwork,
    hcompleted⟩ := hmined.prepared
  rw [prepareWork, hfound] at hwork
  obtain ⟨found, hparent, hwork⟩ := bind_eq_ok_iff.mp hwork
  cases hparent
  obtain ⟨header, hheader, hprepare⟩ := bind_eq_ok_iff.mp hwork
  obtain ⟨hparentHash, hnumber, hextra, fee, hfee, hbaseFee, hgasLimit⟩ :=
    newHeader_eq_ok (mapError_eq_ok_iff.mp hheader)
  have hsucc := (number64_succ hmined.number hnumber).2
  have hback : header.number64 - 1 = parent.number64 := by
    rw [hsucc, UInt64.add_sub_cancel]
  rw [hparentHash, hback, hchain] at hprepare
  obtain ⟨vote, turn, hvote, hturn, hbytes, htime, hprepared⟩ :=
    prepare_eq_ok (mapError_eq_ok_iff.mp hprepare)
  rw [prepareExtra_eq hextra] at hbytes
  have hsame : h.number64 = header.number64 := by
    rw [Header.number64, Header.number64, hcompleted.number, hprepared]
  have hlength : h.extra.bytes.length = extraVanity + (listed config snap h).length + extraSeal := by
    rw [hcompleted.length, hbytes, listed, hsame]
    simp only [List.length_append, List.length_replicate]
  constructor
  · rw [hcompleted.parentHash, hprepared]
    exact hparentHash
  · rw [hcompleted.number, hprepared]
    exact hnumber
  · intro hcheckpoint
    rw [hcompleted.coinbase, hprepared, hvote (hsame ▸ hcheckpoint)]
    rfl
  · rw [hcompleted.nonce, hprepared]
    dsimp only
    split
    · exact .inl rfl
    · exact .inr rfl
  · intro hcheckpoint
    rw [hcompleted.nonce, hprepared, hvote (hsame ▸ hcheckpoint)]
    rfl
  · refine ⟨turn, hturn, ?_⟩
    rw [hcompleted.difficulty, hprepared]
  · rw [hcompleted.unsealed, Header.unsealedExtra, hbytes, listed, hsame]
    refine List.take_left' ?_
    simp only [List.length_append, List.length_replicate]
    omega
  · exact hlength
  · rw [hcompleted.time]
    exact htime
  · exact hcompleted.gasUsed
  · refine ⟨fee, hsame ▸ hfee, ?_⟩
    rw [hcompleted.baseFee, hprepared]
    exact hbaseFee
  · intro hlondon
    rw [hcompleted.gasLimit, hprepared]
    rw [hsame] at hlondon
    rw [hgasLimit, hlondon, Bool.true_and, parentLimit]
    cases rules.isLondon parent.number64 <;> rfl

theorem number64_ne_zero_of_verifyHeader {fakeDiff : Bool} {clock : UInt64} {chain : ChainReader}
    {st st' : EngineState} {fuel : Nat} {parents : List Header} (hlt : h.number.toNat < 2 ^ 64)
    (haccepted : verifyHeader lib config rules fakeDiff clock chain st fuel h parents =
      some (.ok (), st')) : h.number64 ≠ 0 := by
  intro hzero
  have hnumber : h.number = 0 := by
    apply BitVec.eq_of_toNat_eq
    have htoNat := congrArg UInt64.toNat hzero
    rwa [Header.number64, UInt64.toNat_ofNat_of_lt' hlt] at htoNat
  rw [verifyHeader] at haccepted
  have hrejected : verifyFields config clock h = .error .errUnknownBlock := by
    rw [verifyFields, failIf, if_pos hnumber]
    rfl
  rw [hrejected] at haccepted
  cases haccepted

theorem verifySeal_eq_ok {fakeDiff : Bool} {snap : VotingState} {signer : Address}
    (hnumber : h.number64 ≠ 0) (hsigned : ecrecover lib h = .ok signer)
    (hauthorised : signer ∈ snap.signers) (hfresh : seenRecently snap h.number64 signer = false)
    (hdifficulty : verifyDifficulty fakeDiff snap h signer = .ok ()) :
    verifySeal lib fakeDiff snap h = .ok () := by
  rw [verifySeal, if_neg hnumber]
  refine bind_eq_ok_iff.mpr ⟨signer, hsigned, ?_⟩
  rw [if_neg (not_not.mpr hauthorised), hfresh, if_neg (by decide), hdifficulty]

section Checks

variable (hfields : Fields lib config rules miner snap parent h)
  (hnumber : parent.number.toNat + 1 < 2 ^ 64)

include hfields hnumber

theorem number64_ne_zero : h.number64 ≠ 0 := by
  obtain ⟨htoNat, -⟩ := number64_succ hnumber hfields.number
  intro hzero
  have := congrArg UInt64.toNat hzero
  rw [Header.number64, htoNat, UInt64.toNat_ofNat_of_lt' hnumber] at this
  change parent.number.toNat + 1 = 0 at this
  omega

theorem verifyFields_iff {clock : UInt64} (hclock : h.time ≤ clock) :
    verifyFields config clock h = .ok () ↔ h.gasLimit ≤ maxGasLimit := by
  have hnonzero : h.number ≠ 0 := by
    intro hzero
    have hsucc := (number64_succ hnumber hfields.number).1
    rw [hzero] at hsucc
    change 0 = parent.number.toNat + 1 at hsucc
    omega
  have hpos : h.number64 > 0 := UInt64.pos_iff_ne_zero.mpr (number64_ne_zero hfields hnumber)
  obtain ⟨turn, -, hdifficulty⟩ := hfields.difficulty
  have hmeaningful : checkDifficulty h = .ok () := by
    rw [checkDifficulty, hdifficulty]
    cases turn <;> decide
  have hvote : ¬ (h.nonce ≠ nonceAuthVote ∧ h.nonce ≠ nonceDropVote) := by
    rintro ⟨hauth, hdrop⟩
    exact hfields.nonce.elim hauth hdrop
  have hlength : h.extra.bytes.length - extraVanity - extraSeal =
      (listed config snap h).length := by
    rw [hfields.length]
    omega
  have hlist : ¬ (¬ config.isCheckpoint h.number64 = true ∧ (listed config snap h).length ≠ 0) := by
    rintro ⟨hno, hne⟩
    rw [listed, if_neg hno] at hne
    exact hne rfl
  have hwhole : ¬ (config.isCheckpoint h.number64 = true ∧
      (listed config snap h).length % 20 ≠ 0) := by
    rintro ⟨hcheckpoint, hne⟩
    rw [listed, if_pos hcheckpoint, concat_length, Nat.mul_mod_left] at hne
    exact hne rfl
  have hlong : ¬ h.extra.bytes.length < extraVanity + extraSeal := by
    rw [hfields.length]
    omega
  have hbeneficiary : ¬ (config.isCheckpoint h.number64 = true ∧ h.coinbase ≠ default) :=
    fun ⟨hcheckpoint, hne⟩ => hne (hfields.coinbase hcheckpoint)
  have hcheckpointVote : ¬ (config.isCheckpoint h.number64 = true ∧ h.nonce ≠ nonceDropVote) :=
    fun ⟨hcheckpoint, hne⟩ => hne (hfields.checkpointNonce hcheckpoint)
  simp only [verifyFields, seq_eq_ok_iff, failIf_eq_ok_iff, hlength]
  rw [if_pos hpos, seq_eq_ok_iff, failIf_eq_ok_iff]
  constructor
  · rintro ⟨-, -, -, -, -, -, -, -, -, -, hgas⟩
    exact UInt64.not_lt.mp hgas
  · intro hgas
    exact ⟨hnonzero, UInt64.not_lt.mpr hclock, hbeneficiary, hvote, hcheckpointVote,
      by omega, hlong, hlist, hwhole, hmeaningful, UInt64.not_lt.mpr hgas⟩

omit hnumber in
/-- Against its parent, a mined header has to be after the London fork, its base fee has to
fit, and its gas limit must not have wrapped around. -/
theorem verifyParent_iff (hsolid : Solid rules parent) :
    verifyParent config rules parent h = .ok () ↔ rules.isLondon h.number64 = true ∧
        (∃ fee, calcBaseFee rules parent = .ok fee ∧ fee < 2 ^ 256) ∧ minGasLimit ≤ h.gasLimit := by
  have htime : ¬ parent.time + config.period > h.time := UInt64.not_lt.mpr hfields.time
  have hused : ¬ h.gasUsed > h.gasLimit := UInt64.not_lt.mpr hfields.gasUsed
  obtain ⟨fee, hfee, hbaseFee⟩ := hfields.baseFee
  rw [verifyParent, if_neg htime, if_neg hused]
  cases hlondon : rules.isLondon h.number64 with
  | false =>
    rw [hbaseFee]
    simp
  | true =>
    rw [hlondon, if_pos rfl] at hfee
    have hgas := verifyGaslimit_calcGasLimit (minGasLimit_le_parentLimit hsolid) miner.gasCeil
    rw [← hfields.gasLimit hlondon] at hgas
    have hsame : (BitVec.ofNat 256 fee).toNat ≠ fee ↔ ¬ fee < 2 ^ 256 := by
      constructor
      · exact fun hne hlt => hne (Nat.mod_eq_of_lt hlt)
      · intro hge heq
        omega
    simp only [Bool.not_true, Bool.false_eq_true, if_false, mapError_eq_ok_iff, true_and]
    rw [verifyEip1559Header, hbaseFee, hfee]
    rw [seq_eq_ok_iff, ← parentLimit, hgas]
    change _ ∧ (if (BitVec.ofNat 256 fee).toNat ≠ fee then Except.error _ else .ok ()) = _ ↔ _
    simp only [hsame, Except.ok.injEq, exists_eq_left']
    constructor
    · rintro ⟨hmin, hfits⟩
      split at hfits
      · cases hfits
      · rename_i hlt
        exact ⟨not_not.mp hlt, hmin⟩
    · rintro ⟨hlt, hmin⟩
      exact ⟨hmin, if_neg (not_not.mpr hlt)⟩

theorem verifySnapshot_of_fields (fakeDiff : Bool) (hsnap : snap.number = parent.number64)
    (hsigned : ecrecover lib h = .ok miner.signer) (hauthorised : miner.signer ∈ snap.signers)
    (hfresh : seenRecently snap.toVotingState h.number64 miner.signer = false) :
    verifySnapshot lib config fakeDiff snap.toVotingState h = .ok () := by
  obtain ⟨-, hsucc⟩ := number64_succ hnumber hfields.number
  have hlist : ¬ (config.isCheckpoint h.number64 = true ∧
      (h.extra.bytes.take (h.extra.bytes.length - extraSeal)).drop extraVanity ≠
        concat snap.sortedSigners) := by
    rintro ⟨hcheckpoint, hne⟩
    apply hne
    have hunsealed := hfields.unsealed
    rw [Header.unsealedExtra] at hunsealed
    rw [hunsealed, List.drop_left' List.length_replicate, listed, if_pos hcheckpoint]
  obtain ⟨turn, hturn, hdifficulty⟩ := hfields.difficulty
  rw [hsnap, ← hsucc] at hturn
  have hverify : verifyDifficulty fakeDiff snap.toVotingState h miner.signer = .ok () := by
    rw [verifyDifficulty]
    split
    · rfl
    · rw [hturn, hdifficulty]
      cases turn <;> rfl
  rw [verifySnapshot, if_neg hlist]
  exact verifySeal_eq_ok (number64_ne_zero hfields hnumber) hsigned hauthorised hfresh hverify

end Checks

section Toys

section

variable (london : Bool)

def toyRules : ChainConfig :=
  { ChainConfig.unforked with londonBlock := if london then some 0 else none }

def toySigner : Address := toyAddress 1

def toyRoot : Header :=
  { toyHeader 0 1 default toySigner.bytes with
    gasLimit := 30000
    baseFee := if london then some 8 else none }

def toyParent : Header :=
  { toyHeader 1 2 toySigner with
    parentHash := (toyRoot london).hash toyPrimitives
    gasLimit := 30000
    time := 8
    baseFee := if london then some 7 else none }

def toyChild : Header :=
  { toyHeader 2 2 toySigner with
    parentHash := (toyParent london).hash toyPrimitives
    gasLimit := 30000
    time := 16
    baseFee := some (if london then 7 else 0) }

def toyNewHeader : Header :=
  { toyChild london with
    difficulty := some 0
    time := 9
    extra := Slice.nil }

def toyPrepared : Header :=
  { toyChild london with
    extra := Slice.make (List.replicate extraVanity 0 ++ [] ++ List.replicate extraSeal 0)
      (by simp [extraVanity, extraSeal]) }

def toySnapshot (h : Header) : Snapshot where
  signers := [toySigner].toFinset
  recents := ∅
  votes := []
  tally := ∅
  number := h.number64
  hash := h.hash toyPrimitives

def toyChain (h : Header) : ChainReader where
  getHeader hash number :=
    if hash = h.hash toyPrimitives ∧ number = h.number64 then some h else none
  getHeaderByNumber _ := none

theorem getHeader_toyChain (h : Header) :
    (toyChain h).getHeader (h.hash toyPrimitives) h.number64 = some h := by
  simp [toyChain]

def toyEngine (h : Header) : EngineState :=
  ⟨(∅ : Finmap fun _ : Hash => Snapshot).insert (h.hash toyPrimitives) (toySnapshot h), ∅⟩

def toyMiner : Miner where
  gasCeil := 30000
  signer := toySigner
  proposals := []

theorem snapshot_toyEngine (chain : ChainReader) (h : Header) (parents : List Header) :
    ∃ st', snapshot toyPrimitives (Config.new 8 100) chain (toyEngine h) 1 h.number64
      (h.hash toyPrimitives) parents = some (.ok (toySnapshot h), st') := by
  have hanchor : findAnchor (Config.new 8 100) chain (toyEngine h) h.number64
      (h.hash toyPrimitives) ([] : List Header).length = some (.found (toySnapshot h)) := by
    rw [findAnchor, toyEngine, Finmap.lookup_insert]
  rw [snapshot, walk_stop toyPrimitives parents 0 hanchor]
  exact ⟨_, rfl⟩

theorem inturn_toySnapshot (h : Header) (number : UInt64) :
    (toySnapshot h).inturn number toySigner = .ok true := by
  have hsorted : (toySnapshot h).sortedSigners = [toySigner] :=
    sortedSigners_eq rfl (List.pairwise_singleton _ _)
  rw [inturn, hsorted]
  simp [UInt64.mod_one]

theorem seenRecently_toySnapshot (h : Header) (number : UInt64) :
    seenRecently (toySnapshot h).toVotingState number toySigner = false := by
  rw [seenRecently, decide_eq_false_iff_not]
  rintro ⟨seen, hseen, -⟩
  simp [toySnapshot] at hseen

theorem toyParent_accepted :
    ∃ st', verifyHeader toyPrimitives (Config.new 8 100) (toyRules london) false 8
      (toyChain (toyRoot london)) (toyEngine (toyRoot london)) 1 (toyParent london) [] =
        some (.ok (), st') := by
  have hnumber : (toyParent london).number64 ≠ 0 := by cases london <;> decide
  have hback : (toyParent london).number64 - 1 = (toyRoot london).number64 := by
    cases london <;> decide
  obtain ⟨st', hsnap⟩ := snapshot_toyEngine (toyChain (toyRoot london)) (toyRoot london) []
  rw [← hback] at hsnap
  refine ⟨st', (verifyHeader_eq_ok_iff hnumber).mpr ⟨?_, ⟨toyRoot london, ?_, ?_⟩,
    toySnapshot (toyRoot london), hsnap, ?_⟩⟩
  · cases london <;> decide +kernel
  · cases london <;> decide +kernel
  · cases london <;> decide +kernel
  · have hsigned : ecrecover toyPrimitives (toyParent london) = .ok toySigner := by
      cases london <;> decide +kernel
    have hlist : ¬ ((Config.new 8 100).isCheckpoint (toyParent london).number64 = true ∧
        ((toyParent london).extra.bytes.take
          ((toyParent london).extra.bytes.length - extraSeal)).drop extraVanity ≠
          concat (toySnapshot (toyRoot london)).sortedSigners) :=
      fun hcheckpoint => absurd hcheckpoint.1 (by cases london <;> decide)
    refine verifySeal_eq_ok hnumber hsigned (List.mem_toFinset.mpr List.mem_cons_self)
      (seenRecently_toySnapshot _ _) ?_
    rw [verifyDifficulty, if_neg (by decide), inturn_toySnapshot]
    rfl

theorem mined_toyChild :
    Mined toyPrimitives (Config.new 8 100) (toyRules london) toyMiner
      (toySnapshot (toyParent london)) (toyParent london) (toyChild london) where
  number := by cases london <;> decide
  snapshot := rfl
  prepared := by
    refine ⟨toyChain (toyParent london), fun _ => none, toyParent london, 0, 10,
      ⟨9, default, default⟩, toyPrepared london, getHeader_toyChain _, if_pos rfl, ?_, ?_⟩
    · have hheader : newHeader toyPrimitives (toyRules london) 30000 ⟨9, default, default⟩
          (toyParent london) = .ok (toyNewHeader london) := by
        cases london <;> decide +kernel
      have hknown : (toyChain (toyParent london)).getHeader (toyNewHeader london).parentHash
          ((toyNewHeader london).number64 - 1) = some (toyParent london) := by
        have hback : (toyNewHeader london).number64 - 1 = (toyParent london).number64 := by
          cases london <;> decide
        rw [hback]
        exact getHeader_toyChain _
      refine bind_eq_ok_iff.mpr ⟨toyParent london, rfl, bind_eq_ok_iff.mpr
        ⟨toyNewHeader london, mapError_eq_ok_iff.mpr hheader, mapError_eq_ok_iff.mpr ?_⟩⟩
      rw [hknown, prepare, calcDifficulty, toyMiner, inturn_toySnapshot]
      cases london <;> rfl
    · refine ⟨rfl, rfl, rfl, rfl, rfl, ?_, rfl, rfl, rfl, ?_, ?_⟩
      · cases london <;> decide +kernel
      · cases london <;> decide +kernel
      · cases london <;> decide +kernel
  signed := by cases london <;> decide +kernel
  authorised := List.mem_toFinset.mpr List.mem_cons_self
  fresh := seenRecently_toySnapshot _ _

end

end Toys

/-- A header that the miner has prepared on an accepted parent and an authorised signer has
sealed is accepted if and only if its block is after the London fork, its base fee fits 256
bits, and its gas limit is neither too high nor has wrapped around. -/
theorem mined_header_accepted_iff {fakeDiff : Bool} {clock before : UInt64}
    {chain chainBefore : ChainReader} {st st' stBefore stAfter : EngineState}
    {fuel fuelBefore : Nat} {parents ancestors : List Header}
    (haccepted : verifyHeader lib config rules fakeDiff before chainBefore stBefore fuelBefore
      parent ancestors = some (.ok (), stAfter))
    (hmined : Mined lib config rules miner snap parent h)
    (hparent : parentOf lib chain h parents = .ok parent)
    (hsnap : snapshot lib config chain st fuel parent.number64 (parent.hash lib) parents =
      some (.ok snap, st'))
    (hclock : h.time ≤ clock) :
    verifyHeader lib config rules fakeDiff clock chain st fuel h parents = some (.ok (), st') ↔
      rules.isLondon (parent.number64 + 1) = true ∧
      (∃ fee, calcBaseFee rules parent = .ok fee ∧ fee < 2 ^ 256) ∧
      minGasLimit ≤ calcGasLimit (parentLimit rules parent) miner.gasCeil ∧
      calcGasLimit (parentLimit rules parent) miner.gasCeil ≤ maxGasLimit := by
  have hfields := hmined.fields
  have hne := number64_ne_zero hfields hmined.number
  obtain ⟨-, hsucc⟩ := number64_succ hmined.number hfields.number
  have hback : h.number64 - 1 = parent.number64 := by
    rw [hsucc, UInt64.add_sub_cancel]
  have hparentNumber : parent.number64 ≠ 0 :=
    number64_ne_zero_of_verifyHeader (Nat.lt_of_succ_lt hmined.number) haccepted
  have hsolid := solid_of_verifyHeader hparentNumber haccepted
  rw [verifyHeader_eq_ok_iff hne, hback, hfields.parentHash, hsnap, hparent]
  have hverified := verifySnapshot_of_fields hfields hmined.number fakeDiff hmined.snapshot
    hmined.signed hmined.authorised hmined.fresh
  rw [verifyFields_iff hfields hmined.number hclock, ← hsucc]
  constructor
  · rintro ⟨hmax, ⟨found, hfound, hchecked⟩, -⟩
    cases hfound
    obtain ⟨hlondon, hfee, hmin⟩ := (verifyParent_iff hfields hsolid).mp hchecked
    rw [hfields.gasLimit hlondon] at hmin hmax
    exact ⟨hlondon, hfee, hmin, hmax⟩
  · rintro ⟨hlondon, hfee, hmin, hmax⟩
    rw [← hfields.gasLimit hlondon] at hmin hmax
    exact ⟨hmax, ⟨parent, rfl, (verifyParent_iff hfields hsolid).mpr ⟨hlondon, hfee, hmin⟩⟩,
      snap, rfl, hverified⟩

theorem toyChild_accepted_iff : ∃ st',
    verifyHeader toyPrimitives (Config.new 8 100) (toyRules true) false 16
        (toyChain (toyParent true)) (toyEngine (toyParent true)) 1 (toyChild true) [] =
      some (.ok (), st') ↔
    (toyRules true).isLondon ((toyParent true).number64 + 1) = true ∧
      (∃ fee, calcBaseFee (toyRules true) (toyParent true) = .ok fee ∧ fee < 2 ^ 256) ∧
      minGasLimit ≤ calcGasLimit (parentLimit (toyRules true) (toyParent true)) toyMiner.gasCeil ∧
      calcGasLimit (parentLimit (toyRules true) (toyParent true)) toyMiner.gasCeil ≤ maxGasLimit := by
  obtain ⟨stAfter, haccepted⟩ := toyParent_accepted true
  obtain ⟨st', hsnap⟩ := snapshot_toyEngine (toyChain (toyParent true)) (toyParent true) []
  have hparent : parentOf toyPrimitives (toyChain (toyParent true)) (toyChild true) [] =
      .ok (toyParent true) := by
    decide +kernel
  have hclock : (toyChild true).time ≤ 16 := by decide
  exact ⟨st', mined_header_accepted_iff haccepted (mined_toyChild true) hparent hsnap hclock⟩

/-- On a chain without the London fork the miner prepares a header with a base fee of zero,
and the engine rejects it for having one. -/
theorem header_before_london_rejected :
    (∃ st', verifyHeader toyPrimitives (Config.new 8 100) (toyRules false) false 8
      (toyChain (toyRoot false)) (toyEngine (toyRoot false)) 1 (toyParent false) [] =
        some (.ok (), st')) ∧
    Mined toyPrimitives (Config.new 8 100) (toyRules false) toyMiner
      (toySnapshot (toyParent false)) (toyParent false) (toyChild false) ∧
    ∀ st, verifyHeader toyPrimitives (Config.new 8 100) (toyRules false) false 16
        (toyChain (toyParent false)) st 1 (toyChild false) [] =
      some (.error (.baseFeeBeforeFork 0), st) := by
  refine ⟨toyParent_accepted false, mined_toyChild false, fun st => ?_⟩
  have hfields : verifyFields (Config.new 8 100) 16 (toyChild false) = .ok () := by
    decide +kernel
  have hparent : (parentOf toyPrimitives (toyChain (toyParent false)) (toyChild false) [] >>=
      fun parent => verifyParent (Config.new 8 100) (toyRules false) parent (toyChild false)) =
        .error (.baseFeeBeforeFork 0) := by
    decide +kernel
  rw [verifyHeader, hfields]
  rw [verifyCascadingFields, if_neg (by decide), hparent]

end N42.PreparedHeaders
