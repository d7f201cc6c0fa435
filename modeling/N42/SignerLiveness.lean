import N42.SealVerification
import N42.VoteAccounting

/-!
The signers never run out, unless the last of them votes itself out.  As long as there
is one, turns are defined and somebody may seal the next block.
-/

namespace N42.SignerLiveness

open ByteStrings FallibleRuns
open SlidingWindow (Tracks card_recent_lt)
open ChainTypes BlockHeader HeaderSealing VotingSnapshot
open VotingSnapshot.VotingState VoteAccounting SealingWindow SealVerification

def mergeSignMinTime : UInt64 := 4

def calcDifficulty (snap : Snapshot) (signer : Address) : Except AposError Uint256 := do
  let inturn ← snap.inturn (snap.number + 1) signer
  return if inturn then diffInTurn else diffNoTurn

/-- The proposal a block votes on: a random one of those that make sense. -/
def chooseProposal (proposals : List (Address × Bool)) (snap : VotingState)
    (random : Nat) : Option (Address × Bool) :=
  let meaningful := proposals.filter fun proposal => snap.validVote proposal.1 proposal.2
  meaningful[random % meaningful.length]?

def prepareExtra (config : Config) (snap : Snapshot) (header : Header) : List UInt8 :=
  let vanity := (header.extra.bytes ++ List.replicate extraVanity 0).take extraVanity
  let list := if config.isCheckpoint header.number64 then concat snap.sortedSigners else []
  vanity ++ list ++ List.replicate extraSeal 0

/-- `Prepare` after it has found the snapshot; `now` is the clock and `parent` the header
that the chain has for the parent hash. -/
def prepare (config : Config) (snap : Snapshot) (signer : Address)
    (proposals : List (Address × Bool)) (random : Nat) (parent : Option Header)
    (now : UInt64) (header : Header) : Except AposError Header := do
  let vote := if config.isCheckpoint header.number64 then none
    else chooseProposal proposals snap.toVotingState random
  let difficulty ← calcDifficulty snap signer
  if h : (prepareExtra config snap header).length < 2 ^ 63 then
    match parent with
    | none => .error .unknownAncestor
    | some parent =>
      let time := parent.time + config.period
      return { header with
        coinbase := (vote.map Prod.fst).getD default
        nonce := if (vote.map Prod.snd).getD false then nonceAuthVote else nonceDropVote
        difficulty := some difficulty
        extra := Slice.make (prepareExtra config snap header) h
        mixDigest := default
        time := if time < now + mergeSignMinTime then now + mergeSignMinTime else time }
  else .error .panic

theorem inturn_eq_divideByZero_iff (s : VotingState) (number : UInt64) (signer : Address) :
    s.inturn number signer = .error .divideByZero ↔ s.signers = ∅ := by
  have hlength : s.sortedSigners.length = s.signers.card := Finset.length_sort _
  rw [inturn]
  split
  · rename_i hzero
    rw [hlength, Finset.card_eq_zero] at hzero
    simp [hzero]
  · rename_i hpos
    rw [hlength, Finset.card_eq_zero] at hpos
    simp [hpos]

theorem calcDifficulty_eq_divideByZero_iff (s : Snapshot) (signer : Address) :
    calcDifficulty s signer = .error .divideByZero ↔ s.signers = ∅ := by
  rw [← inturn_eq_divideByZero_iff s.toVotingState (s.number + 1) signer, calcDifficulty]
  cases s.inturn (s.number + 1) signer with
  | error e => simp [bind, Except.bind]
  | ok turn => simp [bind, Except.bind, pure, Except.pure]

variable {config : Config}

theorem prepare_ne_divideByZero {s : Snapshot} (h : s.signers.Nonempty) (signer : Address)
    (proposals : List (Address × Bool)) (random : Nat) (parent : Option Header) (now : UInt64)
    (header : Header) :
    prepare config s signer proposals random parent now header ≠ .error .divideByZero := by
  have hdifficulty : calcDifficulty s signer ≠ .error .divideByZero := by
    rw [Ne, calcDifficulty_eq_divideByZero_iff]
    exact h.ne_empty
  rw [prepare]
  cases hcase : calcDifficulty s signer with
  | error e =>
    rw [hcase] at hdifficulty
    simpa [bind, Except.bind] using hdifficulty
  | ok difficulty =>
    dsimp only [bind, Except.bind]
    by_cases hextra : (prepareExtra config s header).length < 2 ^ 63
    · rw [dif_pos hextra]
      cases parent <;> rintro ⟨⟩
    · rw [dif_neg hextra]
      rintro ⟨⟩

variable {s : VotingState}

theorem exists_fresh_signer {history : Nat → Option Address} {now : Nat} {number : UInt64}
    (hnumber : number.toNat = now + 1) (h : Tracks history (window s) now s.limit)
    (hpast : ∀ i, now < i → history i = none) (hne : s.signers.Nonempty) :
    ∃ signer ∈ s.signers, (evict number s).recentlySigned signer = false := by
  by_contra hall
  have hrecent : ∀ a ∈ s.signers, ∃ i, now + 1 < i + s.limit ∧ history i = some a := by
    intro a ha
    rw [← recentlySigned_evict_iff hnumber h]
    by_contra hfresh
    exact hall ⟨a, ha, by simpa using hfresh⟩
  have hcard := card_recent_lt hpast (limit_pos s) hrecent
  have hpos := hne.card_pos
  rw [limit] at hcard
  omega

structure SelfDrop (s : VotingState) (vote : Vote) : Prop where
  only : s.signers = {vote.signer}
  address : vote.address = vote.signer
  drop : vote.authorize = false

theorem authorize_eq_false_of_sole_signer (h : VoteInvariant s) (config : Config) {vote : Vote}
    (hsole : s.signers = {vote.signer}) (haddress : vote.address = vote.signer)
    (hpending : 0 < voteCount (record config vote s).votes vote.signer) :
    vote.authorize = false := by
  obtain ⟨hdiscard, hfresh⟩ := discarded_invariant h config vote
  obtain ⟨v, hv, hvaddress⟩ := List.countP_pos_iff.mp hpending
  rw [decide_eq_true_eq] at hvaddress
  rw [record, castVote_votes] at hv
  split at hv
  · rename_i hvalid
    rw [validVote, discarded_signers, hsole, haddress] at hvalid
    simpa using hvalid
  · have hvsigner := hdiscard.voter_mem v hv
    rw [discarded_signers, hsole, Finset.mem_singleton] at hvsigner
    exact absurd ⟨hvsigner, hvaddress.trans haddress.symm⟩ (hfresh v hv)

theorem voteCount_record_of_selfDrop (config : Config) {vote : Vote} (h : SelfDrop s vote) :
    0 < voteCount (record config vote s).votes vote.signer := by
  have hvalid : (discarded config vote s).validVote vote.address vote.authorize = true := by
    simp [validVote, h.only, h.address, h.drop]
  rw [record, castVote_votes, if_pos hvalid]
  refine List.countP_pos_iff.mpr ⟨vote, by simp, ?_⟩
  simp [h.address]

theorem settle_signers_eq_empty_iff (h : VoteInvariant s) (config : Config) {vote : Vote}
    (hsigner : vote.signer ∈ s.signers) :
    (settle config vote s).signers = ∅ ↔ SelfDrop s vote := by
  have hrecord := record_invariant h config hsigner
  have hverdict := hrecord.tallied.verdict_eq vote.address
  rw [record_signers] at hverdict
  rw [settle, updateSigners_signers, record_signers, hverdict]
  constructor
  · intro hempty
    split at hempty
    · exact absurd hempty (Finset.ne_empty_of_mem hsigner)
    · exact absurd hempty (Finset.insert_ne_empty _ _)
    · rename_i hpassed
      split at hpassed
      · rename_i hcount
        have hsub := (Finset.erase_eq_empty_iff _ _).mp hempty
        have hsole : s.signers = {vote.address} := by
          rcases hsub with hnone | hsole
          · exact absurd hnone (Finset.ne_empty_of_mem hsigner)
          · exact hsole
        have haddress : vote.address = vote.signer := by
          rw [hsole, Finset.mem_singleton] at hsigner
          exact hsigner.symm
        rw [haddress] at hsole hcount
        refine ⟨hsole, haddress, ?_⟩
        exact authorize_eq_false_of_sole_signer h config hsole haddress (by omega)
      · cases hpassed
  · intro hdrop
    have hcount := voteCount_record_of_selfDrop config hdrop
    rw [hdrop.address, hdrop.only]
    simp [hcount]

structure Live (lib : Primitives) (config : Config) (s : Snapshot) : Prop where
  nonempty : s.signers.Nonempty
  inturn : ∀ number signer, s.inturn number signer ≠ .error .divideByZero
  calcDifficulty : ∀ signer, calcDifficulty s signer ≠ .error .divideByZero
  prepare : ∀ signer proposals random parent now header,
    prepare config s signer proposals random parent now header ≠ .error .divideByZero
  sealer : ∃ signer ∈ s.signers, ∀ h : Header, h.number64 = s.number + 1 →
    ecrecover lib h = .ok signer → (h.nonce = nonceAuthVote ∨ h.nonce = nonceDropVote) →
    ∃ t, s.apply lib config [h] = .ok t

theorem voteOf_ok {nonce : BlockNonce} (h : nonce = nonceAuthVote ∨ nonce = nonceDropVote) :
    ∃ authorize, voteOf nonce = .ok authorize := by
  rcases h with rfl | rfl
  · exact ⟨true, rfl⟩
  · exact ⟨false, rfl⟩

theorem live_of_nonempty {lib : Primitives} {start : UInt64} {hash : Hash} {signers : List Address}
    {headers : List Header} {s : Snapshot}
    (happly : (newSnapshot start hash signers).apply lib config headers = .ok s)
    (hlength : start.toNat + headers.length + 1 < 2 ^ 64) (hne : s.signers.Nonempty) :
    Live lib config s where
  nonempty := hne
  inturn := by
    intro number signer
    rw [Ne, inturn_eq_divideByZero_iff]
    exact hne.ne_empty
  calcDifficulty := by
    intro signer
    rw [Ne, calcDifficulty_eq_divideByZero_iff]
    exact hne.ne_empty
  prepare := prepare_ne_divideByZero hne
  sealer := by
    obtain ⟨hlast, htracks, hpast⟩ := snapshot_tracks happly (by omega)
    have hnext : (s.number + 1).toNat = s.number.toNat + 1 := by
      rw [UInt64.toNat_add, UInt64.toNat_one, Nat.mod_eq_of_lt (by omega)]
    obtain ⟨signer, hmem, hfresh⟩ := exists_fresh_signer hnext htracks hpast hne
    refine ⟨signer, hmem, ?_⟩
    intro h hnumber hsigner hnonce
    obtain ⟨authorize, hvote⟩ := voteOf_ok hnonce
    rw [← hnumber] at hfresh
    have hround : applyHeader lib config s.toVotingState h = .ok _ :=
      applyHeader_eq_ok_iff.mpr ⟨signer, authorize, hsigner, hmem, hfresh, hvote, rfl⟩
    exact ⟨_, (apply_singleton hnumber).trans (by rw [hround]; rfl)⟩

/-- The header by which the only signer of a snapshot drops itself. -/
def dropsLastSigner (lib : Primitives) (before : Snapshot) (h : Header) : Prop :=
  ∃ signer, ecrecover lib h = .ok signer ∧ before.signers = {signer} ∧
    h.coinbase = signer ∧ h.nonce = nonceDropVote

theorem round_signers_eq_empty_iff {lib : Primitives} {before after : Snapshot} {h : Header}
    (hreachable : Reachable lib config before)
    (hround : applyHeader lib config before.toVotingState h = .ok after.toVotingState) :
    after.signers = ∅ ↔ dropsLastSigner lib before h := by
  obtain ⟨signer, authorize, hsigner, hmem, -, hvote, hafter⟩ := applyHeader_eq_ok_iff.mp hround
  have hnonce : authorize = false ↔ h.nonce = nonceDropVote := by
    rw [voteOf] at hvote
    split at hvote
    · rename_i hauth
      cases hvote
      rw [hauth]
      decide
    · split at hvote
      · rename_i hdrop
        cases hvote
        simp [hdrop]
      · cases hvote
  rw [hafter, settle_signers_eq_empty_iff (voteInvariant_of_reachable hreachable) config hmem]
  constructor
  · rintro ⟨honly, haddress, hdrop⟩
    exact ⟨signer, hsigner, honly, haddress, hnonce.mp hdrop⟩
  · rintro ⟨signer', hsigner', honly, haddress, hdrop⟩
    cases hsigner.symm.trans hsigner'
    exact ⟨honly, haddress, hnonce.mpr hdrop⟩

/-- Every snapshot on the way is live exactly if the only signer never drops itself. -/
theorem live_iff_last_signer_stays (lib : Primitives) (config : Config) (number : UInt64)
    (hash : Hash) (signers : List Address) (headers : List Header) (s : Snapshot)
    (hsigners : signers ≠ [])
    (happly : (newSnapshot number hash signers).apply lib config headers = .ok s)
    (hlength : number.toNat + headers.length + 1 < 2 ^ 64) :
    (∀ j before, (newSnapshot number hash signers).apply lib config (headers.take j) =
        .ok before → Live lib config before) ↔
    (∀ j (hj : j < headers.length) before,
      (newSnapshot number hash signers).apply lib config (headers.take j) = .ok before →
        ¬ dropsLastSigner lib before headers[j]) := by
  have hreachable : ∀ {j before}, (newSnapshot number hash signers).apply lib config
      (headers.take j) = .ok before → Reachable lib config before :=
    fun h => .apply _ (.new number hash signers) h
  constructor
  · intro hlive j hj before hbefore hdrop
    obtain ⟨before', after, hbefore', hafter, hround⟩ := apply_take happly j hj
    cases hbefore.symm.trans hbefore'
    have hempty := (round_signers_eq_empty_iff (hreachable hbefore) hround).mpr hdrop
    exact (hlive (j + 1) after hafter).nonempty.ne_empty hempty
  · intro hstays j before hbefore
    have htake : (headers.take j).length ≤ headers.length := by simp
    refine live_of_nonempty hbefore (by omega) ?_
    induction j generalizing before with
    | zero =>
      cases hbefore
      simpa [newSnapshot, Finset.nonempty_iff_ne_empty] using hsigners
    | succ j ih =>
      rcases Nat.lt_or_ge j headers.length with hj | hj
      · obtain ⟨previous, after, hprevious, hafter, hround⟩ := apply_take happly j hj
        cases hbefore.symm.trans hafter
        rw [Finset.nonempty_iff_ne_empty, Ne,
          round_signers_eq_empty_iff (hreachable hprevious) hround]
        exact hstays j hj previous hprevious
      · have hsame : headers.take (j + 1) = headers.take j := by
          rw [List.take_of_length_le (by omega), List.take_of_length_le hj]
        rw [hsame] at hbefore
        exact ih before hbefore (by simp)

/-- The only signer drops itself in block 1, and nobody's turn can be told any more. -/
theorem last_signer_drops_itself :
    ∃ s : Snapshot, (newSnapshot 0 default [toyAddress 1]).apply toyPrimitives (Config.new 8 100)
        [toyVote (toyHeader 1 2 (toyAddress 1)) (toyAddress 1) false] = .ok s ∧ s.signers = ∅ ∧
      (∀ number signer, s.inturn number signer = .error .divideByZero) ∧
      ∀ signer, calcDifficulty s signer = .error .divideByZero := by
  obtain ⟨s, happly, hempty⟩ := exists_ok_of_map (f := fun s : Snapshot => s.signers)
    (x := (newSnapshot 0 default [toyAddress 1]).apply toyPrimitives (Config.new 8 100)
      [toyVote (toyHeader 1 2 (toyAddress 1)) (toyAddress 1) false]) (v := ∅) (by decide +kernel)
  refine ⟨s, happly, hempty, ?_, ?_⟩
  · intro number signer
    exact (inturn_eq_divideByZero_iff _ _ _).mpr hempty
  · intro signer
    exact (calcDifficulty_eq_divideByZero_iff _ _).mpr hempty

theorem live_iff_last_signer_stays_of_three :
    ∃ s : Snapshot,
      (newSnapshot 0 default [toyAddress 1, toyAddress 2, toyAddress 3]).apply toyPrimitives
        (Config.new 8 100) toyChain = .ok s ∧ ∀ j before,
        (newSnapshot 0 default [toyAddress 1, toyAddress 2, toyAddress 3]).apply toyPrimitives
          (Config.new 8 100) (toyChain.take j) = .ok before →
        Live toyPrimitives (Config.new 8 100) before := by
  obtain ⟨s, happly, -⟩ := exists_ok_of_map (f := fun s : Snapshot => s.signers.card)
    (x := (newSnapshot 0 default [toyAddress 1, toyAddress 2, toyAddress 3]).apply
      toyPrimitives (Config.new 8 100) toyChain) (v := 4) (by decide +kernel)
  refine ⟨s, happly, ?_⟩
  refine (live_iff_last_signer_stays toyPrimitives (Config.new 8 100) 0 default
    [toyAddress 1, toyAddress 2, toyAddress 3] toyChain s (by simp) happly (by decide)).mpr ?_
  rintro j hj before - ⟨signer, hsigner, -, hcoinbase, -⟩
  have hother : ∀ h ∈ toyChain, ecrecover toyPrimitives h ≠ .ok h.coinbase := by decide +kernel
  rw [← hcoinbase] at hsigner
  exact hother _ (List.getElem_mem hj) hsigner

end N42.SignerLiveness
