import N42.CacheIndependence
import N42.HeaderVerification
import N42.RecentsSimulation

/-!
Starting from an epoch checkpoint instead of the genesis: the signer list in the
checkpoint header is all that is left of the history before it, apart from the recent
sealers, unless the zero address is a signer.
-/

namespace N42.CheckpointStart

open ByteStrings FallibleRuns ChainTypes BlockHeader HeaderSealing
open VotingSnapshot VotingSnapshot.VotingState VoteAccounting SealingWindow
open SealVerification SnapshotReplay ReplayPaths CacheIndependence
open HeaderVerification RecentsSimulation

variable {lib : Primitives} {config : Config} {net : Network lib} {rules : ChainConfig}
  {fakeDiff : Bool} {headers : List Header}

/-- The header at the given position was accepted by an engine that looks for snapshots
back to the genesis, with the last headers before it as explicit parents and the others
in the chain. -/
def AcceptedAt (net : Network lib) (config : Config) (rules : ChainConfig) (fakeDiff : Bool)
    (headers : List Header) (i : Nat) (hi : i < headers.length) : Prop :=
  ∃ (now : UInt64) (chain : ChainReader) (st st' : EngineState) (fuel m : Nat),
    EngineReachable net config st ∧ net.Serves chain ∧ i < fuel ∧
    (∀ x ∈ (headers.take i).take m, chain.getHeader (x.hash lib) x.number64 = some x) ∧
    Rooted lib config chain st fuel (headers[i].number64 - 1) headers[i].parentHash
      ((headers.take i).drop m) [] ∧
    verifyHeader lib config rules fakeDiff now chain st fuel headers[i]
      ((headers.take i).drop m) = some (.ok (), st')

/-- A header chain from the genesis, accepted header by header. -/
structure Accepted (net : Network lib) (config : Config) (rules : ChainConfig)
    (fakeDiff : Bool) (headers : List Header) : Prop where
  path : net.Path net.genesisHash headers.reverse
  verified : ∀ i hi, AcceptedAt net config rules fakeDiff headers i hi

theorem path_take (hpath : net.Path net.genesisHash headers.reverse) (i : Nat) :
    net.Path net.genesisHash (headers.take i).reverse := by
  have hsplit : headers.reverse = (headers.drop i).reverse ++ (headers.take i).reverse := by
    rw [← List.reverse_append, List.take_append_drop]
  rw [hsplit] at hpath
  exact hpath.drop

section

variable (haccepted : Accepted net config rules fakeDiff headers)
include haccepted

theorem accepted_snapshot {i : Nat} (hi : i < headers.length) :
    ∃ now snap, net.start.apply lib config (headers.take i) = .ok snap ∧
      verifyFields config now headers[i] = .ok () ∧
      verifySnapshot lib config fakeDiff snap.toVotingState headers[i] = .ok () := by
  obtain ⟨now, chain, st, st', fuel, m, hst, hserves, hfuel, hstored, hrooted, hok⟩ :=
    haccepted.verified i hi
  have hnext : net.Path net.genesisHash (headers[i] :: (headers.take i).reverse) := by
    have hpath := path_take haccepted.path (i + 1)
    rwa [List.take_succ_eq_append_getElem hi, List.reverse_append] at hpath
  have hlength : (headers.take i).reverse.length = i := by
    rw [List.length_reverse, List.length_take, Nat.min_eq_left hi.le]
  have hnumber : headers[i].number64 - 1 = UInt64.ofNat (headers.take i).reverse.length := by
    rw [hnext.number64_eq, ofNat_succ_sub]
  have hzero : headers[i].number64 ≠ 0 := by
    intro hzero
    have htoNat := hnext.number64_toNat
    rw [hzero] at htoNat
    exact absurd htoNat.symm (Nat.succ_ne_zero _)
  obtain ⟨hfields, -, snap, hcall, hverify⟩ := (verifyHeader_eq_ok_iff hzero).mp hok
  rw [hnumber, hnext.linked.1] at hcall hrooted
  have hsplit : (headers.take i).reverse =
      ((headers.take i).drop m).reverse ++ ((headers.take i).take m).reverse := by
    rw [← List.reverse_append, List.take_append_drop]
  obtain ⟨st'', hreplay⟩ := snapshot_eq_replay (consistent_of_reachable hst) hserves
    hnext.tail hsplit (fun x hx => hstored x (List.mem_reverse.mp hx))
    (by rw [hlength]; exact hfuel) hrooted
  rw [hcall, List.reverse_reverse] at hreplay
  obtain ⟨happly, -⟩ := Prod.mk.inj (Option.some.inj hreplay)
  exact ⟨now, snap, happly.symm, hfields, hverify⟩

section

variable {k : Nat} {before after : Snapshot} (hk : k < headers.length)
  (hcheckpoint : config.isCheckpoint headers[k].number64 = true)
  (hbefore : net.start.apply lib config (headers.take k) = .ok before)
include hk hcheckpoint hbefore

theorem accepted_checkpoint :
    headers[k].coinbase = default ∧ headers[k].nonce = nonceDropVote ∧
      checkpointSigners headers[k] = .ok before.sortedSigners := by
  obtain ⟨now, snap, happly, hfields, hverify⟩ := accepted_snapshot haccepted hk
  obtain rfl : before = snap := Except.ok.inj (hbefore.symm.trans happly)
  obtain ⟨hcoinbase, hnonce, hlength⟩ := verifyFields_checkpoint hfields hcheckpoint
  exact ⟨hcoinbase, hnonce,
    checkpointSigners_eq hlength ((verifySnapshot_ok hverify).2 hcheckpoint)⟩

theorem checkpoint_step (hafter : net.start.apply lib config (headers.take (k + 1)) = .ok after) :
    ∃ signer ∈ before.signers, after.toVotingState =
      settle config ⟨signer, headers[k].number64, default, false⟩ before.toVotingState := by
  obtain ⟨hcoinbase, hnonce, -⟩ := accepted_checkpoint haccepted hk hcheckpoint hbefore
  obtain ⟨before', after', hbefore', hafter', hstep⟩ := apply_take hafter k
    (by rw [List.length_take]; omega)
  rw [List.take_take, Nat.min_eq_left (Nat.le_succ k), hbefore] at hbefore'
  rw [List.take_take, Nat.min_self, hafter] at hafter'
  cases hbefore'
  cases hafter'
  rw [List.getElem_take] at hstep
  obtain ⟨signer, authorize, -, hsigner, -, hauthorize, hsettle⟩ := applyHeader_eq_ok_iff.mp hstep
  have hdrop : voteOf headers[k].nonce = .ok false := by
    rw [hnonce]
    rfl
  obtain rfl : false = authorize := Except.ok.inj (hdrop.symm.trans hauthorize)
  rw [hcoinbase] at hsettle
  exact ⟨signer, hsigner, hsettle⟩

end

end

theorem discarded_checkpoint {vote : Vote} (hcheckpoint : config.isCheckpoint vote.block = true)
    (s : VotingState) :
    (discarded config vote s).votes = [] ∧ (discarded config vote s).tally = ∅ := by
  have hclear : clearVotes config vote.block s = { s with votes := [], tally := ∅ } :=
    if_pos hcheckpoint
  have hvotes : (evict vote.block { s with votes := [], tally := ∅ }).votes = [] := by simp
  rw [discarded, hclear, discardVote]
  dsimp only
  rw [hvotes, List.findIdx?_nil]
  simp

variable {s : VotingState}

theorem updateSigners_of_none {number : UInt64} {address : Address} (h : verdict address s = none) :
    updateSigners number address s = s := by
  rw [verdict] at h
  rw [updateSigners]
  split at h
  · cases h
  · rename_i hlow
    exact if_neg hlow

section

variable (vote : Vote) (hcheckpoint : config.isCheckpoint vote.block = true)
  (hauthorize : vote.authorize = false)
include hcheckpoint hauthorize

theorem settle_checkpoint (hmem : vote.address ∉ s.signers) :
    (settle config vote s).signers = s.signers ∧ (settle config vote s).votes = [] ∧
      (settle config vote s).tally = ∅ := by
  obtain ⟨hvotes, htally⟩ := discarded_checkpoint hcheckpoint s
  have hrecord : record config vote s = discarded config vote s := by
    have hinvalid : (discarded config vote s).validVote vote.address vote.authorize = false := by
      simp [validVote, hauthorize, hmem]
    simp [record, castVote, VotingState.cast, hinvalid]
  have hnone : verdict vote.address (record config vote s) = none := by
    rw [verdict, hrecord, htally, Finmap.lookup_empty, if_neg]
    simp only [Option.getD_none]
    omega
  rw [settle, updateSigners_of_none hnone, hrecord]
  exact ⟨discarded_signers config vote s, hvotes, htally⟩

theorem settle_checkpoint_of_mem (hinv : VoteInvariant s) (hsigner : vote.signer ∈ s.signers)
    (hmem : vote.address ∈ s.signers) :
    (settle config vote s).votes ≠ [] ∨ (settle config vote s).signers ≠ s.signers := by
  have hvotes : (record config vote s).votes = [vote] := by
    have hvalid : (discarded config vote s).validVote vote.address vote.authorize = true := by
      simp [validVote, hauthorize, hmem]
    rw [record, castVote_votes, if_pos hvalid, (discarded_checkpoint hcheckpoint s).1]
    rfl
  have hverdict := (record_invariant hinv config hsigner).tallied.verdict_eq vote.address
  split at hverdict
  · right
    rw [settle, updateSigners_signers, hverdict]
    intro heq
    have hgone : vote.address ∉ s.signers := by
      rw [← heq]
      simp [hmem]
    exact hgone hmem
  · left
    rw [settle, updateSigners_of_none hverdict, hvotes]
    exact List.cons_ne_nil _ _

end

theorem Thinner.verifySeal {a b : VotingState} (h : Thinner a b) {header : Header}
    (hseal : verifySeal lib fakeDiff a header = .ok ()) :
    verifySeal lib fakeDiff b header = .ok () := by
  obtain ⟨hnumber, signer, hrecover, hsigner, hfresh, hdifficulty⟩ := verifySeal_eq_ok_iff.mp hseal
  have hlimit : a.limit = b.limit := by rw [limit, limit, h.same.signers]
  have hinturn : ∀ number, a.inturn number signer = b.inturn number signer := by
    intro number
    rw [inturn, inturn, sortedSigners, sortedSigners, h.same.signers]
  refine verifySeal_eq_ok_iff.mpr ⟨hnumber, signer, hrecover, ?_, ?_, ?_⟩
  · rw [← h.same.signers]
    exact hsigner
  · rintro ⟨seen, hseen, hgt⟩
    exact hfresh ⟨seen, h.forgets seen signer hseen, by rw [hlimit]; exact hgt⟩
  · rw [verifyDifficulty, ← hinturn]
    exact hdifficulty

def StartAgrees (net : Network lib) (config : Config) (fakeDiff : Bool)
    (headers : List Header) (k : Nat) (hk : k < headers.length) : Prop :=
  ∃ signers, checkpointSigners headers[k] = .ok signers ∧ ∀ m, k < m → m ≤ headers.length →
      ∀ s, net.start.apply lib config (headers.take m) = .ok s →
        ∃ t, (newSnapshot headers[k].number64 (headers[k].hash lib) signers).apply lib config
            ((headers.take m).drop (k + 1)) = .ok t ∧
          t.signers = s.signers ∧ t.votes = s.votes ∧ t.tally = s.tally ∧
          ∀ header, SealVerification.verifySeal lib fakeDiff s.toVotingState header = .ok () →
            SealVerification.verifySeal lib fakeDiff t.toVotingState header = .ok ()

/-- Starting from an accepted checkpoint agrees with the full replay exactly if the zero
address, on which every checkpoint casts a drop vote, is not a signer. -/
theorem checkpoint_start_agrees_iff (lib : Primitives) (config : Config) (rules : ChainConfig)
    (fakeDiff : Bool) (net : Network lib) (headers : List Header)
    (haccepted : Accepted net config rules fakeDiff headers) (k : Nat)
    (hk : k < headers.length) (hcheckpoint : config.isCheckpoint headers[k].number64 = true)
    (before : Snapshot) (hbefore : net.start.apply lib config (headers.take k) = .ok before) :
    StartAgrees net config fakeDiff headers k hk ↔
      ∀ after, net.start.apply lib config (headers.take (k + 1)) = .ok after →
        default ∉ before.signers := by
  obtain ⟨-, -, hlist⟩ := accepted_checkpoint haccepted hk hcheckpoint hbefore
  have hsorted : before.sortedSigners.toFinset = before.signers := by
    ext a
    simp [sortedSigners]
  constructor
  · rintro ⟨signers, hsigners, hagrees⟩ after hafter hzero
    obtain rfl : before.sortedSigners = signers := Except.ok.inj (hlist.symm.trans hsigners)
    obtain ⟨t, ht, hsame, hvotes, -, -⟩ := hagrees (k + 1) (by omega) (by omega) after hafter
    rw [List.drop_take_self] at ht
    cases ht
    obtain ⟨signer, hsigner, hsettle⟩ := checkpoint_step haccepted hk hcheckpoint hbefore hafter
    have hinv := voteInvariant_of_reachable (.apply _ (.new 0 _ _) hbefore)
    rcases settle_checkpoint_of_mem ⟨signer, headers[k].number64, default, false⟩ hcheckpoint
      rfl hinv hsigner hzero with hne | hne
    · rw [← hsettle, ← hvotes] at hne
      exact hne rfl
    · rw [← hsettle, ← hsame] at hne
      exact hne hsorted
  · intro hzero
    refine ⟨before.sortedSigners, hlist, ?_⟩
    intro m hm hle s hs
    -- The replay passes through the snapshot after the checkpoint.
    obtain ⟨-, after, -, hafter, -⟩ := apply_take hs k (by rw [List.length_take]; omega)
    rw [List.take_take, Nat.min_eq_left (by omega : k + 1 ≤ m)] at hafter
    have hcut := List.take_append_drop (k + 1) (headers.take m)
    rw [List.take_take, Nat.min_eq_left (by omega : k + 1 ≤ m)] at hcut
    have hrest : after.apply lib config ((headers.take m).drop (k + 1)) = .ok s := by
      rw [← apply_trans hafter, hcut, hs]
    have hnumber : after.number = headers[k].number64 := by
      have hfollows := haccepted.path.follows
      rw [List.reverse_reverse] at hfollows
      rw [follows_getElem hfollows k hk, (Snapshot.apply_eq_ok_iff.mp hafter).2.2,
        Snapshot.extend, List.length_take, Nat.min_eq_left hk]
      rfl
    obtain ⟨signer, hsigner, hsettle⟩ := checkpoint_step haccepted hk hcheckpoint hbefore hafter
    obtain ⟨hsigners, hvotes, htally⟩ := settle_checkpoint
      ⟨signer, headers[k].number64, default, false⟩ hcheckpoint rfl (hzero after hafter)
    have hthinner : Thinner after.toVotingState (newSnapshot headers[k].number64
        (headers[k].hash lib) before.sortedSigners).toVotingState := by
      refine ⟨⟨?_, ?_, ?_⟩, ?_⟩
      · rw [hsettle]
        exact hsigners.trans hsorted.symm
      · rw [hsettle]
        exact hvotes
      · rw [hsettle]
        exact htally
      · intro number signer hlookup
        simp [newSnapshot] at hlookup
    obtain ⟨t, ht, hfinal⟩ := hthinner.apply hnumber hrest
    exact ⟨t, ht, hfinal.same.signers.symm, hfinal.same.votes.symm, hfinal.same.tally.symm,
      fun header hseal => Thinner.verifySeal hfinal hseal⟩

def toyPair (zero : Bool) : List Address :=
  if zero then [toyAddress 0, toyAddress 1] else [toyAddress 1, toyAddress 2]

def toyRoot (zero : Bool) : Header :=
  { toyHeader 0 1 default (concat (toyPair zero)) with gasLimit := 8000000 }

def toyCheckpoint (zero : Bool) : Header :=
  { toyHeader 1 2 ((toyPair zero)[1]?.getD default) (concat (toyPair zero)) with
    parentHash := (toyRoot zero).hash toyPrimitives
    gasLimit := 8000000
    time := 8 }

def toyNet (zero : Bool) : Network toyPrimitives where
  known := { h | h ∈ [toyRoot zero, toyCheckpoint zero] }
  genesis := toyRoot zero
  signers := toyPair zero
  genesis_mem := List.mem_cons_self
  genesis_number := by revert zero; decide +kernel
  genesis_signers := by revert zero; decide +kernel
  hash_injOn := List.inj_on_of_nodup_map (by revert zero; decide +kernel)
  number_lt := (by revert zero; decide +kernel :
    ∀ h ∈ [toyRoot zero, toyCheckpoint zero], h.number64.toNat < 2 ^ 63)

def toyChainReader (zero : Bool) : ChainReader where
  getHeader hash number :=
    if hash = (toyRoot zero).hash toyPrimitives ∧ number = 0 then some (toyRoot zero) else none
  getHeaderByNumber number := if number = 0 then some (toyRoot zero) else none

section

variable (zero : Bool)

theorem toyChainReader_serves : (toyNet zero).Serves (toyChainReader zero) where
  genesis := rfl
  header := by
    intro hash number h hget
    simp only [toyChainReader, Option.ite_none_right_eq_some, Option.some.injEq] at hget
    obtain ⟨⟨hhash, -⟩, rfl⟩ := hget
    exact ⟨List.mem_cons_self, hhash.symm⟩

theorem toy_path :
    (toyNet zero).Path (toyNet zero).genesisHash [toyCheckpoint zero] where
  known := by
    intro h hh
    rw [List.mem_singleton.mp hh]
    exact List.mem_cons_of_mem _ List.mem_cons_self
  linked := ⟨rfl, trivial⟩
  follows := by revert zero; decide +kernel

theorem toy_signature :
    ecrecover toyPrimitives (toyCheckpoint zero) = .ok ((toyPair zero)[1]?.getD default) ∧
      (toyPair zero)[1]?.getD default ∈ (toyNet zero).start.signers := by
  revert zero
  decide +kernel

theorem toy_fields :
    verifyFields (Config.new 8 1) 100 (toyCheckpoint zero) = .ok () ∧
      parentOf toyPrimitives (toyChainReader zero) (toyCheckpoint zero) [] = .ok (toyRoot zero) ∧
      verifyParent (Config.new 8 1) .unforked (toyRoot zero) (toyCheckpoint zero) = .ok () ∧
      (toyCheckpoint zero).number64 = 1 ∧ ((toyCheckpoint zero).extra.bytes.take
        ((toyCheckpoint zero).extra.bytes.length - extraSeal)).drop extraVanity =
          concat (toyPair zero) ∧ (1 % UInt64.ofNat (toyPair zero).length ==
        UInt64.ofNat ((toyPair zero).idxOf ((toyPair zero)[1]?.getD default))) = true := by
  revert zero
  decide +kernel

theorem toy_verifySnapshot :
    verifySnapshot toyPrimitives (Config.new 8 1) false (toyNet zero).start.toVotingState
      (toyCheckpoint zero) = .ok () := by
  have hsorted : (toyNet zero).start.sortedSigners = toyPair zero :=
    sortedSigners_eq rfl (by revert zero; decide)
  obtain ⟨-, -, -, hnumber, hlist, hturn⟩ := toy_fields zero
  obtain ⟨hrecover, hsigner⟩ := toy_signature zero
  rw [verifySnapshot, hsorted, hlist, if_neg (by simp)]
  refine verifySeal_eq_ok_iff.mpr ⟨by rw [hnumber]; decide, _, hrecover, hsigner, ?_, ?_⟩
  · rintro ⟨seen, hseen, -⟩
    simp [Network.start, newSnapshot] at hseen
  · refine verifyDifficulty_of_sorted hsorted true ?_ (by rw [hnumber]; exact hturn) rfl
    cases zero <;> exact List.cons_ne_nil _ _

theorem toy_accepted :
    Accepted (toyNet zero) (Config.new 8 1) .unforked false [toyCheckpoint zero] := by
  refine ⟨toy_path zero, ?_⟩
  intro i hi
  obtain rfl : i = 0 := by simpa using hi
  obtain ⟨hfields, hparent, hverify, hnumber, -, -⟩ := toy_fields zero
  have hrooted : Rooted toyPrimitives (Config.new 8 1) (toyChainReader zero) ⟨∅, ∅⟩ 1 0
      (toyNet zero).genesisHash [] [] := by
    clear hfields hparent hverify hnumber
    revert zero
    decide +kernel
  obtain ⟨st, hcall⟩ : ∃ st, snapshot toyPrimitives (Config.new 8 1) (toyChainReader zero)
      ⟨∅, ∅⟩ 1 0 (toyNet zero).genesisHash [] = some (.ok (toyNet zero).start, st) :=
    snapshot_eq_replay consistent_start (toyChainReader_serves zero) (toy_path zero).tail rfl
      (by simp) Nat.zero_lt_one hrooted
  refine ⟨100, toyChainReader zero, ⟨∅, ∅⟩, st, 1, 0, .start, toyChainReader_serves zero,
    Nat.zero_lt_one, by simp, ?_, ?_⟩
  · rw [List.getElem_singleton, hnumber]
    exact hrooted
  · rw [List.getElem_singleton]
    refine (verifyHeader_eq_ok_iff (by rw [hnumber]; decide)).mpr
      ⟨hfields, ⟨_, hparent, hverify⟩, _, ?_, toy_verifySnapshot zero⟩
    rw [hnumber]
    exact hcall

end

/-- With the zero address among the signers, the checkpoint's vote to drop it is counted
by the replay and missing in the snapshot made from the checkpoint. -/
theorem zero_signer_keeps_checkpoint_vote :
    Accepted (toyNet true) (Config.new 8 1) .unforked false [toyCheckpoint true] ∧
      (Config.new 8 1).isCheckpoint (toyCheckpoint true).number64 = true ∧ ∃ s signers,
        (toyNet true).start.apply toyPrimitives (Config.new 8 1) [toyCheckpoint true] = .ok s ∧
        checkpointSigners (toyCheckpoint true) = .ok signers ∧
        s.votes = [⟨toyAddress 1, 1, default, false⟩] ∧
        (newSnapshot (toyCheckpoint true).number64 ((toyCheckpoint true).hash toyPrimitives)
          signers).votes = [] := by
  obtain ⟨s, happly, hvotes⟩ := exists_ok_of_map (f := fun s : Snapshot => s.votes)
    (x := (toyNet true).start.apply toyPrimitives (Config.new 8 1) [toyCheckpoint true])
    (v := [⟨toyAddress 1, 1, default, false⟩]) (by decide +kernel)
  exact ⟨toy_accepted true, by decide +kernel, s, toyPair true, happly, by decide +kernel,
    hvotes, rfl⟩

theorem checkpoint_start_agrees_of_two :
    Accepted (toyNet false) (Config.new 8 1) .unforked false [toyCheckpoint false] ∧
      StartAgrees (toyNet false) (Config.new 8 1) false [toyCheckpoint false] 0 (by decide) := by
  refine ⟨toy_accepted false, ?_⟩
  refine (checkpoint_start_agrees_iff toyPrimitives (Config.new 8 1) .unforked false (toyNet false)
    [toyCheckpoint false] (toy_accepted false) 0 (by decide) (by decide +kernel)
    (toyNet false).start rfl).mpr ?_
  intro _ _
  decide +kernel

end N42.CheckpointStart
