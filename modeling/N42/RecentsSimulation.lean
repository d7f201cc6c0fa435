import N42.VotingSnapshot

/-!
The list of recent sealers only ever keeps a header out: a snapshot that remembers fewer
of them accepts the same headers and holds the same votes.
-/

namespace N42.RecentsSimulation

open FallibleRuns ChainTypes BlockHeader VotingSnapshot
open VotingSnapshot.VotingState

def withRecents (s : VotingState) (recents : Recents) : VotingState :=
  { s with recents := recents }

structure SameVotes (a b : VotingState) : Prop where
  signers : a.signers = b.signers
  votes : a.votes = b.votes
  tally : a.tally = b.tally

theorem sameVotes_withRecents (s : VotingState) (recents : Recents) :
    SameVotes s (withRecents s recents) :=
  ⟨rfl, rfl, rfl⟩

variable {a b : VotingState}

theorem SameVotes.eq_withRecents (h : SameVotes a b) : b = withRecents a b.recents := by
  obtain ⟨hsigners, hvotes, htally⟩ := h
  simp [withRecents, hsigners, hvotes, htally]

theorem cast_withRecents (s : VotingState) (recents : Recents) (address : Address)
    (authorize : Bool) :
    (withRecents s recents).cast address authorize =
      ((s.cast address authorize).1, withRecents (s.cast address authorize).2 recents) := by
  have hvalid : (withRecents s recents).validVote address authorize =
      s.validVote address authorize := rfl
  have htally : (withRecents s recents).tally = s.tally := rfl
  rw [VotingState.cast, VotingState.cast, hvalid, htally]
  cases s.validVote address authorize <;> cases s.tally.lookup address <;> rfl

theorem uncast_withRecents (s : VotingState) (recents : Recents) (address : Address)
    (authorize : Bool) :
    (withRecents s recents).uncast address authorize =
      ((s.uncast address authorize).1, withRecents (s.uncast address authorize).2 recents) := by
  have htally : (withRecents s recents).tally = s.tally := rfl
  rw [VotingState.uncast, VotingState.uncast, htally]
  cases s.tally.lookup address with
  | none => rfl
  | some tally =>
    dsimp only
    split_ifs <;> rfl

theorem discardVote_withRecents (signer address : Address) (s : VotingState)
    (recents : Recents) :
    discardVote signer address (withRecents s recents) =
      withRecents (discardVote signer address s) recents := by
  have hvotes : (withRecents s recents).votes = s.votes := rfl
  rw [discardVote, discardVote, hvotes]
  simp only [uncast_withRecents]
  cases s.votes.findIdx? fun vote => vote.signer = signer ∧ vote.address = address with
  | none => rfl
  | some i =>
    dsimp only
    cases s.votes[i]? <;> rfl

theorem castVote_withRecents (vote : Vote) (s : VotingState) (recents : Recents) :
    castVote vote (withRecents s recents) = withRecents (castVote vote s) recents := by
  rw [castVote, castVote, cast_withRecents]
  dsimp only
  split_ifs <;> rfl

theorem discardVotesOf_withRecents (address : Address) (count i : Nat) (s : VotingState)
    (recents : Recents) :
    discardVotesOf address count i (withRecents s recents) =
      withRecents (discardVotesOf address count i s) recents := by
  fun_induction discardVotesOf address count i s with
  | case1 i s => rfl
  | case2 count i s hnone => simp [discardVotesOf, withRecents, hnone]
  | case3 count i s vote hvote hsigner ih =>
    have hvotes : (withRecents s recents).votes = s.votes := rfl
    rw [← ih, discardVotesOf, hvotes, hvote]
    simp only [hsigner, if_true, uncast_withRecents]
    rfl
  | case4 count i s vote hvote hsigner ih =>
    rw [← ih, discardVotesOf]
    simp [withRecents, hvote, hsigner]

theorem discardVotesOn_withRecents (address : Address) (count i : Nat) (s : VotingState)
    (recents : Recents) :
    discardVotesOn address count i (withRecents s recents) =
      withRecents (discardVotesOn address count i s) recents := by
  fun_induction discardVotesOn address count i s with
  | case1 i s => rfl
  | case2 count i s hnone => simp [discardVotesOn, withRecents, hnone]
  | case3 count i s vote hvote haddress ih =>
    rw [← ih, discardVotesOn]
    simp [withRecents, hvote, haddress]
  | case4 count i s vote hvote haddress ih =>
    rw [← ih, discardVotesOn]
    simp [withRecents, hvote, haddress]

namespace SameVotes

variable {a b : VotingState}

theorem evict (h : SameVotes a b) (number : UInt64) :
    SameVotes (evict number a) (evict number b) := by
  constructor <;> simp [h.signers, h.votes, h.tally]

theorem map {f : VotingState → VotingState}
    (hf : ∀ s recents, f (withRecents s recents) = withRecents (f s) recents)
    (h : SameVotes a b) : SameVotes (f a) (f b) := by
  rw [h.eq_withRecents, hf]
  exact sameVotes_withRecents _ _

theorem record (h : SameVotes a b) (config : Config) (vote : Vote) :
    SameVotes (record config vote a) (record config vote b) := by
  have hclear : SameVotes (clearVotes config vote.block a) (clearVotes config vote.block b) := by
    refine h.map ?_
    intro s recents
    unfold clearVotes
    split <;> rfl
  have hevict := hclear.evict vote.block
  rw [VotingState.record, VotingState.record]
  apply map (castVote_withRecents vote)
  apply map (discardVote_withRecents vote.signer vote.address)
  exact ⟨hevict.signers, hevict.votes, hevict.tally⟩

theorem verdict (h : SameVotes a b) (address : Address) :
    verdict address a = verdict address b := by
  rw [VotingState.verdict, VotingState.verdict, h.signers, h.tally]

theorem updateSigners (h : SameVotes a b) (number : UInt64) (address : Address) :
    SameVotes (updateSigners number address a) (updateSigners number address b) := by
  have hchange : ∀ authorize, SameVotes (changeSigners number address authorize a)
      (changeSigners number address authorize b) := by
    intro authorize
    cases authorize with
    | true => exact ⟨by simp [changeSigners, h.signers], h.votes, h.tally⟩
    | false =>
      have herase : SameVotes { a with signers := a.signers.erase address }
          { b with signers := b.signers.erase address } :=
        ⟨by rw [h.signers], h.votes, h.tally⟩
      have hevict := herase.evict number
      simp only [changeSigners, Bool.false_eq_true, if_false, hevict.votes]
      exact hevict.map (discardVotesOf_withRecents address _ _)
  unfold VotingState.updateSigners
  simp only [h.tally, h.signers]
  split
  · have hafter := hchange ((b.tally.lookup address).getD ⟨false, 0⟩).authorize
    rw [hafter.votes]
    have hon := hafter.map (discardVotesOn_withRecents address
      (changeSigners number address ((b.tally.lookup address).getD ⟨false, 0⟩).authorize
        b).votes.length 0)
    exact ⟨hon.signers, hon.votes, by rw [hon.tally]⟩
  · exact h

end SameVotes

def Forgets (a b : VotingState) : Prop :=
  ∀ number signer, b.recents.lookup number = some signer → a.recents.lookup number = some signer

theorem forgets_evict (hsigners : a.signers = b.signers) (h : Forgets a b) (number : UInt64) :
    Forgets (evict number a) (evict number b) := by
  intro key signer
  unfold VotingState.evict limit
  rw [hsigners]
  split
  · rcases eq_or_ne key (number - UInt64.ofNat (b.signers.card / 2 + 1)) with rfl | hne
    · simp only [Finmap.lookup_erase]
      rintro ⟨⟩
    · simp only [Finmap.lookup_erase_ne hne]
      exact h key signer
  · exact h key signer

theorem forgets_record (hsigners : a.signers = b.signers) (h : Forgets a b) (config : Config)
    (vote : Vote) :
    Forgets (record config vote a) (record config vote b) := by
  intro key signer
  rw [record_recents, record_recents]
  rcases eq_or_ne key vote.block with rfl | hne
  · simp
  · rw [Finmap.lookup_insert_of_ne _ hne, Finmap.lookup_insert_of_ne _ hne]
    exact forgets_evict hsigners h vote.block key signer

/-- The second state is the first one with some recent sealers forgotten. -/
structure Thinner (a b : VotingState) : Prop where
  same : SameVotes a b
  forgets : Forgets a b

theorem Thinner.settle (h : Thinner a b) (config : Config) (vote : Vote) :
    Thinner (settle config vote a) (settle config vote b) := by
  have hsame := h.same.record config vote
  have hforgets := forgets_record h.same.signers h.forgets config vote
  refine ⟨hsame.updateSigners _ _, ?_⟩
  intro key signer
  unfold VotingState.settle
  rw [updateSigners_recents, updateSigners_recents, hsame.verdict]
  split
  · refine forgets_evict ?_ ?_ vote.block key signer
    · simp only [hsame.signers]
    · exact hforgets
  · exact hforgets key signer

theorem Thinner.recentlySigned (h : Thinner a b) {number : UInt64} {signer : Address}
    (hsigned : (evict number a).recentlySigned signer = false) :
    (evict number b).recentlySigned signer = false := by
  rw [← Bool.not_eq_true] at hsigned ⊢
  intro hb
  obtain ⟨seen, hseen⟩ := (recentlySigned_iff _ _).mp hb
  exact hsigned ((recentlySigned_iff _ _).mpr
    ⟨seen, forgets_evict h.same.signers h.forgets number seen signer hseen⟩)

theorem Thinner.applyHeader {lib : Primitives} {config : Config} {a a' b : VotingState}
    {header : Header} (h : Thinner a b) (hstep : applyHeader lib config a header = .ok a') :
    ∃ b', applyHeader lib config b header = .ok b' ∧ Thinner a' b' := by
  obtain ⟨signer, authorize, hrecover, hsigner, hsigned, hvote, rfl⟩ :=
    applyHeader_eq_ok_iff.mp hstep
  refine ⟨_, applyHeader_eq_ok_iff.mpr ⟨signer, authorize, hrecover, ?_, h.recentlySigned hsigned,
    hvote, rfl⟩, h.settle config _⟩
  rw [← h.same.signers]
  exact hsigner

theorem Thinner.apply {lib : Primitives} {config : Config} {s s' t : Snapshot}
    {headers : List Header} (h : Thinner s.toVotingState t.toVotingState)
    (hnumber : s.number = t.number) (happly : s.apply lib config headers = .ok s') :
    ∃ t', t.apply lib config headers = .ok t' ∧ Thinner s'.toVotingState t'.toVotingState := by
  obtain ⟨hfollows, hrun, -⟩ := Snapshot.apply_eq_ok_iff.mp happly
  obtain ⟨state, hrun', hthinner⟩ := run_simulation (fun _ a b => Thinner a b) hrun h
    fun i hi a a' b hab hstep => hab.applyHeader hstep
  refine ⟨t.extend lib headers state, ?_, hthinner⟩
  rw [hnumber] at hfollows
  exact Snapshot.apply_eq_ok_iff.mpr ⟨hfollows, hrun', rfl⟩

end N42.RecentsSimulation
