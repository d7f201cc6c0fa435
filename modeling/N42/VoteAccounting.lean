import N42.VotingSnapshot

/-!
The pending votes and their tally always tell the same story: the tally counts the
votes on every address, and all of them ask for the change that is still possible.
-/

namespace N42.VoteAccounting

open FallibleRuns IndexedRemoval ChainTypes HeaderSealing VotingSnapshot
open VotingSnapshot.VotingState

def voteCount (votes : List Vote) (address : Address) : Nat :=
  votes.countP fun vote => vote.address = address

def tallyOf (signers : Finset Address) (votes : List Vote) (address : Address) :
    Option Tally :=
  if voteCount votes address = 0 then none
  else some ⟨decide (address ∉ signers), voteCount votes address⟩

/-- The tally counts the votes, and every vote asks for a change of the signers. -/
structure Tallied (signers : Finset Address) (votes : List Vote) (tally : TallyMap) :
    Prop where
  lookup_eq : ∀ address, tally.lookup address = tallyOf signers votes address
  authorize_eq : ∀ vote ∈ votes, vote.authorize = decide (vote.address ∉ signers)

def sameBallot (a b : Vote) : Prop :=
  a.signer = b.signer ∧ a.address = b.address

structure VoteInvariant (s : VotingState) : Prop where
  tallied : Tallied s.signers s.votes s.tally
  unique : s.votes.Pairwise fun a b => ¬ sameBallot a b
  voter_mem : ∀ vote ∈ s.votes, vote.signer ∈ s.signers

variable {vote : Vote} {votes : List Vote}

theorem voteCount_pos (h : vote ∈ votes) : 0 < voteCount votes vote.address :=
  List.countP_pos_iff.mpr ⟨vote, h, by simp⟩

theorem voteCount_eraseIdx {i : Nat} (h : votes[i]? = some vote) (address : Address) :
    voteCount votes address =
      voteCount (votes.eraseIdx i) address + if vote.address = address then 1 else 0 := by
  simpa [voteCount] using countP_eraseIdx (fun vote => decide (vote.address = address)) h

theorem tallied_empty (signers : Finset Address) : Tallied signers [] ∅ where
  lookup_eq := by simp [tallyOf, voteCount]
  authorize_eq := by simp

variable {signers : Finset Address}

theorem Tallied.votes_eq {tally : TallyMap} (h : Tallied signers votes tally) {address : Address}
    {entry : Tally} (hlookup : tally.lookup address = some entry) :
    0 < entry.votes ∧ entry.votes = voteCount votes address ∧
      (entry.authorize = true ↔ address ∉ signers) := by
  rw [h.lookup_eq, tallyOf] at hlookup
  split at hlookup
  · cases hlookup
  · rename_i hpos
    cases hlookup
    refine ⟨?_, rfl, by simp⟩
    simp only [Nat.cast_pos]
    omega

variable {s : VotingState}

theorem Tallied.verdict_eq (h : Tallied s.signers s.votes s.tally) (address : Address) :
    verdict address s =
      if s.signers.card / 2 < voteCount s.votes address then some (decide (address ∉ s.signers))
      else none := by
  rw [verdict, h.lookup_eq, tallyOf]
  by_cases hzero : voteCount s.votes address = 0
  · simp only [hzero, if_true, Option.getD_none]
    rw [if_neg (by omega), if_neg (by omega)]
  · simp only [hzero, if_false, Option.getD_some, gt_iff_lt, Nat.cast_lt]

theorem Tallied.uncast {i : Nat} (h : Tallied signers s.votes s.tally)
    (hvote : s.votes[i]? = some vote) :
    Tallied signers (s.votes.eraseIdx i) (s.uncast vote.address vote.authorize).2.tally where
  lookup_eq := by
    intro address
    have hmem : vote ∈ s.votes := List.mem_of_getElem? hvote
    have hpos := voteCount_pos hmem
    have hcount := voteCount_eraseIdx hvote
    have hself := hcount vote.address
    rw [if_pos rfl] at hself
    have hlookup := h.lookup_eq vote.address
    rw [tallyOf, if_neg (by omega), ← h.authorize_eq vote hmem] at hlookup
    unfold VotingState.uncast
    rw [hlookup]
    by_cases haddress : address = vote.address
    · subst haddress
      by_cases hmany : ((voteCount s.votes vote.address : Nat) : Int) > 1
      · simp only [ne_eq, not_true_eq_false, if_false, if_pos hmany, Finmap.lookup_insert]
        rw [tallyOf, if_neg (by omega), ← h.authorize_eq vote hmem]
        simp only [Option.some.injEq, Tally.mk.injEq, true_and]
        omega
      · simp only [ne_eq, not_true_eq_false, if_false, if_neg hmany, Finmap.lookup_erase]
        rw [tallyOf, if_pos (by omega)]
    · have hother := hcount address
      rw [if_neg (Ne.symm haddress), Nat.add_zero] at hother
      have hrest := h.lookup_eq address
      rw [tallyOf, hother] at hrest
      rw [tallyOf, ← hrest]
      by_cases hmany : ((voteCount s.votes vote.address : Nat) : Int) > 1
      · simp only [ne_eq, not_true_eq_false, if_false, if_pos hmany]
        exact Finmap.lookup_insert_of_ne s.tally haddress
      · simp only [ne_eq, not_true_eq_false, if_false, if_neg hmany]
        exact Finmap.lookup_erase_ne haddress
  authorize_eq := fun v hv => h.authorize_eq v (List.mem_of_mem_eraseIdx hv)

theorem Tallied.cast (h : Tallied s.signers s.votes s.tally)
    (hvalid : s.validVote vote.address vote.authorize = true) :
    Tallied s.signers (s.votes ++ [vote]) (s.cast vote.address vote.authorize).2.tally := by
  have hflag : vote.authorize = decide (vote.address ∉ s.signers) := by
    unfold validVote at hvalid
    by_cases hmem : vote.address ∈ s.signers <;> simpa [hmem] using hvalid
  have hcount : ∀ address, voteCount (s.votes ++ [vote]) address =
      voteCount s.votes address + if vote.address = address then 1 else 0 := by
    intro address
    simp [voteCount, List.countP_append, List.countP_cons]
  constructor
  · intro address
    have hlookup := h.lookup_eq vote.address
    unfold VotingState.cast
    rw [if_neg (by simp [hvalid]), hlookup]
    by_cases haddress : address = vote.address
    · subst haddress
      rw [tallyOf, tallyOf, hcount, if_pos rfl]
      by_cases hzero : voteCount s.votes vote.address = 0
      · simp [hzero, hflag]
      · simp [hzero]
    · have hrest := h.lookup_eq address
      rw [tallyOf] at hrest
      rw [tallyOf, tallyOf, hcount, if_neg (Ne.symm haddress), Nat.add_zero, ← hrest]
      by_cases hzero : voteCount s.votes vote.address = 0
      · simp only [hzero, if_true]
        exact Finmap.lookup_insert_of_ne s.tally haddress
      · simp only [hzero, if_false]
        exact Finmap.lookup_insert_of_ne s.tally haddress
  · intro v hv
    rcases List.mem_append.mp hv with hv | hv
    · exact h.authorize_eq v hv
    · rw [List.mem_singleton.mp hv]
      exact hflag

theorem Tallied.discard {signers signers' : Finset Address} {tally : TallyMap} (address : Address)
    (h : Tallied signers votes tally) (hother : ∀ a, a ≠ address → (a ∈ signers' ↔ a ∈ signers)) :
    Tallied signers' (votes.filter fun vote => !decide (vote.address = address))
      (tally.erase address) where
  lookup_eq := by
    intro a
    by_cases ha : a = address
    · subst ha
      have hzero : voteCount (votes.filter fun vote => !decide (vote.address = a)) a = 0 := by
        simp [voteCount, List.countP_eq_zero]
      rw [tallyOf, if_pos hzero, Finmap.lookup_erase]
    · have hcount : voteCount (votes.filter fun vote => !decide (vote.address = address)) a =
          voteCount votes a := by
        rw [voteCount, voteCount, List.countP_filter]
        refine List.countP_congr fun vote _ => ?_
        simp only [Bool.and_eq_true, decide_eq_true_iff, Bool.not_eq_true',
          decide_eq_false_iff_not, and_iff_left_iff_imp]
        rintro rfl
        exact ha
      rw [Finmap.lookup_erase_ne ha, h.lookup_eq, tallyOf, tallyOf, hcount]
      simp only [hother a ha]
  authorize_eq := by
    intro vote hvote
    simp only [List.mem_filter, Bool.not_eq_true', decide_eq_false_iff_not] at hvote
    rw [h.authorize_eq vote hvote.1]
    simp only [hother vote.address hvote.2]

theorem discardVotesOf_tallied (address : Address) (count i : Nat) (s : VotingState)
    (h : Tallied signers s.votes s.tally) :
    Tallied signers (discardVotesOf address count i s).votes
      (discardVotesOf address count i s).tally := by
  fun_induction discardVotesOf address count i s with
  | case1 i s => exact h
  | case2 count i s hnone => exact h
  | case3 count i s vote hvote hsigner ih => exact ih (h.uncast hvote)
  | case4 count i s vote hvote hsigner ih => exact ih h

theorem clearVotes_invariant (h : VoteInvariant s) (config : Config) (number : UInt64) :
    VoteInvariant (clearVotes config number s) := by
  unfold clearVotes
  split
  · exact ⟨tallied_empty _, by simp, by simp⟩
  · exact h

theorem sameBallot_symm {a b : Vote} (h : ¬ sameBallot a b) : ¬ sameBallot b a :=
  fun hba => h ⟨hba.1.symm, hba.2.symm⟩

theorem discardVote_invariant (h : VoteInvariant s) (signer address : Address) :
    VoteInvariant (discardVote signer address s) ∧ ∀ vote ∈ (discardVote signer address s).votes,
        ¬ (vote.signer = signer ∧ vote.address = address) := by
  unfold discardVote
  split
  · rename_i hnone
    refine ⟨h, fun vote hvote hsame => ?_⟩
    have := List.findIdx?_eq_none_iff.mp hnone vote hvote
    simp [hsame] at this
  · rename_i i hfound
    obtain ⟨hi, hballot, -⟩ := List.findIdx?_eq_some_iff_getElem.mp hfound
    simp only [decide_eq_true_iff] at hballot
    rw [List.getElem?_eq_getElem hi]
    have hsub := List.eraseIdx_sublist s.votes i
    -- the removed vote is different from all the others, so none of its kind is left
    have hfresh : ∀ vote ∈ s.votes.eraseIdx i, ¬ sameBallot s.votes[i] vote := by
      have hperm := List.getElem_cons_eraseIdx_perm hi
      exact (List.pairwise_cons.mp ((hperm.pairwise_iff sameBallot_symm).mpr h.unique)).1
    refine ⟨⟨?_, h.unique.sublist hsub, ?_⟩, ?_⟩
    · simpa using h.tallied.uncast (List.getElem?_eq_getElem hi)
    · intro vote hvote
      simpa using h.voter_mem vote (hsub.subset hvote)
    · rintro vote hvote ⟨hsigner, haddress⟩
      exact hfresh vote hvote ⟨hballot.1.trans hsigner.symm, hballot.2.trans haddress.symm⟩

theorem castVote_votes (vote : Vote) (s : VotingState) :
    (castVote vote s).votes =
      if s.validVote vote.address vote.authorize then s.votes ++ [vote] else s.votes := by
  by_cases hvalid : s.validVote vote.address vote.authorize = true
  · have hcast : (s.cast vote.address vote.authorize).1 = true := by
      rw [VotingState.cast, if_neg (by simp [hvalid])]
      split <;> rfl
    simp [castVote, hcast, hvalid]
  · simp [castVote, VotingState.cast, hvalid]

section

variable (h : VoteInvariant s)
include h

theorem castVote_invariant (hsigner : vote.signer ∈ s.signers)
    (hfresh : ∀ v ∈ s.votes, ¬ (v.signer = vote.signer ∧ v.address = vote.address)) :
    VoteInvariant (castVote vote s) := by
  have hvotes := castVote_votes vote s
  by_cases hvalid : s.validVote vote.address vote.authorize = true
  · rw [if_pos hvalid] at hvotes
    have htally : (castVote vote s).tally = (s.cast vote.address vote.authorize).2.tally := by
      rw [castVote]
      dsimp only
      split <;> rfl
    refine ⟨?_, ?_, ?_⟩
    · rw [hvotes, htally, (castVote_frame vote s).1]
      exact h.tallied.cast hvalid
    · rw [hvotes]
      refine List.pairwise_append.mpr ⟨h.unique, List.pairwise_singleton _ _, ?_⟩
      intro a ha b hb
      rw [List.mem_singleton.mp hb]
      exact hfresh a ha
    · intro v hv
      rw [hvotes] at hv
      rw [(castVote_frame vote s).1]
      rcases List.mem_append.mp hv with hv | hv
      · exact h.voter_mem v hv
      · rw [List.mem_singleton.mp hv]
        exact hsigner
  · have heq : castVote vote s = s := by
      simp [castVote, VotingState.cast, hvalid]
    rw [heq]
    exact h

theorem changeSigners_invariant (number : UInt64) (address : Address) (authorize : Bool) :
    let changed := changeSigners number address authorize s
    Tallied s.signers changed.votes changed.tally ∧
      changed.votes.Pairwise (fun a b => ¬ sameBallot a b) ∧
      (∀ vote ∈ changed.votes, vote.signer ∈ changed.signers) ∧
      ∀ a, a ≠ address → (a ∈ changed.signers ↔ a ∈ s.signers) := by
  unfold changeSigners
  split
  · refine ⟨h.tallied, h.unique, ?_, ?_⟩
    · intro vote hvote
      exact Finset.mem_insert_of_mem (h.voter_mem vote hvote)
    · intro a ha
      simp [ha]
  · dsimp only
    have hvotes : ∀ t : VotingState, (discardVotesOf address t.votes.length 0 t).votes =
        t.votes.filter fun vote => !decide (vote.signer = address) := by
      intro t
      rw [discardVotesOf_votes, removeLoop_length]
    refine ⟨?_, ?_, ?_, ?_⟩
    · exact discardVotesOf_tallied address _ _ _ (by simpa using h.tallied)
    · rw [hvotes]
      simpa using h.unique.filter _
    · intro vote hvote
      rw [hvotes] at hvote
      simp only [evict_frame, List.mem_filter, Bool.not_eq_true', decide_eq_false_iff_not] at hvote
      simpa using ⟨hvote.2, h.voter_mem vote hvote.1⟩
    · intro a ha
      simp [ha]

theorem updateSigners_invariant (number : UInt64) (address : Address) :
    VoteInvariant (updateSigners number address s) := by
  unfold updateSigners
  dsimp only
  split
  · obtain ⟨htallied, hunique, hvoter, hother⟩ := changeSigners_invariant h number address
      ((s.tally.lookup address).getD ⟨false, 0⟩).authorize
    generalize changeSigners number address
      ((s.tally.lookup address).getD ⟨false, 0⟩).authorize s = changed at *
    have hvotes : (discardVotesOn address changed.votes.length 0 changed).votes =
        changed.votes.filter fun vote => !decide (vote.address = address) := by
      rw [discardVotesOn_votes, removeLoop_length]
    refine ⟨?_, ?_, ?_⟩
    · simpa [hvotes] using htallied.discard address hother
    · rw [hvotes]
      exact hunique.filter _
    · intro vote hvote
      rw [hvotes] at hvote
      simpa using hvoter vote (List.mem_of_mem_filter hvote)
  · exact h

theorem discarded_invariant (config : Config) (vote : Vote) :
    VoteInvariant (discarded config vote s) ∧ ∀ v ∈ (discarded config vote s).votes,
        ¬ (v.signer = vote.signer ∧ v.address = vote.address) := by
  have hstart := clearVotes_invariant h config vote.block
  refine discardVote_invariant ?_ vote.signer vote.address
  exact ⟨by simpa using hstart.tallied, by simpa using hstart.unique,
    by simpa using hstart.voter_mem⟩

theorem record_invariant (config : Config) (hsigner : vote.signer ∈ s.signers) :
    VoteInvariant (record config vote s) := by
  obtain ⟨hdiscard, hfresh⟩ := discarded_invariant h config vote
  exact castVote_invariant hdiscard (by simpa using hsigner) hfresh

theorem settle_invariant (config : Config) (hsigner : vote.signer ∈ s.signers) :
    VoteInvariant (settle config vote s) :=
  updateSigners_invariant (record_invariant h config hsigner) _ _

end

theorem updateSigners_votes_length (number : UInt64) (address : Address) (s : VotingState) :
    (updateSigners number address s).votes.length ≤ s.votes.length := by
  have hchange : ∀ authorize,
      (changeSigners number address authorize s).votes.length ≤ s.votes.length := by
    intro authorize
    cases authorize with
    | true => exact Nat.le_refl _
    | false =>
      simp only [changeSigners, Bool.false_eq_true, if_false, discardVotesOf_votes,
        removeLoop_length, evict_frame]
      exact List.length_filter_le _ _
  unfold updateSigners
  dsimp only
  split
  · simp only [discardVotesOn_votes, removeLoop_length]
    exact (List.length_filter_le _ _).trans (hchange _)
  · exact Nat.le_refl _

theorem settle_votes_length (config : Config) (vote : Vote) (s : VotingState) :
    (settle config vote s).votes.length ≤ s.votes.length + 1 := by
  have hclear : (clearVotes config vote.block s).votes.length ≤ s.votes.length := by
    unfold clearVotes
    split <;> simp
  have hdiscard : ∀ t : VotingState,
      (discardVote vote.signer vote.address t).votes.length ≤ t.votes.length := by
    intro t
    unfold discardVote
    split
    · exact Nat.le_refl _
    · split
      · exact Nat.le_refl _
      · exact List.length_eraseIdx_le _ _
  have hcast : ∀ t : VotingState, (castVote vote t).votes.length ≤ t.votes.length + 1 := by
    intro t
    rw [castVote_votes]
    split <;> simp
  calc
    _ ≤ (record config vote s).votes.length := updateSigners_votes_length _ _ _
    _ ≤ (discarded config vote s).votes.length + 1 := hcast _
    _ ≤ s.votes.length + 1 := by
      apply Nat.succ_le_succ
      exact (hdiscard _).trans (by simpa using hclear)

theorem newState_invariant (signers : List Address) : VoteInvariant ⟨signers.toFinset, ∅, [], ∅⟩ :=
  ⟨tallied_empty _, by simp, by simp⟩

theorem voteInvariant_of_reachable {lib : Primitives} {config : Config} {s : Snapshot}
    (h : Reachable lib config s) : VoteInvariant s.toVotingState := by
  refine h.invariant newState_invariant ?_
  intro a header b ha hstep
  obtain ⟨signer, authorize, -, hsigner, -, -, rfl⟩ := applyHeader_eq_ok_iff.mp hstep
  exact settle_invariant ha config hsigner

/-- In every reachable snapshot the tally of an address is the positive number of the
votes on it, which all carry its flag; the flag tells whether the address is yet to be
authorized.  Nobody votes twice on an address, only signers vote, and no vote is
missing from the tally. -/
theorem tally_accounts_for_votes (lib : Primitives) (config : Config) (s : Snapshot)
    (h : Reachable lib config s) :
    (∀ address tally, s.tally.lookup address = some tally → 0 < tally.votes ∧
      tally.votes = (s.votes.countP fun vote => vote.address = address : Nat) ∧
      (∀ vote ∈ s.votes, vote.address = address → vote.authorize = tally.authorize) ∧
      (tally.authorize = true ↔ address ∉ s.signers)) ∧
    (s.votes.Pairwise fun a b => ¬ (a.signer = b.signer ∧ a.address = b.address)) ∧
    (∀ vote ∈ s.votes, vote.signer ∈ s.signers) ∧
    (∀ vote ∈ s.votes, vote.address ∈ s.tally) := by
  have hinv := voteInvariant_of_reachable h
  refine ⟨?_, hinv.unique, hinv.voter_mem, ?_⟩
  · intro address tally hlookup
    obtain ⟨hpos, hcount, hflag⟩ := hinv.tallied.votes_eq hlookup
    refine ⟨hpos, hcount, ?_, hflag⟩
    rintro vote hvote rfl
    rw [hinv.tallied.authorize_eq vote hvote, Bool.eq_iff_iff, decide_eq_true_iff, hflag]
  · intro vote hvote
    have hpos := voteCount_pos hvote
    rw [Finmap.mem_iff]
    refine ⟨⟨decide (vote.address ∉ s.signers), voteCount s.votes vote.address⟩, ?_⟩
    rw [hinv.tallied.lookup_eq, tallyOf, if_neg (by omega)]

theorem tally_accounts_for_votes_of_three :
    ∃ s : Snapshot, Reachable toyPrimitives (Config.new 8 100) s ∧ s.signers.card = 3 ∧
      s.tally.lookup (toyAddress 4) = some ⟨true, 1⟩ ∧
      s.votes.length = 1 ∧ ∀ vote ∈ s.votes, vote.signer ∈ s.signers := by
  obtain ⟨s, happly, hs⟩ := exists_ok_of_map (f := fun s : Snapshot =>
      (s.signers.card, s.tally.lookup (toyAddress 4), s.votes.length))
    (x := (newSnapshot 0 default [toyAddress 1, toyAddress 2, toyAddress 3]).apply
      toyPrimitives (Config.new 8 100) [toyVote (toyHeader 1 2 (toyAddress 1)) (toyAddress 4) true])
    (v := (3, some ⟨true, 1⟩, 1)) (by decide +kernel)
  obtain ⟨hcard, htally, hlength⟩ : s.signers.card = 3 ∧
      s.tally.lookup (toyAddress 4) = some ⟨true, 1⟩ ∧ s.votes.length = 1 := by
    simpa using hs
  have hreachable : Reachable toyPrimitives (Config.new 8 100) s :=
    .apply _ (.new 0 default _) happly
  exact ⟨s, hreachable, hcard, htally, hlength, (tally_accounts_for_votes _ _ s hreachable).2.2.1⟩

end N42.VoteAccounting
