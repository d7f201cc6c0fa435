import N42.SealingWindow

/-!
The three places that keep a recent sealer from sealing again: `apply`, `verifySeal`
and `Seal`.  Only `verifySeal` subtracts the window from the block number without
asking first whether the number is large enough.
-/

namespace N42.SealVerification

open FallibleRuns
open SlidingWindow (Tracks)
open ChainTypes BlockHeader HeaderSealing VotingSnapshot
open VotingSnapshot.VotingState SealingWindow

def diffInTurn : Uint256 := 2

def diffNoTurn : Uint256 := 1

/-- Does the difficulty correspond to the turn-ness of the signer?  Comparing a missing
difficulty panics. -/
def verifyDifficulty (fakeDiff : Bool) (snap : VotingState) (h : Header)
    (signer : Address) : Except AposError Unit :=
  if fakeDiff then .ok ()
  else do
    let inturn ← snap.inturn h.number64 signer
    match h.difficulty with
    | none => .error .panic
    | some difficulty =>
      if inturn && difficulty != diffInTurn then .error .errWrongDifficulty
      else if !inturn && difficulty != diffNoTurn then .error .errWrongDifficulty
      else .ok ()

/-- The sealer is among the recents and the block does not shift it out; the
subtraction is that of 64-bit integers. -/
def seenRecently (snap : VotingState) (number : UInt64) (signer : Address) : Bool :=
  decide (∃ seen ∈ snap.recents.keys, snap.recents.lookup seen = some signer ∧
    seen > number - UInt64.ofNat snap.limit)

def verifySeal (lib : Primitives) (fakeDiff : Bool) (snap : VotingState) (h : Header) :
    Except AposError Unit :=
  if h.number64 = 0 then .error .errUnknownBlock
  else do
    let signer ← ecrecover lib h
    if signer ∉ snap.signers then .error .errUnauthorizedSigner
    else if seenRecently snap h.number64 signer then .error .errRecentlySigned
    else verifyDifficulty fakeDiff snap h signer

def sealChecks (config : Config) (snap : VotingState) (signer : Address)
    (number : UInt64) (transactions : Nat) : Except AposError Unit :=
  if number = 0 then .error .errUnknownBlock
  else if config.period = 0 ∧ transactions = 0 then .error .sealingPaused
  else if signer ∉ snap.signers then .error .errUnauthorizedSigner
  else if decide (∃ seen ∈ snap.recents.keys, snap.recents.lookup seen = some signer ∧
      (number.toNat < snap.limit ∨ seen > number - UInt64.ofNat snap.limit)) then
    .error .mustWaitForOthers
  else .ok ()

theorem exists_keys_iff (recents : Recents) (signer : Address) (p : UInt64 → Prop) :
    (∃ seen ∈ recents.keys, recents.lookup seen = some signer ∧ p seen) ↔
      ∃ seen, recents.lookup seen = some signer ∧ p seen := by
  constructor
  · rintro ⟨seen, -, h⟩
    exact ⟨seen, h⟩
  · rintro ⟨seen, h⟩
    exact ⟨seen, Finmap.mem_keys.mpr (Finmap.mem_iff.mpr ⟨signer, h.1⟩), h⟩

theorem seenRecently_iff (snap : VotingState) (number : UInt64) (signer : Address) :
    seenRecently snap number signer = true ↔ ∃ seen, snap.recents.lookup seen = some signer ∧
        seen > number - UInt64.ofNat snap.limit := by
  rw [seenRecently, decide_eq_true_eq, exists_keys_iff]

section Parent

variable {s : VotingState} {history : Nat → Option Address} {now : Nat} {number : UInt64}

section

variable (hnumber : number.toNat = now + 1) (h : Tracks history (window s) now s.limit)
include hnumber h

theorem exists_seen_iff_of_le (hle : s.limit ≤ number.toNat) (signer : Address) :
    (∃ seen, s.recents.lookup seen = some signer ∧ seen > number - UInt64.ofNat s.limit) ↔
      (evict number s).recentlySigned signer = true := by
  have hlimit : (UInt64.ofNat s.limit).toNat = s.limit := by
    have := number.toNat_lt
    exact UInt64.toNat_ofNat_of_lt (show s.limit < 2 ^ 64 by omega)
  have hsub : (number - UInt64.ofNat s.limit).toNat = number.toNat - s.limit := by
    rw [UInt64.toNat_sub_of_le _ _ (by rw [UInt64.le_iff_toNat_le, hlimit]; exact hle), hlimit]
  rw [recentlySigned_evict_iff hnumber h]
  constructor
  · rintro ⟨seen, hseen, hgt⟩
    rw [gt_iff_lt, UInt64.lt_iff_toNat_lt, hsub] at hgt
    rw [← window_toNat] at hseen
    exact ⟨seen.toNat, by omega, h.history_eq hseen⟩
  · rintro ⟨i, hi, hsealer⟩
    have hwindow : window s i = some signer := by
      rw [h.recent i hi, hsealer]
    have hlt : i < 2 ^ 64 := by
      by_contra hge
      rw [window, if_neg hge] at hwindow
      cases hwindow
    have hnat : (UInt64.ofNat i).toNat = i := UInt64.toNat_ofNat_of_lt hlt
    refine ⟨UInt64.ofNat i, ?_, ?_⟩
    · rw [← window_toNat, hnat, hwindow]
    · rw [gt_iff_lt, UInt64.lt_iff_toNat_lt, hsub, hnat]
      omega

theorem not_exists_seen_of_lt (hpast : ∀ i, now < i → history i = none)
    (hlt : number.toNat < s.limit) (hcard : s.signers.card < 2 ^ 63) (signer : Address) :
    ¬ ∃ seen, s.recents.lookup seen = some signer ∧ seen > number - UInt64.ofNat s.limit := by
  rintro ⟨seen, hseen, hgt⟩
  have hlimit : (UInt64.ofNat s.limit).toNat = s.limit := by
    rw [limit]
    exact UInt64.toNat_ofNat_of_lt (show s.signers.card / 2 + 1 < 2 ^ 64 by omega)
  have hsmall : s.limit < 2 ^ 64 := by
    rw [limit]
    omega
  rw [gt_iff_lt, UInt64.lt_iff_toNat_lt, UInt64.toNat_sub, hlimit] at hgt
  rw [← window_toNat] at hseen
  have hpresent := h.history_eq hseen
  have hle : seen.toNat ≤ now := by
    by_contra hlate
    rw [hpast _ (by omega)] at hpresent
    cases hpresent
  rw [Nat.mod_eq_of_lt (by omega)] at hgt
  omega

theorem sealChecks_recent_iff (signer : Address) :
    (∃ seen, s.recents.lookup seen = some signer ∧
        (number.toNat < s.limit ∨ seen > number - UInt64.ofNat s.limit)) ↔
      (evict number s).recentlySigned signer = true := by
  rcases Nat.lt_or_ge number.toNat s.limit with hlt | hge
  · have hevict : evict number s = s := by
      rw [VotingState.evict, if_neg (Nat.not_le.mpr hlt)]
    rw [hevict, recentlySigned_iff]
    simp [hlt]
  · rw [← exists_seen_iff_of_le hnumber h hge]
    simp [Nat.not_lt.mpr hge]

end

end Parent

variable {lib : Primitives} {h : Header}

theorem verifySeal_eq_ok_iff {fakeDiff : Bool} {snap : VotingState} :
    verifySeal lib fakeDiff snap h = .ok () ↔
      h.number64 ≠ 0 ∧ ∃ signer, ecrecover lib h = .ok signer ∧ signer ∈ snap.signers ∧
        (¬ ∃ seen, snap.recents.lookup seen = some signer ∧
          seen > h.number64 - UInt64.ofNat snap.limit) ∧
        verifyDifficulty fakeDiff snap h signer = .ok () := by
  rw [verifySeal]
  split
  · rename_i hzero
    simp [hzero]
  · rename_i hpos
    rw [bind_eq_ok_iff]
    simp only [ne_eq, hpos, not_false_eq_true, true_and]
    apply exists_congr
    intro signer
    rw [← seenRecently_iff]
    split
    · rename_i hnot
      simp [hnot]
    · rename_i hmem
      rw [not_not] at hmem
      split
      · rename_i hseen
        simp [hseen]
      · rename_i hfresh
        simp [hmem, hfresh]

variable {config : Config}

theorem apply_singleton {s : Snapshot} (hnumber : h.number64 = s.number + 1) :
    s.apply lib config [h] =
      applyHeader lib config s.toVotingState h >>= fun state => .ok (s.extend lib [h] state) := by
  have hfollows : follows s.number [h] = true := by
    simp [follows, hnumber]
  rw [Snapshot.apply_eq, if_pos hfollows, run_cons]
  cases applyHeader lib config s.toVotingState h <;> rfl

theorem voteOf_error {nonce : BlockNonce} {e : AposError} (h : voteOf nonce = .error e) :
    e = .errInvalidVote := by
  rw [voteOf] at h
  split at h
  · cases h
  · split at h
    · cases h
    · cases h
      rfl

variable {signer : Address}

section

variable {s : Snapshot} (hnumber : h.number64 = s.number + 1)
  (hsigner : ecrecover lib h = .ok signer) (hmem : signer ∈ s.signers)
include hnumber hsigner hmem

theorem apply_singleton_error
    (hfresh : (evict h.number64 s.toVotingState).recentlySigned signer = false) {e : AposError}
    (he : s.apply lib config [h] = .error e) : e = .errInvalidVote := by
  rw [apply_singleton hnumber, applyHeader_eq, hsigner] at he
  simp only [bind, Except.bind, hmem, not_true_eq_false, if_false, hfresh, Bool.false_eq_true] at he
  cases hvote : voteOf h.nonce with
  | error cause =>
    rw [hvote] at he
    cases he
    exact voteOf_error hvote
  | ok authorize =>
    rw [hvote] at he
    cases he

theorem apply_singleton_recent
    (hrecent : (evict h.number64 s.toVotingState).recentlySigned signer = true) :
    s.apply lib config [h] = .error .errRecentlySigned := by
  rw [apply_singleton hnumber, applyHeader_eq, hsigner]
  simp [bind, Except.bind, hmem, hrecent]

end

/-- `verifySeal` and `apply` agree on the sealer of a header exactly if the header is not
one of the first blocks, sealed once more by an authorized recent sealer. -/
theorem verifySeal_agrees_with_apply_iff (lib : Primitives) (config : Config)
    (fakeDiff : Bool) (start : UInt64) (hash : Hash) (signers : List Address)
    (headers : List Header) (s : Snapshot) (h : Header)
    (hs : (newSnapshot start hash signers).apply lib config headers = .ok s)
    (hlength : start.toNat + headers.length + 1 < 2 ^ 64)
    (hnumber : h.number64 = s.number + 1) (hcard : s.signers.card < 2 ^ 63) :
    ((verifySeal lib fakeDiff s.toVotingState h = .ok () →
        ∀ e, s.apply lib config [h] = .error e → e = .errInvalidVote) ∧
      (s.apply lib config [h] = .error .errRecentlySigned →
        verifySeal lib fakeDiff s.toVotingState h ≠ .ok ())) ↔
    (h.number64.toNat < s.signers.card / 2 + 1 →
      ∀ signer, ecrecover lib h = .ok signer → signer ∈ s.signers →
        verifyDifficulty fakeDiff s.toVotingState h signer = .ok () →
        s.recentlySigned signer = false) := by
  obtain ⟨hlast, htracks, hpast⟩ := snapshot_tracks hs (by omega)
  have hnat := number64_toNat_of_next hnumber (by omega)
  constructor
  · rintro ⟨haccept, -⟩ hlt signer hsigner hmem hdifficulty
    by_contra hrecent
    have hunchanged : evict h.number64 s.toVotingState = s.toVotingState := by
      exact if_neg (Nat.not_le.mpr hlt)
    have hok : verifySeal lib fakeDiff s.toVotingState h = .ok () := by
      refine verifySeal_eq_ok_iff.mpr ⟨?_, signer, hsigner, hmem, ?_, hdifficulty⟩
      · intro hzero
        rw [hzero] at hnat
        cases hnat
      · exact not_exists_seen_of_lt hnat htracks hpast hlt hcard signer
    have herror : s.apply lib config [h] = .error .errRecentlySigned := by
      refine apply_singleton_recent hnumber hsigner hmem ?_
      rw [hunchanged]
      simpa using hrecent
    cases haccept hok _ herror
  · intro hcondition
    have haccept : verifySeal lib fakeDiff s.toVotingState h = .ok () →
        ∀ e, s.apply lib config [h] = .error e → e = .errInvalidVote := by
      intro hok e he
      obtain ⟨-, signer, hsigner, hmem, hseen, hdifficulty⟩ := verifySeal_eq_ok_iff.mp hok
      refine apply_singleton_error hnumber hsigner hmem ?_ he
      rcases Nat.lt_or_ge h.number64.toNat s.limit with hlt | hge
      · rw [VotingState.evict, if_neg (Nat.not_le.mpr hlt)]
        exact hcondition hlt signer hsigner hmem hdifficulty
      · rw [exists_seen_iff_of_le hnat htracks hge] at hseen
        simpa using hseen
    refine ⟨haccept, ?_⟩
    intro herror hok
    cases haccept hok _ herror

/-- A block for which `Seal` has passed its checks is refused by `apply` for nothing but its
vote. -/
theorem apply_of_sealChecks {start : UInt64} {hash : Hash} {signers : List Address}
    {headers : List Header} {s : Snapshot} {transactions : Nat} {e : AposError}
    (hs : (newSnapshot start hash signers).apply lib config headers = .ok s)
    (hlength : start.toNat + headers.length + 1 < 2 ^ 64)
    (hnumber : h.number64 = s.number + 1) (hsigner : ecrecover lib h = .ok signer)
    (hseal : sealChecks config s.toVotingState signer h.number64 transactions = .ok ())
    (he : s.apply lib config [h] = .error e) : e = .errInvalidVote := by
  obtain ⟨hlast, htracks, -⟩ := snapshot_tracks hs (by omega)
  have hnat := number64_toNat_of_next hnumber (by omega)
  unfold sealChecks at hseal
  split_ifs at hseal with _ _ hmem hseen
  refine apply_singleton_error hnumber hsigner hmem ?_ he
  rw [decide_eq_true_eq, exists_keys_iff, sealChecks_recent_iff hnat htracks] at hseen
  exact Bool.eq_false_iff.mpr hseen

def toySigners : List Address :=
  [toyAddress 1, toyAddress 2, toyAddress 3, toyAddress 4]

theorem toy_first_block :
    ∃ s : Snapshot, (newSnapshot 0 default toySigners).apply toyPrimitives (Config.new 8 100)
        [toyHeader 1 2 (toyAddress 2)] = .ok s ∧ s.number = 1 ∧
      s.toVotingState = ⟨toySigners.toFinset, (∅ : Recents).insert 1 (toyAddress 2), [], ∅⟩ := by
  obtain ⟨s, happly, hs⟩ := exists_ok_of_map (f := fun s : Snapshot =>
      (s.number, s.toVotingState))
    (x := (newSnapshot 0 default toySigners).apply toyPrimitives (Config.new 8 100)
      [toyHeader 1 2 (toyAddress 2)])
    (v := (1, ⟨toySigners.toFinset, (∅ : Recents).insert 1 (toyAddress 2), [], ∅⟩))
    (by decide +kernel)
  obtain ⟨hnumber, hstate⟩ := Prod.mk.inj hs
  exact ⟨s, happly, hnumber, hstate⟩

theorem apply_of_sealChecks_toy : ∃ s : Snapshot, s.number = 1 ∧
    ∀ e, s.apply toyPrimitives (Config.new 8 100) [toyHeader 2 2 (toyAddress 3)] = .error e →
      e = .errInvalidVote := by
  obtain ⟨s, happly, hnumber, hstate⟩ := toy_first_block
  refine ⟨s, hnumber, fun e => @apply_of_sealChecks _ _ _ (toyAddress 3) _ _ _ _ _ 1 _ happly
    (by decide) ?_ (by decide) ?_⟩
  · rw [hnumber]
    decide
  · rw [hstate]
    decide

theorem verifyDifficulty_of_sorted {s : VotingState} {signers : List Address}
    (hsorted : s.sortedSigners = signers) {header : Header} (turn : Bool) (hne : signers ≠ [])
    (hturn : (header.number64 % UInt64.ofNat signers.length ==
      UInt64.ofNat (signers.idxOf signer)) = turn)
    (hdifficulty : header.difficulty = some (if turn then diffInTurn else diffNoTurn)) :
    verifyDifficulty false s header signer = .ok () := by
  have hinturn : s.inturn header.number64 signer = .ok turn := by
    rw [inturn, hsorted, ← hturn]
    exact if_neg (by simpa using hne)
  rw [verifyDifficulty, if_neg (by decide), hinturn, hdifficulty]
  cases turn <;> rfl

theorem toy_verifyDifficulty {s : VotingState} (h : s.signers = toySigners.toFinset)
    {header : Header} (turn : Bool)
    (hturn : (header.number64 % 4 == UInt64.ofNat (toySigners.idxOf signer)) = turn)
    (hdifficulty : header.difficulty = some (if turn then diffInTurn else diffNoTurn)) :
    verifyDifficulty false s header signer = .ok () :=
  verifyDifficulty_of_sorted (sortedSigners_eq h (by decide)) turn (by decide) hturn hdifficulty

/-- The sealer of block 1 seals block 2 as well: `verifySeal` accepts it and `apply`
does not. -/
theorem recent_sealer_passes_verifySeal :
    ∃ (s : Snapshot) (h : Header),
      (newSnapshot 0 default toySigners).apply toyPrimitives (Config.new 8 100)
        [toyHeader 1 2 (toyAddress 2)] = .ok s ∧ h.number64 = s.number + 1 ∧
      verifySeal toyPrimitives false s.toVotingState h = .ok () ∧
      s.apply toyPrimitives (Config.new 8 100) [h] = .error .errRecentlySigned := by
  obtain ⟨s, happly, hnumber, hstate⟩ := toy_first_block
  have hfollows : (toyHeader 2 1 (toyAddress 2)).number64 = s.number + 1 := by
    rw [hnumber]
    decide
  refine ⟨s, toyHeader 2 1 (toyAddress 2), happly, hfollows, ?_, ?_⟩
  · refine verifySeal_eq_ok_iff.mpr ⟨by decide, toyAddress 2, by decide, ?_, ?_, ?_⟩
    · rw [hstate]
      decide
    · rw [← seenRecently_iff, hstate]
      decide
    · rw [hstate]
      exact toy_verifyDifficulty rfl false (by decide) rfl
  · have hsigner : ecrecover toyPrimitives (toyHeader 2 1 (toyAddress 2)) =
        .ok (toyAddress 2) := by decide
    refine apply_singleton_recent hfollows hsigner ?_ ?_
    · rw [hstate]
      decide
    · rw [hstate]
      decide

theorem verifySeal_agrees_with_apply_in_turn :
    ∃ (s : Snapshot) (h : Header),
      (newSnapshot 0 default toySigners).apply toyPrimitives (Config.new 8 100)
        [toyHeader 1 2 (toyAddress 2)] = .ok s ∧ h.number64 = s.number + 1 ∧
      verifySeal toyPrimitives false s.toVotingState h = .ok () ∧
      ∀ e, s.apply toyPrimitives (Config.new 8 100) [h] = .error e → e = .errInvalidVote := by
  obtain ⟨s, happly, hnumber, hstate⟩ := toy_first_block
  have hfollows : (toyHeader 2 2 (toyAddress 3)).number64 = s.number + 1 := by
    rw [hnumber]
    decide
  have hthird : ecrecover toyPrimitives (toyHeader 2 2 (toyAddress 3)) =
      .ok (toyAddress 3) := by decide
  have hok : verifySeal toyPrimitives false s.toVotingState (toyHeader 2 2 (toyAddress 3)) =
      .ok () := by
    refine verifySeal_eq_ok_iff.mpr ⟨by decide, toyAddress 3, hthird, ?_, ?_, ?_⟩
    · rw [hstate]
      decide
    · rw [← seenRecently_iff, hstate]
      decide
    · rw [hstate]
      exact toy_verifyDifficulty rfl true (by decide) rfl
  refine ⟨s, toyHeader 2 2 (toyAddress 3), happly, hfollows, hok, ?_⟩
  refine ((verifySeal_agrees_with_apply_iff toyPrimitives (Config.new 8 100) false 0 default
    toySigners _ s (toyHeader 2 2 (toyAddress 3)) happly (by decide) hfollows
    (by rw [hstate]; decide)).mpr ?_).1 hok
  intro _ signer hsigner _ _
  rw [← Except.ok.inj (hthird.symm.trans hsigner), hstate]
  decide

end N42.SealVerification
