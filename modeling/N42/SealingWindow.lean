import N42.SlidingWindow
import N42.VotingSnapshot

/-!
The recent sealers of a snapshot track the sealers of the blocks applied to it, so that
nobody seals twice within half of the signers plus one block.
-/

namespace N42.SealingWindow

open FallibleRuns
open SlidingWindow (Tracks tracks_empty)
open ChainTypes BlockHeader HeaderSealing VotingSnapshot
open VotingSnapshot.VotingState

section

variable (s : VotingState)

def window (number : Nat) : Option Address :=
  if number < 2 ^ 64 then s.recents.lookup (UInt64.ofNat number) else none

theorem window_toNat (number : UInt64) : window s number.toNat = s.recents.lookup number := by
  rw [window, if_pos number.toNat_lt, UInt64.ofNat_toNat]

theorem window_congr {s t : VotingState} (h : s.recents = t.recents) : window s = window t := by
  funext number
  rw [window, window, h]

theorem ofNat_eq_iff {i : Nat} (hi : i < 2 ^ 64) (number : UInt64) :
    UInt64.ofNat i = number ↔ i = number.toNat := by
  constructor
  · rintro rfl
    exact (UInt64.toNat_ofNat_of_lt hi).symm
  · rintro rfl
    exact UInt64.ofNat_toNat

theorem window_evict (number : UInt64) (s : VotingState) :
    window (evict number s) = SlidingWindow.evict number.toNat s.limit (window s) := by
  funext i
  have hnumber := number.toNat_lt
  rw [SlidingWindow.evict, window, window, VotingState.evict]
  rcases Nat.lt_or_ge number.toNat s.limit with hlt | hge
  · rw [if_neg (Nat.not_le.mpr hlt), if_neg (show ¬ i + s.limit = number.toNat by omega)]
  · have hsub : (number - UInt64.ofNat s.limit).toNat = number.toNat - s.limit := by
      have hlimit : (UInt64.ofNat s.limit).toNat = s.limit :=
        UInt64.toNat_ofNat_of_lt (show s.limit < 2 ^ 64 by omega)
      rw [UInt64.toNat_sub_of_le _ _ (by rw [UInt64.le_iff_toNat_le, hlimit]; exact hge), hlimit]
    rw [if_pos hge]
    rcases Nat.lt_or_ge i (2 ^ 64) with hi | hi
    · rw [if_pos hi, if_pos hi]
      rcases eq_or_ne (i + s.limit) number.toNat with heq | hne
      · rw [if_pos heq, (ofNat_eq_iff hi (number - UInt64.ofNat s.limit)).mpr (by omega)]
        exact Finmap.lookup_erase _ _
      · rw [if_neg hne]
        refine Finmap.lookup_erase_ne ?_
        rw [Ne, ofNat_eq_iff hi]
        omega
    · rw [if_neg (by omega), if_neg (by omega), if_neg (by omega)]

theorem window_insert (number : UInt64) (signer : Address) :
    window { s with recents := s.recents.insert number signer } =
      Function.update (window s) number.toNat (some signer) := by
  funext i
  rcases eq_or_ne i number.toNat with rfl | hne
  · rw [Function.update_self, window_toNat]
    exact Finmap.lookup_insert _
  · rw [Function.update_of_ne hne, window, window]
    rcases Nat.lt_or_ge i (2 ^ 64) with hi | hi
    · rw [if_pos hi, if_pos hi]
      refine Finmap.lookup_insert_of_ne _ ?_
      rw [Ne, ofNat_eq_iff hi]
      exact hne
    · rw [if_neg (by omega), if_neg (by omega)]

theorem recentlySigned_iff_window (signer : Address) :
    s.recentlySigned signer = true ↔ ∃ i, window s i = some signer := by
  rw [recentlySigned_iff]
  constructor
  · rintro ⟨seen, hseen⟩
    exact ⟨seen.toNat, by rw [window_toNat, hseen]⟩
  · rintro ⟨i, hi⟩
    rw [window] at hi
    split at hi
    · exact ⟨_, hi⟩
    · cases hi

theorem limit_pos : 0 < s.limit :=
  Nat.succ_pos _

end

theorem window_record (config : Config) (vote : Vote) (s : VotingState) :
    window (record config vote s) =
      Function.update (SlidingWindow.evict vote.block.toNat s.limit (window s))
        vote.block.toNat (some vote.signer) := by
  rw [← window_evict, ← window_insert]
  exact window_congr (record_recents config vote s)

variable {s : VotingState} {history : Nat → Option Address}

theorem settle_tracks {now : Nat} (config : Config) (vote : Vote)
    (hblock : vote.block.toNat = now + 1) (h : Tracks history (window s) now s.limit) :
    Tracks (Function.update history (now + 1) (some vote.signer))
      (window (settle config vote s)) (now + 1) (settle config vote s).limit := by
  have hsigners := updateSigners_signers vote.block vote.address (record config vote s)
  have hrecents := updateSigners_recents vote.block vote.address (record config vote s)
  have hwindow := window_record config vote s
  rw [hblock] at hwindow
  rw [record_signers] at hsigners
  rw [settle]
  cases hverdict : verdict vote.address (record config vote s) with
  | none =>
    simp only [hverdict, reduceCtorEq, if_false] at hsigners hrecents
    have hlimit : (updateSigners vote.block vote.address (record config vote s)).limit =
        s.limit := by
      rw [limit, hsigners, limit]
    rw [window_congr hrecents, hwindow]
    exact h.record _ (limit_pos _) (by omega) (by omega)
  | some authorize =>
    cases authorize with
    | true =>
      simp only [hverdict, Option.some.injEq, Bool.true_eq_false, if_false] at hsigners hrecents
      have hle := Finset.card_le_card (Finset.subset_insert vote.address s.signers)
      have hge := Finset.card_insert_le vote.address s.signers
      have hlimit : (updateSigners vote.block vote.address (record config vote s)).limit =
          (insert vote.address s.signers).card / 2 + 1 := by
        rw [limit, hsigners]
      have hs : s.limit = s.signers.card / 2 + 1 := rfl
      rw [window_congr hrecents, hwindow]
      exact h.record _ (limit_pos _) (by omega) (by omega)
    | false =>
      simp only [hverdict, if_true, record_signers] at hsigners hrecents
      have hle := Finset.card_erase_le (s := s.signers) (a := vote.address)
      have hge := Finset.pred_card_le_card_erase (s := s.signers) (a := vote.address)
      have hlimit : (updateSigners vote.block vote.address (record config vote s)).limit =
          (s.signers.erase vote.address).card / 2 + 1 := by
        rw [limit, hsigners]
      have hs : s.limit = s.signers.card / 2 + 1 := rfl
      rw [window_congr hrecents, window_evict, hblock, hlimit]
      have hsame : window { record config vote s with
          signers := s.signers.erase vote.address } = window (record config vote s) :=
        window_congr rfl
      have hshrunk : ({ record config vote s with
          signers := s.signers.erase vote.address } : VotingState).limit =
          (s.signers.erase vote.address).card / 2 + 1 := rfl
      rw [hsame, hwindow, hshrunk]
      exact h.shrink _ (by omega) (by omega) (by omega)

def sealers (lib : Primitives) (start : Nat) (headers : List Header) (number : Nat) :
    Option Address :=
  if start < number then
    (headers[number - start - 1]?).bind fun h => (ecrecover lib h).toOption
  else none

theorem sealers_nil (lib : Primitives) (start : Nat) : sealers lib start [] = fun _ => none := by
  funext number
  simp [sealers]

variable {headers : List Header} {lib : Primitives}

theorem sealers_concat {start : Nat} {h : Header} {signer : Address}
    (hsigner : ecrecover lib h = .ok signer) :
    sealers lib start (headers ++ [h]) =
      Function.update (sealers lib start headers) (start + headers.length + 1) (some signer) := by
  funext number
  rcases eq_or_ne number (start + headers.length + 1) with rfl | hne
  · have hindex : start + headers.length + 1 - start - 1 = headers.length := by omega
    rw [Function.update_self, sealers, if_pos (by omega), hindex]
    simp [hsigner, Except.toOption]
  · rw [Function.update_of_ne hne, sealers, sealers]
    split
    · rcases Nat.lt_or_ge (number - start - 1) headers.length with hlt | hge
      · rw [List.getElem?_append_left hlt]
      · rw [List.getElem?_eq_none (by simp; omega), List.getElem?_eq_none hge]
    · rfl

variable {config : Config}

theorem apply_tracks {start : UInt64} {hash : Hash} {signers : List Address}
    (hfollows : follows start headers = true) (hlength : start.toNat + headers.length < 2 ^ 64)
    (hrun : run (applyHeader lib config) (newSnapshot start hash signers).toVotingState
      headers = .ok s) :
    Tracks (sealers lib start.toNat headers) (window s) (start.toNat + headers.length) s.limit := by
  have h := run_invariant (fun i a =>
    Tracks (sealers lib start.toNat (headers.take i)) (window a) (start.toNat + i) a.limit)
    hrun ?_ ?_
  · simpa using h
  · have hempty : window (newSnapshot start hash signers).toVotingState = fun _ => none := by
      funext number
      rw [window]
      split
      · exact Finmap.lookup_empty _
      · rfl
    rw [List.take_zero, sealers_nil, hempty]
    exact tracks_empty _ _
  · intro i hi a b ha hb
    obtain ⟨signer, authorize, hsigner, -, -, -, rfl⟩ := applyHeader_eq_ok_iff.mp hb
    have hnumber := follows_toNat hfollows hlength i hi
    have htake : (headers.take i).length = i := by
      rw [List.length_take]
      omega
    rw [List.take_succ_eq_append_getElem hi, sealers_concat hsigner, htake]
    exact settle_tracks config ⟨signer, headers[i].number64, _, authorize⟩ hnumber ha

theorem snapshot_tracks {start : UInt64} {hash : Hash} {signers : List Address} {s : Snapshot}
    (happly : (newSnapshot start hash signers).apply lib config headers = .ok s)
    (hlength : start.toNat + headers.length < 2 ^ 64) :
    s.number.toNat = start.toNat + headers.length ∧
      Tracks (sealers lib start.toNat headers) (window s.toVotingState) s.number.toNat s.limit ∧
      ∀ i, s.number.toNat < i → sealers lib start.toNat headers i = none := by
  obtain ⟨hfollows, hrun, hextend⟩ := Snapshot.apply_eq_ok_iff.mp happly
  have hnumber : s.number.toNat = start.toNat + headers.length := by
    rw [hextend]
    simp only [Snapshot.extend, newSnapshot, UInt64.toNat_add, UInt64.toNat_ofNat']
    omega
  rw [hnumber]
  refine ⟨rfl, apply_tracks hfollows hlength hrun, ?_⟩
  intro i hi
  rw [sealers, List.getElem?_eq_none (by omega)]
  simp

theorem number64_toNat_of_next {s : Snapshot} {h : Header}
    (hnumber : h.number64 = s.number + 1) (hroom : s.number.toNat + 1 < 2 ^ 64) :
    h.number64.toNat = s.number.toNat + 1 := by
  rw [hnumber, UInt64.toNat_add, UInt64.toNat_one, Nat.mod_eq_of_lt hroom]

theorem recentlySigned_evict_iff {now : Nat} {number : UInt64} (hnumber : number.toNat = now + 1)
    (h : Tracks history (window s) now s.limit) (signer : Address) :
    (evict number s).recentlySigned signer = true ↔
      ∃ i, now + 1 < i + s.limit ∧ history i = some signer := by
  rw [recentlySigned_iff_window, window_evict, hnumber, h.evict_eq]
  apply exists_congr
  intro i
  dsimp only
  split
  · rename_i hrecent
    simp [hrecent]
  · rename_i hold
    simp [hold]

theorem sealers_getElem (lib : Primitives) (start : Nat) (headers : List Header) (i : Nat)
    (hi : i < headers.length) :
    sealers lib start headers (start + i + 1) = (ecrecover lib headers[i]).toOption := by
  have hindex : start + i + 1 - start - 1 = i := by omega
  rw [sealers, if_pos (by omega), hindex, List.getElem?_eq_getElem hi, Option.bind_some]

theorem apply_take {s t : Snapshot} (h : s.apply lib config headers = .ok t) (j : Nat)
    (hj : j < headers.length) :
    ∃ before after : Snapshot, s.apply lib config (headers.take j) = .ok before ∧
      s.apply lib config (headers.take (j + 1)) = .ok after ∧
      applyHeader lib config before.toVotingState headers[j] = .ok after.toVotingState := by
  obtain ⟨hfollows, hrun, -⟩ := Snapshot.apply_eq_ok_iff.mp h
  have hfront : ∀ k, follows s.number (headers.take k) = true := by
    intro k
    rw [← List.take_append_drop k headers, follows_append, Bool.and_eq_true] at hfollows
    exact hfollows.1
  obtain ⟨m, htake, -⟩ := run_split hrun (j + 1)
  have hsplit := htake
  rw [List.take_succ_eq_append_getElem hj, run_concat_eq_ok_iff] at hsplit
  obtain ⟨b, hbefore, hstep⟩ := hsplit
  exact ⟨s.extend lib (headers.take j) b, s.extend lib (headers.take (j + 1)) m,
    Snapshot.apply_eq_ok_iff.mpr ⟨hfront j, hbefore, rfl⟩,
    Snapshot.apply_eq_ok_iff.mpr ⟨hfront (j + 1), htake, rfl⟩, hstep⟩

/-- Every block is sealed by one of the signers in force before it, and by none of the
sealers of the last blocks before it, as many as half of these signers. -/
theorem sealer_authorized_and_not_recent (lib : Primitives) (config : Config)
    (number : UInt64) (hash : Hash) (signers : List Address) (headers : List Header)
    (s : Snapshot)
    (happly : (newSnapshot number hash signers).apply lib config headers = .ok s)
    (hlength : number.toNat + headers.length < 2 ^ 64) (j : Nat) (hj : j < headers.length) :
    ∃ (before : Snapshot) (signer : Address),
      (newSnapshot number hash signers).apply lib config (headers.take j) = .ok before ∧
      ecrecover lib headers[j] = .ok signer ∧ signer ∈ before.signers ∧ ∀ (i : Nat) (hi : i < j),
        headers[i].number64.toNat < headers[j].number64.toNat ∧
        (headers[j].number64.toNat - headers[i].number64.toNat <
          before.signers.card / 2 + 1 → ecrecover lib headers[i] ≠ .ok signer) := by
  obtain ⟨before, after, hbefore, -, hafter⟩ := apply_take happly j hj
  obtain ⟨signer, authorize, hsigner, hmem, hfresh, -, -⟩ := applyHeader_eq_ok_iff.mp hafter
  refine ⟨before, signer, hbefore, hsigner, hmem, ?_⟩
  intro i hi
  have hfollows := (Snapshot.apply_eq_ok_iff.mp happly).1
  have hnumber := follows_toNat hfollows hlength
  have hi' := hnumber i (by omega)
  have hj' := hnumber j hj
  simp only [newSnapshot] at hi' hj'
  refine ⟨by omega, ?_⟩
  intro hrecent hsame
  have htake : (headers.take j).length = j := by
    rw [List.length_take]
    omega
  obtain ⟨hbeforeNumber, htracks, -⟩ := snapshot_tracks hbefore (by omega)
  rw [htake] at hbeforeNumber
  have hsigned : (evict headers[j].number64 before.toVotingState).recentlySigned signer = true := by
    rw [recentlySigned_evict_iff (hj'.trans (by rw [hbeforeNumber])) htracks]
    refine ⟨number.toNat + i + 1, ?_, ?_⟩
    · rw [limit]
      omega
    · rw [sealers_getElem _ _ _ i (by omega), List.getElem_take, hsame]
      rfl
  rw [hfresh] at hsigned
  cases hsigned

def toyChain : List Header :=
  [toyVote (toyHeader 1 2 (toyAddress 2)) (toyAddress 4) true,
    toyVote (toyHeader 2 2 (toyAddress 3)) (toyAddress 4) true, toyHeader 3 1 (toyAddress 1)]

theorem sealer_authorized_and_not_recent_of_four :
    ∃ (s before : Snapshot) (signer : Address),
      (newSnapshot 0 default [toyAddress 1, toyAddress 2, toyAddress 3]).apply toyPrimitives
        (Config.new 8 100) toyChain = .ok s ∧ s.signers.card = 4 ∧
      (newSnapshot 0 default [toyAddress 1, toyAddress 2, toyAddress 3]).apply toyPrimitives
        (Config.new 8 100) (toyChain.take 2) = .ok before ∧
      ecrecover toyPrimitives toyChain[2] = .ok signer ∧ signer ∈ before.signers ∧
      (toyChain[2].number64.toNat - toyChain[1].number64.toNat <
        before.signers.card / 2 + 1 → ecrecover toyPrimitives toyChain[1] ≠ .ok signer) := by
  obtain ⟨s, happly, hcard⟩ := exists_ok_of_map (f := fun s : Snapshot => s.signers.card)
    (x := (newSnapshot 0 default [toyAddress 1, toyAddress 2, toyAddress 3]).apply
      toyPrimitives (Config.new 8 100) toyChain) (v := 4) (by decide +kernel)
  obtain ⟨before, signer, hbefore, hsigner, hmem, hfresh⟩ :=
    sealer_authorized_and_not_recent _ _ _ _ _ _ s happly (by decide) 2 (by decide)
  exact ⟨s, before, signer, happly, hcard, hbefore, hsigner, hmem, (hfresh 1 (by decide)).2⟩

end N42.SealingWindow
