import N42.FallibleRuns
import N42.HeaderSealing
import N42.IndexedRemoval
import Mathlib.Data.Finmap
import Mathlib.Data.Finset.Sort

/-!
The voting snapshot of the proof-of-authority engine: the authorized signers, the
recent sealers, the pending votes and their tally, and how headers change them.
-/

namespace N42.VotingSnapshot

open FallibleRuns IndexedRemoval ChainTypes BlockHeader HeaderSealing

structure Vote where
  signer : Address
  block : UInt64
  address : Address
  authorize : Bool
deriving DecidableEq

structure Tally where
  authorize : Bool
  votes : Int
deriving DecidableEq

abbrev Recents := Finmap fun _ : UInt64 => Address

abbrev TallyMap := Finmap fun _ : Address => Tally

@[ext] structure VotingState where
  signers : Finset Address
  recents : Recents
  votes : List Vote
  tally : TallyMap
deriving DecidableEq

@[ext] structure Snapshot extends VotingState where
  number : UInt64
  hash : Hash
deriving DecidableEq

/-- The engine's configuration; `New` never leaves the epoch at zero. -/
structure Config where
  period : UInt64
  epoch : UInt64
  epoch_ne_zero : epoch ≠ 0

def epochLength : UInt64 := 30000

def Config.new (period epoch : UInt64) : Config :=
  if h : epoch = 0 then ⟨period, epochLength, by decide⟩ else ⟨period, epoch, h⟩

def Config.isCheckpoint (config : Config) (number : UInt64) : Bool :=
  number % config.epoch == 0

def nonceAuthVote : BlockNonce := ⟨List.replicate 8 0xff, rfl⟩

def nonceDropVote : BlockNonce := ⟨List.replicate 8 0x00, rfl⟩

def newSnapshot (number : UInt64) (hash : Hash) (signers : List Address) : Snapshot where
  number := number
  hash := hash
  signers := signers.toFinset
  recents := ∅
  votes := []
  tally := ∅

namespace VotingState

section

variable (s : VotingState)

def limit : Nat :=
  s.signers.card / 2 + 1

def validVote (address : Address) (authorize : Bool) : Bool :=
  (address ∈ s.signers && !authorize) || (address ∉ s.signers && authorize)

def cast (address : Address) (authorize : Bool) : Bool × VotingState :=
  if !s.validVote address authorize then (false, s)
  else
    match s.tally.lookup address with
    | some old =>
      (true, { s with tally := s.tally.insert address { old with votes := old.votes + 1 } })
    | none => (true, { s with tally := s.tally.insert address ⟨authorize, 1⟩ })

def uncast (address : Address) (authorize : Bool) : Bool × VotingState :=
  match s.tally.lookup address with
  | none => (false, s)
  | some tally =>
    if tally.authorize ≠ authorize then (false, s)
    else if tally.votes > 1 then
      (true, { s with
        tally := s.tally.insert address { tally with votes := tally.votes - 1 } })
    else (true, { s with tally := s.tally.erase address })

def clearVotes (config : Config) (number : UInt64) (s : VotingState) : VotingState :=
  if config.isCheckpoint number then { s with votes := [], tally := ∅ } else s

def evict (number : UInt64) (s : VotingState) : VotingState :=
  if s.limit ≤ number.toNat then
    { s with recents := s.recents.erase (number - UInt64.ofNat s.limit) }
  else s

def recentlySigned (signer : Address) : Bool :=
  decide (∃ seen ∈ s.recents.keys, s.recents.lookup seen = some signer)

end

/-- Discard the first vote of a signer on an address, in the list and in the tally. -/
def discardVote (signer address : Address) (s : VotingState) : VotingState :=
  match s.votes.findIdx? fun vote => vote.signer = signer ∧ vote.address = address with
  | none => s
  | some i =>
    match s.votes[i]? with
    | none => s
    | some vote =>
      { (s.uncast vote.address vote.authorize).2 with votes := s.votes.eraseIdx i }

def voteOf (nonce : BlockNonce) : Except AposError Bool :=
  if nonce = nonceAuthVote then .ok true
  else if nonce = nonceDropVote then .ok false
  else .error .errInvalidVote

def castVote (vote : Vote) (s : VotingState) : VotingState :=
  let result := s.cast vote.address vote.authorize
  if result.1 then { result.2 with votes := result.2.votes ++ [vote] } else result.2

/-- The loop that uncasts and removes every vote of a deauthorized signer.  `count`
bounds the iterations that are left, and an iteration which removes the vote at `i`
stays at `i`. -/
def discardVotesOf (address : Address) : Nat → Nat → VotingState → VotingState
  | 0, _, s => s
  | count + 1, i, s =>
    match s.votes[i]? with
    | none => s
    | some vote =>
      if vote.signer = address then
        discardVotesOf address count i
          { (s.uncast vote.address vote.authorize).2 with votes := s.votes.eraseIdx i }
      else discardVotesOf address count (i + 1) s

/-- The loop that removes every vote on a just changed account. -/
def discardVotesOn (address : Address) : Nat → Nat → VotingState → VotingState
  | 0, _, s => s
  | count + 1, i, s =>
    match s.votes[i]? with
    | none => s
    | some vote =>
      if vote.address = address then
        discardVotesOn address count i { s with votes := s.votes.eraseIdx i }
      else discardVotesOn address count (i + 1) s

def changeSigners (number : UInt64) (address : Address) (authorize : Bool) (s : VotingState) :
    VotingState :=
  if authorize then { s with signers := insert address s.signers }
  else
    let s := evict number { s with signers := s.signers.erase address }
    discardVotesOf address s.votes.length 0 s

def updateSigners (number : UInt64) (address : Address) (s : VotingState) : VotingState :=
  let tally := (s.tally.lookup address).getD ⟨false, 0⟩
  if tally.votes > ((s.signers.card / 2 : Nat) : Int) then
    let s := changeSigners number address tally.authorize s
    let s := discardVotesOn address s.votes.length 0 s
    { s with tally := s.tally.erase address }
  else s

def applyHeader (lib : Primitives) (config : Config) (s : VotingState) (h : Header) :
    Except AposError VotingState := do
  let number := h.number64
  let s := evict number (clearVotes config number s)
  let signer ← ecrecover lib h
  if signer ∉ s.signers then .error .errUnauthorizedSigner
  else if s.recentlySigned signer then .error .errRecentlySigned
  else
    let s := { s with recents := s.recents.insert number signer }
    let s := discardVote signer h.coinbase s
    let authorize ← voteOf h.nonce
    let s := castVote ⟨signer, number, h.coinbase, authorize⟩ s
    return updateSigners number h.coinbase s

def discarded (config : Config) (vote : Vote) (s : VotingState) : VotingState :=
  let s := evict vote.block (clearVotes config vote.block s)
  discardVote vote.signer vote.address { s with recents := s.recents.insert vote.block vote.signer }

def record (config : Config) (vote : Vote) (s : VotingState) : VotingState :=
  castVote vote (discarded config vote s)

def settle (config : Config) (vote : Vote) (s : VotingState) : VotingState :=
  updateSigners vote.block vote.address (record config vote s)

/-- The outcome of the votes on an address, if they have passed. -/
def verdict (address : Address) (s : VotingState) : Option Bool :=
  let tally := (s.tally.lookup address).getD ⟨false, 0⟩
  if tally.votes > ((s.signers.card / 2 : Nat) : Int) then some tally.authorize else none

def sortedSigners (s : VotingState) : List Address :=
  s.signers.sort (· ≤ ·)

/-- Is it the signer's turn?  The remainder by an empty list of signers panics. -/
def inturn (s : VotingState) (number : UInt64) (signer : Address) : Except AposError Bool :=
  let signers := s.sortedSigners
  let offset := signers.idxOf signer
  if signers.length = 0 then .error .divideByZero
  else .ok (number % UInt64.ofNat signers.length == UInt64.ofNat offset)

end VotingState

open VotingState

def consecutive : List Header → Bool
  | [] => true
  | [_] => true
  | a :: b :: rest => b.number64 = a.number64 + 1 && consecutive (b :: rest)

def Snapshot.apply (lib : Primitives) (config : Config) (s : Snapshot) (headers : List Header) :
    Except AposError Snapshot :=
  match headers with
  | [] => .ok s
  | first :: _ =>
    if !consecutive headers then .error .errInvalidVotingChain
    else if first.number64 ≠ s.number + 1 then .error .errInvalidVotingChain
    else do
      let state ← run (applyHeader lib config) s.toVotingState headers
      return { toVotingState := state
               number := s.number + UInt64.ofNat headers.length
               hash := (headers.getLast?.getD first).hash lib }

namespace VotingState

@[simp] theorem cast_frame (s : VotingState) (address : Address) (authorize : Bool) :
    (s.cast address authorize).2.signers = s.signers ∧
      (s.cast address authorize).2.recents = s.recents ∧
      (s.cast address authorize).2.votes = s.votes := by
  unfold cast
  split
  · simp
  · split <;> simp

@[simp] theorem uncast_frame (s : VotingState) (address : Address) (authorize : Bool) :
    (s.uncast address authorize).2.signers = s.signers ∧
      (s.uncast address authorize).2.recents = s.recents ∧
      (s.uncast address authorize).2.votes = s.votes := by
  unfold uncast
  split
  · simp
  · split
    · simp
    · split <;> simp

@[simp] theorem clearVotes_frame (config : Config) (number : UInt64) (s : VotingState) :
    (clearVotes config number s).signers = s.signers ∧
      (clearVotes config number s).recents = s.recents := by
  unfold clearVotes
  split <;> simp

@[simp] theorem evict_frame (number : UInt64) (s : VotingState) :
    (evict number s).signers = s.signers ∧ (evict number s).votes = s.votes ∧
      (evict number s).tally = s.tally := by
  unfold evict
  split <;> simp

@[simp] theorem discardVote_frame (signer address : Address) (s : VotingState) :
    (discardVote signer address s).signers = s.signers ∧
      (discardVote signer address s).recents = s.recents := by
  unfold discardVote
  split
  · simp
  · split <;> simp

@[simp] theorem castVote_frame (vote : Vote) (s : VotingState) :
    (castVote vote s).signers = s.signers ∧ (castVote vote s).recents = s.recents := by
  unfold castVote
  dsimp only
  split <;> simp

section

variable (address : Address) (count i : Nat) (s : VotingState)

@[simp] theorem discardVotesOf_frame :
    (discardVotesOf address count i s).signers = s.signers ∧
      (discardVotesOf address count i s).recents = s.recents := by
  fun_induction discardVotesOf address count i s with
  | case1 i s => simp
  | case2 count i s hnone => simp
  | case3 count i s vote hvote hsigner ih => simpa using ih
  | case4 count i s vote hvote hsigner ih => exact ih

@[simp] theorem discardVotesOn_frame :
    (discardVotesOn address count i s).signers = s.signers ∧
      (discardVotesOn address count i s).recents = s.recents ∧
      (discardVotesOn address count i s).tally = s.tally := by
  fun_induction discardVotesOn address count i s with
  | case1 i s => simp
  | case2 count i s hnone => simp
  | case3 count i s vote hvote haddress ih => exact ih
  | case4 count i s vote hvote haddress ih => exact ih

theorem discardVotesOf_votes :
    (discardVotesOf address count i s).votes =
      removeLoop (fun vote => vote.signer = address) count i s.votes := by
  fun_induction discardVotesOf address count i s with
  | case1 i s => rfl
  | case2 count i s hnone => simp [removeLoop, hnone]
  | case3 count i s vote hvote hsigner ih => simpa [removeLoop, hvote, hsigner] using ih
  | case4 count i s vote hvote hsigner ih => simp [removeLoop, hvote, hsigner, ih]

theorem discardVotesOn_votes :
    (discardVotesOn address count i s).votes =
      removeLoop (fun vote => vote.address = address) count i s.votes := by
  fun_induction discardVotesOn address count i s with
  | case1 i s => rfl
  | case2 count i s hnone => simp [removeLoop, hnone]
  | case3 count i s vote hvote haddress ih => simp [removeLoop, hvote, haddress, ih]
  | case4 count i s vote hvote haddress ih => simp [removeLoop, hvote, haddress, ih]

end

theorem recentlySigned_iff (s : VotingState) (signer : Address) :
    s.recentlySigned signer = true ↔ ∃ seen, s.recents.lookup seen = some signer := by
  unfold recentlySigned
  rw [decide_eq_true_iff]
  constructor
  · rintro ⟨seen, -, h⟩
    exact ⟨seen, h⟩
  · rintro ⟨seen, h⟩
    exact ⟨seen, Finmap.mem_keys.mpr (Finmap.mem_iff.mpr ⟨signer, h⟩), h⟩

variable {s t : VotingState}

theorem recentlySigned_congr (h : s.recents = t.recents) (signer : Address) :
    s.recentlySigned signer = t.recentlySigned signer := by
  unfold recentlySigned
  rw [h]

theorem evict_recents_congr (number : UInt64) (hsigners : s.signers = t.signers)
    (hrecents : s.recents = t.recents) :
    (evict number s).recents = (evict number t).recents := by
  unfold evict limit
  rw [hsigners]
  split
  · rw [hrecents]
  · exact hrecents

theorem updateSigners_signers (number : UInt64) (address : Address) (s : VotingState) :
    (updateSigners number address s).signers =
      match verdict address s with
      | none => s.signers
      | some true => insert address s.signers
      | some false => s.signers.erase address := by
  simp only [updateSigners, verdict]
  split
  · simp only [changeSigners]
    cases ((s.tally.lookup address).getD ⟨false, 0⟩).authorize <;> simp
  · rfl

theorem updateSigners_recents (number : UInt64) (address : Address) (s : VotingState) :
    (updateSigners number address s).recents =
      if verdict address s = some false then
        (evict number { s with signers := s.signers.erase address }).recents
      else s.recents := by
  simp only [updateSigners, verdict]
  split
  · simp only [changeSigners]
    cases ((s.tally.lookup address).getD ⟨false, 0⟩).authorize <;> simp
  · rfl

@[simp] theorem discarded_signers (config : Config) (vote : Vote) (s : VotingState) :
    (discarded config vote s).signers = s.signers := by
  simp [discarded]

@[simp] theorem record_signers (config : Config) (vote : Vote) (s : VotingState) :
    (record config vote s).signers = s.signers := by
  simp [record]

@[simp] theorem record_recents (config : Config) (vote : Vote) (s : VotingState) :
    (record config vote s).recents =
      (evict vote.block s).recents.insert vote.block vote.signer := by
  have hrecents : (evict vote.block (clearVotes config vote.block s)).recents =
      (evict vote.block s).recents :=
    evict_recents_congr _ (by simp) (by simp)
  simp [record, discarded, hrecents]

theorem sortedSigners_eq {s : VotingState} {signers : List Address}
    (h : s.signers = signers.toFinset) (hsorted : signers.Pairwise (· < ·)) :
    s.sortedSigners = signers := by
  rw [sortedSigners, h, List.toFinset_sort _ (hsorted.imp ne_of_lt)]
  exact hsorted.imp le_of_lt

theorem applyHeader_eq (lib : Primitives) (config : Config) (s : VotingState) (h : Header) :
    applyHeader lib config s h = (ecrecover lib h >>= fun signer =>
        if signer ∉ s.signers then .error .errUnauthorizedSigner
        else if (evict h.number64 s).recentlySigned signer then .error .errRecentlySigned
        else voteOf h.nonce >>= fun authorize =>
          .ok (settle config ⟨signer, h.number64, h.coinbase, authorize⟩ s)) := by
  have hrecents : (evict h.number64 (clearVotes config h.number64 s)).recents =
      (evict h.number64 s).recents :=
    evict_recents_congr _ (by simp) (by simp)
  have hsigned := recentlySigned_congr hrecents
  have hmem : ∀ signer, signer ∈ (evict h.number64 (clearVotes config h.number64 s)).signers ↔
      signer ∈ s.signers := by simp
  unfold applyHeader settle record discarded
  simp only [hsigned, hmem]
  rfl

theorem applyHeader_eq_ok_iff {lib : Primitives} {config : Config} {h : Header} :
    applyHeader lib config s h = .ok t ↔
      ∃ signer authorize, ecrecover lib h = .ok signer ∧ signer ∈ s.signers ∧
        (evict h.number64 s).recentlySigned signer = false ∧ voteOf h.nonce = .ok authorize ∧
        t = settle config ⟨signer, h.number64, h.coinbase, authorize⟩ s := by
  rw [applyHeader_eq, bind_eq_ok_iff]
  apply exists_congr
  intro signer
  by_cases hsigner : signer ∈ s.signers
  · cases (evict h.number64 s).recentlySigned signer with
    | true => simp [hsigner]
    | false =>
      simp only [hsigner, not_true_eq_false, Bool.false_eq_true, if_false, true_and]
      rw [bind_eq_ok_iff]
      constructor
      · rintro ⟨hrecover, authorize, hvote, heq⟩
        exact ⟨authorize, hrecover, hvote, (Except.ok.inj heq).symm⟩
      · rintro ⟨authorize, hrecover, hvote, rfl⟩
        exact ⟨hrecover, authorize, hvote, rfl⟩
  · simp [hsigner]

end VotingState

/-- The snapshots that can be made from a new one by applying headers to it. -/
inductive Reachable (lib : Primitives) (config : Config) : Snapshot → Prop
  | new (number : UInt64) (hash : Hash) (signers : List Address) :
      Reachable lib config (newSnapshot number hash signers)
  | apply {s t : Snapshot} (headers : List Header) (hs : Reachable lib config s)
      (happly : s.apply lib config headers = .ok t) : Reachable lib config t

def Snapshot.extend (lib : Primitives) (s : Snapshot) (headers : List Header)
    (state : VotingState) : Snapshot where
  toVotingState := state
  number := s.number + UInt64.ofNat headers.length
  hash := (headers.getLast?.map (Header.hash lib)).getD s.hash

def follows : UInt64 → List Header → Bool
  | _, [] => true
  | number, h :: rest => h.number64 = number + 1 && follows (number + 1) rest

theorem follows_cons_iff (number : UInt64) (h : Header) (rest : List Header) :
    follows number (h :: rest) = true ↔
      consecutive (h :: rest) = true ∧ h.number64 = number + 1 := by
  induction rest generalizing number h with
  | nil => simp [follows, consecutive]
  | cons next rest ih =>
    rw [follows, Bool.and_eq_true, decide_eq_true_iff, ih, consecutive, Bool.and_eq_true,
      decide_eq_true_iff]
    constructor
    · rintro ⟨hh, hrest, hnext⟩
      exact ⟨⟨by rw [hnext, hh], hrest⟩, hh⟩
    · rintro ⟨⟨hnext, hrest⟩, hh⟩
      exact ⟨hh, hrest, by rw [hnext, hh]⟩

theorem ofNat_succ (n : Nat) : UInt64.ofNat (n + 1) = 1 + UInt64.ofNat n := by
  rw [Nat.add_comm, UInt64.ofNat_add]
  rfl

theorem follows_append (number : UInt64) (xs ys : List Header) :
    follows number (xs ++ ys) =
      (follows number xs && follows (number + UInt64.ofNat xs.length) ys) := by
  induction xs generalizing number with
  | nil => simp [follows]
  | cons x xs ih =>
    rw [List.cons_append, follows, follows, ih, List.length_cons, Bool.and_assoc,
      ofNat_succ, UInt64.add_assoc]

variable {headers : List Header}

theorem follows_getElem {number : UInt64} (h : follows number headers = true) (i : Nat)
    (hi : i < headers.length) :
    headers[i].number64 = number + UInt64.ofNat (i + 1) := by
  induction headers generalizing number i with
  | nil => simp at hi
  | cons x xs ih =>
    rw [follows, Bool.and_eq_true, decide_eq_true_iff] at h
    cases i with
    | zero => simpa using h.1
    | succ i =>
      rw [List.getElem_cons_succ, ih h.2 i (by simpa using hi), ofNat_succ (i + 1),
        UInt64.add_assoc]

theorem follows_toNat {number : UInt64} (h : follows number headers = true)
    (hlength : number.toNat + headers.length < 2 ^ 64) (i : Nat) (hi : i < headers.length) :
    headers[i].number64.toNat = number.toNat + i + 1 := by
  rw [follows_getElem h i hi, UInt64.toNat_add, UInt64.toNat_ofNat',
    Nat.mod_eq_of_lt (show i + 1 < 2 ^ 64 by omega), Nat.mod_eq_of_lt (by omega)]
  omega

theorem Snapshot.apply_eq (lib : Primitives) (config : Config) (s : Snapshot)
    (headers : List Header) :
    s.apply lib config headers =
      if follows s.number headers then
        run (applyHeader lib config) s.toVotingState headers >>= fun state =>
          .ok (s.extend lib headers state)
      else .error .errInvalidVotingChain := by
  cases headers with
  | nil => simp [apply, follows, run_nil, extend, bind, Except.bind]
  | cons first rest =>
    by_cases hfollows : follows s.number (first :: rest) = true
    · obtain ⟨hconsecutive, hfirst⟩ := (follows_cons_iff _ _ _).mp hfollows
      obtain ⟨last, hlast⟩ : ∃ last, (first :: rest).getLast? = some last :=
        ⟨_, List.getLast?_eq_some_getLast (by simp)⟩
      simp [apply, hconsecutive, hfirst, hfollows, extend, hlast, pure, Except.pure]
    · rw [if_neg hfollows]
      rw [follows_cons_iff] at hfollows
      by_cases hconsecutive : consecutive (first :: rest) = true
      · have hfirst : first.number64 ≠ s.number + 1 := fun h =>
          hfollows ⟨hconsecutive, h⟩
        simp [apply, hconsecutive, hfirst]
      · simp [apply, hconsecutive]

theorem Snapshot.apply_eq_ok_iff {lib : Primitives} {config : Config} {s t : Snapshot} :
    s.apply lib config headers = .ok t ↔ follows s.number headers = true ∧
        run (applyHeader lib config) s.toVotingState headers = .ok t.toVotingState ∧
        t = s.extend lib headers t.toVotingState := by
  rw [apply_eq]
  by_cases hfollows : follows s.number headers = true
  · rw [if_pos hfollows, bind_eq_ok_iff]
    constructor
    · rintro ⟨state, hrun, heq⟩
      cases heq
      exact ⟨hfollows, hrun, rfl⟩
    · rintro ⟨-, hrun, heq⟩
      exact ⟨t.toVotingState, hrun, by rw [← heq]⟩
  · simp [hfollows]

theorem Reachable.invariant {lib : Primitives} {config : Config} {P : VotingState → Prop}
    (hnew : ∀ signers : List Address, P ⟨signers.toFinset, ∅, [], ∅⟩)
    (hstep : ∀ s h t, P s → applyHeader lib config s h = .ok t → P t)
    {s : Snapshot} (h : Reachable lib config s) : P s.toVotingState := by
  induction h with
  | new number hash signers => exact hnew signers
  | apply headers hs happly ih =>
    exact run_invariant (fun _ => P) (Snapshot.apply_eq_ok_iff.mp happly).2.1 ih
      fun i hi a b ha hb => hstep a _ b ha hb

def toyVote (h : Header) (address : Address) (authorize : Bool) : Header :=
  { h with
    coinbase := address
    nonce := if authorize then nonceAuthVote else nonceDropVote }

end N42.VotingSnapshot
