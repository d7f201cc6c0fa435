import N42.SnapshotReplay
import N42.VoteAccounting

/-!
Paths of known headers from the genesis on, and the snapshots that replaying them gives.
-/

namespace N42.ReplayPaths

open FallibleRuns ChainTypes BlockHeader VotingSnapshot
open VotingSnapshot.VotingState VoteAccounting SnapshotStore SnapshotReplay

/-- The genesis and the headers anyone has seen, of which no two have the same hash. -/
structure Network (lib : Primitives) where
  known : Set Header
  genesis : Header
  signers : List Address
  genesis_mem : genesis ∈ known
  genesis_number : genesis.number64 = 0
  genesis_signers : checkpointSigners genesis = .ok signers
  hash_injOn : Set.InjOn (Header.hash lib) known
  number_lt : ∀ h ∈ known, h.number64.toNat < 2 ^ 63

variable {lib : Primitives} {config : Config}

def Network.genesisHash (net : Network lib) : Hash :=
  net.genesis.hash lib

def Network.start (net : Network lib) : Snapshot :=
  newSnapshot 0 net.genesisHash net.signers

/-- A chain reader that knows the genesis and finds headers by their hash. -/
structure Network.Serves (net : Network lib) (chain : ChainReader) : Prop where
  genesis : chain.getHeaderByNumber 0 = some net.genesis
  header : ∀ hash number h, chain.getHeader hash number = some h → h ∈ net.known ∧ h.hash lib = hash

def tipHash (lib : Primitives) (base : Hash) : List Header → Hash
  | [] => base
  | h :: _ => h.hash lib

def linked (lib : Primitives) (base : Hash) : List Header → Prop
  | [] => True
  | h :: older => h.parentHash = tipHash lib base older ∧ linked lib base older

theorem tipHash_append (base : Hash) (xs ys : List Header) :
    tipHash lib base (xs ++ ys) = tipHash lib (tipHash lib base ys) xs := by
  cases xs <;> rfl

theorem linked_append {base : Hash} {xs ys : List Header} :
    linked lib base (xs ++ ys) ↔ linked lib (tipHash lib base ys) xs ∧ linked lib base ys := by
  induction xs with
  | nil => simp [linked]
  | cons x xs ih => simp only [List.cons_append, linked, tipHash_append, ih, and_assoc]

structure Network.Path (net : Network lib) (base : Hash) (path : List Header) : Prop where
  known : ∀ h ∈ path, h ∈ net.known
  linked : linked lib base path
  follows : follows 0 path.reverse = true

namespace Network

variable {net : Network lib} {base : Hash} {older : List Header}

theorem Path.tail {h : Header} (hpath : net.Path base (h :: older)) : net.Path base older := by
  refine ⟨fun x hx => hpath.known x (List.mem_cons_of_mem h hx), hpath.linked.2, ?_⟩
  have hfollows := hpath.follows
  rw [List.reverse_cons, follows_append, Bool.and_eq_true] at hfollows
  exact hfollows.1

variable {xs ys : List Header}

theorem Path.drop (hpath : net.Path base (xs ++ ys)) : net.Path base ys := by
  induction xs with
  | nil => exact hpath
  | cons x xs ih => exact ih hpath.tail

theorem Path.number64_eq {h : Header} (hpath : net.Path base (h :: older)) :
    h.number64 = UInt64.ofNat (older.length + 1) := by
  have hfollows := hpath.follows
  rw [List.reverse_cons] at hfollows
  have hnumber := follows_getElem hfollows older.length (by simp)
  simpa using hnumber

theorem Path.length_lt {path : List Header} (hpath : net.Path base path) :
    path.length < 2 ^ 63 := by
  induction path with
  | nil => simp
  | cons h older ih =>
    have hlt := net.number_lt h (hpath.known h List.mem_cons_self)
    have holder := ih hpath.tail
    rw [hpath.number64_eq, UInt64.toNat_ofNat',
      Nat.mod_eq_of_lt (show older.length + 1 < 2 ^ 64 by omega)] at hlt
    simpa using hlt

theorem Path.number64_toNat {h : Header} (hpath : net.Path base (h :: older)) :
    h.number64.toNat = older.length + 1 := by
  have hlt := hpath.length_lt
  rw [List.length_cons] at hlt
  rw [hpath.number64_eq, UInt64.toNat_ofNat',
    Nat.mod_eq_of_lt (show older.length + 1 < 2 ^ 64 by omega)]

section

variable {base' : Hash} (hxs : net.Path base xs) (hys : net.Path base' ys)
  (htip : tipHash lib net.genesisHash xs = tipHash lib net.genesisHash ys)
include hxs hys htip

theorem Path.length_eq : xs.length = ys.length := by
  have hgenesis : ∀ {base h older}, net.Path base (h :: older) → net.genesisHash ≠ h.hash lib := by
    intro base h older hpath heq
    have hh := net.hash_injOn net.genesis_mem (hpath.known h List.mem_cons_self) heq
    have hnumber := hpath.number64_toNat
    rw [← hh, net.genesis_number] at hnumber
    simp at hnumber
  cases xs with
  | nil =>
    cases ys with
    | nil => rfl
    | cons y ys => exact absurd htip (hgenesis hys)
  | cons x xs =>
    cases ys with
    | nil => exact absurd htip.symm (hgenesis hxs)
    | cons y ys =>
      have hxy := net.hash_injOn (hxs.known x List.mem_cons_self)
        (hys.known y List.mem_cons_self) htip
      have hnumber := hys.number64_toNat
      rw [← hxy, hxs.number64_toNat] at hnumber
      simpa using hnumber

theorem Path.unique : xs = ys := by
  have hlength := hxs.length_eq hys htip
  induction xs generalizing ys with
  | nil => exact (List.length_eq_zero_iff.mp hlength.symm).symm
  | cons x xs ih =>
    cases ys with
    | nil => simp at hlength
    | cons y ys =>
      obtain rfl : x = y := net.hash_injOn (hxs.known x List.mem_cons_self)
        (hys.known y List.mem_cons_self) htip
      have hparent := hxs.linked.1.symm.trans hys.linked.1
      have hrest : xs.length = ys.length := by simpa using hlength
      congr 1
      cases xs with
      | nil => exact (List.length_eq_zero_iff.mp hrest.symm).symm
      | cons x' xs =>
        cases ys with
        | nil => simp at hrest
        | cons y' ys => exact ih hxs.tail hys.tail hparent hrest

end

def Replayed (net : Network lib) (config : Config) (s : Snapshot) : Prop :=
  ∃ base path, net.Path base path ∧ net.start.apply lib config path.reverse = .ok s

theorem hash_of_apply {path : List Header} {s : Snapshot}
    (h : net.start.apply lib config path.reverse = .ok s) :
    s.hash = tipHash lib net.genesisHash path := by
  rw [(Snapshot.apply_eq_ok_iff.mp h).2.2]
  cases path with
  | nil => rfl
  | cons x xs => simp [Snapshot.extend, tipHash]

theorem replayed_start : net.Replayed config net.start :=
  ⟨default, [], ⟨by simp, trivial, rfl⟩, rfl⟩

theorem Replayed.apply {s t : Snapshot} {fresh : List Header}
    (h : net.Replayed config s) (hbase : s = net.start ∨ base = s.hash)
    (hknown : ∀ x ∈ fresh, x ∈ net.known) (hlinked : linked lib base fresh)
    (happly : s.apply lib config fresh.reverse = .ok t) : net.Replayed config t := by
  -- The path below the fresh headers is the empty one for the genesis snapshot, which
  -- is taken whatever hash the oldest fresh header refers to.
  obtain ⟨base', path, hpath, hstart, hlinks⟩ : ∃ base' path, net.Path base' path ∧
      net.start.apply lib config path.reverse = .ok s ∧ linked lib base' (fresh ++ path) := by
    rcases hbase with rfl | rfl
    · refine ⟨base, [], ⟨by simp, trivial, rfl⟩, rfl, ?_⟩
      rwa [List.append_nil]
    · obtain ⟨base', path, hpath, hstart⟩ := h
      rw [hash_of_apply hstart] at hlinked
      cases path with
      | nil =>
        refine ⟨net.genesisHash, [], ⟨by simp, trivial, rfl⟩, hstart, ?_⟩
        rwa [List.append_nil]
      | cons x xs =>
        exact ⟨base', x :: xs, hpath, hstart, linked_append.mpr ⟨hlinked, hpath.linked⟩⟩
  have happend : net.start.apply lib config (fresh ++ path).reverse = .ok t := by
    rw [List.reverse_append, apply_trans hstart, happly]
  refine ⟨base', fresh ++ path, ⟨?_, hlinks, (Snapshot.apply_eq_ok_iff.mp happend).1⟩, happend⟩
  intro x hx
  rcases List.mem_append.mp hx with hx | hx
  · exact hknown x hx
  · exact hpath.known x hx

theorem Replayed.representable {s : Snapshot} (h : net.Replayed config s) :
    Representable s.toVotingState := by
  obtain ⟨base, path, hpath, happly⟩ := h
  have hrun := (Snapshot.apply_eq_ok_iff.mp happly).2.1
  have hvotes : s.votes.length ≤ path.reverse.length := by
    refine run_invariant (fun i a => a.votes.length ≤ i) hrun (Nat.le_refl 0) ?_
    intro i hi a b ha hb
    obtain ⟨signer, authorize, -, -, -, -, rfl⟩ := applyHeader_eq_ok_iff.mp hb
    exact (settle_votes_length _ _ a).trans (Nat.succ_le_succ ha)
  have hinv := voteInvariant_of_reachable (.apply _ (.new 0 _ _) happly)
  intro address tally hlookup
  obtain ⟨-, hcount⟩ := hinv.tallied.votes_eq hlookup
  have hle : voteCount s.votes address ≤ s.votes.length := List.countP_le_length
  have hlength := hpath.length_lt
  rw [List.length_reverse] at hvotes
  omega

end Network

end N42.ReplayPaths
