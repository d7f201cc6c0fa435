import N42.SnapshotStore

/-!
`APos.snapshot`: walk back to a snapshot in memory, on disk or at a trusted block, and
apply the headers gathered on the way.  What is cached does not change the outcome, as
long as no trusted epoch block cuts the walk short.
-/

namespace N42.SnapshotReplay

open ByteStrings FallibleRuns ChainTypes BlockHeader HeaderSealing
open VotingSnapshot VotingSnapshot.VotingState SnapshotStore

def checkpointInterval : UInt64 := 2048

def fullImmutabilityThreshold : Nat := 90000

structure ChainReader where
  getHeader : Hash → UInt64 → Option Header
  getHeaderByNumber : UInt64 → Option Header

structure EngineState where
  recents : Finmap fun _ : Hash => Snapshot
  blobs : Blobs

/-- The signer list in the extra data of a checkpoint.  Division rounds towards zero, and
making a list of negative length panics. -/
def checkpointSigners (h : Header) : Except AposError (List Address) :=
  let count := ((h.extra.bytes.length : Int) - extraVanity - extraSeal).tdiv 20
  if count < 0 then .error .panic
  else .ok (chunks 20 count.toNat (h.extra.bytes.drop extraVanity))

/-- Where the walk back may stop: at a snapshot of the block, or at a trusted header. -/
inductive Anchor where
  | found (snap : Snapshot)
  | trusted (number : UInt64) (checkpoint : Header)

def Anchor.snap (lib : Primitives) : Anchor → Except AposError Snapshot
  | .found snap => .ok snap
  | .trusted number checkpoint =>
    (checkpointSigners checkpoint).map (newSnapshot number (checkpoint.hash lib))

-- A snapshot or the genesis, and not some later block that is taken on trust.
def Anchor.rooted : Anchor → Prop
  | .found _ => True
  | .trusted number _ => number = 0

instance : DecidablePred Anchor.rooted
  | .found _ => .isTrue trivial
  | .trusted number _ => inferInstanceAs (Decidable (number = 0))

def loadCheckpoint (st : EngineState) (number : UInt64) (hash : Hash) : Option Snapshot :=
  if number % checkpointInterval = 0 then loadSnapshot st.blobs hash else none

def isTrusted (config : Config) (chain : ChainReader) (number : UInt64) (gathered : Nat) :
    Bool :=
  number = 0 || (config.isCheckpoint number &&
    (gathered > fullImmutabilityThreshold || (chain.getHeaderByNumber (number - 1)).isNone))

def findAnchor (config : Config) (chain : ChainReader) (st : EngineState) (number : UInt64)
    (hash : Hash) (gathered : Nat) : Option Anchor :=
  match st.recents.lookup hash with
  | some snap => some (.found snap)
  | none =>
    match loadCheckpoint st number hash with
    | some snap => some (.found snap)
    | none =>
      if isTrusted config chain number gathered then
        (chain.getHeaderByNumber number).map (.trusted number)
      else none

def nextHeader (lib : Primitives) (chain : ChainReader) (number : UInt64) (hash : Hash)
    (parents : List Header) : Except AposError (Header × List Header) :=
  match parents.getLast? with
  | some header =>
    if header.hash lib ≠ hash ∨ header.number64 ≠ number then .error .errUnknownBlock
    else .ok (header, parents.dropLast)
  | none =>
    match chain.getHeader hash number with
    | none => .error .errUnknownBlock
    | some header => .ok (header, [])

/-- The loop of `snapshot`, with the gathered headers in ascending order.  Without fuel
the walk has not come to an end. -/
def walk (lib : Primitives) (config : Config) (chain : ChainReader) (st : EngineState) :
    Nat → UInt64 → Hash → List Header → List Header →
      Option (Except AposError (Anchor × List Header))
  | 0, _, _, _, _ => none
  | fuel + 1, number, hash, parents, headers =>
    match findAnchor config chain st number hash headers.length with
    | some anchor => some (.ok (anchor, headers))
    | none =>
      match nextHeader lib chain number hash parents with
      | .error e => some (.error e)
      | .ok (header, parents) =>
        walk lib config chain st fuel (number - 1) header.parentHash parents (header :: headers)

-- A trusted snapshot is saved before headers are applied to it.
def saveTrusted (st : EngineState) (snap : Snapshot) : Anchor → EngineState
  | .found _ => st
  | .trusted _ _ => { st with blobs := store st.blobs snap }

def saveSnapshot (st : EngineState) (snap : Snapshot) (applied : List Header) :
    EngineState where
  recents := st.recents.insert snap.hash snap
  blobs := if snap.number % checkpointInterval = 0 ∧ applied ≠ [] then store st.blobs snap
    else st.blobs

def replay (lib : Primitives) (config : Config) (st : EngineState) (anchor : Anchor)
    (headers : List Header) : Except AposError Snapshot × EngineState :=
  match anchor.snap lib with
  | .error e => (.error e, st)
  | .ok base =>
    let st := saveTrusted st base anchor
    match base.apply lib config headers with
    | .error e => (.error e, st)
    | .ok snap => (.ok snap, saveSnapshot st snap headers)

def snapshot (lib : Primitives) (config : Config) (chain : ChainReader) (st : EngineState)
    (fuel : Nat) (number : UInt64) (hash : Hash) (parents : List Header) :
    Option (Except AposError Snapshot × EngineState) :=
  (walk lib config chain st fuel number hash parents []).map fun
    | .error e => (.error e, st)
    | .ok (anchor, headers) => replay lib config st anchor headers

variable {lib : Primitives} {config : Config}

theorem walk_stop (lib : Primitives) {chain : ChainReader} {st : EngineState}
    {number : UInt64} {hash : Hash} {headers : List Header} {anchor : Anchor}
    (parents : List Header) (fuel : Nat)
    (h : findAnchor config chain st number hash headers.length = some anchor) :
    walk lib config chain st (fuel + 1) number hash parents headers =
      some (.ok (anchor, headers)) := by
  rw [walk, h]

theorem walk_next {chain : ChainReader} {st : EngineState} {number : UInt64} {hash : Hash}
    {parents rest headers : List Header} {header : Header} (fuel : Nat)
    (h : findAnchor config chain st number hash headers.length = none)
    (hnext : nextHeader lib chain number hash parents = .ok (header, rest)) :
    walk lib config chain st (fuel + 1) number hash parents headers =
      walk lib config chain st fuel (number - 1) header.parentHash rest (header :: headers) := by
  rw [walk, h, hnext]

theorem extend_append (s : Snapshot) (xs ys : List Header) (a b : VotingState) :
    (s.extend lib xs a).extend lib ys b = s.extend lib (xs ++ ys) b := by
  have hnumber : s.number + UInt64.ofNat xs.length + UInt64.ofNat ys.length =
      s.number + UInt64.ofNat (xs ++ ys).length := by
    rw [List.length_append, UInt64.ofNat_add, UInt64.add_assoc]
  simp only [Snapshot.extend, hnumber, List.getLast?_append]
  cases ys.getLast? <;> rfl

theorem apply_trans {s t : Snapshot} {xs : List Header} (h : s.apply lib config xs = .ok t)
    (ys : List Header) : s.apply lib config (xs ++ ys) = t.apply lib config ys := by
  obtain ⟨hfollows, hrun, ht⟩ := Snapshot.apply_eq_ok_iff.mp h
  have hnumber : t.number = s.number + UInt64.ofNat xs.length := by
    rw [ht, Snapshot.extend]
  rw [Snapshot.apply_eq, Snapshot.apply_eq, follows_append, hfollows, Bool.true_and,
    ← hnumber, run_append, hrun]
  have hextend : ∀ state, t.extend lib ys state = s.extend lib (xs ++ ys) state := by
    intro state
    rw [ht, extend_append]
  simp only [hextend]
  rfl

theorem consecutive_of_append {xs ys : List Header} (h : consecutive (xs ++ ys) = true) :
    consecutive xs = true := by
  induction xs with
  | nil => rfl
  | cons x xs ih =>
    cases xs with
    | nil => rfl
    | cons y xs =>
      simp only [List.cons_append, consecutive, Bool.and_eq_true] at h ih ⊢
      exact ⟨h.1, ih h.2⟩

theorem apply_append (s : Snapshot) {xs ys : List Header}
    (h : consecutive (xs ++ ys) = true) :
    s.apply lib config (xs ++ ys) = s.apply lib config xs >>= fun t => t.apply lib config ys := by
  cases happly : s.apply lib config xs with
  | ok t => exact apply_trans happly ys
  | error e =>
    cases xs with
    | nil => cases happly
    | cons first rest =>
      have hfollows : follows s.number (first :: rest) =
          follows s.number (first :: rest ++ ys) := by
        rw [Bool.eq_iff_iff, List.cons_append, follows_cons_iff, follows_cons_iff]
        have hfront : consecutive (first :: rest) = true := consecutive_of_append h
        rw [List.cons_append] at h
        simp [h, hfront]
      rw [Snapshot.apply_eq] at happly ⊢
      rw [← hfollows]
      split at happly
      · rename_i hyes
        rw [if_pos hyes, run_append]
        cases hrun : run (applyHeader lib config) s.toVotingState (first :: rest) with
        | error e' =>
          rw [hrun] at happly
          exact happly
        | ok state =>
          rw [hrun] at happly
          cases happly
      · rename_i hno
        rw [if_neg hno]
        exact happly

end N42.SnapshotReplay
