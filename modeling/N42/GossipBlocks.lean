import Mathlib
import N42.PeerBlocks

/-!
Blocks that arrive by gossip.  A message is validated when it arrives, and a block that is
accepted is handed to the chain; both record blocks that are bad.  The cache of bad blocks
is taken to be large enough, and contexts not to be cancelled.
-/

namespace N42.GossipBlocks

open ChainTypes BlockHeader HeaderSealing HeaderCodec BlockCodec

inductive Verdict where
  | accept
  | ignore
  | reject
deriving DecidableEq

structure GossipMessage where
  fromSelf : Bool
  syncing : Bool
  decoded : Option PbBlock
  now : Int

structure ChainView where
  hasBlock : Hash → UInt64 → Bool
  current : UInt64

structure Service where
  chain : ChainView
  badBlockCache : List Hash

def hasBadBlock (s : Service) (root : Hash) : Bool :=
  decide (root ∈ s.badBlockCache)

def setBadBlock (s : Service) (root : Hash) : Service :=
  { s with badBlockCache := root :: s.badBlockCache }

def fromFuture (now : Int) (headerTime : UInt64) : Bool :=
  decide (now < headerTime.toInt64.toInt)

def validateHeader (now : Int) (header : Header) (s : Service) : Verdict × Service :=
  if s.chain.hasBlock header.root header.number64 then (.ignore, s)
  else if hasBadBlock s header.parentHash then (.reject, setBadBlock s header.root)
  else if fromFuture now header.time then (.ignore, s)
  else (.accept, s)

/-- A message whose validation panics is ignored. -/
def validateBlockPubSub (msg : GossipMessage) (s : Service) : Verdict × Service :=
  if msg.fromSelf then (.accept, s)
  else if msg.syncing then (.ignore, s)
  else match msg.decoded with
    | none => (.reject, s)
    | some blk =>
      match blockFromProtoMessage blk with
      | none => (.ignore, s)
      | some b => validateHeader msg.now b.1 s

def blockSubscriber (lib : Primitives) (blk : PbBlock) (inserted : Option ChainView)
    (s : Service) : Service :=
  match blockFromProtoMessage blk with
  | none => s
  | some b =>
    if b.1.number64 > s.chain.current + 1 then s
    else match inserted with
      | none => setBadBlock s (b.1.hash lib)
      | some chain => { s with chain }

/-- What happens at a node: a message arrives, an accepted block is handed to the chain, or
the chain changes for another reason. -/
inductive Event where
  | gossip (msg : GossipMessage)
  | deliver (blk : PbBlock) (inserted : Option ChainView)
  | change (chain : ChainView)

variable (lib : Primitives)

def Event.perform (s : Service) : Event → Service
  | .gossip msg => (validateBlockPubSub msg s).2
  | .deliver blk inserted => blockSubscriber lib blk inserted s
  | .change chain => { s with chain }

def run (s : Service) (events : List Event) : Service :=
  events.foldl (Event.perform lib) s

def Carries (msg : GossipMessage) (header : Header) : Prop :=
  msg.fromSelf = false ∧ msg.syncing = false ∧
    ∃ blk body, msg.decoded = some blk ∧ blockFromProtoMessage blk = some (header, body)

/-- The hashes of blocks that have been marked bad, and of all their descendants that have
been received after their own parents. -/
inductive Tainted (start : Service) : List Event → Hash → Prop where
  | marked {events : List Event} {hash : Hash} :
      hash ∈ (run lib start events).badBlockCache → Tainted start events hash
  | child {events : List Event} {msg : GossipMessage} {header : Header} :
      Carries msg header → Tainted start events header.parentHash →
      Tainted start (events ++ [.gossip msg]) (header.hash lib)
  | later {events : List Event} {event : Event} {hash : Hash} :
      Tainted start events hash → Tainted start (events ++ [event]) hash

/-- When the message arrives after the events: a block that the chain has is ignored, and
any other descendant of a bad block that comes after its parent is rejected. -/
def Guarded (start : Service) (events : List Event) (msg : GossipMessage) : Prop :=
  ∀ header, Carries msg header →
    ((run lib start events).chain.hasBlock (header.hash lib) header.number64 = true →
      (validateBlockPubSub msg (run lib start events)).1 = .ignore) ∧
    ((run lib start events).chain.hasBlock (header.hash lib) header.number64 = false →
      Tainted lib start events header.parentHash →
      (validateBlockPubSub msg (run lib start events)).1 = .reject)

/-- The state root, by which the block is looked up and marked, stands for its hash: the
chain has both or neither, and a child of a bad block is already marked, or it is not
stored and its root is its hash. -/
def RootStandsForHash (s : Service) (msg : GossipMessage) : Prop :=
  ∀ header, Carries msg header → s.chain.hasBlock header.root header.number64 =
      s.chain.hasBlock (header.hash lib) header.number64 ∧ (header.parentHash ∈ s.badBlockCache →
      header.hash lib ∈ s.badBlockCache ∨
        header.root = header.hash lib ∧ s.chain.hasBlock header.root header.number64 = false)

/-- What is said of a message holds for every message of a run when it arrives. -/
def AtMessages (P : List Event → GossipMessage → Prop) (events : List Event) : Prop :=
  ∀ before msg after, events = before ++ .gossip msg :: after → P before msg

section Runs

variable {lib} {start s : Service} {events : List Event} {msg : GossipMessage} {header : Header}

variable {P : List Event → GossipMessage → Prop}

theorem AtMessages.init {event : Event} (h : AtMessages P (events ++ [event])) :
    AtMessages P events := by
  intro before msg after heq
  refine h before msg (after ++ [event]) ?_
  rw [heq, List.append_assoc, List.cons_append]

theorem AtMessages.last (h : AtMessages P (events ++ [.gossip msg])) : P events msg :=
  h events msg [] rfl

theorem run_concat (event : Event) :
    run lib start (events ++ [event]) = event.perform lib (run lib start events) := by
  rw [run, List.foldl_append]
  rfl

theorem validateBlockPubSub_eq (h : Carries msg header) (s : Service) :
    validateBlockPubSub msg s = validateHeader msg.now header s := by
  obtain ⟨hself, hsyncing, blk, body, hdecoded, hblk⟩ := h
  rw [validateBlockPubSub, hself, hsyncing, hdecoded]
  dsimp only
  rw [if_neg Bool.false_ne_true, if_neg Bool.false_ne_true, hblk]

theorem bad_subset_validateHeader (now : Int) (header : Header) (s : Service) :
    s.badBlockCache ⊆ (validateHeader now header s).2.badBlockCache := by
  rw [validateHeader]
  split
  · exact List.Subset.refl _
  · split
    · exact List.subset_cons_self _ _
    · split
      · exact List.Subset.refl _
      · exact List.Subset.refl _

theorem bad_subset_perform (event : Event) (s : Service) :
    s.badBlockCache ⊆ (event.perform lib s).badBlockCache := by
  cases event with
  | gossip msg =>
    rw [Event.perform, validateBlockPubSub]
    split
    · exact List.Subset.refl _
    · split
      · exact List.Subset.refl _
      · cases msg.decoded with
        | none => exact List.Subset.refl _
        | some blk =>
          dsimp only
          cases blockFromProtoMessage blk with
          | none => exact List.Subset.refl _
          | some b => exact bad_subset_validateHeader msg.now b.1 s
  | deliver blk inserted =>
    rw [Event.perform, blockSubscriber]
    cases blockFromProtoMessage blk with
    | none => exact List.Subset.refl _
    | some b =>
      dsimp only
      split
      · exact List.Subset.refl _
      · cases inserted with
        | none => exact List.subset_cons_self _ _
        | some chain => exact List.Subset.refl _
  | change chain => exact List.Subset.refl _

theorem hasBadBlock_of_mem {root : Hash} (h : root ∈ s.badBlockCache) : hasBadBlock s root = true :=
  decide_eq_true h

theorem marked_of_carries (hcarries : Carries msg header)
    (hroot : RootStandsForHash lib s msg) (hparent : header.parentHash ∈ s.badBlockCache) :
    header.hash lib ∈ ((Event.gossip msg).perform lib s).badBlockCache := by
  rcases (hroot header hcarries).2 hparent with hmarked | ⟨heq, hnew⟩
  · exact bad_subset_perform (.gossip msg) s hmarked
  · rw [Event.perform, validateBlockPubSub_eq hcarries, validateHeader, hnew,
      if_neg Bool.false_ne_true, if_pos (hasBadBlock_of_mem hparent), ← heq]
    exact List.mem_cons_self

section

variable (hroots : AtMessages (fun before => RootStandsForHash lib (run lib start before)) events)
include hroots

theorem marked_of_tainted {hash : Hash} (h : Tainted lib start events hash) :
    hash ∈ (run lib start events).badBlockCache := by
  induction h with
  | marked hmem => exact hmem
  | child hcarries _ ih =>
    rw [run_concat]
    exact marked_of_carries hcarries hroots.last (ih hroots.init)
  | later _ ih =>
    rw [run_concat]
    exact bad_subset_perform _ _ (ih hroots.init)

theorem guarded_of_roots (hroot : RootStandsForHash lib (run lib start events) msg) :
    Guarded lib start events msg := by
  intro header hcarries
  obtain ⟨hstored, -⟩ := hroot header hcarries
  rw [validateBlockPubSub_eq hcarries, validateHeader, hstored]
  constructor
  · intro hhas
    rw [if_pos hhas]
  · intro hnew htainted
    rw [hnew, if_neg Bool.false_ne_true,
      if_pos (hasBadBlock_of_mem (marked_of_tainted hroots htainted))]

end

end Runs

section Toys

def toyChild (number : Nat) (parentHash : Hash) : Header :=
  { toyHeader number 1 (toyAddress 1) with parentHash, baseFee := some 0 }

def toyBad : Header :=
  toyChild 1 default

def toySon : Header :=
  toyChild 2 (toyBad.hash toyPrimitives)

def toyGrandson : Header :=
  toyChild 3 (toySon.hash toyPrimitives)

def toyMessage (header : Header) : GossipMessage where
  fromSelf := false
  syncing := false
  decoded := some ⟨Header.toProtoMessage header, some ⟨[], [], []⟩⟩
  now := 0

theorem toyMessage_carries {header other : Header} (h : Carries (toyMessage header) other) :
    ∃ body, blockFromProtoMessage ⟨Header.toProtoMessage header, some ⟨[], [], []⟩⟩ =
      some (other, body) := by
  obtain ⟨-, -, blk, body, hdecoded, hblk⟩ := h
  cases hdecoded
  exact ⟨body, hblk⟩

def toyService (stored bad : List Hash) : Service where
  chain := ⟨fun hash _ => decide (hash ∈ stored), 0⟩
  badBlockCache := bad

end Toys

end N42.GossipBlocks
