import N42.CompetingBlocks
import N42.ReorgEffects
import N42.SideChains

/-!
The total difficulties over a run of imports.  A block that is executed is stored with its
total difficulty, which is cached and compared when the head is chosen; a block of a side
chain is stored without one.
-/

namespace N42.TotalDifficulty

open ChainTypes HeaderSealing ChainDatabase ChainReorg ReorgEffects
open ReorgCorrectness LruCaches StatefulActions StatefulActions.Action
open ChainWriting CompetingBlocks SideChains

variable {S : Type}

/-- What can happen to a node: the three ways to import blocks, and the reads that leave
something in its caches. -/
inductive Import (S : Type) where
  | execute (fuel : Nat) (coin : Bool) (ref : BlockRef) (o : BlockOutcome S)
  | sideChain (fuel : Nat) (coin : Bool) (first : BlockRef) (rest : List BlockRef)
  | known (fuel : Nat) (refs : List (Bool × BlockRef))
  | getTd (hash : Hash) (number : UInt64)
  | getBlock (hash : Hash) (number : UInt64)

def Import.perform (lib : Primitives) : Import S → Action (Node S) WriteError (List Block)
  | .execute fuel coin ref o => do
      let _ ← writeBlockWithState lib fuel coin ref o
      return [ref.block]
  | .sideChain fuel coin first rest => do
      let _ ← insertSideChain lib fuel coin first rest
      return []
  | .known fuel refs => do
      insertKnown lib fuel refs
      return []
  | .getTd hash number => do
      let _ ← ofState (Node.getTd hash number)
      return []
  | .getBlock hash number => do
      let _ ← ofState (SideChains.Node.getBlock hash number)
      return []

def acceptedBy : Except WriteError (List Block) → List Block
  | .ok blocks => blocks
  | .error _ => []

/-- The runs of a node whose steps are all allowed, with the blocks accepted so far.  A
step that fails leaves what it has written. -/
inductive Run (lib : Primitives) (allowed : Node S → List Block → Import S → Prop)
    (genesis : Block) (first : Node S) : Node S → List Block → Prop where
  | start : Run lib allowed genesis first first [genesis]
  | step {node : Node S} {accepted : List Block} (imp : Import S)
      (before : Run lib allowed genesis first node accepted) (hallowed : allowed node accepted imp)
      (ended : (imp.perform lib node).1 ≠ .error (.reorg .outOfFuel)) :
      Run lib allowed genesis first (imp.perform lib node).2
        (acceptedBy (imp.perform lib node).1 ++ accepted)

/-- A node that has stored the first block, with a total difficulty, and no other. -/
structure IsFirst (lib : Primitives) (genesis : Block) (node : Node S) : Prop where
  head : node.chain.currentBlock.block = genesis
  number : genesis.number64 = 0
  blocks : ∀ hash number b, node.db.readBlock hash number = some b ↔
    b = genesis ∧ hash = genesis.hash lib ∧ number = 0
  td : ∀ hash number, (node.db.readTd hash number).isSome ↔ hash = genesis.hash lib ∧ number = 0
  cache : node.tdCache = []

def Stored (lib : Primitives) (db : Database) (b : Block) : Prop :=
  ∃ c, db.readBlock (b.hash lib) b.number64 = some c ∧ c.header = b.header

/-- The blocks of a step are no other blocks with hashes that are taken; side chains and
known blocks consist of stored blocks only, known ones are canonical; and a difficulty is
only asked for where there is one. -/
def Regular (lib : Primitives) (node : Node S) (accepted : List Block) : Import S → Prop
  | .execute _ _ ref _ =>
    ref.block.number64 ≠ 0 ∧ ref.block.header.difficulty.isSome ∧
      ∀ hash number b, node.db.readBlock hash number = some b →
        b.hash lib = ref.block.hash lib → b.header = ref.block.header
  | .sideChain _ _ first rest =>
    ∀ ref ∈ first :: rest, ref.block.number64 ≠ 0 ∧ Stored lib node.db ref.block
  | .known _ refs =>
    ∀ entry ∈ refs, entry.2.block ∈ accepted ∧
      node.db.readCanonicalHash entry.2.block.number64 = entry.2.block.hash lib
  | .getTd hash number => (node.db.readTd hash number).isSome
  | .getBlock _ _ => True

section Stored

variable {lib : Primitives} {genesis : Block} {db : Database}

structure Consistent (lib : Primitives) (genesis : Block) (db : Database) : Prop where
  keyed : ∀ {hash number b}, db.readBlock hash number = some b →
    b.hash lib = hash ∧ b.number64 = number
  binding : ∀ {hash number b hash' number' c}, db.readBlock hash number = some b →
    db.readBlock hash' number' = some c → b.hash lib = c.hash lib → b.header = c.header
  stored : ∀ {hash number}, (db.readTd hash number).isSome → (db.readBlock hash number).isSome
  recorded : ∀ {hash number b}, db.readBlock hash number = some b →
    b = genesis ∧ number = 0 ∧ (db.readTd hash number).isSome ∨
      number ≠ 0 ∧ ∃ ptd difficulty, db.readTd b.parentHash (number - 1) = some ptd ∧
        b.header.difficulty = some difficulty ∧ db.readTd hash number = some (ptd + difficulty)

theorem Consistent.isSome_td (h : Consistent lib genesis db) {hash : Hash} {number : UInt64}
    {b : Block} (hb : db.readBlock hash number = some b) :
    ∃ td, db.readTd hash number = some td := by
  rcases h.recorded hb with ⟨-, -, htd⟩ | ⟨-, ptd, difficulty, -, -, htd⟩
  · exact Option.isSome_iff_exists.mp htd
  · exact ⟨_, htd⟩

theorem Consistent.number_unique (h : Consistent lib genesis db) {hash : Hash}
    {number number' : UInt64} {td td' : Uint256} (htd : db.readTd hash number = some td)
    (htd' : db.readTd hash number' = some td') : number = number' := by
  obtain ⟨b, hb⟩ := Option.isSome_iff_exists.mp (h.stored (Option.isSome_of_eq_some htd))
  obtain ⟨c, hc⟩ := Option.isSome_iff_exists.mp (h.stored (Option.isSome_of_eq_some htd'))
  obtain ⟨hhash, hnumber⟩ := h.keyed hb
  obtain ⟨hhash', hnumber'⟩ := h.keyed hc
  have hheader := h.binding hb hc (hhash.trans hhash'.symm)
  rw [← hnumber, ← hnumber', Block.number64, Block.number64, hheader]

theorem Consistent.of_sameBlocks {tx : Database} (h : Consistent lib genesis db)
    (hsame : SameBlocks db tx) : Consistent lib genesis tx := by
  have hblocks (hash number) : tx.readBlock hash number = db.readBlock hash number := by
    rw [Database.readBlock, hsame.blocks, Database.readBlock]
  have htd (hash number) : tx.readTd hash number = db.readTd hash number := by
    rw [Database.readTd, hsame.td, Database.readTd]
  constructor
  · simp only [hblocks]
    exact h.keyed
  · simp only [hblocks]
    exact h.binding
  · simp only [hblocks, htd]
    exact h.stored
  · simp only [hblocks, htd]
    exact h.recorded

def Extends (db tx : Database) : Prop :=
  ∀ ⦃hash number td⦄, db.readTd hash number = some td → tx.readTd hash number = some td

theorem extends_of_sameBlocks {tx : Database} (h : SameBlocks db tx) : Extends db tx := by
  intro hash number td htd
  rw [Database.readTd, h.td]
  exact htd

def withBlock (lib : Primitives) (b : Block) (td : Uint256) (db : Database) : Database :=
  (db.writeTd (b.hash lib) b.number64 td).writeBlock lib b

theorem readBlock_withBlock (b : Block) (td : Uint256) (hash : Hash) (number : UInt64) :
    (withBlock lib b td db).readBlock hash number =
      if number = b.number64 ∧ hash = b.hash lib then some b else db.readBlock hash number := by
  simp only [withBlock, Database.readBlock, Database.writeBlock, Database.writeTd,
    Function.update_apply, Prod.mk.injEq]

theorem readTd_withBlock (b : Block) (td : Uint256) (hash : Hash) (number : UInt64) :
    (withBlock lib b td db).readTd hash number =
      if number = b.number64 ∧ hash = b.hash lib then some td else db.readTd hash number := by
  simp only [withBlock, Database.readTd, Database.writeBlock, Database.writeTd,
    Function.update_apply, Prod.mk.injEq]

section Storing

variable {b : Block} {ptd difficulty : Uint256}

section

variable (h : Consistent lib genesis db) (hpos : b.number64 ≠ 0)
  (hparent : db.readTd b.parentHash (b.number64 - 1) = some ptd)
  (hdifficulty : b.header.difficulty = some difficulty)
  (hfresh : ∀ hash number c, db.readBlock hash number = some c →
      c.hash lib = b.hash lib → c.header = b.header)
include h hpos hparent hdifficulty hfresh

theorem extends_withBlock : Extends db (withBlock lib b (ptd + difficulty) db) := by
  intro hash number td htd
  rw [readTd_withBlock]
  split
  case isFalse => exact htd
  case isTrue hkey =>
    obtain ⟨rfl, rfl⟩ := hkey
    obtain ⟨c, hc⟩ := Option.isSome_iff_exists.mp (h.stored (Option.isSome_of_eq_some htd))
    have hheader := hfresh _ _ c hc (h.keyed hc).1
    rcases h.recorded hc with ⟨-, hzero, -⟩ | ⟨-, ptd', difficulty', hptd, hd, hrecorded⟩
    · exact absurd hzero hpos
    · rw [Block.parentHash, hheader] at hptd
      rw [hheader, hdifficulty] at hd
      rw [← Option.some.inj (hparent.symm.trans hptd), ← Option.some.inj hd, htd] at hrecorded
      exact hrecorded.symm

theorem consistent_withBlock : Consistent lib genesis (withBlock lib b (ptd + difficulty) db) := by
  have hkept := extends_withBlock h hpos hparent hdifficulty hfresh
  -- A block of the new database is the new one or was there before.
  have hcases {hash number c}
      (hc : (withBlock lib b (ptd + difficulty) db).readBlock hash number = some c) :
      number = b.number64 ∧ hash = b.hash lib ∧ c = b ∨ db.readBlock hash number = some c := by
    rw [readBlock_withBlock] at hc
    split at hc
    case isTrue hkey => exact .inl ⟨hkey.1, hkey.2, (Option.some.inj hc).symm⟩
    case isFalse => exact .inr hc
  constructor
  · intro hash number c hc
    rcases hcases hc with ⟨rfl, rfl, rfl⟩ | hc
    · exact ⟨rfl, rfl⟩
    · exact h.keyed hc
  · intro hash number c hash' number' c' hc hc' hhash
    rcases hcases hc with ⟨-, -, rfl⟩ | hold
    · rcases hcases hc' with ⟨-, -, rfl⟩ | hold'
      · rfl
      · exact (hfresh _ _ c' hold' hhash.symm).symm
    · rcases hcases hc' with ⟨-, -, rfl⟩ | hold'
      · exact hfresh _ _ c hold hhash
      · exact h.binding hold hold' hhash
  · intro hash number htd
    rw [readTd_withBlock] at htd
    rw [readBlock_withBlock]
    split
    case isTrue => rfl
    case isFalse hkey =>
      rw [if_neg hkey] at htd
      exact h.stored htd
  · intro hash number c hc
    rcases hcases hc with ⟨rfl, rfl, rfl⟩ | hc
    · refine .inr ⟨hpos, ptd, difficulty, hkept hparent, hdifficulty, ?_⟩
      rw [readTd_withBlock, if_pos ⟨rfl, rfl⟩]
    · rcases h.recorded hc with ⟨heq, hzero, htd⟩ | ⟨hne, ptd', d, hptd, hd, htd⟩
      · obtain ⟨td, htd⟩ := Option.isSome_iff_exists.mp htd
        exact .inl ⟨heq, hzero, Option.isSome_of_eq_some (hkept htd)⟩
      · exact .inr ⟨hne, ptd', d, hkept hptd, hd, hkept htd⟩

end

end Storing

end Stored

section Reading

variable {lib : Primitives} {genesis : Block} {db : Database} {head : BlockRef} {t : StateTables S} {node : Node S}

def Cached (db : Database) (cache : LruCache Hash (Option Uint256)) : Prop :=
  ∀ entry ∈ cache, ∃ number td, entry.2 = some td ∧ db.readTd entry.1 number = some td

/-- A node over the given database and tables, with the given head. -/
structure Over (db : Database) (head : BlockRef) (t : StateTables S) (node : Node S) :
    Prop where
  db_eq : node.db = db
  head_eq : node.chain.currentBlock = head
  tables_eq : node.tables = t
  cached : Cached db node.tdCache

theorem getTd_over (h : Consistent lib genesis db) {hash : Hash} {number : UInt64}
    {td : Uint256} (htd : db.readTd hash number = some td) (hnode : Over db head t node) :
    Over db head t (node.getTd hash number).2 ∧ (node.getTd hash number).1 = some td := by
  unfold Node.getTd
  have hcache (entry) (hentry : entry ∈ (node.tdCache.get hash).2) :=
    hnode.cached entry (LruCache.mem_of_mem_get hentry)
  have hfound (value) (hvalue : (node.tdCache.get hash).1 = some value) :=
    hnode.cached _ (LruCache.mem_of_get_eq_some hvalue)
  generalize node.tdCache.get hash = got at hcache hfound ⊢
  rcases got with ⟨_ | value, cache⟩
  · simp only [hnode.db_eq, htd, and_true]
    refine ⟨hnode.db_eq, hnode.head_eq, hnode.tables_eq, fun entry hentry => ?_⟩
    rcases LruCache.mem_of_mem_add hentry with rfl | hold
    · exact ⟨number, td, rfl, htd⟩
    · exact hcache entry hold
  · obtain ⟨number', td', hvalue, htd'⟩ := hfound value rfl
    cases h.number_unique htd htd'
    refine ⟨⟨hnode.db_eq, hnode.head_eq, hnode.tables_eq, hcache⟩, ?_⟩
    exact hvalue.trans (htd'.symm.trans htd)

variable {exc : WriteError → Prop}

theorem ensures_getTd (h : Consistent lib genesis db) {hash : Hash} {number : UInt64} {td : Uint256}
    (htd : db.readTd hash number = some td) :
    Ensures (Over db head t) (ofState (Node.getTd hash number)) (· = some td) exc :=
  ensures_ofState fun _ hnode => getTd_over h htd hnode

theorem ensures_reorgNeeded (h : Consistent lib genesis db) {coin : Bool} {current header : Block}
    {localTd externTd : Uint256}
    (hlocal : db.readTd (current.hash lib) current.number64 = some localTd)
    (hexternal : db.readTd (header.hash lib) header.number64 = some externTd) :
    Ensures (Over db head t) (reorgNeeded lib coin current header)
      (· = prefers coin current header localTd externTd) exc := by
  refine ensures_bind (ensures_getTd h hlocal) fun a ha => ?_
  refine ensures_bind (ensures_getTd h hexternal) fun b hb => ?_
  refine ensures_bind (ensures_require ⟨localTd, ha, rfl⟩) fun _ hl => ?_
  refine ensures_bind (ensures_require ⟨externTd, hb, rfl⟩) fun _ he => ?_
  rw [← hl, ← he]
  exact ensures_pure rfl

theorem over_getBlock (hash : Hash) (number : UInt64) (hnode : Over db head t node) :
    Over db head t (SideChains.Node.getBlock hash number node).2 := by
  obtain ⟨hdb, hhead⟩ := Prod.mk.inj (durable_getBlock hash number node.chain)
  exact ⟨hdb.trans hnode.db_eq, hhead.trans hnode.head_eq, hnode.tables_eq, hnode.cached⟩

theorem over_getBlockByNumber (number : UInt64) (hnode : Over db head t node) :
    Over db head t (SideChains.Node.getBlockByNumber number node).2 := by
  unfold SideChains.Node.getBlockByNumber
  split
  · exact hnode
  · exact over_getBlock _ number hnode

theorem Consistent.of_stored (h : Consistent lib genesis db) {b : Block}
    (hpos : b.number64 ≠ 0) (hb : Stored lib db b) :
    (∃ td, db.readTd (b.hash lib) b.number64 = some td) ∧
      (∃ ptd, db.readTd b.parentHash (b.number64 - 1) = some ptd) ∧
      ∃ difficulty, b.header.difficulty = some difficulty := by
  obtain ⟨c, hc, hheader⟩ := hb
  refine ⟨h.isSome_td hc, ?_⟩
  rcases h.recorded hc with ⟨-, hzero, -⟩ | ⟨-, ptd, difficulty, hptd, hd, -⟩
  · exact absurd hzero hpos
  · rw [Block.parentHash, hheader] at hptd
    rw [hheader] at hd
    exact ⟨⟨ptd, hptd⟩, difficulty, hd⟩

theorem ensures_rival (current ref : BlockRef) :
    Ensures (Over db head t) (rival current ref) (fun _ => True) exc := by
  unfold rival
  split
  · exact ensures_ofState fun _ hnode => ⟨over_getBlockByNumber _ hnode, trivial⟩
  · exact ensures_pure trivial

theorem ensures_sideTd (h : Consistent lib genesis db) (w : SideWalk) {b : Block} {ptd : Uint256}
    (hptd : db.readTd b.parentHash (b.number64 - 1) = some ptd) :
    Ensures (Over db head t) (sideTd w b) (fun _ => True) exc := by
  unfold sideTd
  split
  · exact ensures_bind (ensures_getTd h hptd) fun a ha => ensures_require ⟨ptd, ha, trivial⟩
  · exact ensures_pure trivial

theorem ensures_storeSideBlock {b : Block} (hb : Stored lib db b) :
    Ensures (Over db head t) (storeSideBlock lib b) (fun _ => True) exc := by
  refine ensures_bind ensures_get fun node hnode => ?_
  have hhas : SideChains.Node.hasBlock (b.hash lib) b.number64 node = true := by
    obtain ⟨c, hc, -⟩ := hb
    rw [SideChains.Node.hasBlock, hnode.db_eq, hc]
    exact Bool.or_true _
  rw [if_pos hhas]
  exact ensures_pure trivial

theorem ensures_importSideBlock (h : Consistent lib genesis db) {current ref : BlockRef}
    {w : SideWalk} (hpos : ref.block.number64 ≠ 0) (href : Stored lib db ref.block)
    (hw : Stored lib db w.lastBlock.block) :
    Ensures (Over db head t) (importSideBlock lib current w ref)
      (fun w => Stored lib db w.lastBlock.block) (· ≠ .panic) := by
  obtain ⟨⟨td, htd⟩, ⟨ptd, hptd⟩, difficulty, hdifficulty⟩ := h.of_stored hpos href
  refine ensures_seq (ensures_rival current ref) fun canonical => ?_
  split
  · refine ensures_bind (ensures_getTd h htd) fun a ha => ?_
    exact ensures_seq (ensures_require ⟨td, ha, trivial⟩) fun _ => ensures_pure hw
  · refine ensures_bind (ensures_failIf (by decide)) fun _ _ => ?_
    refine ensures_seq (ensures_sideTd h w hptd) fun externTd => ?_
    refine ensures_seq (ensures_require ⟨difficulty, hdifficulty, trivial⟩) fun _ => ?_
    exact ensures_seq (ensures_storeSideBlock href) fun _ => ensures_pure href

theorem ensures_missingStates (fuel : Nat) (w : Option Block × List (Hash × UInt64)) :
    Ensures (Over db head t)
      (loop (.reorg .outOfFuel) (missingStates lib) fuel w) (fun _ => True) (· ≠ .panic) := by
  refine ensures_loop nofun (fun w => ?_) fuel w
  refine ensures_seq ?_ fun parent => ensures_bind ensures_get fun node _ => ?_
  · cases w.1 with
    | none => exact ensures_fail nofun
    | some parent => exact ensures_pure trivial
  · split
    · exact ensures_pure trivial
    · exact ensures_pure trivial

theorem ensures_insertSideChain (h : Consistent lib genesis db) {fuel : Nat} {coin : Bool}
    {first : BlockRef} {rest : List BlockRef}
    (hrefs : ∀ ref ∈ first :: rest, ref.block.number64 ≠ 0 ∧ Stored lib db ref.block)
    (hhead : ∃ td, db.readTd (head.block.hash lib) head.block.number64 = some td) :
    Ensures (Over db head t) (insertSideChain lib fuel coin first rest)
      (fun _ => True) (· ≠ .panic) := by
  obtain ⟨headTd, hhead⟩ := hhead
  refine ensures_bind ensures_get fun node hnode => ?_
  simp only [hnode.head_eq]
  refine ensures_bind (ensures_foldlM (hrefs first List.mem_cons_self).2 fun w hw ref href =>
    ensures_importSideBlock h (hrefs ref href).1 (hrefs ref href).2 hw) fun w hw => ?_
  obtain ⟨c, hc, -⟩ := hw
  obtain ⟨td, htd⟩ := h.isSome_td hc
  refine ensures_bind (ensures_reorgNeeded h hhead htd) fun needed _ => ?_
  split
  · exact ensures_missingStates fuel _
  · exact ensures_bind (ensures_getTd h hhead) fun _ _ => ensures_pure trivial

end Reading

variable {localTd externTd : Uint256} {current header : Block}

theorem le_of_prefers {coin : Bool} (h : prefers coin current header localTd externTd = true) :
    localTd ≤ externTd := by
  simp only [prefers, Bool.or_eq_true, Bool.and_eq_true, decide_eq_true_eq, beq_iff_eq] at h
  rcases h with hlt | ⟨heq, -⟩
  · exact BitVec.le_of_lt hlt
  · rw [heq]
    exact BitVec.le_refl _

theorem le_of_not_prefers {coin : Bool} (h : prefers coin current header localTd externTd = false) :
    externTd ≤ localTd := by
  simp only [prefers, Bool.or_eq_false_iff, decide_eq_false_iff_not] at h
  exact BitVec.not_lt.mp h.1

theorem prefers_of_lt {coin : Bool} (hle : externTd ≤ localTd)
    (hlt : current.number64 < header.number64) :
    prefers coin current header localTd externTd = false := by
  have hnot : ¬ header.number64 < current.number64 := UInt64.lt_asymm hlt
  have hne : header.number64 ≠ current.number64 := (UInt64.ne_of_lt hlt).symm
  simp [prefers, BitVec.not_lt.mpr hle, hnot, hne]

section Steps

variable {lib : Primitives} {genesis : Block} {db : Database} {node : Node S}
  {accepted : List Block}

structure Peak (lib : Primitives) (db : Database) (head : Block) (accepted : List Block) :
    Prop where
  mem : head ∈ accepted
  td : ∃ td, db.readTd (head.hash lib) head.number64 = some td ∧
    ∀ b ∈ accepted, ∃ t, db.readTd (b.hash lib) b.number64 = some t ∧ t ≤ td

structure Sound (lib : Primitives) (genesis : Block) (node : Node S) (accepted : List Block) :
    Prop where
  consistent : Consistent lib genesis node.db
  cached : Cached node.db node.tdCache
  peak : Peak lib node.db node.chain.currentBlock.block accepted

theorem Sound.over (h : Sound lib genesis node accepted) :
    Over node.db node.chain.currentBlock node.tables node :=
  ⟨rfl, rfl, rfl, h.cached⟩

theorem Peak.extends {tx : Database} {head : Block} (h : Peak lib db head accepted)
    (htx : Extends db tx) : Peak lib tx head accepted := by
  obtain ⟨td, hhead, hmax⟩ := h.td
  refine ⟨h.mem, td, htx hhead, fun b hb => ?_⟩
  obtain ⟨t, ht, hle⟩ := hmax b hb
  exact ⟨t, htx ht, hle⟩

theorem Cached.extends {tx : Database} {cache : LruCache Hash (Option Uint256)}
    (h : Cached db cache) (htx : Extends db tx) : Cached tx cache := by
  intro entry hentry
  obtain ⟨number, td, hvalue, htd⟩ := h entry hentry
  exact ⟨number, td, hvalue, htx htd⟩

section

variable {head b : Block} {td t : Uint256} (h : Peak lib db head accepted)
  (hhead : db.readTd (head.hash lib) head.number64 = some td)
  (hb : db.readTd (b.hash lib) b.number64 = some t)
include h hhead hb

theorem Peak.cons (hle : t ≤ td) : Peak lib db head (b :: accepted) := by
  obtain ⟨td', hhead', hmax⟩ := h.td
  cases hhead.symm.trans hhead'
  refine ⟨List.mem_cons_of_mem _ h.mem, td, hhead, ?_⟩
  rintro c (_ | ⟨_, hc⟩)
  · exact ⟨t, hb, hle⟩
  · exact hmax c hc

theorem Peak.move (hle : td ≤ t) : Peak lib db b (b :: accepted) := by
  obtain ⟨td', hhead', hmax⟩ := h.td
  cases hhead.symm.trans hhead'
  refine ⟨List.mem_cons_self, t, hb, ?_⟩
  rintro c (_ | ⟨_, hc⟩)
  · exact ⟨t, hb, BitVec.le_refl t⟩
  · obtain ⟨t', ht', hle'⟩ := hmax c hc
    exact ⟨t', ht', BitVec.le_trans hle' hle⟩

end

/-- What a step leads to: no panic, and a sound state if the step ends. -/
def Leads (lib : Primitives) (genesis : Block) (accepted : List Block)
    (r : Except WriteError (List Block) × Node S) : Prop :=
  r.1 ≠ .error .panic ∧ (r.1 ≠ .error (.reorg .outOfFuel) →
    Sound lib genesis r.2 (acceptedBy r.1 ++ accepted))

theorem leads_of_ensures {x : Action (Node S) WriteError (List Block)}
    (h : Sound lib genesis node accepted)
    (hx : Ensures (Over node.db node.chain.currentBlock node.tables) x (· = []) (· ≠ .panic)) :
    Leads lib genesis accepted (x node) := by
  obtain ⟨hover, hok, herror⟩ := hx node h.over
  have haccepted : acceptedBy (x node).1 = [] := by
    cases hresult : (x node).1 with
    | ok blocks => exact hok blocks hresult
    | error e => rfl
  refine ⟨fun hpanic => herror _ hpanic rfl, fun _ => ?_⟩
  rw [haccepted, List.nil_append]
  constructor
  · rw [hover.db_eq]
    exact h.consistent
  · rw [hover.db_eq]
    exact hover.cached
  · rw [hover.db_eq, hover.head_eq]
    exact h.peak

variable {t : StateTables S}

section

variable {head : BlockRef} {refs : List (Bool × BlockRef)} (h : Consistent lib genesis db)
  (hpeak : Peak lib db head.block accepted) (hrefs : ∀ entry ∈ refs, entry.2.block ∈ accepted ∧
      db.readCanonicalHash entry.2.block.number64 = entry.2.block.hash lib)
include h hpeak hrefs

theorem ensures_skipKnown {exc : WriteError → Prop} :
    Ensures (Over db head t) (skipKnown lib head refs) (· = []) exc := by
  obtain ⟨td, htd, hmax⟩ := hpeak.td
  induction refs with
  | nil => exact ensures_pure rfl
  | cons entry rest ih =>
    obtain ⟨hmem, hcanonical⟩ := hrefs entry List.mem_cons_self
    obtain ⟨t, ht, hle⟩ := hmax _ hmem
    refine ensures_bind (ensures_reorgNeeded h htd ht) fun needed hneeded => ?_
    refine ensures_bind ensures_get fun node hnode => ?_
    rw [if_neg]
    · exact ih fun entry hentry => hrefs entry (List.mem_cons_of_mem _ hentry)
    · rintro ⟨rfl, hlt | hother⟩
      · rw [prefers_of_lt hle hlt] at hneeded
        cases hneeded
      · rw [hnode.db_eq] at hother
        exact hother hcanonical

variable {fuel : Nat}

theorem ensures_insertKnown {exc : WriteError → Prop} :
    Ensures (Over db head t) (insertKnown lib fuel refs) (fun _ => True) exc := by
  refine ensures_bind ensures_get fun node hnode => ?_
  rw [hnode.head_eq]
  refine ensures_bind (ensures_skipKnown h hpeak hrefs) ?_
  rintro _ rfl
  exact ensures_pure trivial

end

theorem storeBlock_cases (lib : Primitives) (b : Block) (o : BlockOutcome S)
    (node : Node S) :
    (∃ e, storeBlock lib b o node = (.error e, node) ∧ (b.header.difficulty.isSome → e ≠ .panic)) ∨
      ∃ ptd difficulty tables, node.db.readTd b.parentHash (b.number64 - 1) = some ptd ∧
        b.header.difficulty = some difficulty ∧
        node.tables.writeOutcome b.number64.toNat o = some tables ∧
        storeBlock lib b o node = (.ok (), { node with
          tables := tables
          chain := { node.chain with
            chainDB := withBlock lib b (ptd + difficulty) node.db } }) := by
  unfold storeBlock
  rw [get_bind]
  cases hptd : node.db.readTd b.parentHash (b.number64 - 1) with
  | none => exact .inl ⟨.unknownAncestor, rfl, fun _ => nofun⟩
  | some ptd =>
    cases hdifficulty : b.header.difficulty with
    | none => exact .inl ⟨.panic, rfl, nofun⟩
    | some difficulty =>
      cases htables : node.tables.writeOutcome b.number64.toNat o with
      | none => exact .inl ⟨.appendFailed, rfl, fun _ => nofun⟩
      | some tables => exact .inr ⟨ptd, difficulty, tables, rfl, rfl, rfl, rfl⟩

variable {ref : BlockRef}

theorem sound_of_head (h : Consistent lib genesis db) (hcached : Cached db node.tdCache)
    (hpeak : Peak lib db ref.block accepted) (hsame : SameBlocks db node.db)
    (hhead : node.chain.currentBlock = ref) :
    Sound lib genesis node accepted := by
  refine ⟨h.of_sameBlocks hsame, hcached.extends (extends_of_sameBlocks hsame), ?_⟩
  rw [hhead]
  exact hpeak.extends (extends_of_sameBlocks hsame)

/-- A block was accepted, or an error that is not a panic has left the accepted blocks as
they were. -/
def Settles (lib : Primitives) (genesis : Block) (accepted : List Block) (b : Block)
    (r : Except WriteError WriteStatus × Node S) : Prop :=
  (∃ status, r.1 = .ok status ∧ Sound lib genesis r.2 (b :: accepted)) ∨
    r.1 = .error (.reorg .outOfFuel) ∨
      ∃ e, r.1 = .error e ∧ e ≠ .panic ∧ Sound lib genesis r.2 accepted

theorem settles_needed {ref head : BlockRef} (h : Consistent lib genesis db)
    (hnode : Over db head t node) (hkept : Peak lib db head.block accepted)
    (hmoved : Peak lib db ref.block (ref.block :: accepted)) :
    Settles lib genesis accepted ref.block ((do
      if ref.block.parentHash ≠ head.block.hash lib then
        Node.onChain (reorg lib fuel none head ref)
      else pure ()
      let _ ← Node.onChain (writeHeadBlock lib none ref)
      return WriteStatus.canonStatTy) node) := by
  have hhead (bc : BlockChain) (hsame : SameBlocks db bc.chainDB) :
      Settles lib genesis accepted ref.block ((do
        let _ ← Node.onChain (writeHeadBlock lib none ref)
        return WriteStatus.canonStatTy) { node with chain := bc }) := by
    refine .inl ⟨.canonStatTy, rfl, sound_of_head h hnode.cached hmoved ?_ rfl⟩
    exact hsame.trans (sameBlocks_writeHead ref.block bc.chainDB)
  have hdb := hnode.db_eq
  by_cases hparent : ref.block.parentHash ≠ head.block.hash lib
  · rw [if_pos hparent]
    have hconfined : Confined node.chain (reorg lib fuel none head ref node.chain) :=
      reorg_confined fuel head ref node.chain
    rcases hreorg : reorg lib fuel none head ref node.chain with ⟨e | _, bc⟩
    · have hrun : Node.onChain (reorg lib fuel none head ref) node =
          (.error (.reorg e), { node with chain := bc }) := by
        rw [Node.onChain, hreorg]
        rfl
      rw [hreorg] at hconfined
      obtain ⟨hsame, hcases⟩ := hconfined
      rw [bind_of_eq_error hrun]
      refine .inr ?_
      rcases hcases with hok | htimeout | hsamehead
      · cases hok
      · cases htimeout
        exact .inl rfl
      · refine .inr ⟨_, rfl, ?_, sound_of_head h hnode.cached hkept ?_ ?_⟩
        · intro hpanic
          cases hpanic
        · exact hdb ▸ hsame
        · exact hsamehead.trans hnode.head_eq
    · have hrun : Node.onChain (reorg lib fuel none head ref) node =
          (.ok (), { node with chain := bc }) :=
        Node.onChain_eq_ok_iff.mpr ⟨bc, hreorg, rfl⟩
      rw [hreorg] at hconfined
      rw [bind_of_eq_ok hrun]
      exact hhead bc (hdb ▸ hconfined.1)
  · rw [if_neg hparent]
    exact hhead node.chain (hdb ▸ .refl _)

def afterChoice (lib : Primitives) (fuel : Nat) (ref head : BlockRef) (needed : Bool) :
    Action (Node S) WriteError WriteStatus :=
  if needed then do
    if ref.block.parentHash ≠ head.block.hash lib then
      Node.onChain (reorg lib fuel none head ref)
    else pure ()
    let _ ← Node.onChain (writeHeadBlock lib none ref)
    return .canonStatTy
  else return .sideStatTy

variable {o : BlockOutcome S}

section

variable (h : Sound lib genesis node accepted)
include h

section

variable {coin : Bool} (hregular : Regular lib node accepted (.execute fuel coin ref o))
include hregular

/-- An import fails before anything is written, or it comes to the fork choice between the
stored block and the head, with both total difficulties. -/
theorem writeBlockWithState_cases :
    (∃ e, writeBlockWithState lib fuel coin ref o node = (.error e, node) ∧ e ≠ .panic) ∨
      ∃ ptd difficulty localTd tables next,
        node.db.readTd ref.block.parentHash (ref.block.number64 - 1) = some ptd ∧
        ref.block.header.difficulty = some difficulty ∧
        node.db.readTd (node.chain.currentBlock.block.hash lib)
          node.chain.currentBlock.block.number64 = some localTd ∧
        node.tables.writeOutcome ref.block.number64.toNat o = some tables ∧
        Over (withBlock lib ref.block (ptd + difficulty) node.db) node.chain.currentBlock tables
          next ∧ writeBlockWithState lib fuel coin ref o node =
          afterChoice lib fuel ref node.chain.currentBlock
            (prefers coin node.chain.currentBlock.block ref.block localTd (ptd + difficulty))
            next := by
  obtain ⟨hpos, hdifficulty, hfresh⟩ := hregular
  unfold writeBlockWithState
  rcases storeBlock_cases lib ref.block o node with
    ⟨e, hstore, hpanic⟩ | ⟨ptd, difficulty, tables, hptd, hd, htables, hstore⟩
  · exact .inl ⟨e, bind_of_eq_error hstore, hpanic hdifficulty⟩
  obtain ⟨localTd, hlocal, -⟩ := h.peak.td
  have hextends := extends_withBlock h.consistent hpos hptd hd hfresh
  have hexternal : (withBlock lib ref.block (ptd + difficulty) node.db).readTd
      (ref.block.hash lib) ref.block.number64 = some (ptd + difficulty) := by
    rw [readTd_withBlock, if_pos ⟨rfl, rfl⟩]
  have hstored : Over (withBlock lib ref.block (ptd + difficulty) node.db)
      node.chain.currentBlock tables { node with
        tables := tables
        chain := { node.chain with
          chainDB := withBlock lib ref.block (ptd + difficulty) node.db } } :=
    ⟨rfl, rfl, rfl, h.cached.extends hextends⟩
  obtain ⟨next, hneeded, hover⟩ := eq_ok_of_ensures (ensures_reorgNeeded
    (consistent_withBlock h.consistent hpos hptd hd hfresh) (hextends hlocal) hexternal) hstored
  refine .inr ⟨ptd, difficulty, localTd, tables, next, hptd, hd, hlocal, htables, hover, ?_⟩
  rw [bind_of_eq_ok hstore, get_bind]
  exact bind_of_eq_ok hneeded

theorem settles_writeBlockWithState :
    Settles lib genesis accepted ref.block (writeBlockWithState lib fuel coin ref o node) := by
  rcases writeBlockWithState_cases h hregular with
    ⟨e, hresult, hpanic⟩ | ⟨ptd, difficulty, localTd, tables, next, hptd, hd, hlocal, -, hover,
      hresult⟩
  · rw [hresult]
    exact .inr (.inr ⟨e, rfl, hpanic, h⟩)
  obtain ⟨hpos, -, hfresh⟩ := hregular
  have hextends := extends_withBlock h.consistent hpos hptd hd hfresh
  have hconsistent := consistent_withBlock h.consistent hpos hptd hd hfresh
  have hpeak := h.peak.extends hextends
  have hexternal : (withBlock lib ref.block (ptd + difficulty) node.db).readTd
      (ref.block.hash lib) ref.block.number64 = some (ptd + difficulty) := by
    rw [readTd_withBlock, if_pos ⟨rfl, rfl⟩]
  rw [hresult]
  cases hchoice : prefers coin node.chain.currentBlock.block ref.block localTd
      (ptd + difficulty) with
  | false =>
    have hkept := hpeak.cons (hextends hlocal) hexternal (le_of_not_prefers hchoice)
    exact .inl ⟨.sideStatTy, rfl, sound_of_head hconsistent hover.cached hkept
      (hover.db_eq ▸ .refl _) hover.head_eq⟩
  | true =>
    have hmoved := hpeak.move (hextends hlocal) hexternal (le_of_prefers hchoice)
    exact settles_needed hconsistent hover hpeak hmoved

theorem leads_execute :
    Leads lib genesis accepted (Import.perform lib (.execute fuel coin ref o) node) := by
  have hsettles := settles_writeBlockWithState h hregular
  change Leads lib genesis accepted
    ((writeBlockWithState lib fuel coin ref o >>= fun _ => pure [ref.block]) node)
  rcases bind_cases (writeBlockWithState lib fuel coin ref o) (fun _ => pure [ref.block]) node
    with ⟨e, next, hwrite, hresult⟩ | ⟨status, next, hwrite, hresult⟩
  · rw [hwrite] at hsettles
    rw [hresult]
    rcases hsettles with ⟨status, hok, -⟩ | htimeout | ⟨e', he, hpanic, hsound⟩
    · cases hok
    · cases htimeout
      exact ⟨nofun, fun hended => absurd rfl hended⟩
    · cases he
      exact ⟨fun heq => hpanic (Except.error.inj heq), fun _ => hsound⟩
  · rw [hwrite] at hsettles
    rw [hresult]
    rcases hsettles with ⟨status', -, hsound⟩ | htimeout | ⟨e', he, -, -⟩
    · exact ⟨nofun, fun _ => hsound⟩
    · cases htimeout
    · cases he

end

theorem ensures_perform {imp : Import S} (hregular : Regular lib node accepted imp)
    (hreads : ∀ fuel coin ref o, imp ≠ .execute fuel coin ref o) :
    Ensures (Over node.db node.chain.currentBlock node.tables) (imp.perform lib) (· = [])
      (· ≠ .panic) := by
  cases imp with
  | execute fuel coin ref o => exact absurd rfl (hreads fuel coin ref o)
  | sideChain fuel coin first rest =>
    obtain ⟨td, htd, -⟩ := h.peak.td
    exact ensures_seq (ensures_insertSideChain h.consistent hregular ⟨td, htd⟩) fun _ =>
      ensures_pure rfl
  | known fuel refs =>
    exact ensures_seq (ensures_insertKnown h.consistent h.peak hregular) fun _ =>
      ensures_pure rfl
  | getTd hash number =>
    obtain ⟨td, htd⟩ := Option.isSome_iff_exists.mp hregular
    exact ensures_bind (ensures_getTd h.consistent htd) fun _ _ => ensures_pure rfl
  | getBlock hash number =>
    exact ensures_seq (ensures_ofState fun _ hnode =>
      ⟨over_getBlock hash number hnode, trivial⟩) fun _ => ensures_pure rfl

theorem leads_perform {imp : Import S} (hregular : Regular lib node accepted imp) :
    Leads lib genesis accepted (imp.perform lib node) := by
  cases imp with
  | execute fuel coin ref o => exact leads_execute h hregular
  | _ => exact leads_of_ensures h (ensures_perform h hregular nofun)

end

theorem sound_first (h : IsFirst lib genesis node) : Sound lib genesis node [genesis] := by
  have hgenesis : node.db.readBlock (genesis.hash lib) 0 = some genesis :=
    (h.blocks _ _ _).mpr ⟨rfl, rfl, rfl⟩
  obtain ⟨td, htd⟩ := Option.isSome_iff_exists.mp ((h.td (genesis.hash lib) 0).mpr ⟨rfl, rfl⟩)
  refine ⟨⟨?_, ?_, ?_, ?_⟩, ?_, ?_⟩
  · intro hash number b hb
    obtain ⟨rfl, rfl, rfl⟩ := (h.blocks _ _ _).mp hb
    exact ⟨rfl, h.number⟩
  · intro hash number b hash' number' c hb hc _
    obtain ⟨rfl, -, -⟩ := (h.blocks _ _ _).mp hb
    obtain ⟨rfl, -, -⟩ := (h.blocks _ _ _).mp hc
    rfl
  · intro hash number htd
    obtain ⟨rfl, rfl⟩ := (h.td _ _).mp htd
    exact Option.isSome_of_eq_some hgenesis
  · intro hash number b hb
    obtain ⟨rfl, rfl, rfl⟩ := (h.blocks _ _ _).mp hb
    exact .inl ⟨rfl, rfl, (h.td _ _).mpr ⟨rfl, rfl⟩⟩
  · rw [h.cache]
    exact nofun
  · rw [h.head]
    refine ⟨List.mem_singleton_self genesis, td, ?_, ?_⟩
    · rw [h.number]
      exact htd
    · intro b hb
      rw [List.mem_singleton.mp hb, h.number]
      exact ⟨td, htd, BitVec.le_refl td⟩

theorem sound_of_run {first : Node S} (hfirst : IsFirst lib genesis first)
    (hrun : Run lib (Regular lib) genesis first node accepted) :
    Sound lib genesis node accepted := by
  induction hrun with
  | start => exact sound_first hfirst
  | step imp before hallowed ended ih => exact (leads_perform ih hallowed).2 ended

end Steps

/-- The four properties of the total difficulties: each one is the sum of that of the
parent and the block's own, they are what `GetTd` returns, no further import meets a
missing one, and the head has the greatest. -/
structure DifficultiesKept (lib : Primitives) (genesis : Block) (node : Node S)
    (accepted : List Block) : Prop where
  recorded : ∀ hash number b, node.db.readBlock hash number = some b → b ≠ genesis →
    ∃ ptd difficulty, node.db.readTd b.parentHash (number - 1) = some ptd ∧
      b.header.difficulty = some difficulty ∧ node.db.readTd hash number = some (ptd + difficulty)
  returned : ∀ hash number b, node.db.readBlock hash number = some b →
    (node.getTd hash number).1.isSome ∧ (node.getTd hash number).1 = node.db.readTd hash number
  evaluated : ∀ imp, Regular lib node accepted imp → (imp.perform lib node).1 ≠ .error .panic
  head : Peak lib node.db node.chain.currentBlock.block accepted

/-- The properties hold in every state of a run whose steps are all regular. -/
theorem difficultiesKept_of_run (lib : Primitives) (genesis : Block) (first node : Node S)
    (accepted : List Block) (hfirst : IsFirst lib genesis first)
    (hrun : Run lib (Regular lib) genesis first node accepted) :
    DifficultiesKept lib genesis node accepted := by
  have h := sound_of_run hfirst hrun
  refine ⟨?_, ?_, fun imp himp => (leads_perform h himp).1, h.peak⟩
  · intro hash number b hb hne
    rcases h.consistent.recorded hb with ⟨heq, -, -⟩ | ⟨-, hrecorded⟩
    · exact absurd heq hne
    · exact hrecorded
  · intro hash number b hb
    obtain ⟨td, htd⟩ := h.consistent.isSome_td hb
    have hget := (getTd_over h.consistent htd h.over).2
    exact ⟨Option.isSome_of_eq_some hget, hget.trans htd.symm⟩

def toyEmptyOutcome : BlockOutcome Unit :=
  { toyOutcome with receipts := [] }

theorem isFirst_toyGenesisNode : IsFirst toyPrimitives toyGenesis toyGenesisNode where
  head := rfl
  number := rfl
  blocks hash number b := by
    change (withBlock toyPrimitives toyGenesis 0 Database.empty).readBlock hash number = _ ↔ _
    rw [readBlock_withBlock]
    change (if number = 0 ∧ hash = toyGenesis.hash toyPrimitives then some toyGenesis else none) =
      some b ↔ _
    grind
  td hash number := by
    change ((withBlock toyPrimitives toyGenesis 0 Database.empty).readTd hash number).isSome ↔ _
    rw [readTd_withBlock]
    change (if number = 0 ∧ hash = toyGenesis.hash toyPrimitives then some 0 else
      (none : Option Uint256)).isSome ↔ _
    grind
  cache := rfl

def toyHeavyNode : Node Unit :=
  ((Import.execute 0 false ⟨2, toyNew⟩ toyEmptyOutcome).perform toyPrimitives toyGenesisNode).2

def toySideNode : Node Unit :=
  ((Import.execute 0 false ⟨3, toyOld⟩ toyEmptyOutcome).perform toyPrimitives toyHeavyNode).2

theorem regular_toyNew :
    Regular toyPrimitives toyGenesisNode [toyGenesis]
      (.execute 0 false ⟨2, toyNew⟩ toyEmptyOutcome) := by
  refine ⟨by decide, rfl, fun hash number b hb hhash => ?_⟩
  obtain ⟨rfl, -, -⟩ := (isFirst_toyGenesisNode.blocks hash number b).mp hb
  exact absurd hhash (by decide +kernel)

theorem run_toyHeavyNode {allowed : Node Unit → List Block → Import Unit → Prop}
    (h : allowed toyGenesisNode [toyGenesis] (.execute 0 false ⟨2, toyNew⟩ toyEmptyOutcome)) :
    ∃ accepted, Run toyPrimitives allowed toyGenesis toyGenesisNode toyHeavyNode accepted :=
  ⟨_, .step (.execute 0 false ⟨2, toyNew⟩ toyEmptyOutcome) .start h (by decide +kernel)⟩

theorem difficultiesKept_toyHeavyNode :
    ∃ accepted, Run toyPrimitives (Regular toyPrimitives) toyGenesis toyGenesisNode
        toyHeavyNode accepted ∧
      DifficultiesKept toyPrimitives toyGenesis toyHeavyNode accepted := by
  obtain ⟨accepted, hrun⟩ := run_toyHeavyNode regular_toyNew
  exact ⟨accepted, hrun, difficultiesKept_of_run toyPrimitives toyGenesis toyGenesisNode toyHeavyNode _
    isFirst_toyGenesisNode hrun⟩

def toySideImport : Import Unit :=
  .sideChain 0 false ⟨4, toyOldest⟩ []

theorem toySideImport_facts :
    ((linkError toyPrimitives toyNew toyGenesisNode).1 = none ∧
      (linkError toyPrimitives toyOld toyHeavyNode).1 = none ∧
      (linkError toyPrimitives toyOldest toySideNode).1 = some .prunedAncestor) ∧
    ((Import.execute 0 false ⟨3, toyOld⟩ toyEmptyOutcome).perform toyPrimitives
      toyHeavyNode).1 ≠ .error (.reorg .outOfFuel) ∧
    (toySideImport.perform toyPrimitives toySideNode).1 = .error .panic ∧
    (toySideImport.perform toyPrimitives toySideNode).2.db.readBlock
      (toyOldest.hash toyPrimitives) 2 = some toyOldest ∧
    (toySideImport.perform toyPrimitives toySideNode).2.db.readTd
      (toyOldest.hash toyPrimitives) 2 = none := by
  decide +kernel

/-- A child of the lighter block, which is stored but not canonical, is imported as a side
chain.  It is stored without a total difficulty, and the fork choice dereferences it. -/
theorem side_block_without_difficulty :
    ((linkError toyPrimitives toyNew toyGenesisNode).1 = none ∧
      (linkError toyPrimitives toyOld toyHeavyNode).1 = none ∧
      (linkError toyPrimitives toyOldest toySideNode).1 = some .prunedAncestor) ∧
    (toySideImport.perform toyPrimitives toySideNode).1 = .error .panic ∧
    ∃ node accepted, (toySideImport.perform toyPrimitives toySideNode).2 = node ∧
      Run toyPrimitives (fun _ _ _ => True) toyGenesis toyGenesisNode node accepted ∧
      node.db.readBlock (toyOldest.hash toyPrimitives) 2 = some toyOldest ∧
      node.db.readTd (toyOldest.hash toyPrimitives) 2 = none := by
  obtain ⟨hlinks, hended, hpanic, hblock, htd⟩ := toySideImport_facts
  obtain ⟨accepted, hheavy⟩ : ∃ accepted, Run toyPrimitives (fun _ _ _ => True) toyGenesis
      toyGenesisNode toyHeavyNode accepted :=
    run_toyHeavyNode trivial
  have hside := hheavy.step (.execute 0 false ⟨3, toyOld⟩ toyEmptyOutcome) trivial hended
  have hlast := hside.step toySideImport trivial
    fun htimeout => absurd (hpanic.symm.trans htimeout) nofun
  exact ⟨hlinks, hpanic, _, _, rfl, hlast, hblock, htd⟩

end N42.TotalDifficulty
