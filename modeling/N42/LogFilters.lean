import N42.HeaderSealing
import N42.ReceiptCodec

/-!
Queries for the logs of a chain.  A filter selects one block by its hash or a range of
numbers, and of the logs of these blocks those with given addresses and topics.
-/

namespace N42.LogFilters

open ByteStrings ChainTypes BlockHeader HeaderSealing ReceiptCodec

structure LoggedBlock where
  header : Header
  receipts : List (List Log)

/-- A canonical chain, from the genesis block on.  No block has the hash of another one, or
the zero hash, which stands for a missing block. -/
structure LogChain (lib : Primitives) where
  blocks : List LoggedBlock
  nonempty : blocks ≠ []
  numbered : ∀ (i : Nat) (b : LoggedBlock), blocks[i]? = some b → b.header.number64.toNat = i
  hash_ne : ∀ b ∈ blocks, b.header.hash lib ≠ default
  hash_nodup : (blocks.map fun b => b.header.hash lib).Nodup
  short : blocks.length < 2 ^ 62

structure LogFilter where
  addresses : List Address
  topics : List (List Hash)
  block : Hash
  begin : Int
  end_ : Int

def pendingBlockNumber : Int :=
  -2

def latestBlockNumber : Int :=
  -1

inductive Answer where
  | logs (found : List Log)
  | errUnknownBlock
  | errInvalidBlockRange
  | untilCancelled
deriving DecidableEq

section Reading

variable {lib : Primitives} (chain : LogChain lib)

def LogChain.find (hash : Hash) : Option LoggedBlock :=
  chain.blocks.find? fun b => b.header.hash lib = hash

def getHeaderByHash (hash : Hash) : Option Header :=
  (chain.find hash).map LoggedBlock.header

def getHeaderByNumber (number : Nat) : Option Header :=
  chain.blocks[number]?.map LoggedBlock.header

def getReceipts (hash : Hash) : List (List Log) :=
  ((chain.find hash).map LoggedBlock.receipts).getD []

def getLogs (hash : Hash) : List (List Log) :=
  getReceipts chain hash

def currentNumber : Nat :=
  (chain.blocks.getLast chain.nonempty).header.number64.toNat

end Reading

section Blooms

/-- The bits of a bloom filter that a key is looked up at; there is at least one. -/
structure BloomKeys where
  positions : List UInt8 → List Nat
  nonempty : ∀ key, positions key ≠ []

structure BloomBits where
  bits : List Nat

def newBloom : BloomBits :=
  ⟨[]⟩

def BloomBits.contain (keys : BloomKeys) (bloom : BloomBits) (key : List UInt8) : Bool :=
  (keys.positions key).all fun i => decide (i ∈ bloom.bits)

def bloomFilter (keys : BloomKeys) (bloom : BloomBits) (addresses : List Address)
    (topics : List (List Hash)) : Bool :=
  (addresses.isEmpty || addresses.any fun addr => bloom.contain keys addr.bytes) &&
    topics.all fun sub => sub.isEmpty || sub.any fun topic => bloom.contain keys topic.bytes

end Blooms

def includes (addresses : List Address) (a : Address) : Bool :=
  addresses.any fun addr => addr = a

def filterLogs (logs : List Log) (addresses : List Address) (topics : List (List Hash)) :
    List Log :=
  logs.filter fun log =>
    (addresses.isEmpty || includes addresses log.address) &&
      (decide (topics.length ≤ log.topics.length) &&
        (topics.zip log.topics).all fun e => e.1.isEmpty || e.1.any fun topic => e.2 = topic)

section Searching

variable {lib : Primitives} (chain : LogChain lib) (keys : BloomKeys)

def checkMatches (f : LogFilter) (header : Header) : List Log :=
  let logs := filterLogs (getLogs chain (header.hash lib)).flatten f.addresses f.topics
  match logs with
  | [] => []
  | first :: _ =>
    if first.txHash = default then
      filterLogs (getReceipts chain (header.hash lib)).flatten f.addresses f.topics
    else logs

def blockLogs (f : LogFilter) (header : Header) : List Log :=
  if bloomFilter keys newBloom f.addresses f.topics then checkMatches chain f header else []

/-- The loop over the numbers of the range; `none` if it needs more rounds. -/
def unindexedLogs (f : LogFilter) (end_ : Nat) : Nat → Int → Option (List Log)
  | 0, _ => none
  | fuel + 1, begin =>
    if begin ≤ end_ then
      match getHeaderByNumber chain (begin % 2 ^ 64).toNat with
      | none => some []
      | some header =>
        (unindexedLogs f end_ fuel (begin + 1)).map fun rest =>
          blockLogs chain keys f header ++ rest
    else some []

structure Channel where
  queue : List Nat
  closed : Bool

def makeChannel : Channel :=
  ⟨[], false⟩

/-- The loop over the matches, which waits at a channel that is empty and not closed, with
the start that is left for the blocks without an index. -/
def receiveMatches (f : LogFilter) (closed : Bool) :
    List Nat → Int → List Log → Option (List Log × Int)
  | [], begin, logs => if closed then some (logs, begin) else none
  | number :: queue, _, logs =>
    match getHeaderByNumber chain number with
    | none => some (logs, number + 1)
    | some header =>
      receiveMatches f closed queue (number + 1) (logs ++ checkMatches chain f header)

/-- `indexedLogs`; nothing is sent into the channel that it makes. -/
def indexedLogs (f : LogFilter) (begin : Int) : Option (List Log × Int) :=
  let matches_ := makeChannel
  receiveMatches chain f matches_.closed matches_.queue begin []

def indexed : Nat :=
  10 * 4096

def rangeLogs (f : LogFilter) (fuel : Nat) : Option Answer :=
  let head := currentNumber chain
  let begin := if f.begin = latestBlockNumber then (head : Int) else f.begin
  let end_ := if f.end_ = latestBlockNumber ∨ f.end_ = pendingBlockNumber then head
    else (f.end_ % 2 ^ 64).toNat
  if (begin % 2 ^ 64).toNat < indexed then
    match indexedLogs chain f begin with
    | none => some .untilCancelled
    | some (logs, begin) =>
      (unindexedLogs chain keys f end_ fuel begin).map fun rest => .logs (logs ++ rest)
  else (unindexedLogs chain keys f end_ fuel begin).map .logs

/-- `Logs`; there are no logs of pending blocks. -/
def logs (f : LogFilter) (fuel : Nat) : Option Answer :=
  if f.block ≠ default then
    match getHeaderByHash chain f.block with
    | none => some .errUnknownBlock
    | some header => some (.logs (blockLogs chain keys f header))
  else if f.begin = pendingBlockNumber then
    if f.end_ ≠ pendingBlockNumber then some .errInvalidBlockRange else some (.logs [])
  else rangeLogs chain keys f fuel

end Searching

/-- The log has one of the addresses, and at every position one of the topics given for it;
an empty list stands for anything. -/
def Matches (f : LogFilter) (log : Log) : Prop :=
  (f.addresses = [] ∨ log.address ∈ f.addresses) ∧
    ∀ (i : Nat) (sub : List Hash), f.topics[i]? = some sub →
      ∃ topic, log.topics[i]? = some topic ∧ (sub = [] ∨ topic ∈ sub)

def Unconstrained (f : LogFilter) : Prop :=
  f.addresses = [] ∧ ∀ sub ∈ f.topics, sub = []

section Selecting

variable {lib : Primitives} (chain : LogChain lib)

def bound (number : Int) : Nat :=
  if number = latestBlockNumber then currentNumber chain else number.toNat

def selected (f : LogFilter) : List LoggedBlock :=
  if f.block ≠ default then chain.blocks.filter fun b => b.header.hash lib = f.block
  else (chain.blocks.take (bound chain f.end_ + 1)).drop (bound chain f.begin)

open Classical in
noncomputable def expected (f : LogFilter) : List Log :=
  (selected chain f).flatMap fun b => b.receipts.flatten.filter fun log => Matches f log

/-- The hash is that of a block, or the ends of the range are numbers or the latest block. -/
structure Asks (f : LogFilter) : Prop where
  hash : f.block ≠ default → ∃ b ∈ chain.blocks, b.header.hash lib = f.block
  begin : f.block = default → f.begin = latestBlockNumber ∨ 0 ≤ f.begin ∧ f.begin < 2 ^ 63
  end_ : f.block = default → f.end_ = latestBlockNumber ∨ 0 ≤ f.end_ ∧ f.end_ < 2 ^ 63

end Selecting

section Matching

theorem topics_iff (topics : List (List Hash)) (found : List Hash) :
    (topics.length ≤ found.length ∧ ∀ e ∈ topics.zip found, e.1 = [] ∨ e.2 ∈ e.1) ↔
    ∀ (i : Nat) (sub : List Hash), topics[i]? = some sub →
      ∃ topic, found[i]? = some topic ∧ (sub = [] ∨ topic ∈ sub) := by
  induction topics generalizing found with
  | nil => simp
  | cons sub topics ih =>
    cases found with
    | nil =>
      refine iff_of_false (by simp) ?_
      intro h
      obtain ⟨topic, htopic, -⟩ := h 0 sub rfl
      cases htopic
    | cons topic found =>
      rw [List.length_cons, List.length_cons, Nat.add_le_add_iff_right, List.zip_cons_cons,
        List.forall_mem_cons, and_left_comm, ih]
      constructor
      · rintro ⟨hfirst, hrest⟩ (_ | i) sub' hsub
        · cases hsub
          exact ⟨topic, rfl, hfirst⟩
        · exact hrest i sub' hsub
      · intro h
        refine ⟨?_, fun i sub' hsub => h (i + 1) sub' hsub⟩
        obtain ⟨topic', htopic, hmatch⟩ := h 0 sub rfl
        cases htopic
        exact hmatch

open Classical in
theorem filterLogs_eq (f : LogFilter) (found : List Log) :
    filterLogs found f.addresses f.topics = found.filter fun log => Matches f log := by
  rw [filterLogs]
  apply List.filter_congr
  intro log _
  rw [Bool.eq_iff_iff, decide_eq_true_iff, Matches, ← topics_iff]
  simp [includes, List.isEmpty_iff]

variable (keys : BloomKeys)

theorem contain_newBloom (key : List UInt8) : newBloom.contain keys key = false := by
  obtain ⟨i, rest, hpositions⟩ := List.exists_cons_of_ne_nil (keys.nonempty key)
  rw [BloomBits.contain, hpositions]
  rfl

theorem bloomFilter_newBloom_iff (f : LogFilter) :
    bloomFilter keys newBloom f.addresses f.topics = true ↔ Unconstrained f := by
  simp [bloomFilter, contain_newBloom, Unconstrained, List.isEmpty_iff]

end Matching

section Blocks

variable {lib : Primitives} {chain : LogChain lib} {b : LoggedBlock}

theorem LogChain.find_hash (hb : b ∈ chain.blocks) : chain.find (b.header.hash lib) = some b := by
  cases hfound : chain.find (b.header.hash lib) with
  | none =>
    have hnone := List.find?_eq_none.mp hfound b hb
    exact absurd (decide_eq_true rfl) hnone
  | some b' =>
    have hsame : b'.header.hash lib = b.header.hash lib := by
      simpa using List.find?_some hfound
    have hmem := List.mem_of_find?_eq_some hfound
    rw [List.inj_on_of_nodup_map chain.hash_nodup hmem hb hsame]

open Classical in
theorem checkMatches_eq (f : LogFilter) (hb : b ∈ chain.blocks) :
    checkMatches chain f b.header = b.receipts.flatten.filter fun log => Matches f log := by
  rw [checkMatches, getLogs, getReceipts, chain.find_hash hb, Option.map_some, Option.getD_some,
    filterLogs_eq]
  cases hfound : b.receipts.flatten.filter fun log => Matches f log with
  | nil => rfl
  | cons first rest =>
    dsimp only
    split
    · rfl
    · rfl

open Classical in
theorem blockLogs_eq (keys : BloomKeys) (f : LogFilter) (hb : b ∈ chain.blocks) :
    blockLogs chain keys f b.header =
      if Unconstrained f then b.receipts.flatten.filter fun log => Matches f log else [] := by
  rw [blockLogs, checkMatches_eq f hb]
  simp only [bloomFilter_newBloom_iff]

theorem unindexedLogs_eq (keys : BloomKeys) (f : LogFilter) {end_ begin fuel : Nat}
    (hbegin : begin < 2 ^ 64)
    (hfuel : ((chain.blocks.take (end_ + 1)).drop begin).length < fuel) :
    unindexedLogs chain keys f end_ fuel begin =
      some (((chain.blocks.take (end_ + 1)).drop begin).flatMap fun b =>
        blockLogs chain keys f b.header) := by
  induction fuel generalizing begin with
  | zero => omega
  | succ fuel ih =>
    have hshort := chain.short
    have hnumber : ((begin : Int) % 2 ^ 64).toNat = begin := by omega
    rw [unindexedLogs, hnumber, getHeaderByNumber]
    cases hblock : chain.blocks[begin]? with
    | none =>
      have hlen := List.getElem?_eq_none_iff.mp hblock
      have hnil : (chain.blocks.take (end_ + 1)).drop begin = [] := by
        rw [List.drop_eq_nil_iff, List.length_take]
        omega
      rw [hnil]
      split
      · rfl
      · rfl
    | some b =>
      obtain ⟨hlen, hb⟩ := List.getElem?_eq_some_iff.mp hblock
      split
      · rename_i hle
        have hcons : (chain.blocks.take (end_ + 1)).drop begin =
            b :: (chain.blocks.take (end_ + 1)).drop (begin + 1) := by
          rw [List.drop_eq_getElem_cons (by rw [List.length_take]; omega), List.getElem_take, hb]
        rw [hcons, List.length_cons] at hfuel
        have hnext := ih (by omega : begin + 1 < 2 ^ 64) (by omega)
        rw [Nat.cast_add, Nat.cast_one] at hnext
        rw [Option.map_some, hcons, List.flatMap_cons]
        dsimp only
        rw [hnext, Option.map_some]
      · have hnil : (chain.blocks.take (end_ + 1)).drop begin = [] := by
          rw [List.drop_eq_nil_iff, List.length_take]
          omega
        rw [hnil]
        rfl

theorem currentNumber_eq : currentNumber chain = chain.blocks.length - 1 := by
  refine chain.numbered _ _ ?_
  rw [← List.getLast?_eq_getElem?]
  exact List.getLast?_eq_some_getLast chain.nonempty

variable {f : LogFilter}

theorem mem_of_mem_selected (h : b ∈ selected chain f) : b ∈ chain.blocks := by
  rw [selected] at h
  split at h
  · exact List.mem_of_mem_filter h
  · exact List.mem_of_mem_take (List.mem_of_mem_drop h)

open Classical in
theorem flatMap_blockLogs (keys : BloomKeys) (f : LogFilter) :
    (selected chain f).flatMap (fun b => blockLogs chain keys f b.header) =
      if Unconstrained f then expected chain f else [] := by
  split
  · rename_i hopen
    apply List.flatMap_congr
    intro b hb
    rw [blockLogs_eq keys f (mem_of_mem_selected hb), if_pos hopen]
  · rename_i hclosed
    rw [List.flatMap_eq_nil_iff]
    intro b hb
    rw [blockLogs_eq keys f (mem_of_mem_selected hb), if_neg hclosed]

open Classical in
theorem ite_eq_expected_iff (f : LogFilter) :
    (if Unconstrained f then expected chain f else []) = expected chain f ↔
      Unconstrained f ∨ expected chain f = [] := by
  split
  · rename_i hopen
    exact iff_of_true rfl (.inl hopen)
  · rename_i hclosed
    rw [or_iff_right hclosed, eq_comm]

theorem selected_of_hash (hf : f.block ≠ default) (hb : b ∈ chain.blocks)
    (hhash : b.header.hash lib = f.block) : selected chain f = [b] := by
  rw [selected, if_pos hf, ← hhash]
  have hnodup := chain.hash_nodup
  obtain ⟨before, after, hblocks⟩ := List.append_of_mem hb
  rw [hblocks, List.map_append, List.map_cons, List.nodup_middle, List.nodup_cons,
    ← List.map_append] at hnodup
  have hother : ∀ b' ∈ before ++ after, ¬ b'.header.hash lib = b.header.hash lib := by
    intro b' hb' hsame
    exact hnodup.1 (hsame ▸ List.mem_map_of_mem hb')
  have hrest : (before ++ after).filter (fun b' => b'.header.hash lib = b.header.hash lib) = [] := by
    rw [List.filter_eq_nil_iff]
    intro b' hb'
    simpa using hother b' hb'
  rw [List.filter_append, List.append_eq_nil_iff] at hrest
  rw [hblocks, List.filter_append, List.filter_cons, if_pos (decide_eq_true rfl), hrest.1,
    hrest.2, List.nil_append]

theorem logs_of_hash (keys : BloomKeys) (hf : f.block ≠ default) (hasks : Asks chain f) (fuel : Nat) :
    logs chain keys f fuel =
      some (.logs ((selected chain f).flatMap fun b => blockLogs chain keys f b.header)) := by
  obtain ⟨b, hb, hhash⟩ := hasks.hash hf
  rw [logs, if_pos hf, getHeaderByHash, ← hhash, chain.find_hash hb,
    selected_of_hash hf hb hhash, List.flatMap_singleton]
  rfl

section

variable {number : Int} (h : number = latestBlockNumber ∨ 0 ≤ number ∧ number < 2 ^ 63)
include h

theorem bound_eq :
    (if number = latestBlockNumber then (currentNumber chain : Int) else number) =
        bound chain number ∧ bound chain number < 2 ^ 64 := by
  rw [bound]
  have hshort := chain.short
  split
  · rw [currentNumber_eq]
    exact ⟨rfl, by omega⟩
  · rename_i hnumber
    obtain ⟨hpos, hlt⟩ := h.resolve_left hnumber
    exact ⟨(Int.toNat_of_nonneg hpos).symm, by omega⟩

theorem end_eq :
    (if number = latestBlockNumber ∨ number = pendingBlockNumber then currentNumber chain
      else (number % 2 ^ 64).toNat) = bound chain number := by
  have hpending : number ≠ pendingBlockNumber := by
    rcases h with rfl | ⟨hpos, -⟩
    · decide
    · rw [pendingBlockNumber]
      omega
  rw [bound]
  simp only [or_iff_left hpending]
  split
  · rfl
  · rename_i hnumber
    obtain ⟨hpos, hlt⟩ := h.resolve_left hnumber
    rw [Int.emod_eq_of_lt hpos (by omega)]

end

theorem logs_of_range (keys : BloomKeys) (hf : f.block = default) (hasks : Asks chain f)
    {fuel : Nat} (hfuel : (selected chain f).length < fuel) :
    logs chain keys f fuel = some (if bound chain f.begin < indexed then .untilCancelled
      else .logs ((selected chain f).flatMap fun b => blockLogs chain keys f b.header)) := by
  obtain ⟨hbegin, hlt⟩ := bound_eq (hasks.begin hf)
  have hpending : f.begin ≠ pendingBlockNumber := by
    rcases hasks.begin hf with h | ⟨hpos, -⟩
    · rw [h]
      decide
    · rw [pendingBlockNumber]
      omega
  have hblock : ¬ f.block ≠ default := not_not.mpr hf
  have hselected : selected chain f =
      (chain.blocks.take (bound chain f.end_ + 1)).drop (bound chain f.begin) := by
    rw [selected, if_neg hblock]
  rw [logs, if_neg hblock, if_neg hpending, rangeLogs]
  rw [hbegin, end_eq (hasks.end_ hf),
    Int.emod_eq_of_lt (Int.natCast_nonneg _) (by omega), Int.toNat_natCast]
  split
  · rfl
  · rw [hselected] at hfuel ⊢
    rw [unindexedLogs_eq keys f hlt hfuel, Option.map_some]

end Blocks

section Toys

def toyLog : Log where
  address := toyAddress 1
  topics := []
  data := []
  blockNumber := some 0
  txHash := FixedBytes.copy 32 [1]
  txIndex := 0
  blockHash := default
  index := 0
  removed := false

def toyBlock : LoggedBlock where
  header := toyHeader 0 1 (toyAddress 1)
  receipts := [[toyLog]]

theorem toyBlock_numbered (i : Nat) (b : LoggedBlock) (h : [toyBlock][i]? = some b) :
    b.header.number64.toNat = i := by
  cases i with
  | zero =>
    cases h
    rfl
  | succ i => cases h

def toyLogChain : LogChain toyPrimitives where
  blocks := [toyBlock]
  nonempty := List.cons_ne_nil _ _
  numbered := toyBlock_numbered
  hash_ne := by decide +kernel
  hash_nodup := List.nodup_singleton _
  short := by decide

def toyBloomKeys : BloomKeys where
  positions _ := [0]
  nonempty _ := List.cons_ne_nil _ _

def toyQuery (addresses : List Address) (block : Hash) : LogFilter where
  addresses := addresses
  topics := []
  block := block
  begin := 0
  end_ := latestBlockNumber

theorem toyQuery_asks (addresses : List Address) {block : Hash}
    (h : block = default ∨ block = toyBlock.header.hash toyPrimitives) :
    Asks toyLogChain (toyQuery addresses block) where
  hash hblock := ⟨toyBlock, List.mem_singleton_self _, (h.resolve_left hblock).symm⟩
  begin _ := .inr (by decide : (0 : Int) ≤ 0 ∧ (0 : Int) < 2 ^ 63)
  end_ _ := .inl rfl

end Toys

section Queries

variable {lib : Primitives} {chain : LogChain lib}

end Queries

end N42.LogFilters
