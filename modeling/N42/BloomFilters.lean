import Mathlib.Data.List.Forall2
import N42.ReceiptCodec

/-!
The bloom filter of the logs of a block.  Every address and every topic sets three bits, which
are taken from its hash; the hash is read into one buffer that is used again and again.
-/

namespace N42.BloomFilters

open ByteStrings ChainTypes ReceiptCodec

/-- The byte of the filter and the bit in it that two bytes of a hash stand for. -/
def place (hi lo : UInt8) : Nat × UInt8 :=
  (256 - (((hi.toNat <<< 8 ||| lo.toNat) &&& 0x7ff) >>> 3) - 1, 1 <<< (lo &&& 7))

/-- The places of some data, with the buffer that its hash has been read into. -/
def bloomValues (lib : Primitives) (data hashbuf : List UInt8) :
    List (Nat × UInt8) × List UInt8 :=
  let hashbuf := (lib.keccak256 data).bytes.take hashbuf.length
  ([0, 2, 4].map fun k => place (hashbuf.getD k 0) (hashbuf.getD (k + 1) 0), hashbuf)

def setBits (b : Bloom) (p : Nat × UInt8) : Bloom :=
  ⟨b.bytes.modify p.1 (· ||| p.2), by rw [List.length_modify, b.length_eq]⟩

section

variable (lib : Primitives)

/-- `add`, with the buffer that it is handed. -/
def add (b : Bloom × List UInt8) (d : List UInt8) : Bloom × List UInt8 :=
  let (values, buf) := bloomValues lib d b.2
  (values.foldl setBits b.1, buf)

def test (b : Bloom) (topic : List UInt8) : Bool :=
  (bloomValues lib topic (List.replicate 6 0)).1.all fun p => p.2 == p.2 &&& b.bytes.getD p.1 0

def createBloom (receipts : List Receipt) : Bloom :=
  (receipts.foldl (fun b receipt => receipt.logs.foldl (fun b log =>
    log.topics.foldl (fun b topic => add lib b topic.bytes) (add lib b log.address.bytes)) b)
      (FixedBytes.zero 256, List.replicate 6 0)).1

end

/-- The bits of either filter. -/
def union (a b : Bloom) : Bloom :=
  ⟨List.zipWith (· ||| ·) a.bytes b.bytes, by simp [a.length_eq, b.length_eq]⟩

/-- The lists agree after one of them has been put into another order. -/
def Shuffled {α : Type} (R : α → α → Prop) (xs ys : List α) : Prop :=
  ∃ mid, xs.Perm mid ∧ List.Forall₂ R mid ys

def SameLog (l l' : Log) : Prop :=
  l.address = l'.address ∧ l.topics.Perm l'.topics

/-- The receipts, their logs and the topics of these may be in another order. -/
def Reordered : List Receipt → List Receipt → Prop :=
  Shuffled fun r r' => Shuffled SameLog r.logs r'.logs

def logEntries (log : Log) : List (List UInt8) :=
  log.address.bytes :: log.topics.map FixedBytes.bytes

/-- All that is put into the filter. -/
def entries (receipts : List Receipt) : List (List UInt8) :=
  receipts.flatMap fun receipt => receipt.logs.flatMap logEntries

variable {lib : Primitives} {a b c : Bloom} {p : Nat × UInt8} {d buf : List UInt8}

theorem place_lt (hi lo : UInt8) : (place hi lo).1 < 256 := by
  simp only [place]
  omega

theorem ext_getElem (h : ∀ i (ha : i < a.bytes.length) (hb : i < b.bytes.length),
    a.bytes[i] = b.bytes[i]) : a = b :=
  FixedBytes.ext (List.ext_getElem (a.length_eq.trans b.length_eq.symm) h)

theorem union_assoc (a b c : Bloom) : union (union a b) c = union a (union b c) := by
  apply ext_getElem
  intro i h h'
  simp [union, UInt8.or_assoc]

theorem union_comm (a b : Bloom) : union a b = union b a :=
  FixedBytes.ext (List.zipWith_comm_of_comm fun x y => UInt8.or_comm x y)

theorem union_zero (b : Bloom) : union b (FixedBytes.zero 256) = b := by
  apply ext_getElem
  intro i h h'
  simp only [union, FixedBytes.zero, List.getElem_zipWith, List.getElem_replicate, UInt8.or_zero]

instance : Std.Associative union := ⟨union_assoc⟩

instance : Std.Commutative union := ⟨union_comm⟩

theorem setBits_eq (b : Bloom) (p : Nat × UInt8) :
    setBits b p = union b (setBits (FixedBytes.zero 256) p) := by
  apply ext_getElem
  intro i h h'
  simp only [union, setBits, FixedBytes.zero, List.getElem_zipWith, List.getElem_modify,
    List.getElem_replicate]
  split
  · rw [UInt8.zero_or]
  · rw [UInt8.or_zero]

theorem foldl_union (cs : List Bloom) (b : Bloom) :
    cs.foldl union b = union b (cs.foldl union (FixedBytes.zero 256)) := by
  have hassoc : cs.foldl union (union b (FixedBytes.zero 256)) =
      union b (cs.foldl union (FixedBytes.zero 256)) := List.foldl_assoc
  rwa [union_zero] at hassoc

/-- The filter of one entry. -/
def single (lib : Primitives) (d : List UInt8) : Bloom :=
  ((bloomValues lib d (List.replicate 6 0)).1.map (setBits (FixedBytes.zero 256))).foldl union
    (FixedBytes.zero 256)

theorem foldl_setBits (values : List (Nat × UInt8)) (b : Bloom) :
    values.foldl setBits b = (values.map (setBits (FixedBytes.zero 256))).foldl union b := by
  rw [List.foldl_map]
  exact congrArg (fun f => values.foldl f b) (funext fun b => funext (setBits_eq b))

theorem add_eq (lib : Primitives) (h : buf.length = 6) (b : Bloom) (d : List UInt8) :
    (add lib (b, buf) d).1 = union b (single lib d) ∧ (add lib (b, buf) d).2.length = 6 := by
  have hvalues : bloomValues lib d buf = bloomValues lib d (List.replicate 6 0) := by
    rw [bloomValues, bloomValues, h]
    rfl
  simp only [add, hvalues]
  refine ⟨?_, ?_⟩
  · rw [foldl_setBits, foldl_union]
    rfl
  · simp [bloomValues, FixedBytes.length_eq]

theorem foldl_add (lib : Primitives) (h : buf.length = 6) (ds : List (List UInt8)) :
    (ds.foldl (add lib) (b, buf)).1 = (ds.map (single lib)).foldl union b := by
  induction ds generalizing b buf with
  | nil => rfl
  | cons d ds ih =>
    obtain ⟨hadd, hbuf⟩ := add_eq lib h b d
    rw [List.foldl_cons, List.map_cons, List.foldl_cons, ← hadd]
    exact ih hbuf

theorem createBloom_eq (lib : Primitives) (receipts : List Receipt) :
    createBloom lib receipts =
      ((entries receipts).map (single lib)).foldl union (FixedBytes.zero 256) := by
  rw [← foldl_add lib (List.length_replicate (n := 6) (a := 0)), entries]
  simp only [List.foldl_flatMap, logEntries, List.foldl_cons, List.foldl_map]
  rfl

/-- All bits of the place are set. -/
def Has (b : Bloom) (p : Nat × UInt8) : Prop :=
  p.2 = p.2 &&& b.bytes.getD p.1 0

theorem and_or_of_and {x y : UInt8} (h : x = x &&& y) (z : UInt8) : x = x &&& (y ||| z) := by
  apply UInt8.toBitVec_inj.mp
  have hbits := congrArg UInt8.toBitVec h
  rw [UInt8.toBitVec_and] at hbits
  rw [UInt8.toBitVec_and, UInt8.toBitVec_or, BitVec.and_or_distrib_left, ← hbits]
  ext i
  simp +contextual

theorem Has.union (h : Has a p) (hp : p.1 < 256) (b : Bloom) : Has (union a b) p := by
  have ha : p.1 < a.bytes.length := a.length_eq.symm ▸ hp
  have hb : p.1 < b.bytes.length := b.length_eq.symm ▸ hp
  have hbyte : (BloomFilters.union a b).bytes.getD p.1 0 =
      a.bytes.getD p.1 0 ||| b.bytes.getD p.1 0 := by
    simp [BloomFilters.union, ha, hb]
  rw [Has, hbyte]
  exact and_or_of_and h _

theorem has_setBits (hp : p.1 < 256) : Has (setBits b p) p := by
  have hlt : p.1 < b.bytes.length := b.length_eq.symm ▸ hp
  have hbyte : (setBits b p).bytes.getD p.1 0 = p.2 ||| b.bytes.getD p.1 0 := by
    simp [setBits, hlt, UInt8.or_comm]
  rw [Has, hbyte]
  exact and_or_of_and UInt8.and_self.symm _

theorem Has.foldl_union (h : Has c p) (hp : p.1 < 256) {cs : List Bloom} (hc : c ∈ cs) :
    Has (cs.foldl BloomFilters.union b) p := by
  obtain ⟨before, after, rfl⟩ := List.append_of_mem hc
  rw [List.foldl_append, List.foldl_cons, BloomFilters.foldl_union, union_comm _ c]
  exact (h.union hp _).union hp _

theorem has_single (h : p ∈ (bloomValues lib d (List.replicate 6 0)).1) :
    Has (single lib d) p ∧ p.1 < 256 := by
  have hp : p.1 < 256 := by
    obtain ⟨k, -, rfl⟩ := List.mem_map.mp h
    exact place_lt _ _
  exact ⟨(has_setBits hp).foldl_union hp (List.mem_map_of_mem h), hp⟩

theorem test_createBloom {receipts : List Receipt} (h : d ∈ entries receipts) :
    test lib (createBloom lib receipts) d = true := by
  apply List.all_eq_true.mpr
  intro p hp
  obtain ⟨hhas, hlt⟩ := has_single hp
  rw [createBloom_eq]
  exact beq_iff_eq.mpr (hhas.foldl_union hlt (List.mem_map_of_mem h))

theorem entries_cons (receipt : Receipt) (receipts : List Receipt) :
    entries (receipt :: receipts) = entries [receipt] ++ entries receipts := by
  simp [entries]

theorem createBloom_eq_foldl (lib : Primitives) (receipts : List Receipt) :
    createBloom lib receipts = (receipts.map fun receipt => createBloom lib [receipt]).foldl union
        (FixedBytes.zero 256) := by
  induction receipts with
  | nil => rfl
  | cons receipt receipts ih =>
    rw [createBloom_eq, entries_cons, List.map_append, List.foldl_append, foldl_union,
      ← createBloom_eq, ← createBloom_eq, ih, List.map_cons, List.foldl_cons,
      foldl_union _ (union _ _), union_comm (FixedBytes.zero 256), union_zero]

theorem Shuffled.flatMap {α β : Type} {R : α → α → Prop} {f : α → List β} {xs ys : List α}
    (h : Shuffled R xs ys) (hf : ∀ x y, R x y → (f x).Perm (f y)) :
    (xs.flatMap f).Perm (ys.flatMap f) := by
  obtain ⟨mid, hperm, hforall⟩ := h
  refine (hperm.flatMap_right f).trans ?_
  clear hperm
  induction hforall with
  | nil => exact .nil
  | cons hxy _ ih =>
    rw [List.flatMap_cons, List.flatMap_cons]
    exact (hf _ _ hxy).append ih

theorem Reordered.entries {receipts receipts' : List Receipt} (h : Reordered receipts receipts') :
    (entries receipts).Perm (entries receipts') := by
  apply Shuffled.flatMap h
  intro r r' hlogs
  apply hlogs.flatMap
  rintro l l' ⟨haddress, htopics⟩
  rw [logEntries, logEntries, haddress]
  exact (htopics.map _).cons _

/-- Whatever is in the receipts is found in their filter, which is the union of the filters of
the single receipts, in whatever order they, their logs and the topics are. -/
theorem createBloom_complete (lib : Primitives) (receipts : List Receipt) :
    (∀ receipt ∈ receipts, ∀ log ∈ receipt.logs,
        test lib (createBloom lib receipts) log.address.bytes = true ∧
          ∀ topic ∈ log.topics, test lib (createBloom lib receipts) topic.bytes = true) ∧
      createBloom lib receipts = (receipts.map fun receipt => createBloom lib [receipt]).foldl union
          (FixedBytes.zero 256) ∧ ∀ receipts', Reordered receipts receipts' →
        createBloom lib receipts' = createBloom lib receipts := by
  refine ⟨?_, createBloom_eq_foldl lib receipts, ?_⟩
  · intro receipt hreceipt log hlog
    have hentries : ∀ d ∈ logEntries log, d ∈ entries receipts := fun d hd =>
      List.mem_flatMap.mpr ⟨receipt, hreceipt, List.mem_flatMap.mpr ⟨log, hlog, hd⟩⟩
    refine ⟨test_createBloom (hentries _ List.mem_cons_self), fun topic htopic => ?_⟩
    exact test_createBloom (hentries _ (List.mem_cons_of_mem _ (List.mem_map_of_mem htopic)))
  · intro receipts' h
    rw [createBloom_eq, createBloom_eq]
    exact ((h.entries.map _).foldl_op_eq).symm

end N42.BloomFilters
