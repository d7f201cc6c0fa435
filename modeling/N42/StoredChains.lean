import N42.ChainReorg

/-!
Chains of stored blocks, listed from their head down to the first block, and what the
tables of the database say when they describe such a chain.
-/

namespace N42.StoredChains

open ChainTypes BlockHeader ChainDatabase LruCaches ChainReorg
open ChainReorg.BlockChain

variable {lib : Primitives}

/-- Every block has the number and the hash of its parent below it; the first block has
number zero and no parent. -/
def Chained (lib : Primitives) : List Block → Prop
  | [] => True
  | b :: rest =>
    b.header.number.toNat = rest.length ∧
    b.parentHash = (rest.head?.map (Block.hash lib)).getD default ∧
    b.hash lib ≠ default ∧
    Chained lib rest

instance decidableChained (lib : Primitives) : DecidablePred (Chained lib)
  | [] => isTrue trivial
  | b :: rest =>
    have := decidableChained lib rest
    inferInstanceAs (Decidable (b.header.number.toNat = rest.length ∧
      b.parentHash = (rest.head?.map (Block.hash lib)).getD default ∧
      b.hash lib ≠ default ∧ Chained lib rest))

def Stored (lib : Primitives) (db : Database) (blocks : List Block) : Prop :=
  ∀ b ∈ blocks, db.readBlock (b.hash lib) b.number64 = some b

variable {b : Block}

theorem Stored.tail {db : Database} {below : List Block} (h : Stored lib db (b :: below)) :
    Stored lib db below :=
  fun c hc => h c (List.mem_cons_of_mem b hc)

def storeAll (lib : Primitives) (blocks : List Block) (db : Database) : Database :=
  blocks.foldr (Database.writeBlock lib) db

theorem readBlock_storeAll {blocks : List Block} {db : Database} {hash : Hash} {number : UInt64}
    (h : (storeAll lib blocks db).readBlock hash number = some b) :
    (b ∈ blocks ∧ b.hash lib = hash) ∨ db.readBlock hash number = some b := by
  induction blocks with
  | nil => exact Or.inr h
  | cons c blocks ih =>
    by_cases hkey : (number, hash) = (c.number64, c.hash lib)
    · have hread : (storeAll lib (c :: blocks) db).readBlock hash number = some c := by
        simp [storeAll, Database.writeBlock, Database.readBlock, hkey]
      obtain rfl : c = b := Option.some.inj (hread.symm.trans h)
      exact Or.inl ⟨List.mem_cons_self, (Prod.mk.inj hkey).2.symm⟩
    · have hread : (storeAll lib (c :: blocks) db).readBlock hash number =
          (storeAll lib blocks db).readBlock hash number := by
        simp [storeAll, Database.writeBlock, Database.readBlock, Function.update_of_ne hkey]
      rw [hread] at h
      exact (ih h).imp_left fun hb => ⟨List.mem_cons_of_mem _ hb.1, hb.2⟩

/-- The canonical hashes and the transaction index describe exactly this chain. -/
structure Describes (lib : Primitives) (db : Database) (chain : List Block) : Prop where
  canonical : ∀ b ∈ chain, db.readCanonicalHash b.number64 = b.hash lib
  above : ∀ number : UInt64, chain.length ≤ number.toNat → db.readCanonicalHash number = default
  indexed : ∀ b ∈ chain, ∀ hash ∈ b.txHashes lib, db.readTxLookupEntry hash ≠ none
  index : ∀ hash number, db.readTxLookupEntry hash = some number →
    ∃ b ∈ chain, b.number64 = number ∧ hash ∈ b.txHashes lib

theorem Chained.of_append {above below : List Block} (h : Chained lib (above ++ below)) :
    Chained lib below := by
  induction above with
  | nil => exact h
  | cons b above ih => exact ih h.2.2.2

theorem Chained.tail_append {branch shared : List Block} (h : Chained lib (branch ++ shared)) :
    Chained lib (branch.tail ++ shared) := by
  cases branch with
  | nil => exact h
  | cons b branch => exact h.2.2.2

variable {rest : List Block}

theorem Chained.number64_eq (h : Chained lib (b :: rest)) :
    b.number64 = UInt64.ofNat rest.length := by
  rw [Block.number64, Header.number64, h.1]

theorem Chained.number_ne_zero {branch shared : List Block}
    (h : Chained lib (b :: branch ++ shared)) (hshared : shared ≠ []) :
    b.header.number.toNat ≠ 0 := by
  rw [h.1]
  simp [hshared]

theorem Chained.parent_number64 {b p : Block} (h : Chained lib (b :: p :: rest)) :
    b.number64 - 1 = p.number64 := by
  rw [h.number64_eq, h.2.2.2.number64_eq, List.length_cons]
  apply UInt64.toBitVec_inj.mp
  simp

theorem Chained.number64_toNat (h : Chained lib (b :: rest)) (hlen : rest.length < 2 ^ 64) :
    b.number64.toNat = rest.length := by
  rw [h.number64_eq]
  exact UInt64.toNat_ofNat_of_lt' hlen

variable {chain : List Block}

section

variable (h : Chained lib chain)
include h

theorem Chained.head_number64_toNat (hlen : chain.length ≤ 2 ^ 64) (hb : chain.head? = some b) :
    b.number64.toNat + 1 = chain.length := by
  obtain ⟨rest, rfl⟩ : ∃ rest, chain = b :: rest := ⟨chain.tail, List.eq_cons_of_mem_head? hb⟩
  rw [h.number64_toNat (by simpa using hlen), List.length_cons]

theorem Chained.number64_lt (hlen : chain.length ≤ 2 ^ 64) (hb : b ∈ chain) :
    b.number64.toNat < chain.length := by
  induction chain with
  | nil => cases hb
  | cons c rest ih =>
    rcases List.mem_cons.mp hb with rfl | hb
    · rw [h.number64_toNat (by simpa using hlen)]
      simp
    · have := ih h.2.2.2 (by simp at hlen; omega) hb
      simp only [List.length_cons]
      omega

theorem Chained.hash_ne (hb : b ∈ chain) : b.hash lib ≠ default := by
  induction chain with
  | nil => cases hb
  | cons c rest ih =>
    rcases List.mem_cons.mp hb with rfl | hb
    · exact h.2.2.1
    · exact ih h.2.2.2 hb

theorem Chained.exists_number64 {n : Nat} (hn : n < chain.length) :
    ∃ b ∈ chain, b.number64 = UInt64.ofNat n := by
  induction chain with
  | nil => cases hn
  | cons c rest ih =>
    by_cases heq : n = rest.length
    · exact ⟨c, List.mem_cons_self, by rw [h.number64_eq, heq]⟩
    · simp only [List.length_cons] at hn
      obtain ⟨b, hb, hnumber⟩ := ih h.2.2.2 (by omega)
      exact ⟨b, List.mem_cons_of_mem _ hb, hnumber⟩

end

theorem hash_ne_of_getLast {db : Database} {olds news shared : List Block} {o n : Block}
    (hlen : olds.length = news.length)
    (hold : Chained lib (o :: olds ++ shared)) (hnew : Chained lib (n :: news ++ shared))
    (hstored : Stored lib db (o :: olds)) (hstored' : Stored lib db (n :: news))
    (hne : ((o :: olds).getLast (by simp)).hash lib ≠ ((n :: news).getLast (by simp)).hash lib) :
    o.hash lib ≠ n.hash lib := by
  induction olds generalizing o n news with
  | nil =>
    obtain rfl : news = [] := List.length_eq_zero_iff.mp hlen.symm
    simpa using hne
  | cons p olds ih =>
    cases news with
    | nil => cases hlen
    | cons q news =>
      have hparents : p.hash lib ≠ q.hash lib :=
        ih (by simpa using hlen) hold.2.2.2 hnew.2.2.2 hstored.tail hstored'.tail
          (by simpa using hne)
      intro hhash
      have hnumber : o.number64 = n.number64 := by
        rw [Chained.number64_eq hold, Chained.number64_eq hnew]
        exact congrArg UInt64.ofNat (by simpa using hlen)
      have hblock : o = n := by
        have ho := hstored o List.mem_cons_self
        rw [hhash, hnumber, hstored' n List.mem_cons_self] at ho
        exact (Option.some.inj ho).symm
      have holdParent : o.parentHash = p.hash lib := hold.2.1
      have hnewParent : n.parentHash = q.hash lib := hnew.2.1
      exact hparents (by rw [← holdParent, ← hnewParent, hblock])

/-- A hash stands for one block, the cache holds what is on disk, and a block in memory
at the address of `oldBlock` is that block. -/
structure Sound (oldBlock : BlockRef) (bc : BlockChain) : Prop where
  unique : ∀ hash m n a b, bc.chainDB.readBlock hash m = some a →
    bc.chainDB.readBlock hash n = some b → a = b
  coherent : ∀ hash ref, (hash, ref) ∈ bc.blockCache → ∀ number b,
    bc.chainDB.readBlock hash number = some b → ref.block = b
  allocated : oldBlock.numberPointer < bc.nextPointer
  identity : ∀ hash ref, (hash, ref) ∈ bc.blockCache →
    ref.numberPointer = oldBlock.numberPointer → ref.block = oldBlock.block

theorem getBlock_of_stored {bc : BlockChain} {oldBlock : BlockRef} {p : Block}
    (hsound : Sound oldBlock bc) (hne : p.hash lib ≠ default)
    (hstored : bc.chainDB.readBlock (p.hash lib) p.number64 = some p) :
    ∃ ref bc', bc.getBlock (p.hash lib) p.number64 = (some ref, bc') ∧ ref.block = p ∧
      (ref.numberPointer = oldBlock.numberPointer → ref.block = oldBlock.block) ∧
      bc'.chainDB = bc.chainDB ∧ Sound oldBlock bc' := by
  rw [getBlock, if_neg hne]
  rcases hget : bc.blockCache.get (p.hash lib) with ⟨_ | ref, cache⟩
  · rw [readBlock, hstored]
    refine ⟨_, _, rfl, rfl, fun h => ?_, rfl, hsound.unique, ?_, ?_, ?_⟩
    · exact absurd h hsound.allocated.ne'
    · intro hash ref hmem number b hread
      rcases LruCache.mem_of_mem_add hmem with heq | hmem
      · obtain ⟨rfl, rfl⟩ := Prod.mk.inj heq
        exact hsound.unique _ _ _ _ _ hstored hread
      · exact hsound.coherent hash ref hmem number b hread
    · exact Nat.lt_succ_of_lt hsound.allocated
    · intro hash ref hmem hpointer
      rcases LruCache.mem_of_mem_add hmem with heq | hmem
      · obtain ⟨rfl, rfl⟩ := Prod.mk.inj heq
        exact absurd hpointer hsound.allocated.ne'
      · exact hsound.identity hash ref hmem hpointer
  · have hmem : (p.hash lib, ref) ∈ bc.blockCache := LruCache.mem_of_get_eq_some (by rw [hget])
    have hcache : ∀ entry ∈ cache, entry ∈ bc.blockCache := fun entry hentry =>
      LruCache.mem_of_mem_get (by rw [hget]; exact hentry)
    refine ⟨ref, _, rfl, hsound.coherent _ _ hmem _ _ hstored, hsound.identity _ _ hmem, rfl,
      hsound.unique, ?_, hsound.allocated, ?_⟩
    · exact fun hash ref h => hsound.coherent hash ref (hcache _ h)
    · exact fun hash ref h => hsound.identity hash ref (hcache _ h)

variable {bc : BlockChain} {oldBlock ref : BlockRef} {b : Block} {below : List Block}

theorem getParent_of_chained (hsound : Sound oldBlock bc) (hchain : Chained lib (b :: below))
    (hne : below ≠ []) (hstored : Stored lib bc.chainDB below) (href : ref.block = b) :
    ∃ parent bc', bc.getParent ref = (some parent, bc') ∧ below.head? = some parent.block ∧
      (parent.numberPointer = oldBlock.numberPointer → parent.block = oldBlock.block) ∧
      bc'.chainDB = bc.chainDB ∧ Sound oldBlock bc' := by
  obtain ⟨p, rest, rfl⟩ := List.exists_cons_of_ne_nil hne
  have hparent : b.parentHash = p.hash lib := hchain.2.1
  rw [getParent, href, hparent, hchain.parent_number64]
  obtain ⟨parent, bc', hget, hblock, hrest⟩ :=
    getBlock_of_stored hsound hchain.2.2.2.2.2.1 (hstored p List.mem_cons_self)
  exact ⟨parent, bc', hget, congrArg some hblock.symm, hrest⟩

theorem getParent_of_first (hchain : Chained lib [b]) (href : ref.block = b) :
    bc.getParent ref = (none, bc) := by
  have hparent : b.parentHash = default := hchain.2.1
  rw [getParent, href, hparent, getBlock, if_pos rfl]

theorem readParent_of_chained {tx : Database} (hchain : Chained lib (b :: below))
    (hne : below ≠ []) (hstored : Stored lib tx below) (href : ref.block = b) :
    ∃ parent bc', bc.readParent tx ref = (some parent, bc') ∧
      below.head? = some parent.block ∧ bc'.chainDB = bc.chainDB := by
  obtain ⟨p, rest, rfl⟩ := List.exists_cons_of_ne_nil hne
  have hparent : b.parentHash = p.hash lib := hchain.2.1
  rw [readParent, href, hparent, hchain.parent_number64, readBlock, hstored p List.mem_cons_self]
  exact ⟨_, _, rfl, rfl, rfl⟩

end N42.StoredChains
