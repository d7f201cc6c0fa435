import N42.StoredChains

/-!
What a reorganisation writes: the canonical hashes and the transaction index after the
new branch is written, the dropped transactions are deleted and the stale hashes above
the branch are removed.
-/

namespace N42.ReorgTables

open ChainTypes ChainDatabase StatefulActions.Action ChainReorg StoredChains

variable {lib : Primitives} {db tx : Database}

@[simp] theorem readCanonicalHash_writeHead (b : Block) (number : UInt64) :
    (writeHead lib b db).readCanonicalHash number =
      if number = b.number64 then b.hash lib else db.readCanonicalHash number := by
  rw [writeHead, readCanonicalHash_writeCanonicalHash]
  rfl

theorem readTxLookupEntry_writeHead (b : Block) (hpos : b.header.number.toNat ≠ 0)
    (hash : Hash) :
    (writeHead lib b db).readTxLookupEntry hash =
      if hash ∈ b.txHashes lib then some b.number64 else db.readTxLookupEntry hash :=
  readTxLookupEntry_writeTxLookupEntries lib (db.writeHeadBlockHash (b.hash lib)) b hpos hash

def writeHeads (lib : Primitives) (branch : List Block) (db : Database) : Database :=
  branch.foldr (writeHead lib) db

theorem readBlock_writeHeads (branch : List Block) (hash : Hash) (number : UInt64) :
    (writeHeads lib branch db).readBlock hash number = db.readBlock hash number := by
  induction branch with
  | nil => rfl
  | cons b branch ih => exact ih

theorem insertBranch_eq (refs : List BlockRef) (bc : BlockChain) :
    ∃ bc', insertBranch lib tx refs bc =
        (.ok (writeHeads lib (refs.map BlockRef.block).reverse tx), bc') ∧
      bc'.chainDB = bc.chainDB := by
  induction refs generalizing tx bc with
  | nil => exact ⟨bc, rfl, rfl⟩
  | cons ref refs ih =>
    obtain ⟨bc', hrest, hdb⟩ := @ih (writeHead lib ref.block tx) { bc with currentBlock := ref }
    refine ⟨bc', ?_, hdb⟩
    rw [insertBranch, List.foldlM_cons]
    refine bind_eq_ok_iff.mpr ⟨_, _, rfl, ?_⟩
    simpa [writeHeads, insertBranch] using hrest

variable {branch shared : List Block}

section

variable (hchain : Chained lib (branch ++ shared)) (hlen : (branch ++ shared).length ≤ 2 ^ 64)
include hchain hlen

theorem canonical_writeHeads (hshared : ∀ b ∈ shared, db.readCanonicalHash b.number64 = b.hash lib) :
    ∀ b ∈ branch ++ shared,
      (writeHeads lib branch db).readCanonicalHash b.number64 = b.hash lib := by
  induction branch with
  | nil => exact hshared
  | cons c branch ih =>
    have hrest : (branch ++ shared).length ≤ 2 ^ 64 := by
      simp at hlen ⊢
      omega
    intro b hb
    rw [writeHeads, List.foldr_cons, readCanonicalHash_writeHead]
    rcases List.mem_cons.mp hb with rfl | hb
    · exact if_pos rfl
    · have hlt := hchain.2.2.2.number64_lt hrest hb
      have hc := hchain.number64_toNat (by simpa using hlen)
      rw [if_neg (fun heq => by rw [heq, hc] at hlt; exact lt_irrefl _ hlt)]
      exact ih hchain.2.2.2 hrest b hb

theorem canonical_above_writeHeads {number : UInt64}
    (hnumber : (branch ++ shared).length ≤ number.toNat) :
    (writeHeads lib branch db).readCanonicalHash number = db.readCanonicalHash number := by
  induction branch with
  | nil => rfl
  | cons c branch ih =>
    have hc := hchain.number64_lt hlen List.mem_cons_self
    rw [writeHeads, List.foldr_cons, readCanonicalHash_writeHead,
      if_neg (fun heq => by rw [heq] at hnumber; omega)]
    exact ih hchain.2.2.2 (by simp at hlen ⊢; omega) (by simp at hnumber ⊢; omega)

end

theorem index_writeHeads (db : Database) (hshared : shared ≠ [])
    (hchain : Chained lib (branch ++ shared)) {hash : Hash}
    (hmem : hash ∈ branch.flatMap (Block.txHashes lib)) :
    ∃ b ∈ branch, (writeHeads lib branch db).readTxLookupEntry hash = some b.number64 ∧
      hash ∈ b.txHashes lib := by
  induction branch with
  | nil => simp at hmem
  | cons c branch ih =>
    rw [writeHeads, List.foldr_cons, readTxLookupEntry_writeHead c (hchain.number_ne_zero hshared)]
    by_cases hc : hash ∈ c.txHashes lib
    · exact ⟨c, List.mem_cons_self, if_pos hc, hc⟩
    · rw [if_neg hc]
      rw [List.flatMap_cons, List.mem_append] at hmem
      obtain ⟨b, hb, hread⟩ := ih hchain.2.2.2 (hmem.resolve_left hc)
      exact ⟨b, List.mem_cons_of_mem _ hb, hread⟩

theorem index_writeHeads_of_not_mem (hshared : shared ≠ [])
    (hchain : Chained lib (branch ++ shared)) {hash : Hash}
    (hmem : hash ∉ branch.flatMap (Block.txHashes lib)) :
    (writeHeads lib branch db).readTxLookupEntry hash = db.readTxLookupEntry hash := by
  induction branch with
  | nil => rfl
  | cons c branch ih =>
    rw [List.flatMap_cons, List.mem_append, not_or] at hmem
    rw [writeHeads, List.foldr_cons,
      readTxLookupEntry_writeHead c (hchain.number_ne_zero hshared), if_neg hmem.1]
    exact ih hchain.2.2.2 hmem.2

theorem describes_writeHeads (hshared : shared ≠ []) (hchain : Chained lib (branch ++ shared))
    (hlen : (branch ++ shared).length ≤ 2 ^ 64) (hdescribed : Describes lib db shared) :
    Describes lib (writeHeads lib branch db) (branch ++ shared) := by
  refine ⟨canonical_writeHeads hchain hlen hdescribed.canonical, ?_, ?_, ?_⟩
  · intro number hnumber
    rw [canonical_above_writeHeads hchain hlen hnumber]
    refine hdescribed.above number (le_trans ?_ hnumber)
    simp
  · intro b hb hash hhash
    by_cases hmem : hash ∈ branch.flatMap (Block.txHashes lib)
    · obtain ⟨c, -, hread, -⟩ := index_writeHeads db hshared hchain hmem
      rw [hread]
      exact nofun
    · have hbShared : b ∈ shared := (List.mem_append.mp hb).resolve_left fun hb =>
        hmem (List.mem_flatMap.mpr ⟨b, hb, hhash⟩)
      rw [index_writeHeads_of_not_mem hshared hchain hmem]
      exact hdescribed.indexed b hbShared hash hhash
  · intro hash number hread
    by_cases hmem : hash ∈ branch.flatMap (Block.txHashes lib)
    · obtain ⟨c, hc, hread', hhash⟩ := index_writeHeads db hshared hchain hmem
      rw [hread'] at hread
      exact ⟨c, List.mem_append_left _ hc, Option.some.inj hread, hhash⟩
    · rw [index_writeHeads_of_not_mem hshared hchain hmem] at hread
      obtain ⟨c, hc, hcNumber⟩ := hdescribed.index hash number hread
      exact ⟨c, List.mem_append_right _ hc, hcNumber⟩

def deleteLookups (hashes : List Hash) (db : Database) : Database :=
  hashes.foldl (fun tx hash => tx.deleteTxLookupEntry hash) db

theorem readTxLookupEntry_deleteLookups (hashes : List Hash) (hash : Hash) :
    (deleteLookups hashes db).readTxLookupEntry hash =
      if hash ∈ hashes then none else db.readTxLookupEntry hash := by
  induction hashes generalizing db with
  | nil => rfl
  | cons h hashes ih =>
    rw [deleteLookups, List.foldl_cons]
    refine ih.trans ?_
    rw [readTxLookupEntry_deleteTxLookupEntry]
    by_cases hmem : hash ∈ hashes
    · simp [hmem]
    · by_cases heq : hash = h
      · simp [heq]
      · simp [hmem, heq]

theorem readCanonicalHash_deleteLookups (hashes : List Hash) (number : UInt64) :
    (deleteLookups hashes db).readCanonicalHash number = db.readCanonicalHash number := by
  induction hashes generalizing db with
  | nil => rfl
  | cons h hashes ih => exact ih

def trim (number : UInt64) (db : Database) : Database :=
  if db.readCanonicalHash number = default then db else db.truncateCanonicalHash number

theorem loop_truncateMarkers {number : UInt64} (bc : BlockChain)
    (hnext : db.readCanonicalHash number ≠ default → number.toNat + 1 < 2 ^ 64) :
    loop .outOfFuel truncateMarkers 2 (number, db) bc = (.ok (trim number db), bc) := by
  by_cases hread : db.readCanonicalHash number = default
  · rw [trim, if_pos hread]
    exact loop_of_done _ (by rw [truncateMarkers, if_pos hread]; rfl)
  · have hle : number ≤ number + 1 := by
      rw [UInt64.le_iff_toNat_le, UInt64.toNat_add]
      have := hnext hread
      simp only [UInt64.reduceToNat]
      omega
    have htruncated :
        (db.truncateCanonicalHash number).readCanonicalHash (number + 1) = default := by
      rw [readCanonicalHash_truncateCanonicalHash, if_pos hle]
    have hstep : truncateMarkers (number, db) bc =
        (.ok (.inl (number + 1, db.truncateCanonicalHash number)), bc) := by
      rw [truncateMarkers, if_neg hread]
      rfl
    rw [trim, if_neg hread, loop_of_next _ hstep]
    exact loop_of_done _ (by rw [truncateMarkers, if_pos htruncated]; rfl)

theorem readTxLookupEntry_trim (number : UInt64) (hash : Hash) :
    (trim number db).readTxLookupEntry hash = db.readTxLookupEntry hash := by
  rw [trim]
  split
  · rfl
  · rfl

theorem readCanonicalHash_trim_of_lt {number trimmed : UInt64} (h : number < trimmed) :
    (trim trimmed db).readCanonicalHash number = db.readCanonicalHash number := by
  rw [trim]
  split
  · rfl
  · rw [readCanonicalHash_truncateCanonicalHash, if_neg (UInt64.not_le.mpr h)]

section Result

variable {shared oldBranch branch : List Block} {deleted : List Hash}

def reorganised (lib : Primitives) (deleted : List Hash) (branch shared : List Block)
    (db : Database) : Database :=
  trim (UInt64.ofNat (branch ++ shared).length) (deleteLookups deleted (writeHeads lib branch db))

section

variable (hchain : Chained lib (branch ++ shared)) (hlen : (branch ++ shared).length < 2 ^ 64)
include hchain hlen

theorem canonical_reorganised (hshared : ∀ b ∈ shared, db.readCanonicalHash b.number64 = b.hash lib) :
    ∀ b ∈ branch ++ shared, (reorganised lib deleted branch shared db).readCanonicalHash
      b.number64 = b.hash lib := by
  intro b hb
  have hlt : b.number64 < UInt64.ofNat (branch ++ shared).length := by
    rw [UInt64.lt_iff_toNat_lt, UInt64.toNat_ofNat_of_lt' hlen]
    exact hchain.number64_lt hlen.le hb
  rw [reorganised, readCanonicalHash_trim_of_lt hlt, readCanonicalHash_deleteLookups]
  exact canonical_writeHeads hchain hlen.le hshared b hb

theorem readCanonicalHash_above {number : UInt64}
    (hnumber : (branch ++ shared).length ≤ number.toNat) :
    (deleteLookups deleted (writeHeads lib branch db)).readCanonicalHash number =
      db.readCanonicalHash number := by
  rw [readCanonicalHash_deleteLookups, canonical_above_writeHeads hchain hlen.le hnumber]

end

theorem above_reorganised (hold : Chained lib (oldBranch ++ shared))
    (hchain : Chained lib (branch ++ shared)) (hlen : (branch ++ shared).length < 2 ^ 64)
    (hdescribed : Describes lib db (oldBranch ++ shared)) {number : UInt64}
    (hnumber : (branch ++ shared).length ≤ number.toNat) :
    (reorganised lib deleted branch shared db).readCanonicalHash number = default := by
  have htrim : (UInt64.ofNat (branch ++ shared).length).toNat = (branch ++ shared).length :=
    UInt64.toNat_ofNat_of_lt' hlen
  rw [reorganised, trim, readCanonicalHash_above hchain hlen htrim.ge]
  split
  · rename_i hfree
    rw [readCanonicalHash_above hchain hlen hnumber]
    refine hdescribed.above number (le_trans ?_ hnumber)
    by_contra hlonger
    obtain ⟨b, hb, hbnumber⟩ := hold.exists_number64 (not_le.mp hlonger)
    rw [← hbnumber, hdescribed.canonical b hb] at hfree
    exact hold.hash_ne hb hfree
  · rw [readCanonicalHash_truncateCanonicalHash, if_pos]
    rw [UInt64.le_iff_toNat_le, htrim]
    exact hnumber

variable (hshared : shared ≠ []) (hchain : Chained lib (branch ++ shared))
variable (hdeleted : ∀ hash, hash ∈ deleted ↔
  hash ∈ oldBranch.flatMap (Block.txHashes lib) ∧ hash ∉ branch.flatMap (Block.txHashes lib))

include hshared hchain hdeleted

theorem index_reorganised (db : Database) {hash : Hash}
    (hmem : hash ∈ branch.flatMap (Block.txHashes lib)) :
    ∃ b ∈ branch, hash ∈ b.txHashes lib ∧
      (reorganised lib deleted branch shared db).readTxLookupEntry hash = some b.number64 := by
  obtain ⟨b, hb, hread, hhash⟩ := index_writeHeads db hshared hchain hmem
  refine ⟨b, hb, hhash, ?_⟩
  rw [reorganised, readTxLookupEntry_trim, readTxLookupEntry_deleteLookups,
    if_neg fun h => ((hdeleted hash).mp h).2 hmem, hread]

theorem index_reorganised_of_not_mem {hash : Hash}
    (hmem : hash ∉ branch.flatMap (Block.txHashes lib)) :
    (reorganised lib deleted branch shared db).readTxLookupEntry hash =
      if hash ∈ oldBranch.flatMap (Block.txHashes lib) then none
      else db.readTxLookupEntry hash := by
  rw [reorganised, readTxLookupEntry_trim, readTxLookupEntry_deleteLookups,
    index_writeHeads_of_not_mem hshared hchain hmem]
  simp only [hdeleted, hmem, not_false_eq_true, and_true]

/-- The database describes the new chain up to its head unless a transaction was dropped
with the old branch that also lies on the shared chain. -/
theorem describes_reorganised_iff (hold : Chained lib (oldBranch ++ shared))
    (hlen : (branch ++ shared).length < 2 ^ 64)
    (hdescribed : Describes lib db (oldBranch ++ shared)) :
    Describes lib (reorganised lib deleted branch shared db) (branch ++ shared) ↔
      ∀ hash ∈ oldBranch.flatMap (Block.txHashes lib), hash ∈ shared.flatMap (Block.txHashes lib) →
        hash ∈ branch.flatMap (Block.txHashes lib) := by
  constructor
  · intro h hash holdMem hsharedMem
    by_contra hmem
    obtain ⟨b, hb, hhash⟩ := List.mem_flatMap.mp hsharedMem
    refine h.indexed b (List.mem_append_right _ hb) hash hhash ?_
    rw [index_reorganised_of_not_mem hshared hchain hdeleted hmem, if_pos holdMem]
  · intro hfree
    refine ⟨canonical_reorganised hchain hlen fun b hb =>
      hdescribed.canonical b (List.mem_append_right _ hb),
      fun number => above_reorganised hold hchain hlen hdescribed, ?_, ?_⟩
    · intro b hb hash hhash
      by_cases hmem : hash ∈ branch.flatMap (Block.txHashes lib)
      · obtain ⟨c, -, -, hread⟩ := index_reorganised hshared hchain hdeleted db hmem
        rw [hread]
        exact nofun
      · have hbShared : b ∈ shared := (List.mem_append.mp hb).resolve_left fun hb =>
          hmem (List.mem_flatMap.mpr ⟨b, hb, hhash⟩)
        have hkept : hash ∉ oldBranch.flatMap (Block.txHashes lib) := fun hdropped =>
          hmem (hfree hash hdropped (List.mem_flatMap.mpr ⟨b, hbShared, hhash⟩))
        rw [index_reorganised_of_not_mem hshared hchain hdeleted hmem, if_neg hkept]
        exact hdescribed.indexed b (List.mem_append_right _ hbShared) hash hhash
    · intro hash number hread
      by_cases hmem : hash ∈ branch.flatMap (Block.txHashes lib)
      · obtain ⟨c, hc, hhash, hread'⟩ := index_reorganised hshared hchain hdeleted db hmem
        rw [hread'] at hread
        exact ⟨c, List.mem_append_left _ hc, Option.some.inj hread, hhash⟩
      · rw [index_reorganised_of_not_mem hshared hchain hdeleted hmem] at hread
        split at hread
        · cases hread
        · rename_i hkept
          obtain ⟨c, hc, hnumber, hhash⟩ := hdescribed.index hash number hread
          have hcShared : c ∈ shared := (List.mem_append.mp hc).resolve_left fun hc =>
            hkept (List.mem_flatMap.mpr ⟨c, hc, hhash⟩)
          exact ⟨c, List.mem_append_right _ hcShared, hnumber, hhash⟩

end Result

end N42.ReorgTables
