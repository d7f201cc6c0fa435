import N42.BlockHeader

/-!
`GetHashFn`: the hashes of the ancestors of a header by their numbers.  The function keeps
the hashes that it has found and goes on from the last one.
-/

namespace N42.AncestorHashes

open ChainTypes BlockHeader

variable (getHeader : Hash → UInt64 → Option Header) (ref : Header)

/-- The loop, which appends to the cache; `none` if the fuel runs out. -/
def walk (n : UInt64) : Nat → List Hash → Hash → UInt64 → Option (Hash × List Hash)
  | 0, _, _, _ => none
  | fuel + 1, cache, lastKnownHash, lastKnownNumber =>
    match getHeader lastKnownHash lastKnownNumber with
    | none => some (default, cache)
    | some header =>
      if n = header.number64 - 1 then some (header.parentHash, cache ++ [header.parentHash])
      else walk n fuel (cache ++ [header.parentHash]) header.parentHash (header.number64 - 1)

def getHash (fuel : Nat) (cache : List Hash) (n : UInt64) : Option (Hash × List Hash) :=
  let cache := if cache.length = 0 then [ref.parentHash] else cache
  let idx := ref.number64 - n - 1
  match cache[idx.toNat]? with
  | some hash => some (hash, cache)
  | none => walk getHeader n fuel cache (cache.getLastD default)
      (ref.number64 - UInt64.ofNat cache.length)

def getHashes (fuel : Nat) (cache : List Hash) : List UInt64 → Option (List Hash)
  | [] => some []
  | n :: queries => do
      let (hash, cache) ← getHash getHeader ref fuel cache n
      let hashes ← getHashes fuel cache queries
      some (hash :: hashes)

/-- The plain walk: the hash that is this many generations behind the parent. -/
def ancestor : Nat → Option Hash
  | 0 => some ref.parentHash
  | k + 1 => do
      let hash ← ancestor k
      let header ← getHeader hash (ref.number64 - UInt64.ofNat (k + 1))
      some header.parentHash

/-- The hash of the ancestor with this number, or zero if a header on the way is missing. -/
def ancestorHash (n : UInt64) : Hash :=
  (ancestor getHeader ref (ref.number64 - n - 1).toNat).getD default

variable {getHeader ref}

theorem toNat_sub_ofNat {x : UInt64} {m : Nat} (h : m ≤ x.toNat) :
    (x - UInt64.ofNat m).toNat = x.toNat - m := by
  have hlt := x.toNat_lt
  have hm : (UInt64.ofNat m).toNat = m := by
    rw [UInt64.toNat_ofNat', Nat.mod_eq_of_lt (by omega)]
  rw [UInt64.toNat_sub_of_le _ _ (by rw [UInt64.le_iff_toNat_le, hm]; exact h), hm]

theorem toNat_index {x n : UInt64} (h : n.toNat < x.toNat) :
    (x - n - 1).toNat = x.toNat - n.toNat - 1 := by
  have hsub : (x - n).toNat = x.toNat - n.toNat :=
    UInt64.toNat_sub_of_le _ _ (UInt64.le_iff_toNat_le.mpr h.le)
  have hone : 1 ≤ (x - n).toNat := by omega
  have hsucc := toNat_sub_ofNat hone
  rw [hsub] at hsucc
  exact hsucc

theorem ancestor_succ {k : Nat} {hash : Hash} (h : ancestor getHeader ref k = some hash) :
    ancestor getHeader ref (k + 1) =
      (getHeader hash (ref.number64 - UInt64.ofNat (k + 1))).map Header.parentHash := by
  rw [ancestor, h, Option.map_eq_bind]
  rfl

theorem ancestor_eq_none {k l : Nat} (h : ancestor getHeader ref k = none) (hle : k ≤ l) :
    ancestor getHeader ref l = none := by
  induction hle with
  | refl => exact h
  | step _ ih =>
    rw [ancestor, ih]
    rfl

structure Cached (getHeader : Hash → UInt64 → Option Header) (ref : Header)
    (cache : List Hash) : Prop where
  nonempty : 0 < cache.length
  bound : cache.length ≤ ref.number64.toNat
  found : ∀ k < cache.length, cache[k]? = ancestor getHeader ref k

theorem Cached.append {cache : List Hash} (h : Cached getHeader ref cache) {hash : Hash}
    (hbound : cache.length < ref.number64.toNat)
    (hhash : ancestor getHeader ref cache.length = some hash) :
    Cached getHeader ref (cache ++ [hash]) where
  nonempty := by simp
  bound := by simpa using hbound
  found := by
    intro k hk
    rw [List.length_append, List.length_singleton, Nat.lt_succ_iff] at hk
    rcases hk.lt_or_eq with hlt | rfl
    · rw [List.getElem?_append_left hlt, h.found k hlt]
    · rw [List.getElem?_concat_length, hhash]

theorem cached_start (h : 0 < ref.number64.toNat) : Cached getHeader ref [ref.parentHash] where
  nonempty := Nat.zero_lt_one
  bound := h
  found := by
    intro k hk
    obtain rfl := Nat.lt_one_iff.mp hk
    rfl

/-- The store returns only headers with the number that it is asked for. -/
def Numbered (getHeader : Hash → UInt64 → Option Header) : Prop :=
  ∀ hash number header, getHeader hash number = some header → header.number64 = number

theorem walk_cached (hstore : Numbered getHeader) {n : UInt64} {fuel : Nat} {cache : List Hash}
    {hash : Hash} (h : Cached getHeader ref cache)
    (hlast : ancestor getHeader ref (cache.length - 1) = some hash)
    (hn : n.toNat + cache.length < ref.number64.toNat)
    (hfuel : ref.number64.toNat ≤ fuel + n.toNat + cache.length) :
    ∃ cache', walk getHeader n fuel cache hash (ref.number64 - UInt64.ofNat cache.length) =
      some (ancestorHash getHeader ref n, cache') ∧ Cached getHeader ref cache' := by
  have hpos := h.nonempty
  induction fuel generalizing cache hash with
  | zero => omega
  | succ fuel ih =>
    have hindex : (ref.number64 - n - 1).toNat = ref.number64.toNat - n.toNat - 1 :=
      toNat_index (by omega)
    -- the next ancestor is the parent of the header that is read now
    have hnext : ancestor getHeader ref cache.length =
        (getHeader hash (ref.number64 - UInt64.ofNat cache.length)).map Header.parentHash := by
      have hsucc := ancestor_succ hlast
      rw [Nat.sub_add_cancel hpos] at hsucc
      exact hsucc
    rw [walk]
    cases hheader : getHeader hash (ref.number64 - UInt64.ofNat cache.length) with
    | none =>
      rw [hheader] at hnext
      refine ⟨cache, ?_, h⟩
      rw [ancestorHash, hindex, ancestor_eq_none hnext (by omega)]
      rfl
    | some header =>
      rw [hheader] at hnext
      have happend := h.append (by omega) hnext
      have hnumber : header.number64 - 1 =
          ref.number64 - UInt64.ofNat (cache ++ [header.parentHash]).length := by
        rw [hstore _ _ _ hheader, List.length_append, List.length_singleton, UInt64.ofNat_add]
        grind
      have hlength : (cache ++ [header.parentHash]).length = cache.length + 1 := by simp
      have hlower := toNat_sub_ofNat (x := ref.number64) happend.bound
      dsimp only
      rw [hnumber]
      split
      · rename_i heq
        refine ⟨_, ?_, happend⟩
        rw [← heq, hlength] at hlower
        rw [ancestorHash, hindex, show ref.number64.toNat - n.toNat - 1 = cache.length by omega,
          hnext]
        rfl
      · rename_i hne
        have hother : n.toNat ≠ ref.number64.toNat - (cache.length + 1) := by
          rw [← hlength, ← hlower]
          exact fun heq => hne (UInt64.toNat_inj.mp heq)
        refine ih happend ?_ (by omega) (by omega) happend.nonempty
        rw [hlength, Nat.add_sub_cancel]
        exact hnext

theorem getHash_cached (hstore : Numbered getHeader) {n : UInt64} {fuel : Nat} {cache : List Hash}
    (h : cache = [] ∨ Cached getHeader ref cache) (hn : n < ref.number64)
    (hfuel : ref.number64.toNat ≤ fuel) :
    ∃ cache', getHash getHeader ref fuel cache n = some (ancestorHash getHeader ref n, cache') ∧
      Cached getHeader ref cache' := by
  rw [UInt64.lt_iff_toNat_lt] at hn
  have hcached : Cached getHeader ref (if cache.length = 0 then [ref.parentHash] else cache) := by
    rcases h with rfl | h
    · exact cached_start (by omega)
    · rw [if_neg h.nonempty.ne']
      exact h
  rw [getHash]
  generalize (if cache.length = 0 then [ref.parentHash] else cache) = cache at hcached ⊢
  have hindex := toNat_index hn
  by_cases hlt : (ref.number64 - n - 1).toNat < cache.length
  · rw [hcached.found _ hlt]
    obtain ⟨hash, hhash⟩ : ∃ hash, ancestor getHeader ref (ref.number64 - n - 1).toNat = some hash :=
      ⟨_, (hcached.found _ hlt).symm.trans (List.getElem?_eq_getElem hlt)⟩
    rw [hhash]
    refine ⟨cache, ?_, hcached⟩
    rw [ancestorHash, hhash]
    rfl
  · rw [List.getElem?_eq_none (by omega)]
    refine walk_cached hstore hcached ?_ (by omega) (by omega)
    have hpos := hcached.nonempty
    rw [← hcached.found _ (by omega), List.getLastD_eq_getLast?, List.getLast?_eq_getElem?,
      List.getElem?_eq_getElem (by omega)]
    rfl

/-- Whatever has been asked before, each query is answered by the hash of the ancestor with
its number, or by zero if a header on the way to it is not stored. -/
theorem getHashes_eq (getHeader : Hash → UInt64 → Option Header) (ref : Header)
    (hstore : Numbered getHeader) (queries : List UInt64)
    (hqueries : ∀ n ∈ queries, n < ref.number64) (fuel : Nat)
    (hfuel : ref.number64.toNat ≤ fuel) :
    getHashes getHeader ref fuel [] queries = some (queries.map (ancestorHash getHeader ref)) := by
  have hall : ∀ cache, cache = [] ∨ Cached getHeader ref cache →
      getHashes getHeader ref fuel cache queries =
        some (queries.map (ancestorHash getHeader ref)) := by
    induction queries with
    | nil => exact fun _ _ => rfl
    | cons n queries ih =>
      intro cache hcache
      obtain ⟨cache', hhash, hcached⟩ :=
        getHash_cached hstore hcache (hqueries n List.mem_cons_self) hfuel
      have hrest := ih (fun m hm => hqueries m (List.mem_cons_of_mem n hm)) cache' (.inr hcached)
      rw [getHashes, hhash]
      simp [hrest]
  exact hall [] (.inl rfl)

section Toys

def toyHeader (parent : UInt8) (number : Uint256) : Header :=
  { parentHash := .copy 32 (List.replicate 32 parent), coinbase := default, root := default
    txHash := default, receiptHash := default, bloom := default, difficulty := none, number
    gasLimit := 0, gasUsed := 0, time := 0, mixDigest := default, nonce := default, extra := .nil
    baseFee := none, signature := default }

def toyStore (_ : Hash) (number : UInt64) : Option Header :=
  if number = 4 then some (toyHeader 3 4) else none

end Toys

/-- The missing header 3 hides the ancestor at 2, but not those asked for later. -/
theorem getHashes_toyStore :
    getHashes toyStore (toyHeader 4 5) 5 [] [2, 4, 3] =
      some ([2, 4, 3].map (ancestorHash toyStore (toyHeader 4 5))) ∧
    [2, 4, 3].map (ancestorHash toyStore (toyHeader 4 5)) =
      [default, (toyHeader 4 5).parentHash, (toyHeader 3 4).parentHash] := by
  have hbelow : ∀ n ∈ [2, 4, 3], n < (toyHeader 4 5).number64 := by
    simp only [List.forall_mem_cons, List.not_mem_nil, false_imp_iff, implies_true, and_true]
    decide +kernel
  refine ⟨getHashes_eq _ _ ?_ _ hbelow 5 (by decide +kernel), by decide +kernel⟩
  intro hash number header hheader
  rw [toyStore] at hheader
  split at hheader
  · rename_i hnumber
    cases hheader
    rw [hnumber]
    rfl
  · cases hheader

end N42.AncestorHashes
