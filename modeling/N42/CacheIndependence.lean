import N42.ReplayPaths

/-!
Every snapshot in the memory and on the disk of the engine is the replay of known
headers from the genesis, so the outcome of `snapshot` is that replay whatever is
cached.  The one exception is a walk that stops at a trusted epoch block.
-/

namespace N42.CacheIndependence

open ByteStrings FallibleRuns ChainTypes BlockHeader HeaderSealing
open VotingSnapshot SnapshotStore SnapshotReplay ReplayPaths

variable {lib : Primitives} {config : Config}

/-- Every snapshot the engine holds is filed under its hash and is a replay. -/
structure Consistent (net : Network lib) (config : Config) (st : EngineState) : Prop where
  recents : ∀ hash s, st.recents.lookup hash = some s → s.hash = hash ∧ net.Replayed config s
  blobs : ∀ hash s, loadSnapshot st.blobs hash = some s → s.hash = hash ∧ net.Replayed config s

variable {net : Network lib} {chain : ChainReader} {st : EngineState}

theorem consistent_start : Consistent net config ⟨∅, ∅⟩ where
  recents := by simp
  blobs := by
    intro hash s hload
    have hnone : loadSnapshot ∅ hash = none := rfl
    cases hload

theorem Consistent.evict (h : Consistent net config st) (hash : Hash) :
    Consistent net config { st with recents := st.recents.erase hash } := by
  refine ⟨?_, h.blobs⟩
  intro key s hlookup
  rcases eq_or_ne key hash with rfl | hne
  · simp [Finmap.lookup_erase] at hlookup
  · rw [Finmap.lookup_erase_ne hne] at hlookup
    exact h.recents key s hlookup

variable {snap : Snapshot}

theorem store_consistent {blobs : Blobs}
    (h : ∀ hash s, loadSnapshot blobs hash = some s → s.hash = hash ∧ net.Replayed config s)
    (hsnap : net.Replayed config snap) :
    ∀ hash s, loadSnapshot (store blobs snap) hash = some s →
      s.hash = hash ∧ net.Replayed config s := by
  intro hash s hload
  rcases eq_or_ne hash snap.hash with rfl | hne
  · rw [loadSnapshot_store blobs hsnap.representable] at hload
    cases hload
    exact ⟨rfl, hsnap⟩
  · rw [loadSnapshot_store_of_ne blobs snap hne] at hload
    exact h hash s hload

theorem Consistent.saveTrusted (h : Consistent net config st) (hsnap : net.Replayed config snap)
    (anchor : Anchor) :
    Consistent net config (saveTrusted st snap anchor) := by
  cases anchor with
  | found s => exact h
  | trusted number checkpoint => exact ⟨h.recents, store_consistent h.blobs hsnap⟩

theorem Consistent.saveSnapshot (h : Consistent net config st) (hsnap : net.Replayed config snap)
    (applied : List Header) :
    Consistent net config (saveSnapshot st snap applied) := by
  constructor
  · intro key s hlookup
    rcases eq_or_ne key snap.hash with rfl | hne
    · rw [SnapshotReplay.saveSnapshot, Finmap.lookup_insert] at hlookup
      cases hlookup
      exact ⟨rfl, hsnap⟩
    · rw [SnapshotReplay.saveSnapshot, Finmap.lookup_insert_of_ne _ hne] at hlookup
      exact h.recents key s hlookup
  · rw [SnapshotReplay.saveSnapshot]
    split
    · exact store_consistent h.blobs hsnap
    · exact h.blobs

variable {number : UInt64} {hash : Hash} {anchor : Anchor}

theorem findAnchor_snap (h : Consistent net config st) (hserves : net.Serves chain) {gathered : Nat}
    (hanchor : findAnchor config chain st number hash gathered = some anchor)
    (hrooted : anchor.rooted) :
    ∃ s, anchor.snap lib = .ok s ∧ net.Replayed config s ∧
      (number = 0 ∧ s = net.start ∨ s.hash = hash) := by
  rw [findAnchor] at hanchor
  split at hanchor
  · rename_i snap hlookup
    cases hanchor
    obtain ⟨hhash, hreplayed⟩ := h.recents hash snap hlookup
    exact ⟨snap, rfl, hreplayed, .inr hhash⟩
  · split at hanchor
    · rename_i snap hload
      cases hanchor
      rw [loadCheckpoint] at hload
      split at hload
      · obtain ⟨hhash, hreplayed⟩ := h.blobs hash snap hload
        exact ⟨snap, rfl, hreplayed, .inr hhash⟩
      · cases hload
    · split at hanchor
      · obtain ⟨checkpoint, hcheckpoint, rfl⟩ := Option.map_eq_some_iff.mp hanchor
        obtain rfl : number = 0 := hrooted
        rw [hserves.genesis] at hcheckpoint
        cases hcheckpoint
        refine ⟨net.start, ?_, Network.replayed_start, .inl ⟨rfl, rfl⟩⟩
        rw [Anchor.snap, net.genesis_signers]
        rfl
      · cases hanchor

theorem nextHeader_ok (hserves : net.Serves chain) {parents rest : List Header} {header : Header}
    (hparents : ∀ x ∈ parents, x ∈ net.known)
    (hnext : nextHeader lib chain number hash parents = .ok (header, rest)) :
    header ∈ net.known ∧ header.hash lib = hash ∧ ∀ x ∈ rest, x ∈ net.known := by
  rw [nextHeader] at hnext
  split at hnext
  · rename_i last hlast
    split at hnext
    · cases hnext
    · rename_i hmatch
      cases hnext
      refine ⟨hparents _ (List.mem_of_getLast? hlast), ?_, ?_⟩
      · by_contra hne
        exact hmatch (.inl hne)
      · intro x hx
        exact hparents x (List.mem_of_mem_dropLast hx)
  · split at hnext
    · cases hnext
    · rename_i h hget
      cases hnext
      obtain ⟨hknown, hhash⟩ := hserves.header hash number _ hget
      exact ⟨hknown, hhash, by simp⟩

variable {fuel : Nat}

theorem walk_ok (hserves : net.Serves chain) {parents acc headers : List Header}
    (hparents : ∀ x ∈ parents, x ∈ net.known)
    (hwalk : walk lib config chain st fuel number hash parents acc = some (.ok (anchor, headers))) :
    ∃ fresh number' base gathered, headers = fresh.reverse ++ acc ∧
      (∀ x ∈ fresh, x ∈ net.known) ∧ linked lib base fresh ∧ tipHash lib base fresh = hash ∧
      findAnchor config chain st number' base gathered = some anchor := by
  induction fuel generalizing number hash parents acc with
  | zero => cases hwalk
  | succ fuel ih =>
    rw [walk] at hwalk
    split at hwalk
    · rename_i found hfound
      cases hwalk
      exact ⟨[], number, hash, _, rfl, by simp, trivial, rfl, hfound⟩
    · split at hwalk
      · cases hwalk
      · rename_i header rest hnext
        obtain ⟨hknown, hhash, hrest⟩ := nextHeader_ok hserves hparents hnext
        obtain ⟨fresh, number', base, gathered, hheaders, hfresh, hlinked, htip, hfind⟩ :=
          ih hrest hwalk
        refine ⟨header :: fresh, number', base, gathered, ?_, ?_, ⟨htip.symm, hlinked⟩,
          hhash, hfind⟩
        · simpa using hheaders
        · intro x hx
          rcases List.mem_cons.mp hx with rfl | hx
          · exact hknown
          · exact hfresh x hx

/-- The walk for a block does not stop at a trusted block other than the genesis. -/
def Rooted (lib : Primitives) (config : Config) (chain : ChainReader) (st : EngineState)
    (fuel : Nat) (number : UInt64) (hash : Hash) (parents acc : List Header) : Prop :=
  ∀ anchor headers, walk lib config chain st fuel number hash parents acc =
    some (.ok (anchor, headers)) → anchor.rooted

instance {fuel : Nat} {number : UInt64} {hash : Hash} {parents acc : List Header} :
    Decidable (Rooted lib config chain st fuel number hash parents acc) :=
  match hwalk : walk lib config chain st fuel number hash parents acc with
  | none => .isTrue fun _ _ h => by rw [hwalk] at h; cases h
  | some (.error _) => .isTrue fun _ _ h => by rw [hwalk] at h; cases h
  | some (.ok (anchor, headers)) =>
    decidable_of_iff anchor.rooted ⟨
      fun hrooted _ _ h => by rw [hwalk] at h; cases h; exact hrooted,
      fun h => h anchor headers hwalk⟩

theorem Consistent.snapshot (h : Consistent net config st) (hserves : net.Serves chain)
    {parents : List Header} (hparents : ∀ x ∈ parents, x ∈ net.known)
    (hrooted : Rooted lib config chain st fuel number hash parents [])
    {result : Except AposError Snapshot} {st' : EngineState}
    (hcall : snapshot lib config chain st fuel number hash parents = some (result, st')) :
    Consistent net config st' := by
  obtain ⟨outcome, hwalk, hout⟩ := Option.map_eq_some_iff.mp hcall
  rcases outcome with e | ⟨anchor, headers⟩
  · cases hout
    exact h
  · obtain ⟨fresh, number', base, gathered, rfl, hknown, hlinked, -, hfind⟩ :=
      walk_ok hserves hparents hwalk
    obtain ⟨s, hsnap, hreplayed, hbase⟩ := findAnchor_snap h hserves hfind (hrooted anchor _ hwalk)
    have htrusted := h.saveTrusted hreplayed anchor
    simp only [replay, hsnap] at hout
    split at hout
    · cases hout
      exact htrusted
    · rename_i t happly
      cases hout
      rw [List.append_nil] at happly
      refine htrusted.saveSnapshot (hreplayed.apply ?_ hknown hlinked happly) _
      exact hbase.imp And.right Eq.symm

inductive EngineReachable (net : Network lib) (config : Config) : EngineState → Prop
  | start : EngineReachable net config ⟨∅, ∅⟩
  | evict {st : EngineState} (hash : Hash) (hst : EngineReachable net config st) :
      EngineReachable net config { st with recents := st.recents.erase hash }
  | call {st st' : EngineState} {chain : ChainReader} {fuel : Nat} {number : UInt64}
      {hash : Hash} {parents : List Header} {result : Except AposError Snapshot}
      (hst : EngineReachable net config st) (hserves : net.Serves chain)
      (hparents : ∀ x ∈ parents, x ∈ net.known)
      (hrooted : Rooted lib config chain st fuel number hash parents [])
      (hcall : snapshot lib config chain st fuel number hash parents = some (result, st')) :
      EngineReachable net config st'

theorem consistent_of_reachable (h : EngineReachable net config st) : Consistent net config st := by
  induction h with
  | start => exact consistent_start
  | evict hash hst ih => exact ih.evict hash
  | call hst hserves hparents hrooted hcall ih =>
    exact ih.snapshot hserves hparents hrooted hcall

theorem nextHeader_path {h : Header} {older stored parents : List Header}
    (hpath : net.Path net.genesisHash (h :: older))
    (hsplit : h :: older = parents.reverse ++ stored)
    (hstored : ∀ x ∈ stored, chain.getHeader (x.hash lib) x.number64 = some x) :
    ∃ rest, nextHeader lib chain (UInt64.ofNat (older.length + 1)) (h.hash lib) parents =
      .ok (h, rest) ∧ ∃ stored', older = rest.reverse ++ stored' ∧ ∀ x ∈ stored', x ∈ stored := by
  rw [← hpath.number64_eq]
  rcases List.eq_nil_or_concat' parents with rfl | ⟨rest, last, rfl⟩
  · obtain rfl : h :: older = stored := hsplit
    refine ⟨[], ?_, older, rfl, fun x hx => List.mem_cons_of_mem h hx⟩
    simp [nextHeader, hstored h List.mem_cons_self]
  · simp only [List.reverse_append, List.reverse_cons, List.reverse_nil, List.nil_append,
      List.cons_append, List.cons.injEq] at hsplit
    obtain ⟨rfl, hrest⟩ := hsplit
    exact ⟨rest, by simp [nextHeader], stored, hrest, fun x hx => hx⟩

theorem ofNat_succ_sub (n : Nat) : UInt64.ofNat (n + 1) - 1 = UInt64.ofNat n := by
  rw [UInt64.ofNat_add]
  exact UInt64.add_sub_cancel _ _

theorem findAnchor_genesis (config : Config) (hserves : net.Serves chain) (st : EngineState) (hash : Hash)
    (gathered : Nat) : ∃ anchor, findAnchor config chain st 0 hash gathered = some anchor := by
  have htrusted : isTrusted config chain 0 gathered = true := by simp [isTrusted]
  rw [findAnchor]
  split
  · exact ⟨_, rfl⟩
  · split
    · exact ⟨_, rfl⟩
    · exact ⟨.trusted 0 net.genesis, by rw [if_pos htrusted, hserves.genesis]; rfl⟩

section

variable {path stored parents acc : List Header} (h : Consistent net config st)
  (hserves : net.Serves chain) (hpath : net.Path net.genesisHash path)
include h hserves hpath

theorem findAnchor_path {gathered : Nat}
    (hanchor : findAnchor config chain st (UInt64.ofNat path.length)
      (tipHash lib net.genesisHash path) gathered = some anchor) (hrooted : anchor.rooted) :
    ∃ s, anchor.snap lib = .ok s ∧ net.start.apply lib config path.reverse = .ok s := by
  obtain ⟨s, hsnap, ⟨base, path', hpath', happly⟩, hs⟩ := findAnchor_snap h hserves hanchor hrooted
  refine ⟨s, hsnap, ?_⟩
  rcases hs with ⟨hnumber, rfl⟩ | hhash
  · have hlength := hpath.length_lt
    have hzero : path.length = 0 := by
      have htoNat := congrArg UInt64.toNat hnumber
      rw [UInt64.toNat_ofNat', Nat.mod_eq_of_lt (by omega)] at htoNat
      exact htoNat
    rw [List.length_eq_zero_iff.mp hzero]
    rfl
  · rw [Network.hash_of_apply happly] at hhash
    rw [← hpath'.unique hpath hhash]
    exact happly

section

variable (hsplit : path = parents.reverse ++ stored)
  (hstored : ∀ x ∈ stored, chain.getHeader (x.hash lib) x.number64 = some x)
  (hfuel : path.length < fuel)
include hsplit hstored hfuel

theorem walk_path (hrooted : Rooted lib config chain st fuel (UInt64.ofNat path.length)
      (tipHash lib net.genesisHash path) parents acc) :
    ∃ anchor s later earlier, path = later ++ earlier ∧ anchor.snap lib = .ok s ∧
      net.start.apply lib config earlier.reverse = .ok s ∧
      walk lib config chain st fuel (UInt64.ofNat path.length)
        (tipHash lib net.genesisHash path) parents acc =
          some (.ok (anchor, later.reverse ++ acc)) := by
  induction path generalizing parents stored acc fuel with
  | nil =>
    obtain ⟨fuel, rfl⟩ := Nat.exists_eq_succ_of_ne_zero (Nat.ne_of_gt hfuel)
    obtain ⟨anchor, hanchor⟩ := findAnchor_genesis config hserves st net.genesisHash acc.length
    have hwalk := walk_stop lib parents fuel hanchor
    obtain ⟨s, hsnap, happly⟩ := findAnchor_path h hserves hpath hanchor (hrooted anchor acc hwalk)
    exact ⟨anchor, s, [], [], rfl, hsnap, happly, hwalk⟩
  | cons x older ih =>
    obtain ⟨fuel, rfl⟩ := Nat.exists_eq_succ_of_ne_zero (Nat.ne_of_gt (Nat.zero_lt_of_lt hfuel))
    cases hfind : findAnchor config chain st (UInt64.ofNat (older.length + 1))
        (x.hash lib) acc.length with
    | some anchor =>
      have hwalk := walk_stop lib parents fuel hfind
      obtain ⟨s, hsnap, happly⟩ := findAnchor_path h hserves hpath hfind (hrooted anchor acc hwalk)
      exact ⟨anchor, s, [], x :: older, rfl, hsnap, happly, hwalk⟩
    | none =>
      obtain ⟨rest, hnext, stored', hsplit', hsub⟩ := nextHeader_path hpath hsplit hstored
      have hwalk := walk_next fuel hfind hnext
      rw [ofNat_succ_sub, hpath.linked.1] at hwalk
      have hrooted' : Rooted lib config chain st fuel (UInt64.ofNat older.length)
          (tipHash lib net.genesisHash older) rest (x :: acc) := by
        intro anchor headers hinner
        exact hrooted anchor headers (hwalk.trans hinner)
      obtain ⟨anchor, s, later, earlier, rfl, hsnap, happly, hinner⟩ := ih hpath.tail
        hsplit' (fun y hy => hstored y (hsub y hy)) (by simpa using hfuel) hrooted'
      refine ⟨anchor, s, x :: later, earlier, rfl, hsnap, happly, ?_⟩
      rw [List.reverse_cons, List.append_assoc]
      exact hwalk.trans hinner

theorem snapshot_eq_replay (hrooted : Rooted lib config chain st fuel (UInt64.ofNat path.length)
      (tipHash lib net.genesisHash path) parents []) :
    ∃ st', snapshot lib config chain st fuel (UInt64.ofNat path.length)
      (tipHash lib net.genesisHash path) parents =
        some (net.start.apply lib config path.reverse, st') := by
  obtain ⟨anchor, s, later, earlier, rfl, hsnap, happly, hwalk⟩ :=
    walk_path h hserves hpath hsplit hstored hfuel hrooted
  have hreplay : net.start.apply lib config (later ++ earlier).reverse =
      s.apply lib config later.reverse := by
    rw [List.reverse_append, apply_trans happly]
  rw [snapshot, hwalk, List.append_nil, hreplay]
  simp only [Option.map_some, replay, hsnap]
  split
  · rename_i e herror
    exact ⟨_, by rw [herror]⟩
  · rename_i t hok
    exact ⟨_, by rw [hok]⟩

end

end

/-- Headers may be applied in two steps, with the snapshot between them written to disk
and read back, and the outcome of `snapshot` for a block of a path from the genesis is
the same in all states of the engine, as long as no walk stops at a trusted epoch block. -/
theorem snapshot_independent_of_caches (lib : Primitives) (config : Config) :
    (∀ (s : Snapshot) (xs ys : List Header), consecutive (xs ++ ys) = true →
      s.apply lib config (xs ++ ys) = s.apply lib config xs >>= fun t => t.apply lib config ys) ∧
    (∀ (s t : Snapshot) (xs ys : List Header) (blobs : Blobs),
      s.apply lib config xs = .ok t → Representable t.toVotingState →
      ∃ t', loadSnapshot (store blobs t) t.hash = some t' ∧
        t'.apply lib config ys = s.apply lib config (xs ++ ys)) ∧
    (∀ (net : Network lib) (chain : ChainReader) (first second : EngineState)
      (path stored parents : List Header) (fuel : Nat),
      EngineReachable net config first → EngineReachable net config second →
      net.Serves chain → net.Path net.genesisHash path → path = parents.reverse ++ stored →
      (∀ x ∈ stored, chain.getHeader (x.hash lib) x.number64 = some x) → path.length < fuel →
      Rooted lib config chain first fuel (UInt64.ofNat path.length)
        (tipHash lib net.genesisHash path) parents [] →
      Rooted lib config chain second fuel (UInt64.ofNat path.length)
        (tipHash lib net.genesisHash path) parents [] → ∃ result first' second',
        snapshot lib config chain first fuel (UInt64.ofNat path.length)
          (tipHash lib net.genesisHash path) parents = some (result, first') ∧
        snapshot lib config chain second fuel (UInt64.ofNat path.length)
          (tipHash lib net.genesisHash path) parents = some (result, second') ∧
        result = net.start.apply lib config path.reverse) := by
  refine ⟨fun s xs ys h => apply_append s h, ?_, ?_⟩
  · intro s t xs ys blobs happly hrepresentable
    exact ⟨t, loadSnapshot_store blobs hrepresentable, (apply_trans happly ys).symm⟩
  · intro net chain first second path stored parents fuel hfirst hsecond hserves hpath hsplit
      hstored hfuel hrooted₁ hrooted₂
    obtain ⟨first', hcall₁⟩ := snapshot_eq_replay (consistent_of_reachable hfirst) hserves hpath
      hsplit hstored hfuel hrooted₁
    obtain ⟨second', hcall₂⟩ := snapshot_eq_replay (consistent_of_reachable hsecond) hserves hpath
      hsplit hstored hfuel hrooted₂
    exact ⟨_, first', second', hcall₁, hcall₂, rfl⟩

def toyList : List UInt8 :=
  concat [toyAddress 1, toyAddress 2]

def toyGenesis : Header :=
  toyHeader 0 1 default toyList

def toyFirst : Header :=
  { toyHeader 1 1 (toyAddress 1) with parentHash := toyGenesis.hash toyPrimitives }

def toySecond : Header :=
  { toyHeader 2 1 (toyAddress 2) toyList with parentHash := toyFirst.hash toyPrimitives }

def toyThird : Header :=
  { toyHeader 3 1 (toyAddress 1) with parentHash := toySecond.hash toyPrimitives }

def toyHeaders : List Header :=
  [toyGenesis, toyFirst, toySecond, toyThird]

def toyNetwork : Network toyPrimitives where
  known := { h | h ∈ toyHeaders }
  genesis := toyGenesis
  signers := [toyAddress 1, toyAddress 2]
  genesis_mem := List.mem_cons_self
  genesis_number := by decide
  genesis_signers := by decide +kernel
  hash_injOn := List.inj_on_of_nodup_map (by decide +kernel)
  number_lt := (by decide +kernel : ∀ h ∈ toyHeaders, h.number64.toNat < 2 ^ 63)

def toyReader (forgotten : Option UInt64) : ChainReader where
  getHeader hash number :=
    toyHeaders.find? fun h => h.hash toyPrimitives = hash ∧ h.number64 = number
  getHeaderByNumber number :=
    if some number = forgotten then none else toyHeaders.find? fun h => h.number64 = number

theorem toyReader_serves {forgotten : Option UInt64} (h : forgotten ≠ some 0) :
    toyNetwork.Serves (toyReader forgotten) where
  genesis := (if_neg h.symm).trans (by decide +kernel)
  header := by
    intro hash number header hget
    simp only [toyReader, List.find?_eq_some_iff_append, decide_eq_true_iff] at hget
    obtain ⟨⟨hhash, -⟩, before, after, hsplit, -⟩ := hget
    refine ⟨?_, hhash⟩
    change header ∈ toyHeaders
    rw [hsplit]
    simp

def toyState : EngineState :=
  ((snapshot toyPrimitives (Config.new 8 2) (toyReader none) ⟨∅, ∅⟩ 4 2
    (toySecond.hash toyPrimitives) []).map Prod.snd).getD ⟨∅, ∅⟩

theorem toyState_reachable : EngineReachable toyNetwork (Config.new 8 2) toyState := by
  obtain ⟨⟨result, st⟩, hcall⟩ : ∃ r, snapshot toyPrimitives (Config.new 8 2) (toyReader none)
      ⟨∅, ∅⟩ 4 2 (toySecond.hash toyPrimitives) [] = some r :=
    Option.isSome_iff_exists.mp (by decide +kernel)
  have hst : toyState = st := by
    rw [toyState, hcall]
    rfl
  rw [hst]
  exact .call .start (toyReader_serves (by simp)) (by simp) (by decide +kernel) hcall

theorem toyPath : toyNetwork.Path toyNetwork.genesisHash [toyThird, toySecond, toyFirst] where
  known := by
    intro h hh
    simp only [toyNetwork, toyHeaders, Set.mem_ofPred_eq, List.mem_cons, List.not_mem_nil,
      or_false] at hh ⊢
    rcases hh with rfl | rfl | rfl <;> simp
  linked := ⟨rfl, rfl, rfl, trivial⟩
  follows := by decide

theorem exists_ok_of_recents {x : Option (Except AposError Snapshot × EngineState)}
    {v : Recents} (h : (x.bind fun r => r.1.toOption.map fun s => s.recents) = some v) :
    ∃ s st, x = some (.ok s, st) ∧ s.recents = v := by
  obtain ⟨⟨result, st⟩, rfl, hmap⟩ := Option.bind_eq_some_iff.mp h
  cases result with
  | error e => cases hmap
  | ok s => exact ⟨s, st, rfl, Option.some.inj hmap⟩

/-- Once block 1 is no longer there, epoch block 2 is trusted by an engine that has no
snapshot of it, but an engine that has one still knows who has sealed last. -/
theorem trusted_epoch_block_forgets_recents :
    ∃ (chain : ChainReader) (st : EngineState) (a b : Snapshot) (st₁ st₂ : EngineState),
      EngineReachable toyNetwork (Config.new 8 2) st ∧
      snapshot toyPrimitives (Config.new 8 2) chain st 5 3
        (toyThird.hash toyPrimitives) [] = some (.ok a, st₁) ∧
      snapshot toyPrimitives (Config.new 8 2) chain ⟨∅, ∅⟩ 5 3
        (toyThird.hash toyPrimitives) [] = some (.ok b, st₂) ∧
      a.recents = ((∅ : Recents).insert 2 (toyAddress 2)).insert 3 (toyAddress 1) ∧
      b.recents = (∅ : Recents).insert 3 (toyAddress 1) ∧ a ≠ b := by
  obtain ⟨a, st₁, hcall₁, ha⟩ := exists_ok_of_recents
    (x := snapshot toyPrimitives (Config.new 8 2) (toyReader (some 1)) toyState 5 3
      (toyThird.hash toyPrimitives) [])
    (v := ((∅ : Recents).insert 2 (toyAddress 2)).insert 3 (toyAddress 1)) (by decide +kernel)
  obtain ⟨b, st₂, hcall₂, hb⟩ := exists_ok_of_recents
    (x := snapshot toyPrimitives (Config.new 8 2) (toyReader (some 1)) ⟨∅, ∅⟩ 5 3
      (toyThird.hash toyPrimitives) [])
    (v := (∅ : Recents).insert 3 (toyAddress 1)) (by decide +kernel)
  refine ⟨toyReader (some 1), toyState, a, b, st₁, st₂, toyState_reachable, hcall₁, hcall₂,
    ha, hb, ?_⟩
  intro hab
  rw [hab, hb] at ha
  revert ha
  decide +kernel

theorem snapshot_independent_of_caches_of_three :
    (∃ t, toyNetwork.start.apply toyPrimitives (Config.new 8 2) [toyFirst] = .ok t ∧
      (∃ t', loadSnapshot (store ∅ t) t.hash = some t' ∧
        t'.apply toyPrimitives (Config.new 8 2) [toySecond] =
          toyNetwork.start.apply toyPrimitives (Config.new 8 2) [toyFirst, toySecond]) ∧
      toyNetwork.start.apply toyPrimitives (Config.new 8 2) [toyFirst, toySecond] =
        t.apply toyPrimitives (Config.new 8 2) [toySecond]) ∧
    ∃ result st₁ st₂, snapshot toyPrimitives (Config.new 8 2) (toyReader none) toyState 4 3
        (toyThird.hash toyPrimitives) [toyThird] = some (result, st₁) ∧
      snapshot toyPrimitives (Config.new 8 2) (toyReader none) ⟨∅, ∅⟩ 4 3
        (toyThird.hash toyPrimitives) [toyThird] = some (result, st₂) := by
  obtain ⟨happend, hdisk, hcaches⟩ := snapshot_independent_of_caches toyPrimitives (Config.new 8 2)
  constructor
  · obtain ⟨t, happly, -⟩ := exists_ok_of_map (f := fun s : Snapshot => s.number)
      (x := toyNetwork.start.apply toyPrimitives (Config.new 8 2) [toyFirst])
      (v := 1) (by decide +kernel)
    have hpath : toyNetwork.Path toyNetwork.genesisHash [toyFirst] := toyPath.tail.tail
    have hrepresentable : Representable t.toVotingState :=
      Network.Replayed.representable ⟨_, [toyFirst], hpath, happly⟩
    have htwo := happend toyNetwork.start [toyFirst] [toySecond] (by decide)
    rw [happly] at htwo
    exact ⟨t, happly, hdisk _ t [toyFirst] [toySecond] ∅ happly hrepresentable, htwo⟩
  · obtain ⟨result, st₁, st₂, hcall₁, hcall₂, -⟩ := hcaches toyNetwork (toyReader none)
      toyState ⟨∅, ∅⟩ [toyThird, toySecond, toyFirst] [toySecond, toyFirst] [toyThird] 4
      toyState_reachable .start (toyReader_serves (by simp)) toyPath rfl
      (by decide +kernel) (by decide) (by decide +kernel) (by decide +kernel)
    exact ⟨result, st₁, st₂, hcall₁, hcall₂⟩

end N42.CacheIndependence
