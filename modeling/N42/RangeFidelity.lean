import N42.RangeDelivery

/-!
What server and client do together: which requests for a range of blocks end with the
stored blocks at the client, or with those before a missing one and an error.
-/

namespace N42.RangeFidelity

open ChainTypes BlockHeader HeaderSealing WordMessages HeaderCodec
open BlockCodec SszMessages FallibleRuns BlockCounters RangeRequests
open RangeResponses RangeDelivery

def SameMessage (m : PbBlock) (b : StoredBlock) : Prop :=
  ∃ d, blockFromProtoMessage m = some d ∧ SameBlock d b

/-- If all requested blocks are stored, they are streamed in order and the client returns
them; if one is missing, some of the blocks before it are followed by one error. -/
structure Faithful (server : Server) (m : RangeRequest) (s : Stream) : Prop where
  complete : ∀ blks, (requested m).mapM (blockAt server) = some blks →
    ∃ ms, s = ⟨ms.map .block, true⟩ ∧ List.Forall₂ SameMessage ms blks ∧
      sendBodiesByRangeRequest m s = .ok ms
  cut : (requested m).mapM (blockAt server) = none →
    ∃ k blks ms code reason, ((requested m).take k).mapM (blockAt server) = some blks ∧
      List.Forall₂ SameMessage ms blks ∧ s = ⟨ms.map .block ++ [.error code reason], true⟩

/-- All blocks that are written can be transmitted, and if no requested block is missing,
the limit of a batch is not zero and no batch is refused. -/
structure Deliverable (server : Server) (remaining : Nat → Nat) (m : RangeRequest) : Prop where
  transmittable : ∀ b ∈ written server remaining 0 (requestBatches server m), Transmittable b
  admitted : ((requested m).mapM (blockAt server)).isSome → server.blockBatchLimit ≠ 0 ∧
    ∀ check < (requestBatches server m).length, Admitted server remaining check

section Sending

variable {lib : Primitives} {b : StoredBlock}

theorem encodeBlock_of_transmittable (h : Transmittable b) :
    ∃ m, encodeBlock lib b = some m ∧ SameMessage m b := by
  obtain ⟨m, d, hm, hd, hsame⟩ := (transmits_iff lib b).mpr h
  exact ⟨m, hm, d, hd, hsame⟩

theorem transmittable_of_encodeBlock {m : PbBlock} (hm : encodeBlock lib b = some m)
    (h : SameMessage m b) : Transmittable b := by
  obtain ⟨d, hd, hsame⟩ := h
  exact (transmits_iff lib b).mp ⟨m, d, hm, hd, hsame⟩

theorem mapM_encodeBlock_iff {blks : List StoredBlock} :
    (∃ ms, blks.mapM (encodeBlock lib) = some ms ∧ List.Forall₂ SameMessage ms blks) ↔
      ∀ b ∈ blks, Transmittable b := by
  constructor
  · rintro ⟨ms, hms, hsame⟩
    rw [mapM_eq_some_iff] at hms
    induction hms with
    | nil => exact fun _ h => by cases h
    | cons hm _ ih =>
      obtain ⟨hhead, htail⟩ := List.forall₂_cons.mp hsame
      exact List.forall_mem_cons.mpr ⟨transmittable_of_encodeBlock hm hhead, ih htail⟩
  · intro h
    induction blks with
    | nil => exact ⟨[], rfl, .nil⟩
    | cons b blks ih =>
      obtain ⟨hhead, htail⟩ := List.forall_mem_cons.mp h
      obtain ⟨m, hm, hsame⟩ := encodeBlock_of_transmittable hhead
      obtain ⟨ms, hms, hrest⟩ := ih htail
      exact ⟨m :: ms, mapM_eq_some_iff.mpr (.cons hm (mapM_eq_some_iff.mp hms)), .cons hsame hrest⟩

theorem number_of_sameMessage {m : PbBlock} (h : SameMessage m b) :
    convertH256ToUint256Int (m.header.bind PbHeader.number) = some b.1.number := by
  obtain ⟨d, hd, hsame⟩ := h
  simp only [blockFromProtoMessage, Option.bind_eq_bind, Option.bind_eq_some_iff,
    Option.pure_def, Option.some.injEq] at hd
  obtain ⟨header, ⟨hm, hheader, hfrom⟩, body, -, rfl⟩ := hd
  have hnumber : header.number = b.1.number := (congrArg Header.number hsame.header :)
  simp only [Header.fromProtoMessage, Option.bind_eq_bind, Option.bind_eq_some_iff,
    Option.pure_def, Option.some.injEq] at hfrom
  obtain ⟨_, -, _, -, _, -, _, -, _, -, _, -, number, hread, _, -, _, -, _, -, _, -, rfl⟩ := hfrom
  rw [hheader, Option.bind_some, hread, ← hnumber]

end Sending

section Reading

variable {m : RangeRequest}

theorem acceptBlock_next (hstep : m.step = 1) {i : Nat} (hcount : m.count.toNat ≤ 1024)
    (hi : i < m.count.toNat) (hstart : m.startBlockNumber.toNat + 1024 ≤ 2 ^ 64)
    {prev : Option Uint256} (hprev : ∀ p ∈ prev, p.toNat < m.startBlockNumber.toNat + i) :
    acceptBlock m i prev (word (m.startBlockNumber.toNat + i)) = true := by
  have hmax : maxRequestBlocks.toNat = 1024 := rfl
  rw [acceptBlock.eq_def]
  dsimp only
  rw [if_neg (by omega), hstep, UInt64.mul_one, if_neg]
  · cases prev with
    | none => rfl
    | some p =>
      have hlt := hprev p rfl
      have hone : BitVec.ofNat 256 (1 : UInt64).toNat = 1#256 := rfl
      dsimp only
      rw [if_neg, if_neg]
      · rw [hone, BitVec.umod_one]
        decide
      · rw [BitVec.le_def, toNat_word (by omega)]
        omega
  · have hend := addUint64_word m.startBlockNumber.toNat m.count
    rw [word_toNat] at hend
    rw [hend, BitVec.lt_def, BitVec.lt_def, toNat_word (by omega), toNat_word (by omega)]
    omega

theorem readBlocks_eq (hstep : m.step = 1) (hcount : m.count.toNat ≤ 1024)
    (hstart : m.startBlockNumber.toNat + 1024 ≤ 2 ^ 64) {ms : List PbBlock} {i : Nat}
    (hi : i + ms.length ≤ m.count.toNat)
    (hnumbers : List.Forall₂ (fun blk n =>
      convertH256ToUint256Int (blk.header.bind PbHeader.number) = some (word n)) ms
      (List.range' (m.startBlockNumber.toNat + i) ms.length))
    {prev : Option Uint256} (hprev : ∀ p ∈ prev, p.toNat < m.startBlockNumber.toNat + i)
    (read : List PbBlock) :
    readBlocks m true (ms.map .block) i prev read = .ok (read ++ ms) := by
  induction ms generalizing i prev read with
  | nil => rw [List.map_nil, readBlocks, if_pos rfl, List.append_nil]
  | cons blk ms ih =>
    rw [List.length_cons] at hi hnumbers
    rw [List.range'_succ] at hnumbers
    obtain ⟨hblk, htail⟩ := List.forall₂_cons.mp hnumbers
    rw [List.map_cons, readBlocks, hblk]
    dsimp only
    rw [if_pos (acceptBlock_next hstep hcount (by omega) hstart hprev),
      ih (by omega) htail, List.append_assoc]
    · rfl
    · intro p hp
      cases hp
      rw [toNat_word (by omega)]
      omega

end Reading

section Prefixes

variable {server : Server} {remaining : Nat → Nat}

theorem written_prefix (server : Server) (remaining : Nat → Nat) (check : Nat) (bs : List (List Nat)) :
    ∃ k, (bs.flatten.take k).mapM (blockAt server) = some (written server remaining check bs) := by
  induction bs generalizing check with
  | nil => exact ⟨0, rfl⟩
  | cons batch rest ih =>
    rw [written]
    split
    · cases hfound : batch.mapM (blockAt server) with
      | none => exact ⟨0, rfl⟩
      | some blks =>
        obtain ⟨k, hk⟩ := ih (check + 1)
        refine ⟨batch.length + k, ?_⟩
        rw [List.flatten_cons, List.take_length_add_append, List.mapM_append, hfound]
        simp [hk]
    · exact ⟨0, rfl⟩

theorem ending_eq_nil_iff (check : Nat) (bs : List (List Nat)) :
    ending server remaining check bs = [] ↔
      (∀ i < bs.length, Admitted server remaining (check + i)) ∧
        bs.flatten.mapM (blockAt server) = some (written server remaining check bs) := by
  induction bs generalizing check with
  | nil => exact iff_of_true rfl ⟨fun i hi => absurd hi (Nat.not_lt_zero i), rfl⟩
  | cons batch rest ih =>
    rw [ending, written, List.flatten_cons, List.mapM_append]
    split
    · rename_i hpass
      cases hfound : batch.mapM (blockAt server) with
      | none =>
        refine iff_of_false (by intro h; cases h) ?_
        rintro ⟨-, h⟩
        cases h
      | some blks =>
        dsimp only
        rw [ih (check + 1)]
        constructor
        · rintro ⟨hall, hrest⟩
          refine ⟨?_, by simp [hrest]⟩
          rintro (_ | i) hi
          · exact hpass
          · have hi' := hall i (Nat.lt_of_succ_lt_succ hi)
            rwa [Nat.add_right_comm] at hi'
        · rintro ⟨hall, hrest⟩
          refine ⟨?_, ?_⟩
          · intro i hi
            have hi' := hall (i + 1) (Nat.succ_lt_succ hi)
            rwa [Nat.add_right_comm, Nat.add_assoc]
          · cases hfound' : rest.flatten.mapM (blockAt server) with
            | none => simp [hfound'] at hrest
            | some found => simpa [hfound'] using hrest
    · rename_i hstop
      refine iff_of_false (by intro h; cases h) ?_
      rintro ⟨hall, -⟩
      exact hstop (hall 0 (Nat.zero_lt_succ _))

theorem written_of_stored {check : Nat} {bs : List (List Nat)} {blks : List StoredBlock}
    (hall : ∀ i < bs.length, Admitted server remaining (check + i))
    (hstored : bs.flatten.mapM (blockAt server) = some blks) :
    written server remaining check bs = blks := by
  induction bs generalizing check blks with
  | nil => exact Option.some.inj hstored
  | cons batch rest ih =>
    rw [List.flatten_cons, List.mapM_append] at hstored
    simp only [Option.bind_eq_bind, Option.bind_eq_some_iff, Option.pure_def,
      Option.some.injEq] at hstored
    obtain ⟨found, hfound, more, hmore, rfl⟩ := hstored
    have hpass : Admitted server remaining check := hall 0 (Nat.zero_lt_succ _)
    rw [written, if_pos hpass, hfound]
    dsimp only
    rw [ih _ hmore]
    intro i hi
    have hi' := hall (i + 1) (Nat.succ_lt_succ hi)
    rwa [Nat.add_right_comm, Nat.add_assoc]

theorem prefix_unique {numbers : List Nat} {j k : Nat} {xs ys : List StoredBlock}
    (hx : (numbers.take j).mapM (blockAt server) = some xs)
    (hy : (numbers.take k).mapM (blockAt server) = some ys) (hlen : xs.length = ys.length) :
    xs = ys := by
  have hj := (mapM_eq_some_iff.mp hx).length_eq
  have hk := (mapM_eq_some_iff.mp hy).length_eq
  have htake : numbers.take j = numbers.take k := by
    rw [List.length_take] at hj hk
    rw [List.take_eq_take_iff]
    omega
  rw [htake, hy] at hx
  exact (Option.some.inj hx).symm

end Prefixes

section Requests

variable {server : Server} {remaining : Nat → Nat} {m : RangeRequest}

theorem flatten_requestBatches (hlimit : server.blockBatchLimit ≠ 0) :
    (requestBatches server m).flatten = requested m :=
  flatten_batches (fun h => hlimit (UInt64.toNat_inj.mp h)) le_rfl

variable {ms : List PbBlock}

theorem numbers_of_sameMessages {blks : List StoredBlock} {numbers : List Nat}
    (hsame : List.Forall₂ SameMessage ms blks) (hstored : numbers.mapM (blockAt server) = some blks)
    (hlt : ∀ n ∈ numbers, n < 2 ^ 64) :
    List.Forall₂ (fun blk n =>
      convertH256ToUint256Int (blk.header.bind PbHeader.number) = some (word n)) ms numbers := by
  rw [mapM_eq_some_iff] at hstored
  induction hstored generalizing ms with
  | nil =>
    cases hsame
    exact .nil
  | @cons n b numbers blks hblock _ ih =>
    obtain ⟨hn, hrest⟩ := List.forall_mem_cons.mp hlt
    obtain ⟨blk, ms, hblk, htail, rfl⟩ := List.forall₂_cons_right_iff.mp hsame
    refine .cons ?_ (ih htail hrest)
    have hnumber := server.number_block _ b hblock
    rw [UInt64.toNat_ofNat', Nat.mod_eq_of_lt hn] at hnumber
    rw [number_of_sameMessage hblk, ← hnumber, word_toNat]

theorem sendBodiesByRangeRequest_eq (hvalid : validateRangeRequest server.current m = .ok ())
    (hstep : m.step = 1) {blks : List StoredBlock} (hsame : List.Forall₂ SameMessage ms blks)
    (hstored : (requested m).mapM (blockAt server) = some blks) :
    sendBodiesByRangeRequest m ⟨ms.map .block, true⟩ = .ok ms := by
  obtain ⟨⟨-, hcount⟩, -, hstart⟩ := bounds_of_validateRangeRequest hvalid
  have hlen : ms.length = m.count.toNat := by
    rw [hsame.length_eq, ← (mapM_eq_some_iff.mp hstored).length_eq, requested, List.length_range']
  have hnumbers := numbers_of_sameMessages hsame hstored (by
    intro n hn
    have hrange := List.mem_range'_1.mp hn
    omega)
  rw [requested, ← hlen] at hnumbers
  exact readBlocks_eq hstep hcount hstart (by omega) hnumbers (fun p hp => by cases hp) []

theorem afterBlocks_of_mapM {bs : List (List Nat)}
    (h : (written server remaining 0 bs).mapM (encodeBlock server.lib) = some ms) :
    afterBlocks server remaining bs = ending server remaining 0 bs := by
  rw [afterBlocks, h]
  rfl

theorem mapM_of_afterBlocks {bs : List (List Nat)}
    (h : (afterBlocks server remaining bs).length ≤ 1) :
    (written server remaining 0 bs).mapM (encodeBlock server.lib) =
      some (sent server.lib (written server remaining 0 bs)) := by
  cases hms : (written server remaining 0 bs).mapM (encodeBlock server.lib) with
  | none =>
    rw [afterBlocks, hms, if_neg (by decide)] at h
    exact absurd h (Nat.not_succ_le_self 1)
  | some ms => rw [sent_of_mapM hms]

theorem deliverable_of_faithful (hlimit : server.blockBatchLimit ≠ 0)
    (h : Faithful server m
      ⟨(sent server.lib (written server remaining 0 (requestBatches server m))).map .block ++
        afterBlocks server remaining (requestBatches server m), true⟩) :
    Deliverable server remaining m := by
  have hafter := filterMap_message_afterBlocks server remaining (requestBatches server m)
  cases hstored : (requested m).mapM (blockAt server) with
  | some blks =>
    obtain ⟨ms, heq, hsame, -⟩ := h.complete blks hstored
    obtain ⟨rfl, hnil⟩ := append_inj_of_message hafter List.filterMap_nil
      ((congrArg Stream.chunks heq).trans (List.append_nil _).symm)
    have hencoded := mapM_of_afterBlocks (by rw [hnil]; exact Nat.zero_le 1)
    rw [afterBlocks_of_mapM hencoded, ending_eq_nil_iff, flatten_requestBatches hlimit,
      hstored] at hnil
    obtain ⟨hadmitted, hwritten⟩ := hnil
    refine ⟨?_, fun _ => ⟨hlimit, fun i hi => ?_⟩⟩
    · rw [← Option.some.inj hwritten] at hencoded hsame ⊢
      exact mapM_encodeBlock_iff.mp ⟨_, hencoded, hsame⟩
    · have hi' := hadmitted i hi
      rwa [Nat.zero_add] at hi'
  | none =>
    obtain ⟨k, blks, ms, code, reason, hprefix, hsame, heq⟩ := h.cut hstored
    obtain ⟨rfl, herror⟩ := append_inj_of_message hafter (by rfl) (congrArg Stream.chunks heq)
    have hencoded := mapM_of_afterBlocks (by rw [herror]; exact le_refl 1)
    obtain ⟨j, hj⟩ := written_prefix server remaining 0 (requestBatches server m)
    rw [flatten_requestBatches hlimit] at hj
    have hblks : blks = written server remaining 0 (requestBatches server m) := by
      refine prefix_unique hprefix hj ?_
      rw [← hsame.length_eq, (mapM_eq_some_iff.mp hencoded).length_eq]
    refine ⟨?_, fun hsome => by rw [hstored] at hsome; cases hsome⟩
    rw [hblks] at hsame
    exact mapM_encodeBlock_iff.mp ⟨_, hencoded, hsame⟩

theorem faithful_of_deliverable (hvalid : validateRangeRequest server.current m = .ok ())
    (hstep : m.step = 1) (hlimit : server.blockBatchLimit ≠ 0)
    (h : Deliverable server remaining m) :
    Faithful server m
      ⟨(sent server.lib (written server remaining 0 (requestBatches server m))).map .block ++
        afterBlocks server remaining (requestBatches server m), true⟩ := by
  obtain ⟨ms, hms, hsame⟩ := mapM_encodeBlock_iff.mpr h.transmittable
  rw [sent_of_mapM hms, afterBlocks_of_mapM hms]
  have hflat := flatten_requestBatches (m := m) hlimit
  constructor
  · intro blks hstored
    have hadmitted : ∀ i < (requestBatches server m).length, Admitted server remaining (0 + i) := by
      intro i hi
      rw [Nat.zero_add]
      exact (h.admitted (by rw [hstored]; rfl)).2 i hi
    have hwritten := written_of_stored hadmitted (hflat.symm ▸ hstored)
    have hnil := (ending_eq_nil_iff 0 _).mpr ⟨hadmitted, by rw [hwritten, hflat, hstored]⟩
    rw [hwritten] at hsame
    refine ⟨ms, by rw [hnil, List.append_nil], hsame, ?_⟩
    rw [hnil, List.append_nil]
    exact sendBodiesByRangeRequest_eq hvalid hstep hsame hstored
  · intro hstored
    obtain ⟨k, hk⟩ := written_prefix server remaining 0 (requestBatches server m)
    rw [hflat] at hk
    rcases ending_cases server remaining 0 (requestBatches server m) with hnil | ⟨code, reason, herror⟩
    · have hall := ((ending_eq_nil_iff 0 _).mp hnil).2
      rw [hflat, hstored] at hall
      cases hall
    · exact ⟨k, _, ms, code, reason, hk, hsame, by rw [herror]⟩

theorem written_of_limit_zero (hlimit : server.blockBatchLimit = 0) :
    written server remaining 0 (requestBatches server m) = [] := by
  obtain ⟨k, hk⟩ := written_prefix server remaining 0 (requestBatches server m)
  have hempty : (requestBatches server m).flatten = [] := by
    rw [requestBatches, hlimit]
    exact flatten_batches_zero _ _ _
  rw [hempty, List.take_nil] at hk
  exact (Option.some.inj hk).symm

end Requests

/-- Server and client agree on every request whose blocks can be transmitted and whose
batches are admitted, and on no other. -/
theorem faithful_iff_deliverable (server : Server) (remaining : Nat → Nat) (m : RangeRequest)
    (hvalid : validateRangeRequest server.current m = .ok ()) (hstep : m.step = 1) :
    ∃ t, (∀ fuel, 1024 < fuel → bodiesByRangeRPCHandler server remaining fuel m = some t) ∧
      (Faithful server m t.stream ↔ Deliverable server remaining m) := by
  rcases eq_or_ne server.blockBatchLimit 0 with hlimit | hlimit
  · obtain ⟨e, he⟩ := bodiesByRangeRPCHandler_of_limit_zero hvalid hlimit
    refine ⟨_, fun fuel hfuel => he fuel (Nat.ne_of_gt (Nat.zero_lt_of_lt hfuel)), ?_⟩
    constructor
    · intro h
      refine ⟨?_, ?_⟩
      · rw [written_of_limit_zero hlimit]
        exact fun b hb => by cases hb
      · intro hsome
        obtain ⟨blks, hstored⟩ := Option.isSome_iff_exists.mp hsome
        obtain ⟨ms, heq, -⟩ := h.complete blks hstored
        have hchunks := congrArg Stream.chunks heq
        cases ms with
        | nil => cases hchunks
        | cons blk ms => cases hchunks
    · intro h
      refine ⟨?_, ?_⟩
      · intro blks hstored
        exact absurd hlimit (h.admitted (by rw [hstored]; rfl)).1
      · intro _
        exact ⟨0, [], [], _, _, rfl, .nil, rfl⟩
  · exact ⟨_, fun fuel hfuel => served_eq hvalid hlimit hfuel, deliverable_of_faithful hlimit,
      faithful_of_deliverable hvalid hstep hlimit⟩

theorem toyBlock_transmittable : ∀ b ∈ [toyBlock 0, toyBlock 1], Transmittable b := by
  intro b hb
  have hbounds : ∀ b ∈ [toyBlock 0, toyBlock 1],
      b.1.difficulty.isSome ∧ b.1.baseFee.isSome ∧ b.1.extra.bytes.length ≤ 117 ∧
        b.2.txs = [] ∧ encodedSize b ≤ maxChunkSize := by
    decide +kernel
  obtain ⟨hdifficulty, hbaseFee, hextra, htxs, hsize⟩ := hbounds b hb
  refine ⟨hdifficulty, hbaseFee, hextra, ?_, hsize⟩
  rw [htxs]
  exact fun tx htx => by cases htx

theorem toyServer_faithful :
    ∃ t, (∀ fuel, 1024 < fuel →
        bodiesByRangeRPCHandler (toyServer 2 1) (fun _ => 10) fuel ⟨0, 2, 1⟩ = some t) ∧
      Faithful (toyServer 2 1) ⟨0, 2, 1⟩ t.stream := by
  obtain ⟨t, ht, hiff⟩ := faithful_iff_deliverable (toyServer 2 1) (fun _ => 10) ⟨0, 2, 1⟩
    (by decide) rfl
  refine ⟨t, ht, hiff.mpr ⟨?_, ?_⟩⟩
  · have hwritten : written (toyServer 2 1) (fun _ => 10) 0
        (requestBatches (toyServer 2 1) ⟨0, 2, 1⟩) = [toyBlock 0, toyBlock 1] := by
      decide +kernel
    rw [hwritten]
    exact toyBlock_transmittable
  · intro _
    exact ⟨by decide, fun check _ => rfl⟩

def toyCheckpoint : StoredBlock :=
  ({ toyHeader 0 1 (toyAddress 1) ((toyAddress 1).bytes ++ (toyAddress 2).bytes) with
      baseFee := some 0 }, ⟨[], [], []⟩)

def toyCheckpointServer : Server where
  lib := toyPrimitives
  current := 0
  block n := if n = 0 then some toyCheckpoint else none
  blockBatchLimit := 64
  number_block n b h := by
    obtain ⟨rfl, h⟩ := Option.ite_none_right_eq_some.mp h
    cases h
    rfl
  height := by decide

/-- The block of a chain with two signers cannot be encoded: an incomplete chunk and an
error are written for it, although it is stored. -/
theorem checkpoint_not_streamed :
    validateRangeRequest toyCheckpointServer.current ⟨0, 1, 1⟩ = .ok () ∧
      ∃ t, bodiesByRangeRPCHandler toyCheckpointServer (fun _ => 64) 1025 ⟨0, 1, 1⟩ = some t ∧
        ¬ Faithful toyCheckpointServer ⟨0, 1, 1⟩ t.stream := by
  refine ⟨by decide, ?_⟩
  have hrun : (bodiesByRangeRPCHandler toyCheckpointServer (fun _ => 64) 1025 ⟨0, 1, 1⟩).map
      (fun t => t.stream.chunks.map fun c => (Chunk.message c).isSome) = some [false, false] := by
    decide +kernel
  obtain ⟨t, ht, hchunks⟩ := Option.map_eq_some_iff.mp hrun
  refine ⟨t, ht, ?_⟩
  intro h
  have hstored : (requested ⟨0, 1, 1⟩).mapM (blockAt toyCheckpointServer) =
      some [toyCheckpoint] := by
    decide +kernel
  obtain ⟨ms, heq, -⟩ := h.complete _ hstored
  rw [heq, List.map_map] at hchunks
  cases ms with
  | nil => cases hchunks
  | cons blk ms => cases hchunks

end N42.RangeFidelity
