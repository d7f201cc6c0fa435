import N42.RangeRequests

/-!
What is written in response to a request for a range of blocks.  The loops over 256-bit
counters are first shown to go through the requested numbers batch by batch; the response
and what is charged for it are then read off the list of batches.
-/

namespace N42.RangeResponses

open TransactionCodec BlockCounters RangeRequests

variable (server : Server) (remaining : Nat → Nat)

def blockAt (n : Nat) : Option StoredBlock :=
  server.block (UInt64.ofNat n)

def missing (numbers : List Nat) : Nat :=
  (numbers.dropWhile fun n => (blockAt server n).isSome).length

def batches (limit : Nat) : Nat → Nat → Nat → List (List Nat)
  | 0, _, _ => []
  | fuel + 1, lo, n =>
    if n = 0 then []
    else List.range' lo (min limit n) :: batches limit fuel (lo + limit) (n - limit)

def respond : Nat → List (List Nat) → Served → Served
  | _, [], t => { t with stream := t.stream.close }
  | check, batch :: rest, t =>
    if ¬ validateRequest remaining check server.blockBatchLimit then
      { t with stream := writeErrorResponseToStream .invalidRequest .errRateLimited t.stream }
    else
      match batch.mapM (blockAt server) with
      | none =>
        respond (check + 1) rest
          ⟨writeErrorResponseToStream .serverError .errInvalidBlockNr t.stream,
            t.charged + missing server batch⟩
      | some blks =>
        match writeBlocks server blks t.stream with
        | .error stream => { t with stream }
        | .ok stream => respond (check + 1) rest { t with stream }

section Batches

theorem flatten_batches {limit fuel lo n : Nat} (hlimit : limit ≠ 0) (hfuel : n ≤ fuel) :
    (batches limit fuel lo n).flatten = List.range' lo n := by
  induction fuel generalizing lo n with
  | zero =>
    obtain rfl : n = 0 := by omega
    rfl
  | succ fuel ih =>
    rw [batches]
    split
    · rename_i hn
      rw [hn]
      rfl
    · rename_i hn
      rw [List.flatten_cons, ih (by omega)]
      rcases Nat.le_total limit n with hle | hle
      · rw [min_eq_left hle, List.range'_append_1]
        congr 1
        omega
      · rw [min_eq_right hle, Nat.sub_eq_zero_of_le hle, List.range'_zero, List.append_nil]

theorem flatten_batches_zero (fuel lo n : Nat) : (batches 0 fuel lo n).flatten = [] := by
  induction fuel generalizing lo n with
  | zero => rfl
  | succ fuel ih =>
    rw [batches]
    split
    · rfl
    · rw [List.flatten_cons, Nat.zero_min, List.range'_zero, ih, List.append_nil]

theorem ne_nil_of_mem_batches {limit fuel lo n : Nat} (hlimit : limit ≠ 0) {batch : List Nat}
    (h : batch ∈ batches limit fuel lo n) : batch ≠ [] := by
  induction fuel generalizing lo n with
  | zero => cases h
  | succ fuel ih =>
    rw [batches] at h
    split at h
    · cases h
    · rename_i hn
      rcases List.mem_cons.mp h with rfl | h
      · intro hnil
        have hlen := congrArg List.length hnil
        rw [List.length_range', List.length_nil] at hlen
        omega
      · exact ih h

end Batches

section Retrieving

variable {server}

theorem missing_cons_of_isSome {n : Nat} {numbers : List Nat} {b : StoredBlock}
    (h : blockAt server n = some b) : missing server (n :: numbers) = missing server numbers := by
  rw [missing, List.dropWhile_cons_of_pos (by rw [h]; rfl), missing]

theorem missing_cons_of_none {n : Nat} {numbers : List Nat} (h : blockAt server n = none) :
    missing server (n :: numbers) = numbers.length + 1 := by
  rw [missing, List.dropWhile_cons_of_neg (by rw [h]; decide), List.length_cons]

theorem retrieveBlocks_eq {hi lo k fuel : Nat} (blks : List StoredBlock) (hk : lo + k = hi + 1)
    (hhi : hi < 2 ^ 64) (hfuel : k < fuel) :
    retrieveBlocks server (word hi) 1 fuel (word lo) blks =
      some (((List.range' lo k).mapM (blockAt server)).map (fun found => blks ++ found),
        word (hi + 1 - (if ((List.range' lo k).mapM (blockAt server)).isSome then 0
          else missing server (List.range' lo k)))) := by
  induction k generalizing lo fuel blks with
  | zero =>
    obtain ⟨fuel, rfl⟩ := Nat.exists_eq_succ_of_ne_zero (Nat.ne_of_gt hfuel)
    rw [retrieveBlocks, if_neg]
    · have hlo : lo = hi + 1 := by omega
      simp [hlo]
    · rw [word_le_word_iff (by omega) (by omega)]
      omega
  | succ k ih =>
    obtain ⟨fuel, rfl⟩ := Nat.exists_eq_succ_of_ne_zero (Nat.ne_of_gt (Nat.zero_lt_of_lt hfuel))
    rw [retrieveBlocks, if_pos ((word_le_word_iff (by omega) (by omega)).mpr (by omega)),
      low64_word (by omega), List.range'_succ, List.mapM_cons]
    cases hblock : blockAt server lo with
    | none =>
      rw [blockAt] at hblock
      rw [hblock]
      have hslot : hi + 1 - (k + 1) = lo := by omega
      simp [missing_cons_of_none hblock, hslot]
    | some b =>
      rw [missing_cons_of_isSome hblock]
      rw [blockAt] at hblock
      rw [hblock]
      have hnext : addUint64 (word lo) 1 = word (lo + 1) := addUint64_word lo 1
      simp only [hnext, ih (blks ++ [b]) (by omega : lo + 1 + k = hi + 1) (by omega : k < fuel)]
      cases (List.range' (lo + 1) k).mapM (blockAt server) with
      | none => rfl
      | some found => simp

theorem missing_le (server : Server) (numbers : List Nat) : missing server numbers ≤ numbers.length := by
  rw [missing]
  exact (List.dropWhile_suffix _).length_le

end Retrieving

section Serving

variable {server remaining}

theorem amount_eq {hi k : Nat} (hk : k ≤ hi + 1) (hhi : hi < 2 ^ 64) (hk' : k ≤ 1024) :
    (if word (hi + 1 - k) ≤ word hi then
      (1 + low64 ((word hi - word (hi + 1 - k)) / BitVec.ofNat 256 (1 : UInt64).toNat)).toNat
    else 0) = k := by
  split
  · rename_i hle
    rw [word_le_word_iff (by omega) (by omega)] at hle
    have hone : BitVec.ofNat 256 (1 : UInt64).toNat = 1#256 := rfl
    rw [hone, BitVec.udiv_one, word_sub_word (by omega) (by omega), low64_word (by omega),
      UInt64.toNat_add, UInt64.toNat_ofNat']
    have hlt : (1 : UInt64).toNat = 1 := rfl
    omega
  · rename_i hle
    rw [word_le_word_iff (by omega) (by omega)] at hle
    omega

theorem min_word {m n : Nat} (hm : m < 2 ^ 65) (hn : n < 2 ^ 65) :
    (if word m > word n then word n else word m) = word (min m n) := by
  split
  · rename_i h
    rw [min_eq_right ((word_lt_word_iff hn hm).mp h).le]
  · rename_i h
    rw [gt_iff_lt, word_lt_word_iff hn hm] at h
    rw [min_eq_left (not_lt.mp h)]

theorem writeBodiesRangeToStream_eq (server : Server) {hi lo k fuel : Nat} (s : Stream) (hk : lo + k = hi + 1)
    (hhi : hi < 2 ^ 64) (hfuel : k < fuel) :
    (∀ blks, (List.range' lo k).mapM (blockAt server) = some blks →
      writeBodiesRangeToStream server fuel (word lo) (word hi) 1 s =
        some (writeBlocks server blks s, word (hi + 1 - 0))) ∧
    ((List.range' lo k).mapM (blockAt server) = none →
      writeBodiesRangeToStream server fuel (word lo) (word hi) 1 s =
        some (.ok (writeErrorResponseToStream .serverError .errInvalidBlockNr s),
          word (hi + 1 - missing server (List.range' lo k)))) := by
  rw [writeBodiesRangeToStream, retrieveBlocks_eq [] hk hhi hfuel]
  constructor
  · intro blks hblks
    rw [hblks]
    rfl
  · intro hnone
    rw [hnone]
    rfl

theorem serveBatches_eq (hlimit : server.blockBatchLimit ≠ 0) {n lo fuel : Nat} (check : Nat)
    (t : Served) (hn : n ≠ 0) (hcount : n ≤ 1024) (hlo : lo + n ≤ 2 ^ 64) (hfuel : n < fuel)
    (bound : Nat) (hbound : n ≤ bound) :
    serveBatches server remaining 1 (word (lo + n - 1)) fuel check (word lo)
        (word (lo + min server.blockBatchLimit.toNat n - 1)) t =
      some (respond server remaining check
        (batches server.blockBatchLimit.toNat bound lo n) t) := by
  have hpos : server.blockBatchLimit.toNat ≠ 0 := by
    intro h
    exact hlimit (UInt64.toNat_inj.mp h)
  have hone : (1 : UInt64).toNat = 1 := rfl
  have hsub := toNat_one_mul_sub_one hpos
  have hlast := server.blockBatchLimit.toNat_lt
  induction bound generalizing n lo fuel check t with
  | zero => omega
  | succ bound ih =>
    obtain ⟨fuel, rfl⟩ := Nat.exists_eq_succ_of_ne_zero (Nat.ne_of_gt (Nat.zero_lt_of_lt hfuel))
    obtain ⟨k, hk⟩ : ∃ k, min server.blockBatchLimit.toNat n = k := ⟨_, rfl⟩
    obtain ⟨hi, hhi⟩ : ∃ hi, lo + k = hi + 1 := ⟨lo + k - 1, by omega⟩
    have hwidth : ¬ low64 (word hi - word lo) > rangeLimit := by
      rw [word_sub_word (by omega) (by omega), low64_word (by omega), gt_iff_lt,
        UInt64.lt_iff_toNat_lt, UInt64.toNat_ofNat', rangeLimit]
      have hlimit : (1024 : UInt64).toNat = 1024 := rfl
      omega
    have hbegin : word lo ≤ word (lo + n - 1) :=
      (word_le_word_iff (by omega) (by omega)).mpr (by omega)
    rw [hk, show lo + k - 1 = hi by omega, serveBatches, if_neg (not_not.mpr hbegin), batches,
      if_neg hn, hk, respond]
    cases validateRequest remaining check server.blockBatchLimit with
    | false => rfl
    | true =>
      rw [if_neg (by decide), if_neg hwidth, if_neg (by decide)]
      obtain ⟨hstored, hgap⟩ := writeBodiesRangeToStream_eq server t.stream hhi
        (by omega) (by omega : k < fuel + 1)
      -- after a batch the loop goes on with the numbers that are left, if there are any
      have hrest : ∀ t : Served,
          (if word (hi + 1) > word (lo + n - 1) then some { t with stream := t.stream.close }
          else serveBatches server remaining 1 (word (lo + n - 1)) fuel (check + 1) (word (hi + 1))
            (word (min (hi + 1 + (server.blockBatchLimit.toNat - 1)) (lo + n - 1))) t) =
          some (respond server remaining (check + 1) (batches server.blockBatchLimit.toNat
            bound (lo + server.blockBatchLimit.toNat) (n - server.blockBatchLimit.toNat)) t) := by
        intro t
        split
        · rename_i hover
          rw [gt_iff_lt, word_lt_word_iff (by omega) (by omega)] at hover
          rw [Nat.sub_eq_zero_of_le (by omega)]
          cases bound with
          | zero => rfl
          | succ bound => rfl
        · rename_i hover
          rw [gt_iff_lt, word_lt_word_iff (by omega) (by omega)] at hover
          have hnext := ih (check + 1) t (by omega : n - server.blockBatchLimit.toNat ≠ 0)
            (by omega) (by omega : lo + server.blockBatchLimit.toNat +
              (n - server.blockBatchLimit.toNat) ≤ 2 ^ 64) (by omega : _ < fuel) (by omega)
          rw [← hnext]
          congr 2
          · omega
          · omega
          · omega
      cases hfound : (List.range' lo k).mapM (blockAt server) with
      | none =>
        have hmissing := missing_le server (List.range' lo k)
        rw [List.length_range'] at hmissing
        rw [hgap hfound]
        dsimp only
        rw [amount_eq (by omega) (by omega) (by omega), addUint64_word, addUint64_word, hone,
          hsub, min_word (by omega) (by omega)]
        exact hrest _
      | some blks =>
        rw [hstored blks hfound]
        dsimp only
        cases writeBlocks server blks t.stream with
        | error stream => rfl
        | ok stream =>
          dsimp only
          rw [amount_eq (by omega) (by omega) (by omega), addUint64_word, addUint64_word,
            hone, hsub, min_word (by omega) (by omega)]
          exact hrest _

theorem bounds_of_validateRangeRequest {m : RangeRequest}
    (h : validateRangeRequest server.current m = .ok ()) :
    (m.count.toNat ≠ 0 ∧ m.count.toNat ≤ 1024) ∧ m.step ≠ 0 ∧
      m.startBlockNumber.toNat + 1024 ≤ 2 ^ 64 := by
  have hmax : maxRequestBlocks.toNat = 1024 := rfl
  have hbuffer : (rangeLimit * 2).toNat = 2048 := rfl
  have hheight := server.height
  rw [validateRangeRequest] at h
  split at h
  · cases h
  · rename_i hcount
    split at h
    · cases h
    · rename_i hstep
      split at h
      · cases h
      · rename_i hstart
        have hlast : m.startBlockNumber.toNat ≤ server.current.toNat + 2048 := by
          rw [gt_iff_lt, BitVec.not_lt, ← word_toNat server.current, addUint64_word,
            BitVec.le_def, toNat_word (by omega), hbuffer] at hstart
          exact hstart
        have hzero : m.count.toNat ≠ 0 := fun h0 => hcount (.inl (UInt64.toNat_inj.mp h0))
        have hle : m.count ≤ maxRequestBlocks := by
          rw [← UInt64.not_lt]
          exact fun hlt => hcount (.inr hlt)
        rw [UInt64.le_iff_toNat_le, hmax] at hle
        exact ⟨⟨hzero, hle⟩, fun h0 => hstep (.inl h0), by omega⟩

end Serving

def requested (m : RangeRequest) : List Nat :=
  List.range' m.startBlockNumber.toNat m.count.toNat

def requestBatches (m : RangeRequest) : List (List Nat) :=
  batches server.blockBatchLimit.toNat m.count.toNat m.startBlockNumber.toNat m.count.toNat

section Handling

variable {server remaining} {m : RangeRequest}

theorem step_eq_one {step : UInt64} (h : step ≠ 0) : (if step > 1 then 1 else step) = 1 := by
  split
  · rfl
  · rename_i hle
    rw [gt_iff_lt, UInt64.not_lt, UInt64.le_iff_toNat_le] at hle
    have hone : (1 : UInt64).toNat = 1 := rfl
    have hzero : step.toNat ≠ 0 := fun h0 => h (UInt64.toNat_inj.mp h0)
    apply UInt64.toNat_inj.mp
    omega

theorem bodiesByRangeRPCHandler_eq (hvalid : validateRangeRequest server.current m = .ok ())
    (hlimit : server.blockBatchLimit ≠ 0) {fuel : Nat} (hfuel : 1024 < fuel) :
    bodiesByRangeRPCHandler server remaining fuel m =
      some (respond server remaining 0 (requestBatches server m) ⟨.new, 0⟩) := by
  obtain ⟨⟨hcount, hcount'⟩, hstep, hstart⟩ := bounds_of_validateRangeRequest hvalid
  have hpos : server.blockBatchLimit.toNat ≠ 0 := fun h => hlimit (UInt64.toNat_inj.mp h)
  have hmin : (if m.count > server.blockBatchLimit then server.blockBatchLimit
      else m.count).toNat = min server.blockBatchLimit.toNat m.count.toNat := by
    split
    · rename_i h
      rw [gt_iff_lt, UInt64.lt_iff_toNat_lt] at h
      omega
    · rename_i h
      rw [gt_iff_lt, UInt64.not_lt, UInt64.le_iff_toNat_le] at h
      omega
  rw [bodiesByRangeRPCHandler, hvalid]
  dsimp only
  rw [step_eq_one hstep, ← word_toNat m.startBlockNumber, addUint64_word, addUint64_word,
    toNat_one_mul_sub_one hcount, toNat_one_mul_sub_one (by rw [hmin]; omega), hmin,
    ← Nat.add_sub_assoc (by omega), ← Nat.add_sub_assoc (by omega),
    serveBatches_eq hlimit 0 _ hcount hcount' (by omega) (by omega) m.count.toNat le_rfl,
    requestBatches]

theorem bodiesByRangeRPCHandler_of_limit_zero
    (hvalid : validateRangeRequest server.current m = .ok ())
    (hlimit : server.blockBatchLimit = 0) :
    ∃ e : RpcError, ∀ fuel, fuel ≠ 0 → bodiesByRangeRPCHandler server remaining fuel m =
      some ⟨⟨[.error .invalidRequest e.text], true⟩, 0⟩ := by
  obtain ⟨⟨hcount, hcount'⟩, hstep, hstart⟩ := bounds_of_validateRangeRequest hvalid
  have hmore : m.count > 0 := UInt64.pos_iff_ne_zero.mpr fun h => hcount (by rw [h]; rfl)
  have hend : (1 * ((0 : UInt64) - 1)).toNat = 2 ^ 64 - 1 := rfl
  have hwide : low64 (word (m.startBlockNumber.toNat + (2 ^ 64 - 1)) -
      word m.startBlockNumber.toNat) > rangeLimit := by
    rw [word_sub_word (by omega) (by omega), low64_word (by omega), Nat.add_sub_cancel_left]
    decide
  refine ⟨if validateRequest remaining 0 server.blockBatchLimit then .errInvalidRequest
    else .errRateLimited, ?_⟩
  intro fuel hfuel
  obtain ⟨fuel, rfl⟩ := Nat.exists_eq_succ_of_ne_zero hfuel
  rw [bodiesByRangeRPCHandler, hvalid]
  dsimp only
  rw [step_eq_one hstep, hlimit, if_pos hmore, ← word_toNat m.startBlockNumber, addUint64_word,
    addUint64_word, toNat_one_mul_sub_one hcount, hend, serveBatches, hlimit,
    if_neg (not_not.mpr ((word_le_word_iff (by omega) (by omega)).mpr (by omega))), if_pos hwide]
  cases validateRequest remaining 0 0 with
  | false => rfl
  | true => rfl

end Handling

end N42.RangeResponses
