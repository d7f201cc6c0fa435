import N42.RangeResponses

/-!
The blocks that a peer receives in response to a request for a range, and the amount that
is added to its bucket for them.
-/

namespace N42.RangeDelivery

open ChainTypes HeaderSealing BlockCodec SszMessages FallibleRuns
open BlockCounters RangeRequests RangeResponses

variable (server : Server) (remaining : Nat → Nat)

def Admitted (check : Nat) : Prop :=
  validateRequest remaining check server.blockBatchLimit = true

instance (check : Nat) : Decidable (Admitted server remaining check) :=
  inferInstanceAs (Decidable (_ = true))

/-- The blocks that are handed to the chunk writer while the stream is open: those of the
batches before the first one that is not admitted or has a block missing. -/
def written : Nat → List (List Nat) → List StoredBlock
  | _, [] => []
  | check, batch :: rest =>
    if Admitted server remaining check then
      match batch.mapM (blockAt server) with
      | none => []
      | some blks => blks ++ written (check + 1) rest
    else []

def ending : Nat → List (List Nat) → List Chunk
  | _, [] => []
  | check, batch :: rest =>
    if Admitted server remaining check then
      match batch.mapM (blockAt server) with
      | none => [.error .serverError RpcError.errInvalidBlockNr.text]
      | some _ => ending (check + 1) rest
    else [.error .invalidRequest RpcError.errRateLimited.text]

/-- What arrives of a list of blocks; writing ends at the first one that cannot be
encoded. -/
def sent (lib : Primitives) : List StoredBlock → List PbBlock
  | [] => []
  | b :: blks =>
    match encodeBlock lib b with
    | none => []
    | some m => m :: sent lib blks

/-- The numbers that are charged after a block has been found missing: of every batch those
from the missing one on, up to a batch that is complete or not admitted. -/
def lagging : Nat → List (List Nat) → List Nat
  | _, [] => []
  | check, batch :: rest =>
    if Admitted server remaining check then
      match batch.mapM (blockAt server) with
      | none =>
        batch.dropWhile (fun n => (blockAt server n).isSome) ++ lagging (check + 1) rest
      | some _ => []
    else []

def charged : Nat → List (List Nat) → List Nat
  | _, [] => []
  | check, batch :: rest =>
    if Admitted server remaining check then
      match batch.mapM (blockAt server) with
      | none => lagging server remaining check (batch :: rest)
      | some blks =>
        if (blks.mapM (encodeBlock server.lib)).isSome then charged (check + 1) rest else []
    else []

section Writing

variable {server}

theorem sent_of_mapM {lib : Primitives} {blks : List StoredBlock} {ms : List PbBlock}
    (h : blks.mapM (encodeBlock lib) = some ms) : sent lib blks = ms := by
  rw [mapM_eq_some_iff] at h
  induction h with
  | nil => rfl
  | cons hm _ ih => rw [sent, hm, ih]

theorem sent_append {lib : Primitives} (blks rest : List StoredBlock) :
    sent lib (blks ++ rest) =
      sent lib blks ++ if (blks.mapM (encodeBlock lib)).isSome then sent lib rest else [] := by
  induction blks with
  | nil => rfl
  | cons b blks ih =>
    rw [List.cons_append, sent, sent, List.mapM_cons]
    cases encodeBlock lib b with
    | none => rfl
    | some m =>
      dsimp only
      rw [ih, List.cons_append]
      cases blks.mapM (encodeBlock lib) with
      | none => rfl
      | some ms => rfl

theorem writeBlocks_open (cs : List Chunk) (blks : List StoredBlock) :
    writeBlocks server blks ⟨cs, false⟩ =
      if (blks.mapM (encodeBlock server.lib)).isSome then
        .ok ⟨cs ++ (sent server.lib blks).map .block, false⟩
      else .error ⟨cs ++ ((sent server.lib blks).map .block ++
        [.broken, .error .serverError RpcError.errGeneric.text]), true⟩ := by
  induction blks generalizing cs with
  | nil => simp [writeBlocks, sent]
  | cons b blks ih =>
    rw [writeBlocks, chunkBlockWriter, if_neg Bool.false_ne_true, sent, List.mapM_cons]
    cases encodeBlock server.lib b with
    | none => simp [writeErrorResponseToStream, Stream.put, Stream.close]
    | some m =>
      dsimp only [Stream.put]
      rw [ih]
      cases blks.mapM (encodeBlock server.lib) with
      | none => simp
      | some ms => simp

theorem writeBlocks_closed {s : Stream} (h : s.closed = true) {blks : List StoredBlock}
    (hne : blks ≠ []) : writeBlocks server blks s = .error s := by
  cases blks with
  | nil => exact absurd rfl hne
  | cons b blks =>
    rw [writeBlocks, chunkBlockWriter, if_pos h]
    dsimp only
    rw [writeErrorResponseToStream, if_pos h]

end Writing

section Responses

variable {server remaining}

theorem respond_closed {bs : List (List Nat)} (hne : ∀ batch ∈ bs, batch ≠ []) (check : Nat)
    {s : Stream} (h : s.closed = true) (c : Nat) :
    respond server remaining check bs ⟨s, c⟩ =
      ⟨s, c + (lagging server remaining check bs).length⟩ := by
  have hclose : s.close = s := by
    rw [Stream.close, ← h]
  have herror : ∀ code e, writeErrorResponseToStream code e s = s := by
    intro code e
    rw [writeErrorResponseToStream, if_pos h]
  induction bs generalizing check c with
  | nil =>
    rw [respond, hclose]
    rfl
  | cons batch rest ih =>
    rw [respond, lagging, herror, herror]
    split
    · rename_i hrefused
      have hstop : ¬ Admitted server remaining check := hrefused
      rw [if_neg hstop]
      rfl
    · rename_i hadmitted
      have hpass : Admitted server remaining check := not_not.mp hadmitted
      rw [if_pos hpass]
      cases hfound : batch.mapM (blockAt server) with
      | none =>
        dsimp only
        rw [ih (fun b hb => hne b (List.mem_cons_of_mem _ hb)), List.length_append, missing,
          Nat.add_assoc]
      | some blks =>
        have hblks : blks ≠ [] := by
          rintro rfl
          exact hne batch List.mem_cons_self
            (List.forall₂_nil_right_iff.mp (mapM_eq_some_iff.mp hfound))
        dsimp only
        rw [writeBlocks_closed h hblks]
        rfl

theorem respond_open {bs : List (List Nat)} (hne : ∀ batch ∈ bs, batch ≠ []) (check : Nat)
    (cs : List Chunk) (c : Nat) :
    respond server remaining check bs ⟨⟨cs, false⟩, c⟩ =
      ⟨⟨cs ++ ((sent server.lib (written server remaining check bs)).map .block ++
          if ((written server remaining check bs).mapM (encodeBlock server.lib)).isSome then
            ending server remaining check bs
          else [.broken, .error .serverError RpcError.errGeneric.text]), true⟩,
        c + (charged server remaining check bs).length⟩ := by
  induction bs generalizing check cs c with
  | nil => simp [respond, Stream.close, written, sent, ending, charged]
  | cons batch rest ih =>
    have hrest : ∀ batch ∈ rest, batch ≠ [] := fun b hb => hne b (List.mem_cons_of_mem _ hb)
    rw [respond, written, ending, charged]
    split
    · rename_i hrefused
      have hstop : ¬ Admitted server remaining check := hrefused
      rw [if_neg hstop, if_neg hstop, if_neg hstop]
      rfl
    · rename_i hadmitted
      have hpass : Admitted server remaining check := not_not.mp hadmitted
      rw [if_pos hpass, if_pos hpass, if_pos hpass]
      cases hfound : batch.mapM (blockAt server) with
      | none =>
        dsimp only
        rw [respond_closed hrest (check + 1) (by rfl) _, lagging, if_pos hpass, hfound]
        dsimp only
        rw [List.length_append, missing, Nat.add_assoc]
        rfl
      | some blks =>
        dsimp only
        rw [writeBlocks_open, sent_append, List.mapM_append]
        cases hencoded : blks.mapM (encodeBlock server.lib) with
        | none => simp
        | some ms =>
          rw [if_pos (by rfl), if_pos (by rfl)]
          dsimp only
          rw [ih hrest]
          cases (written server remaining (check + 1) rest).mapM (encodeBlock server.lib) with
          | none => simp
          | some ms' => simp

end Responses

def Chunk.message : Chunk → Option PbBlock
  | .block m => some m
  | _ => none

def streamed (s : Stream) : List PbBlock :=
  s.chunks.filterMap Chunk.message

section Chunks

variable {server remaining}

theorem filterMap_message_block (ms : List PbBlock) :
    (ms.map Chunk.block).filterMap Chunk.message = ms := by
  rw [List.filterMap_map]
  exact List.filterMap_some

theorem ending_cases (server : Server) (remaining : Nat → Nat) (check : Nat) (bs : List (List Nat)) :
    ending server remaining check bs = [] ∨
      ∃ code reason, ending server remaining check bs = [.error code reason] := by
  induction bs generalizing check with
  | nil => exact .inl rfl
  | cons batch rest ih =>
    rw [ending]
    split
    · cases batch.mapM (blockAt server) with
      | none => exact .inr ⟨_, _, rfl⟩
      | some blks => exact ih (check + 1)
    · exact .inr ⟨_, _, rfl⟩

theorem filterMap_message_ending (check : Nat) (bs : List (List Nat)) :
    (ending server remaining check bs).filterMap Chunk.message = [] := by
  rcases ending_cases server remaining check bs with h | ⟨code, reason, h⟩
  · rw [h]
    rfl
  · rw [h]
    rfl

theorem filterMap_message_append (ms : List PbBlock) {cs : List Chunk}
    (hcs : cs.filterMap Chunk.message = []) :
    (ms.map Chunk.block ++ cs).filterMap Chunk.message = ms := by
  rw [List.filterMap_append, filterMap_message_block, hcs, List.append_nil]

theorem append_inj_of_message {ms ms' : List PbBlock} {cs cs' : List Chunk}
    (hcs : cs.filterMap Chunk.message = []) (hcs' : cs'.filterMap Chunk.message = [])
    (h : ms.map Chunk.block ++ cs = ms'.map Chunk.block ++ cs') : ms = ms' ∧ cs = cs' := by
  have hms : ms = ms' := by
    rw [← filterMap_message_append ms hcs, ← filterMap_message_append ms' hcs', h]
  subst hms
  exact ⟨rfl, List.append_cancel_left h⟩

end Chunks

def Balanced (m : RangeRequest) : Prop :=
  validateRangeRequest server.current m = .ok () → server.blockBatchLimit ≠ 0 →
    (charged server remaining 0 (requestBatches server m)).length =
      (sent server.lib (written server remaining 0 (requestBatches server m))).length

section Accounting

variable {server remaining} {m : RangeRequest}

def afterBlocks (server : Server) (remaining : Nat → Nat) (bs : List (List Nat)) : List Chunk :=
  if ((written server remaining 0 bs).mapM (encodeBlock server.lib)).isSome then
    ending server remaining 0 bs
  else [.broken, .error .serverError RpcError.errGeneric.text]

theorem filterMap_message_afterBlocks (server : Server) (remaining : Nat → Nat)
    (bs : List (List Nat)) :
    (afterBlocks server remaining bs).filterMap Chunk.message = [] := by
  rw [afterBlocks]
  split
  · exact filterMap_message_ending 0 bs
  · rfl

theorem served_eq (hvalid : validateRangeRequest server.current m = .ok ())
    (hlimit : server.blockBatchLimit ≠ 0) {fuel : Nat} (hfuel : 1024 < fuel) :
    bodiesByRangeRPCHandler server remaining fuel m =
      some ⟨⟨(sent server.lib (written server remaining 0 (requestBatches server m))).map .block ++
          afterBlocks server remaining (requestBatches server m), true⟩,
        (charged server remaining 0 (requestBatches server m)).length⟩ := by
  have hne : ∀ batch ∈ requestBatches server m, batch ≠ [] := fun batch hmem =>
    ne_nil_of_mem_batches (fun h => hlimit (UInt64.toNat_inj.mp h)) hmem
  rw [bodiesByRangeRPCHandler_eq hvalid hlimit hfuel, Stream.new, respond_open hne 0 [] 0,
    List.nil_append, Nat.zero_add, afterBlocks]

end Accounting

section Toys

def toyBlock (number : Nat) : StoredBlock :=
  ({ toyHeader number 1 (toyAddress 1) with baseFee := some 0 }, ⟨[], [], []⟩)

def toyChain (length : Nat) (n : UInt64) : Option StoredBlock :=
  if n.toNat < length then some (toyBlock n.toNat) else none

theorem number_toyChain (length : Nat) (n : UInt64) (b : StoredBlock)
    (h : toyChain length n = some b) : b.1.number.toNat = n.toNat := by
  obtain ⟨-, h⟩ := Option.ite_none_right_eq_some.mp h
  cases h
  exact toNat_word (Nat.lt_of_lt_of_le n.toNat_lt (by decide))

def toyServer (length : Nat) (limit : UInt64) : Server where
  lib := toyPrimitives
  current := 2
  block := toyChain length
  blockBatchLimit := limit
  number_block := number_toyChain length
  height := by decide

end Toys

end N42.RangeDelivery
