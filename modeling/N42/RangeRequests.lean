import N42.BlockCounters
import N42.SszMessages

/-!
Requests for ranges of blocks.  The server walks over the range in batches, with counters
that are advanced in place, and writes one chunk for every block; the client reads the
chunks until the stream ends.  The amounts that the rate limiter has left for the peer are
arbitrary, since they depend on the clock and on other requests.
-/

namespace N42.RangeRequests

open ChainTypes BlockHeader BlockCounters WordMessages HeaderCodec
open TransactionCodec BlockCodec SszMessages

abbrev StoredBlock := Header × Body

structure RangeRequest where
  startBlockNumber : Uint256
  count : UInt64
  step : UInt64
deriving DecidableEq

def rangeLimit : UInt64 :=
  1024

def maxRequestBlocks : UInt64 :=
  1024

inductive RpcError where
  | errInvalidRequest
  | errRateLimited
  | errInvalidBlockNr
  | errGeneric
deriving DecidableEq

def RpcError.text : RpcError → String
  | errInvalidRequest => "invalid range, step or count"
  | errRateLimited => "rate limited"
  | errInvalidBlockNr => "invalid block number"
  | errGeneric => "internal service error"

inductive ResponseCode where
  | invalidRequest
  | serverError
deriving DecidableEq

/-- What is written for one block, or instead of one.  The chunk of a block that cannot be
encoded ends after its result and its context bytes. -/
inductive Chunk where
  | block (m : PbBlock)
  | broken
  | error (code : ResponseCode) (reason : String)

structure Stream where
  chunks : List Chunk
  closed : Bool

namespace Stream

def new : Stream :=
  ⟨[], false⟩

def put (s : Stream) (c : Chunk) : Stream :=
  { s with chunks := s.chunks ++ [c] }

def close (s : Stream) : Stream :=
  { s with closed := true }

end Stream

/-- `writeErrorResponseToStream`, which closes the stream if the error could be written. -/
def writeErrorResponseToStream (code : ResponseCode) (e : RpcError) (s : Stream) : Stream :=
  if s.closed then s else (s.put (.error code e.text)).close

/-- A node that serves requests: the number of its current block, the blocks of its
canonical chain, and its limit for one batch.  The chain is far from the end of the
numbers under which blocks are stored. -/
structure Server where
  lib : Primitives
  current : Uint256
  block : UInt64 → Option StoredBlock
  blockBatchLimit : UInt64
  number_block : ∀ n b, block n = some b → b.1.number.toNat = n.toNat
  height : current.toNat + 3072 ≤ 2 ^ 64

def validateRangeRequest (current : Uint256) (r : RangeRequest) : Except RpcError Unit :=
  let highestExpectedBlockNumber := addUint64 current (rangeLimit * 2)
  if r.count = 0 ∨ r.count > maxRequestBlocks then .error .errInvalidRequest
  else if r.step = 0 ∨ r.step > rangeLimit then .error .errInvalidRequest
  else if r.startBlockNumber > highestExpectedBlockNumber then .error .errInvalidRequest
  else
    let endSlot := addUint64 r.startBlockNumber (r.step * (r.count - 1))
    if low64 endSlot - low64 r.startBlockNumber > rangeLimit then .error .errInvalidRequest
    else .ok ()

section Writing

variable (server : Server)

def chunkBlockWriter (b : StoredBlock) (s : Stream) : Except Stream Stream :=
  if s.closed then .error s
  else match encodeBlock server.lib b with
    | none => .error (s.put .broken)
    | some m => .ok (s.put (.block m))

def writeBlocks : List StoredBlock → Stream → Except Stream Stream
  | [], s => .ok s
  | b :: blks, s =>
    match chunkBlockWriter server b s with
    | .error s => .error (writeErrorResponseToStream .serverError .errGeneric s)
    | .ok s => writeBlocks blks s

/-- The loop that looks up the blocks of a batch.  The slot is a variable of the caller and
is left where the loop ends. -/
def retrieveBlocks (endSlot : Uint256) (step : UInt64) :
    Nat → Uint256 → List StoredBlock → Option (Option (List StoredBlock) × Uint256)
  | 0, _, _ => none
  | fuel + 1, startSlot, blks =>
    if startSlot ≤ endSlot then
      match server.block (low64 startSlot) with
      | none => some (none, startSlot)
      | some b => retrieveBlocks endSlot step fuel (addUint64 startSlot step) (blks ++ [b])
    else some (some blks, startSlot)

/-- The stream after a batch, as an error if the handler gives up, and the slot. -/
def writeBodiesRangeToStream (fuel : Nat) (startSlot endSlot : Uint256) (step : UInt64)
    (s : Stream) : Option (Except Stream Stream × Uint256) := do
  let (found, startSlot) ← retrieveBlocks server endSlot step fuel startSlot []
  match found with
  | none => return (.ok (writeErrorResponseToStream .serverError .errInvalidBlockNr s), startSlot)
  | some blks => return (writeBlocks server blks s, startSlot)

end Writing

structure Served where
  stream : Stream
  charged : Nat

section Serving

variable (server : Server) (remaining : Nat → Nat)

/-- `validateRequest` at the check with this index; a request counts for one at least. -/
def validateRequest (check : Nat) (amt : UInt64) : Bool :=
  decide ((if amt = 0 then 1 else amt).toNat ≤ remaining check)

def serveBatches (step : UInt64) (endReqBlockNumber : Uint256) :
    Nat → Nat → Uint256 → Uint256 → Served → Option Served
  | 0, _, _, _, _ => none
  | fuel + 1, check, startBlockNumber, endBlockNumber, t =>
    if ¬ startBlockNumber ≤ endReqBlockNumber then
      some { t with stream := t.stream.close }
    else if ¬ validateRequest remaining check server.blockBatchLimit then
      some { t with
        stream := writeErrorResponseToStream .invalidRequest .errRateLimited t.stream }
    else if low64 (endBlockNumber - startBlockNumber) > rangeLimit then
      some { t with
        stream := writeErrorResponseToStream .invalidRequest .errInvalidRequest t.stream }
    else
      match writeBodiesRangeToStream server (fuel + 1) startBlockNumber endBlockNumber step
          t.stream with
      | none => none
      | some (.error stream, _) => some { t with stream }
      | some (.ok stream, startBlockNumber) =>
        let amount := if startBlockNumber ≤ endBlockNumber then
          (1 + low64 ((endBlockNumber - startBlockNumber) / BitVec.ofNat 256 step.toNat)).toNat
        else 0
        let t : Served := ⟨stream, t.charged + amount⟩
        let startBlockNumber := addUint64 endBlockNumber step
        let endBlockNumber := addUint64 startBlockNumber (step * (server.blockBatchLimit - 1))
        let endBlockNumber :=
          if endBlockNumber > endReqBlockNumber then endReqBlockNumber else endBlockNumber
        if startBlockNumber > endReqBlockNumber then
          some { t with stream := t.stream.close }
        else
          serveBatches step endReqBlockNumber fuel (check + 1) startBlockNumber endBlockNumber t

def bodiesByRangeRPCHandler (fuel : Nat) (m : RangeRequest) : Option Served :=
  match validateRangeRequest server.current m with
  | .error e => some ⟨writeErrorResponseToStream .invalidRequest e .new, 0⟩
  | .ok () =>
    let step := if m.step > 1 then 1 else m.step
    let count :=
      if m.count > server.blockBatchLimit then server.blockBatchLimit else m.count
    let endBlockNumber := addUint64 m.startBlockNumber (step * (count - 1))
    let endReqBlockNumber := addUint64 m.startBlockNumber (step * (m.count - 1))
    serveBatches server remaining step endReqBlockNumber fuel 0 m.startBlockNumber
      endBlockNumber ⟨.new, 0⟩

end Serving

section Receiving

inductive ClientError where
  | errInvalidFetchedData
  | errResponse (reason : String)
  | errDecoding
  | errTimeout
  | panic
deriving DecidableEq

def acceptBlock (req : RangeRequest) (i : Nat) (prevBlockNr : Option Uint256)
    (blockNr : Uint256) : Bool :=
  let blockStart := req.startBlockNumber
  if req.count.toNat ≤ i ∨ maxRequestBlocks.toNat ≤ i then false
  else if blockNr < blockStart ∨ ¬ blockNr < addUint64 blockStart (req.count * req.step) then false
  else match prevBlockNr with
    | none => true
    | some prev =>
      if blockNr ≤ prev then false
      else if req.step ≠ 0 ∧ low64 ((blockNr - prev) % BitVec.ofNat 256 req.step.toNat) ≠ 0 then
        false
      else true

def readBlocks (req : RangeRequest) (closed : Bool) :
    List Chunk → Nat → Option Uint256 → List PbBlock → Except ClientError (List PbBlock)
  | [], _, _, blocks => if closed then .ok blocks else .error .errTimeout
  | .broken :: _, _, _, _ => .error .errDecoding
  | .error _ reason :: _, _, _, _ => .error (.errResponse reason)
  | .block blk :: chunks, i, prevBlockNr, blocks =>
    match convertH256ToUint256Int (blk.header.bind PbHeader.number) with
    | none => .error .panic
    | some blockNr =>
      if acceptBlock req i prevBlockNr blockNr then
        readBlocks req closed chunks (i + 1) (some blockNr) (blocks ++ [blk])
      else .error .errInvalidFetchedData

/-- `SendBodiesByRangeRequest` without a block processor, on what is written to its
stream. -/
def sendBodiesByRangeRequest (req : RangeRequest) (s : Stream) :
    Except ClientError (List PbBlock) :=
  readBlocks req s.closed s.chunks 0 none []

end Receiving

end N42.RangeRequests
