import N42.ChainTypes

/-!
Block headers, their JSON text and the block hash computed from it.
-/

namespace N42.BlockHeader

open TextEncoding JsonText ChainTypes

@[ext] structure Header where
  parentHash : Hash
  coinbase : Address
  root : Hash
  txHash : Hash
  receiptHash : Hash
  bloom : Bloom
  difficulty : Option Uint256
  number : Uint256
  gasLimit : UInt64
  gasUsed : UInt64
  time : UInt64
  mixDigest : Hash
  nonce : BlockNonce
  extra : Slice
  baseFee : Option Uint256
  signature : Signature
deriving DecidableEq

/-- `Number.Uint64()`: the low 64 bits of the block number. -/
def Header.number64 (h : Header) : UInt64 :=
  UInt64.ofNat h.number.toNat

section

variable (lib : Primitives)

def uint256Json (value : Uint256) : Json :=
  .str (lib.uint256Text value)

def uint64Json (value : UInt64) : Json :=
  .num value.toNat

/-- A nil slice is `null`, any other one a base 64 string. -/
def sliceJson (slice : Slice) : Json :=
  if slice.isNil then .null
  else .str ⟨encodeBase64 slice.bytes, encodeBase64_isPlain slice.bytes⟩

/-- The members of the JSON object in the order of the struct's fields.  `Hash`
replaces a missing base fee or difficulty by zero before it writes them. -/
def Header.members (h : Header) : List (PlainText × Json) :=
  [(plain "parentHash", textJson h.parentHash), (plain "miner", textJson h.coinbase),
    (plain "stateRoot", textJson h.root), (plain "transactionsRoot", textJson h.txHash),
    (plain "receiptsRoot", textJson h.receiptHash), (plain "logsBloom", textJson h.bloom),
    (plain "difficulty", uint256Json lib (h.difficulty.getD 0)),
    (plain "number", uint256Json lib h.number), (plain "gasLimit", uint64Json h.gasLimit),
    (plain "gasUsed", uint64Json h.gasUsed), (plain "timestamp", uint64Json h.time),
    (plain "mixHash", textJson h.mixDigest), (plain "nonce", textJson h.nonce),
    (plain "extraData", sliceJson h.extra),
    (plain "baseFeePerGas", uint256Json lib (h.baseFee.getD 0)),
    (plain "signature", textJson h.signature)]

def Header.json (h : Header) : List UInt8 :=
  render (.obj (h.members lib))

/-- `Header.Hash`.  The cached hash lives in a copy of the receiver and is never
found again. -/
def Header.hash (h : Header) : Hash :=
  lib.sha3 (h.json lib)

theorem Header.signature_eq_of_json_eq {a b : Header} (h : a.json lib = b.json lib) :
    a.signature = b.signature := by
  have hobj := render_injective h
  have hmembers : a.members lib = b.members lib := Json.obj.inj hobj
  have hlast := congrArg List.getLast? hmembers
  simp only [Header.members, List.getLast?_cons_cons, List.getLast?_singleton,
    Option.some.injEq, Prod.mk.injEq, true_and, textJson, Json.str.injEq] at hlast
  exact marshalText_injective hlast

end

end N42.BlockHeader
