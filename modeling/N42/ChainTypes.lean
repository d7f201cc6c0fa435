import N42.JsonText

/-!
The fixed-size values of the chain with their texts, and the functions of other
libraries which the node calls as black boxes.
-/

namespace N42.ChainTypes

open ByteStrings TextEncoding JsonText

abbrev Hash := FixedBytes 32

abbrev Address := FixedBytes 20

instance : LawfulBEq Address :=
  inferInstance

instance : LawfulBEq Hash :=
  inferInstance

abbrev Bloom := FixedBytes 256

abbrev BlockNonce := FixedBytes 8

abbrev Signature := FixedBytes 96

abbrev Uint256 := BitVec 256

/-- A byte slice.  Only the JSON writer tells the nil slice from an empty one. -/
@[ext] structure Slice where
  bytes : List UInt8
  isNil : Bool
  nil_bytes : isNil = true → bytes = []
  length_lt : bytes.length < 2 ^ 63
deriving DecidableEq

def Slice.make (bytes : List UInt8) (h : bytes.length < 2 ^ 63) : Slice :=
  ⟨bytes, false, nofun, h⟩

theorem Slice.nil_bytes_of_isNil (_ : true = true) : ([] : List UInt8) = [] :=
  rfl

theorem Slice.nil_length_lt : ([] : List UInt8).length < 2 ^ 63 := by
  decide

def Slice.nil : Slice :=
  ⟨[], true, Slice.nil_bytes_of_isNil, Slice.nil_length_lt⟩

theorem Slice.ext_of_ne_nil {a b : Slice} (h : a.bytes = b.bytes) (hne : a.bytes ≠ []) : a = b := by
  have ha : a.isNil = false := by
    by_contra hnil
    exact hne (a.nil_bytes (by simpa using hnil))
  have hb : b.isNil = false := by
    by_contra hnil
    exact hne (h.trans (b.nil_bytes (by simpa using hnil)))
  exact Slice.ext h (ha.trans hb.symm)

/-- The library functions behind hashes, signatures and 256-bit texts. -/
structure Primitives where
  /-- SHA3-256, behind `types.BytesHash`. -/
  sha3 : List UInt8 → Hash
  /-- The legacy Keccak-256. -/
  keccak256 : List UInt8 → Hash
  /-- The uncompressed public key that produced a 65 byte secp256k1 signature. -/
  ecrecover : Hash → List UInt8 → Option (List UInt8)
  /-- What `uint256.Int` writes into a JSON string. -/
  uint256Text : Uint256 → PlainText

structure ChainConfig where
  chainID : Option Nat
  homesteadBlock : Option Nat
  spuriousDragonBlock : Option Nat
  istanbulBlock : Option Nat
  berlinBlock : Option Nat
  londonBlock : Option Nat
  shanghaiBlock : Option Nat
  /-- The account that receives the burnt part of the fees, and since when. -/
  eip1559FeeCollector : Option Address
  eip1559FeeCollectorTransition : Option Nat
  /-- Whether the chain runs the Parlia consensus. -/
  parlia : Bool
  /-- Whether the chain runs the AuRa consensus. -/
  aura : Bool

def isForked (block : Option Nat) (head : UInt64) : Bool :=
  match block with
  | none => false
  | some block => UInt64.ofNat block ≤ head

namespace ChainConfig

def unforked : ChainConfig :=
  ⟨none, none, none, none, none, none, none, none, none, false, false⟩

section

variable (config : ChainConfig) (number : UInt64)

def isHomestead : Bool :=
  isForked config.homesteadBlock number

def isSpuriousDragon : Bool :=
  isForked config.spuriousDragonBlock number

def isIstanbul : Bool :=
  isForked config.istanbulBlock number

def isBerlin : Bool :=
  isForked config.berlinBlock number

def isLondon : Bool :=
  isForked config.londonBlock number

def isShanghai : Bool :=
  isForked config.shanghaiBlock number

def isEip1559FeeCollector : Bool :=
  config.eip1559FeeCollector.isSome && isForked config.eip1559FeeCollectorTransition number

end

end ChainConfig

structure Rules where
  isHomestead : Bool
  isSpuriousDragon : Bool
  isIstanbul : Bool
  isBerlin : Bool
  isLondon : Bool
  isShanghai : Bool
  isEip1559FeeCollector : Bool
  isAura : Bool

def ChainConfig.rules (config : ChainConfig) (number : UInt64) : Rules where
  isHomestead := config.isHomestead number
  isSpuriousDragon := config.isSpuriousDragon number
  isIstanbul := config.isIstanbul number
  isBerlin := config.isBerlin number
  isLondon := config.isLondon number
  isShanghai := config.isShanghai number
  isEip1559FeeCollector := config.isEip1559FeeCollector number
  isAura := config.aura

def marshalText (bytes : List UInt8) : PlainText :=
  ⟨ascii "0x" ++ encodeHex bytes, by
    rw [List.all_append, encodeHex_isPlain]
    rfl⟩

def bytesHave0xPrefix : List UInt8 → Bool
  | a :: b :: _ => a = 48 && (b = 120 || b = 88)
  | _ => false

def checkText (input : List UInt8) : Option (List UInt8) :=
  if input = [] then some []
  else if bytesHave0xPrefix input then
    if (input.drop 2).length % 2 ≠ 0 then none else some (input.drop 2)
  else none

def unmarshalFixedText (n : Nat) (input : List UInt8) : Option (FixedBytes n) := do
  let raw ← checkText input
  if raw.length / 2 ≠ n then none
  else if raw.any fun c => (hexValue c).isNone then none
  else
    let bytes ← decodeHex raw
    return FixedBytes.copy n bytes

theorem checkText_marshalText (bytes : List UInt8) :
    checkText (marshalText bytes).val = some (encodeHex bytes) := by
  have hfront : bytesHave0xPrefix (ascii "0x" ++ encodeHex bytes) = true := rfl
  have hne : ascii "0x" ++ encodeHex bytes ≠ [] := by
    rintro ⟨⟩
  have hdrop : (ascii "0x" ++ encodeHex bytes).drop 2 = encodeHex bytes := rfl
  unfold checkText marshalText
  rw [if_neg hne, if_pos hfront, hdrop, encodeHex_length, if_neg (by omega)]

theorem encodeHex_all_hexValue (bytes : List UInt8) :
    (encodeHex bytes).any (fun c => (hexValue c).isNone) = false := by
  induction bytes with
  | nil => rfl
  | cons b bs ih =>
    have hb := b.toNat_lt
    simp [encodeHex, ih, hexValue_hexDigit (show b.toNat / 16 < 16 by omega),
      hexValue_hexDigit (show b.toNat % 16 < 16 by omega)]

@[simp] theorem unmarshalFixedText_marshalText {n : Nat} (a : FixedBytes n) :
    unmarshalFixedText n (marshalText a.bytes).val = some a := by
  have hlen : (encodeHex a.bytes).length / 2 = n := by
    rw [encodeHex_length, a.length_eq]
    omega
  have hcopy : FixedBytes.copy n a.bytes = a := by
    simpa using FixedBytes.copy_append a []
  unfold unmarshalFixedText
  rw [checkText_marshalText, Option.bind_eq_bind, Option.bind_some, hlen,
    encodeHex_all_hexValue, decodeHex_encodeHex]
  simp [hcopy]

theorem marshalText_injective {n : Nat} {a b : FixedBytes n}
    (h : marshalText a.bytes = marshalText b.bytes) : a = b := by
  have ha := unmarshalFixedText_marshalText a
  rw [h, unmarshalFixedText_marshalText] at ha
  exact (Option.some.inj ha).symm

def textJson {n : Nat} (a : FixedBytes n) : Json :=
  .str (marshalText a.bytes)

end N42.ChainTypes
