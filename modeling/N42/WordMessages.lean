import N42.BigEndianWords
import N42.ChainTypes

/-!
The protobuf messages for fixed-size values.  A message is a pointer that may be nil, and
so is every nested message in it; following a nil pointer panics.
-/

namespace N42.WordMessages

open ByteStrings BigEndianWords ChainTypes

/-- How a call can end without a value: in a panic, or with the error of the protobuf
library for bytes that are not the message. -/
inductive Failure where
  | panic
  | errUnmarshal
deriving DecidableEq

def orPanic {α : Type} : Option α → Except Failure α
  | none => .error .panic
  | some a => .ok a

@[simp] theorem orPanic_eq_ok_iff {α : Type} {x : Option α} {a : α} :
    orPanic x = .ok a ↔ x = some a := by
  cases x with
  | none => simp [orPanic]
  | some b => simp [orPanic]

/-- `proto.Marshal` and `proto.Unmarshal` for one kind of message, which is read back up to
what its encoding does not tell apart. -/
structure Wire (μ : Type) (canon : μ → μ) where
  Bytes : Type
  marshal : μ → Bytes
  unmarshal : Bytes → Option μ
  unmarshal_marshal : ∀ m, unmarshal (marshal m) = some (canon m)

namespace Wire

variable {μ : Type} {canon : μ → μ}

def direct (canon : μ → μ) : Wire μ canon :=
  ⟨μ, id, fun m => some (canon m), fun _ => rfl⟩

def receive (wire : Wire μ canon) (data : wire.Bytes) : Except Failure μ :=
  match wire.unmarshal data with
  | none => .error .errUnmarshal
  | some m => .ok m

@[simp] theorem receive_marshal (wire : Wire μ canon) (m : μ) :
    wire.receive (wire.marshal m) = .ok (canon m) := by
  rw [receive, wire.unmarshal_marshal]

end Wire

structure H128 where
  hi : UInt64
  lo : UInt64
deriving DecidableEq

structure H160 where
  hi : Option H128
  lo : UInt32
deriving DecidableEq

abbrev H256 := Halves H128 H128

abbrev H384 := Halves H256 H128

abbrev H512 := Halves H256 H256

abbrev H768 := Halves H384 H384

abbrev H1024 := Halves H512 H512

abbrev H2048 := Halves H1024 H1024

def writeH128 (bytes : List UInt8) : H128 :=
  ⟨uint64 bytes, uint64 (bytes.drop 8)⟩

def readH128 (h : H128) : Option (List UInt8) :=
  some (putUint64 h.hi ++ putUint64 h.lo)

theorem transfers_h128 : Transfers 16 writeH128 readH128 := by
  intro bytes hlen
  have hhi : putUint64 (uint64 bytes) = bytes.take 8 := putUint64_uint64 (by omega)
  have hlo : putUint64 (uint64 (bytes.drop 8)) = (bytes.drop 8).take 8 :=
    putUint64_uint64 (by rw [List.length_drop]; omega)
  rw [writeH128, readH128, hhi, hlo, ← List.take_add]

def writeH160 (bytes : List UInt8) : H160 :=
  ⟨some (writeH128 bytes), uint32 (bytes.drop 16)⟩

def readH160 (h : H160) : Option (List UInt8) :=
  h.hi.bind fun hi => (readH128 hi).map fun bytes => bytes ++ putUint32 h.lo

theorem transfers_h160 : Transfers 20 writeH160 readH160 := by
  intro bytes hlen
  have hhi : readH128 (writeH128 bytes) = some (bytes.take 16) := transfers_h128 _ (by omega)
  have hlo : putUint32 (uint32 (bytes.drop 16)) = (bytes.drop 16).take 4 :=
    putUint32_uint32 (by rw [List.length_drop]; omega)
  simp only [writeH160, readH160, Option.bind_some, hhi, hlo, Option.map_some, ← List.take_add]

def writeH256 : List UInt8 → H256 :=
  Halves.write 16 writeH128 writeH128

def readH256 : H256 → Option (List UInt8) :=
  Halves.read readH128 readH128

def writeH384 : List UInt8 → H384 :=
  Halves.write 32 writeH256 writeH128

def readH384 : H384 → Option (List UInt8) :=
  Halves.read readH256 readH128

def writeH512 : List UInt8 → H512 :=
  Halves.write 32 writeH256 writeH256

def readH512 : H512 → Option (List UInt8) :=
  Halves.read readH256 readH256

def writeH768 : List UInt8 → H768 :=
  Halves.write 48 writeH384 writeH384

def readH768 : H768 → Option (List UInt8) :=
  Halves.read readH384 readH384

theorem transfers_h256 : Transfers 32 writeH256 readH256 :=
  Halves.transfers transfers_h128 transfers_h128

theorem transfers_h384 : Transfers 48 writeH384 readH384 :=
  Halves.transfers transfers_h256 transfers_h128

theorem transfers_h512 : Transfers 64 writeH512 readH512 :=
  Halves.transfers transfers_h256 transfers_h256

theorem transfers_h768 : Transfers 96 writeH768 readH768 :=
  Halves.transfers transfers_h384 transfers_h384

def readArray {α : Type} (n : Nat) (read : α → Option (List UInt8)) (m : Option α) :
    Option (FixedBytes n) :=
  (m.bind read).map (FixedBytes.copy n)

theorem readArray_write {α : Type} {n : Nat} {write : List UInt8 → α}
    {read : α → Option (List UInt8)} (h : Transfers n write read) (a : FixedBytes n) :
    readArray n read (some (write a.bytes)) = some a := by
  have hbytes : read (write a.bytes) = some a.bytes := by
    rw [h a.bytes a.length_eq.ge, List.take_of_length_le a.length_eq.le]
  have hcopy : FixedBytes.copy n a.bytes = a := by
    simpa using FixedBytes.copy_append a []
  rw [readArray, Option.bind_some, hbytes, Option.map_some, hcopy]

def convertHashToH256 (hash : Hash) : H256 :=
  writeH256 hash.bytes

def convertH256ToHash (h256 : Option H256) : Option Hash :=
  if h256 = none then some default else readArray 32 readH256 h256

def convertAddressToH160 (addr : Address) : H160 :=
  writeH160 addr.bytes

def convertH160toAddress (h160 : Option H160) : Option Address :=
  readArray 20 readH160 h160

def convertPublicKeyToH384 (p : FixedBytes 48) : H384 :=
  writeH384 p.bytes

def convertH384ToPublicKey (h384 : Option H384) : Option (FixedBytes 48) :=
  readArray 48 readH384 h384

def convertSignatureToH768 (p : Signature) : H768 :=
  writeH768 p.bytes

def convertH768ToSignature (h768 : Option H768) : Option Signature :=
  readArray 96 readH768 h768

def convertBytesToH512 (b : List UInt8) : H512 :=
  if b.length < 64 then writeH512 (FixedBytes.copy 64 b).bytes else writeH512 b

def convertBytesToH2048 (bloom : Bloom) : H2048 :=
  Halves.write 128 (Halves.write 64 convertBytesToH512 convertBytesToH512)
    (Halves.write 64 convertBytesToH512 convertBytesToH512) bloom.bytes

def convertH2048ToBloom (h2048 : Option H2048) : Option Bloom :=
  readArray 256 (Halves.read (Halves.read readH512 readH512) (Halves.read readH512 readH512)) h2048

theorem transfers_bytes : Transfers 64 convertBytesToH512 readH512 := by
  intro bytes hlen
  rw [convertBytesToH512, if_neg (by omega)]
  exact transfers_h512 bytes hlen

/-- Word `i` of a 256-bit integer, the least significant one first. -/
def limb (value : Uint256) (i : Nat) : UInt64 :=
  UInt64.ofNat (value.toNat / 2 ^ (64 * i))

def writeUint256 (i : Uint256) : H256 :=
  { lo := some { lo := limb i 0, hi := limb i 1 }
    hi := some { lo := limb i 2, hi := limb i 3 } }

def convertUint256IntToH256 (value : Option Uint256) : Option H256 :=
  value.map writeUint256

def ofLimbs (w3 w2 w1 w0 : UInt64) : Uint256 :=
  BitVec.ofNat 256 (((w3.toNat * 2 ^ 64 + w2.toNat) * 2 ^ 64 + w1.toNat) * 2 ^ 64 + w0.toNat)

def convertH256ToUint256Int (h256 : Option H256) : Option Uint256 :=
  h256.bind fun h => h.hi.bind fun hi => h.lo.map fun lo => ofLimbs hi.hi hi.lo lo.hi lo.lo

@[simp] theorem convertH256ToHash_convertHashToH256 (hash : Hash) :
    convertH256ToHash (some (convertHashToH256 hash)) = some hash :=
  readArray_write transfers_h256 hash

@[simp] theorem convertH160toAddress_convertAddressToH160 (addr : Address) :
    convertH160toAddress (some (convertAddressToH160 addr)) = some addr :=
  readArray_write transfers_h160 addr

@[simp] theorem convertH384ToPublicKey_convertPublicKeyToH384 (p : FixedBytes 48) :
    convertH384ToPublicKey (some (convertPublicKeyToH384 p)) = some p :=
  readArray_write transfers_h384 p

@[simp] theorem convertH768ToSignature_convertSignatureToH768 (p : Signature) :
    convertH768ToSignature (some (convertSignatureToH768 p)) = some p :=
  readArray_write transfers_h768 p

@[simp] theorem convertH2048ToBloom_convertBytesToH2048 (bloom : Bloom) :
    convertH2048ToBloom (some (convertBytesToH2048 bloom)) = some bloom := by
  have half := Halves.transfers transfers_bytes transfers_bytes
  exact readArray_write (Halves.transfers half half) bloom

theorem ofLimbs_limb (value : Uint256) :
    ofLimbs (limb value 3) (limb value 2) (limb value 1) (limb value 0) = value := by
  have hlt := value.isLt
  apply BitVec.eq_of_toNat_eq
  simp only [ofLimbs, limb, BitVec.toNat_ofNat, UInt64.toNat_ofNat', Nat.reduceMul,
    Nat.reducePow, Nat.div_one]
  omega

@[simp] theorem convertH256ToUint256Int_writeUint256 (value : Uint256) :
    convertH256ToUint256Int (some (writeUint256 value)) = some value := by
  simp only [writeUint256, convertH256ToUint256Int, Option.map_some, Option.bind_some, ofLimbs_limb]

section Completeness

def Present {α : Type} (P : α → Prop) (m : Option α) : Prop :=
  ∃ h, m = some h ∧ P h

def H160.Complete (h : H160) : Prop :=
  h.hi.isSome

def H256.Complete : H256 → Prop :=
  Halves.Complete (fun _ => True) fun _ => True

def H384.Complete : H384 → Prop :=
  Halves.Complete H256.Complete fun _ => True

def H512.Complete : H512 → Prop :=
  Halves.Complete H256.Complete H256.Complete

def H768.Complete : H768 → Prop :=
  Halves.Complete H384.Complete H384.Complete

def H2048.Complete : H2048 → Prop :=
  Halves.Complete (Halves.Complete H512.Complete H512.Complete)
    (Halves.Complete H512.Complete H512.Complete)

theorem isSome_readArray_iff {α : Type} {n : Nat} {read : α → Option (List UInt8)}
    {P : α → Prop} (h : ∀ a, (read a).isSome ↔ P a) (m : Option α) :
    (readArray n read m).isSome ↔ Present P m := by
  cases m with
  | none => simp [readArray, Present]
  | some a => simp [readArray, Present, h]

theorem isSome_readHalves_iff {α β : Type} {f : α → Option (List UInt8)}
    {g : β → Option (List UInt8)} {P : α → Prop} {Q : β → Prop}
    (hf : ∀ a, (f a).isSome ↔ P a) (hg : ∀ b, (g b).isSome ↔ Q b) (m : Halves α β) :
    (Halves.read f g m).isSome ↔ m.Complete P Q := by
  simp only [Halves.isSome_read_iff, hf, hg]

theorem isSome_readH128_iff (h : H128) : (readH128 h).isSome ↔ True :=
  iff_of_true rfl trivial

theorem isSome_readH256_iff : ∀ h, (readH256 h).isSome ↔ H256.Complete h :=
  isSome_readHalves_iff isSome_readH128_iff isSome_readH128_iff

theorem isSome_readH384_iff : ∀ h, (readH384 h).isSome ↔ H384.Complete h :=
  isSome_readHalves_iff isSome_readH256_iff isSome_readH128_iff

theorem isSome_readH512_iff : ∀ h, (readH512 h).isSome ↔ H512.Complete h :=
  isSome_readHalves_iff isSome_readH256_iff isSome_readH256_iff

theorem isSome_convertH160toAddress_iff (m : Option H160) :
    (convertH160toAddress m).isSome ↔ Present H160.Complete m := by
  refine isSome_readArray_iff (fun h => ?_) m
  rw [H160.Complete, readH160]
  cases h.hi with
  | none => rfl
  | some hi => rfl

theorem isSome_convertH256ToHash_iff (m : Option H256) :
    (convertH256ToHash m).isSome ↔ m = none ∨ Present H256.Complete m := by
  rw [convertH256ToHash]
  split
  · rename_i h
    exact iff_of_true rfl (Or.inl h)
  · rename_i h
    rw [isSome_readArray_iff isSome_readH256_iff]
    exact ⟨Or.inr, fun hm => hm.resolve_left h⟩

theorem isSome_convertH256ToUint256Int_iff (m : Option H256) :
    (convertH256ToUint256Int m).isSome ↔ Present H256.Complete m := by
  rcases m with _ | ⟨hi, lo⟩
  · simp [convertH256ToUint256Int, Present]
  · cases hi with
    | none => simp [convertH256ToUint256Int, Present, H256.Complete, Halves.Complete]
    | some hi =>
      cases lo with
      | none => simp [convertH256ToUint256Int, Present, H256.Complete, Halves.Complete]
      | some lo => simp [convertH256ToUint256Int, Present, H256.Complete, Halves.Complete]

theorem isSome_convertH384ToPublicKey_iff (m : Option H384) :
    (convertH384ToPublicKey m).isSome ↔ Present H384.Complete m :=
  isSome_readArray_iff isSome_readH384_iff m

theorem isSome_convertH768ToSignature_iff (m : Option H768) :
    (convertH768ToSignature m).isSome ↔ Present H768.Complete m :=
  isSome_readArray_iff (isSome_readHalves_iff isSome_readH384_iff isSome_readH384_iff) m

theorem isSome_convertH2048ToBloom_iff (m : Option H2048) :
    (convertH2048ToBloom m).isSome ↔ Present H2048.Complete m :=
  isSome_readArray_iff (isSome_readHalves_iff
    (isSome_readHalves_iff isSome_readH512_iff isSome_readH512_iff)
    (isSome_readHalves_iff isSome_readH512_iff isSome_readH512_iff)) m

end Completeness

end N42.WordMessages
