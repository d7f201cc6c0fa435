import N42.BlockHeader
import N42.FiniteMaps
import N42.Transactions

/-!
Blocks and the tables of the database that hold them: the stored blocks and their total
difficulties, the canonical hash of every number and the index of transactions.
-/

namespace N42.ChainDatabase

open ByteStrings FiniteMaps ChainTypes BlockHeader Transactions

structure Verify where
  address : Address
  publicKey : FixedBytes 48
deriving DecidableEq

structure Reward where
  address : Address
  amount : Uint256
deriving DecidableEq

structure Block where
  header : Header
  transactions : List Transaction
  verifiers : List Verify
  rewards : List Reward
deriving DecidableEq

def Block.hash (lib : Primitives) (b : Block) : Hash :=
  b.header.hash lib

def Block.parentHash (b : Block) : Hash :=
  b.header.parentHash

def Block.number64 (b : Block) : UInt64 :=
  b.header.number64

def Block.txHashes (lib : Primitives) (b : Block) : List Hash :=
  b.transactions.map fun tx => tx.hash lib

/-- A block is stored under its number and its hash: one entry here stands for its header,
its body and its transactions, which are written together. -/
structure Database where
  blocks : UInt64 × Hash → Option Block
  headerNumber : Hash → Option UInt64
  td : UInt64 × Hash → Option Uint256
  canonical : UInt64 → Option Hash
  txLookup : Hash → Option (List UInt8)
  headBlockHash : Option Hash

namespace Database

def empty : Database where
  blocks _ := none
  headerNumber _ := none
  td _ := none
  canonical _ := none
  txLookup _ := none
  headBlockHash := none

def readBlock (db : Database) (hash : Hash) (number : UInt64) : Option Block :=
  db.blocks (number, hash)

def writeBlock (lib : Primitives) (b : Block) (db : Database) : Database :=
  { db with
    blocks := Function.update db.blocks (b.number64, b.hash lib) (some b)
    headerNumber := Function.update db.headerNumber (b.hash lib) (some b.number64) }

def readTd (db : Database) (hash : Hash) (number : UInt64) : Option Uint256 :=
  db.td (number, hash)

def writeTd (hash : Hash) (number : UInt64) (td : Uint256) (db : Database) : Database :=
  { db with td := Function.update db.td (number, hash) (some td) }

def readCanonicalHash (db : Database) (number : UInt64) : Hash :=
  (db.canonical number).getD default

def writeCanonicalHash (hash : Hash) (number : UInt64) (db : Database) : Database :=
  { db with canonical := Function.update db.canonical number (some hash) }

/-- Keys are big-endian numbers, so the cursor visits the numbers from `blockFrom` on. -/
def truncateCanonicalHash (blockFrom : UInt64) (db : Database) : Database :=
  { db with canonical := fun number =>
      if blockFrom ≤ number then none else db.canonical number }

def isCanonicalHash (db : Database) (hash : Hash) : Bool :=
  match db.headerNumber hash with
  | none => false
  | some number =>
    decide (db.readCanonicalHash number ≠ default ∧ db.readCanonicalHash number = hash)

def entryNumber : Option (List UInt8) → Option UInt64
  | none | some [] => none
  | some data => some (UInt64.ofNat (ofBigEndian data))

def readTxLookupEntry (db : Database) (hash : Hash) : Option UInt64 :=
  entryNumber (db.txLookup hash)

def writeTxLookupEntries (lib : Primitives) (b : Block) (db : Database) : Database :=
  { db with txLookup := (b.txHashes lib).foldl (fun lookup hash =>
      Function.update lookup hash (some (bigEndian b.header.number.toNat))) db.txLookup }

def deleteTxLookupEntry (hash : Hash) (db : Database) : Database :=
  { db with txLookup := Function.update db.txLookup hash none }

def writeHeadBlockHash (hash : Hash) (db : Database) : Database :=
  { db with headBlockHash := some hash }

end Database

open Database

@[simp] theorem readCanonicalHash_writeCanonicalHash (db : Database) (hash : Hash)
    (written number : UInt64) :
    (db.writeCanonicalHash hash written).readCanonicalHash number =
      if number = written then hash else db.readCanonicalHash number := by
  unfold readCanonicalHash writeCanonicalHash
  by_cases h : number = written
  · simp [h]
  · simp [h]

@[simp] theorem readCanonicalHash_truncateCanonicalHash (db : Database)
    (blockFrom number : UInt64) :
    (db.truncateCanonicalHash blockFrom).readCanonicalHash number =
      if blockFrom ≤ number then default else db.readCanonicalHash number := by
  unfold readCanonicalHash truncateCanonicalHash
  by_cases h : blockFrom ≤ number
  · simp [h]
  · simp [h]

theorem entryNumber_bigEndian {value : Nat} (hpos : value ≠ 0) :
    entryNumber (some (bigEndian value)) = some (UInt64.ofNat value) := by
  have hvalue := ofBigEndian_bigEndian value
  cases hbytes : bigEndian value with
  | nil =>
    rw [hbytes] at hvalue
    exact absurd hvalue.symm hpos
  | cons b rest =>
    rw [← hvalue, hbytes, entryNumber]
    exact nofun

theorem readTxLookupEntry_writeTxLookupEntries (lib : Primitives) (db : Database) (b : Block)
    (hpos : b.header.number.toNat ≠ 0) (hash : Hash) :
    (db.writeTxLookupEntries lib b).readTxLookupEntry hash =
      if hash ∈ b.txHashes lib then some b.number64 else db.readTxLookupEntry hash := by
  simp only [readTxLookupEntry, writeTxLookupEntries, foldl_update_apply]
  split
  · exact entryNumber_bigEndian hpos
  · rfl

theorem readTxLookupEntry_deleteTxLookupEntry (db : Database) (deleted hash : Hash) :
    (db.deleteTxLookupEntry deleted).readTxLookupEntry hash =
      if hash = deleted then none else db.readTxLookupEntry hash := by
  unfold readTxLookupEntry deleteTxLookupEntry
  by_cases h : hash = deleted
  · simp [h, entryNumber]
  · simp [h]

end N42.ChainDatabase
