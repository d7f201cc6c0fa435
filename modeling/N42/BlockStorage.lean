import N42.BigEndianWords
import N42.ChainDatabase
import N42.FallibleRuns
import N42.OrderedTables

/-!
How blocks are written to the tables of the database and read from them.  The transactions
of all blocks are numbered by one sequence; the body of a block is a range of it, with one
number reserved before and one after the transactions.  Verifiers and rewards are in tables
of their own.
-/

namespace N42.BlockStorage

open ByteStrings BigEndianWords ChainTypes BlockHeader Transactions
open ChainDatabase FallibleRuns OrderedTables

structure BodyForStorage where
  baseTxId : UInt64
  txAmount : UInt32

/-- The tables that hold blocks; a missing list of verifiers or rewards reads as no bytes. -/
structure BlockTables where
  sequence : UInt64
  blockTx : OrderedTable Nat Transaction
  blockBody : UInt64 × Hash → Option BodyForStorage
  blockVerify : UInt64 × Hash → List UInt8
  blockRewards : UInt64 × Hash → List UInt8
  headers : UInt64 × Hash → Option Header

inductive StorageError where
  | panic
  | appendFailed
deriving DecidableEq

section Records

def encodeVerify (v : Verify) : FixedBytes (48 + 20) where
  bytes := v.publicKey.bytes ++ v.address.bytes
  length_eq := by rw [List.length_append, v.publicKey.length_eq, v.address.length_eq]

def decodeVerify (record : FixedBytes (48 + 20)) : Verify where
  publicKey := FixedBytes.copy 48 record.bytes
  address := FixedBytes.copy 20 (record.bytes.drop 48)

def encodeReward (r : Reward) : FixedBytes (20 + 32) where
  bytes := r.address.bytes ++ digits 32 r.amount.toNat
  length_eq := by rw [List.length_append, r.address.length_eq, digits_length]

def decodeReward (record : FixedBytes (20 + 32)) : Reward where
  address := FixedBytes.copy 20 record.bytes
  amount := BitVec.ofNat 256 (ofBigEndian (record.bytes.drop 20))

theorem decodeVerify_encodeVerify (v : Verify) : decodeVerify (encodeVerify v) = v := by
  have hdrop : (v.publicKey.bytes ++ v.address.bytes).drop 48 = v.address.bytes ++ [] := by
    rw [List.drop_left' v.publicKey.length_eq, List.append_nil]
  rw [decodeVerify, encodeVerify, hdrop, FixedBytes.copy_append, FixedBytes.copy_append]

theorem decodeReward_encodeReward (r : Reward) : decodeReward (encodeReward r) = r := by
  have hamount : ofBigEndian (digits 32 r.amount.toNat) = r.amount.toNat :=
    ofBigEndian_digits (r.amount.isLt.trans_eq (by norm_num))
  rw [decodeReward, encodeReward, List.drop_left' r.address.length_eq, hamount,
    FixedBytes.copy_append, BitVec.ofNat_toNat, BitVec.setWidth_eq]

def encodeVerifies (verifiers : List Verify) : List UInt8 :=
  writeRecords encodeVerify verifiers

def decodeVerifies (data : List UInt8) : List Verify :=
  readRecords decodeVerify data

def encodeRewards (rewards : List Reward) : List UInt8 :=
  writeRecords encodeReward rewards

def decodeRewards (data : List UInt8) : List Reward :=
  readRecords decodeReward data

@[simp] theorem decodeVerifies_encodeVerifies (verifiers : List Verify) :
    decodeVerifies (encodeVerifies verifiers) = verifiers :=
  readRecords_writeRecords (by norm_num) decodeVerify_encodeVerify verifiers

@[simp] theorem decodeRewards_encodeRewards (rewards : List Reward) :
    decodeRewards (encodeRewards rewards) = rewards :=
  readRecords_writeRecords (by norm_num) decodeReward_encodeReward rewards

end Records

def numbered : UInt64 → List Transaction → List (Nat × Transaction)
  | _, [] => []
  | txId, tx :: rest => (txId.toNat, tx) :: numbered (txId + 1) rest

namespace BlockTables

def empty : BlockTables where
  sequence := 0
  blockTx := .empty
  blockBody _ := none
  blockVerify _ := []
  blockRewards _ := []
  headers _ := none

def incrementSequence (amount : UInt64) (t : BlockTables) : UInt64 × BlockTables :=
  (t.sequence, { t with sequence := t.sequence + amount })

def writeBodyForStorage (hash : Hash) (number : UInt64) (body : BodyForStorage)
    (t : BlockTables) : BlockTables :=
  { t with blockBody := Function.update t.blockBody (number, hash) (some body) }

def writeTransactions (txs : List Transaction) (baseTxId : UInt64) (t : BlockTables) :
    Except StorageError BlockTables :=
  match t.blockTx.appendAll (numbered baseTxId txs) with
  | none => .error .appendFailed
  | some blockTx => .ok { t with blockTx := blockTx }

def writeVerifies (hash : Hash) (number : UInt64) (verifiers : List Verify)
    (t : BlockTables) : BlockTables :=
  { t with
    blockVerify := Function.update t.blockVerify (number, hash) (encodeVerifies verifiers) }

def writeRewards (hash : Hash) (number : UInt64) (rewards : List Reward)
    (t : BlockTables) : BlockTables :=
  { t with
    blockRewards := Function.update t.blockRewards (number, hash) (encodeRewards rewards) }

/-- The senders are collected first, so every transaction has to know its own. -/
def writeBody (hash : Hash) (number : UInt64) (b : Block) (t : BlockTables) :
    Except StorageError BlockTables := do
  failIf (∃ tx ∈ b.transactions, tx.fromAddress = none) .panic
  let (baseTxId, t) := t.incrementSequence (UInt64.ofNat b.transactions.length + 2)
  let t := t.writeBodyForStorage hash number
    ⟨baseTxId, UInt32.ofNat b.transactions.length + 2⟩
  let t ← t.writeTransactions b.transactions (baseTxId + 1)
  let t := if b.verifiers.isEmpty then t else t.writeVerifies hash number b.verifiers
  return if b.rewards.isEmpty then t else t.writeRewards hash number b.rewards

def writeHeader (lib : Primitives) (header : Header) (t : BlockTables) : BlockTables :=
  { t with
    headers := Function.update t.headers (header.number64, header.hash lib) (some header) }

def writeBlock (lib : Primitives) (t : BlockTables) (b : Block) :
    Except StorageError BlockTables := do
  let t ← t.writeBody (b.hash lib) b.number64 b
  return t.writeHeader lib b.header

def readBody (hash : Hash) (number : UInt64) (t : BlockTables) :
    Except StorageError (Option (UInt64 × UInt32)) :=
  match t.blockBody (number, hash) with
  | none => .ok none
  | some body =>
    if body.txAmount < 2 then .error .panic
    else .ok (some (body.baseTxId + 1, body.txAmount - 2))

def canonicalTransactions (baseTxId : UInt64) (amount : UInt32) (t : BlockTables) :
    List Transaction :=
  t.blockTx.forAmount baseTxId.toNat amount.toNat

def readVerifies (hash : Hash) (number : UInt64) (t : BlockTables) : List Verify :=
  decodeVerifies (t.blockVerify (number, hash))

def readRewards (hash : Hash) (number : UInt64) (t : BlockTables) : List Reward :=
  decodeRewards (t.blockRewards (number, hash))

def readBlock (t : BlockTables) (hash : Hash) (number : UInt64) :
    Except StorageError (Option Block) :=
  match t.headers (number, hash) with
  | none => .ok none
  | some header => do
      match ← t.readBody hash number with
      | none => return none
      | some (baseTxId, amount) =>
        return some {
          header := header
          transactions := t.canonicalTransactions baseTxId amount
          verifiers := t.readVerifies hash number
          rewards := t.readRewards hash number }

end BlockTables

open BlockTables

section Contents

/-- What is read for a block that was written over another one: a list without elements is
not written, so the old one stays. -/
def overwrite (old : Option Block) (b : Block) : Block :=
  { b with
    verifiers := if b.verifiers.isEmpty then (old.map Block.verifiers).getD [] else b.verifiers
    rewards := if b.rewards.isEmpty then (old.map Block.rewards).getD [] else b.rewards }

abbrev Contents := UInt64 × Hash → Option Block

def Contents.write (lib : Primitives) (contents : Contents) (b : Block) : Contents :=
  Function.update contents (b.number64, b.hash lib)
    (some (overwrite (contents (b.number64, b.hash lib)) b))

@[simp] theorem overwrite_none (b : Block) : overwrite none b = b := by
  obtain ⟨header, transactions, verifiers, rewards⟩ := b
  cases verifiers <;> cases rewards <;> rfl

@[simp] theorem overwrite_self (b : Block) : overwrite (some b) b = b := by
  obtain ⟨header, transactions, verifiers, rewards⟩ := b
  cases verifiers <;> cases rewards <;> rfl

theorem foldl_write_eq_some {lib : Primitives} {blocks : List Block} {contents : Contents}
    {b : Block} (hunique : ∀ c ∈ blocks, c.number64 = b.number64 → c.hash lib = b.hash lib → c = b)
    (hbefore : contents (b.number64, b.hash lib) = none ∧ b ∈ blocks ∨
      contents (b.number64, b.hash lib) = some b) :
    blocks.foldl (Contents.write lib) contents (b.number64, b.hash lib) = some b := by
  induction blocks generalizing contents with
  | nil =>
    rcases hbefore with ⟨-, hmem⟩ | hkept
    · exact absurd hmem List.not_mem_nil
    · exact hkept
  | cons c rest ih =>
    refine ih (fun d hd => hunique d (List.mem_cons_of_mem c hd)) ?_
    by_cases hkey : (c.number64, c.hash lib) = (b.number64, b.hash lib)
    · obtain ⟨hnumber, hhash⟩ := Prod.mk.inj hkey
      obtain rfl := hunique c List.mem_cons_self hnumber hhash
      right
      rw [Contents.write, Function.update_self]
      rcases hbefore with ⟨hnone, -⟩ | hkept
      · rw [hnone, overwrite_none]
      · rw [hkept, overwrite_self]
    · rw [Contents.write, Function.update_of_ne (Ne.symm hkey)]
      refine hbefore.imp_left fun ⟨hnone, hmem⟩ => ⟨hnone, ?_⟩
      rcases List.mem_cons.mp hmem with rfl | hmem
      · exact absurd rfl hkey
      · exact hmem

end Contents

section Refinement

variable {lib : Primitives} {t u : BlockTables}

/-- The transactions are a range of the table, and the record of the body points to it. -/
def HasRange (t : BlockTables) (key : UInt64 × Hash) (txs : List Transaction) : Prop :=
  ∃ baseTxId, t.blockBody key = some ⟨baseTxId, UInt32.ofNat txs.length + 2⟩ ∧
    ∃ before after, t.blockTx.entries = before ++ numbered (baseTxId + 1) txs ++ after

structure Represents (t : BlockTables) (key : UInt64 × Hash) (kept : Option Block) : Prop where
  header : t.headers key = kept.map Block.header
  body : ∀ b ∈ kept, HasRange t key b.transactions
  verifiers : t.blockVerify key = encodeVerifies ((kept.map Block.verifiers).getD [])
  rewards : t.blockRewards key = encodeRewards ((kept.map Block.rewards).getD [])

theorem represents_empty (key : UInt64 × Hash) : Represents .empty key none where
  header := rfl
  body _ h := by cases h
  verifiers := rfl
  rewards := rfl

variable {b : Block}

theorem writeBlock_eq_ok (h : writeBlock lib t b = .ok u) :
    ∃ blockTx, t.blockTx.appendAll (numbered (t.sequence + 1) b.transactions) = some blockTx ∧ u = {
        sequence := t.sequence + (UInt64.ofNat b.transactions.length + 2)
        blockTx := blockTx
        blockBody := Function.update t.blockBody (b.number64, b.hash lib)
          (some ⟨t.sequence, UInt32.ofNat b.transactions.length + 2⟩)
        blockVerify := if b.verifiers.isEmpty then t.blockVerify else
          Function.update t.blockVerify (b.number64, b.hash lib) (encodeVerifies b.verifiers)
        blockRewards := if b.rewards.isEmpty then t.blockRewards else
          Function.update t.blockRewards (b.number64, b.hash lib) (encodeRewards b.rewards)
        headers := Function.update t.headers (b.number64, b.hash lib) (some b.header) } := by
  obtain ⟨next, hbody, hheader⟩ := bind_eq_ok_iff.mp h
  obtain ⟨-, hbody⟩ := seq_eq_ok_iff.mp hbody
  obtain ⟨stored, hstored, hlists⟩ := bind_eq_ok_iff.mp hbody
  unfold writeTransactions at hstored
  split at hstored
  case h_1 => cases hstored
  case h_2 blockTx hblockTx =>
    refine ⟨blockTx, hblockTx, ?_⟩
    cases hstored
    cases hlists
    cases hheader
    cases b.verifiers.isEmpty <;> cases b.rewards.isEmpty <;> rfl

theorem HasRange.writeBlock {key : UInt64 × Hash} {txs : List Transaction} (h : HasRange t key txs)
    (hu : BlockTables.writeBlock lib t b = .ok u) (hkey : key ≠ (b.number64, b.hash lib)) :
    HasRange u key txs := by
  obtain ⟨baseTxId, hrecord, before, after, hentries⟩ := h
  obtain ⟨blockTx, hblockTx, rfl⟩ := writeBlock_eq_ok hu
  refine ⟨baseTxId, ?_, before, after ++ numbered (t.sequence + 1) b.transactions, ?_⟩
  · exact (Function.update_of_ne hkey _ _).trans hrecord
  · rw [OrderedTable.entries_of_appendAll hblockTx, hentries, List.append_assoc]

theorem hasRange_writeBlock (hu : BlockTables.writeBlock lib t b = .ok u) :
    HasRange u (b.number64, b.hash lib) b.transactions := by
  obtain ⟨blockTx, hblockTx, rfl⟩ := writeBlock_eq_ok hu
  refine ⟨t.sequence, Function.update_self _ _ _, t.blockTx.entries, [], ?_⟩
  rw [OrderedTable.entries_of_appendAll hblockTx, List.append_nil]

theorem represents_writeBlock {contents : Contents} (h : ∀ key, Represents t key (contents key))
    (hu : writeBlock lib t b = .ok u) (key : UInt64 × Hash) :
    Represents u key (contents.write lib b key) := by
  obtain ⟨blockTx, -, hfields⟩ := writeBlock_eq_ok hu
  by_cases hkey : key = (b.number64, b.hash lib)
  · subst hkey
    rw [Contents.write, Function.update_self]
    constructor
    · rw [hfields]
      exact Function.update_self _ _ _
    · intro c hc
      cases hc
      exact hasRange_writeBlock hu
    · rw [hfields]
      have hold := (h (b.number64, b.hash lib)).verifiers
      cases hempty : b.verifiers.isEmpty <;> simp [overwrite, hempty, hold]
    · rw [hfields]
      have hold := (h (b.number64, b.hash lib)).rewards
      cases hempty : b.rewards.isEmpty <;> simp [overwrite, hempty, hold]
  · rw [Contents.write, Function.update_of_ne hkey]
    obtain ⟨hheader, hbody, hverifiers, hrewards⟩ := h key
    constructor
    · rw [← hheader, hfields]
      exact Function.update_of_ne hkey _ _
    · exact fun c hc => (hbody c hc).writeBlock hu hkey
    · rw [← hverifiers, hfields]
      cases b.verifiers.isEmpty <;> simp [hkey]
    · rw [← hrewards, hfields]
      cases b.rewards.isEmpty <;> simp [hkey]

theorem represents_run {blocks : List Block} {contents : Contents}
    (h : ∀ key, Represents t key (contents key)) (hu : run (writeBlock lib) t blocks = .ok u)
    (key : UInt64 × Hash) :
    Represents u key (blocks.foldl (Contents.write lib) contents key) := by
  induction blocks generalizing t contents with
  | nil =>
    cases hu
    exact h key
  | cons b rest ih =>
    obtain ⟨next, hnext, hrest⟩ := bind_eq_ok_iff.mp hu
    exact ih (represents_writeBlock h hnext) hrest

end Refinement

end N42.BlockStorage
