import N42.BlockStorage
import N42.ReorgCorrectness

/-!
Which blocks are read back from the tables they were written to.
-/

namespace N42.StoredBlocks

open ChainTypes HeaderSealing Transactions ChainDatabase FallibleRuns
open OrderedTables BlockStorage BlockStorage.BlockTables ReorgCorrectness

section Reading

variable {lib : Primitives} {t : BlockTables}

def Fits (b : Block) : Prop :=
  b.transactions.length + 2 < 2 ^ 32

section

variable (txId : UInt64) (txs : List Transaction)

@[simp] theorem numbered_length : (numbered txId txs).length = txs.length := by
  induction txs generalizing txId with
  | nil => rfl
  | cons tx rest ih => rw [numbered, List.length_cons, ih, List.length_cons]

@[simp] theorem map_snd_numbered : (numbered txId txs).map Prod.snd = txs := by
  induction txs generalizing txId with
  | nil => rfl
  | cons tx rest ih => rw [numbered, List.map_cons, ih]

theorem head?_numbered : ∀ e ∈ (numbered txId txs).head?, e.1 = txId.toNat := by
  cases txs with
  | nil => simp [numbered]
  | cons tx rest => simp [numbered]

end

theorem txAmount_toNat (count : Nat) : (UInt32.ofNat count + 2).toNat = (count + 2) % 2 ^ 32 := by
  rw [UInt32.toNat_add, UInt32.toNat_ofNat']
  exact Nat.mod_add_mod _ _ _

theorem txAmount_sub {amount : UInt32} (h : ¬ amount < 2) : (amount - 2).toNat = amount.toNat - 2 :=
  UInt32.toNat_sub_of_le _ _ (UInt32.not_lt.mp h)

theorem readBlock_of_represents {hash : Hash} {number : UInt64} {kept : Option Block}
    (h : Represents t (number, hash) kept) (hfits : ∀ b ∈ kept, Fits b) :
    BlockTables.readBlock t hash number = .ok kept := by
  obtain ⟨hheader, hbody, hverifiers, hrewards⟩ := h
  cases kept with
  | none => rw [BlockTables.readBlock, hheader]; rfl
  | some b =>
    obtain ⟨baseTxId, hrecord, before, after, hentries⟩ := hbody b rfl
    have hamount := txAmount_toNat b.transactions.length
    rw [Nat.mod_eq_of_lt (hfits b rfl)] at hamount
    have hlarge : ¬ UInt32.ofNat b.transactions.length + 2 < 2 := by
      rw [UInt32.lt_iff_toNat_lt, hamount]
      simp
    have hrange := OrderedTable.forAmount_of_range hentries (head?_numbered _ _)
    rw [numbered_length, map_snd_numbered] at hrange
    have hread : t.readBody hash number =
        .ok (some (baseTxId + 1, UInt32.ofNat b.transactions.length + 2 - 2)) := by
      rw [readBody, hrecord]
      exact if_neg hlarge
    have htxs : t.canonicalTransactions (baseTxId + 1)
        (UInt32.ofNat b.transactions.length + 2 - 2) = b.transactions := by
      rw [canonicalTransactions, txAmount_sub hlarge, hamount, Nat.add_sub_cancel, hrange]
    have hverify : t.readVerifies hash number = b.verifiers := by
      rw [readVerifies, hverifiers]
      exact decodeVerifies_encodeVerifies b.verifiers
    have hreward : t.readRewards hash number = b.rewards := by
      rw [readRewards, hrewards]
      exact decodeRewards_encodeRewards b.rewards
    rw [BlockTables.readBlock, hheader, hread]
    change Except.ok (some (Block.mk b.header (t.canonicalTransactions _ _)
      (t.readVerifies hash number) (t.readRewards hash number))) = _
    rw [htxs, hverify, hreward]

theorem fits_of_readBlock {b : Block} {hash : Hash} {number : UInt64}
    (h : Represents t (number, hash) (some b))
    (hread : BlockTables.readBlock t hash number = .ok (some b)) : Fits b := by
  obtain ⟨baseTxId, hrecord, -⟩ := h.body b rfl
  rw [BlockTables.readBlock, h.header, readBody, hrecord] at hread
  have hamount := txAmount_toNat b.transactions.length
  by_cases hsmall : UInt32.ofNat b.transactions.length + 2 < 2
  · simp [hsmall, bind, Except.bind] at hread
  · simp only [Option.map_some, hsmall, if_false] at hread
    have htxs := congrArg Block.transactions (Option.some.inj (Except.ok.inj hread))
    have hle := OrderedTable.length_forAmount_le (baseTxId + 1).toNat
      (UInt32.ofNat b.transactions.length + 2 - 2).toNat t.blockTx
    rw [show t.blockTx.forAmount _ _ = b.transactions from htxs, txAmount_sub hsmall,
      hamount] at hle
    rw [UInt32.lt_iff_toNat_lt, hamount] at hsmall
    have hmod := Nat.mod_lt (b.transactions.length + 2) (show 0 < 2 ^ 32 by norm_num)
    change ¬ (b.transactions.length + 2) % 2 ^ 32 < 2 at hsmall
    rw [Fits]
    omega

def toyVerify : Verify :=
  ⟨default, default⟩

def toyVerified (verifiers : List Verify) : Block :=
  { toyNew with verifiers := verifiers }

/-- After any writes, every block that was written is read back if and only if no two of
different contents were written under the number and the hash of one, and every amount of
transactions fits. -/
theorem written_blocks_survive_iff {blocks : List Block}
    (h : run (writeBlock lib) .empty blocks = .ok t) :
    (∀ b ∈ blocks, t.readBlock (b.hash lib) b.number64 = .ok (some b)) ↔ (∀ b ∈ blocks, Fits b) ∧
        ∀ b ∈ blocks, ∀ c ∈ blocks, c.number64 = b.number64 → c.hash lib = b.hash lib → c = b := by
  have hrepresents (b : Block) (hb : b ∈ blocks)
      (hunique : ∀ c ∈ blocks, c.number64 = b.number64 → c.hash lib = b.hash lib → c = b) :
      Represents t (b.number64, b.hash lib) (some b) := by
    have hrun := represents_run represents_empty h (b.number64, b.hash lib)
    rwa [foldl_write_eq_some hunique (.inl ⟨rfl, hb⟩)] at hrun
  constructor
  · intro hread
    have hunique : ∀ b ∈ blocks, ∀ c ∈ blocks, c.number64 = b.number64 →
        c.hash lib = b.hash lib → c = b := by
      intro b hb c hc hnumber hhash
      have hsame := hread c hc
      rw [hnumber, hhash, hread b hb] at hsame
      exact (Option.some.inj (Except.ok.inj hsame)).symm
    exact ⟨fun b hb => fits_of_readBlock (hrepresents b hb (hunique b hb)) (hread b hb), hunique⟩
  · rintro ⟨hfits, hunique⟩ b hb
    refine readBlock_of_represents (hrepresents b hb (hunique b hb)) fun c hc => ?_
    cases hc
    exact hfits b hb

theorem toy_blocks_survive : ∃ t, run (writeBlock toyPrimitives) .empty
    [toyOld, toyVerified [toyVerify], toyOld] = .ok t ∧
    ((∀ b ∈ [toyOld, toyVerified [toyVerify], toyOld],
      t.readBlock (b.hash toyPrimitives) b.number64 = .ok (some b)) ↔
        (∀ b ∈ [toyOld, toyVerified [toyVerify], toyOld], Fits b) ∧
          ∀ b ∈ [toyOld, toyVerified [toyVerify], toyOld],
            ∀ c ∈ [toyOld, toyVerified [toyVerify], toyOld], c.number64 = b.number64 →
              c.hash toyPrimitives = b.hash toyPrimitives → c = b) := by
  have hok : (run (writeBlock toyPrimitives) .empty
      [toyOld, toyVerified [toyVerify], toyOld]).isOk = true := by
    decide +kernel
  rcases hrun : run (writeBlock toyPrimitives) .empty
      [toyOld, toyVerified [toyVerify], toyOld] with e | t
  · rw [hrun] at hok
    cases hok
  · exact ⟨t, rfl, written_blocks_survive_iff hrun⟩

/-- A block is written with a verifier, and then another one with the same header and no
verifiers: the second is read with the verifier of the first. -/
theorem verifiers_of_other_block_read :
    (toyVerified [toyVerify]).hash toyPrimitives = (toyVerified []).hash toyPrimitives ∧
    (run (writeBlock toyPrimitives) .empty [toyVerified [toyVerify], toyVerified []] >>= fun t =>
      t.readBlock ((toyVerified []).hash toyPrimitives) (toyVerified []).number64) =
        .ok (some (toyVerified [toyVerify])) ∧
    toyVerified [toyVerify] ≠ toyVerified [] := by
  refine ⟨rfl, by decide +kernel, fun h => ?_⟩
  cases congrArg Block.verifiers h

end Reading

end N42.StoredBlocks
