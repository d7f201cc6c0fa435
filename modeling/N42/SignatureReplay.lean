import N42.FallibleRuns
import N42.RewardBinding

/-!
The signatures of the verifiers, collected one by one by the miner and checked together
by everyone else.  The signed message is the state root alone, so a signature counts for
every block with the same state root.
-/

namespace N42.SignatureReplay

open ByteStrings FallibleRuns ChainTypes BlockHeader HeaderSealing
open ChainDatabase ChainReorg BlockValidation BlockValidation.BlockValidator
open ReorgCorrectness RewardBinding

variable {κ σ : Type}

structure AggSign where
  number : UInt64
  stateRoot : Hash
  sign : Signature
  address : Address
  publicKey : PublicKey
deriving DecidableEq

def AggSign.check (bls : Bls κ σ) (s : AggSign) (root : Hash) : Bool :=
  if s.stateRoot ≠ root then false
  else
    match bls.signatureFromBytes s.sign, bls.publicKeyFromBytes s.publicKey with
    | some sig, some pub => bls.verify sig pub s.stateRoot
    | _, _ => false

inductive MergeError where
  | invalidSignature
  | errNotEnoughSign
deriving DecidableEq

/-- The signatures collected so far; an address that has signed is not heard again. -/
structure Merge (σ : Type) where
  aggrSigns : List σ
  verifiers : List Verify

def Merge.uniq (m : Merge σ) : List Address :=
  m.verifiers.map Verify.address

def acceptSign (bls : Bls κ σ) (header : Header) (m : Merge σ) (s : AggSign) :
    Except MergeError (Merge σ) :=
  if s.number ≠ header.number64 then .ok m
  else if s.address ∈ m.uniq then .ok m
  else if s.check bls header.root = false then .ok m
  else
    match bls.signatureFromBytes s.sign with
    | none => .error .invalidSignature
    | some sig => .ok ⟨m.aggrSigns ++ [sig], m.verifiers ++ [⟨s.address, s.publicKey⟩]⟩

def signMerge (bls : Bls κ σ) (header : Header) (signs : List AggSign) :
    Except MergeError (Signature × List Verify) := do
  let m ← FallibleRuns.run (acceptSign bls header) ⟨[], []⟩ signs
  failIf (m.aggrSigns.length < 3) .errNotEnoughSign
  return (bls.aggregateSignatures m.aggrSigns, m.verifiers)

def Counted (bls : Bls κ σ) (header : Header) (s : AggSign) : Prop :=
  ∃ m m', acceptSign bls header m s = .ok m' ∧
    m'.verifiers = m.verifiers ++ [⟨s.address, s.publicKey⟩]

/-- A signature verifies for the message it was made for and for no other. -/
structure Unforgeable (bls : Bls κ σ) : Prop where
  verify : ∀ ⦃sig key m m'⦄, bls.verify sig key m = true → bls.verify sig key m' = true →
    m = m'
  aggregate : ∀ ⦃sig keys m m'⦄, bls.aggregateVerify sig keys m = true →
    bls.aggregateVerify sig keys m' = true → m = m'

def SignedRoot (bls : Bls κ σ) (keys : List PublicKey) (signature : Signature)
    (root : Hash) : Prop :=
  ∃ decoded sig, keys.mapM bls.publicKeyFromBytes = some decoded ∧
    bls.signatureFromBytes signature = some sig ∧
    bls.fastAggregateVerify sig decoded root = true

variable {bls : Bls κ σ}

theorem check_eq_true_iff {s : AggSign} {root : Hash} :
    s.check bls root = true ↔ s.stateRoot = root ∧
      ∃ sig pub, bls.signatureFromBytes s.sign = some sig ∧
        bls.publicKeyFromBytes s.publicKey = some pub ∧ bls.verify sig pub root = true := by
  unfold AggSign.check
  by_cases hroot : s.stateRoot = root
  · rw [if_neg (not_not.mpr hroot), hroot]
    cases bls.signatureFromBytes s.sign <;> cases bls.publicKeyFromBytes s.publicKey <;> simp
  · simp [hroot]

variable {header : Header}

theorem acceptSign_eq_ok {m m' : Merge σ} {s : AggSign} (h : acceptSign bls header m s = .ok m') :
    m' = m ∨ s.number = header.number64 ∧ s.check bls header.root = true ∧
      m'.verifiers = m.verifiers ++ [⟨s.address, s.publicKey⟩] := by
  unfold acceptSign at h
  split_ifs at h with hnumber huniq hcheck
  · exact Or.inl (Except.ok.inj h).symm
  · exact Or.inl (Except.ok.inj h).symm
  · exact Or.inl (Except.ok.inj h).symm
  · right
    obtain ⟨-, sig, -, hsig, -, -⟩ := check_eq_true_iff.mp (Bool.not_eq_false _ |>.mp hcheck)
    rw [hsig] at h
    cases h
    exact ⟨not_not.mp hnumber, Bool.not_eq_false _ |>.mp hcheck, rfl⟩

theorem counted_iff {s : AggSign} :
    Counted bls header s ↔ s.number = header.number64 ∧ s.check bls header.root = true := by
  constructor
  · rintro ⟨m, m', haccept, hadded⟩
    rcases acceptSign_eq_ok haccept with rfl | ⟨hnumber, hcheck, -⟩
    · simp at hadded
    · exact ⟨hnumber, hcheck⟩
  · rintro ⟨hnumber, hcheck⟩
    obtain ⟨-, sig, -, hsig, -, -⟩ := check_eq_true_iff.mp hcheck
    refine ⟨⟨[], []⟩, ⟨[sig], [⟨s.address, s.publicKey⟩]⟩, ?_, rfl⟩
    simp [acceptSign, hnumber, hcheck, hsig, Merge.uniq]

theorem keysPass_iff {v : BlockValidator κ σ} {keys : List PublicKey}
    (hfork : v.isBeijing header.number64 = true) :
    KeysPass v header keys ↔ SignedRoot v.bls keys header.signature header.root := by
  simp only [KeysPass, SignedRoot, checkAggregate_eq_ok_iff, hfork, forall_const, publicKeys]
  constructor
  · rintro ⟨decoded, hdecoded, sig, hsig, hverify⟩
    exact ⟨decoded, sig, hdecoded, hsig, hverify⟩
  · rintro ⟨decoded, sig, hdecoded, hsig, hverify⟩
    exact ⟨decoded, hdecoded, sig, hsig, hverify⟩

theorem signedRoot_unique (hbls : Unforgeable bls) {keys : List PublicKey} {signature : Signature}
    {root root' : Hash} (h : SignedRoot bls keys signature root)
    (h' : SignedRoot bls keys signature root') : root = root' := by
  obtain ⟨decoded, sig, hdecoded, hsig, hverify⟩ := h
  obtain ⟨decoded', sig', hdecoded', hsig', hverify'⟩ := h'
  obtain rfl := Option.some.inj (hdecoded.symm.trans hdecoded')
  obtain rfl := Option.some.inj (hsig.symm.trans hsig')
  rw [Bls.fastAggregateVerify, Bool.and_eq_true] at hverify hverify'
  exact hbls.aggregate hverify.2 hverify'.2

structure Carries (b b' : Block) : Prop where
  verifiers : b'.verifiers = b.verifiers
  signature : b'.header.signature = b.header.signature

/-- When the verifiers and the signature of one block are no use for another. -/
def Separated (v : BlockValidator κ σ) (b b' : Block) : Prop :=
  v.isBeijing b'.number64 = true ∧
    if v.isBeijing b.number64 = true then b'.header.root ≠ b.header.root
    else ¬ SignedRoot v.bls (b.verifiers.map Verify.publicKey) b.header.signature
      b'.header.root

theorem accepts_carrying_iff {v : BlockValidator κ σ} (hbls : Unforgeable v.bls)
    {bc bc' : BlockChain} {b b' : Block} (h : Accepts v bc b) (hlink : Linkable v bc' b')
    (hcarries : Carries b b') : Accepts v bc' b' ↔ ¬ Separated v b b' := by
  rw [accepts_iff, and_iff_left hlink, hcarries.verifiers, Separated]
  by_cases hfork' : v.isBeijing b'.number64 = true
  · rw [keysPass_iff hfork', hcarries.signature]
    simp only [hfork', true_and]
    split
    · rename_i hfork
      have hsigned := (keysPass_iff hfork).mp (accepts_iff.mp h).1
      refine Iff.trans ?_ not_not.symm
      constructor
      · exact fun hsigned' => signedRoot_unique hbls hsigned' hsigned
      · exact fun hroot => hroot ▸ hsigned
    · exact not_not.symm
  · simp only [hfork', Bool.false_eq_true, false_and, not_false_eq_true, iff_true]
    obtain ⟨decoded, hdecoded, -⟩ := (accepts_iff.mp h).1
    exact ⟨decoded, hdecoded, checkAggregate_eq_ok_iff.mpr fun hfork => absurd hfork hfork'⟩

theorem counted_replay_iff (hbls : Unforgeable bls) {header header' : Header} {s s' : AggSign}
    (h : Counted bls header s) (hsign : s'.sign = s.sign) (hkey : s'.publicKey = s.publicKey)
    (hnumber : s'.number = header'.number64) (hroot : s'.stateRoot = header'.root) :
    Counted bls header' s' ↔ header'.root = header.root := by
  obtain ⟨-, sig, pub, hsig, hpub, hverify⟩ := check_eq_true_iff.mp (counted_iff.mp h).2
  rw [counted_iff, check_eq_true_iff, hsign, hkey]
  constructor
  · rintro ⟨-, -, sig', pub', hsig', hpub', hverify'⟩
    obtain rfl := Option.some.inj (hsig.symm.trans hsig')
    obtain rfl := Option.some.inj (hpub.symm.trans hpub')
    exact hbls.verify hverify' hverify
  · intro hsame
    exact ⟨hnumber, hroot, sig, pub, hsig, hpub, hsame ▸ hverify⟩

/-- Signatures made for one block are rejected for another just if the other one comes
after the fork that has them checked and its state root was not signed; a single
signature is not counted for another block just if the state roots differ. -/
theorem replay_rejected_iff (v : BlockValidator κ σ) (hbls : Unforgeable v.bls) :
    (∀ bc bc' b b', Accepts v bc b → Linkable v bc' b' → Carries b b' →
      (¬ Accepts v bc' b' ↔ Separated v b b')) ∧
    ∀ header header' s s', Counted v.bls header s → s'.sign = s.sign →
      s'.publicKey = s.publicKey → s'.number = header'.number64 →
      s'.stateRoot = header'.root →
      (¬ Counted v.bls header' s' ↔ header'.root ≠ header.root) := by
  constructor
  · intro bc bc' b b' haccepts hlink hcarries
    rw [accepts_carrying_iff hbls haccepts hlink hcarries, not_not]
  · intro header header' s s' hcounted hsign hkey hnumber hroot
    rw [counted_replay_iff hbls hcounted hsign hkey hnumber hroot]

theorem toyBls_unforgeable : Unforgeable toyValidator.bls := by
  constructor
  all_goals
    intro sig key m m' hm hm'
    rw [toyValidator, toyBls, decide_eq_true_iff] at hm hm'
    exact FixedBytes.ext (hm.symm.trans hm')

def nextBlock (root : Hash) : Block :=
  { toyBlock 2 2 (toyOld.hash toyPrimitives) with
    header := { (toyBlock 2 2 (toyOld.hash toyPrimitives)).header with root := root }
    verifiers := (verifiedBlock (toyAddress 1)).verifiers }

def toySign : AggSign :=
  ⟨1, default, default, toyAddress 1, default⟩

def toySigns : List AggSign :=
  [1, 2, 3].map fun n => { toySign with address := toyAddress n }

theorem accepts_verifiedBlock_sibling :
    Accepts toyValidator (toyChain [toyOld]) (verifiedBlock (toyAddress 1)) :=
  accepts_iff.mpr ⟨(accepts_iff.mp (accepts_verifiedBlock _)).1, by decide +kernel,
    by decide, by decide +kernel⟩

def otherRoot : Hash := FixedBytes.copy 32 [1]

theorem linkable_nextBlock {root : Hash} (h : root = default ∨ root = otherRoot) :
    Linkable toyValidator (toyChain [toyOld]) (nextBlock root) := by
  rcases h with rfl | rfl
  · exact ⟨by decide +kernel, by decide, by decide +kernel⟩
  · exact ⟨by decide +kernel, by decide, by decide +kernel⟩

theorem carries_nextBlock (root : Hash) :
    Carries (verifiedBlock (toyAddress 1)) (nextBlock root) := by
  have hnext : (nextBlock root).header.signature = default := rfl
  have hverified : (verifiedBlock (toyAddress 1)).header.signature = default := rfl
  exact ⟨rfl, hnext.trans hverified.symm⟩

theorem separated_nextBlock (root : Hash) :
    Separated toyValidator (verifiedBlock (toyAddress 1)) (nextBlock root) ↔
      root ≠ default := by
  rw [Separated, if_pos (by decide)]
  exact and_iff_right rfl

theorem counted_toySign :
    Counted toyValidator.bls (verifiedBlock (toyAddress 1)).header toySign :=
  counted_iff.mpr ⟨by decide, by decide⟩

theorem replay_of_other_root_rejected :
    ¬ Accepts toyValidator (toyChain [toyOld]) (nextBlock otherRoot) ∧
      ¬ Counted toyValidator.bls (nextBlock otherRoot).header
        { toySign with number := 2, stateRoot := otherRoot } := by
  have hreplay := replay_rejected_iff toyValidator toyBls_unforgeable
  have hblock := hreplay.1 _ _ _ _ accepts_verifiedBlock_sibling
    (linkable_nextBlock (Or.inr rfl)) (carries_nextBlock otherRoot)
  have hsign := hreplay.2 _ (nextBlock otherRoot).header _
    { toySign with number := 2, stateRoot := otherRoot } counted_toySign rfl rfl
    (by decide) rfl
  exact ⟨hblock.mpr ((separated_nextBlock otherRoot).mpr (by decide)),
    hsign.mpr (by decide)⟩

/-- Two blocks at different heights without effects have the same state root: what was
signed for the first one passes for the second one as well. -/
theorem signatures_replayed_for_next_block :
    Accepts toyValidator (toyChain [toyOld]) (verifiedBlock (toyAddress 1)) ∧
      Accepts toyValidator (toyChain [toyOld]) (nextBlock default) ∧
      Carries (verifiedBlock (toyAddress 1)) (nextBlock default) ∧
      (nextBlock default).number64 ≠ (verifiedBlock (toyAddress 1)).number64 ∧
      (nextBlock default).parentHash ≠ (verifiedBlock (toyAddress 1)).parentHash ∧
      Counted toyValidator.bls (verifiedBlock (toyAddress 1)).header toySign ∧
      Counted toyValidator.bls (nextBlock default).header { toySign with number := 2 } := by
  have haccepts := (accepts_carrying_iff toyBls_unforgeable accepts_verifiedBlock_sibling
    (linkable_nextBlock (Or.inl rfl)) (carries_nextBlock default)).mpr
    fun hseparated => (separated_nextBlock default).mp hseparated rfl
  exact ⟨accepts_verifiedBlock_sibling, haccepts, carries_nextBlock default, by decide,
    by decide +kernel, counted_toySign, counted_iff.mpr ⟨by decide, by decide⟩⟩

end N42.SignatureReplay
