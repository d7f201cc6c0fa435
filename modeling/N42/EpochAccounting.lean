import N42.RewardWindows
import N42.Deposits
import N42.FallibleRuns
import Mathlib.Algebra.BigOperators.Group.List.Basic

/-!
The rewards of one verifier over the epochs of a chain that is imported block by block.
What a window earns is paid once it reaches a limit together with what was kept back
before; the table of the unpaid sums is written with the block.
-/

namespace N42.EpochAccounting

open ChainTypes HeaderSealing ChainDatabase ReorgCorrectness BlockValidation
open RewardBinding RewardWindows Deposits FallibleRuns

structure RewardHistory where
  conf : AposConfig
  blocks : Nat → Block
  deposits : Nat → Address → Option (Uint256 × Uint256)

structure Ledger where
  unpaid : Address → Uint256
  payments : Address → List Uint256

def Ledger.record (ledger : Ledger) (pay : RewardMap) (unpay : Option RewardMap) : Ledger where
  unpaid address := (unpay.bind (· address)).getD (ledger.unpaid address)
  payments address := ledger.payments address ++ (pay address).toList

namespace RewardHistory

/-- What block `number` reads: its predecessors are the canonical chain.  Numbers are cut
to 64 bits for the lookup. -/
def reader (h : RewardHistory) (number : Nat) (unpaid : Address → Uint256) : RewardReader where
  getBlockByNumber n :=
    if n.toNat % 2 ^ 64 < number then some (h.blocks (n.toNat % 2 ^ 64)) else none
  getDepositInfo := h.deposits number
  getAccountRewardUnpaid address := some (unpaid address)

def ledgerAt (h : RewardHistory) : Nat → Except RewardError Ledger
  | 0 => .ok ⟨fun _ => 0, fun _ => []⟩
  | n + 1 => do
      let ledger ← h.ledgerAt n
      let (pay, unpay) ← doReward h.conf (BitVec.ofNat 256 (n + 1))
        (h.reader (n + 1) ledger.unpaid) (h.conf.rewardEpoch.toNat + 1)
      return ledger.record pay unpay

def window (h : RewardHistory) (number : Nat) : List Nat :=
  if number < h.conf.rewardEpoch.toNat then []
  else descending (number - h.conf.rewardEpoch.toNat) h.conf.rewardEpoch.toNat

end RewardHistory

def listed (address : Address) (b : Block) : Nat :=
  (b.verifiers.map Verify.address).count address

namespace RewardHistory

def listings (h : RewardHistory) (address : Address) (number : Nat) : Nat :=
  ((h.window number).map fun n => listed address (h.blocks n)).sum

def appearances (h : RewardHistory) (address : Address) (number : Nat) : Nat :=
  (h.window number).countP fun n => 0 < listed address (h.blocks n)

def isBoundary (h : RewardHistory) (number : Nat) : Bool :=
  isRewardBlock h.conf (BitVec.ofNat 256 number)

/-- What an address with the given terms is owed for the windows up to a block, if each
block counts once. -/
def due (h : RewardHistory) (address : Address) (low max : Uint256) : Nat → Nat
  | 0 => 0
  | n + 1 => h.due address low max n +
      if h.isBoundary (n + 1) then
        min (low.toNat * h.appearances address (n + 1)) max.toNat
      else 0

end RewardHistory

section Counting

variable {chain : RewardReader} {address : Address} {low max : Uint256}

def earned (low max : Uint256) (count : Nat) : Option Uint256 :=
  if count = 0 then none else some (BitVec.ofNat 256 (min (low.toNat * count) max.toNat))

theorem earned_getD (low max : Uint256) (count : Nat) :
    ((earned low max count).getD 0).toNat = min (low.toNat * count) max.toNat := by
  by_cases h : count = 0
  · simp [earned, h]
  · rw [earned, if_neg h, Option.getD_some, BitVec.toNat_ofNat, Nat.mod_eq_of_lt (by omega)]

theorem min256_earned (hsmall : low.toNat + max.toNat < 2 ^ 64) (count : Nat) :
    some (min256 ((earned low max count).getD 0 + low) max) = earned low max (count + 1) := by
  have hbefore := earned_getD low max count
  have hsum : ((earned low max count).getD 0 + low).toNat =
      min (low.toNat * count) max.toNat + low.toNat := by
    rw [BitVec.toNat_add, hbefore, Nat.mod_eq_of_lt (by omega)]
  have hafter : (min256 ((earned low max count).getD 0 + low) max).toNat =
      min (low.toNat * (count + 1)) max.toNat := by
    rw [Nat.mul_succ, min256]
    split_ifs with h
    · rw [BitVec.lt_def, hsum] at h
      omega
    · rw [BitVec.lt_def, hsum] at h
      omega
  rw [earned.eq_1 low max (count + 1), if_neg (Nat.succ_ne_zero count), ← hafter,
    BitVec.ofNat_toNat, BitVec.setWidth_eq]

section

variable (hterms : chain.getDepositInfo address = some (low, max))
  (hsmall : low.toNat + max.toNat < 2 ^ 64)
include hterms hsmall

theorem foldl_rewardVerifier (verifiers : List Verify) {rewards : RewardMap} {count : Nat}
    (h : rewards address = earned low max count) :
    verifiers.foldl (rewardVerifier chain) rewards address =
      earned low max (count + (verifiers.map Verify.address).count address) := by
  induction verifiers generalizing rewards count with
  | nil => exact h
  | cons verifier rest ih =>
    rw [List.foldl_cons, List.map_cons]
    by_cases heq : verifier.address = address
    · have hnext : rewardVerifier chain rewards verifier address = earned low max (count + 1) := by
        rw [rewardVerifier, heq, hterms]
        simp only [Function.update_self, h]
        exact min256_earned hsmall count
      rw [ih hnext, heq, List.count_cons_self, Nat.add_assoc, Nat.add_comm 1]
    · have hsame : rewardVerifier chain rewards verifier address = earned low max count := by
        rw [rewardVerifier]
        cases chain.getDepositInfo verifier.address with
        | none => exact h
        | some terms => exact (Function.update_of_ne (Ne.symm heq) _ _).trans h
      rw [ih hsame, List.count_cons_of_ne heq]

theorem foldl_countBlock (blocks : List Block) {rewards : RewardMap} {count : Nat}
    (h : rewards address = earned low max count) :
    blocks.foldl (countBlock chain) rewards address =
      earned low max (count + (blocks.map (listed address)).sum) := by
  induction blocks generalizing rewards count with
  | nil => exact h
  | cons b rest ih =>
    have hb : countBlock chain rewards b address = earned low max (count + listed address b) :=
      foldl_rewardVerifier hterms hsmall b.verifiers h
    rw [List.foldl_cons, ih hb, List.map_cons, List.sum_cons, ← Nat.add_assoc]

end

end Counting

section Boundaries

variable {h : RewardHistory} {address : Address} {low max : Uint256} {n : Nat}

theorem rewardBlocks_window (hn : n + 1 < 2 ^ 64) {unpaid : Address → Uint256} {rewards : RewardMap}
    (hok : rewardBlocks (h.reader (n + 1) unpaid)
      (BitVec.ofNat 256 (n + 1) - (newReward h.conf).rewardEpoch)
      (h.conf.rewardEpoch.toNat + 1) (BitVec.ofNat 256 (n + 1) - 1) (fun _ => none) = .ok rewards) :
    rewards = ((h.window (n + 1)).map h.blocks).foldl
      (countBlock (h.reader (n + 1) unpaid)) fun _ => none := by
  obtain ⟨numbers, hnumbers⟩ := rewardNumbers_of_rewardBlocks hok
  have hwindow : numbers = (h.window (n + 1)).map (BitVec.ofNat 256) := by
    unfold RewardHistory.window
    rcases Nat.lt_trichotomy (n + 1) h.conf.rewardEpoch.toNat with hlt | heq | hgt
    · rw [if_pos hlt]
      exact windowNumbers_unique hnumbers (windowNumbers_nil (Nat.succ_pos n) hlt)
    · have hend : BitVec.ofNat 256 (n + 1) - (newReward h.conf).rewardEpoch = 0 := by
        rw [heq]
        exact BitVec.sub_self _
      rw [hend, rewardNumbers_zero] at hnumbers
      cases hnumbers
    · rw [if_neg (by omega)]
      exact windowNumbers_unique hnumbers (windowNumbers_boundary hgt hn)
  have hbelow : ∀ i ∈ h.window (n + 1), i < n + 1 := by
    intro i hi
    unfold RewardHistory.window at hi
    split_ifs at hi
    · exact absurd hi List.not_mem_nil
    · have := (mem_descending.mp hi).2
      omega
  have hblocks : ∀ i ∈ h.window (n + 1),
      (h.reader (n + 1) unpaid).getBlockByNumber (BitVec.ofNat 256 i) = some (h.blocks i) := by
    intro i hi
    have hi := hbelow i hi
    have hmod : (BitVec.ofNat 256 i).toNat % 2 ^ 64 = i := by
      rw [BitVec.toNat_ofNat]
      omega
    simp only [RewardHistory.reader, hmod, if_pos hi]
  subst hwindow
  rw [rewardBlocks_eq_foldlM _ hnumbers, foldlM_countNumber hblocks] at hok
  exact (Except.ok.inj hok).symm

def RewardHistory.earnings (h : RewardHistory) (address : Address) (low max : Uint256)
    (number : Nat) : Nat :=
  min (low.toNat * h.listings address number) max.toNat

inductive AccountStep (limit total : Uint256) (before after : Ledger) (address : Address) :
    Prop where
  | pay (due : limit ≤ total) (payments : after.payments address =
        before.payments address ++ [total].filter (0 < ·)) (unpaid : after.unpaid address = 0)
  | keep (low : total < limit) (payments : after.payments address = before.payments address)
      (unpaid : after.unpaid address = total)

theorem ledgerAt_succ {next : Ledger} (hnext : h.ledgerAt (n + 1) = .ok next) :
    ∃ ledger pay unpay, h.ledgerAt n = .ok ledger ∧
      doReward h.conf (BitVec.ofNat 256 (n + 1)) (h.reader (n + 1) ledger.unpaid)
        (h.conf.rewardEpoch.toNat + 1) = .ok (pay, unpay) ∧ next = ledger.record pay unpay := by
  rw [RewardHistory.ledgerAt, bind_eq_ok_iff] at hnext
  obtain ⟨ledger, hledger, hnext⟩ := hnext
  obtain ⟨⟨pay, unpay⟩, hreward, hnext⟩ := bind_eq_ok_iff.mp hnext
  exact ⟨ledger, pay, unpay, hledger, hreward, (Except.ok.inj hnext).symm⟩

theorem doReward_boundary (hn : n + 1 < 2 ^ 64) {unpaid : Address → Uint256} {pay : RewardMap}
    {unpay : Option RewardMap} (hboundary : h.isBoundary (n + 1) = true)
    (hreward : doReward h.conf (BitVec.ofNat 256 (n + 1)) (h.reader (n + 1) unpaid)
      (h.conf.rewardEpoch.toNat + 1) = .ok (pay, unpay)) (address : Address) :
    let total := (((h.window (n + 1)).map h.blocks).foldl
        (countBlock (h.reader (n + 1) unpaid)) (fun _ => none) address).map
      fun amount => amount + unpaid address
    pay address = (total.map fun amount => (settle (newReward h.conf) amount).1).filter (0 < ·) ∧
      unpay.bind (· address) = total.map fun amount => (settle (newReward h.conf) amount).2 := by
  rw [doReward, if_pos (show isRewardBlock _ _ = true from hboundary)] at hreward
  obtain ⟨⟨paid, kept⟩, haccumulated, hreward⟩ := bind_eq_ok_iff.mp hreward
  obtain ⟨rewards, hrewards, haccumulated⟩ := bind_eq_ok_iff.mp haccumulated
  obtain ⟨rfl, rfl⟩ := Prod.mk.inj (Except.ok.inj haccumulated)
  obtain ⟨rfl, rfl⟩ := Prod.mk.inj (Except.ok.inj hreward)
  have hwindow := rewardBlocks_window hn hrewards
  subst hwindow
  exact ⟨rfl, rfl⟩

section

variable (hterms : ∀ n, h.deposits n address = some (low, max))
  (hsmall : low.toNat + max.toNat < 2 ^ 64)
include hterms hsmall

theorem foldl_window (number : Nat) (unpaid : Address → Uint256) :
    ((h.window number).map h.blocks).foldl (countBlock (h.reader number unpaid))
        (fun _ => none) address = earned low max (h.listings address number) := by
  rw [foldl_countBlock (hterms number) hsmall _ (rfl : _ = earned low max 0), Nat.zero_add,
    List.map_map, RewardHistory.listings]
  rfl

variable {ledger next : Ledger}

section

variable (hn : n + 1 < 2 ^ 64) (hledger : h.ledgerAt n = .ok ledger)
  (hnext : h.ledgerAt (n + 1) = .ok next)
include hn hledger hnext

theorem step_boundary (hboundary : h.isBoundary (n + 1) = true)
    (hlisted : h.listings address (n + 1) ≠ 0) :
    AccountStep h.conf.rewardLimit
      (BitVec.ofNat 256 (h.earnings address low max (n + 1)) + ledger.unpaid address)
      ledger next address := by
  obtain ⟨before, pay, unpay, hbefore, hreward, rfl⟩ := ledgerAt_succ hnext
  obtain rfl : before = ledger := Except.ok.inj (hbefore.symm.trans hledger)
  obtain ⟨hpay, hunpay⟩ := doReward_boundary hn hboundary hreward address
  rw [foldl_window hterms hsmall, earned, if_neg hlisted, ← RewardHistory.earnings,
    Option.map_some, Option.map_some] at hpay hunpay
  by_cases hdue : h.conf.rewardLimit ≤
      BitVec.ofNat 256 (h.earnings address low max (n + 1)) + before.unpaid address
  · rw [settle, if_pos (show (newReward h.conf).rewardLimit ≤ _ from hdue)] at hpay hunpay
    refine .pay hdue ?_ ?_
    · simp only [Ledger.record, hpay, Option.filter_some, List.filter_cons, List.filter_nil]
      split_ifs <;> rfl
    · simp only [Ledger.record, hunpay, Option.getD_some]
  · rw [settle, if_neg (show ¬ (newReward h.conf).rewardLimit ≤ _ from hdue)] at hpay hunpay
    refine .keep (BitVec.not_le.mp hdue) ?_ ?_
    · simp [Ledger.record, hpay]
    · simp only [Ledger.record, hunpay, Option.getD_some]

theorem step_other (hother : h.isBoundary (n + 1) = true → h.listings address (n + 1) = 0) :
    next.payments address = ledger.payments address ∧
      next.unpaid address = ledger.unpaid address := by
  obtain ⟨before, pay, unpay, hbefore, hreward, rfl⟩ := ledgerAt_succ hnext
  obtain rfl : before = ledger := Except.ok.inj (hbefore.symm.trans hledger)
  suffices hnone : pay address = none ∧ unpay.bind (· address) = none by
    simp only [Ledger.record, hnone, Option.toList_none, List.append_nil, Option.getD_none,
      and_self]
  by_cases hboundary : h.isBoundary (n + 1) = true
  · obtain ⟨hpay, hunpay⟩ := doReward_boundary hn hboundary hreward address
    rw [foldl_window hterms hsmall, earned, if_pos (hother hboundary)] at hpay hunpay
    exact ⟨hpay, hunpay⟩
  · rw [doReward, if_neg (show ¬ isRewardBlock _ _ = true from hboundary)] at hreward
    cases hreward
    exact ⟨rfl, rfl⟩

def Ledger.paid (ledger : Ledger) (address : Address) : Nat :=
  ((ledger.payments address).map BitVec.toNat).sum

theorem step_total :
    next.paid address + (next.unpaid address).toNat =
      ledger.paid address + ((ledger.unpaid address).toNat +
        if h.isBoundary (n + 1) then h.earnings address low max (n + 1) else 0) % 2 ^ 256 := by
  have hbound := (ledger.unpaid address).isLt
  unfold Ledger.paid
  by_cases hboundary : h.isBoundary (n + 1) = true
  · rw [if_pos hboundary]
    by_cases hlisted : h.listings address (n + 1) = 0
    · obtain ⟨hpayments, hunpaid⟩ := step_other hterms hsmall hn hledger hnext (fun _ => hlisted)
      rw [hpayments, hunpaid, RewardHistory.earnings, hlisted, Nat.mul_zero, Nat.zero_min,
        Nat.add_zero, Nat.mod_eq_of_lt hbound]
    · have hearnings : h.earnings address low max (n + 1) < 2 ^ 256 := by
        unfold RewardHistory.earnings
        omega
      have htotal : (BitVec.ofNat 256 (h.earnings address low max (n + 1)) +
          ledger.unpaid address).toNat = ((ledger.unpaid address).toNat +
            h.earnings address low max (n + 1)) % 2 ^ 256 := by
        rw [BitVec.toNat_add, BitVec.toNat_ofNat, Nat.mod_eq_of_lt hearnings, Nat.add_comm]
      cases step_boundary hterms hsmall hn hledger hnext hboundary hlisted with
      | pay _ hpayments hunpaid =>
        rw [hpayments, hunpaid, List.map_append, List.sum_append, ← htotal, List.filter_cons,
          List.filter_nil]
        split_ifs with hpos
        · simp
        · have hzero : BitVec.ofNat 256 (h.earnings address low max (n + 1)) +
              ledger.unpaid address = 0#256 := by
            simpa using hpos
          rw [hzero]
          simp
      | keep _ hpayments hunpaid => rw [hpayments, hunpaid, ← htotal]
  · obtain ⟨hpayments, hunpaid⟩ :=
      step_other hterms hsmall hn hledger hnext (fun hyes => absurd hyes hboundary)
    rw [if_neg hboundary, hpayments, hunpaid, Nat.add_zero, Nat.mod_eq_of_lt hbound]

end

end

/-- The payments and the unpaid sum of an address after a block are what it is owed. -/
structure Accounted (h : RewardHistory) (address : Address) (low max : Uint256) (n : Nat)
    (ledger : Ledger) : Prop where
  total : ledger.paid address + (ledger.unpaid address).toNat = h.due address low max n
  payments : ∀ amount ∈ ledger.payments address, h.conf.rewardLimit ≤ amount
  unpaid : ledger.unpaid address < h.conf.rewardLimit

/-- No block of a window pays an address twice, unless that does not change its sum: it
earns nothing at all, or the blocks already give it the most for an epoch. -/
def FairWindow (h : RewardHistory) (address : Address) (low max : Uint256) (number : Nat) :
    Prop :=
  low.toNat = 0 ∨ max.toNat ≤ low.toNat * h.appearances address number ∨
    ∀ n ∈ h.window number, listed address (h.blocks n) ≤ 1

end Boundaries

theorem countP_pos_le_sum {α : Type*} (f : α → Nat) (xs : List α) :
    xs.countP (fun x => 0 < f x) ≤ (xs.map f).sum ∧
      (xs.countP (fun x => 0 < f x) = (xs.map f).sum ↔ ∀ x ∈ xs, f x ≤ 1) := by
  induction xs with
  | nil => simp
  | cons x xs ih =>
    rw [List.countP_cons, List.map_cons, List.sum_cons, List.forall_mem_cons, ← ih.2]
    by_cases hx : 0 < f x
    · simp only [hx, decide_true, if_true]
      omega
    · simp only [hx, decide_false, Bool.false_eq_true, if_false]
      omega

theorem min_mul_eq_iff {low max count larger : Nat} (h : count ≤ larger) :
    min (low * larger) max = min (low * count) max ↔
      low = 0 ∨ max ≤ low * count ∨ count = larger := by
  have hmul : low * count ≤ low * larger := Nat.mul_le_mul_left low h
  constructor
  · intro heq
    by_contra hnot
    push Not at hnot
    obtain ⟨hlow, hmax, hne⟩ := hnot
    have hlt : low * count < low * larger :=
      Nat.mul_lt_mul_of_pos_left (by omega) (Nat.pos_of_ne_zero hlow)
    omega
  · rintro (rfl | hmax | rfl)
    · simp
    · omega
    · rfl

section Accounts

variable {h : RewardHistory} {address : Address} {low max : Uint256}

theorem appearances_le_listings (h : RewardHistory) (address : Address) (number : Nat) :
    h.appearances address number ≤ h.listings address number ∧
      (h.appearances address number = h.listings address number ↔
        ∀ n ∈ h.window number, listed address (h.blocks n) ≤ 1) :=
  countP_pos_le_sum (fun n => listed address (h.blocks n)) (h.window number)

theorem earnings_eq_iff (number : Nat) :
    h.earnings address low max number = min (low.toNat * h.appearances address number) max.toNat ↔
      FairWindow h address low max number := by
  obtain ⟨hle, heq⟩ := appearances_le_listings h address number
  rw [RewardHistory.earnings, min_mul_eq_iff hle, FairWindow, heq]

section

variable {n : Nat} {ledger next : Ledger} (hterms : ∀ n, h.deposits n address = some (low, max))
  (hsmall : low.toNat + max.toNat < 2 ^ 64) (hn : n + 1 < 2 ^ 64)
  (hledger : h.ledgerAt n = .ok ledger) (hnext : h.ledgerAt (n + 1) = .ok next)
  (hbefore : Accounted h address low max n ledger)
include hterms hsmall hn hledger hnext hbefore

theorem step_limits :
    (∀ amount ∈ next.payments address, h.conf.rewardLimit ≤ amount) ∧
      next.unpaid address < h.conf.rewardLimit := by
  by_cases hidle : h.isBoundary (n + 1) = true → h.listings address (n + 1) = 0
  · obtain ⟨hpayments, hunpaid⟩ := step_other hterms hsmall hn hledger hnext hidle
    rw [hpayments, hunpaid]
    exact ⟨hbefore.payments, hbefore.unpaid⟩
  · push Not at hidle
    cases step_boundary hterms hsmall hn hledger hnext hidle.1 hidle.2 with
    | pay hdue hpayments hunpaid =>
      rw [hpayments, hunpaid]
      constructor
      · intro amount hmem
        rcases List.mem_append.mp hmem with hold | hnew
        · exact hbefore.payments amount hold
        · rw [List.mem_singleton.mp (List.mem_of_mem_filter hnew)]
          exact hdue
      · have := hbefore.unpaid
        bv_omega
    | keep hlow hpayments hunpaid =>
      rw [hpayments, hunpaid]
      exact ⟨hbefore.payments, hlow⟩

theorem accounted_succ_iff :
    Accounted h address low max (n + 1) next ↔
      (h.isBoundary (n + 1) = true → FairWindow h address low max (n + 1) ∧
        (ledger.unpaid address).toNat + h.earnings address low max (n + 1) < 2 ^ 256) := by
  obtain ⟨hpayments, hunpaid⟩ := step_limits hterms hsmall hn hledger hnext hbefore
  have htotal := step_total hterms hsmall hn hledger hnext
  have hbound := (ledger.unpaid address).isLt
  have hdue := hbefore.total
  suffices hsum : next.paid address + (next.unpaid address).toNat = h.due address low max (n + 1) ↔
      (h.isBoundary (n + 1) = true → FairWindow h address low max (n + 1) ∧
        (ledger.unpaid address).toNat + h.earnings address low max (n + 1) < 2 ^ 256) from
    ⟨fun hnext => hsum.mp hnext.total, fun hfair => ⟨hsum.mpr hfair, hpayments, hunpaid⟩⟩
  rw [htotal, RewardHistory.due]
  by_cases hboundary : h.isBoundary (n + 1) = true
  · have hearnings : h.earnings address low max (n + 1) < 2 ^ 64 := by
      unfold RewardHistory.earnings
      omega
    simp only [hboundary, if_true, true_imp_iff, ← earnings_eq_iff]
    omega
  · rw [if_neg hboundary, if_neg hboundary, Nat.add_zero, Nat.add_zero, Nat.mod_eq_of_lt hbound]
    exact ⟨fun _ hyes => absurd hyes hboundary, fun _ => hdue⟩

end

/-- After every block of a chain the account of an address is right if and only if there
is a limit, every window so far was fair to the address, and no sum overflowed. -/
theorem accounted_iff (h : RewardHistory) (address : Address) (low max : Uint256)
    (hterms : ∀ n, h.deposits n address = some (low, max))
    (hknown : ∃ ether, rewardTerms ether = .ok (some (low, max))) (n : Nat) (hn : n < 2 ^ 64)
    (hrun : ∃ ledger, h.ledgerAt n = .ok ledger) :
    (∀ i ≤ n, ∀ ledger, h.ledgerAt i = .ok ledger → Accounted h address low max i ledger) ↔
      0 < h.conf.rewardLimit ∧ ∀ i < n, h.isBoundary (i + 1) = true →
        FairWindow h address low max (i + 1) ∧ ∀ ledger, h.ledgerAt i = .ok ledger →
          (ledger.unpaid address).toNat + h.earnings address low max (i + 1) < 2 ^ 256 := by
  obtain ⟨ether, hether⟩ := hknown
  have hsmall := rewardTerms_small hether
  obtain ⟨last, hlast⟩ := hrun
  induction n generalizing last with
  | zero =>
    constructor
    · intro hall
      exact ⟨(hall 0 (Nat.le_refl 0) _ rfl).unpaid, nofun⟩
    · rintro ⟨hlimit, -⟩ i hi ledger hledger
      obtain rfl := Nat.le_zero.mp hi
      cases hledger
      exact ⟨rfl, nofun, hlimit⟩
  | succ n ih =>
    obtain ⟨ledger, -, -, hledger, -, -⟩ := ledgerAt_succ hlast
    have hstep := accounted_succ_iff hterms hsmall hn hledger hlast
    constructor
    · intro hall
      obtain ⟨hlimit, hfair⟩ := (ih (by omega) ledger hledger).mp fun i hi => hall i (by omega)
      have hbefore := hall n (by omega) ledger hledger
      have hafter := hall (n + 1) (Nat.le_refl _) last hlast
      refine ⟨hlimit, ?_⟩
      intro i hi hboundary
      rcases Nat.lt_succ_iff_lt_or_eq.mp hi with hi | rfl
      · exact hfair i hi hboundary
      · obtain ⟨hwindow, hfits⟩ := (hstep hbefore).mp hafter hboundary
        refine ⟨hwindow, ?_⟩
        intro other hother
        obtain rfl := Except.ok.inj (hother.symm.trans hledger)
        exact hfits
    · rintro ⟨hlimit, hfair⟩ i hi other hother
      have hbelow := (ih (by omega) ledger hledger).mpr ⟨hlimit, fun i hi => hfair i (by omega)⟩
      rcases Nat.le_succ_iff.mp hi with hi | rfl
      · exact hbelow i hi other hother
      · obtain rfl := Except.ok.inj (hother.symm.trans hlast)
        refine (hstep (hbelow n (Nat.le_refl n) ledger hledger)).mpr ?_
        intro hboundary
        obtain ⟨hwindow, hfits⟩ := hfair n (Nat.lt_succ_self n) hboundary
        exact ⟨hwindow, hfits ledger hledger⟩

end Accounts

def listing (times : Nat) (b : Block) : Block :=
  { b with verifiers := List.replicate times ⟨toyAddress 1, default⟩ }

/-- Three blocks over the genesis block; the second lists its verifier as often as asked.
The first two make up the first window, which is settled at the third. -/
def toyAccount (times : Nat) : RewardHistory where
  conf := ⟨some 1, 2, 1⟩
  blocks n :=
    if n = 0 then toyGenesis
    else if n = 1 then listing 1 toyOld
    else if n = 2 then listing times toyOldest
    else listing 1 (toyBlock 3 1 (toyOldest.hash toyPrimitives))
  deposits _ _ := some (25000000000000, 12500000000000000)

theorem accepts_listing {times : Nat} {bc : ChainReorg.BlockChain} {b : Block}
    (hkeys : KeysPass toyValidator b.header (List.replicate times default))
    (hlink : Linkable toyValidator bc b) : Accepts toyValidator bc (listing times b) := by
  have hmap : (listing times b).verifiers.map Verify.publicKey =
      List.replicate times default := List.map_replicate
  exact accepts_iff.mpr ⟨hmap ▸ hkeys, hlink.unknown, hlink.txHash, hlink.parent⟩

def toyNode (head : Block) : ChainReorg.BlockChain where
  chainDB := ChainReorg.writeHead toyPrimitives head (Database.empty.writeBlock toyPrimitives head)
  blockCache := []
  currentBlock := ⟨1, head⟩
  nextPointer := 3

theorem toyAccount_accepted :
    Accepts toyValidator (toyNode toyGenesis) ((toyAccount 2).blocks 1) ∧
      Accepts toyValidator (toyNode toyOld) ((toyAccount 2).blocks 2) ∧
      Accepts toyValidator (toyNode toyOldest) ((toyAccount 2).blocks 3) := by
  refine ⟨accepts_listing ⟨[default], by decide, by decide +kernel⟩ ?_,
    accepts_listing ⟨[default, default], by decide, by decide +kernel⟩ ?_,
    accepts_listing ⟨[default], by decide, by decide +kernel⟩ ?_⟩
  all_goals exact ⟨by decide +kernel, by decide, by decide +kernel⟩

/-- A block that lists its verifier twice is accepted and pays it twice. -/
theorem verifier_paid_twice :
    Accepts toyValidator (toyNode toyGenesis) ((toyAccount 2).blocks 1) ∧
      Accepts toyValidator (toyNode toyOld) ((toyAccount 2).blocks 2) ∧
      Accepts toyValidator (toyNode toyOldest) ((toyAccount 2).blocks 3) ∧
      (toyAccount 2).due (toyAddress 1) 25000000000000 12500000000000000 3 = 50000000000000 ∧
      ∃ ledger, (toyAccount 2).ledgerAt 3 = .ok ledger ∧
        ledger.payments (toyAddress 1) = [75000000000000] ∧
        ¬ Accounted (toyAccount 2) (toyAddress 1) 25000000000000 12500000000000000 3 ledger := by
  obtain ⟨h₁, h₂, h₃⟩ := toyAccount_accepted
  have hdue : (toyAccount 2).due (toyAddress 1) 25000000000000 12500000000000000 3 =
      50000000000000 := by
    decide +kernel
  refine ⟨h₁, h₂, h₃, hdue, _, rfl, by decide +kernel, ?_⟩
  intro haccounted
  have htotal := haccounted.total
  revert htotal
  decide +kernel

theorem toyAccount_accounted :
    (∃ ledger, (toyAccount 1).ledgerAt 3 = .ok ledger) ∧
      ∀ i ≤ 3, ∀ ledger, (toyAccount 1).ledgerAt i = .ok ledger →
        Accounted (toyAccount 1) (toyAddress 1) 25000000000000 12500000000000000 i ledger := by
  refine ⟨⟨_, rfl⟩, (accounted_iff (toyAccount 1) (toyAddress 1) 25000000000000
    12500000000000000 (fun _ => rfl) ⟨50, rfl⟩ 3 (by decide) ⟨_, rfl⟩).mpr ⟨by decide, ?_⟩⟩
  intro i hi hboundary
  obtain rfl | rfl | rfl : i = 0 ∨ i = 1 ∨ i = 2 := by omega
  · refine ⟨.inr (.inr (by decide +kernel)), ?_⟩
    rintro ledger hledger
    cases hledger
    decide +kernel
  · exact absurd hboundary (by decide +kernel)
  · refine ⟨.inr (.inr (by decide +kernel)), ?_⟩
    rintro ledger hledger
    cases hledger
    decide +kernel

end N42.EpochAccounting
