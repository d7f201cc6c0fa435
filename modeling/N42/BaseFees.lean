import N42.HeaderPreparation
import N42.IntegerCells

/-!
The base fee of the next block.  It is computed in big integers, one of which holds all the
intermediate results in turn; here this is a computation on memory cells, and its result is
the base fee that the header rules use.
-/

namespace N42.BaseFees

open ChainTypes
open FallibleRuns (seq_eq_ok_iff)
open BlockHeader StatefulActions StatefulActions.Action IntegerCells
open HeaderSealing FeeMarket HeaderPreparation

def big0 : Nat := 0

def big1 : Nat := 1

def toBig : Action (Memory Header) FeeError Nat := do
  let m ← get
  let baseFee ← require .panic m.record.baseFee
  newInt baseFee.toNat

/-- `x` becomes the base fee times the difference, divided by the target and by the
denominator. -/
def scale (gasUsedDelta : UInt64) (parentGasTargetBig baseFeeChangeDenominator : Nat) :
    Action (Memory Header) FeeError Nat := do
  let gasUsedDelta ← newInt gasUsedDelta.toNat
  let x ← newInt 0
  let baseFee ← toBig
  let x ← assign (· * ·) x baseFee gasUsedDelta
  let y ← divide .panic x x parentGasTargetBig
  divide .panic x y baseFeeChangeDenominator

def raise (gasUsedDelta : UInt64) (parentGasTargetBig denominator : Nat) :
    Action (Memory Header) FeeError Nat := do
  let x ← scale gasUsedDelta parentGasTargetBig denominator
  let baseFeeDelta ← larger x big1
  let baseFee ← toBig
  assign (· + ·) x baseFee baseFeeDelta

def lower (gasUsedDelta : UInt64) (parentGasTargetBig denominator : Nat) :
    Action (Memory Header) FeeError Nat := do
  let x ← scale gasUsedDelta parentGasTargetBig denominator
  let baseFee ← toBig
  let x ← assign (· - ·) x baseFee x
  larger x big0

def calcBaseFee (rules : ChainConfig) : Action (Memory Header) FeeError Nat := do
  let m ← get
  let parent := m.record
  if !rules.isLondon parent.number64 then newInt initialBaseFee
  else do
    let parentGasTarget := parent.gasLimit / elasticityMultiplier
    let parentGasTargetBig ← newInt parentGasTarget.toNat
    let denominator ← newInt baseFeeChangeDenominator
    if parent.gasUsed = parentGasTarget then do
      let z ← newInt 0
      let baseFee ← toBig
      assign (fun x _ => x) z baseFee baseFee
    else if parentGasTarget < parent.gasUsed then
      raise (parent.gasUsed - parentGasTarget) parentGasTargetBig denominator
    else lower (parentGasTarget - parent.gasUsed) parentGasTargetBig denominator

def nextFee (baseFee used target : Nat) : Nat :=
  if target < used then
    baseFee + max (baseFee * (used - target) / target / baseFeeChangeDenominator) 1
  else baseFee - baseFee * (target - used) / target / baseFeeChangeDenominator

def gasTarget (parent : Header) : Nat :=
  (parent.gasLimit / elasticityMultiplier).toNat

theorem calcBaseFee_eq_nextFee {rules : ChainConfig} {parent : Header} {baseFee : Uint256}
    (hlondon : rules.isLondon parent.number64 = true)
    (hbaseFee : parent.baseFee = some baseFee) (htarget : gasTarget parent ≠ 0) :
    FeeMarket.calcBaseFee rules parent =
      .ok (nextFee baseFee.toNat parent.gasUsed.toNat (gasTarget parent)) := by
  rw [gasTarget] at htarget
  rw [FeeMarket.calcBaseFee, hlondon, hbaseFee, nextFee, gasTarget]
  dsimp only
  rw [if_neg (by decide)]
  split
  · rename_i hequal
    rw [hequal, if_neg (Nat.lt_irrefl _), Nat.sub_self, Nat.mul_zero, Nat.zero_div,
      Nat.zero_div, Nat.sub_zero]
  · split
    · rfl
    · rfl

structure Initialised (cells : List Int) : Prop where
  length : 2 ≤ cells.length
  zero : value cells big0 = 0
  one : value cells big1 = 1

theorem Initialised.zero_own {cells : List Int} (h : Initialised cells) (own : List Int) :
    value (cells ++ own) big0 = 0 := by
  exact (value_old (Nat.lt_of_lt_of_le Nat.zero_lt_two h.length)).trans h.zero

theorem Initialised.one_own {cells : List Int} (h : Initialised cells) (own : List Int) :
    value (cells ++ own) big1 = 1 := by
  exact (value_old h.length).trans h.one

/-- From any memory the computation ends with a cell that holds the result; the header and
the cells that were there before are as they were. -/
def Computes (rules : ChainConfig) (parent : Header) (fee : Nat) : Prop :=
  ∀ cells, Initialised cells → ∃ p own,
    calcBaseFee rules ⟨parent, cells⟩ = (.ok p, ⟨parent, cells ++ own⟩) ∧
      value (cells ++ own) p = fee

section Cells

variable {parent : Header} {baseFee : Uint256} {cells own : List Int}

section

variable (h : parent.baseFee = some baseFee)
include h

theorem toBig_own :
    toBig ⟨parent, cells ++ own⟩ =
      (.ok (cells.length + own.length), ⟨parent, cells ++ (own ++ [(baseFee.toNat : Int)])⟩) := by
  rw [toBig, get_bind]
  dsimp only
  rw [h]
  exact newInt_own _

variable {target denominator : Nat}

section

variable (htarget : target ≠ 0) (hdenominator : denominator ≠ 0)
include htarget hdenominator

theorem scale_own (delta : UInt64) :
    scale delta (cells.length + 0) (cells.length + 1)
        ⟨parent, cells ++ [(target : Int), (denominator : Int)]⟩ = (.ok (cells.length + 3),
        ⟨parent, cells ++ [(target : Int), (denominator : Int), (delta.toNat : Int),
          ((baseFee.toNat * delta.toNat / target / denominator : Nat) : Int),
          (baseFee.toNat : Int)]⟩) := by
  rw [scale, bind_of_eq_ok (newInt_own _), bind_of_eq_ok (newInt_own _),
    bind_of_eq_ok (toBig_own h)]
  simp only [List.length_cons, List.length_nil, List.cons_append, List.nil_append, Nat.reduceAdd]
  rw [bind_of_eq_ok (assign_own _ _ _)]
  simp only [value_own, value_cons_succ, value_cons_zero, List.set_cons_succ, List.set_cons_zero]
  rw [bind_of_eq_ok (divide_own (by rw [value_own]; exact Int.natCast_ne_zero.mpr htarget))]
  simp only [value_own, value_cons_succ, value_cons_zero, List.set_cons_succ, List.set_cons_zero]
  rw [divide_own (by rw [value_own]; exact Int.natCast_ne_zero.mpr hdenominator)]
  simp only [value_own, value_cons_succ, value_cons_zero, List.set_cons_succ, List.set_cons_zero]
  push_cast
  rfl

theorem raise_own (delta : UInt64) (hcells : Initialised cells) :
    ∃ own, raise delta (cells.length + 0) (cells.length + 1)
        ⟨parent, cells ++ [(target : Int), (denominator : Int)]⟩ =
      (.ok (cells.length + 3), ⟨parent, cells ++ own⟩) ∧ value (cells ++ own) (cells.length + 3) =
        (baseFee.toNat + max (baseFee.toNat * delta.toNat / target / denominator) 1 : Nat) := by
  rw [raise, bind_of_eq_ok (scale_own h htarget hdenominator delta),
    bind_of_eq_ok (larger_own _ _), bind_of_eq_ok (toBig_own h), assign_own]
  refine ⟨_, rfl, ?_⟩
  simp only [value_own, List.cons_append, List.nil_append, List.length_cons, List.length_nil,
    Nat.reduceAdd, List.set_cons_succ, List.set_cons_zero, value_cons_succ, value_cons_zero,
    hcells.one_own]
  split
  · rename_i hsmall
    rw [hcells.one_own, Nat.max_eq_right (by omega)]
    push_cast
    rfl
  · rename_i hlarge
    rw [Nat.max_eq_left (by omega), value_own]
    push_cast
    rfl

theorem lower_own {delta : UInt64} (hdelta : delta.toNat ≤ target) (hcells : Initialised cells) :
    ∃ own, lower delta (cells.length + 0) (cells.length + 1)
        ⟨parent, cells ++ [(target : Int), (denominator : Int)]⟩ =
      (.ok (cells.length + 3), ⟨parent, cells ++ own⟩) ∧ value (cells ++ own) (cells.length + 3) =
        (baseFee.toNat - baseFee.toNat * delta.toNat / target / denominator : Nat) := by
  have hle : baseFee.toNat * delta.toNat / target / denominator ≤ baseFee.toNat :=
    calc baseFee.toNat * delta.toNat / target / denominator
        ≤ baseFee.toNat * delta.toNat / target := Nat.div_le_self _ _
      _ ≤ baseFee.toNat * target / target :=
          Nat.div_le_div_right (Nat.mul_le_mul_left _ hdelta)
      _ = baseFee.toNat := Nat.mul_div_cancel _ (Nat.pos_of_ne_zero htarget)
  rw [lower, bind_of_eq_ok (scale_own h htarget hdenominator delta),
    bind_of_eq_ok (toBig_own h), bind_of_eq_ok (assign_own _ _ _), larger_own]
  simp only [value_own, List.cons_append, List.nil_append, List.length_cons, List.length_nil,
    Nat.reduceAdd, List.set_cons_succ, List.set_cons_zero, value_cons_succ, value_cons_zero,
    hcells.zero_own]
  rw [if_neg (by omega)]
  refine ⟨_, rfl, ?_⟩
  rw [Nat.cast_sub hle]
  rfl

end

end

end Cells

theorem computes_calcBaseFee {rules : ChainConfig} {parent : Header} {baseFee : Uint256}
    (hlondon : rules.isLondon parent.number64 = true)
    (hbaseFee : parent.baseFee = some baseFee) (htarget : gasTarget parent ≠ 0) :
    Computes rules parent (nextFee baseFee.toNat parent.gasUsed.toNat (gasTarget parent)) := by
  intro cells hcells
  have hdenominator : baseFeeChangeDenominator ≠ 0 := by decide
  rw [calcBaseFee, get_bind]
  dsimp only
  rw [hlondon, if_neg (by decide), bind_of_eq_ok (newInt_first _),
    bind_of_eq_ok (newInt_own _), nextFee]
  simp only [List.cons_append, List.nil_append, List.length_cons, List.length_nil, Nat.reduceAdd]
  split
  · rename_i hequal
    rw [bind_of_eq_ok (newInt_own _), bind_of_eq_ok (toBig_own hbaseFee), assign_own]
    refine ⟨_, _, rfl, ?_⟩
    have hused : parent.gasUsed.toNat = gasTarget parent := congrArg UInt64.toNat hequal
    rw [if_neg (by omega), hused, Nat.sub_self, Nat.mul_zero, Nat.zero_div, Nat.zero_div]
    simp
  · rename_i hdifferent
    split
    · rename_i hover
      have hused : gasTarget parent < parent.gasUsed.toNat := UInt64.lt_iff_toNat_lt.mp hover
      have hdelta : (parent.gasUsed - parent.gasLimit / elasticityMultiplier).toNat =
          parent.gasUsed.toNat - gasTarget parent :=
        UInt64.toNat_sub_of_le _ _ (UInt64.le_of_lt hover)
      obtain ⟨own, hraise, hvalue⟩ := raise_own hbaseFee htarget hdenominator
        (parent.gasUsed - parent.gasLimit / elasticityMultiplier) hcells
      rw [if_pos hused, ← hdelta]
      exact ⟨_, own, hraise, hvalue⟩
    · rename_i hunder
      have hused : ¬ gasTarget parent < parent.gasUsed.toNat := fun h =>
        hunder (UInt64.lt_iff_toNat_lt.mpr h)
      have hdelta : (parent.gasLimit / elasticityMultiplier - parent.gasUsed).toNat =
          gasTarget parent - parent.gasUsed.toNat :=
        UInt64.toNat_sub_of_le _ _ (UInt64.not_lt.mp hunder)
      obtain ⟨own, hlower, hvalue⟩ := lower_own hbaseFee htarget hdenominator
        (by rw [hdelta]; exact Nat.sub_le _ _) hcells
      rw [if_neg hused, ← hdelta]
      exact ⟨_, own, hlower, hvalue⟩

section Arithmetic

variable {baseFee used target : Nat}

theorem nextFee_of_lt (h : target < used) :
    nextFee baseFee used target =
      max (baseFee + baseFee * (used - target) / (target * baseFeeChangeDenominator))
        (baseFee + 1) := by
  rw [nextFee, if_pos h, Nat.div_div_eq_div_mul, Nat.add_max_add_left]

theorem nextFee_of_le (h : used ≤ target) :
    nextFee baseFee used target =
      baseFee - baseFee * (target - used) / (target * baseFeeChangeDenominator) := by
  rw [nextFee, if_neg (Nat.not_lt.mpr h), Nat.div_div_eq_div_mul]

theorem lt_nextFee_iff : baseFee < nextFee baseFee used target ↔ target < used := by
  rcases Nat.lt_or_ge target used with h | h
  · rw [nextFee_of_lt h]
    omega
  · rw [nextFee_of_le h]
    exact iff_of_false (Nat.not_lt.mpr (Nat.sub_le _ _)) (Nat.not_lt.mpr h)

theorem mono_nextFee {more : Nat} (h : used ≤ more) :
    nextFee baseFee used target ≤ nextFee baseFee more target := by
  rcases Nat.lt_or_ge target used with hused | hused
  · rw [nextFee_of_lt hused, nextFee_of_lt (Nat.lt_of_lt_of_le hused h)]
    have hmul : baseFee * (used - target) ≤ baseFee * (more - target) :=
      Nat.mul_le_mul_left _ (Nat.sub_le_sub_right h _)
    exact max_le_max_right _ (Nat.add_le_add_left (Nat.div_le_div_right hmul) _)
  · rcases Nat.lt_or_ge target more with hmore | hmore
    · -- between the two lies the old fee
      rw [nextFee_of_le hused]
      exact (Nat.sub_le _ _).trans (Nat.le_of_lt (lt_nextFee_iff.mpr hmore))
    · rw [nextFee_of_le hused, nextFee_of_le hmore]
      have hmul : baseFee * (target - more) ≤ baseFee * (target - used) :=
        Nat.mul_le_mul_left _ (Nat.sub_le_sub_left h _)
      exact Nat.sub_le_sub_left (Nat.div_le_div_right hmul) _

theorem drop_nextFee_le (htarget : target ≠ 0) :
    baseFee - nextFee baseFee used target ≤ baseFee / baseFeeChangeDenominator := by
  have hempty : baseFee * (target - 0) / (target * baseFeeChangeDenominator) =
      baseFee / baseFeeChangeDenominator := by
    rw [Nat.sub_zero, Nat.mul_comm baseFee target,
      Nat.mul_div_mul_left _ _ (Nat.pos_of_ne_zero htarget)]
  have hmono : nextFee baseFee 0 target ≤ nextFee baseFee used target :=
    mono_nextFee (Nat.zero_le _)
  rw [nextFee_of_le (Nat.zero_le _), hempty] at hmono
  exact Nat.sub_le_iff_le_add.mpr (Nat.sub_le_iff_le_add'.mp hmono)

end Arithmetic

section Headers

variable {rules : ChainConfig} {parent : Header} {fee : Nat}

theorem baseFee_newHeader {lib : Primitives} {gasCeil : UInt64} {param : GenerateParams}
    {header : Header} (hfee : FeeMarket.calcBaseFee rules parent = .ok fee)
    (hnew : newHeader lib rules gasCeil param parent = .ok header)
    (hlondon : rules.isLondon header.number64 = true) :
    header.baseFee = some (BitVec.ofNat 256 fee) := by
  obtain ⟨-, -, -, paid, hpaid, hbaseFee, -⟩ := newHeader_eq_ok hnew
  rw [if_pos hlondon, hfee] at hpaid
  cases hpaid
  exact hbaseFee

theorem baseFee_verifyEip1559Header {header : Header}
    (hfee : FeeMarket.calcBaseFee rules parent = .ok fee)
    (hverified : verifyEip1559Header rules parent header = .ok ()) :
    header.baseFee.map BitVec.toNat = some fee := by
  obtain ⟨-, hverified⟩ := seq_eq_ok_iff.mp hverified
  cases hbaseFee : header.baseFee with
  | none =>
    rw [hbaseFee] at hverified
    cases hverified
  | some baseFee =>
    rw [hbaseFee] at hverified
    obtain ⟨expected, hexpected, hverified⟩ := FallibleRuns.bind_eq_ok_iff.mp hverified
    rw [hfee] at hexpected
    cases hexpected
    split at hverified
    · cases hverified
    · rename_i hequal
      exact congrArg some (not_not.mp hequal)

end Headers

/-- What the base fee of the block after a header should be. -/
structure Follows (rules : ChainConfig) (parent : Header) (baseFee fee : Nat) : Prop where
  above : gasTarget parent < parent.gasUsed.toNat → fee = max
    (baseFee + baseFee * (parent.gasUsed.toNat - gasTarget parent) /
      (gasTarget parent * baseFeeChangeDenominator)) (baseFee + 1)
  below : parent.gasUsed.toNat ≤ gasTarget parent → fee =
    baseFee - baseFee * (gasTarget parent - parent.gasUsed.toNat) /
      (gasTarget parent * baseFeeChangeDenominator)
  rises : baseFee < fee ↔ gasTarget parent < parent.gasUsed.toNat
  drop : baseFee - fee ≤ baseFee / baseFeeChangeDenominator
  mono : ∀ used, parent.gasUsed ≤ used → ∃ more,
    Computes rules { parent with gasUsed := used } more ∧ fee ≤ more

/-- The base fee of the next block follows the rule, the header it is computed from stays
as it is, and the miner and the verification use the same value. -/
theorem calcBaseFee_follows {rules : ChainConfig} {parent : Header} {baseFee : Uint256}
    (hlondon : rules.isLondon parent.number64 = true)
    (hbaseFee : parent.baseFee = some baseFee) (hlimit : minGasLimit ≤ parent.gasLimit) :
    ∃ fee, Computes rules parent fee ∧ Follows rules parent baseFee.toNat fee ∧
      (∀ lib gasCeil param header, newHeader lib rules gasCeil param parent = .ok header →
        rules.isLondon header.number64 = true → header.baseFee = some (BitVec.ofNat 256 fee)) ∧
      ∀ header, verifyEip1559Header rules parent header = .ok () →
        header.baseFee.map BitVec.toNat = some fee := by
  have hmin := UInt64.le_iff_toNat_le.mp hlimit
  rw [minGasLimit_toNat] at hmin
  have htarget : gasTarget parent ≠ 0 := by
    rw [gasTarget, UInt64.toNat_div]
    change parent.gasLimit.toNat / 2 ≠ 0
    omega
  have hfee := calcBaseFee_eq_nextFee hlondon hbaseFee htarget
  refine ⟨_, computes_calcBaseFee hlondon hbaseFee htarget,
    ⟨nextFee_of_lt, nextFee_of_le, lt_nextFee_iff, drop_nextFee_le htarget, ?_⟩,
    fun lib gasCeil param header => baseFee_newHeader hfee,
    fun header => baseFee_verifyEip1559Header hfee⟩
  intro used hused
  refine ⟨_, computes_calcBaseFee hlondon hbaseFee htarget, ?_⟩
  exact mono_nextFee (UInt64.le_iff_toNat_le.mp hused)

def toyParent : Header :=
  { toyHeader 1 2 default with gasLimit := 30000, gasUsed := 30000, baseFee := some 800 }

def toyRules : ChainConfig :=
  { ChainConfig.unforked with londonBlock := some 0 }

theorem calcBaseFee_follows_full :
    gasTarget toyParent = 15000 ∧ Computes toyRules toyParent 900 := by
  refine ⟨by decide, ?_⟩
  have hlondon : toyRules.isLondon toyParent.number64 = true := by decide
  have hbaseFee : toyParent.baseFee = some 800 := rfl
  obtain ⟨fee, hcomputes, hfollows, -⟩ :=
    calcBaseFee_follows hlondon hbaseFee (by decide)
  have hfee : fee = 900 := hfollows.above (by decide)
  rw [← hfee]
  exact hcomputes

end N42.BaseFees
