import N42.RewardBinding

/-!
The windows of the rewards.  From the Beijing block on, every `rewardEpoch` blocks the
verifiers of the blocks before the boundary are counted.  The bounds of the window are
computed with wrapping subtractions.
-/

namespace N42.RewardWindows

open ChainTypes ChainDatabase RewardBinding

structure AposConfig where
  beijingBlock : Option Nat
  rewardEpoch : UInt64
  rewardLimit : Uint256

def newReward (conf : AposConfig) : RewardConfig where
  rewardLimit := conf.rewardLimit
  rewardEpoch := BitVec.ofNat 256 conf.rewardEpoch.toNat

/-- `uint256` gives zero for the remainder of a division by zero. -/
def mod256 (x y : Uint256) : Uint256 :=
  if y = 0 then 0 else x % y

def isRewardBlock (conf : AposConfig) (number : Uint256) : Bool :=
  isForked conf.beijingBlock (UInt64.ofNat number.toNat) &&
    mod256 (number - BitVec.ofNat 256 (conf.beijingBlock.getD 0)) (newReward conf).rewardEpoch == 0

/-- The rewards a block pays, and the sums it leaves unpaid if it pays rewards at all.
The list of the source is sorted by address; here it is a map. -/
def doReward (conf : AposConfig) (number : Uint256) (chain : RewardReader) (fuel : Nat) :
    Except RewardError (RewardMap × Option RewardMap) :=
  if isRewardBlock conf number then do
    let (pay, unpay) ← accumulateRewards (newReward conf) number chain fuel
    return (fun address => (pay address).filter (0 < ·), some unpay)
  else .ok (fun _ => none, none)

/-- The numbers of the blocks which `AccumulateRewards` looks up from `currentNr` down;
nothing if its loop has not ended. -/
def rewardNumbers (endNumber : Uint256) : Nat → Uint256 → Option (List Uint256)
  | 0, _ => none
  | fuel + 1, currentNr =>
    if currentNr < endNumber then some []
    else (rewardNumbers endNumber fuel (currentNr - 1)).map (currentNr :: ·)

def countBlock (chain : RewardReader) (rewards : RewardMap) (b : Block) : RewardMap :=
  b.verifiers.foldl (rewardVerifier chain) rewards

def countNumber (chain : RewardReader) (rewards : RewardMap) (number : Uint256) :
    Except RewardError RewardMap :=
  match chain.getBlockByNumber number with
  | none => .error .panic
  | some b => .ok (countBlock chain rewards b)

variable {endNumber : Uint256} {currentNr : Uint256}

theorem rewardBlocks_eq_foldlM (chain : RewardReader) {fuel : Nat} {numbers : List Uint256}
    (h : rewardNumbers endNumber fuel currentNr = some numbers) (rewards : RewardMap) :
    rewardBlocks chain endNumber fuel currentNr rewards =
      numbers.foldlM (countNumber chain) rewards := by
  induction fuel generalizing currentNr numbers rewards with
  | zero => simp [rewardNumbers] at h
  | succ fuel ih =>
    unfold rewardNumbers at h
    unfold rewardBlocks
    by_cases hend : currentNr < endNumber
    · rw [if_pos hend] at h ⊢
      cases h
      rfl
    · rw [if_neg hend] at h ⊢
      obtain ⟨rest, hrest, rfl⟩ := Option.map_eq_some_iff.mp h
      rw [List.foldlM_cons, countNumber]
      cases chain.getBlockByNumber currentNr with
      | none => rfl
      | some b => exact ih hrest _

theorem rewardNumbers_of_rewardBlocks {chain : RewardReader} {fuel : Nat}
    {rewards result : RewardMap}
    (h : rewardBlocks chain endNumber fuel currentNr rewards = .ok result) :
    ∃ numbers, rewardNumbers endNumber fuel currentNr = some numbers := by
  induction fuel generalizing currentNr rewards with
  | zero => simp [rewardBlocks] at h
  | succ fuel ih =>
    unfold rewardBlocks at h
    unfold rewardNumbers
    by_cases hend : currentNr < endNumber
    · exact ⟨[], if_pos hend⟩
    · rw [if_neg hend] at h ⊢
      cases hblock : chain.getBlockByNumber currentNr with
      | none => simp [hblock] at h
      | some b =>
        rw [hblock] at h
        obtain ⟨rest, hrest⟩ := ih h
        exact ⟨currentNr :: rest, by rw [hrest, Option.map_some]⟩

def descending (first length : Nat) : List Nat :=
  (List.range' first length).reverse

theorem mem_descending {first length n : Nat} :
    n ∈ descending first length ↔ first ≤ n ∧ n < first + length := by
  rw [descending, List.mem_reverse, List.mem_range'_1]

theorem descending_succ (first length : Nat) :
    descending first (length + 1) = (first + length) :: descending first length := by
  rw [descending, List.range'_concat, List.reverse_concat, descending, Nat.one_mul]

theorem rewardNumbers_descending (first length : Nat) (hpos : 0 < first)
    (hbound : first + length < 2 ^ 256) :
    rewardNumbers (BitVec.ofNat 256 first) (length + 1) (BitVec.ofNat 256 (first + length) - 1) =
      some ((descending first length).map (BitVec.ofNat 256)) := by
  induction length with
  | zero =>
    have hend : BitVec.ofNat 256 first - 1 < BitVec.ofNat 256 first := by
      bv_omega
    rw [rewardNumbers, Nat.add_zero, if_pos hend]
    rfl
  | succ length ih =>
    have hprev : BitVec.ofNat 256 (first + (length + 1)) - 1 =
        BitVec.ofNat 256 (first + length) := by
      bv_omega
    have hinside : ¬ BitVec.ofNat 256 (first + length) < BitVec.ofNat 256 first := by
      bv_omega
    rw [rewardNumbers, hprev, if_neg hinside, ih (by omega), descending_succ]
    rfl

theorem rewardNumbers_zero (fuel : Nat) (currentNr : Uint256) :
    rewardNumbers 0 fuel currentNr = none := by
  induction fuel generalizing currentNr with
  | zero => rfl
  | succ fuel ih =>
    have hinside : ¬ currentNr < 0 := by bv_omega
    rw [rewardNumbers, if_neg hinside, ih]
    rfl

def windowNumbers (conf : AposConfig) (fuel number : Nat) : Option (List Uint256) :=
  rewardNumbers (BitVec.ofNat 256 number - (newReward conf).rewardEpoch) fuel
    (BitVec.ofNat 256 number - 1)

/-- The computation for a block ends, and the blocks with the given numbers are the ones
it counts, on every chain that holds them. -/
def CountsExactly (conf : AposConfig) (number : Nat) (numbers : List Nat) : Prop :=
  ∃ fuel, windowNumbers conf fuel number = some (numbers.map (BitVec.ofNat 256)) ∧
    ∀ chain : RewardReader, ∀ blocks : Nat → Block,
      (∀ n ∈ numbers, chain.getBlockByNumber (BitVec.ofNat 256 n) = some (blocks n)) →
      rewardBlocks chain (BitVec.ofNat 256 number - (newReward conf).rewardEpoch) fuel
          (BitVec.ofNat 256 number - 1) (fun _ => none) =
        .ok ((numbers.map blocks).foldl (countBlock chain) fun _ => none)

def CountedAt (conf : AposConfig) (number n : Nat) : Prop :=
  isRewardBlock conf (BitVec.ofNat 256 number) = true ∧
    ∃ fuel numbers, windowNumbers conf fuel number = some numbers ∧ BitVec.ofNat 256 n ∈ numbers

theorem foldlM_countNumber {chain : RewardReader} {blocks : Nat → Block} {numbers : List Nat}
    (h : ∀ n ∈ numbers, chain.getBlockByNumber (BitVec.ofNat 256 n) = some (blocks n))
    (rewards : RewardMap) :
    (numbers.map (BitVec.ofNat 256)).foldlM (countNumber chain) rewards =
      .ok ((numbers.map blocks).foldl (countBlock chain) rewards) := by
  induction numbers generalizing rewards with
  | nil => rfl
  | cons n rest ih =>
    rw [List.map_cons, List.foldlM_cons, countNumber, h n List.mem_cons_self]
    exact ih (fun m hm => h m (List.mem_cons_of_mem n hm)) _

theorem countsExactly_of_numbers {conf : AposConfig} {number fuel : Nat} {numbers : List Nat}
    (h : windowNumbers conf fuel number = some (numbers.map (BitVec.ofNat 256))) :
    CountsExactly conf number numbers := by
  refine ⟨fuel, h, ?_⟩
  intro chain blocks hblocks
  rw [rewardBlocks_eq_foldlM chain h, foldlM_countNumber hblocks]

theorem rewardNumbers_mono {fuel more : Nat} {numbers : List Uint256}
    (h : rewardNumbers endNumber fuel currentNr = some numbers) (hle : fuel ≤ more) :
    rewardNumbers endNumber more currentNr = some numbers := by
  induction fuel generalizing more currentNr numbers with
  | zero => simp [rewardNumbers] at h
  | succ fuel ih =>
    obtain ⟨more, rfl⟩ := Nat.exists_eq_add_one_of_ne_zero (by omega : more ≠ 0)
    unfold rewardNumbers at h ⊢
    by_cases hend : currentNr < endNumber
    · rwa [if_pos hend] at h ⊢
    · rw [if_neg hend] at h ⊢
      obtain ⟨rest, hrest, rfl⟩ := Option.map_eq_some_iff.mp h
      rw [ih hrest (by omega), Option.map_some]

theorem windowNumbers_unique {conf : AposConfig} {number fuel fuel' : Nat}
    {numbers numbers' : List Uint256} (h : windowNumbers conf fuel number = some numbers)
    (h' : windowNumbers conf fuel' number = some numbers') : numbers = numbers' := by
  have hmax := rewardNumbers_mono h (Nat.le_max_left fuel fuel')
  have hmax' := rewardNumbers_mono h' (Nat.le_max_right fuel fuel')
  exact Option.some_inj.mp (hmax.symm.trans hmax')

section Windows

variable {conf : AposConfig} {beijing : UInt64}

structure ExactWindows (conf : AposConfig) (beijing : Nat) : Prop where
  boundary : ∀ k, 1 ≤ k → beijing + k * conf.rewardEpoch.toNat < 2 ^ 64 →
    CountsExactly conf (beijing + k * conf.rewardEpoch.toNat)
      (descending (beijing + (k - 1) * conf.rewardEpoch.toNat) conf.rewardEpoch.toNat)
  first : CountsExactly conf beijing []
  once : ∀ n, beijing ≤ n → n + conf.rewardEpoch.toNat < 2 ^ 64 →
    ∃! number, number < 2 ^ 64 ∧ CountedAt conf number n
  never : ∀ n number, n < beijing → number < 2 ^ 64 → ¬ CountedAt conf number n

theorem windowNumbers_boundary {number : Nat} (hpos : conf.rewardEpoch.toNat < number)
    (hbound : number < 2 ^ 64) :
    windowNumbers conf (conf.rewardEpoch.toNat + 1) number =
      some ((descending (number - conf.rewardEpoch.toNat) conf.rewardEpoch.toNat).map
        (BitVec.ofNat 256)) := by
  have hepoch := conf.rewardEpoch.toNat_lt
  have hend : BitVec.ofNat 256 number - BitVec.ofNat 256 conf.rewardEpoch.toNat =
      BitVec.ofNat 256 (number - conf.rewardEpoch.toNat) := by
    bv_omega
  have hwindow := rewardNumbers_descending (number - conf.rewardEpoch.toNat)
    conf.rewardEpoch.toNat (Nat.sub_pos_of_lt hpos) (by omega)
  rw [Nat.sub_add_cancel hpos.le] at hwindow
  rw [windowNumbers, newReward, hend, hwindow]

theorem windowNumbers_nil {number : Nat} (hpos : 0 < number)
    (hlt : number < conf.rewardEpoch.toNat) : windowNumbers conf 1 number = some [] := by
  have hepoch := conf.rewardEpoch.toNat_lt
  have hend : BitVec.ofNat 256 number - 1 <
      BitVec.ofNat 256 number - BitVec.ofNat 256 conf.rewardEpoch.toNat := by
    bv_omega
  rw [windowNumbers, newReward, rewardNumbers, if_pos hend]

theorem isRewardBlock_iff (hfork : conf.beijingBlock = some beijing.toNat)
    (hepoch : 0 < conf.rewardEpoch.toNat) {number : Nat} (hbound : number < 2 ^ 64) :
    isRewardBlock conf (BitVec.ofNat 256 number) = true ↔
      ∃ k, number = beijing.toNat + k * conf.rewardEpoch.toNat := by
  have hbeijing := beijing.toNat_lt
  have hlt := conf.rewardEpoch.toNat_lt
  have hforked : isForked (some beijing.toNat)
      (UInt64.ofNat (BitVec.ofNat 256 number).toNat) = true ↔ beijing.toNat ≤ number := by
    simp only [isForked, decide_eq_true_eq, UInt64.le_iff_toNat_le, UInt64.ofNat_toNat,
      UInt64.toNat_ofNat', BitVec.toNat_ofNat]
    omega
  have hnonzero : (BitVec.ofNat 256 conf.rewardEpoch.toNat : Uint256) ≠ 0 := by
    bv_omega
  have hmod (hle : beijing.toNat ≤ number) :
      (mod256 (BitVec.ofNat 256 number - BitVec.ofNat 256 beijing.toNat)
        (newReward conf).rewardEpoch == 0) = true ↔
      conf.rewardEpoch.toNat ∣ number - beijing.toNat := by
    have hsub : BitVec.ofNat 256 number - BitVec.ofNat 256 beijing.toNat =
        BitVec.ofNat 256 (number - beijing.toNat) := by
      bv_omega
    rw [newReward, mod256, if_neg hnonzero, hsub, beq_iff_eq, ← BitVec.toNat_inj,
      BitVec.toNat_umod, BitVec.toNat_ofNat, BitVec.toNat_ofNat,
      Nat.mod_eq_of_lt (by omega : number - beijing.toNat < 2 ^ 256),
      Nat.mod_eq_of_lt (by omega : conf.rewardEpoch.toNat < 2 ^ 256), Nat.dvd_iff_mod_eq_zero]
    rfl
  rw [isRewardBlock, hfork, Bool.and_eq_true, hforked]
  constructor
  · rintro ⟨hle, hzero⟩
    obtain ⟨k, hk⟩ := (hmod hle).mp hzero
    exact ⟨k, by rw [Nat.mul_comm]; omega⟩
  · rintro ⟨k, rfl⟩
    refine ⟨Nat.le_add_right _ _, (hmod (Nat.le_add_right _ _)).mpr ?_⟩
    rw [Nat.add_sub_cancel_left]
    exact Nat.dvd_mul_left _ _

theorem mem_map_ofNat {numbers : List Nat} (hbound : ∀ n ∈ numbers, n < 2 ^ 64) {n : Nat}
    (hn : n < 2 ^ 64) : BitVec.ofNat 256 n ∈ numbers.map (BitVec.ofNat 256) ↔ n ∈ numbers := by
  rw [List.mem_map]
  constructor
  · rintro ⟨m, hm, heq⟩
    have hlt := hbound m hm
    have hmn : m = n := by bv_omega
    exact hmn ▸ hm
  · intro hmem
    exact ⟨n, hmem, rfl⟩

section

variable (hfork : conf.beijingBlock = some beijing.toNat) (hpos : 0 < beijing.toNat)
  (hlt : beijing.toNat < conf.rewardEpoch.toNat)
include hfork hpos hlt

theorem countedAt_iff {number n : Nat} (hbound : number < 2 ^ 64) (hn : n < 2 ^ 64) :
    CountedAt conf number n ↔ ∃ k, number = beijing.toNat + (k + 1) * conf.rewardEpoch.toNat ∧
        beijing.toNat + k * conf.rewardEpoch.toNat ≤ n ∧ n < number := by
  have hmem {k : Nat} (hk : number = beijing.toNat + (k + 1) * conf.rewardEpoch.toNat) :
      BitVec.ofNat 256 n ∈ (descending (number - conf.rewardEpoch.toNat)
        conf.rewardEpoch.toNat).map (BitVec.ofNat 256) ↔
      beijing.toNat + k * conf.rewardEpoch.toNat ≤ n ∧ n < number := by
    rw [Nat.succ_mul] at hk
    have hsmall (m : Nat) (hm : m ∈ descending (number - conf.rewardEpoch.toNat)
        conf.rewardEpoch.toNat) : m < 2 ^ 64 := by
      have := (mem_descending.mp hm).2
      omega
    rw [mem_map_ofNat hsmall hn, mem_descending]
    omega
  have hepoch {k : Nat} (hk : number = beijing.toNat + (k + 1) * conf.rewardEpoch.toNat) :
      conf.rewardEpoch.toNat < number := by
    rw [hk, Nat.succ_mul]
    omega
  rw [CountedAt, isRewardBlock_iff hfork (hpos.trans hlt) hbound]
  constructor
  · rintro ⟨⟨k, hk⟩, fuel, numbers, hnumbers, hcounted⟩
    cases k with
    | zero =>
      rw [Nat.zero_mul, Nat.add_zero] at hk
      rw [windowNumbers_unique hnumbers (windowNumbers_nil (hk ▸ hpos) (hk ▸ hlt))] at hcounted
      exact absurd hcounted List.not_mem_nil
    | succ k =>
      rw [windowNumbers_unique hnumbers (windowNumbers_boundary (hepoch hk) hbound)] at hcounted
      exact ⟨k, hk, (hmem hk).mp hcounted⟩
  · rintro ⟨k, hk, hinside⟩
    exact ⟨⟨k + 1, hk⟩, _, _, windowNumbers_boundary (hepoch hk) hbound, (hmem hk).mpr hinside⟩

theorem exactWindows_of_lt :
    ExactWindows conf beijing.toNat where
  boundary := by
    intro k hk hbound
    obtain ⟨k, rfl⟩ := Nat.exists_eq_add_of_le' hk
    have hlarge : conf.rewardEpoch.toNat < beijing.toNat + (k + 1) * conf.rewardEpoch.toNat := by
      rw [Nat.succ_mul]
      omega
    have hstart : beijing.toNat + (k + 1) * conf.rewardEpoch.toNat - conf.rewardEpoch.toNat =
        beijing.toNat + k * conf.rewardEpoch.toNat := by
      rw [Nat.succ_mul]
      omega
    have hwindow := windowNumbers_boundary hlarge hbound
    rw [hstart] at hwindow
    exact countsExactly_of_numbers hwindow
  first := countsExactly_of_numbers (windowNumbers_nil hpos hlt)
  once := by
    intro n hge hbound
    have hepoch : 0 < conf.rewardEpoch.toNat := hpos.trans hlt
    have hwindow {k : Nat} : (beijing.toNat + k * conf.rewardEpoch.toNat ≤ n ∧
        n < beijing.toNat + (k + 1) * conf.rewardEpoch.toNat) ↔
        (n - beijing.toNat) / conf.rewardEpoch.toNat = k := by
      rw [Nat.div_eq_iff hepoch, Nat.succ_mul]
      omega
    obtain ⟨k, hk⟩ : ∃ k, (n - beijing.toNat) / conf.rewardEpoch.toNat = k := ⟨_, rfl⟩
    have hinside := hwindow.mpr hk
    have hnumber : beijing.toNat + (k + 1) * conf.rewardEpoch.toNat < 2 ^ 64 := by
      rw [Nat.succ_mul]
      omega
    refine ⟨_, ⟨hnumber, (countedAt_iff hfork hpos hlt hnumber (by omega)).mpr
      ⟨k, rfl, hinside⟩⟩, ?_⟩
    rintro number ⟨hsmall, hcounted⟩
    obtain ⟨j, rfl, hj⟩ := (countedAt_iff hfork hpos hlt hsmall (by omega)).mp hcounted
    rw [← hwindow.mp hj, hk]
  never := by
    intro n number hbefore hbound hcounted
    obtain ⟨k, -, hge, -⟩ := (countedAt_iff hfork hpos hlt hbound (by
      have := beijing.toNat_lt
      omega)).mp hcounted
    omega

end

theorem not_exactWindows_zero : ¬ ExactWindows conf 0 := by
  intro h
  have hepoch := conf.rewardEpoch.toNat_lt
  obtain ⟨fuel, hnumbers, -⟩ := h.boundary 1 (Nat.le_refl 1) (by omega)
  have hend : BitVec.ofNat 256 (0 + 1 * conf.rewardEpoch.toNat) -
      (newReward conf).rewardEpoch = 0 := by
    rw [Nat.zero_add, Nat.one_mul]
    exact BitVec.sub_self _
  rw [windowNumbers, hend, rewardNumbers_zero] at hnumbers
  cases hnumbers

theorem not_countsExactly_nil (hepoch : 0 < conf.rewardEpoch.toNat)
    (hle : conf.rewardEpoch.toNat ≤ beijing.toNat) :
    ¬ CountsExactly conf beijing.toNat [] := by
  rintro ⟨fuel, hnumbers, -⟩
  have hbeijing := beijing.toNat_lt
  have hinside : ¬ BitVec.ofNat 256 beijing.toNat - 1 <
      BitVec.ofNat 256 beijing.toNat - BitVec.ofNat 256 conf.rewardEpoch.toNat := by
    bv_omega
  cases fuel with
  | zero => cases hnumbers
  | succ fuel =>
    rw [windowNumbers, newReward, rewardNumbers, if_neg hinside] at hnumbers
    obtain ⟨rest, -, hcons⟩ := Option.map_eq_some_iff.mp hnumbers
    cases hcons

/-- The windows are exact if and only if the Beijing block comes after block zero and
before the end of the first epoch of the chain. -/
theorem exactWindows_iff (conf : AposConfig) (beijing : UInt64)
    (hfork : conf.beijingBlock = some beijing.toNat) (hepoch : 0 < conf.rewardEpoch.toNat) :
    ExactWindows conf beijing.toNat ↔
      0 < beijing.toNat ∧ beijing.toNat < conf.rewardEpoch.toNat := by
  constructor
  · intro h
    constructor
    · by_contra hzero
      rw [Nat.eq_zero_of_not_pos hzero] at h
      exact not_exactWindows_zero h
    · by_contra hle
      exact not_countsExactly_nil hepoch (Nat.le_of_not_lt hle) h.first
  · rintro ⟨hpos, hlt⟩
    exact exactWindows_of_lt hfork hpos hlt

theorem exactWindows_one : ExactWindows ⟨some 1, 2, 1⟩ 1 :=
  (exactWindows_iff ⟨some 1, 2, 1⟩ 1 rfl (by decide)).mpr (by decide)

end Windows

def toyHistory (b : Block) (height : Uint256) : RewardReader where
  getBlockByNumber number := if number < height then some b else none
  getDepositInfo _ := some (3, 10)
  getAccountRewardUnpaid _ := none

def toyRewardAt (conf : AposConfig) (number : Uint256) (address : Address) :
    Except RewardError (Option Uint256) :=
  (doReward conf number
    (toyHistory (verifiedBlock (HeaderSealing.toyAddress 1)) number) 4).map fun paid =>
      paid.1 address

/-- With a fork at block four and epochs of two blocks, the fork block pays for two blocks
before it; with a fork at block zero, the first boundary looks for a block before the
genesis block and dereferences it. -/
theorem first_windows_misplaced :
    toyRewardAt ⟨some 4, 2, 1⟩ 4 (HeaderSealing.toyAddress 1) = .ok (some 6) ∧
      ¬ ExactWindows ⟨some 4, 2, 1⟩ 4 ∧
      toyRewardAt ⟨some 0, 2, 1⟩ 2 (HeaderSealing.toyAddress 1) = .error .panic ∧
      ¬ ExactWindows ⟨some 0, 2, 1⟩ 0 := by
  have hbefore : ¬ CountsExactly ⟨some 4, 2, 1⟩ (4 : UInt64).toNat [] :=
    not_countsExactly_nil (by decide) (by decide)
  exact ⟨by rfl, fun h => hbefore h.first, by rfl, not_exactWindows_zero⟩

end N42.RewardWindows
