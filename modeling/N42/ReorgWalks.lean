import N42.StoredChains

/-!
The walks of a reorganisation over two stored branches on a shared chain.
-/

namespace N42.ReorgWalks

open ChainTypes ChainDatabase StatefulActions.Action ChainReorg StoredChains

variable {lib : Primitives} {tx : Database} {w : Walk} {bc bc' : BlockChain}

theorem reduceOld_next {parent : BlockRef}
    (hne : w.oldBlock.block.number64 ≠ w.newBlock.block.number64)
    (hparent : bc.getParent w.oldBlock = (some parent, bc')) :
    reduceOld lib w bc = (.ok (.inl (w.dropOld lib parent)), bc') := by
  rw [reduceOld, if_neg hne]
  exact bind_eq_ok_iff.mpr ⟨_, _, ofState_eq_ok_iff.mpr hparent,
    bind_eq_ok_iff.mpr ⟨_, _, require_eq_ok_iff.mpr ⟨rfl, rfl⟩, rfl⟩⟩

theorem reduceOld_done (h : w.oldBlock.block.number64 = w.newBlock.block.number64) :
    reduceOld lib w bc = (.ok (.inr w), bc) := by
  rw [reduceOld, if_pos h]
  rfl

theorem reduceNew_next {parent : BlockRef}
    (hne : w.newBlock.numberPointer ≠ w.oldBlock.numberPointer)
    (hparent : bc.getParent w.newBlock = (some parent, bc')) :
    reduceNew w bc = (.ok (.inl (w.stashNew parent)), bc') := by
  rw [reduceNew, if_neg hne]
  exact bind_eq_ok_iff.mpr ⟨_, _, ofState_eq_ok_iff.mpr hparent,
    bind_eq_ok_iff.mpr ⟨_, _, require_eq_ok_iff.mpr ⟨rfl, rfl⟩, rfl⟩⟩

theorem reduceNew_done (h : w.newBlock.numberPointer = w.oldBlock.numberPointer) :
    reduceNew w bc = (.ok (.inr w), bc) := by
  rw [reduceNew, if_pos h]
  rfl

theorem stepBack_next {oldParent newParent : BlockRef} {mid : BlockChain}
    (hne : w.oldBlock.block.hash lib ≠ w.newBlock.block.hash lib)
    (hold : bc.readParent tx w.oldBlock = (some oldParent, mid))
    (hnew : mid.readParent tx w.newBlock = (some newParent, bc')) :
    stepBack lib tx w bc = (.ok (.inl ((w.dropOld lib oldParent).stashNew newParent)), bc') := by
  rw [stepBack, if_neg hne]
  exact bind_eq_ok_iff.mpr ⟨_, _, ofState_eq_ok_iff.mpr hold,
    bind_eq_ok_iff.mpr ⟨_, _, ofState_eq_ok_iff.mpr hnew,
      bind_eq_ok_iff.mpr ⟨_, _, require_eq_ok_iff.mpr ⟨rfl, rfl⟩,
        bind_eq_ok_iff.mpr ⟨_, _, require_eq_ok_iff.mpr ⟨rfl, rfl⟩, rfl⟩⟩⟩⟩

theorem stepBack_done (h : w.oldBlock.block.hash lib = w.newBlock.block.hash lib) :
    stepBack lib tx w bc = (.ok (.inr w), bc) := by
  rw [stepBack, if_pos h]
  rfl

theorem loop_reduceOld {oldBlock : BlockRef} {dropped kept : List Block}
    (hkept : kept ≠ []) (hchain : Chained lib (dropped ++ kept))
    (hlen : (dropped ++ kept).length ≤ 2 ^ 64)
    (hstored : Stored lib bc.chainDB (dropped ++ kept)) (hsound : Sound oldBlock bc)
    (hhead : (dropped ++ kept).head? = some w.oldBlock.block)
    (hnumber : w.newBlock.block.number64.toNat + 1 = kept.length) :
    ∃ parent bc', loop .outOfFuel (reduceOld lib) (dropped.length + 1) w bc = (.ok { w with
          oldBlock := parent
          deletedTxs := w.deletedTxs ++ dropped.flatMap (Block.txHashes lib) }, bc') ∧
      kept.head? = some parent.block ∧ bc'.chainDB = bc.chainDB := by
  have hold := hchain.head_number64_toNat hlen hhead
  induction dropped generalizing w bc with
  | nil =>
    have hsame : w.oldBlock.block.number64 = w.newBlock.block.number64 :=
      UInt64.toNat_inj.mp (by rw [List.nil_append] at hold; omega)
    refine ⟨w.oldBlock, bc, ?_, hhead, rfl⟩
    rw [loop_of_done _ (reduceOld_done hsame)]
    simp
  | cons d dropped ih =>
    have hblock : w.oldBlock.block = d := by simpa using hhead.symm
    have hne : w.oldBlock.block.number64 ≠ w.newBlock.block.number64 := by
      intro hnumbers
      rw [hnumbers, hnumber] at hold
      simp only [List.cons_append, List.length_cons, List.length_append] at hold
      omega
    obtain ⟨parent, mid, hparent, hbelow, -, hdb, hmid⟩ :=
      getParent_of_chained hsound hchain (by simp [hkept]) hstored.tail hblock
    have hlen' : (dropped ++ kept).length ≤ 2 ^ 64 := by
      simp only [List.cons_append, List.length_cons] at hlen
      omega
    obtain ⟨last, bc', hloop, hlast, hdb'⟩ := ih (w := w.dropOld lib parent)
      hchain.2.2.2 hlen' (hdb ▸ hstored.tail) hmid hbelow hnumber
      (hchain.2.2.2.head_number64_toNat hlen' hbelow)
    refine ⟨last, bc', ?_, hlast, hdb'.trans hdb⟩
    rw [List.length_cons, loop_of_next _ (reduceOld_next hne hparent), hloop]
    simp [Walk.dropOld, hblock]

theorem loop_stepBack {olds news shared : List Block} {k : Block}
    (hsame : olds.length = news.length)
    (hold : Chained lib (olds ++ k :: shared)) (hnew : Chained lib (news ++ k :: shared))
    (hstoredOld : Stored lib tx (olds ++ k :: shared))
    (hstoredNew : Stored lib tx (news ++ k :: shared))
    (hdiverge : ∀ o ∈ olds.getLast?, ∀ n ∈ news.getLast?, o.hash lib ≠ n.hash lib)
    (holdHead : (olds ++ k :: shared).head? = some w.oldBlock.block)
    (hnewHead : (news ++ k :: shared).head? = some w.newBlock.block) :
    ∃ walk bc', loop .outOfFuel (stepBack lib tx) (olds.length + 1) w bc = (.ok walk, bc') ∧
      walk.oldBlock.block = k ∧
      walk.newChain.map BlockRef.block = w.newChain.map BlockRef.block ++ news ∧
      walk.deletedTxs = w.deletedTxs ++ olds.flatMap (Block.txHashes lib) ∧
      bc'.chainDB = bc.chainDB := by
  induction olds generalizing w bc news with
  | nil =>
    obtain rfl : news = [] := List.length_eq_zero_iff.mp hsame.symm
    have hblocks : w.oldBlock.block = k ∧ w.newBlock.block = k := by
      constructor
      · simpa using holdHead.symm
      · simpa using hnewHead.symm
    refine ⟨w, bc, loop_of_done _ (stepBack_done ?_), hblocks.1, ?_, ?_, rfl⟩
    · rw [hblocks.1, hblocks.2]
    · simp
    · simp
  | cons o olds ih =>
    cases news with
    | nil => cases hsame
    | cons n news =>
      have ho : w.oldBlock.block = o := by simpa using holdHead.symm
      have hn : w.newBlock.block = n := by simpa using hnewHead.symm
      have hlen : olds.length = news.length := by simpa using hsame
      have hne : w.oldBlock.block.hash lib ≠ w.newBlock.block.hash lib := by
        rw [ho, hn]
        refine hash_ne_of_getLast hlen hold hnew
          (fun b hb => hstoredOld b (List.mem_append_left _ hb))
          (fun b hb => hstoredNew b (List.mem_append_left _ hb)) ?_
        exact hdiverge _ (List.getLast?_eq_getLast_of_ne_nil _) _
          (List.getLast?_eq_getLast_of_ne_nil _)
      obtain ⟨oldParent, mid, hreadOld, hbelowOld, hdb⟩ :=
        readParent_of_chained hold (by simp) hstoredOld.tail ho
      obtain ⟨newParent, next, hreadNew, hbelowNew, hdb'⟩ :=
        readParent_of_chained hnew (by simp) hstoredNew.tail hn
      have htail : ∀ o' ∈ olds.getLast?, ∀ n' ∈ news.getLast?, o'.hash lib ≠ n'.hash lib := by
        intro o' ho' n' hn'
        refine hdiverge o' ?_ n' ?_
        · rw [List.getLast?_cons, Option.mem_def.mp ho']
          rfl
        · rw [List.getLast?_cons, Option.mem_def.mp hn']
          rfl
      obtain ⟨walk, bc', hloop, hk, hchain, htxs, hdb''⟩ :=
        ih (w := (w.dropOld lib oldParent).stashNew newParent) hlen hold.2.2.2 hnew.2.2.2
          hstoredOld.tail hstoredNew.tail htail hbelowOld hbelowNew
      refine ⟨walk, bc', ?_, hk, ?_, ?_, hdb''.trans (hdb'.trans hdb)⟩
      · rw [List.length_cons, loop_of_next _ (stepBack_next hne hreadOld hreadNew), hloop]
      · rw [hchain]
        simp [Walk.stashNew, Walk.dropOld, hn]
      · rw [htxs]
        simp [Walk.stashNew, Walk.dropOld, ho]

def getAncestor : Nat → BlockRef → BlockChain → Option BlockRef
  | 0, ref, _ => some ref
  | steps + 1, ref, bc =>
    match bc.getParent ref with
    | (none, _) => none
    | (some parent, bc') => getAncestor steps parent bc'

/-- Going back from `newBlock` through the cache leads to `oldBlock` as it is in memory. -/
def Meets (bc : BlockChain) (oldBlock newBlock : BlockRef) : Prop :=
  ∃ steps ref, getAncestor steps newBlock bc = some ref ∧ ref.numberPointer = oldBlock.numberPointer

theorem Meets.of_parent {oldBlock newBlock parent : BlockRef}
    (hparent : bc.getParent newBlock = (some parent, bc')) (h : Meets bc' oldBlock parent) :
    Meets bc oldBlock newBlock := by
  obtain ⟨steps, ref, hget, href⟩ := h
  refine ⟨steps + 1, ref, ?_, href⟩
  rw [getAncestor, hparent]
  exact hget

theorem meets_of_loop {fuel : Nat} {walk : Walk}
    (h : loop .outOfFuel reduceNew fuel w bc = (.ok walk, bc')) :
    Meets bc w.oldBlock w.newBlock := by
  induction fuel generalizing w bc with
  | zero => exact absurd h fail_eq_ok_iff
  | succ fuel ih =>
    by_cases hpointer : w.newBlock.numberPointer = w.oldBlock.numberPointer
    · exact ⟨0, w.newBlock, rfl, hpointer⟩
    · rcases hparent : bc.getParent w.newBlock with ⟨_ | parent, mid⟩
      · rw [loop] at h
        obtain ⟨outcome, mid', hstep, -⟩ := bind_eq_ok_iff.mp h
        rw [reduceNew, if_neg hpointer] at hstep
        simp [bind_eq_ok_iff, hparent] at hstep
      · rw [loop_of_next _ (reduceNew_next hpointer hparent)] at h
        exact Meets.of_parent hparent (ih h)

theorem loop_reduceNew {steps : Nat} {chain : List Block} {found : BlockRef}
    (hchain : Chained lib chain) (hstored : Stored lib bc.chainDB chain)
    (hsound : Sound w.oldBlock bc) (hhead : chain.head? = some w.newBlock.block)
    (hidentity : w.newBlock.numberPointer = w.oldBlock.numberPointer →
      w.newBlock.block = w.oldBlock.block)
    (hget : getAncestor steps w.newBlock bc = some found)
    (hfound : found.numberPointer = w.oldBlock.numberPointer) :
    ∃ walk bc' passed below, loop .outOfFuel reduceNew (steps + 1) w bc = (.ok walk, bc') ∧
      chain = passed ++ w.oldBlock.block :: below ∧
      walk.oldBlock = w.oldBlock ∧ walk.newBlock.block = w.oldBlock.block ∧
      walk.newChain.map BlockRef.block = w.newChain.map BlockRef.block ++ passed ∧
      walk.deletedTxs = w.deletedTxs ∧ bc'.chainDB = bc.chainDB := by
  induction steps generalizing w bc chain with
  | zero =>
    obtain rfl : w.newBlock = found := Option.some.inj hget
    have hblock := hidentity hfound
    refine ⟨w, bc, [], chain.tail, loop_of_done _ (reduceNew_done hfound), ?_, rfl, hblock,
      (List.append_nil _).symm, rfl, rfl⟩
    rw [← hblock]
    exact List.eq_cons_of_mem_head? hhead
  | succ steps ih =>
    obtain ⟨below, rfl⟩ : ∃ below, chain = w.newBlock.block :: below :=
      ⟨chain.tail, List.eq_cons_of_mem_head? hhead⟩
    by_cases hpointer : w.newBlock.numberPointer = w.oldBlock.numberPointer
    · have hblock := hidentity hpointer
      exact ⟨w, bc, [], below, loop_of_done _ (reduceNew_done hpointer), by rw [hblock]; rfl,
        rfl, hblock, (List.append_nil _).symm, rfl, rfl⟩
    · have hne : below ≠ [] := by
        rintro rfl
        rw [getAncestor, getParent_of_first hchain rfl] at hget
        cases hget
      obtain ⟨parent, mid, hparent, hbelow, hparentIdentity, hdb, hmid⟩ :=
        getParent_of_chained hsound hchain hne hstored.tail rfl
      rw [getAncestor, hparent] at hget
      obtain ⟨walk, bc', passed, rest, hloop, hsplit, hold, hblock, hnewChain, htxs, hdb'⟩ :=
        ih (w := w.stashNew parent) hchain.2.2.2 (hdb ▸ hstored.tail) hmid hbelow
          hparentIdentity hget hfound
      refine ⟨walk, bc', w.newBlock.block :: passed, rest, ?_, ?_, hold, hblock, ?_, htxs,
        hdb'.trans hdb⟩
      · rw [loop_of_next _ (reduceNew_next hpointer hparent), hloop]
      · rw [hsplit]
        rfl
      · rw [hnewChain]
        simp [Walk.stashNew]

end N42.ReorgWalks
