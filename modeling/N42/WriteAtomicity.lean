import N42.FailingWrites

/-!
Which database failures leave the chain whole.  One logical update is spread over several
transactions, and the head in memory is set before the last one is committed.
-/

namespace N42.WriteAtomicity

open ChainTypes HeaderSealing ChainDatabase ChainReorg ReorgCorrectness
open ReorgTables CompetingBlocks TransactionScripts FailingWrites

variable {S : Type} {lib : Primitives}

/-- An operation that starts with the head in memory on disk, and which has something to
do: the blocks it makes the head are other blocks, and a block it stores is new. -/
structure Fresh (lib : Primitives) (op : Operation S) (w : World (Disk S) BlockRef) :
    Prop where
  head : IsHead lib w.memory w.disk
  heads : ∀ ref ∈ heads op, ref.block.hash lib ≠ w.memory.block.hash lib
  stored : ∀ ref e n choice, op = .writeBlockWithState ref e n choice →
    w.disk.db.readBlock (ref.block.hash lib) ref.block.number64 = none
  branch : ∀ ref e n plan, op = .writeBlockWithState ref e n (.reorg plan) →
    ∀ c ∈ plan.branch, c.block.hash lib ≠ ref.block.hash lib

def Safe (lib : Primitives) (op : Operation S) (w : World (Disk S) BlockRef) (i : Nat) : Prop :=
  SafeAt (IsHead lib) (script lib op) w i ∧ op.lends = false

theorem Fresh.stores {op : Operation S} {w : World (Disk S) BlockRef} (h : Fresh lib op w)
    (m : BlockRef) (hm : .store m ∈ script lib op) : ¬ IsHead lib m w.disk := by
  intro hhead
  rw [IsHead, h.head] at hhead
  rw [← mem_stores, stores_script] at hm
  exact h.heads m hm (Option.some.inj hhead).symm

/-- The stored block of an import, while another block is the head on disk. -/
structure Between (lib : Primitives) (b : Block) (d : Disk S) : Prop where
  stored : d.db.readBlock (b.hash lib) b.number64 = some b
  head : d.db.headBlockHash ≠ some (b.hash lib)

theorem effect_rewardCalls (rewards : List (Address × Uint256)) (d : Disk S) :
    (effect (rewards.map rewardCall) d).db = d.db ∧
      (effect (rewards.map rewardCall) d).tables = d.tables := by
  induction rewards generalizing d with
  | nil => exact ⟨rfl, rfl⟩
  | cons entry rewards ih =>
    exact ih { d with rewards := Function.update d.rewards entry.1 (some entry.2) }

theorem db_effect_storeCalls (b : Block) (e : Effects S) (d : Disk S) :
    (effect (storeCalls lib b e) d).db =
      (d.db.writeTd (b.hash lib) b.number64 e.td).writeBlock lib b := by
  rw [storeCalls, effect_append, (effect_rewardCalls _ _).1, effect_append, effect_append]
  split
  · rfl
  · rfl

theorem between_storeCalls {b : Block} {e : Effects S} {d : Disk S}
    (hd : d.db.headBlockHash ≠ some (b.hash lib)) :
    Between lib b (effect (storeCalls lib b e) d) := by
  constructor
  · rw [db_effect_storeCalls]
    simp only [Database.readBlock, Database.writeBlock, Function.update_self]
  · rw [db_effect_storeCalls]
    exact hd

theorem readBlock_trim (number : UInt64) (db : Database) :
    (trim number db).readBlock = db.readBlock ∧
      (trim number db).headBlockHash = db.headBlockHash := by
  rw [trim]
  split
  · exact ⟨rfl, rfl⟩
  · exact ⟨rfl, rfl⟩

/-- The calls of a reorganisation do not touch the stored blocks, and they make no other
blocks the head than those of the branch. -/
theorem between_reorgCalls {b : Block} {plan : Plan} {d : Disk S} (hd : Between lib b d)
    (hbranch : ∀ c ∈ plan.branch, c.block.hash lib ≠ b.hash lib) :
    Between lib b (effect (reorgCalls lib plan) d) := by
  refine effect_keeps (fun f r hf d hd => ?_) hd
  simp only [reorgCalls, List.mem_append, List.mem_flatMap, List.mem_map, List.mem_replicate] at hf
  rcases hf with ((⟨-, heq⟩ | ⟨ref, href, hf⟩) | ⟨hash, -, heq⟩) | hf
  · cases heq
    exact hd
  · have hother : some (ref.block.hash lib) ≠ some (b.hash lib) :=
      fun heq => hbranch ref href (Option.some.inj heq)
    simp only [headCalls, List.mem_cons, Command.call.injEq, List.not_mem_nil, or_false,
      reduceCtorEq] at hf
    rcases hf with ⟨rfl, -⟩ | ⟨rfl, -⟩ | ⟨rfl, -⟩ | ⟨rfl, -⟩
    · exact ⟨hd.stored, hother⟩
    · exact ⟨hd.stored, hother⟩
    · exact ⟨hd.stored, hd.head⟩
    · exact ⟨hd.stored, hd.head⟩
  · cases heq
    exact ⟨hd.stored, hd.head⟩
  · have htrim (number : UInt64) : Between lib b (onDb (trim number) d) := by
      obtain ⟨hread, hhead⟩ := readBlock_trim number d.db
      refine ⟨?_, ?_⟩
      · change (trim number d.db).readBlock _ _ = _
        rw [hread]
        exact hd.stored
      · change (trim number d.db).headBlockHash ≠ _
        rw [hhead]
        exact hd.head
    unfold markerCalls at hf
    split at hf
    · simp only [List.mem_cons, Command.call.injEq, List.not_mem_nil, or_false] at hf
      rcases hf with ⟨rfl, -⟩ | ⟨rfl, -⟩ | ⟨rfl, -⟩
      · exact hd
      · exact htrim plan.number
      · exact hd
    · simp only [List.mem_singleton, Command.call.injEq] at hf
      obtain ⟨rfl, -⟩ := hf
      exact hd

variable {p : List (Command (Disk S) BlockRef)}

theorem isCommit_of_plain (hp : ∀ c ∈ p, c.isPlain = true) : ∀ c ∈ p, c.isCommit = false := by
  intro c hc
  have hplain := hp c hc
  cases c with
  | commit => cases hplain
  | _ => rfl

theorem isCommit_begin_cons (hp : ∀ c ∈ p, c.isPlain = true) :
    ∀ c ∈ .begin :: p, c.isCommit = false :=
  List.forall_mem_cons.mpr ⟨rfl, isCommit_of_plain hp⟩

section Commits

variable {w : World (Disk S) BlockRef}

theorem commits_reads (n : Nat) (reaction : OnFailure (Disk S)) :
    commits (List.replicate n (.call id reaction)) w = [] :=
  commits_of_plain (fun c hc => by rw [(List.mem_replicate.mp hc).2]; rfl) w

theorem disk_reads (n : Nat) (reaction : OnFailure (Disk S)) :
    (run (List.replicate n (.call id reaction)) w).disk = w.disk := by
  rw [disk_run, commits_reads]
  rfl

theorem commits_reorgScript (plan : Plan) :
    commits (reorgScript lib false plan) w = [effect (reorgCalls lib plan) w.disk] := by
  rw [reorgScript, if_neg (by decide), commits_append, commits_reads, List.nil_append,
    commits_own (plain_reorgCalls plan), disk_reads]

theorem commits_choiceScript (ref : BlockRef) (choice : Choice) :
    commits (choiceScript lib ref choice) w =
      match choice with
      | .side => []
      | .child => [effect (headCalls lib .abort ref) w.disk]
      | .reorg plan => [effect (reorgCalls lib plan) w.disk,
          effect (headCalls lib .abort ref) (effect (reorgCalls lib plan) w.disk)] := by
  cases choice with
  | side => rfl
  | child => exact commits_own (plain_headCalls _ ref) w
  | reorg plan =>
    rw [choiceScript, commits_append, commits_reorgScript,
      commits_own (plain_headCalls _ ref), disk_run (reorgScript lib false plan),
      commits_reorgScript]
    rfl

theorem commits_import (ref : BlockRef) (e : Effects S) (n : Nat) (choice : Choice) :
    ∃ w', w'.disk = effect (storeCalls lib ref.block e) w.disk ∧
      commits (script lib (.writeBlockWithState ref e n choice)) w =
        w'.disk :: commits (choiceScript lib ref choice) w' := by
  refine ⟨run (List.replicate n (.call id .exit)) (run (own (storeCalls lib ref.block e)) w),
    ?_, ?_⟩
  · rw [disk_reads, disk_run_own (plain_storeCalls ref.block e)]
  · rw [script, commits_append, commits_append, commits_reads, List.nil_append, disk_reads,
      commits_own (plain_storeCalls ref.block e), disk_run_own (plain_storeCalls ref.block e)]
    rfl

variable {choice : Choice} {ref : BlockRef} {e : Effects S}

theorem mem_heads_choice {n : Nat} (h : choice ≠ .side) :
    ref ∈ heads (.writeBlockWithState ref e n choice) := by
  cases choice with
  | side => exact absurd rfl h
  | child => exact List.mem_singleton_self ref
  | reorg plan => exact List.mem_append_right _ (List.mem_singleton_self ref)

theorem between_import {n : Nat} (h : Fresh lib (.writeBlockWithState ref e n choice) w)
    {d : Disk S} (hd : d ∈ (commits (script lib (.writeBlockWithState ref e n choice)) w).dropLast) :
    Between lib ref.block d ∧
      (run (script lib (.writeBlockWithState ref e n choice)) w).disk.db.headBlockHash =
        some (ref.block.hash lib) := by
  obtain ⟨w', hdisk, hcommits⟩ : ∃ w', w'.disk = effect (storeCalls lib ref.block e) w.disk ∧
      commits (script lib (.writeBlockWithState ref e n choice)) w =
        w'.disk :: commits (choiceScript lib ref choice) w' :=
    commits_import ref e n choice
  have hother (hne : choice ≠ .side) : w.disk.db.headBlockHash ≠ some (ref.block.hash lib) := by
    rw [h.head]
    intro heq
    exact h.heads ref (mem_heads_choice hne) (Option.some.inj heq).symm
  rw [disk_run, hcommits, commits_choiceScript]
  rw [hcommits, commits_choiceScript] at hd
  cases choice with
  | side => cases hd
  | child =>
    have hfirst : Between lib ref.block w'.disk := hdisk ▸ between_storeCalls (hother nofun)
    rw [List.mem_singleton.mp hd]
    exact ⟨hfirst, rfl⟩
  | reorg plan =>
    have hfirst : Between lib ref.block w'.disk := hdisk ▸ between_storeCalls (hother nofun)
    have hsecond := between_reorgCalls hfirst (h.branch ref e n plan rfl)
    rcases List.mem_cons.mp hd with rfl | hd
    · exact ⟨hfirst, rfl⟩
    · rw [List.mem_singleton.mp hd]
      exact ⟨hsecond, rfl⟩

theorem commits_take_own {p : List (Command (Disk S) BlockRef)}
    (hp : ∀ c ∈ p, c.isPlain = true) {i : Nat} (hi : i < (own p).length) :
    commits ((own p).take i) w = [] := by
  have hle : i ≤ (.begin :: p).length := by
    simp only [own, List.length_cons, List.length_append, List.length_nil] at hi ⊢
    omega
  refine (commits_eq_nil_iff _ w).mpr fun c hc => ?_
  change c ∈ ((Command.begin :: p) ++ [Command.commit]).take i at hc
  rw [List.take_append_of_le_length hle] at hc
  exact isCommit_begin_cons hp c (List.mem_of_mem_take hc)

theorem aborts_import {n i : Nat}
    (hfailure : reactionAt (script lib (.writeBlockWithState ref e n choice)) i = some .abort)
    (hbefore : commits ((script lib (.writeBlockWithState ref e n choice)).take i) w ≠ [])
    (w' : World (Disk S) BlockRef) :
    commits ((script lib (.writeBlockWithState ref e n choice)).drop i) w' ≠ [] := by
  have hcall : reactionAt (script lib (.writeBlockWithState ref e n choice)) i ≠ none := by
    rw [hfailure]
    exact nofun
  -- Only the script of a side block does not end with a commit.
  suffices h : choice = .side ∨ ∃ q,
      script lib (.writeBlockWithState ref e n choice) = q ++ [.commit] by
    rcases h with rfl | ⟨q, hq⟩
    · refine absurd ?_ hbefore
      have hscript : script lib (.writeBlockWithState ref e n .side) =
          own (storeCalls lib ref.block e) ++ List.replicate n (.call id .exit) := by
        simp only [script, choiceScript, List.append_nil]
      rw [hscript] at hfailure ⊢
      rcases Nat.lt_or_ge i (own (storeCalls lib ref.block e)).length with hi | hi
      · rw [List.take_append_of_le_length hi.le]
        exact commits_take_own (plain_storeCalls ref.block e) hi
      · rw [reactionAt, List.getElem?_append_right hi, List.getElem?_replicate] at hfailure
        split_ifs at hfailure
        cases hfailure
    · rw [hq] at hcall ⊢
      exact commits_drop_ne_nil hcall w'
  cases choice with
  | side => exact .inl rfl
  | child =>
    refine .inr ⟨own (storeCalls lib ref.block e) ++ (List.replicate n (.call id .exit) ++
      .begin :: headCalls lib .abort ref), ?_⟩
    simp only [script, choiceScript, own, List.append_assoc, List.cons_append]
  | reorg plan =>
    refine .inr ⟨own (storeCalls lib ref.block e) ++ (List.replicate n (.call id .exit) ++
      (reorgScript lib false plan ++ .begin :: headCalls lib .abort ref)), ?_⟩
    simp only [script, choiceScript, own, List.append_assoc, List.cons_append]

theorem distinguished_import {n : Nat} (h : Fresh lib (.writeBlockWithState ref e n choice) w) :
    Distinguished (IsHead lib) (script lib (.writeBlockWithState ref e n choice)) w := by
  refine ⟨fun d hd => ?_, h.stores, fun i hfailure hbefore => aborts_import hfailure hbefore _⟩
  obtain ⟨hbetween, hfinal⟩ := between_import h hd
  constructor
  · rintro rfl
    have hstored := hbetween.stored
    rw [h.stored ref e n choice rfl] at hstored
    cases hstored
  · rintro rfl
    exact hbetween.head hfinal

theorem distinguished_of_fresh {op : Operation S} (h : Fresh lib op w)
    (hlends : op.lends = false) : Distinguished (IsHead lib) (script lib op) w := by
  have hown {p : List (Command (Disk S) BlockRef)} (hp : ∀ c ∈ p, c.isPlain = true)
      (hstores : ∀ m, .store m ∈ own p → ¬ IsHead lib m w.disk) :
      Distinguished (IsHead lib) (own p) w := by
    refine distinguished_of_one_commit (p := .begin :: p) (isCommit_begin_cons hp) ?_
    exact fun m hm => hstores m (List.mem_append_left _ hm)
  cases op with
  | writeHeadBlock borrowed ref =>
    cases borrowed with
    | false => exact hown (plain_headCalls .abort ref) h.stores
    | true =>
      have hnone : commits (headCalls lib .abort ref) w = [] :=
        commits_of_plain (plain_headCalls .abort ref) w
      refine ⟨fun d hd => ?_, h.stores, fun i _ hbefore => absurd ?_ hbefore⟩
      · rw [script, hnone] at hd
        cases hd
      · exact commits_of_plain
          (fun c hc => plain_headCalls .abort ref c (List.mem_of_mem_take hc)) w
  | writeKnownBlock plan ref =>
    cases plan with
    | none => exact hown (plain_headCalls .abort ref) h.stores
    | some plan => cases hlends
  | reorg borrowed plan =>
    cases borrowed with
    | true => cases hlends
    | false =>
      have hscript : script (S := S) lib (.reorg false plan) =
          (List.replicate plan.levelReads (.call id .abort) ++
            .begin :: reorgCalls lib plan) ++ [.commit] := by
        simp [script, reorgScript, own]
      have hstores := h.stores
      rw [hscript] at hstores ⊢
      refine distinguished_of_one_commit (fun c hc => ?_) fun m hm =>
        hstores m (List.mem_append_left _ hm)
      rcases List.mem_append.mp hc with hc | hc
      · rw [(List.mem_replicate.mp hc).2]
        rfl
      · exact isCommit_begin_cons (plain_reorgCalls plan) c hc
  | writeBlockWithState ref e n choice => exact distinguished_import h

theorem handed_iff (op : Operation S) :
    (∀ calls ∈ handed lib op, ∀ c ∈ calls, c.isCommit = false) ↔ op.lends = false := by
  have hhead (reaction : OnFailure (Disk S)) (ref : BlockRef) :
      ∀ c ∈ headCalls lib reaction ref, c.isCommit = false :=
    isCommit_of_plain (plain_headCalls reaction ref)
  have hbranch (plan : Plan) : ∀ calls ∈ plan.branch.map (headCalls (S := S) lib (.resume id 1)),
      ∀ c ∈ calls, c.isCommit = false := by
    intro calls hcalls
    obtain ⟨ref, -, rfl⟩ := List.mem_map.mp hcalls
    exact hhead _ ref
  have hreorg (plan : Plan) : ¬ ∀ c ∈ reorgScript (S := S) lib true plan, c.isCommit = false := by
    intro hnone
    cases hnone .commit (by simp [reorgScript])
  have hlent (plan : Plan) (others : List (List (Command (Disk S) BlockRef))) :
      ¬ ∀ calls ∈ reorgScript lib true plan :: others, ∀ c ∈ calls, c.isCommit = false :=
    fun h => hreorg plan (h _ List.mem_cons_self)
  cases op with
  | writeHeadBlock borrowed ref =>
    cases borrowed with
    | true => simpa [handed, Operation.lends] using hhead .abort ref
    | false => simp [handed, Operation.lends]
  | writeKnownBlock plan ref =>
    cases plan with
    | none => simpa [handed, Operation.lends] using hhead .abort ref
    | some plan => exact iff_of_false (hlent plan _) (Bool.false_ne_true ·.symm)
  | reorg borrowed plan =>
    cases borrowed with
    | true => exact iff_of_false (hlent plan _) (Bool.false_ne_true ·.symm)
    | false => exact iff_of_true (hbranch plan) rfl
  | writeBlockWithState ref e n choice =>
    cases choice with
    | side => simp [handed, Operation.lends]
    | child => simp [handed, Operation.lends]
    | reorg plan => exact iff_of_true (hbranch plan) rfl

end Commits

def toyEffects : Effects Unit where
  td := 1
  hasReceipts := false
  tables := toyGenesisNode.tables
  rewards := []

def toyWrite : Operation Unit :=
  .writeBlockWithState ⟨2, toyOld⟩ toyEffects 2 .child

def toyWorld : World (Disk Unit) BlockRef :=
  worldOf toyGenesisNode.tables (fun _ => none) toyGenesisNode.chain

theorem toyOld_hash_ne : toyOld.hash toyPrimitives ≠ toyGenesis.hash toyPrimitives := by
  decide +kernel

theorem fresh_toyWrite : Fresh toyPrimitives toyWrite toyWorld where
  head := rfl
  heads ref href := by
    rw [List.mem_singleton.mp href]
    exact toyOld_hash_ne
  stored ref e n choice heq := by
    cases heq
    decide +kernel
  branch ref e n plan heq := by cases heq

end N42.WriteAtomicity
