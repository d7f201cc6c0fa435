import N42.Deposits
import N42.HeaderSealing

/-!
The table of the deposits against the logs of the canonical chain.  The table is kept
from the events about new and removed logs; what it should hold is the effect of the
valid logs of the chain in their order.
-/

namespace N42.DepositEvents

open ByteStrings ChainTypes BlockValidation Deposits

inductive DepositAction where
  | deposit (sender : Address) (pub : PublicKey) (amount : Uint256)
  | withdraw (sender : Address)

abbrev Deposited := Address → Option (PublicKey × Uint256)

def DepositAction.apply (deposits : Deposited) : DepositAction → Deposited
  | deposit sender pub amount => Function.update deposits sender (some (pub, amount))
  | withdraw sender => Function.update deposits sender none

variable {κ σ : Type} (d : Deposit κ σ)

def validDeposit (contract : DepositContract) (l : ContractLog) : Option DepositAction := do
  let (pb, sig, amount) ← contract.unpackDepositLogData l.data
  let signature ← d.bls.signatureFromBytes sig
  let publicKey ← d.bls.publicKeyFromBytes pb
  if d.bls.verify signature publicKey (bigEndian amount.toNat) then
    (d.senderByHash l.txHash).map fun sender =>
      .deposit sender (d.bls.marshal publicKey) amount
  else none

def logAction (l : ContractLog) : Option DepositAction :=
  match d.depositContracts l.address, l.topics with
  | some contract, topic :: _ =>
    if topic = contract.depositSignature then validDeposit d contract l
    else if topic = contract.withdrawnSignature then
      (d.senderByHash l.txHash).map .withdraw
    else none
  | _, _ => none

def deposited (logs : List ContractLog) : Deposited :=
  (logs.filterMap (logAction d)).foldl DepositAction.apply fun _ => none

def Holds (table : DepositTable) (deposits : Deposited) : Prop :=
  ∀ address, getDeposit d.bls table address = deposits address

def Readable (l : ContractLog) : Prop :=
  (d.depositContracts l.address).isSome → l.topics ≠ []

variable {d} {table : DepositTable} {deposits : Deposited}

theorem Holds.put (h : Holds d table deposits) (sender : Address) (key : κ)
    (amount : Uint256) :
    Holds d (putDeposit sender (d.bls.marshal key) amount table)
      (DepositAction.apply deposits (.deposit sender (d.bls.marshal key) amount)) := by
  intro address
  rw [getDeposit_putDeposit, DepositAction.apply, Function.update_apply, h address]

theorem Holds.delete (h : Holds d table deposits) (sender : Address) :
    Holds d (deleteDeposit sender table) (DepositAction.apply deposits (.withdraw sender)) := by
  intro address
  rw [getDeposit_deleteDeposit, DepositAction.apply, Function.update_apply, h address]

def applyIfValid (deposits : Deposited) (action : Option DepositAction) : Deposited :=
  action.elim deposits (DepositAction.apply deposits)

@[simp] theorem applyIfValid_none (deposits : Deposited) : applyIfValid deposits none = deposits :=
  rfl

theorem handleDepositEvent_holds (h : Holds d table deposits) (contract : DepositContract)
    (l : ContractLog) :
    Holds d (d.handleDepositEvent l.txHash l.data contract table)
      (applyIfValid deposits (validDeposit d contract l)) := by
  unfold Deposit.handleDepositEvent validDeposit
  cases contract.unpackDepositLogData l.data with
  | none => exact h
  | some unpacked =>
    obtain ⟨pb, sig, amount⟩ := unpacked
    cases hsig : d.bls.signatureFromBytes sig with
    | none => simpa [hsig] using h
    | some signature =>
      cases hkey : d.bls.publicKeyFromBytes pb with
      | none => simpa [hsig, hkey] using h
      | some publicKey =>
        simp only [hsig, hkey, Option.bind_eq_bind, Option.bind_some]
        by_cases hverify : d.bls.verify signature publicKey (bigEndian amount.toNat) = true
        · rw [if_pos hverify, if_pos hverify]
          cases d.senderByHash l.txHash with
          | none => exact h
          | some sender => exact h.put sender publicKey amount
        · rw [if_neg hverify, if_neg hverify]
          exact h

theorem handleWithdrawnEvent_holds (h : Holds d table deposits) (txHash : Hash) :
    Holds d (d.handleWithdrawnEvent txHash table)
      (applyIfValid deposits ((d.senderByHash txHash).map .withdraw)) := by
  unfold Deposit.handleWithdrawnEvent
  cases d.senderByHash txHash with
  | none => exact h
  | some sender => exact h.delete sender

theorem handleLog_holds (h : Holds d table deposits) {l : ContractLog} (hl : Readable d l) :
    ∃ written, d.handleLog table l = .ok written ∧
      Holds d written (applyIfValid deposits (logAction d l)) := by
  unfold Deposit.handleLog logAction
  cases hcontract : d.depositContracts l.address with
  | none => exact ⟨table, rfl, h⟩
  | some contract =>
    cases htopics : l.topics with
    | nil => exact absurd htopics (hl (by rw [hcontract]; rfl))
    | cons topic rest =>
      simp only
      by_cases hdeposit : topic = contract.depositSignature
      · rw [if_pos hdeposit, if_pos hdeposit]
        exact ⟨_, rfl, handleDepositEvent_holds h contract l⟩
      · rw [if_neg hdeposit, if_neg hdeposit]
        by_cases hwithdrawn : topic = contract.withdrawnSignature
        · rw [if_pos hwithdrawn, if_pos hwithdrawn]
          exact ⟨_, rfl, handleWithdrawnEvent_holds h l.txHash⟩
        · rw [if_neg hwithdrawn, if_neg hwithdrawn]
          exact ⟨table, rfl, h⟩

theorem deposited_concat (chain : List ContractLog) (l : ContractLog) :
    deposited d (chain ++ [l]) = applyIfValid (deposited d chain) (logAction d l) := by
  unfold deposited
  rw [List.filterMap_append, List.foldl_append]
  cases h : logAction d l with
  | none => simp [h, applyIfValid]
  | some action => simp [h, applyIfValid]

theorem handleLogs_holds {chain logs : List ContractLog} (h : Holds d table (deposited d chain))
    (hlogs : ∀ l ∈ logs, Readable d l) :
    ∃ written, logs.foldlM d.handleLog table = .ok written ∧
      Holds d written (deposited d (chain ++ logs)) := by
  induction logs generalizing table chain with
  | nil => exact ⟨table, rfl, by rwa [List.append_nil]⟩
  | cons l rest ih =>
    obtain ⟨next, hnext, hholds⟩ := handleLog_holds h (hlogs l List.mem_cons_self)
    rw [← deposited_concat] at hholds
    obtain ⟨written, hwritten, hall⟩ :=
      ih hholds fun l' hl' => hlogs l' (List.mem_cons_of_mem l hl')
    rw [List.append_assoc, List.singleton_append] at hall
    exact ⟨written, by rw [List.foldlM_cons, hnext]; exact hwritten, hall⟩

theorem readable_of_handleLogs {logs : List ContractLog} {written : DepositTable}
    (h : logs.foldlM d.handleLog table = .ok written) : ∀ l ∈ logs, Readable d l := by
  induction logs generalizing table with
  | nil => simp
  | cons l rest ih =>
    rw [List.foldlM_cons] at h
    cases hl : d.handleLog table l with
    | error panic =>
      rw [hl] at h
      cases h
    | ok next =>
      rw [hl] at h
      refine List.forall_mem_cons.mpr ⟨?_, ih h⟩
      intro hsome hempty
      obtain ⟨contract, hcontract⟩ := Option.isSome_iff_exists.mp hsome
      simp [Deposit.handleLog, hcontract, hempty] at hl

section Runs

variable (d)

/-- The logs of the canonical chain after an event.  Removed logs are the last ones of
the chain. -/
def nextChain (chain : List ContractLog) : LogsEvent → List ContractLog
  | .newLogs logs => chain ++ logs
  | .removedLogs logs => chain.take (chain.length - logs.length)

def chainAfter (events : List LogsEvent) : List ContractLog :=
  events.foldl nextChain []

def tableAfter (events : List LogsEvent) : Except DepositPanic DepositTable :=
  events.foldlM d.handleEvent fun _ => none

def KnownAmounts (deposits : Deposited) : Prop :=
  ∀ address pub amount, deposits address = some (pub, amount) →
    ∃ terms, rewardTerms (depositEther amount) = .ok terms

/-- The node runs, its table holds the deposits of the canonical chain, and every deposit
can be looked up. -/
def Tracks (events : List LogsEvent) : Prop :=
  ∃ table, tableAfter d events = .ok table ∧ Holds d table (deposited d (chainAfter events)) ∧
    ∀ address, ∃ info, getDepositInfo d.bls table address = .ok info

/-- An event that the table can follow: new logs of the deposit contracts have topics and
leave known amounts, and without the removed logs the deposits would be the same. -/
def Harmless (chain : List ContractLog) : LogsEvent → Prop
  | .newLogs logs =>
    (∀ l ∈ logs, Readable d l) ∧ KnownAmounts (deposited d (chain ++ logs))
  | .removedLogs logs =>
    deposited d (nextChain chain (.removedLogs logs)) = deposited d chain

variable {d}

theorem chainAfter_concat (events : List LogsEvent) (e : LogsEvent) :
    chainAfter (events ++ [e]) = nextChain (chainAfter events) e := by
  rw [chainAfter, List.foldl_append]
  rfl

theorem tableAfter_concat {events : List LogsEvent} {table : DepositTable}
    (h : tableAfter d events = .ok table) (e : LogsEvent) :
    tableAfter d (events ++ [e]) = d.handleEvent table e := by
  rw [tableAfter, List.foldlM_append, ← tableAfter, h]
  exact bind_pure (d.handleEvent table e)

theorem Holds.info_iff (h : Holds d table deposits) :
    (∀ address, ∃ info, getDepositInfo d.bls table address = .ok info) ↔ KnownAmounts deposits := by
  unfold getDepositInfo
  constructor
  · intro hinfo address pub amount hdeposit
    obtain ⟨info, hterms⟩ := hinfo address
    rw [h address, hdeposit] at hterms
    exact ⟨info, hterms⟩
  · intro hknown address
    rw [h address]
    cases hdeposit : deposits address with
    | none => exact ⟨none, rfl⟩
    | some entry => exact hknown address entry.1 entry.2 hdeposit

theorem Holds.unique {other : Deposited} (h : Holds d table deposits)
    (h' : Holds d table other) : deposits = other := by
  funext address
  exact (h address).symm.trans (h' address)

theorem tracks_concat_iff {events : List LogsEvent} (h : Tracks d events) (e : LogsEvent) :
    Tracks d (events ++ [e]) ↔ Harmless d (chainAfter events) e := by
  obtain ⟨table, htable, hholds, hinfo⟩ := h
  unfold Tracks
  rw [tableAfter_concat htable, chainAfter_concat]
  cases e with
  | newLogs logs =>
    constructor
    · rintro ⟨written, hwritten, hnext, hinfo'⟩
      exact ⟨readable_of_handleLogs hwritten, hnext.info_iff.mp hinfo'⟩
    · rintro ⟨hreadable, hknown⟩
      obtain ⟨written, hwritten, hnext⟩ := handleLogs_holds hholds hreadable
      exact ⟨written, hwritten, hnext, hnext.info_iff.mpr hknown⟩
  | removedLogs logs =>
    constructor
    · rintro ⟨written, hwritten, hnext, -⟩
      cases hwritten
      exact hnext.unique hholds
    · intro hsame
      refine ⟨table, rfl, ?_, hinfo⟩
      rw [show deposited d _ = _ from hsame]
      exact hholds

theorem tracks_nil : Tracks d [] :=
  ⟨fun _ => none, rfl, fun _ => rfl, fun _ => ⟨none, rfl⟩⟩

/-- The table follows the chain through a sequence of events if and only if every event
is harmless. -/
theorem tracks_iff_harmless (d : Deposit κ σ) (events : List LogsEvent) :
    (∀ seen, seen <+: events → Tracks d seen) ↔
      ∀ seen e, seen ++ [e] <+: events → Harmless d (chainAfter seen) e := by
  constructor
  · intro h seen e hprefix
    have hbefore : seen <+: events := (List.prefix_append seen [e]).trans hprefix
    exact (tracks_concat_iff (h seen hbefore) e).mp (h _ hprefix)
  · intro h seen
    induction seen using List.reverseRecOn with
    | nil => exact fun _ => tracks_nil
    | append_singleton seen e ih =>
      intro hprefix
      have hbefore : seen <+: events := (List.prefix_append seen [e]).trans hprefix
      exact (tracks_concat_iff (ih hbefore) e).mpr (h seen e hprefix)

end Runs

def toyKeys : DepositKeys PublicKey Unit where
  signatureFromBytes _ := some ()
  publicKeyFromBytes bytes := if h : bytes.length = 48 then some ⟨bytes, h⟩ else none
  marshal key := key
  verify _ _ _ := true
  publicKeyFromBytes_marshal key := dif_pos key.length_eq

def toyContract : DepositContract where
  depositSignature := FixedBytes.copy 32 [1]
  withdrawnSignature := FixedBytes.copy 32 [2]
  unpackDepositLogData data :=
    some (List.replicate 48 0, [], BitVec.ofNat 256 (ofBigEndian data * amt))

def toyDeposits : Deposit PublicKey Unit where
  bls := toyKeys
  depositContracts address :=
    if address = HeaderSealing.toyAddress 1 then some toyContract else none
  senderByHash _ := some (HeaderSealing.toyAddress 2)

def toyLog (topics : List Hash) (coins : UInt8) : ContractLog :=
  ⟨HeaderSealing.toyAddress 1, topics, [coins], default⟩

def toyDepositLog (coins : UInt8) : ContractLog :=
  toyLog [toyContract.depositSignature] coins

def toyInfo (events : List LogsEvent) : Except DepositPanic (Option (Uint256 × Uint256)) := do
  let table ← tableAfter toyDeposits events
  getDepositInfo toyKeys table (HeaderSealing.toyAddress 2)

/-- A deposit stays after its log has been removed; a log without topics and a deposit of
one coin stop the node. -/
theorem removed_deposit_remains :
    chainAfter [.newLogs [toyDepositLog 50], .removedLogs [toyDepositLog 50]] = [] ∧
      toyInfo [.newLogs [toyDepositLog 50], .removedLogs [toyDepositLog 50]] =
        .ok (some (25000000000000, 12500000000000000)) ∧
      ¬ Tracks toyDeposits [.newLogs [toyDepositLog 50], .removedLogs [toyDepositLog 50]] ∧
      toyInfo [.newLogs [toyLog [] 50]] = .error .indexOutOfRange ∧
      toyInfo [.newLogs [toyDepositLog 1]] = .error .wrongDepositAmount := by
  refine ⟨rfl, by rfl, ?_, by rfl, by rfl⟩
  rintro ⟨table, htable, hholds, -⟩
  have hempty := hholds (HeaderSealing.toyAddress 2)
  cases htable
  revert hempty
  decide +kernel

end N42.DepositEvents
