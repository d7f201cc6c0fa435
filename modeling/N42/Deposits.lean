import N42.BlockValidation

/-!
The deposits of the verifiers.  The node keeps a table of the keys and amounts which
senders have deposited in one of the deposit contracts, and the rewards of a verifier
depend on the amount.
-/

namespace N42.Deposits

open ByteStrings ChainTypes BlockValidation

structure ContractLog where
  address : Address
  topics : List Hash
  data : List UInt8
  txHash : Hash

structure DepositKeys (κ σ : Type) where
  signatureFromBytes : List UInt8 → Option σ
  publicKeyFromBytes : List UInt8 → Option κ
  marshal : κ → PublicKey
  verify : σ → κ → List UInt8 → Bool
  publicKeyFromBytes_marshal : ∀ key, publicKeyFromBytes (marshal key).bytes = some key

structure DepositContract where
  depositSignature : Hash
  withdrawnSignature : Hash
  unpackDepositLogData : List UInt8 → Option (List UInt8 × List UInt8 × Uint256)

abbrev DepositTable := Address → Option (List UInt8)

structure Deposit (κ σ : Type) where
  bls : DepositKeys κ σ
  depositContracts : Address → Option DepositContract
  /-- The sender of the transaction that `ReadTransactionByHash` finds. -/
  senderByHash : Hash → Option Address

inductive DepositPanic where
  | indexOutOfRange
  | wrongDepositAmount
deriving DecidableEq

variable {κ σ : Type}

def putDeposit (address : Address) (pub : PublicKey) (amount : Uint256)
    (table : DepositTable) : DepositTable :=
  Function.update table address (some (pub.bytes ++ bigEndian amount.toNat))

/-- A missing entry reads as no bytes at all, which are too few. -/
def getDeposit (bls : DepositKeys κ σ) (table : DepositTable) (address : Address) :
    Option (PublicKey × Uint256) :=
  let value := (table address).getD []
  if value.length < 48 then none
  else
    (bls.publicKeyFromBytes (value.take 48)).map fun _ =>
      (FixedBytes.copy 48 value, BitVec.ofNat 256 (ofBigEndian (value.drop 48)))

def deleteDeposit (address : Address) (table : DepositTable) : DepositTable :=
  Function.update table address none

theorem getDeposit_putDeposit (bls : DepositKeys κ σ) (table : DepositTable)
    (written address : Address) (key : κ) (amount : Uint256) :
    getDeposit bls (putDeposit written (bls.marshal key) amount table) address =
      if address = written then some (bls.marshal key, amount)
      else getDeposit bls table address := by
  unfold getDeposit putDeposit
  by_cases h : address = written
  · have hlen : (bls.marshal key).bytes.length = 48 := (bls.marshal key).length_eq
    have htake : ((bls.marshal key).bytes ++ bigEndian amount.toNat).take 48 =
        (bls.marshal key).bytes := by
      rw [List.take_append_of_le_length hlen.ge, List.take_of_length_le hlen.le]
    have hdrop : ((bls.marshal key).bytes ++ bigEndian amount.toNat).drop 48 =
        bigEndian amount.toNat := by
      rw [List.drop_append_of_le_length hlen.ge, List.drop_of_length_le hlen.le,
        List.nil_append]
    have hlarge : ¬ ((bls.marshal key).bytes ++ bigEndian amount.toNat).length < 48 := by
      rw [List.length_append]
      omega
    subst h
    simp only [Function.update_self, Option.getD_some, if_neg hlarge, htake, hdrop,
      bls.publicKeyFromBytes_marshal, Option.map_some, FixedBytes.copy_append,
      ofBigEndian_bigEndian, BitVec.ofNat_toNat, BitVec.setWidth_eq, if_true]
  · simp only [Function.update_of_ne h, if_neg h]

theorem getDeposit_deleteDeposit (bls : DepositKeys κ σ) (table : DepositTable)
    (deleted address : Address) :
    getDeposit bls (deleteDeposit deleted table) address =
      if address = deleted then none else getDeposit bls table address := by
  unfold getDeposit deleteDeposit
  by_cases h : address = deleted
  · subst h
    simp
  · simp only [Function.update_of_ne h, if_neg h]

namespace Deposit

def handleDepositEvent (d : Deposit κ σ) (txHash : Hash) (data : List UInt8)
    (contract : DepositContract) (table : DepositTable) : DepositTable :=
  match contract.unpackDepositLogData data with
  | none => table
  | some (pb, sig, amount) =>
    match d.bls.signatureFromBytes sig, d.bls.publicKeyFromBytes pb with
    | some signature, some publicKey =>
      if d.bls.verify signature publicKey (bigEndian amount.toNat) then
        match d.senderByHash txHash with
        | none => table
        | some sender => putDeposit sender (d.bls.marshal publicKey) amount table
      else table
    | _, _ => table

def handleWithdrawnEvent (d : Deposit κ σ) (txHash : Hash) (table : DepositTable) :
    DepositTable :=
  match d.senderByHash txHash with
  | none => table
  | some sender => deleteDeposit sender table

/-- One new log in `eventLoop`.  The first topic is read without a look at their number. -/
def handleLog (d : Deposit κ σ) (table : DepositTable) (l : ContractLog) :
    Except DepositPanic DepositTable :=
  match d.depositContracts l.address with
  | none => .ok table
  | some contract =>
    match l.topics with
    | [] => .error .indexOutOfRange
    | topic :: _ =>
      if topic = contract.depositSignature then
        .ok (d.handleDepositEvent l.txHash l.data contract table)
      else if topic = contract.withdrawnSignature then
        .ok (d.handleWithdrawnEvent l.txHash table)
      else .ok table

end Deposit

inductive LogsEvent where
  | newLogs (logs : List ContractLog)
  | removedLogs (logs : List ContractLog)

/-- One round of `eventLoop`; logs that are removed are only printed. -/
def Deposit.handleEvent (d : Deposit κ σ) (table : DepositTable) :
    LogsEvent → Except DepositPanic DepositTable
  | .newLogs logs => logs.foldlM d.handleLog table
  | .removedLogs _ => .ok table

def amt : Nat := 10 ^ 18

def dayPerMonth : Nat := 30

def rewardPerTask (rewardPerMonth maxTaskPerEpoch : Nat) (roundUp : Bool) : Uint256 :=
  BitVec.ofNat 256 rewardPerMonth / BitVec.ofNat 256 (dayPerMonth * maxTaskPerEpoch) +
    if roundUp then 1 else 0

/-- The reward for a block and the most for an epoch, by the deposited whole coins. -/
def rewardTerms (depositEther : UInt64) : Except DepositPanic (Option (Uint256 × Uint256)) :=
  let monthly (rewardPerMonth maxTaskPerEpoch : Nat) (roundUp : Bool) :=
    let rewardPerBlock := rewardPerTask rewardPerMonth maxTaskPerEpoch roundUp
    (rewardPerBlock, rewardPerBlock * BitVec.ofNat 256 maxTaskPerEpoch)
  let perEpoch (rewardPerEpoch : Nat) :=
    (BitVec.ofNat 256 rewardPerEpoch / BitVec.ofNat 256 50, BitVec.ofNat 256 rewardPerEpoch)
  if depositEther = 50 then .ok (some (monthly (375 * amt / 1000) 500 false))
  else if depositEther = 100 then .ok (some (monthly amt 100 true))
  else if depositEther = 500 then .ok (some (monthly (625 * amt / 100) 100 true))
  else if depositEther = 200 then .ok (some (perEpoch (25 * amt / 1000)))
  else if depositEther = 800 then .ok (some (perEpoch (amt / 10)))
  else if depositEther = 2000 then .ok (some (monthly (10 * amt) 50 true))
  else if depositEther = 10 then .ok none
  else .error .wrongDepositAmount

def depositEther (amount : Uint256) : UInt64 :=
  UInt64.ofNat (amount / BitVec.ofNat 256 amt).toNat

def getDepositInfo (bls : DepositKeys κ σ) (table : DepositTable) (address : Address) :
    Except DepositPanic (Option (Uint256 × Uint256)) :=
  match getDeposit bls table address with
  | none => .ok none
  | some (_, amount) => rewardTerms (depositEther amount)

theorem rewardTerms_small {ether : UInt64} {low max : Uint256}
    (h : rewardTerms ether = .ok (some (low, max))) : low.toNat + max.toNat < 2 ^ 64 := by
  simp only [rewardTerms] at h
  split_ifs at h
  all_goals simp only [Except.ok.injEq, Option.some.injEq, Prod.mk.injEq, reduceCtorEq] at h
  all_goals
    obtain ⟨rfl, rfl⟩ := h
    decide

end N42.Deposits
