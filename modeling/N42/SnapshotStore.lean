import N42.FiniteMaps
import N42.VotingSnapshot

/-!
Snapshots on disk: the JSON text written by `store` and what `loadSnapshot` reads
back from it.
-/

namespace N42.SnapshotStore

open ByteStrings TextEncoding JsonText
open FallibleRuns (mapM_map_eq_some)
open FiniteMaps ChainTypes BlockHeader VotingSnapshot

abbrev Members := List (PlainText × Json)

def decimalText (value : UInt64) : PlainText :=
  ⟨decimal value.toNat, decimal_isPlain _⟩

def textLe (a b : UInt64) : Prop :=
  (decimal a.toNat).map UInt8.toNat ≤ (decimal b.toNat).map UInt8.toNat

instance : DecidableRel textLe := fun a b =>
  inferInstanceAs (Decidable
    ((decimal a.toNat).map UInt8.toNat ≤ (decimal b.toNat).map UInt8.toNat))

instance : IsTrans UInt64 textLe :=
  ⟨fun _ _ _ hab hbc => le_trans hab hbc⟩

instance : Std.Total textLe :=
  ⟨fun _ _ => le_total _ _⟩

instance : Std.Antisymm textLe :=
  ⟨fun a b hab hba => by
    have htext : decimal a.toNat = decimal b.toNat := map_toNat_injective (le_antisymm hab hba)
    rw [← UInt64.toNat_inj, ← ofDecimal_decimal a.toNat, htext, ofDecimal_decimal]⟩

def voteMembers (vote : Vote) : Members :=
  [(plain "signer", textJson vote.signer), (plain "block", uint64Json vote.block),
    (plain "address", textJson vote.address), (plain "authorize", .bool vote.authorize)]

def tallyMembers (tally : Tally) : Members :=
  [(plain "authorize", .bool tally.authorize), (plain "votes", .num tally.votes)]

def signerMembers (signers : List Address) : Members :=
  signers.map fun signer => (marshalText signer.bytes, .obj [])

def recentMembers (recents : List (UInt64 × Address)) : Members :=
  recents.map fun recent => (decimalText recent.1, textJson recent.2)

def tallyMapMembers (tallies : List (Address × Tally)) : Members :=
  tallies.map fun entry => (marshalText entry.1.bytes, .obj (tallyMembers entry.2))

/-- The members of a snapshot.  The order of addresses is that of their texts, and the
empty list of votes stands for a nil slice as well. -/
def snapshotMembers (s : Snapshot) : Members :=
  [(plain "number", uint64Json s.number), (plain "hash", textJson s.hash),
    (plain "signers", .obj (signerMembers s.sortedSigners)),
    (plain "recents", .obj (recentMembers (entries textLe s.recents))),
    (plain "votes", if s.votes.isEmpty then .null
      else .arr (s.votes.map fun vote => .obj (voteMembers vote))),
    (plain "tally", .obj (tallyMapMembers (sortedEntries s.tally)))]

def marshal (s : Snapshot) : List UInt8 :=
  render (.obj (snapshotMembers s))

def field (name : PlainText) (members : Members) : Option Json :=
  (members.reverse.find? fun member => member.1 = name).map Prod.snd

def decodeField {α : Type} [Inhabited α] (decode : Json → Option α) (name : PlainText)
    (members : Members) : Option α :=
  match field name members with
  | none => some default
  | some value => decode value

def decodeUint64 : Json → Option UInt64
  | .null => some 0
  | .num (.ofNat value) => if value < 2 ^ 64 then some (UInt64.ofNat value) else none
  | _ => none

def decodeInt : Json → Option Int
  | .null => some 0
  | .num (.ofNat value) => if value < 2 ^ 63 then some (.ofNat value) else none
  | .num (.negSucc value) => if value < 2 ^ 63 then some (.negSucc value) else none
  | _ => none

def decodeBool : Json → Option Bool
  | .null => some false
  | .bool value => some value
  | _ => none

def decodeFixed (n : Nat) : Json → Option (FixedBytes n)
  | .str text => unmarshalFixedText n text.val
  | _ => none

def decodeObject : Json → Option Members
  | .null => some []
  | .obj members => some members
  | _ => none

def decodeArray : Json → Option (List Json)
  | .null => some []
  | .arr items => some items
  | _ => none

def decodeUintKey (text : PlainText) : Option UInt64 :=
  if text.val ≠ [] ∧ text.val.all isDigit ∧ ofDecimal text.val < 2 ^ 64 then
    some (UInt64.ofNat (ofDecimal text.val))
  else none

def decodeMap {α β : Type} (key : PlainText → Option α) (value : Json → Option β)
    (json : Json) : Option (List (α × β)) := do
  let members ← decodeObject json
  members.mapM fun member => do return (← key member.1, ← value member.2)

def decodeVote (json : Json) : Option Vote := do
  let members ← decodeObject json
  let signer ← decodeField (decodeFixed 20) (plain "signer") members
  let block ← decodeField decodeUint64 (plain "block") members
  let address ← decodeField (decodeFixed 20) (plain "address") members
  let authorize ← decodeField decodeBool (plain "authorize") members
  return ⟨signer, block, address, authorize⟩

def decodeTally (json : Json) : Option Tally := do
  let members ← decodeObject json
  let authorize ← decodeField decodeBool (plain "authorize") members
  let votes ← decodeField decodeInt (plain "votes") members
  return ⟨authorize, votes⟩

def decodeAddressKey (text : PlainText) : Option Address :=
  unmarshalFixedText 20 text.val

def decodeVotes (json : Json) : Option (List Vote) := do
  (← decodeArray json).mapM decodeVote

def decodeSnapshot (json : Json) : Option Snapshot := do
  let members ← decodeObject json
  let number ← decodeField decodeUint64 (plain "number") members
  let hash ← decodeField (decodeFixed 32) (plain "hash") members
  let signers ← decodeField (decodeMap decodeAddressKey decodeObject) (plain "signers") members
  let recents ← decodeField (decodeMap decodeUintKey (decodeFixed 20)) (plain "recents") members
  let votes ← decodeField decodeVotes (plain "votes") members
  let tally ← decodeField (decodeMap decodeAddressKey decodeTally) (plain "tally") members
  return { signers := (signers.map Prod.fst).toFinset
           recents := insertAll ∅ recents
           votes := votes
           tally := insertAll ∅ tally
           number := number
           hash := hash }

def unmarshal (blob : List UInt8) : Option Snapshot :=
  (parse blob).bind decodeSnapshot

abbrev Blobs := Finmap fun _ : Hash => List UInt8

def store (blobs : Blobs) (s : Snapshot) : Blobs :=
  blobs.insert s.hash (marshal s)

def loadSnapshot (blobs : Blobs) (hash : Hash) : Option Snapshot :=
  unmarshal ((blobs.lookup hash).getD [])

@[simp] theorem decodeUint64_uint64Json (value : UInt64) :
    decodeUint64 (uint64Json value) = some value := by
  have hdecode : decodeUint64 (uint64Json value) = some (UInt64.ofNat value.toNat) :=
    if_pos value.toNat_lt
  rw [hdecode, UInt64.ofNat_toNat]

@[simp] theorem decodeFixed_textJson {n : Nat} (a : FixedBytes n) :
    decodeFixed n (textJson a) = some a :=
  unmarshalFixedText_marshalText a

theorem decodeUintKey_decimalText (value : UInt64) :
    decodeUintKey (decimalText value) = some value := by
  have hvalue := ofDecimal_decimal value.toNat
  rw [decodeUintKey, decimalText, hvalue,
    if_pos ⟨decimal_ne_nil _, decimal_all_isDigit _, value.toNat_lt⟩, UInt64.ofNat_toNat]

theorem decodeVote_voteMembers (vote : Vote) :
    decodeVote (.obj (voteMembers vote)) = some vote := by
  have hsigner : field (plain "signer") (voteMembers vote) = some (textJson vote.signer) := rfl
  have hblock : field (plain "block") (voteMembers vote) = some (uint64Json vote.block) := rfl
  have haddress : field (plain "address") (voteMembers vote) = some (textJson vote.address) := rfl
  have hauthorize : field (plain "authorize") (voteMembers vote) =
      some (.bool vote.authorize) := rfl
  simp [decodeVote, decodeObject, decodeField, hsigner, hblock, haddress, hauthorize, decodeBool]

theorem decodeTally_tallyMembers (tally : Tally) (hlow : -2 ^ 63 ≤ tally.votes)
    (hhigh : tally.votes < 2 ^ 63) :
    decodeTally (.obj (tallyMembers tally)) = some tally := by
  have hauthorize : field (plain "authorize") (tallyMembers tally) =
      some (.bool tally.authorize) := rfl
  have hvotes : field (plain "votes") (tallyMembers tally) = some (.num tally.votes) := rfl
  have hint : decodeInt (.num tally.votes) = some tally.votes := by
    cases hcase : tally.votes with
    | ofNat value => exact if_pos (by rw [hcase, Int.ofNat_eq_natCast] at hhigh; omega)
    | negSucc value => exact if_pos (by rw [hcase] at hlow; omega)
  simp [decodeTally, decodeObject, decodeField, hauthorize, hvotes, hint, decodeBool]

theorem decodeMap_map {α β : Type} {key : PlainText → Option α} {value : Json → Option β}
    (keyText : α → PlainText) (valueJson : β → Json) {xs : List (α × β)}
    (hkey : ∀ a, key (keyText a) = some a)
    (hvalue : ∀ x ∈ xs, value (valueJson x.2) = some x.2) :
    decodeMap key value (.obj (xs.map fun x => (keyText x.1, valueJson x.2))) = some xs := by
  simp only [decodeMap, decodeObject, Option.bind_eq_bind, Option.bind_some]
  apply mapM_map_eq_some
  intro x hx
  simp [hkey, hvalue x hx]

def Representable (s : VotingState) : Prop :=
  ∀ address tally, s.tally.lookup address = some tally →
    -2 ^ 63 ≤ tally.votes ∧ tally.votes < 2 ^ 63

theorem decodeSigners_signerMembers (signers : List Address) :
    decodeMap decodeAddressKey decodeObject (.obj (signerMembers signers)) =
      some (signers.map fun signer => (signer, [])) := by
  have hmap : signerMembers signers = (signers.map fun signer => (signer, ([] : Members))).map
      fun x => (marshalText x.1.bytes, .obj x.2) := by
    simp [signerMembers]
  rw [hmap]
  exact decodeMap_map (fun a : Address => marshalText a.bytes) Json.obj
    unmarshalFixedText_marshalText (fun _ _ => rfl)

theorem decodeVotes_votes (votes : List Vote) :
    decodeVotes (if votes.isEmpty then .null
      else .arr (votes.map fun vote => .obj (voteMembers vote))) = some votes := by
  cases votes with
  | nil => rfl
  | cons vote votes => exact mapM_map_eq_some fun vote _ => decodeVote_voteMembers vote

theorem decodeRecents_recentMembers (recents : List (UInt64 × Address)) :
    decodeMap decodeUintKey (decodeFixed 20) (.obj (recentMembers recents)) = some recents :=
  decodeMap_map decimalText textJson decodeUintKey_decimalText fun _ _ => decodeFixed_textJson _

theorem decodeTallies_tallyMapMembers {s : VotingState} (h : Representable s) :
    decodeMap decodeAddressKey decodeTally
      (.obj (tallyMapMembers (sortedEntries s.tally))) = some (sortedEntries s.tally) := by
  refine decodeMap_map (fun a : Address => marshalText a.bytes)
    (fun t => .obj (tallyMembers t)) unmarshalFixedText_marshalText ?_
  rintro ⟨address, tally⟩ hmem
  obtain ⟨hlow, hhigh⟩ := h address tally ((mem_entries_iff _).mp hmem)
  exact decodeTally_tallyMembers tally hlow hhigh

theorem decodeSnapshot_snapshotMembers {s : Snapshot} (h : Representable s.toVotingState) :
    decodeSnapshot (.obj (snapshotMembers s)) = some s := by
  have hsorted : ((s.sortedSigners.map fun signer => (signer, ([] : Members))).map
      Prod.fst).toFinset = s.signers := by
    ext a
    simp [VotingState.sortedSigners]
  have hnumber : decodeField decodeUint64 (plain "number") (snapshotMembers s) =
      some s.number := decodeUint64_uint64Json s.number
  have hhash : decodeField (decodeFixed 32) (plain "hash") (snapshotMembers s) =
      some s.hash := decodeFixed_textJson s.hash
  have hsigners : decodeField (decodeMap decodeAddressKey decodeObject) (plain "signers")
      (snapshotMembers s) = _ := decodeSigners_signerMembers s.sortedSigners
  have hrecents : decodeField (decodeMap decodeUintKey (decodeFixed 20)) (plain "recents")
      (snapshotMembers s) = _ := decodeRecents_recentMembers (entries textLe s.recents)
  have hvotes : decodeField decodeVotes (plain "votes") (snapshotMembers s) =
      some s.votes := decodeVotes_votes s.votes
  have htally : decodeField (decodeMap decodeAddressKey decodeTally) (plain "tally")
      (snapshotMembers s) = _ := decodeTallies_tallyMapMembers h
  rw [decodeSnapshot]
  simp only [decodeObject, Option.bind_eq_bind, Option.bind_some, hnumber, hhash, hsigners,
    hrecents, hvotes, htally, hsorted, insertAll_entries]
  rfl

theorem unmarshal_marshal {s : Snapshot} (h : Representable s.toVotingState) :
    unmarshal (marshal s) = some s := by
  rw [unmarshal, marshal, parse_render, Option.bind_some, decodeSnapshot_snapshotMembers h]

theorem loadSnapshot_store (blobs : Blobs) {s : Snapshot}
    (h : Representable s.toVotingState) :
    loadSnapshot (store blobs s) s.hash = some s := by
  rw [loadSnapshot, store, Finmap.lookup_insert, Option.getD_some, unmarshal_marshal h]

theorem loadSnapshot_store_of_ne (blobs : Blobs) (s : Snapshot) {hash : Hash}
    (h : hash ≠ s.hash) : loadSnapshot (store blobs s) hash = loadSnapshot blobs hash := by
  rw [loadSnapshot, store, Finmap.lookup_insert_of_ne _ h]
  rfl

end N42.SnapshotStore
