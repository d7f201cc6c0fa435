import N42.ByteStrings

/-!
Tables of keys and values in which an entry can only be appended after all others, ranges
read from such a table, and byte strings that hold records of one size.
-/

namespace N42.OrderedTables

open ByteStrings

section Tables

variable {κ : Type*} [LinearOrder κ] {ν : Type*}

structure OrderedTable (κ : Type*) [LinearOrder κ] (ν : Type*) where
  entries : List (κ × ν)
  sorted : entries.Pairwise fun a b => a.1 < b.1

namespace OrderedTable

def empty : OrderedTable κ ν :=
  ⟨[], List.Pairwise.nil⟩

def push (key : κ) (value : ν) (t : OrderedTable κ ν) (h : ∀ e ∈ t.entries, e.1 < key) :
    OrderedTable κ ν where
  entries := t.entries ++ [(key, value)]
  sorted := List.pairwise_append.mpr ⟨t.sorted, List.pairwise_singleton _ _, fun e he _ he' =>
    List.mem_singleton.mp he' ▸ h e he⟩

def append (key : κ) (value : ν) (t : OrderedTable κ ν) : Option (OrderedTable κ ν) :=
  if h : ∀ e ∈ t.entries, e.1 < key then some (t.push key value h) else none

def appendAll (entries : List (κ × ν)) (t : OrderedTable κ ν) : Option (OrderedTable κ ν) :=
  entries.foldlM (fun t e => t.append e.1 e.2) t

def forAmount (start : κ) (amount : Nat) (t : OrderedTable κ ν) : List ν :=
  ((t.entries.filter fun e => start ≤ e.1).take amount).map Prod.snd

theorem entries_of_append {key : κ} {value : ν} {t u : OrderedTable κ ν}
    (h : t.append key value = some u) : u.entries = t.entries ++ [(key, value)] := by
  unfold append at h
  split at h
  case isTrue => cases h; rfl
  case isFalse => cases h

theorem entries_of_appendAll {entries : List (κ × ν)} {t u : OrderedTable κ ν}
    (h : t.appendAll entries = some u) : u.entries = t.entries ++ entries := by
  induction entries generalizing t with
  | nil =>
    cases h
    exact (List.append_nil _).symm
  | cons e rest ih =>
    obtain ⟨next, hnext, hrest⟩ := Option.bind_eq_some_iff.mp h
    rw [ih hrest, entries_of_append hnext, List.append_assoc]
    rfl

theorem length_forAmount_le (start : κ) (amount : Nat) (t : OrderedTable κ ν) :
    (t.forAmount start amount).length ≤ amount := by
  rw [forAmount, List.length_map]
  exact List.length_take_le _ _

theorem forAmount_of_range {t : OrderedTable κ ν} {before range after : List (κ × ν)}
    {start : κ} (h : t.entries = before ++ range ++ after)
    (hstart : ∀ e ∈ range.head?, e.1 = start) :
    t.forAmount start range.length = range.map Prod.snd := by
  cases range with
  | nil => rfl
  | cons first rest =>
    obtain rfl : first.1 = start := hstart first rfl
    have hsorted := h ▸ t.sorted
    obtain ⟨hleft, -, -⟩ := List.pairwise_append.mp hsorted
    obtain ⟨-, hrange, hbefore⟩ := List.pairwise_append.mp hleft
    have hbefore : before.filter (fun e => first.1 ≤ e.1) = [] := by
      rw [List.filter_eq_nil_iff]
      intro e he
      simpa using hbefore e he first List.mem_cons_self
    have hrange : (first :: rest).filter (fun e => first.1 ≤ e.1) = first :: rest := by
      rw [List.filter_eq_self]
      intro e he
      rcases List.mem_cons.mp he with rfl | he
      · simp
      · simpa using ((List.pairwise_cons.mp hrange).1 e he).le
    rw [forAmount, h, List.filter_append, List.filter_append, hbefore, hrange,
      List.nil_append, List.take_left]

end OrderedTable

end Tables

section Records

variable {α : Type*} {n : Nat}

def writeRecords (encode : α → FixedBytes n) (records : List α) : List UInt8 :=
  concat (records.map encode)

def readRecords (decode : FixedBytes n → α) (data : List UInt8) : List α :=
  (chunks n (data.length / n) data).map decode

theorem readRecords_writeRecords {encode : α → FixedBytes n} {decode : FixedBytes n → α}
    (hn : 0 < n) (h : ∀ a, decode (encode a) = a) (records : List α) :
    readRecords decode (writeRecords encode records) = records := by
  have hcount : (writeRecords encode records).length / n = (records.map encode).length := by
    rw [writeRecords, concat_length, Nat.mul_div_cancel _ hn]
  have hchunks := chunks_concat (records.map encode) []
  rw [List.append_nil] at hchunks
  rw [readRecords, hcount, writeRecords, hchunks, List.map_map]
  exact (List.map_congr_left fun a _ => h a).trans (List.map_id records)

end Records

end N42.OrderedTables
