import Mathlib
import N42.RevisionSafety

/-!
The access list of a transaction and its journal: what has been added and not been reverted
is in the list.
-/

namespace N42.AccessJournals

open ChainTypes AccessLists AccessLists.AccessList UndoLogs
open StateObjects IntraBlock IntraBlock.IntraBlockState StateOperations

variable {db : Backend}

inductive Step where
  | addAddress (a : Address)
  | addSlot (a : Address) (slot : Hash)
  | revert (snapshot : Nat)

def step (s : IntraBlockState db) : Step → Option (IntraBlockState db)
  | .addAddress a => some (addAddressToAccessList a s)
  | .addSlot a slot => addSlotToAccessList a slot s
  | .revert snapshot => s.revertJournal snapshot

/-- Every place is one of the array and belongs to one address, and the list has what the
journal says was added. -/
structure Consistent (s : IntraBlockState db) : Prop where
  valid : ∀ a idx, s.accessList.addresses a = some (some idx) → idx < s.accessList.slots.length
  distinct : ∀ a b idx, s.accessList.addresses a = some (some idx) →
    s.accessList.addresses b = some (some idx) → a = b
  address : ∀ a, s.accessList.containsAddress a = true ↔ .accessListAddAccountChange a ∈ s.entries
  slot : ∀ a slot, ∃ present, s.accessList.contains a slot =
    some (s.accessList.containsAddress a, present) ∧
      (present = true ↔ .accessListAddSlotChange a slot ∈ s.entries)

/-- How a list comes about, with the entries for it. -/
inductive Recorded : AccessList → List JournalEntry → Prop
  | new : Recorded newAccessList []
  | address {al : AccessList} {log : List JournalEntry} {a : Address} (h : Recorded al log)
      (habsent : al.addresses a = none) :
      Recorded { al with addresses := Function.update al.addresses a (some none) }
        (.accessListAddAccountChange a :: log)
  | first {al : AccessList} {log : List JournalEntry} {a : Address} {slot : Hash}
      (h : Recorded al log) (haddress : al.addresses a = some none) :
      Recorded (al.addSlots a slot) (.accessListAddSlotChange a slot :: log)
  | another {al : AccessList} {log : List JournalEntry} {a : Address} {slot : Hash} {idx : Nat}
      {slotmap : Finset Hash} (h : Recorded al log) (hidx : al.addresses a = some (some idx))
      (hslots : al.slots[idx]? = some slotmap) (hnew : slot ∉ slotmap) :
      Recorded { al with slots := al.slots.set idx (insert slot slotmap) }
        (.accessListAddSlotChange a slot :: log)

variable {al : AccessList} {log : List JournalEntry} {s t : IntraBlockState db}

theorem Recorded.placed (h : Recorded al log) : al.Placed := by
  induction h with
  | new => exact placed_new
  | @address al log a _ habsent ih =>
    have hadded : (al.addAddress a).2.Placed := ih.addAddress
    rw [AccessList.addAddress, containsAddress, habsent] at hadded
    exact hadded
  | first _ _ ih => exact ih.addSlots
  | another _ _ _ _ ih => exact ih.insert

theorem Placed.lt (h : al.Placed) {a : Address} {idx : Nat}
    (ha : al.addresses a = some (some idx)) : idx < al.slots.length := by
  obtain ⟨slotmap, hslots, -⟩ := h a idx ha
  exact (List.getElem?_eq_some_iff.mp hslots).1

theorem Recorded.distinct (h : Recorded al log) {a b : Address} {idx : Nat}
    (ha : al.addresses a = some (some idx)) (hb : al.addresses b = some (some idx)) : a = b := by
  induction h generalizing a b idx with
  | new => cases ha
  | @address al log c _ _ ih =>
    have hold : ∀ d, Function.update al.addresses c (some none) d = some (some idx) →
        al.addresses d = some (some idx) := by
      intro d hd
      by_cases hdc : d = c
      · simp [hdc] at hd
      · simpa [hdc] using hd
    exact ih (hold a ha) (hold b hb)
  | @first al log c slot h _ ih =>
    -- the new place is behind all the others
    have hold : ∀ d, (al.addSlots c slot).addresses d = some (some idx) →
        d = c ∧ idx = al.slots.length ∨ al.addresses d = some (some idx) ∧ idx < al.slots.length := by
      intro d hd
      by_cases hdc : d = c
      · exact .inl ⟨hdc, by simpa [addSlots, hdc, eq_comm] using hd⟩
      · have hplace : al.addresses d = some (some idx) := by simpa [addSlots, hdc] using hd
        exact .inr ⟨hplace, Placed.lt h.placed hplace⟩
    rcases hold a ha with ⟨rfl, hidx⟩ | ⟨ha, hlt⟩
    · rcases hold b hb with ⟨rfl, -⟩ | ⟨-, hlt⟩
      · rfl
      · omega
    · rcases hold b hb with ⟨-, hidx⟩ | ⟨hb, -⟩
      · omega
      · exact ih ha hb
  | another _ _ _ _ ih => exact ih ha hb

theorem Recorded.address_mem_iff (h : Recorded al log) (a : Address) :
    al.containsAddress a = true ↔ .accessListAddAccountChange a ∈ log := by
  induction h with
  | new => simp [containsAddress, newAccessList]
  | @address al log b _ _ ih =>
    by_cases hab : a = b
    · simp [containsAddress, hab]
    · simpa [containsAddress, hab] using ih
  | @first al log b slot _ hb ih =>
    by_cases hab : a = b
    · subst hab
      simpa [containsAddress, addSlots, hb] using ih
    · simpa [containsAddress, addSlots, hab] using ih
  | another _ _ _ _ ih => simpa [containsAddress] using ih

def Has (al : AccessList) (a : Address) (slot : Hash) : Prop :=
  ∃ idx slotmap, al.addresses a = some (some idx) ∧ al.slots[idx]? = some slotmap ∧ slot ∈ slotmap

theorem has_addSlots_iff {b : Address} {other : Hash} (h : al.Placed)
    (hb : al.addresses b = some none) (a : Address) (slot : Hash) :
    Has (al.addSlots b other) a slot ↔ (a = b ∧ slot = other) ∨ Has al a slot := by
  by_cases hab : a = b
  · subst hab
    simp [Has, addSlots, hb]
  · constructor
    · rintro ⟨idx, slotmap, haddr, hslots, hmem⟩
      have hold : al.addresses a = some (some idx) := by simpa [addSlots, hab] using haddr
      rw [addSlots, List.getElem?_append_left (Placed.lt h hold)] at hslots
      exact .inr ⟨idx, slotmap, hold, hslots, hmem⟩
    · rintro (⟨heq, -⟩ | ⟨idx, slotmap, haddr, hslots, hmem⟩)
      · exact absurd heq hab
      · refine ⟨idx, slotmap, by simpa [addSlots, hab] using haddr, ?_, hmem⟩
        rw [addSlots, List.getElem?_append_left (Placed.lt h haddr)]
        exact hslots

theorem has_insert_iff {b : Address} {other : Hash} {place : Nat} {slotmap : Finset Hash}
    (h : Recorded al log) (hb : al.addresses b = some (some place))
    (hplace : al.slots[place]? = some slotmap) (a : Address) (slot : Hash) :
    Has { al with slots := al.slots.set place (insert other slotmap) } a slot ↔
      (a = b ∧ slot = other) ∨ Has al a slot := by
  obtain ⟨hlt, rfl⟩ := List.getElem?_eq_some_iff.mp hplace
  by_cases hab : a = b
  · subst hab
    simp [Has, hb, hlt]
  · have hother : ∀ idx, al.addresses a = some (some idx) →
        (al.slots.set place (insert other al.slots[place]))[idx]? = al.slots[idx]? := by
      intro idx haddr
      refine List.getElem?_set_ne ?_
      rintro rfl
      exact hab (h.distinct haddr hb)
    constructor
    · rintro ⟨idx, found, haddr, hslots, hmem⟩
      exact .inr ⟨idx, found, haddr, (hother idx haddr).symm.trans hslots, hmem⟩
    · rintro (⟨heq, -⟩ | ⟨idx, found, haddr, hslots, hmem⟩)
      · exact absurd heq hab
      · exact ⟨idx, found, haddr, (hother idx haddr).trans hslots, hmem⟩

theorem Recorded.slot_mem_iff (h : Recorded al log) (a : Address) (slot : Hash) :
    Has al a slot ↔ .accessListAddSlotChange a slot ∈ log := by
  induction h with
  | new => simp [Has, newAccessList]
  | @address al log b _ hb ih =>
    by_cases hab : a = b
    · subst hab
      simpa [Has, hb] using ih
    · simpa [Has, hab] using ih
  | first h hb ih => simp [has_addSlots_iff h.placed hb, ih]
  | another h hb hplace _ ih => simp [has_insert_iff h hb hplace, ih]

theorem contains_eq (h : al.Placed) (a : Address) (slot : Hash) :
    ∃ present, al.contains a slot = some (al.containsAddress a, present) ∧
      (present = true ↔ Has al a slot) := by
  rw [contains, containsAddress]
  cases haddr : al.addresses a with
  | none => exact ⟨false, rfl, by simp [Has, haddr]⟩
  | some place =>
    cases place with
    | none => exact ⟨false, rfl, by simp [Has, haddr]⟩
    | some idx =>
      obtain ⟨slotmap, hslots, -⟩ := h a idx haddr
      exact ⟨decide (slot ∈ slotmap), by simp [hslots], by simp [Has, haddr, hslots]⟩

theorem consistent_of_recorded (h : Recorded s.accessList s.entries) : Consistent s where
  valid _ _ ha := Placed.lt h.placed ha
  distinct _ _ _ := h.distinct
  address := h.address_mem_iff
  slot a slot := by
    obtain ⟨present, hcontains, hpresent⟩ := contains_eq h.placed a slot
    exact ⟨present, hcontains, hpresent.trans (h.slot_mem_iff a slot)⟩

section Steps

theorem Recorded.undoEntry {e : JournalEntry} (h : Recorded s.accessList (e :: log)) :
    ∃ al, undoEntry e s = some { s with accessList := al } ∧ Recorded al log := by
  generalize hal : s.accessList = al at h
  cases h with
  | @address al log a h habsent =>
    refine ⟨al, ?_, h⟩
    show some { s with accessList := s.accessList.deleteAddress a } = _
    rw [hal, deleteAddress, Function.update_idem, ← habsent, Function.update_eq_self]
  | @first al log a slot h haddress =>
    refine ⟨al, ?_, h⟩
    show ((s.accessList.deleteSlot a slot).map _).map _ = _
    rw [hal, deleteSlot_addSlots, ← haddress, Function.update_eq_self]
    rfl
  | @another al log a slot idx slotmap h hidx hslots hnew =>
    obtain ⟨found, hfound, hne⟩ := h.placed a idx hidx
    obtain rfl : slotmap = found := Option.some.inj (hslots.symm.trans hfound)
    refine ⟨al, ?_, h⟩
    show ((s.accessList.deleteSlot a slot).map _).map _ = _
    rw [hal, deleteSlot_set hidx hslots hne hnew]
    rfl

theorem Recorded.undoAll (h : Recorded s.accessList log) (n : Nat) :
    ∃ al, undoAll IntraBlockState.undoEntry (log.take n) s = some { s with accessList := al } ∧
      Recorded al (log.drop n) := by
  induction n generalizing s log with
  | zero => exact ⟨s.accessList, rfl, h⟩
  | succ n ih =>
    cases log with
    | nil => exact ⟨s.accessList, rfl, h⟩
    | cons e log =>
      obtain ⟨al, hundo, h⟩ := h.undoEntry
      obtain ⟨al', hrest, h'⟩ := ih (s := { s with accessList := al }) h
      exact ⟨al', by rw [List.take_succ_cons, UndoLogs.undoAll, hundo]; exact hrest, h'⟩

theorem Recorded.addSlot (h : Recorded s.accessList s.entries) (a : Address) (slot : Hash) :
    ∃ t, addSlotToAccessList a slot s = some t ∧ Recorded t.accessList t.entries := by
  rw [addSlotToAccessList, AccessList.addSlot]
  cases haddr : s.accessList.addresses a with
  | none =>
    refine ⟨_, rfl, ?_⟩
    have hfirst := @Recorded.first _ _ a slot (h.address haddr) (Function.update_self ..)
    rw [addSlots, Function.update_idem] at hfirst
    exact hfirst
  | some place =>
    cases place with
    | none => exact ⟨_, rfl, h.first haddr⟩
    | some idx =>
      obtain ⟨slotmap, hslots, -⟩ := h.placed a idx haddr
      simp only [hslots, Option.map_some]
      split
      · exact ⟨_, rfl, h⟩
      · rename_i hnew
        exact ⟨_, rfl, h.another haddr hslots hnew⟩

theorem Recorded.step (h : Recorded s.accessList s.entries) (x : Step) :
    ∃ t, step s x = some t ∧ Recorded t.accessList t.entries := by
  cases x with
  | addAddress a =>
    refine ⟨_, rfl, ?_⟩
    rw [addAddressToAccessList, AccessList.addAddress, containsAddress]
    cases haddr : s.accessList.addresses a with
    | none => exact h.address haddr
    | some place => exact h
  | addSlot a slot => exact h.addSlot a slot
  | revert snapshot =>
    obtain ⟨al, hundo, h⟩ := h.undoAll (s.entries.length - snapshot)
    refine ⟨_, by rw [AccessJournals.step, revertJournal, hundo]; rfl, h⟩

end Steps

end N42.AccessJournals
