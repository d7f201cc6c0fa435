import N42.ChainTypes
import Mathlib.Data.Finset.Basic

/-!
The access list of a transaction: addresses, each with the place of its set of slots.
-/

namespace N42.AccessLists

open ChainTypes

/-- An address without slots has no place; in the source its place is -1. -/
@[ext] structure AccessList where
  addresses : Address → Option (Option Nat)
  slots : List (Finset Hash)

def newAccessList : AccessList :=
  ⟨fun _ => none, []⟩

namespace AccessList

section

variable (al : AccessList)

section

variable (address : Address)

def containsAddress : Bool :=
  (al.addresses address).isSome

/-- The flags for the address and for the slot; a place out of range panics. -/
def contains (slot : Hash) : Option (Bool × Bool) :=
  match al.addresses address with
  | none => some (false, false)
  | some none => some (true, false)
  | some (some idx) => al.slots[idx]?.map fun slotmap => (true, decide (slot ∈ slotmap))

def addAddress : Bool × AccessList :=
  if al.containsAddress address then (false, al)
  else (true, { al with addresses := Function.update al.addresses address (some none) })

def addSlots (slot : Hash) : AccessList where
  addresses := Function.update al.addresses address (some (some al.slots.length))
  slots := al.slots ++ [{slot}]

/-- Whether the address and the slot were added. -/
def addSlot (slot : Hash) :
    Option (Bool × Bool × AccessList) :=
  match al.addresses address with
  | none => some (true, true, al.addSlots address slot)
  | some none => some (false, true, al.addSlots address slot)
  | some (some idx) =>
    al.slots[idx]?.map fun slotmap =>
      if slot ∈ slotmap then (false, false, al)
      else (false, true, { al with slots := al.slots.set idx (insert slot slotmap) })

/-- Panics for an address that is missing or without slots. -/
def deleteSlot (slot : Hash) : Option AccessList :=
  match al.addresses address with
  | none | some none => none
  | some (some idx) =>
    al.slots[idx]?.map fun slotmap =>
      if slotmap.erase slot = ∅ then
        ⟨Function.update al.addresses address (some none), al.slots.take idx⟩
      else { al with slots := al.slots.set idx (slotmap.erase slot) }

def deleteAddress : AccessList :=
  { al with addresses := Function.update al.addresses address none }

end

def Placed : Prop :=
  ∀ address idx, al.addresses address = some (some idx) →
    ∃ slotmap, al.slots[idx]? = some slotmap ∧ slotmap.Nonempty

end

theorem placed_new : Placed newAccessList := by
  intro address idx h
  cases h

variable {al : AccessList} {address : Address} {slot : Hash}

theorem deleteAddress_addAddress (h : al.addresses address = none) :
    (al.addAddress address).2.deleteAddress address = al := by
  have habsent : al.containsAddress address = false := by
    rw [containsAddress, h]
    rfl
  rw [addAddress, habsent, deleteAddress]
  exact AccessList.ext (by simp [← h]) rfl

theorem deleteSlot_addSlots :
    (al.addSlots address slot).deleteSlot address slot =
      some { al with addresses := Function.update al.addresses address (some none) } := by
  simp [deleteSlot, addSlots]

theorem deleteSlot_set {idx : Nat} {slotmap : Finset Hash}
    (hidx : al.addresses address = some (some idx)) (hslots : al.slots[idx]? = some slotmap)
    (hne : slotmap.Nonempty) (hnew : slot ∉ slotmap) :
    deleteSlot { al with slots := al.slots.set idx (insert slot slotmap) } address slot =
      some al := by
  obtain ⟨hlt, rfl⟩ := List.getElem?_eq_some_iff.mp hslots
  have hget : (al.slots.set idx (insert slot al.slots[idx]))[idx]? =
      some (insert slot al.slots[idx]) :=
    List.getElem?_set_self hlt
  rw [deleteSlot]
  simp only [hidx, hget, Option.map_some, Finset.erase_insert hnew, if_neg hne.ne_empty,
    List.set_set]
  exact congrArg some (AccessList.ext rfl (List.set_getElem_self hlt))

theorem Placed.addAddress (h : al.Placed) : (al.addAddress address).2.Placed := by
  rw [AccessList.addAddress]
  split
  · exact h
  · intro other idx hother
    by_cases heq : other = address
    · simp [heq] at hother
    · exact h other idx (by simpa [heq] using hother)

theorem Placed.addSlots (h : al.Placed) : (al.addSlots address slot).Placed := by
  intro other idx hother
  by_cases heq : other = address
  · obtain rfl : al.slots.length = idx := by simpa [AccessList.addSlots, heq] using hother
    exact ⟨{slot}, by simp [AccessList.addSlots], Finset.singleton_nonempty slot⟩
  · obtain ⟨slotmap, hslots, hne⟩ := h other idx (by simpa [AccessList.addSlots, heq] using hother)
    refine ⟨slotmap, ?_, hne⟩
    rw [AccessList.addSlots, List.getElem?_append_left (List.getElem?_eq_some_iff.mp hslots).1]
    exact hslots

theorem Placed.insert {idx : Nat} {slotmap : Finset Hash} (h : al.Placed) :
    Placed { al with slots := al.slots.set idx (insert slot slotmap) } := by
  intro other place hother
  obtain ⟨found, hslots, hne⟩ := h other place hother
  by_cases heq : place = idx
  · have hlt := (List.getElem?_eq_some_iff.mp hslots).1
    subst heq
    exact ⟨_, List.getElem?_set_self hlt, Finset.insert_nonempty slot slotmap⟩
  · exact ⟨found, (List.getElem?_set_ne (Ne.symm heq)).trans hslots, hne⟩

end AccessList

end N42.AccessLists
