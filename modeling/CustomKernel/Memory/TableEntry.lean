/-
Page-table entries and the words that hold them.

The direct map turns a table pointer back into the table's physical address, so
every access of the code is an access to the word at `table + 8 * idx`.  The
address field of an entry is the middle forty bits; the flag constants lie
outside it.
-/

import CustomKernel.Memory.Vmm
import Mathlib.Tactic.Ring

set_option autoImplicit false

namespace CustomKernel.Memory

def entryAt (vmm : Vmm) (table slot : Nat) : BitVec 64 :=
  vmm.physMem (table + 8 * slot)

def IsFrame (frame : Nat) : Prop :=
  frame % PAGE_SIZE = 0 ∧ frame < 2 ^ 52

/-! ### Address and flag fields -/

theorem entryAddr_eq (entry : BitVec 64) :
    entryAddr entry = entry.toNat / 2 ^ 12 % 2 ^ 40 * 2 ^ 12 := by
  have maskNat : ADDR_MASK.toNat = (2 ^ 40 - 1) * 2 ^ 12 := rfl
  unfold entryAddr
  rw [BitVec.toNat_and, maskNat]
  apply Nat.eq_of_testBit_eq
  intro index
  rw [Nat.testBit_and, Nat.testBit_mul_two_pow, Nat.testBit_mul_two_pow,
    Nat.testBit_two_pow_sub_one, Nat.testBit_mod_two_pow, Nat.testBit_div_two_pow]
  by_cases above : 12 ≤ index
  · rw [Nat.sub_add_cancel above]
    simp [above, Bool.and_comm]
  · simp [above]

theorem entryAddr_isFrame (entry : BitVec 64) : IsFrame (entryAddr entry) := by
  rw [entryAddr_eq]
  unfold IsFrame PAGE_SIZE
  omega

def PteFlags (flags : BitVec 64) : Prop :=
  flags &&& ~~~(PTE_PRESENT ||| PTE_WRITABLE ||| PTE_USER ||| PTE_NO_EXEC ||| PTE_NO_CACHE) = 0#64

theorem PteFlags.outside_address {flags : BitVec 64} (subset : PteFlags flags) :
    flags &&& ADDR_MASK = 0#64 := by
  have maskInside : ADDR_MASK =
      ~~~(PTE_PRESENT ||| PTE_WRITABLE ||| PTE_USER ||| PTE_NO_EXEC ||| PTE_NO_CACHE) &&&
        ADDR_MASK := by decide
  rw [maskInside, ← BitVec.and_assoc, subset, BitVec.zero_and]

theorem and_mask_or (left right : BitVec 64) :
    (left ||| right) &&& ADDR_MASK = (left &&& ADDR_MASK) ||| (right &&& ADDR_MASK) := by
  apply BitVec.eq_of_getLsbD_eq
  intro index _
  simp only [BitVec.getLsbD_and, BitVec.getLsbD_or, Bool.and_or_distrib_right]

theorem entryAddr_or {phys : Nat} {flags more : BitVec 64} (frame : IsFrame phys)
    (flagsOutside : flags &&& ADDR_MASK = 0#64) (moreOutside : more &&& ADDR_MASK = 0#64) :
    entryAddr (BitVec.ofNat 64 phys ||| flags ||| more) = phys := by
  have address : entryAddr (BitVec.ofNat 64 phys ||| flags ||| more) =
      entryAddr (BitVec.ofNat 64 phys) := by
    unfold entryAddr
    rw [and_mask_or, and_mask_or, flagsOutside, moreOutside, BitVec.or_zero, BitVec.or_zero]
  obtain ⟨aligned, small⟩ := frame
  rw [address, entryAddr_eq, BitVec.toNat_ofNat]
  unfold PAGE_SIZE at aligned
  omega

theorem isPresent_eq (entry : BitVec 64) : isPresent entry = entry.getLsbD 0 := by
  have one : PTE_PRESENT = BitVec.twoPow 64 0 := rfl
  unfold isPresent
  rw [one, BitVec.and_twoPow]
  cases entry.getLsbD 0 <;> decide

theorem isPresent_or_present (word : BitVec 64) : isPresent (word ||| PTE_PRESENT) = true := by
  rw [isPresent_eq, BitVec.getLsbD_or]
  simp [PTE_PRESENT]

theorem isPresent_zero : isPresent 0#64 = false := rfl

/-- Bit 7: in a directory entry it marks a large page. -/
def pageSizeBit (entry : BitVec 64) : Bool := entry.getLsbD 7

theorem ofNat_frame_low {phys index : Nat} (frame : IsFrame phys) (low : index < 12) :
    (BitVec.ofNat 64 phys).getLsbD index = false := by
  have aligned : phys % 2 ^ 12 = 0 := frame.1
  have bit := Nat.testBit_mod_two_pow phys 12 index
  rw [aligned, Nat.zero_testBit] at bit
  rw [BitVec.getLsbD_ofNat]
  simp only [low, decide_true, Bool.true_and] at bit
  rw [← bit, Bool.and_false]

/-- The entry `next_table_or_create` links: the frame, present and writable. -/
def tableEntry (phys : Nat) : BitVec 64 :=
  BitVec.ofNat 64 phys ||| PTE_PRESENT ||| PTE_WRITABLE

theorem tableEntry_isPresent (phys : Nat) : isPresent (tableEntry phys) = true := by
  rw [isPresent_eq, tableEntry, BitVec.getLsbD_or, BitVec.getLsbD_or]
  simp [PTE_PRESENT]

theorem tableEntry_addr {phys : Nat} (frame : IsFrame phys) :
    entryAddr (tableEntry phys) = phys :=
  entryAddr_or frame (by decide) (by decide)

theorem tableEntry_pageSizeBit {phys : Nat} (frame : IsFrame phys) :
    pageSizeBit (tableEntry phys) = false := by
  rw [pageSizeBit, tableEntry, BitVec.getLsbD_or, BitVec.getLsbD_or,
    ofNat_frame_low frame (by decide)]
  rfl

/-! ### Access through the direct map -/

theorem directMap_add {vmm : Vmm} {phys offset : Nat} (fits : phys + offset < 2 ^ 64) :
    Word64.sub (Word64.add (physToVirt vmm phys) offset) vmm.hhdmOffset = phys + offset := by
  unfold physToVirt Word64.sub Word64.add Word64.modulus
  omega

theorem directMap {vmm : Vmm} {phys : Nat} (fits : phys < 2 ^ 64) :
    Word64.sub (physToVirt vmm phys) vmm.hhdmOffset = phys := by
  unfold physToVirt Word64.sub Word64.add Word64.modulus
  omega

theorem IsFrame.slot_fits {frame slot : Nat} (isFrame : IsFrame frame) (inside : slot < 512) :
    frame + 8 * slot < 2 ^ 64 := by
  have small := isFrame.2
  omega

theorem readVolatile_table {vmm : Vmm} {table slot : Nat} (frame : IsFrame table)
    (inside : slot < 512) :
    readVolatile vmm (tableAdd (physToVirt vmm table) slot) = entryAt vmm table slot := by
  unfold readVolatile tableAdd entryAt
  rw [directMap_add (frame.slot_fits inside)]

theorem slot_address_inj {left right leftSlot rightSlot : Nat} (leftFrame : IsFrame left)
    (rightFrame : IsFrame right) (leftInside : leftSlot < 512) (rightInside : rightSlot < 512)
    (same : left + 8 * leftSlot = right + 8 * rightSlot) :
    left = right ∧ leftSlot = rightSlot := by
  have leftAligned := leftFrame.1
  have rightAligned := rightFrame.1
  unfold PAGE_SIZE at leftAligned rightAligned
  omega

theorem entryAt_writeVolatile {vmm : Vmm} {table slot other turn : Nat} (value : BitVec 64)
    (frame : IsFrame table) (inside : slot < 512) (otherFrame : IsFrame other)
    (turnInside : turn < 512) :
    entryAt (writeVolatile vmm (tableAdd (physToVirt vmm table) slot) value) other turn =
      if other = table ∧ turn = slot then value else entryAt vmm other turn := by
  unfold entryAt writeVolatile tableAdd
  simp only [directMap_add (frame.slot_fits inside)]
  by_cases here : other = table ∧ turn = slot
  · rw [if_pos here, here.1, here.2, Function.update_self]
  · rw [if_neg here, Function.update_of_ne]
    intro same
    exact here (slot_address_inj otherFrame frame turnInside inside same)

theorem entryAt_zeroTable {vmm : Vmm} {table other turn : Nat} (frame : IsFrame table)
    (otherFrame : IsFrame other) (turnInside : turn < 512) :
    entryAt (zeroTable vmm (physToVirt vmm table)) other turn =
      if other = table then 0#64 else entryAt vmm other turn := by
  have small : table < 2 ^ 64 := Nat.lt_trans frame.2 (by decide)
  unfold entryAt zeroTable
  simp only [directMap small]
  have aligned := frame.1
  have otherAligned := otherFrame.1
  unfold PAGE_SIZE at *
  by_cases same : other = table
  · rw [if_pos same, if_pos (by omega)]
  · rw [if_neg same, if_neg (by omega)]

/-! ### Index splitting -/

/-- Canonical addresses: bits 63 to 47 are equal. -/
def Canonical (virt : Nat) : Prop :=
  virt < 2 ^ 47 ∨ (2 ^ 64 - 2 ^ 47 ≤ virt ∧ virt < 2 ^ 64)

theorem index_eq (virt shift : Nat) : (virt >>> shift) &&& 0x1ff = virt / 2 ^ shift % 512 := by
  have mask : (0x1ff : Nat) = 2 ^ 9 - 1 := rfl
  rw [mask, Nat.and_two_pow_sub_one_eq_mod, Nat.shiftRight_eq_div_pow]

theorem pml4Idx_lt (virt : Nat) : pml4Idx virt < 512 := by
  rw [pml4Idx, index_eq]
  exact Nat.mod_lt _ (by decide)

theorem pdptIdx_lt (virt : Nat) : pdptIdx virt < 512 := by
  rw [pdptIdx, index_eq]
  exact Nat.mod_lt _ (by decide)

theorem pdIdx_lt (virt : Nat) : pdIdx virt < 512 := by
  rw [pdIdx, index_eq]
  exact Nat.mod_lt _ (by decide)

theorem ptIdx_lt (virt : Nat) : ptIdx virt < 512 := by
  rw [ptIdx, index_eq]
  exact Nat.mod_lt _ (by decide)

theorem indices_inj {left right : Nat} (leftCanonical : Canonical left)
    (rightCanonical : Canonical right) (pml4 : pml4Idx left = pml4Idx right)
    (pdpt : pdptIdx left = pdptIdx right) (pd : pdIdx left = pdIdx right)
    (pt : ptIdx left = ptIdx right) : left / PAGE_SIZE = right / PAGE_SIZE := by
  rw [pml4Idx, pml4Idx, index_eq, index_eq] at pml4
  rw [pdptIdx, pdptIdx, index_eq, index_eq] at pdpt
  rw [pdIdx, pdIdx, index_eq, index_eq] at pd
  rw [ptIdx, ptIdx, index_eq, index_eq] at pt
  unfold Canonical at leftCanonical rightCanonical
  unfold PAGE_SIZE
  omega

theorem indices_of_page {left right : Nat} (samePage : left / PAGE_SIZE = right / PAGE_SIZE) :
    pml4Idx left = pml4Idx right ∧ pdptIdx left = pdptIdx right ∧
      pdIdx left = pdIdx right ∧ ptIdx left = ptIdx right := by
  simp only [pml4Idx, pdptIdx, pdIdx, ptIdx, index_eq]
  unfold PAGE_SIZE at samePage
  omega

end CustomKernel.Memory
