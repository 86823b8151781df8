/-
Four-level page tables.

Tables are read and written through the direct map: the pointer
`phys + HHDM_OFFSET` reaches the physical word at `phys`.  Entries are 64-bit
words.  A missing table is taken from the page allocator, zeroed and linked; the
walk for lookups and unmapping never creates one.
-/

import CustomKernel.Memory.Pmm

set_option autoImplicit false

namespace CustomKernel.Memory

def PTE_PRESENT : BitVec 64 := 1#64 <<< 0
def PTE_WRITABLE : BitVec 64 := 1#64 <<< 1
def PTE_USER : BitVec 64 := 1#64 <<< 2
def PTE_NO_EXEC : BitVec 64 := 1#64 <<< 63
def PTE_NO_CACHE : BitVec 64 := 1#64 <<< 4

def ADDR_MASK : BitVec 64 := 0x000ffffffffff000#64

/-- The machine state the module touches.  `physMem` gives the 64-bit word at each
physical address. -/
structure Vmm where
  pmm : Pmm
  cr3 : BitVec 64
  hhdmOffset : Nat
  physMem : Nat → BitVec 64

def physToVirt (vmm : Vmm) (phys : Nat) : Nat :=
  Word64.add phys vmm.hhdmOffset

/-- `table.add(idx)` on a pointer to 64-bit words. -/
def tableAdd (table idx : Nat) : Nat :=
  Word64.add table (8 * idx)

def readVolatile (vmm : Vmm) (pointer : Nat) : BitVec 64 :=
  vmm.physMem (Word64.sub pointer vmm.hhdmOffset)

def writeVolatile (vmm : Vmm) (pointer : Nat) (value : BitVec 64) : Vmm :=
  { vmm with
    physMem := Function.update vmm.physMem (Word64.sub pointer vmm.hhdmOffset) value }

/-- `write_bytes(pointer, 0, PAGE_SIZE / 8)` on a pointer to 64-bit words. -/
def zeroTable (vmm : Vmm) (pointer : Nat) : Vmm :=
  let start := Word64.sub pointer vmm.hhdmOffset
  { vmm with
    physMem := fun address =>
      if start ≤ address ∧ address < start + PAGE_SIZE / 8 * 8 then 0#64
      else vmm.physMem address }

def isPresent (entry : BitVec 64) : Bool := entry &&& PTE_PRESENT ≠ 0#64

def entryAddr (entry : BitVec 64) : Nat := (entry &&& ADDR_MASK).toNat

def nextTableOrCreate (vmm : Vmm) (table idx : Nat) : Except Panic (Nat × Vmm) :=
  let entry := readVolatile vmm (tableAdd table idx)
  if isPresent entry then .ok (physToVirt vmm (entryAddr entry), vmm)
  else
    match allocPage vmm.pmm with
    | (none, _) => .error .vmmOutOfMemory
    | (some phys, pmm) =>
        let virt := physToVirt vmm phys
        let zeroed := zeroTable { vmm with pmm := pmm } virt
        .ok (virt, writeVolatile zeroed (tableAdd table idx)
          (BitVec.ofNat 64 phys ||| PTE_PRESENT ||| PTE_WRITABLE))

def pml4Idx (virt : Nat) : Nat := (virt >>> 39) &&& 0x1ff
def pdptIdx (virt : Nat) : Nat := (virt >>> 30) &&& 0x1ff
def pdIdx (virt : Nat) : Nat := (virt >>> 21) &&& 0x1ff
def ptIdx (virt : Nat) : Nat := (virt >>> 12) &&& 0x1ff

def splitIndices (virt : Nat) : Nat × Nat × Nat × Nat :=
  (pml4Idx virt, pdptIdx virt, pdIdx virt, ptIdx virt)

def pml4Pointer (vmm : Vmm) : Nat :=
  physToVirt vmm (entryAddr vmm.cr3)

def mapPage (vmm : Vmm) (virt phys : Nat) (flags : BitVec 64) : Except Panic Vmm :=
  if virt % PAGE_SIZE ≠ 0 then .error (.mapPageVirtNotAligned virt)
  else if phys % PAGE_SIZE ≠ 0 then .error (.mapPagePhysNotAligned phys)
  else do
    let (pml4Idx, pdptIdx, pdIdx, ptIdx) := splitIndices virt
    let (pdpt, vmm) ← nextTableOrCreate vmm (pml4Pointer vmm) pml4Idx
    let (pd, vmm) ← nextTableOrCreate vmm pdpt pdptIdx
    let (pt, vmm) ← nextTableOrCreate vmm pd pdIdx
    pure (writeVolatile vmm (tableAdd pt ptIdx)
      (BitVec.ofNat 64 phys ||| flags ||| PTE_PRESENT))

def walkExisting (vmm : Vmm) (virt : Nat) : Option (Nat × Nat × BitVec 64) :=
  let (pml4Idx, pdptIdx, pdIdx, ptIdx) := splitIndices virt
  let e4 := readVolatile vmm (tableAdd (pml4Pointer vmm) pml4Idx)
  if ¬ isPresent e4 then none
  else
    let pdpt := physToVirt vmm (entryAddr e4)
    let e3 := readVolatile vmm (tableAdd pdpt pdptIdx)
    if ¬ isPresent e3 then none
    else
      let pd := physToVirt vmm (entryAddr e3)
      let e2 := readVolatile vmm (tableAdd pd pdIdx)
      if ¬ isPresent e2 then none
      else
        let pt := physToVirt vmm (entryAddr e2)
        let e1 := readVolatile vmm (tableAdd pt ptIdx)
        some (pt, ptIdx, e1)

def unmapPage (vmm : Vmm) (virt : Nat) : Except Panic Vmm :=
  if virt % PAGE_SIZE ≠ 0 then .error (.unmapPageVirtNotAligned virt)
  else
    match walkExisting vmm virt with
    | none => .ok vmm
    | some (pt, ptIdx, _) => .ok (writeVolatile vmm (tableAdd pt ptIdx) 0#64)

def getPhysAddr (vmm : Vmm) (virt : Nat) : Option Nat :=
  match walkExisting vmm virt with
  | none => none
  | some (_, _, e1) =>
      if ¬ isPresent e1 then none
      else some (entryAddr e1 ||| (virt &&& 0xfff))

end CustomKernel.Memory
