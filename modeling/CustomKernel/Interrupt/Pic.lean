/-
The interrupt controllers.

Remapping ends with the local APIC: its registers are mapped at a fixed virtual address
so that the interrupts of the two 8259 controllers pass through it.
-/

import CustomKernel.Memory.Vmm

set_option autoImplicit false

namespace CustomKernel.Interrupt

open CustomKernel.Memory

def LAPIC_VIRT : Nat := 0xfffffffffee00000

/-- The physical address in the word read from `APIC_BASE_MSR`. -/
def apicPhys (msr : BitVec 64) : Nat := (msr &&& 0xFFFFF000#64).toNat

/-- The mapping that `enable_lapic_pic_mode` makes, for the word it reads from the
processor; the register writes behind it touch no page table. -/
def enableLapicPicMode (vmm : Vmm) (msr : BitVec 64) : Except Panic Vmm :=
  mapPage vmm LAPIC_VIRT (apicPhys msr) (PTE_PRESENT ||| PTE_WRITABLE ||| PTE_NO_CACHE)

end CustomKernel.Interrupt
