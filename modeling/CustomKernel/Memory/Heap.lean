/-
The kernel heap.

Blocks lie one after another in a growing window of virtual memory.  Each starts
with a header that holds its payload size, a used flag, a magic number and the
address of the next header.  `kmalloc` takes the first block that is free and
large enough and splits it; when there is none it maps fresh pages behind the last
block and tries again.  `kfree` marks a block free and merges it with the next.
-/

import CustomKernel.Foundation.ByteStore
import CustomKernel.Memory.Vmm

set_option autoImplicit false

namespace CustomKernel.Memory

def HEAP_START : Nat := 0xffff800100000000

def HEAP_MAX_SIZE : Nat := 64 * 1024 * 1024

def MAGIC_FREE : Nat := 0xFEE1DEAD

def MAGIC_USED : Nat := 0xCAFEBABE

/-- `size_of::<BlockHeader>()`: two words, a 32-bit magic, a flag byte and three
bytes of padding. -/
def HEADER_SIZE : Nat := 24

def ALIGN : Nat := 16

structure BlockHeader where
  size : Nat
  used : Nat
  magic : Nat
  next : Nat

/-- The heap's statics, the page tables it maps through, and the bytes at the
virtual addresses of its window.  A null pointer is zero. -/
structure Heap where
  vmm : Vmm
  mem : ByteStore.Store
  heapHead : Nat
  heapEnd : Nat
  heapInited : Bool

/-! ### Header fields -/

def readSize (mem : ByteStore.Store) (hdr : Nat) : Nat := ByteStore.readLE mem hdr 8
def readNext (mem : ByteStore.Store) (hdr : Nat) : Nat := ByteStore.readLE mem (hdr + 8) 8
def readMagic (mem : ByteStore.Store) (hdr : Nat) : Nat := ByteStore.readLE mem (hdr + 16) 4
def readUsed (mem : ByteStore.Store) (hdr : Nat) : Nat := ByteStore.readLE mem (hdr + 20) 1

def writeSize (mem : ByteStore.Store) (hdr value : Nat) : ByteStore.Store :=
  ByteStore.writeLE mem hdr 8 value

def writeNext (mem : ByteStore.Store) (hdr value : Nat) : ByteStore.Store :=
  ByteStore.writeLE mem (hdr + 8) 8 value

def writeMagic (mem : ByteStore.Store) (hdr value : Nat) : ByteStore.Store :=
  ByteStore.writeLE mem (hdr + 16) 4 value

def writeUsed (mem : ByteStore.Store) (hdr value : Nat) : ByteStore.Store :=
  ByteStore.writeLE mem (hdr + 20) 1 value

/-- The assignment of a whole header; its padding is zero. -/
def writeHeader (mem : ByteStore.Store) (hdr : Nat) (header : BlockHeader) : ByteStore.Store :=
  ByteStore.writeLE
    (writeUsed
      (writeMagic (writeNext (writeSize mem hdr header.size) hdr header.next) hdr header.magic)
      hdr header.used)
    (hdr + 21) 3 0

/-! ### Growing the window -/

def alignUp (n : Nat) : Nat :=
  Word64.sub (Word64.add n ALIGN) 1 &&& Word64.not (ALIGN - 1)

/-- The body of the mapping loop: back one page with a new frame. -/
def mapFreshPage (virt : Nat) (vmm : Vmm) (i : Nat) : Except Panic Vmm :=
  match allocPage vmm.pmm with
  | (none, _) => .error .heapOutOfMemory
  | (some phys, pmm) =>
      mapPage { vmm with pmm := pmm } (Word64.add virt (Word64.mul i PAGE_SIZE)) phys
        (PTE_PRESENT ||| PTE_WRITABLE ||| PTE_NO_EXEC)

def mapFreshPages (vmm : Vmm) (virt nPages : Nat) : Except Panic Vmm :=
  (List.range nPages).foldlM (mapFreshPage virt) vmm

def kmallocInit (heap : Heap) (start sizeBytes : Nat) : Except Panic Heap :=
  if heap.heapInited then .error .kmallocInitTwice
  else if start % PAGE_SIZE ≠ 0 then .error (.heapStartNotAligned start)
  else if ¬ HEADER_SIZE + ALIGN < sizeBytes then .error .heapTooSmall
  else do
    let pages := pagesFor sizeBytes
    let total := Word64.mul pages PAGE_SIZE
    let vmm ← mapFreshPages heap.vmm start pages
    pure
      { vmm := vmm
        mem := writeHeader heap.mem start
          { size := Word64.sub total HEADER_SIZE, used := 0, magic := MAGIC_FREE, next := 0 }
        heapHead := start
        heapEnd := Word64.add start total
        heapInited := true }

/-! ### Allocation -/

/-- More steps than the longest list of blocks in the window. -/
def LIST_STEPS : Nat := HEAP_MAX_SIZE / HEADER_SIZE + 1

def findBlock (mem : ByteStore.Store) (needed : Nat) : Nat → Nat → Except Panic (Option Nat)
  | 0, _ => .error .stepBound
  | steps + 1, cur =>
      if cur = 0 then .ok none
      else if readMagic mem cur ≠ MAGIC_FREE ∧ readMagic mem cur ≠ MAGIC_USED then
        .error (.heapCorruption (readMagic mem cur))
      else if readUsed mem cur = 0 ∧ needed ≤ readSize mem cur then .ok (some cur)
      else findBlock mem needed steps (readNext mem cur)

/-- Split the found block if enough is left over, then mark it used. -/
def takeBlock (mem : ByteStore.Store) (needed cur : Nat) : ByteStore.Store :=
  let leftover := readSize mem cur - Word64.add (Word64.add needed HEADER_SIZE) ALIGN
  let split :=
    if 0 < leftover then
      let newHdr := Word64.add (Word64.add cur HEADER_SIZE) needed
      let created := writeHeader mem newHdr
        { size := Word64.sub (Word64.sub (readSize mem cur) needed) HEADER_SIZE
          used := 0
          magic := MAGIC_FREE
          next := readNext mem cur }
      writeSize (writeNext created cur newHdr) cur needed
    else mem
  writeMagic (writeUsed split cur 1) cur MAGIC_USED

def lastBlock (mem : ByteStore.Store) : Nat → Nat → Except Panic Nat
  | 0, _ => .error .stepBound
  | steps + 1, cur =>
      if readNext mem cur = 0 then .ok cur else lastBlock mem steps (readNext mem cur)

def expandHeap (heap : Heap) (needed : Nat) : Except Panic Heap :=
  let extraBytes := alignUp (Word64.add (Word64.add needed HEADER_SIZE) PAGE_SIZE)
  let extraPages := extraBytes / PAGE_SIZE
  if ¬ Word64.sub (Word64.add heap.heapEnd extraBytes) HEAP_START ≤ HEAP_MAX_SIZE then
    .error .heapMaximumSize
  else do
    let vmm ← mapFreshPages heap.vmm heap.heapEnd extraPages
    let newHdr := heap.heapEnd
    let mem := writeHeader heap.mem newHdr
      { size := Word64.sub (Word64.mul extraPages PAGE_SIZE) HEADER_SIZE
        used := 0
        magic := MAGIC_FREE
        next := 0 }
    let cur ← lastBlock mem LIST_STEPS heap.heapHead
    pure
      { heap with
        vmm := vmm
        mem := writeNext mem cur newHdr
        heapEnd := Word64.add heap.heapEnd (Word64.mul extraPages PAGE_SIZE) }

/-- `kmalloc` with a bound on its calls of itself. -/
def kmallocWithin : Nat → Heap → Nat → Except Panic (Nat × Heap)
  | 0, _, _ => .error .stepBound
  | calls + 1, heap, size =>
      if ¬ heap.heapInited then .error .kmallocBeforeInit
      else if size = 0 then .error .kmallocZero
      else do
        let needed := alignUp size
        match ← findBlock heap.mem needed LIST_STEPS heap.heapHead with
        | some cur =>
            pure (Word64.add cur HEADER_SIZE, { heap with mem := takeBlock heap.mem needed cur })
        | none => do
            let expanded ← expandHeap heap needed
            kmallocWithin calls expanded size

/-- A growth makes room for the request, so a call makes at most one further call.  Only for
the sizes from 2^64 - 47 to 2^64 - 16, which a page cannot hold, does the code grow on until
it panics; the bound ends the call there. -/
def kmalloc (heap : Heap) (size : Nat) : Except Panic (Nat × Heap) :=
  kmallocWithin 2 heap size

/-! ### Release -/

def coalesce (mem : ByteStore.Store) (cur : Nat) : ByteStore.Store :=
  let next := readNext mem cur
  if next = 0 then mem
  else if readUsed mem next ≠ 0 then mem
  else
    let sized := writeSize mem cur
      (Word64.add (readSize mem cur) (Word64.add HEADER_SIZE (readSize mem next)))
    writeNext sized cur (readNext sized next)

def kfree (heap : Heap) (ptr : Nat) : Except Panic Heap :=
  if ptr = 0 then .ok heap
  else if ¬ heap.heapInited then .error .kfreeBeforeInit
  else
    let hdr := Word64.sub ptr HEADER_SIZE
    if readMagic heap.mem hdr = MAGIC_FREE then .error (.kfreeDoubleFree ptr)
    else if readMagic heap.mem hdr ≠ MAGIC_USED then
      .error (.kfreeInvalidPointer ptr (readMagic heap.mem hdr))
    else
      .ok { heap with
        mem := coalesce (writeMagic (writeUsed heap.mem hdr 0) hdr MAGIC_FREE) hdr }

/-! ### The dump -/

/-- A line of the dump; its number is its place in the list. -/
structure DumpLine where
  addr : Nat
  size : Nat
  used : Bool

def dumpLines (mem : ByteStore.Store) : Nat → Nat → Except Panic (List DumpLine)
  | 0, _ => .error .stepBound
  | steps + 1, cur =>
      if cur = 0 then .ok []
      else do
        let rest ← dumpLines mem steps (readNext mem cur)
        pure ({ addr := cur, size := readSize mem cur, used := readUsed mem cur ≠ 0 } :: rest)

/-- The lines that `kmalloc_dump` prints, by a walk from the head of the list. -/
def kmallocDump (heap : Heap) : Except Panic (List DumpLine) :=
  dumpLines heap.mem LIST_STEPS heap.heapHead

end CustomKernel.Memory
