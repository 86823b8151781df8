/-
The physical page allocator.

`initPmm` reads the boot loader's memory map, places a bitmap with one bit for
each page in the first usable region that can hold it, marks every page used and
then clears the pages it may hand out.  `allocPage` takes the lowest clear page;
`freePage` clears a page after three checks.  The counters wrap at 2^64 as
`usize` does.
-/

import CustomKernel.Panic
import CustomKernel.Foundation.Bitmap
import CustomKernel.Foundation.Word64

set_option autoImplicit false

namespace CustomKernel.Memory

def PAGE_SIZE : Nat := 4096

/-- The boot protocol's number for usable memory. -/
def MEMMAP_USABLE : Nat := 0

/-- One entry of the memory map; its fields are 64-bit words. -/
structure MemmapEntry where
  base : Nat
  length : Nat
  type_ : Nat
  base_lt : base < Word64.modulus := by decide
  length_lt : length < Word64.modulus := by decide

/-- The allocator's statics.  The bitmap is the memory at `BITMAP_PTR`, byte by
byte, so a write past `BITMAP_LEN` would be visible here too. -/
structure Pmm where
  bitmap : Bitmap.Bytes
  bitmapPtr : Nat
  bitmapLen : Nat
  totalPages : Nat
  freeCount : Nat
  usablePage : Nat

def setUsed (pmm : Pmm) (page : Nat) : Pmm :=
  { pmm with bitmap := Bitmap.setBit pmm.bitmap page }

def setFree (pmm : Pmm) (page : Nat) : Pmm :=
  { pmm with bitmap := Bitmap.clearBit pmm.bitmap page }

def isUsed (pmm : Pmm) (page : Nat) : Bool :=
  Bitmap.bit pmm.bitmap page

/-! ### Boot -/

/-- The end address of an entry, as the code computes it. -/
def MemmapEntry.stop (entry : MemmapEntry) : Nat :=
  Word64.add entry.base entry.length

def highestAddr (entries : List MemmapEntry) : Nat :=
  entries.foldl (fun highest entry => if highest < entry.stop then entry.stop else highest) 0

/-- `(bytes + PAGE_SIZE - 1) / PAGE_SIZE` on words. -/
def pagesFor (bytes : Nat) : Nat :=
  Word64.sub (Word64.add bytes PAGE_SIZE) 1 / PAGE_SIZE

theorem pagesFor_eq {bytes : Nat} (small : bytes ≤ 2 ^ 63) :
    pagesFor bytes = (bytes + 4095) / PAGE_SIZE := by
  have rounded : Word64.sub (Word64.add bytes PAGE_SIZE) 1 = bytes + 4095 := by
    unfold PAGE_SIZE
    exact Word64.sub_add_eq (by omega) (by unfold Word64.modulus; omega)
  unfold pagesFor
  rw [rounded]

def totalPagesOf (entries : List MemmapEntry) : Nat :=
  pagesFor (highestAddr entries)

def bitmapBytesOf (entries : List MemmapEntry) : Nat :=
  Word64.add (totalPagesOf entries) 7 / 8

def bitmapPagesOf (entries : List MemmapEntry) : Nat :=
  pagesFor (bitmapBytesOf entries)

/-- The search for a usable region that holds the bitmap; zero if none does. -/
def findBitmap (bitmapBytes : Nat) : List MemmapEntry → Nat
  | [] => 0
  | entry :: rest =>
      if entry.type_ ≠ MEMMAP_USABLE then findBitmap bitmapBytes rest
      else if bitmapBytes ≤ entry.length then
        let aligned :=
          Word64.sub (Word64.add entry.base PAGE_SIZE) 1 &&& Word64.not (PAGE_SIZE - 1)
        if Word64.add aligned bitmapBytes ≤ entry.stop then aligned
        else findBitmap bitmapBytes rest
      else findBitmap bitmapBytes rest

def bitmapPhysOf (entries : List MemmapEntry) : Nat :=
  findBitmap (bitmapBytesOf entries) entries

/-- The body of the inner boot loop: release one page unless a test excludes it. -/
def releasePage (bitmapPhys bitmapEndPhys : Nat) (pmm : Pmm) (page : Nat) : Pmm :=
  let phys := Word64.mul page PAGE_SIZE
  if phys = 0 then pmm
  else if phys < 0x100000 then pmm
  else if bitmapPhys ≤ phys ∧ phys < bitmapEndPhys then pmm
  else if page < pmm.totalPages then
    { setFree pmm page with
      freeCount := Word64.add pmm.freeCount 1
      usablePage := Word64.add pmm.usablePage 1 }
  else pmm

/-- The pages the inner boot loop visits for one region. -/
def regionPages (entry : MemmapEntry) : List Nat :=
  let firstPage := Word64.sub (Word64.add entry.base PAGE_SIZE) 1 / PAGE_SIZE
  let lastPage := entry.stop / PAGE_SIZE
  List.range' firstPage (lastPage - firstPage)

/-- The body of the outer boot loop. -/
def releaseRegion (bitmapPhys bitmapEndPhys : Nat) (pmm : Pmm) (entry : MemmapEntry) : Pmm :=
  if entry.type_ ≠ MEMMAP_USABLE then pmm
  else (regionPages entry).foldl (releasePage bitmapPhys bitmapEndPhys) pmm

/-- The state after `write_bytes(BITMAP_PTR, 0xff, bitmap_bytes)`.  The counters
are zero as the statics start out; `memory` is what the bitmap's memory held. -/
def allUsed (entries : List MemmapEntry) (hhdm : Nat) (memory : Bitmap.Bytes) : Pmm :=
  { bitmap := fun byte => if byte < bitmapBytesOf entries then 0xff#8 else memory byte
    bitmapPtr := Word64.add (bitmapPhysOf entries) hhdm
    bitmapLen := bitmapBytesOf entries
    totalPages := totalPagesOf entries
    freeCount := 0
    usablePage := 0 }

def initPmm (response : Option (List MemmapEntry)) (hhdm : Nat) (memory : Bitmap.Bytes) :
    Except Panic Pmm :=
  match response with
  | none => .error .memoryMapMissing
  | some entries =>
      if highestAddr entries = 0 then .error .memoryMapEmpty
      else if bitmapPhysOf entries = 0 then
        .error (.noRegionForBitmap (bitmapBytesOf entries))
      else
        let bitmapEndPhys :=
          Word64.add (bitmapPhysOf entries) (Word64.mul (bitmapPagesOf entries) PAGE_SIZE)
        .ok (entries.foldl (releaseRegion (bitmapPhysOf entries) bitmapEndPhys)
          (allUsed entries hhdm memory))

/-! ### Allocation -/

/-- The scan skips full bytes and stops at the first page past `TOTAL_PAGES`. -/
def allocPage (pmm : Pmm) : Option Nat × Pmm :=
  match Bitmap.firstClear pmm.bitmap pmm.bitmapLen 0 with
  | none => (none, pmm)
  | some page =>
      if pmm.totalPages ≤ page then (none, pmm)
      else (some (Word64.mul page PAGE_SIZE),
        { setUsed pmm page with freeCount := Word64.sub pmm.freeCount 1 })

def freePage (pmm : Pmm) (phys : Nat) : Except Panic Pmm :=
  if phys % PAGE_SIZE ≠ 0 then .error (.freePageNotAligned phys)
  else
    let page := phys / PAGE_SIZE
    if ¬ page < pmm.totalPages then .error (.freePageBeyondTracked phys pmm.totalPages)
    else if ¬ isUsed pmm page then .error (.freePageDoubleFree phys)
    else .ok { setFree pmm page with freeCount := Word64.add pmm.freeCount 1 }

/-! ### Reports -/

def getFreePageCount (pmm : Pmm) : Nat := pmm.freeCount

def getUsablePageCount (pmm : Pmm) : Nat := pmm.usablePage

def getTotalPageCount (pmm : Pmm) : Nat := pmm.totalPages

/-- The used-page figure of the shell's `meminfo`. -/
def meminfoUsed (pmm : Pmm) : Nat :=
  Word64.sub (getTotalPageCount pmm) (getFreePageCount pmm)

end CustomKernel.Memory
