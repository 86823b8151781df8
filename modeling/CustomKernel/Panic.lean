/-
The panics of the modelled kernel code.

Every assertion, `expect` and `unreachable!` of the modelled functions has one
constructor, with the values its message prints.  The panic handler halts, so a
function that panics has no result.
-/

set_option autoImplicit false

namespace CustomKernel

inductive Panic where
  /-- `init_pmm`: no response to the memory map request. -/
  | memoryMapMissing
  | memoryMapEmpty
  | noRegionForBitmap (bitmapBytes : Nat)
  /-- `free_page`: the three assertions, in source order. -/
  | freePageNotAligned (phys : Nat)
  | freePageBeyondTracked (phys totalPages : Nat)
  | freePageDoubleFree (phys : Nat)
  /-- `next_table_or_create`: no frame for a new page table. -/
  | vmmOutOfMemory
  | mapPageVirtNotAligned (virt : Nat)
  | mapPagePhysNotAligned (phys : Nat)
  | unmapPageVirtNotAligned (virt : Nat)
  /-- `map_fresh_pages`: no frame for a heap page. -/
  | heapOutOfMemory
  | kmallocInitTwice
  | heapStartNotAligned (start : Nat)
  | heapTooSmall
  | kmallocBeforeInit
  | kmallocZero
  | heapCorruption (magic : Nat)
  | heapMaximumSize
  | kfreeBeforeInit
  | kfreeDoubleFree (ptr : Nat)
  | kfreeInvalidPointer (ptr magic : Nat)
  /-- `pit::init` -/
  | pitDivisorOverflow
  /-- `exit`: the `unreachable!` after `schedule`. -/
  | exitReturned
  /-- No panic: a loop of the model ran past its step bound. -/
  | stepBound
  deriving DecidableEq, Repr

/-! ### Sequencing -/

section Sequencing

variable {Found Result : Type} {first : Except Panic Found} {next : Found → Except Panic Result}

theorem ok_bind (found : Found) : (Except.ok found : Except Panic Found) >>= next = next found :=
  rfl

theorem bind_eq_ok {result : Result} :
    first >>= next = .ok result ↔ ∃ found, first = .ok found ∧ next found = .ok result := by
  cases first with
  | error raised => simp [bind, Except.bind]
  | ok found => simp [bind, Except.bind]

theorem bind_eq_error {panic : Panic} :
    first >>= next = .error panic ↔
      first = .error panic ∨ ∃ found, first = .ok found ∧ next found = .error panic := by
  cases first with
  | error raised => simp [bind, Except.bind]
  | ok found => simp [bind, Except.bind]

end Sequencing

end CustomKernel
