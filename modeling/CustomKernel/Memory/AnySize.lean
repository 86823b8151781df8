/-
Runs with sizes of any machine word.

An allocation may ask for any number of bytes; a pointer's payload is what the header
below it records.  Nothing is taken to be mapped at `HEAP_END`, as it is where only the heap
maps pages in its window.  So a growth that asks for no page ends a run: the store of its
header faults.  Short of that the heap stays a list of blocks, and every call edits it at one
place.
-/

import CustomKernel.Memory.Coalescing
import CustomKernel.Memory.SizeWrapping

set_option autoImplicit false

namespace CustomKernel.Memory

/-- A call with any size; live pointers are recorded with the whole payload of their
block, and the owners store into these.  A null pointer is released at once. -/
def wordStep (run : HeapRun) : HeapCall → Option HeapRun
  | .kmalloc size =>
      -- a size that grows by no page does not come back
      if size < 2 ^ 64 ∧ 0 < growthPages (alignUp size) then
        match kmalloc run.heap size with
        | .error _ => none
        | .ok (ptr, heap) =>
            some { heap := heap, live := (ptr, readSize heap.mem (ptr - HEADER_SIZE)) :: run.live }
      else none
  | .kfree ptr => if ptr = 0 then some run else heapStep run (.kfree ptr)
  | .store address value => heapStep run (.store address value)

theorem growthPages_pos {size : Nat} (word : size < 2 ^ 64)
    (outside : ¬(2 ^ 64 - 4143 ≤ size ∧ size ≤ 2 ^ 64 - 48)) : 0 < growthPages (alignUp size) := by
  by_cases low : size ≤ 2 ^ 64 - 4144
  · have rounded := @alignUp_exact size (by omega)
    have exact_ := (@growthPages_exact (alignUp size) (by omega) (by omega)).2
    omega
  · by_cases one : size ≤ 2 ^ 64 - 16
    · have rounded := @alignUp_exact size (by omega)
      rw [@growthPages_one (alignUp size) (by omega) (by omega)]
      decide
    · rw [alignUp_zero (by omega) word]
      decide

/-- Why `wordStep` has no step for the sizes whose growth asks for no page: at the limit of the
heap the call panics, and below it the store of the header faults. -/
theorem Laid.noPage_stops {heap : Heap} {blocks : List Block} {size : Nat}
    (laid : Laid heap blocks) (word : size < 2 ^ 64) (noPage : growthPages (alignUp size) = 0)
    (unmapped : mmuTranslate heap.vmm heap.heapEnd = none) :
    Faults heap size ∨ ∃ panic, kmallocWithin 1 heap size = .error panic ∧ panic ≠ .stepBound := by
  have range : 2 ^ 64 - 4143 ≤ size ∧ size ≤ 2 ^ 64 - 48 := by
    apply Classical.byContradiction
    intro outside
    have pages := growthPages_pos word outside
    omega
  have rounded := @alignUp_exact size (by omega)
  have unfit := @Laid.unfit_large _ _ (alignUp size) laid (by omega)
  cases expanded : expandHeap heap (alignUp size) with
  | error panic => exact Or.inr ⟨panic, laid.growth_panics (by omega) unfit expanded 0⟩
  | ok grown =>
      exact Or.inl ⟨heap, grown, .first heap, laid.findBlock_absent unfit, expanded, noPage,
        unmapped⟩

structure HeapRun.Holds (run : HeapRun) (blocks : List Block) : Prop where
  invariant : run.Invariant blocks
  physical : run.heap.vmm.pmm.totalPages * PAGE_SIZE ≤ 2 ^ 52

/-- The list from which an allocation takes its block: as it was, or with the pages of a
growth appended. -/
def Source (needed : Nat) (blocks source : List Block) : Prop :=
  source = blocks ∨
    source = blocks ++ [{ size := growthPages needed * PAGE_SIZE - HEADER_SIZE, used := false }]

theorem Laid.kmalloc_positive {heap after : Heap} {blocks : List Block} {size ptr : Nat}
    (laid : Laid heap blocks) (allocated : kmalloc heap size = .ok (ptr, after)) : 0 < size := by
  apply Nat.pos_of_ne_zero
  intro zero
  rw [kmalloc, kmallocWithin, if_neg (by simp [laid.inited]), if_pos zero] at allocated
  cases allocated

theorem wordStep_kmalloc {run next : HeapRun} {blocks : List Block} {size : Nat}
    (holds : run.Holds blocks) (stepped : wordStep run (.kmalloc size) = some next) :
    ∃ before block behind ptr granted, Source (alignUp size) blocks (before ++ ([block] ++ behind)) ∧
      block.used = false ∧ alignUp size ≤ block.size ∧
      ptr = blocksEnd HEAP_START before + HEADER_SIZE ∧ 0 < growthPages (alignUp size) ∧
      next.live = (ptr, granted) :: run.live ∧
      next.Holds (before ++ (block.taken (alignUp size) ++ behind)) := by
  have laid := holds.invariant.laid
  simp only [wordStep] at stepped
  split at stepped
  · rename_i grows
    split at stepped
    · cases stepped
    · rename_i ptr after allocated
      cases stepped
      have positive := laid.kmalloc_positive allocated
      have pages := grows.2
      have recorded {before behind rest : List Block} {head : Block}
          (afterLaid : Laid after (before ++ (head :: rest ++ behind)))
          (address : ptr = blocksEnd HEAP_START before + HEADER_SIZE) :
          readSize after.mem (ptr - HEADER_SIZE) = head.size := by
        rw [address, Nat.add_sub_cancel]
        exact afterLaid.payload.1
      rcases laid.kmalloc_granted holds.physical positive pages allocated with
        ⟨before, block, behind, first, address, afterLaid, total⟩ |
          ⟨block, _, blockEq, large, address, afterLaid, total⟩
      · rcases taken_head first.large with ⟨head, rest, taken, used, _, _⟩
        have granted : Granted blocks before behind block size ptr after :=
          { source := Or.inl first.split.symm
            free := first.free
            large := first.large
            ptrEq := address
            laid := afterLaid }
        have whole := afterLaid
        rw [taken] at whole
        refine ⟨before, block, behind, ptr, _, Or.inl first.split.symm, first.free, first.large,
          address, pages, rfl, ?_, by rw [total]; exact holds.physical⟩
        exact holds.invariant.grant granted taken used (Nat.le_of_eq (recorded whole address))
      · rcases taken_head large with ⟨head, rest, taken, used, _, _⟩
        have place : blocksEnd HEAP_START blocks = run.heap.heapEnd := laid.reaches
        rw [← place] at address
        have free : block.used = false := by rw [blockEq]
        have source : blocks ++ ([block] ++ []) =
            blocks ++ [{ size := growthPages (alignUp size) * PAGE_SIZE - HEADER_SIZE,
                         used := false }] := by
          rw [blockEq]
          rfl
        have granted : Granted blocks blocks [] block size ptr after :=
          { source := Or.inr ⟨_, source⟩
            free := free
            large := large
            ptrEq := address
            laid := by rw [List.append_nil]; exact afterLaid }
        have whole : Laid after (blocks ++ (head :: rest ++ [])) := by
          rw [List.append_nil, ← taken]
          exact afterLaid
        refine ⟨blocks, block, [], ptr, _, Or.inr source, free, large, address, pages, rfl, ?_,
          by rw [total]; exact holds.physical⟩
        exact holds.invariant.grant granted taken used (Nat.le_of_eq (recorded whole address))
  · cases stepped

theorem wordStep_kfree {run next : HeapRun} {blocks : List Block} {ptr : Nat}
    (holds : run.Holds blocks) (notNull : ptr ≠ 0)
    (stepped : wordStep run (.kfree ptr) = some next) :
    ∃ before block behind, blocks = before ++ ([block] ++ behind) ∧
      ptr = blocksEnd HEAP_START before + HEADER_SIZE ∧ block.used = true ∧
      next.live = run.live.filter (fun entry => entry.1 ≠ ptr) ∧
      next.Holds (before ++ mergeFree { block with used := false } behind) := by
  simp only [wordStep, if_neg notNull] at stepped
  obtain ⟨before, block, behind, split, address, used, live, kept⟩ :=
    heapStep_kfree holds.invariant stepped
  refine ⟨before, block, behind, split, address, used, live, kept, ?_⟩
  simp only [heapStep] at stepped
  split at stepped
  · split at stepped
    · cases stepped
    · rename_i released freed
      cases stepped
      obtain ⟨mem, rfl⟩ := kfree_memory freed
      exact holds.physical
  · cases stepped

theorem wordStep_store {run next : HeapRun} {blocks : List Block} {address : Nat}
    {value : BitVec 8} (holds : run.Holds blocks)
    (stepped : wordStep run (.store address value) = some next) :
    next = { run with heap :=
      { run.heap with mem := Function.update run.heap.mem address value } } ∧
      next.Holds blocks := by
  simp only [wordStep, heapStep] at stepped
  split at stepped
  · rename_i inside
    cases stepped
    exact ⟨rfl, holds.invariant.store inside, holds.physical⟩
  · cases stepped

end CustomKernel.Memory
