/-
Sizes near the top of the address space.

The sums of `kmalloc` and `expand_heap` are 64-bit words.  A size above 2^64 - 16 is
rounded to zero; from 2^64 - 4143 up to 2^64 - 48 the growth asks for no page at all, and
above that for a single page, over and over.  Below these ranges no sum wraps, except
where the frames of the machine could never suffice.

A growth by no page stores its header at an address that it has not mapped.  That store
page-faults, unless somebody else has mapped a page there.
-/

import CustomKernel.Memory.EnoughPages
import CustomKernel.Memory.FirstFit
import CustomKernel.Memory.LargePages

set_option autoImplicit false

namespace CustomKernel.Memory

def growthPages (needed : Nat) : Nat :=
  alignUp (Word64.add (Word64.add needed HEADER_SIZE) PAGE_SIZE) / PAGE_SIZE

/-! ### The sums -/

theorem alignUp_wraps (n : Nat) : alignUp n = (n + 15) % Word64.modulus / 16 * 16 := by
  have sum : Word64.sub (Word64.add n ALIGN) 1 = (n + 15) % Word64.modulus := by
    unfold Word64.sub Word64.add Word64.modulus ALIGN at *
    omega
  have mask : ALIGN - 1 = 2 ^ 4 - 1 := rfl
  unfold alignUp
  rw [sum, mask, Word64.and_not_low (Nat.mod_lt _ (by decide)) (by decide)]
  rfl

theorem alignUp_zero {size : Nat} (high : 2 ^ 64 - 15 ≤ size) (word : size < 2 ^ 64) :
    alignUp size = 0 := by
  rw [alignUp_wraps]
  unfold Word64.modulus
  omega

theorem alignUp_exact {size : Nat} (below : size < 2 ^ 64 - 15) :
    alignUp size = (size + 15) / 16 * 16 := by
  rw [alignUp_wraps]
  unfold Word64.modulus
  omega

theorem growth_wraps (needed : Nat) :
    alignUp (Word64.add (Word64.add needed HEADER_SIZE) PAGE_SIZE) =
      ((needed + 4120) % Word64.modulus + 15) % Word64.modulus / 16 * 16 := by
  have sum : Word64.add (Word64.add needed HEADER_SIZE) PAGE_SIZE =
      (needed + 4120) % Word64.modulus := by
    unfold Word64.add Word64.modulus HEADER_SIZE PAGE_SIZE at *
    omega
  rw [sum, alignUp_wraps]

theorem growthPages_exact {needed : Nat} (aligned : needed % 16 = 0)
    (below : needed ≤ 2 ^ 64 - 4144) :
    alignUp (Word64.add (Word64.add needed HEADER_SIZE) PAGE_SIZE) = needed + 4128 ∧
      growthPages needed = (needed + 4128) / 4096 := by
  have extra : alignUp (Word64.add (Word64.add needed HEADER_SIZE) PAGE_SIZE) =
      needed + 4128 := by
    rw [growth_wraps]
    unfold Word64.modulus
    omega
  refine ⟨extra, ?_⟩
  unfold growthPages
  rw [extra]
  rfl

theorem growthPages_none {needed : Nat} (above : 2 ^ 64 - 4128 ≤ needed)
    (below : needed ≤ 2 ^ 64 - 48) (aligned : needed % 16 = 0) :
    growthPages needed = 0 ∧
      (alignUp (Word64.add (Word64.add needed HEADER_SIZE) PAGE_SIZE) < 4096) ∧
      (alignUp (Word64.add (Word64.add needed HEADER_SIZE) PAGE_SIZE) = 0 ↔
        needed = 2 ^ 64 - 4128) := by
  have extra := growth_wraps needed
  unfold growthPages PAGE_SIZE
  unfold PAGE_SIZE at extra
  rw [extra]
  unfold Word64.modulus
  omega

theorem growthPages_one {needed : Nat} (above : 2 ^ 64 - 32 ≤ needed)
    (below : needed < 2 ^ 64) : growthPages needed = 1 := by
  have extra := growth_wraps needed
  unfold growthPages PAGE_SIZE
  unfold PAGE_SIZE at extra
  rw [extra]
  unfold Word64.modulus
  omega

/-! ### Growths -/

theorem mapFreshPages_totalPages {vmm after : Vmm} {virt nPages : Nat}
    (mapped : mapFreshPages vmm virt nPages = .ok after) :
    after.pmm.totalPages = vmm.pmm.totalPages := by
  apply @mapFreshPages_induction
    (fun current _ => current.pmm.totalPages = vmm.pmm.totalPages) _ _ _ _ _ rfl mapped
  intro current next i _ before step
  obtain ⟨_, _, _, _, _, only, mappedPage⟩ := mapFreshPage_ok step
  exact ((mapPage_onlyTakes mappedPage).totalPages.trans only.totalPages).trans before

theorem expandHeap_totalPages {heap grown : Heap} {needed : Nat}
    (expanded : expandHeap heap needed = .ok grown) :
    grown.vmm.pmm.totalPages = heap.vmm.pmm.totalPages := by
  obtain ⟨_, _, _, mapped, _⟩ := expandHeap_ok expanded
  exact mapFreshPages_totalPages mapped

theorem kmallocInit_totalPages {before heap : Heap} {start n : Nat}
    (started : kmallocInit before start n = .ok heap) :
    heap.vmm.pmm.totalPages = before.vmm.pmm.totalPages := by
  obtain ⟨_, vmm, mapped, heapEq⟩ := kmallocInit_ok started
  subst heapEq
  exact mapFreshPages_totalPages mapped

theorem Laid.expandHeap_grows {heap grown : Heap} {blocks : List Block} {needed : Nat}
    (laid : Laid heap blocks) (physical : heap.vmm.pmm.totalPages * PAGE_SIZE ≤ 2 ^ 52)
    (positive : 0 < growthPages needed) (expanded : expandHeap heap needed = .ok grown) :
    heap.heapEnd + growthPages needed * PAGE_SIZE ≤ HEAP_START + HEAP_MAX_SIZE ∧
    Laid grown
      (blocks ++ [{ size := growthPages needed * PAGE_SIZE - HEADER_SIZE, used := false }]) := by
  obtain ⟨extra, extraEq, accepted, mapped, _⟩ := expandHeap_ok expanded
  have word : extra < Word64.modulus := by
    rw [← extraEq]
    exact alignUp_lt _
  have pages : extra / PAGE_SIZE = growthPages needed := by
    rw [← extraEq]
    rfl
  have limit := growth_limit physical laid.start_le laid.end_le word accepted mapped
  rw [pages] at limit
  exact ⟨limit, laid.expandHeap_span expanded rfl positive limit⟩

theorem Laid.kmalloc_granted {heap after : Heap} {blocks : List Block} {size ptr : Nat}
    (laid : Laid heap blocks) (physical : heap.vmm.pmm.totalPages * PAGE_SIZE ≤ 2 ^ 52)
    (positive : 0 < size) (pages : 0 < growthPages (alignUp size))
    (allocated : kmalloc heap size = .ok (ptr, after)) :
    (∃ before block behind, FirstFit (alignUp size) blocks before block behind ∧
      ptr = blocksEnd HEAP_START before + HEADER_SIZE ∧
      Laid after (before ++ (block.taken (alignUp size) ++ behind)) ∧
      after.vmm.pmm.totalPages = heap.vmm.pmm.totalPages) ∨
    ∃ block : Block, ¬ SomeFit (alignUp size) blocks ∧
      block = { size := growthPages (alignUp size) * PAGE_SIZE - HEADER_SIZE, used := false } ∧
      alignUp size ≤ block.size ∧ ptr = heap.heapEnd + HEADER_SIZE ∧
      Laid after (blocks ++ block.taken (alignUp size)) ∧
      after.vmm.pmm.totalPages = heap.vmm.pmm.totalPages := by
  by_cases fits : SomeFit (alignUp size) blocks
  · left
    rcases fits.first with ⟨before, block, behind, first⟩
    rcases laid.kmalloc_first positive first with ⟨result, taken, resultLaid, vmm⟩
    rw [kmalloc, taken] at allocated
    cases allocated
    exact ⟨before, block, behind, first, rfl, resultLaid, by rw [vmm]⟩
  · right
    have unfit := unfit_of_not_someFit fits
    rw [kmalloc, laid.kmalloc_grows positive unfit] at allocated
    obtain ⟨grown, expanded, continued⟩ := bind_eq_ok.mp allocated
    have grownLaid := (laid.expandHeap_grows physical pages expanded).2
    have place : blocksEnd HEAP_START blocks = heap.heapEnd := laid.reaches
    by_cases enough :
        alignUp size ≤ growthPages (alignUp size) * PAGE_SIZE - HEADER_SIZE
    · rcases grownLaid.kmalloc_first positive (firstFit_appended unfit enough) with
        ⟨result, taken, resultLaid, vmm⟩
      rw [taken] at continued
      cases continued
      rw [List.append_nil] at resultLaid
      exact ⟨_, fits, rfl, enough, by rw [place], resultLaid,
        by rw [vmm, expandHeap_totalPages expanded]⟩
    · -- the second search fails as well, and the call may not grow again
      have absent : BlockHeap.Unfit (alignUp size) (blocks ++
          [{ size := growthPages (alignUp size) * PAGE_SIZE - HEADER_SIZE, used := false }]) := by
        intro block member
        rcases List.mem_append.mp member with old | new
        · exact unfit block old
        · rw [List.mem_singleton.mp new]
          exact Or.inr (Nat.lt_of_not_le enough)
      rw [grownLaid.kmalloc_grows positive absent] at continued
      obtain ⟨_, _, impossible⟩ := bind_eq_ok.mp continued
      cases impossible

/-! ### What a call may do -/

/-- The header below the pointer records at least `size` bytes, inside the heap. -/
def PayloadFits (heap : Heap) (ptr size : Nat) : Prop :=
  HEAP_START + HEADER_SIZE ≤ ptr ∧ size ≤ readSize heap.mem (ptr - HEADER_SIZE) ∧
    ptr + readSize heap.mem (ptr - HEADER_SIZE) ≤ heap.heapEnd

/-- A growth by no page stores its header at `HEAP_END`, where nothing is mapped: the store
page-faults.  A longer growth stores it in the first page that it has mapped. -/
def HeaderFaults (heap : Heap) (needed : Nat) : Prop :=
  growthPages needed = 0 ∧ mmuTranslate heap.vmm heap.heapEnd = none

def Expands (heap : Heap) (needed : Nat) (grown : Heap) : Prop :=
  expandHeap heap needed = .ok grown ∧ ¬ HeaderFaults heap needed

/-- The heaps in which a call of `kmalloc` searches: the first, and each after a growth. -/
inductive Searches (size : Nat) : Heap → Heap → Prop where
  | first (heap : Heap) : Searches size heap heap
  | grown {heap current next : Heap} (before : Searches size heap current)
      (absent : findBlock current.mem (alignUp size) LIST_STEPS current.heapHead = .ok none)
      (expanded : Expands current (alignUp size) next) : Searches size heap next

/-- A growth of the call page-faults, so the call neither panics nor returns. -/
def Faults (heap : Heap) (size : Nat) : Prop :=
  ∃ current next, Searches size heap current ∧
    findBlock current.mem (alignUp size) LIST_STEPS current.heapHead = .ok none ∧
    expandHeap current (alignUp size) = .ok next ∧ HeaderFaults current (alignUp size)

/-- With calls enough of itself, and where no store of a header faults, `kmalloc` panics or
returns a payload that fits. -/
def Ends (heap : Heap) (size : Nat) : Prop :=
  (∃ calls panic, kmallocWithin calls heap size = .error panic ∧ panic ≠ .stepBound) ∨
    ∃ calls ptr after, kmallocWithin calls heap size = .ok (ptr, after) ∧
      PayloadFits after ptr size

def PanicsOrFits (heap : Heap) (size : Nat) : Prop :=
  ¬ Faults heap size ∧ Ends heap size

/-- No growth of the call installs a block of more bytes than the pages it has mapped. -/
def InstallsMapped (heap : Heap) (size : Nat) : Prop :=
  ∀ current next, Searches size heap current →
    findBlock current.mem (alignUp size) LIST_STEPS current.heapHead = .ok none →
    Expands current (alignUp size) next →
    readSize next.mem current.heapEnd ≤ growthPages (alignUp size) * PAGE_SIZE

/-- The sizes and states for which no wrapped sum does harm. -/
def SizeSafe (heap : Heap) (blocks : List Block) (size : Nat) : Prop :=
  size ≤ 2 ^ 64 - 4144 ∨
  (2 ^ 64 - 4127 ≤ size ∧ size ≤ 2 ^ 64 - 48 ∧ heap.heapEnd = HEAP_START + HEAP_MAX_SIZE) ∨
  (2 ^ 64 - 47 ≤ size ∧ size ≤ 2 ^ 64 - 16) ∨
  (2 ^ 64 - 15 ≤ size ∧ (∀ block, block ∈ blocks → block.used = true) ∧
    (HEAP_START + HEAP_MAX_SIZE < heap.heapEnd + 4128 ∨ FramesShort heap.vmm heap.heapEnd))

theorem not_faults {heap : Heap} {size : Nat} (pages : 0 < growthPages (alignUp size)) :
    ¬ Faults heap size := by
  rintro ⟨_, _, _, _, _, nonePages, _⟩
  omega

theorem panicsOrFits_iff_ends {heap : Heap} {size : Nat}
    (pages : 0 < growthPages (alignUp size)) : PanicsOrFits heap size ↔ Ends heap size :=
  and_iff_right (not_faults pages)

theorem Searches.stopped {size : Nat} {heap current : Heap} {panic : Panic}
    (searches : Searches size heap current)
    (failed : expandHeap heap (alignUp size) = .error panic) : current = heap := by
  induction searches with
  | first => rfl
  | grown _ _ expanded ih =>
      have step := expanded.1
      rw [ih, failed] at step
      cases step

theorem kmallocWithin_succ {calls size : Nat} {heap : Heap} {result : Except Panic (Nat × Heap)}
    (done : kmallocWithin calls heap size = result) (real : result ≠ .error .stepBound) :
    kmallocWithin (calls + 1) heap size = result := by
  induction calls generalizing heap with
  | zero => exact absurd done.symm real
  | succ calls ih =>
      rw [kmallocWithin] at done ⊢
      by_cases inited : ¬ heap.heapInited
      · rw [if_pos inited] at done ⊢
        exact done
      · rw [if_neg inited] at done ⊢
        by_cases zero : size = 0
        · rw [if_pos zero] at done ⊢
          exact done
        · rw [if_neg zero] at done ⊢
          dsimp only at done ⊢
          cases found : findBlock heap.mem (alignUp size) LIST_STEPS heap.heapHead with
          | error panic =>
              rw [found] at done
              have raised : Except.error panic = result := done
              exact raised
          | ok place =>
              rw [found, ok_bind] at done
              rw [ok_bind]
              cases place with
              | some cur => exact done
              | none =>
                  dsimp only at done ⊢
                  cases expanded : expandHeap heap (alignUp size) with
                  | error panic =>
                      rw [expanded] at done
                      have raised : Except.error panic = result := done
                      exact raised
                  | ok grown =>
                      rw [expanded, ok_bind] at done
                      rw [ok_bind]
                      exact ih done

theorem kmallocWithin_mono {calls size : Nat} {heap : Heap} {result : Except Panic (Nat × Heap)}
    (done : kmallocWithin calls heap size = result) (real : result ≠ .error .stepBound)
    (more : Nat) : kmallocWithin (calls + more) heap size = result := by
  induction more with
  | zero => exact done
  | succ more ih => exact kmallocWithin_succ ih real

theorem kmallocWithin_unique {calls others size : Nat} {heap : Heap}
    {left right : Except Panic (Nat × Heap)} (first : kmallocWithin calls heap size = left)
    (second : kmallocWithin others heap size = right) (leftReal : left ≠ .error .stepBound)
    (rightReal : right ≠ .error .stepBound) : left = right := by
  have early : kmallocWithin (calls + others) heap size = left :=
    kmallocWithin_mono first leftReal others
  have late : kmallocWithin (others + calls) heap size = right :=
    kmallocWithin_mono second rightReal calls
  rw [Nat.add_comm, early] at late
  exact late

theorem ends_of_returned {calls size ptr : Nat} {heap after : Heap}
    (returned : kmallocWithin calls heap size = .ok (ptr, after)) :
    Ends heap size ↔ PayloadFits after ptr size := by
  constructor
  · intro outcome
    rcases outcome with ⟨others, panic, failed, real⟩ | ⟨others, pointer, result, again, fits⟩
    · have same := kmallocWithin_unique returned failed (by simp) (by simpa using real)
      cases same
    · have same := kmallocWithin_unique returned again (by simp) (by simp)
      cases same
      exact fits
  · intro fits
    exact Or.inr ⟨calls, ptr, after, returned, fits⟩

theorem Laid.expandHeap_records {heap grown : Heap} {blocks : List Block} {needed : Nat}
    (laid : Laid heap blocks) (expanded : expandHeap heap needed = .ok grown) :
    readSize grown.mem heap.heapEnd =
      Word64.sub (Word64.mul (growthPages needed) PAGE_SIZE) HEADER_SIZE := by
  have chain := (laid.expandHeap_chain expanded rfl).2.2.2
  have place : blocksEnd HEAP_START blocks = heap.heapEnd := laid.reaches
  have header := (chain_append.mp chain).2.1
  rw [place] at header
  exact header.size

section

variable {heap : Heap} {blocks : List Block} {size : Nat}

theorem Laid.searches (laid : Laid heap blocks)
    (physical : heap.vmm.pmm.totalPages * PAGE_SIZE ≤ 2 ^ 52)
    (pages : 0 < growthPages (alignUp size)) {current : Heap}
    (searches : Searches size heap current) :
    ∃ list, Laid current list ∧ current.vmm.pmm.totalPages * PAGE_SIZE ≤ 2 ^ 52 := by
  induction searches with
  | first => exact ⟨blocks, laid, physical⟩
  | grown before _ expanded ih =>
      rcases ih with ⟨list, currentLaid, currentPhysical⟩
      refine ⟨_, (currentLaid.expandHeap_grows currentPhysical pages expanded.1).2, ?_⟩
      rw [expandHeap_totalPages expanded.1]
      exact currentPhysical

theorem Laid.installsMapped (laid : Laid heap blocks)
    (physical : heap.vmm.pmm.totalPages * PAGE_SIZE ≤ 2 ^ 52)
    (pages : 0 < growthPages (alignUp size)) : InstallsMapped heap size := by
  rintro current next searches _ ⟨expanded, _⟩
  rcases laid.searches physical pages searches with ⟨list, currentLaid, currentPhysical⟩
  have limit := (currentLaid.expandHeap_grows currentPhysical pages expanded).1
  have window : HEAP_START + HEAP_MAX_SIZE < Word64.modulus := by decide
  rw [currentLaid.expandHeap_records expanded, Word64.mul_eq (by omega),
    Word64.sub_eq (by unfold HEADER_SIZE PAGE_SIZE; omega) (by omega)]
  omega

/-- Where nothing is mapped at `HEAP_END`, a growth by no page installs nothing. -/
theorem Laid.installsMapped_unmapped (laid : Laid heap blocks)
    (physical : heap.vmm.pmm.totalPages * PAGE_SIZE ≤ 2 ^ 52)
    (unmapped : mmuTranslate heap.vmm heap.heapEnd = none) : InstallsMapped heap size := by
  rcases Nat.eq_zero_or_pos (growthPages (alignUp size)) with none_ | pages
  · have faults : HeaderFaults heap (alignUp size) := ⟨none_, unmapped⟩
    have only {current : Heap} (searches : Searches size heap current) : current = heap := by
      induction searches with
      | first => rfl
      | grown _ _ expanded ih =>
          rw [ih] at expanded
          exact absurd faults expanded.2
    intro current next searches _ expanded
    rw [only searches] at expanded
    exact absurd faults expanded.2
  · exact laid.installsMapped physical pages

theorem Laid.payload {before behind : List Block} {block : Block}
    (laid : Laid heap (before ++ (block :: behind))) :
    readSize heap.mem (blocksEnd HEAP_START before) = block.size ∧
      HEAP_START ≤ blocksEnd HEAP_START before ∧
      blocksEnd HEAP_START before + HEADER_SIZE + block.size ≤ heap.heapEnd := by
  have header := (chain_append.mp laid.chain).2.1
  have placed : (blocksEnd HEAP_START before, block) ∈
      placedBlocks HEAP_START (before ++ (block :: behind)) := by
    simp [Tiling.placed]
  have bounds := Tiling.placed_bounds placed
  have stop : Tiling.stop Block.width HEAP_START (before ++ (block :: behind)) = heap.heapEnd :=
    laid.reaches
  refine ⟨header.size, bounds.1, ?_⟩
  rw [stop] at bounds
  simp only [Block.width] at bounds
  omega

theorem payloadFits_of_taken {after : Heap} {before behind : List Block} {block : Block}
    (large : alignUp size ≤ block.size)
    (laid : Laid after (before ++ (block.taken (alignUp size) ++ behind)))
    (enough : size ≤ alignUp size) :
    PayloadFits after (blocksEnd HEAP_START before + HEADER_SIZE) size := by
  rcases taken_head large with ⟨head, rest, takenEq, _, least, _⟩
  rw [takenEq, List.cons_append] at laid
  obtain ⟨recorded, lower, upper⟩ := laid.payload
  unfold PayloadFits
  rw [Nat.add_sub_cancel, recorded]
  omega

/-! ### The ranges of sizes -/

theorem Laid.growth_panics (laid : Laid heap blocks) (positive : 0 < size)
    (unfit : BlockHeap.Unfit (alignUp size) blocks) {panic : Panic}
    (failed : expandHeap heap (alignUp size) = .error panic) (calls : Nat) :
    kmallocWithin (calls + 1) heap size = .error panic ∧ panic ≠ .stepBound := by
  refine ⟨?_, laid.expandHeap_real failed⟩
  rw [laid.kmalloc_grows positive unfit, failed]
  rfl

theorem Laid.unfit_large {needed : Nat} (laid : Laid heap blocks) (large : 2 ^ 63 ≤ needed) :
    BlockHeap.Unfit needed blocks := by
  intro block member
  right
  have bound := laid.size_le member
  have largest : HEAP_MAX_SIZE = 67108864 := rfl
  omega

theorem Laid.low_sizes (laid : Laid heap blocks)
    (physical : heap.vmm.pmm.totalPages * PAGE_SIZE ≤ 2 ^ 52) (positive : 0 < size)
    (low : size ≤ 2 ^ 64 - 4144) : PanicsOrFits heap size ∧ InstallsMapped heap size := by
  have rounded := @alignUp_exact size (by omega)
  have exact_ := (@growthPages_exact (alignUp size) (by omega) (by omega)).2
  have pages : 0 < growthPages (alignUp size) := by omega
  rw [panicsOrFits_iff_ends pages]
  refine ⟨?_, laid.installsMapped physical pages⟩
  by_cases fits : SomeFit (alignUp size) blocks
  · right
    rcases fits.first with ⟨before, block, behind, first⟩
    rcases laid.kmalloc_first positive first with ⟨after, taken, afterLaid, _⟩
    exact ⟨1, _, after, taken 0, payloadFits_of_taken first.large afterLaid (by omega)⟩
  · have unfit := unfit_of_not_someFit fits
    cases expanded : expandHeap heap (alignUp size) with
    | error panic =>
        exact Or.inl ⟨1, panic, laid.growth_panics positive unfit expanded 0⟩
    | ok grown =>
        right
        have grownLaid := (laid.expandHeap_grows physical pages expanded).2
        have enough : alignUp size ≤ growthPages (alignUp size) * PAGE_SIZE - HEADER_SIZE := by
          rw [exact_]
          unfold PAGE_SIZE HEADER_SIZE
          omega
        rcases grownLaid.kmalloc_first positive (firstFit_appended unfit enough) with
          ⟨after, taken, afterLaid, _⟩
        refine ⟨2, _, after, ?_, payloadFits_of_taken enough afterLaid (by omega)⟩
        rw [laid.kmalloc_grows positive unfit, expanded, ok_bind]
        exact taken 0

/-- A growth by no page is stopped by the limit only in a full window. -/
theorem Laid.zero_pages (laid : Laid heap blocks) (above : 2 ^ 64 - 4143 ≤ size)
    (below : size ≤ 2 ^ 64 - 48) :
    ((∃ panic, expandHeap heap (alignUp size) = .error panic) ↔
      2 ^ 64 - 4127 ≤ size ∧ heap.heapEnd = HEAP_START + HEAP_MAX_SIZE) ∧
    ∀ grown, expandHeap heap (alignUp size) = .ok grown →
      growthPages (alignUp size) * PAGE_SIZE < readSize grown.mem heap.heapEnd := by
  have rounded := @alignUp_exact size (by omega)
  obtain ⟨pages, small, zero⟩ := @growthPages_none (alignUp size) (by omega) (by omega) (by omega)
  have start := laid.start_le
  have stop := laid.end_le
  have first : HEAP_START = 0xffff800100000000 := rfl
  have largest : HEAP_MAX_SIZE = 67108864 := rfl
  have page : PAGE_SIZE = 4096 := rfl
  have words : Word64.modulus = 2 ^ 64 := rfl
  generalize extraEq :
    alignUp (Word64.add (Word64.add (alignUp size) HEADER_SIZE) PAGE_SIZE) = extra at small zero
  have multiple : extra % 16 = 0 := by
    rw [← extraEq, growth_wraps]
    omega
  have sum : Word64.sub (Word64.add heap.heapEnd extra) HEAP_START =
      heap.heapEnd + extra - HEAP_START := Word64.sub_add_eq (by omega) (by omega)
  have none_ : extra / PAGE_SIZE = 0 := Nat.div_eq_of_lt small
  have onPage : heap.heapEnd % 4096 = 0 := laid.aligned
  constructor
  · constructor
    · intro failed
      apply Classical.byContradiction
      intro room
      have accepted : Word64.sub (Word64.add heap.heapEnd extra) HEAP_START ≤ HEAP_MAX_SIZE := by
        rw [sum]
        omega
      have mapped : mapFreshPages heap.vmm heap.heapEnd (extra / PAGE_SIZE) = .ok heap.vmm := by
        rw [none_]
        rfl
      rcases failed with ⟨panic, failed⟩
      rcases laid.expandHeap_mapped extraEq accepted mapped with ⟨grown, expanded⟩
      rw [expanded] at failed
      cases failed
    · intro full
      refine ⟨.heapMaximumSize, ?_⟩
      have refused : ¬ Word64.sub (Word64.add heap.heapEnd extra) HEAP_START ≤ HEAP_MAX_SIZE := by
        rw [sum]
        omega
      simp only [expandHeap, extraEq, if_pos refused]
  · intro grown expanded
    rw [laid.expandHeap_records expanded, pages]
    decide

/-- A request that one page can never serve grows the heap until a growth panics.  The
induction is on the pages left below the limit. -/
theorem endless_growth (room : Nat) {heap : Heap} {blocks : List Block} {size : Nat}
    (laid : Laid heap blocks) (physical : heap.vmm.pmm.totalPages * PAGE_SIZE ≤ 2 ^ 52)
    (positive : 0 < size) (large : 2 ^ 63 ≤ alignUp size)
    (pages : 0 < growthPages (alignUp size))
    (left : HEAP_START + HEAP_MAX_SIZE ≤ heap.heapEnd + room * PAGE_SIZE) :
    ∃ calls panic, kmallocWithin calls heap size = .error panic ∧ panic ≠ .stepBound := by
  induction room generalizing heap blocks with
  | zero =>
      have unfit := laid.unfit_large large
      cases expanded : expandHeap heap (alignUp size) with
      | error panic => exact ⟨1, panic, laid.growth_panics positive unfit expanded 0⟩
      | ok grown =>
          have limit := (laid.expandHeap_grows physical pages expanded).1
          unfold PAGE_SIZE at limit left
          omega
  | succ room ih =>
      have unfit := laid.unfit_large large
      cases expanded : expandHeap heap (alignUp size) with
      | error panic => exact ⟨1, panic, laid.growth_panics positive unfit expanded 0⟩
      | ok grown =>
          obtain ⟨limit, grownLaid⟩ := laid.expandHeap_grows physical pages expanded
          have grownPhysical : grown.vmm.pmm.totalPages * PAGE_SIZE ≤ 2 ^ 52 := by
            rw [expandHeap_totalPages expanded]
            exact physical
          have oldEnd : blocksEnd HEAP_START blocks = heap.heapEnd := laid.reaches
          have newEnd := grownLaid.reaches
          simp only [blocksEnd, Tiling.stop_append, Tiling.stop_cons, Tiling.stop_nil,
            Block.width] at oldEnd newEnd
          rw [oldEnd] at newEnd
          have further : HEAP_START + HEAP_MAX_SIZE ≤ grown.heapEnd + room * PAGE_SIZE := by
            unfold PAGE_SIZE HEADER_SIZE at *
            omega
          rcases ih grownLaid grownPhysical further with ⟨calls, panic, failed, real⟩
          refine ⟨calls + 1, panic, ?_, real⟩
          rw [laid.kmalloc_grows positive unfit, expanded, ok_bind]
          exact failed

theorem not_payloadFits_of_taken {after : Heap} {before behind : List Block} {block : Block}
    (rounded : alignUp size = 0) (above : 2 ^ 64 - 15 ≤ size) (bound : block.size ≤ HEAP_MAX_SIZE)
    (laid : Laid after (before ++ (block.taken (alignUp size) ++ behind))) :
    ¬ PayloadFits after (blocksEnd HEAP_START before + HEADER_SIZE) size := by
  intro fits
  rcases taken_head (by omega : alignUp size ≤ block.size) with
    ⟨head, rest, takenEq, _, _, least⟩
  rw [takenEq, List.cons_append] at laid
  have recorded := laid.payload.1
  have enough := fits.2.1
  rw [Nat.add_sub_cancel, recorded] at enough
  have largest : HEAP_MAX_SIZE = 67108864 := rfl
  omega

theorem Laid.zero_sizes (laid : Laid heap blocks)
    (physical : heap.vmm.pmm.totalPages * PAGE_SIZE ≤ 2 ^ 52) (above : 2 ^ 64 - 15 ≤ size)
    (word : size < 2 ^ 64) :
    Ends heap size ↔ (∀ block, block ∈ blocks → block.used = true) ∧
      ∃ panic, expandHeap heap (alignUp size) = .error panic := by
  have zero := alignUp_zero above word
  have positive : 0 < size := by omega
  have pages : growthPages (alignUp size) = 1 := by
    rw [zero]
    decide
  by_cases fits : SomeFit (alignUp size) blocks
  · rcases fits.first with ⟨before, block, behind, first⟩
    rcases laid.kmalloc_first positive first with ⟨after, taken, afterLaid, _⟩
    have member : block ∈ blocks := by
      rw [first.split]
      simp
    rw [ends_of_returned (taken 0)]
    constructor
    · intro fine
      exact absurd fine (not_payloadFits_of_taken zero above (laid.size_le member) afterLaid)
    · intro full
      have used := full.1 block member
      rw [first.free] at used
      cases used
  · have unfit := unfit_of_not_someFit fits
    have allUsed : ∀ block, block ∈ blocks → block.used = true := by
      intro block member
      rcases unfit block member with used | small
      · exact used
      · omega
    cases expanded : expandHeap heap (alignUp size) with
    | error panic =>
        constructor
        · intro _
          exact ⟨allUsed, panic, rfl⟩
        · intro _
          exact Or.inl ⟨1, panic, laid.growth_panics positive unfit expanded 0⟩
    | ok grown =>
        have grownLaid := (laid.expandHeap_grows physical (by omega) expanded).2
        have enough : alignUp size ≤ growthPages (alignUp size) * PAGE_SIZE - HEADER_SIZE := by
          omega
        rcases grownLaid.kmalloc_first positive (firstFit_appended unfit enough) with
          ⟨after, taken, afterLaid, _⟩
        have bound : growthPages (alignUp size) * PAGE_SIZE - HEADER_SIZE ≤ HEAP_MAX_SIZE := by
          rw [pages]
          decide
        have result : kmallocWithin 2 heap size =
            .ok (blocksEnd HEAP_START blocks + HEADER_SIZE, after) := by
          rw [laid.kmalloc_grows positive unfit, expanded, ok_bind]
          exact taken 0
        rw [ends_of_returned result]
        constructor
        · intro fine
          exact absurd fine (not_payloadFits_of_taken zero above bound afterLaid)
        · intro full
          rcases full.2 with ⟨panic, impossible⟩
          cases impossible

theorem window_entries {vmm : Vmm} {virt : Nat} (inside : InWindow virt) :
    pml4Entry vmm virt = pml4Entry vmm HEAP_START ∧
      pdptEntry vmm virt = pdptEntry vmm HEAP_START := by
  obtain ⟨lower, upper⟩ := inside
  have largest : HEAP_MAX_SIZE = 2 ^ 26 := rfl
  have pml4 : pml4Idx virt = pml4Idx HEAP_START := by
    unfold pml4Idx
    congr 1
    rw [Nat.shiftRight_eq_div_pow, Nat.shiftRight_eq_div_pow]
    unfold HEAP_START at *
    omega
  have pdpt : pdptIdx virt = pdptIdx HEAP_START := by
    unfold pdptIdx
    congr 1
    rw [Nat.shiftRight_eq_div_pow, Nat.shiftRight_eq_div_pow]
    unfold HEAP_START at *
    omega
  have same : pml4Entry vmm virt = pml4Entry vmm HEAP_START := by
    unfold pml4Entry
    rw [pml4]
  refine ⟨same, ?_⟩
  unfold pdptEntry
  rw [same, pdpt]

theorem Laid.zero_growth (laid : Laid heap blocks)
    (mapped : mmuTranslate heap.vmm HEAP_START ≠ none) :
    (∃ panic, expandHeap heap 0 = .error panic) ↔
      HEAP_START + HEAP_MAX_SIZE < heap.heapEnd + 4128 ∨ FramesShort heap.vmm heap.heapEnd := by
  have start := laid.start_le
  have stop := laid.end_le
  have first : HEAP_START = 0xffff800100000000 := rfl
  have largest : HEAP_MAX_SIZE = 67108864 := rfl
  have words : Word64.modulus = 2 ^ 64 := rfl
  have extra : alignUp (Word64.add (Word64.add 0 HEADER_SIZE) PAGE_SIZE) = 4128 := by decide
  have sum : Word64.sub (Word64.add heap.heapEnd 4128) HEAP_START =
      heap.heapEnd + 4128 - HEAP_START := Word64.sub_add_eq (by omega) (by omega)
  by_cases accepted : Word64.sub (Word64.add heap.heapEnd 4128) HEAP_START ≤ HEAP_MAX_SIZE
  · rw [sum] at accepted
    have inside : InWindow heap.heapEnd := ⟨start, by omega⟩
    have tables := mmuTranslate_present mapped
    rw [← (window_entries inside).1, ← (window_entries inside).2] at tables
    have frames := mapFreshPages_one_error_iff laid.aligned (by omega) tables.1 tables.2
    have below : ¬ HEAP_START + HEAP_MAX_SIZE < heap.heapEnd + 4128 := by omega
    rw [or_iff_right below, ← frames]
    cases pages : mapFreshPages heap.vmm heap.heapEnd 1 with
    | error panic =>
        constructor
        · intro _
          exact ⟨panic, rfl⟩
        · intro _
          refine ⟨panic, ?_⟩
          have single : 4128 / PAGE_SIZE = 1 := rfl
          simp only [expandHeap, extra, sum, single, pages, if_neg (not_not.mpr accepted)]
          rfl
    | ok vmm =>
        rcases laid.expandHeap_mapped extra (by rw [sum]; exact accepted) pages with
          ⟨grown, expanded⟩
        rw [expanded]
        constructor
        · rintro ⟨panic, impossible⟩
          cases impossible
        · rintro ⟨panic, impossible⟩
          cases impossible
  · constructor
    · intro _
      left
      rw [sum] at accepted
      omega
    · intro _
      exact ⟨.heapMaximumSize, by simp only [expandHeap, extra, if_pos accepted]⟩

/-- The growth asks for no page: the store of its header faults, or the block is larger than
no page, unless the limit stops it. -/
theorem Laid.noPage_sizes (laid : Laid heap blocks) (above : 2 ^ 64 - 4143 ≤ size)
    (below : size ≤ 2 ^ 64 - 48) :
    PanicsOrFits heap size ∧ InstallsMapped heap size ↔
      2 ^ 64 - 4127 ≤ size ∧ heap.heapEnd = HEAP_START + HEAP_MAX_SIZE := by
  obtain ⟨stopped, installed⟩ := laid.zero_pages above below
  have rounded := @alignUp_exact size (by omega)
  have unfit := @Laid.unfit_large _ _ (alignUp size) laid (by omega)
  have absent := laid.findBlock_absent unfit
  constructor
  · intro both
    cases expanded : expandHeap heap (alignUp size) with
    | error panic => exact stopped.mp ⟨panic, expanded⟩
    | ok grown =>
        have stored : ¬ HeaderFaults heap (alignUp size) := fun faults =>
          both.1.1 ⟨heap, grown, .first heap, absent, expanded, faults⟩
        have recorded := both.2 heap grown (.first heap) absent ⟨expanded, stored⟩
        have larger := installed grown expanded
        omega
  · intro full
    rcases stopped.mpr full with ⟨panic, failed⟩
    have none_ {current next : Heap} (searches : Searches size heap current)
        (expanded : expandHeap current (alignUp size) = .ok next) : False := by
      rw [searches.stopped failed, failed] at expanded
      cases expanded
    refine ⟨⟨?_, Or.inl ⟨1, panic, laid.growth_panics (by omega) unfit failed 0⟩⟩, ?_⟩
    · rintro ⟨_, _, searches, _, expanded, _⟩
      exact none_ searches expanded
    · intro _ _ searches _ expanded
      exact (none_ searches expanded.1).elim

/-- One page at a time, until a growth panics. -/
theorem Laid.onePage_sizes (laid : Laid heap blocks)
    (physical : heap.vmm.pmm.totalPages * PAGE_SIZE ≤ 2 ^ 52) (above : 2 ^ 64 - 47 ≤ size)
    (below : size ≤ 2 ^ 64 - 16) : PanicsOrFits heap size ∧ InstallsMapped heap size := by
  have rounded := @alignUp_exact size (by omega)
  have pages : 0 < growthPages (alignUp size) := by
    rw [growthPages_one (by omega) (alignUp_lt size)]
    decide
  have start := laid.start_le
  have whole : HEAP_MAX_SIZE = 16384 * PAGE_SIZE := rfl
  have room : HEAP_START + HEAP_MAX_SIZE ≤ heap.heapEnd + 16384 * PAGE_SIZE := by
    rw [← whole]
    omega
  rw [panicsOrFits_iff_ends pages]
  exact ⟨Or.inl (endless_growth 16384 laid physical (by omega) (by omega) pages room),
    laid.installsMapped physical pages⟩

/-- The size is rounded to zero. -/
theorem Laid.top_sizes (laid : Laid heap blocks)
    (mapped : mmuTranslate heap.vmm HEAP_START ≠ none)
    (physical : heap.vmm.pmm.totalPages * PAGE_SIZE ≤ 2 ^ 52) (above : 2 ^ 64 - 15 ≤ size)
    (word : size < 2 ^ 64) :
    PanicsOrFits heap size ∧ InstallsMapped heap size ↔
      (∀ block, block ∈ blocks → block.used = true) ∧
        (HEAP_START + HEAP_MAX_SIZE < heap.heapEnd + 4128 ∨
          FramesShort heap.vmm heap.heapEnd) := by
  have zero := alignUp_zero above word
  have pages : 0 < growthPages (alignUp size) := by
    rw [zero]
    decide
  have outcome := laid.zero_sizes physical above word
  rw [zero, laid.zero_growth mapped] at outcome
  rw [panicsOrFits_iff_ends pages, and_iff_left (laid.installsMapped physical pages)]
  exact outcome

/-- For every size that is a machine word, `kmalloc` panics or returns a payload that
fits, and no growth installs more than it has mapped, just if the size is safe.  The
first page of the window must be mapped for the search to read a header at all. -/
theorem kmalloc_size_wraps_iff (laid : Laid heap blocks)
    (mapped : mmuTranslate heap.vmm HEAP_START ≠ none)
    (physical : heap.vmm.pmm.totalPages * PAGE_SIZE ≤ 2 ^ 52) (positive : 0 < size)
    (word : size < 2 ^ 64) :
    PanicsOrFits heap size ∧ InstallsMapped heap size ↔ SizeSafe heap blocks size := by
  unfold SizeSafe
  by_cases low : size ≤ 2 ^ 64 - 4144
  · exact iff_of_true (laid.low_sizes physical positive low) (Or.inl low)
  · by_cases noPage : size ≤ 2 ^ 64 - 48
    · rw [laid.noPage_sizes (by omega) noPage]
      omega
    · by_cases onePage : size ≤ 2 ^ 64 - 16
      · have middle : 2 ^ 64 - 47 ≤ size ∧ size ≤ 2 ^ 64 - 16 := by omega
        exact iff_of_true (laid.onePage_sizes physical middle.1 middle.2)
          (Or.inr (Or.inr (Or.inl middle)))
      · have above : 2 ^ 64 - 15 ≤ size := by omega
        rw [laid.top_sizes mapped physical above word]
        constructor
        · intro full
          exact Or.inr (Or.inr (Or.inr ⟨above, full⟩))
        · rintro (below | below | below | ⟨_, full⟩)
          · omega
          · omega
          · omega
          · exact full

end

theorem freshHeap_size_safe :
    ∃ heap, kmallocInit freshHeap HEAP_START 4096 = .ok heap ∧
      PanicsOrFits heap (2 ^ 64 - 4144) ∧ InstallsMapped heap (2 ^ 64 - 4144) := by
  obtain ⟨heap, phys, started, translated⟩ :=
    @freshHeap_reaches _ (fun heap => mmuTranslate heap.vmm HEAP_START) (by decide +kernel)
  have laid : Laid heap [{ size := 4072, used := false }] :=
    kmallocInit_first (by decide) started
  have mapped : mmuTranslate heap.vmm HEAP_START ≠ none := by
    rw [translated]
    exact Option.some_ne_none phys
  have physical : heap.vmm.pmm.totalPages * PAGE_SIZE ≤ 2 ^ 52 := by
    rw [kmallocInit_totalPages started]
    decide
  exact ⟨heap, started, (kmalloc_size_wraps_iff laid mapped physical (by decide)
    (by decide)).mpr (Or.inl (Nat.le_refl _))⟩

/-- The largest size is rounded to zero and gets a block of no bytes. -/
theorem freshHeap_sizes_wrap :
    ∃ heap, kmallocInit freshHeap HEAP_START 4096 = .ok heap ∧
      ¬ PanicsOrFits heap (2 ^ 64 - 1) := by
  rcases freshHeap_runs with ⟨heap, _, started, _⟩
  have laid : Laid heap [{ size := 4072, used := false }] :=
    kmallocInit_first (by decide) started
  have physical : heap.vmm.pmm.totalPages * PAGE_SIZE ≤ 2 ^ 52 := by
    rw [kmallocInit_totalPages started]
    decide
  refine ⟨heap, started, ?_⟩
  rintro ⟨_, outcome⟩
  have used := ((laid.zero_sizes physical (by decide) (by decide)).mp outcome).1 _
    (List.mem_cons_self ..)
  cases used

end CustomKernel.Memory
