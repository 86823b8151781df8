/-
Where an allocation takes its block.

The search stops at the free block of the lowest address that is large enough.  When no
block fits, the heap grows once: the growth panics, or the block it appends is where the
second search stops.  The bound on the calls of `kmalloc` plays no part in any result.
-/

import CustomKernel.Memory.BlockHeap

set_option autoImplicit false

namespace CustomKernel.Memory

structure FirstFit (needed : Nat) (blocks before : List Block) (block : Block)
    (behind : List Block) : Prop where
  split : blocks = before ++ ([block] ++ behind)
  free : block.used = false
  large : needed ≤ block.size
  unfit : BlockHeap.Unfit needed before

def SomeFit (needed : Nat) (blocks : List Block) : Prop :=
  ∃ block, block ∈ blocks ∧ block.used = false ∧ needed ≤ block.size

theorem unfit_of_not_someFit {needed : Nat} {blocks : List Block}
    (absent : ¬ SomeFit needed blocks) : BlockHeap.Unfit needed blocks := by
  intro block member
  cases usage : block.used with
  | true => exact Or.inl rfl
  | false =>
      right
      apply Nat.lt_of_not_le
      intro large
      exact absent ⟨block, member, usage, large⟩

theorem SomeFit.first {needed : Nat} {blocks : List Block} (fits : SomeFit needed blocks) :
    ∃ before block behind, FirstFit needed blocks before block behind := by
  rcases first_fit needed blocks with unfit | ⟨before, block, behind, split, free, large, first⟩
  · rcases fits with ⟨block, member, free, large⟩
    rcases unfit block member with used | small
    · rw [free] at used
      cases used
    · omega
  · exact ⟨before, block, behind, split, free, large, first⟩

theorem FirstFit.unique {needed : Nat} {blocks before behind other rest : List Block}
    {block found : Block} (first : FirstFit needed blocks before block behind)
    (second : FirstFit needed blocks other found rest) : before = other := by
  have same := first.split.symm.trans second.split
  have firstUnfit := first.unfit
  have secondUnfit := second.unfit
  have fits {list : List Block} {candidate : Block} (unfit : BlockHeap.Unfit needed list)
      (member : candidate ∈ list) (free : candidate.used = false)
      (large : needed ≤ candidate.size) : False := by
    rcases unfit candidate member with used | small
    · rw [free] at used
      cases used
    · omega
  rcases List.append_eq_append_iff.mp same with ⟨gap, otherEq, tail⟩ | ⟨gap, beforeEq, tail⟩
  · cases gap with
    | nil => exact (by simpa using otherEq.symm)
    | cons head more =>
        have here : block = head := (List.cons.inj tail).1
        have member : block ∈ other := by
          rw [otherEq, here]
          simp
        exact (fits secondUnfit member first.free first.large).elim
  · cases gap with
    | nil => exact (by simpa using beforeEq)
    | cons head more =>
        have here : found = head := (List.cons.inj tail).1
        have member : found ∈ before := by
          rw [beforeEq, here]
          simp
        exact (fits firstUnfit member second.free second.large).elim

theorem Laid.size_le {heap : Heap} {blocks : List Block} {block : Block} (laid : Laid heap blocks)
    (member : block ∈ blocks) : block.size ≤ HEAP_MAX_SIZE := by
  obtain ⟨before, after, split⟩ := List.append_of_mem member
  have placed : (blocksEnd HEAP_START before, block) ∈ placedBlocks HEAP_START blocks := by
    rw [split]
    simp [Tiling.placed]
  have bounds := Tiling.placed_bounds placed
  have reaches := laid.reaches
  have stop := laid.end_le
  simp only [blocksEnd, Block.width] at bounds reaches
  omega

/-! ### Running out of frames -/

/-- The panics of a growth for which there are not enough frames. -/
def Panic.OutOfFrames (panic : Panic) : Prop :=
  panic = .heapOutOfMemory ∨ panic = .vmmOutOfMemory

theorem nextTableOrCreate_exhausted {vmm : Vmm} {table idx : Nat} {panic : Panic}
    (failed : nextTableOrCreate vmm table idx = .error panic) : panic = .vmmOutOfMemory := by
  simp only [nextTableOrCreate] at failed
  split at failed
  · cases failed
  · split at failed
    · cases failed
      rfl
    · cases failed

theorem mapPage_exhausted {vmm : Vmm} {virt phys : Nat} {flags : BitVec 64} {panic : Panic}
    (virtAligned : virt % PAGE_SIZE = 0) (physAligned : phys % PAGE_SIZE = 0)
    (failed : mapPage vmm virt phys flags = .error panic) : panic = .vmmOutOfMemory := by
  unfold mapPage at failed
  rw [if_neg (not_not.mpr virtAligned), if_neg (not_not.mpr physAligned)] at failed
  rcases bind_eq_error.mp failed with raised | ⟨_, _, failed⟩
  · exact nextTableOrCreate_exhausted raised
  · rcases bind_eq_error.mp failed with raised | ⟨_, _, failed⟩
    · exact nextTableOrCreate_exhausted raised
    · rcases bind_eq_error.mp failed with raised | ⟨_, _, failed⟩
      · exact nextTableOrCreate_exhausted raised
      · cases failed

theorem mapFreshPage_exhausted {vmm : Vmm} {virt i : Nat} {panic : Panic}
    (aligned : virt % PAGE_SIZE = 0) (failed : mapFreshPage virt vmm i = .error panic) :
    Panic.OutOfFrames panic := by
  have virtAligned : Word64.add virt (Word64.mul i PAGE_SIZE) % PAGE_SIZE = 0 := by
    unfold Word64.add Word64.mul Word64.modulus PAGE_SIZE at *
    omega
  unfold mapFreshPage at failed
  split at failed
  · cases failed
    exact Or.inl rfl
  · rename_i phys pmm allocated
    rcases allocPage_some allocated with ⟨page, address, _⟩
    have physAligned : phys % PAGE_SIZE = 0 := by
      rw [address]
      unfold Word64.mul Word64.modulus PAGE_SIZE
      omega
    exact Or.inr (mapPage_exhausted virtAligned physAligned failed)

theorem mapFreshPages_exhausted {vmm : Vmm} {virt nPages : Nat} {panic : Panic}
    (aligned : virt % PAGE_SIZE = 0) (failed : mapFreshPages vmm virt nPages = .error panic) :
    Panic.OutOfFrames panic := by
  obtain ⟨current, i, raised⟩ := mapFreshPages_raises failed
  exact mapFreshPage_exhausted aligned raised

theorem Laid.expandHeap_fails {heap : Heap} {blocks : List Block} {needed : Nat} {panic : Panic}
    (laid : Laid heap blocks) (failed : expandHeap heap needed = .error panic) :
    panic = .heapMaximumSize ∨ Panic.OutOfFrames panic := by
  rcases laid.expandHeap_raised failed with limit | ⟨pages, raised⟩
  · exact Or.inl limit
  · exact Or.inr (mapFreshPages_exhausted laid.aligned raised)

theorem Laid.expandHeap_real {heap : Heap} {blocks : List Block} {needed : Nat} {panic : Panic}
    (laid : Laid heap blocks) (failed : expandHeap heap needed = .error panic) :
    panic ≠ .stepBound := by
  rintro rfl
  rcases laid.expandHeap_fails failed with limit | frames | tables
  · cases limit
  · cases frames
  · cases tables

/-! ### The two outcomes of a search -/

section

variable {heap : Heap} {blocks before behind : List Block} {block : Block} {size : Nat}

theorem Laid.findBlock_first {needed : Nat} (laid : Laid heap blocks)
    (first : FirstFit needed blocks before block behind) :
    findBlock heap.mem needed LIST_STEPS heap.heapHead = .ok (some (blocksEnd HEAP_START before)) := by
  have steps := laid.length_lt
  have split := first.split
  subst split
  simp only [List.length_append, List.length_cons, List.length_nil] at steps
  have inside : before.length < LIST_STEPS := by omega
  rw [laid.head]
  exact findBlock_found laid.chain (by decide) inside first.free first.large first.unfit

theorem Laid.kmalloc_first (laid : Laid heap blocks) (positive : 0 < size)
    (first : FirstFit (alignUp size) blocks before block behind) :
    ∃ after, (∀ calls, kmallocWithin (calls + 1) heap size =
        .ok (blocksEnd HEAP_START before + HEADER_SIZE, after)) ∧
      Laid after (before ++ (block.taken (alignUp size) ++ behind)) ∧ after.vmm = heap.vmm := by
  have found := laid.findBlock_first first
  have split := first.split
  subst split
  have here := fun calls => @kmallocWithin_found _ _ _ _ _ calls laid positive first.large found
  exact ⟨_, fun calls => (here calls).1, (here 0).2, rfl⟩

theorem Laid.findBlock_absent {needed : Nat} (laid : Laid heap blocks)
    (unfit : BlockHeap.Unfit needed blocks) :
    findBlock heap.mem needed LIST_STEPS heap.heapHead = .ok none := by
  have absent := findBlock_none laid.chain (by decide) laid.length_lt unfit
  rw [laid.linkTo_head] at absent
  exact absent

theorem Laid.kmalloc_grows (laid : Laid heap blocks) (positive : 0 < size)
    (unfit : BlockHeap.Unfit (alignUp size) blocks) (calls : Nat) :
    kmallocWithin (calls + 1) heap size =
      expandHeap heap (alignUp size) >>= fun expanded => kmallocWithin calls expanded size :=
  kmallocWithin_none laid.inited positive (laid.findBlock_absent unfit)

end

theorem firstFit_appended {needed added : Nat} {blocks : List Block}
    (unfit : BlockHeap.Unfit needed blocks) (enough : needed ≤ added) :
    FirstFit needed (blocks ++ [{ size := added, used := false }]) blocks
      { size := added, used := false } [] where
  split := by simp
  free := rfl
  large := enough
  unfit := unfit

theorem kmalloc_settled {heap : Heap} {size : Nat} {result : Except Panic (Nat × Heap)}
    (settled : ∀ calls, kmallocWithin (calls + 2) heap size = result)
    (real : result ≠ .error .stepBound) :
    kmalloc heap size ≠ .error .stepBound ∧
      ∀ calls, 2 ≤ calls → kmallocWithin calls heap size = kmalloc heap size := by
  have here : kmalloc heap size = result := settled 0
  rw [here]
  refine ⟨real, fun calls enough => ?_⟩
  have split : calls = calls - 2 + 2 := by omega
  rw [split]
  exact settled _

/-- `kmalloc` takes the lowest free block that is large enough, and edits the list there
only; if there is none it grows the heap once, and then the search succeeds at once or
the growth has panicked.  So two calls always suffice. -/
theorem kmalloc_is_first_fit {heap : Heap} {blocks : List Block} {size : Nat}
    (laid : Laid heap blocks) (positive : 0 < size) (small : size < 2 ^ 63) :
    (SomeFit (alignUp size) blocks →
      ∃ before block behind after, FirstFit (alignUp size) blocks before block behind ∧
        (∀ calls, kmallocWithin (calls + 1) heap size =
          .ok (blocksEnd HEAP_START before + HEADER_SIZE, after)) ∧
        Laid after (before ++ (block.taken (alignUp size) ++ behind))) ∧
    (¬ SomeFit (alignUp size) blocks →
      (∃ panic, (panic = .heapMaximumSize ∨ Panic.OutOfFrames panic) ∧
        expandHeap heap (alignUp size) = .error panic ∧
        ∀ calls, kmallocWithin (calls + 1) heap size = .error panic) ∨
      ∃ added grown after, expandHeap heap (alignUp size) = .ok grown ∧
        alignUp size ≤ added ∧ Laid grown (blocks ++ [{ size := added, used := false }]) ∧
        (∀ calls, kmallocWithin (calls + 1) grown size =
          .ok (heap.heapEnd + HEADER_SIZE, after)) ∧
        (∀ calls, kmallocWithin (calls + 2) heap size =
          .ok (heap.heapEnd + HEADER_SIZE, after)) ∧
        Laid after
          (blocks ++ Block.taken (alignUp size) { size := added, used := false })) ∧
    kmalloc heap size ≠ .error .stepBound ∧
    ∀ calls, 2 ≤ calls → kmallocWithin calls heap size = kmalloc heap size := by
  have words : Word64.modulus = 2 ^ 64 := rfl
  have rounded := le_alignUp (by unfold ALIGN; omega : size + ALIGN < Word64.modulus)
  by_cases fits : SomeFit (alignUp size) blocks
  · rcases fits.first with ⟨before, block, behind, first⟩
    rcases laid.kmalloc_first positive first with ⟨after, taken, afterLaid, _⟩
    constructor
    · intro _
      exact ⟨before, block, behind, after, first, taken, afterLaid⟩
    · constructor
      · intro absent
        exact absurd fits absent
      · exact kmalloc_settled (fun calls => taken (calls + 1)) (by simp)
  · have unfit := unfit_of_not_someFit fits
    have grows := laid.kmalloc_grows positive unfit
    constructor
    · intro some_
      exact absurd some_ fits
    · cases expanded : expandHeap heap (alignUp size) with
      | error panic =>
          have result (calls : Nat) : kmallocWithin (calls + 1) heap size = .error panic := by
            rw [grows, expanded]
            rfl
          constructor
          · intro _
            exact Or.inl ⟨panic, laid.expandHeap_fails expanded, rfl, result⟩
          · exact kmalloc_settled (fun calls => result (calls + 1))
              (by simpa using laid.expandHeap_real expanded)
      | ok grown =>
          rcases expandHeap_laid laid (by omega) expanded with ⟨added, enough, grownLaid⟩
          rcases grownLaid.kmalloc_first positive (firstFit_appended unfit enough) with
            ⟨after, taken, afterLaid, _⟩
          have place : blocksEnd HEAP_START blocks = heap.heapEnd := laid.reaches
          rw [place] at taken
          rw [List.append_nil] at afterLaid
          have result (calls : Nat) : kmallocWithin (calls + 2) heap size =
              .ok (heap.heapEnd + HEADER_SIZE, after) := by
            rw [grows, expanded, ok_bind]
            exact taken calls
          constructor
          · intro _
            exact Or.inr ⟨added, grown, after, rfl, enough, grownLaid, taken, result, afterLaid⟩
          · exact kmalloc_settled result (by simp)

/-- A page that begins with a free block of 112 bytes and a used one. -/
def freshHeapBlocks : List Block :=
  [{ size := 112, used := false }, { size := 208, used := true }, { size := 3704, used := false }]

theorem freshHeapBlocks_laid :
    ∃ heap once twice freed, kmallocInit freshHeap HEAP_START 4096 = .ok heap ∧
      kmalloc heap 100 = .ok (0xffff800100000018, once) ∧
      kmalloc once 200 = .ok (0xffff8001000000a0, twice) ∧
      kfree twice 0xffff800100000018 = .ok freed ∧ Laid freed freshHeapBlocks := by
  rcases freshHeap_runs with ⟨heap, _, started, _⟩
  have laid : Laid heap [{ size := 4072, used := false }] :=
    kmallocInit_first (by decide) started
  have first : FirstFit (alignUp 100) [{ size := 4072, used := false }] []
      { size := 4072, used := false } [] :=
    { split := rfl, free := rfl, large := by decide, unfit := fun _ absent => by cases absent }
  rcases laid.kmalloc_first (by decide) first with ⟨once, taken, onceLaid, _⟩
  have second : FirstFit (alignUp 200)
      [{ size := 112, used := true }, { size := 3936, used := false }]
      [{ size := 112, used := true }] { size := 3936, used := false } [] :=
    { split := rfl
      free := rfl
      large := by decide
      unfit := fun block member => Or.inl (by rw [List.mem_singleton.mp member]) }
  have cut : [] ++ (Block.taken (alignUp 100) { size := 4072, used := false } ++ []) =
      [{ size := 112, used := true }, { size := 3936, used := false }] := rfl
  rw [cut] at onceLaid
  rcases onceLaid.kmalloc_first (by decide) second with ⟨twice, takenToo, twiceLaid, _⟩
  have rest : [{ size := 112, used := true }] ++
      (Block.taken (alignUp 200) { size := 3936, used := false } ++ []) =
      [] ++ ([{ size := 112, used := true }] ++
        [{ size := 208, used := true }, { size := 3704, used := false }]) := rfl
  rw [rest] at twiceLaid
  rcases kfree_used twiceLaid rfl with ⟨freed, released, freedLaid⟩
  exact ⟨heap, once, twice, freed, started, taken 1, takenToo 1, released, freedLaid⟩

/-- The small block and the used one are skipped. -/
theorem freshHeap_first_fit :
    ∃ freed after, Laid freed freshHeapBlocks ∧
      (∀ calls, kmallocWithin (calls + 1) freed 500 = .ok (0xffff800100000188, after)) ∧
      Laid after [{ size := 112, used := false }, { size := 208, used := true },
        { size := 512, used := true }, { size := 3168, used := false }] := by
  rcases freshHeapBlocks_laid with ⟨_, _, _, freed, _, _, _, _, laid⟩
  rcases (kmalloc_is_first_fit laid (by decide : 0 < 500) (by decide)).1
    ⟨{ size := 3704, used := false }, by simp [freshHeapBlocks], rfl, by decide⟩ with
    ⟨before, block, behind, after, first, taken, afterLaid⟩
  have split := first.split
  rcases before with _ | ⟨small, _ | ⟨used, _ | ⟨more, others⟩⟩⟩
  · cases split
    exact absurd first.large (by decide)
  · cases split
    cases first.free
  · cases split
    exact ⟨freed, after, laid, taken, afterLaid⟩
  · simp [freshHeapBlocks] at split

end CustomKernel.Memory
