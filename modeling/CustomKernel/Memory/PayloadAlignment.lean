/-
Which payloads are aligned.

A header is 24 bytes and every payload size is a multiple of 8, so a block moves the next
header by 8 modulo 16 if its size is a multiple of 16, and not at all otherwise.  The
first header is page aligned and its payload is 8 modulo 16: a payload is a multiple of
16 just if an odd number of blocks before it have a size that is.
-/

import CustomKernel.Memory.AnySize

set_option autoImplicit false

namespace CustomKernel.Memory

def EightfoldSizes (blocks : List Block) : Prop :=
  ∀ block, block ∈ blocks → block.size % 8 = 0

theorem eightfold_append {before behind : List Block} :
    EightfoldSizes (before ++ behind) ↔ EightfoldSizes before ∧ EightfoldSizes behind :=
  List.forall_mem_append

theorem eightfold_cons {block : Block} {rest : List Block} :
    EightfoldSizes (block :: rest) ↔ block.size % 8 = 0 ∧ EightfoldSizes rest :=
  List.forall_mem_cons

theorem eightfold_nil : EightfoldSizes [] :=
  fun _ member => absurd member List.not_mem_nil

/-- The number of blocks whose size is a multiple of the alignment. -/
def alignedSizes (blocks : List Block) : Nat :=
  blocks.countP (fun block => block.size % ALIGN = 0)

theorem alignedSizes_cons (block : Block) (rest : List Block) :
    alignedSizes (block :: rest) =
      alignedSizes rest + if block.size % ALIGN = 0 then 1 else 0 := by
  simp [alignedSizes, List.countP_cons]

/-! ### The edits of the list -/

theorem alignUp_multiple (n : Nat) : alignUp n % 16 = 0 := by
  rw [alignUp_wraps]
  omega

theorem EightfoldSizes.taken {block : Block} (eightfold : block.size % 8 = 0) (size : Nat) :
    EightfoldSizes (block.taken (alignUp size)) := by
  have multiple := alignUp_multiple size
  unfold Block.taken
  split
  · rw [eightfold_cons, eightfold_cons]
    unfold HEADER_SIZE
    dsimp only
    exact ⟨by omega, by omega, eightfold_nil⟩
  · rw [eightfold_cons]
    exact ⟨eightfold, eightfold_nil⟩

theorem EightfoldSizes.mergeFree {block : Block} {behind : List Block}
    (eightfold : EightfoldSizes (block :: behind)) : EightfoldSizes (mergeFree block behind) := by
  cases behind with
  | nil => exact eightfold
  | cons next rest =>
      cases usage : next.used with
      | true =>
          simp only [Memory.mergeFree, usage, if_true]
          exact eightfold
      | false =>
          simp only [Memory.mergeFree, usage, Bool.false_eq_true, if_false]
          rw [eightfold_cons, eightfold_cons] at eightfold
          rw [eightfold_cons]
          refine ⟨?_, eightfold.2.2⟩
          have first := eightfold.1
          have second := eightfold.2.1
          simp only [Block.width, HEADER_SIZE]
          omega

theorem growth_eightfold (pages : Nat) : (pages * PAGE_SIZE - HEADER_SIZE) % 8 = 0 := by
  unfold PAGE_SIZE HEADER_SIZE
  omega

theorem Source.eightfold {needed : Nat} {blocks source : List Block}
    (from_ : Source needed blocks source) (eightfold : EightfoldSizes blocks) :
    EightfoldSizes source := by
  rcases from_ with same | grown
  · rw [same]
    exact eightfold
  · rw [grown, eightfold_append, eightfold_cons]
    exact ⟨eightfold, growth_eightfold _, eightfold_nil⟩

/-- A heap run whose sizes are multiples of eight. -/
def HeapRun.Eightfold (run : HeapRun) : Prop :=
  ∃ blocks, run.Holds blocks ∧ EightfoldSizes blocks

theorem wordStep_eightfold (run : HeapRun) (call : HeapCall) (next : HeapRun)
    (eightfold : run.Eightfold) (stepped : wordStep run call = some next) : next.Eightfold := by
  rcases eightfold with ⟨blocks, holds, sizes⟩
  cases call with
  | kmalloc size =>
      obtain ⟨before, block, behind, _, _, source, _, _, _, _, _, kept⟩ :=
        wordStep_kmalloc holds stepped
      have spread := source.eightfold sizes
      rw [eightfold_append, List.singleton_append, eightfold_cons] at spread
      refine ⟨_, kept, ?_⟩
      rw [eightfold_append, eightfold_append]
      exact ⟨spread.1, EightfoldSizes.taken spread.2.1 size, spread.2.2⟩
  | kfree ptr =>
      by_cases null : ptr = 0
      · simp only [wordStep, if_pos null, Option.some.injEq] at stepped
        subst next
        exact ⟨blocks, holds, sizes⟩
      · obtain ⟨before, block, behind, split, _, _, _, kept⟩ := wordStep_kfree holds null stepped
        rw [split, eightfold_append, List.singleton_append, eightfold_cons] at sizes
        refine ⟨_, kept, ?_⟩
        rw [eightfold_append]
        refine ⟨sizes.1, EightfoldSizes.mergeFree ?_⟩
        rw [eightfold_cons]
        exact sizes.2
  | store address value =>
      have kept := (wordStep_store holds stepped).2
      exact ⟨blocks, kept, sizes⟩

theorem kmallocInit_eightfold {before heap : Heap} {n : Nat}
    (physical : before.vmm.pmm.totalPages * PAGE_SIZE ≤ 2 ^ 52)
    (started : kmallocInit before HEAP_START n = .ok heap)
    (rounded : (n + 4095) / PAGE_SIZE * PAGE_SIZE ≤ HEAP_MAX_SIZE) :
    HeapRun.Holds { heap := heap, live := [] }
        [{ size := Word64.mul (pagesFor n) PAGE_SIZE - HEADER_SIZE, used := false }] ∧
      EightfoldSizes
        [{ size := Word64.mul (pagesFor n) PAGE_SIZE - HEADER_SIZE, used := false }] := by
  have laid := kmallocInit_first rounded started
  have multiple := (initialTotal (kmallocInit_ok started).1 rounded).2.2
  have total := kmallocInit_totalPages started
  constructor
  · exact ⟨⟨laid, by simp, List.Pairwise.nil⟩, by rw [total]; exact physical⟩
  · rw [eightfold_cons]
    refine ⟨?_, eightfold_nil⟩
    dsimp only
    unfold PAGE_SIZE at multiple ⊢
    unfold HEADER_SIZE
    omega

/-! ### Addresses -/

theorem blocksEnd_mod {addr : Nat} {blocks : List Block} (sizes : EightfoldSizes blocks) :
    blocksEnd addr blocks % 16 = (addr + 8 * alignedSizes blocks) % 16 := by
  induction blocks generalizing addr with
  | nil => rfl
  | cons block rest ih =>
      rw [eightfold_cons] at sizes
      have later := @ih (addr + block.width) sizes.2
      have first := sizes.1
      rw [blocksEnd, Tiling.stop_cons, later, alignedSizes_cons]
      unfold Block.width HEADER_SIZE ALIGN
      by_cases multiple : block.size % 16 = 0
      · rw [if_pos multiple]
        omega
      · rw [if_neg multiple]
        omega

theorem payload_aligned_iff {blocks : List Block} (sizes : EightfoldSizes blocks) :
    (blocksEnd HEAP_START blocks + HEADER_SIZE) % ALIGN = 0 ↔ alignedSizes blocks % 2 = 1 := by
  have place := @blocksEnd_mod HEAP_START blocks sizes
  have first : HEAP_START % 16 = 0 := by decide
  unfold HEADER_SIZE ALIGN
  omega

theorem Laid.kmalloc_zero_pages {heap after : Heap} {blocks : List Block} {size ptr : Nat}
    (laid : Laid heap blocks) (above : 2 ^ 64 - 4143 ≤ size) (below : size ≤ 2 ^ 64 - 48)
    (allocated : kmalloc heap size = .ok (ptr, after)) :
    ptr = heap.heapEnd + HEADER_SIZE ∧ ¬ SomeFit (alignUp size) blocks := by
  have rounded := @alignUp_exact size (by omega)
  have pages := (@growthPages_none (alignUp size) (by omega) (by omega) (by omega)).1
  have unfit := laid.unfit_large (by omega : 2 ^ 63 ≤ alignUp size)
  have positive : 0 < size := by omega
  constructor
  · rw [kmalloc, laid.kmalloc_grows positive unfit] at allocated
    obtain ⟨grown, expanded, continued⟩ := bind_eq_ok.mp allocated
    obtain ⟨inited, head, _, chain⟩ := laid.expandHeap_chain expanded pages
    have large : alignUp size ≤ Word64.sub (Word64.mul 0 PAGE_SIZE) HEADER_SIZE := by
      have recorded : Word64.sub (Word64.mul 0 PAGE_SIZE) HEADER_SIZE = 2 ^ 64 - 24 := by decide
      omega
    have found := findBlock_found chain (by decide) laid.length_lt rfl large unfit
    have place : blocksEnd HEAP_START blocks = heap.heapEnd := laid.reaches
    have fits := laid.end_le
    rw [place, ← head] at found
    rw [kmallocWithin, if_neg (by simp [inited]), if_neg (Nat.ne_of_gt positive)] at continued
    dsimp only at continued
    rw [found, ok_bind] at continued
    have address : ptr = Word64.add heap.heapEnd HEADER_SIZE :=
      (congrArg Prod.fst (Except.ok.inj continued)).symm
    rw [address]
    apply Word64.add_eq
    have window : HEAP_START + HEAP_MAX_SIZE + HEADER_SIZE < Word64.modulus := by decide
    omega
  · intro fits
    rcases fits with ⟨block, member, free, large⟩
    rcases unfit block member with used | small
    · rw [free] at used
      cases used
    · omega

/-- In every state reached, whatever the sizes asked for, a pointer is aligned just if it
is served by a block that is there, with an odd number of aligned sizes before it. -/
theorem payload_alignment_iff {before heap : Heap} {n : Nat} {calls : List HeapCall}
    {final : HeapRun} (physical : before.vmm.pmm.totalPages * PAGE_SIZE ≤ 2 ^ 52)
    (started : kmallocInit before HEAP_START n = .ok heap)
    (rounded : (n + 4095) / PAGE_SIZE * PAGE_SIZE ≤ HEAP_MAX_SIZE)
    (reached : LabelledRun.exec wordStep { heap := heap, live := [] } calls = some final) :
    ∃ blocks, Laid final.heap blocks ∧
      ∀ size ptr after, 0 < size → size < 2 ^ 64 →
        kmalloc final.heap size = .ok (ptr, after) →
        (ptr % ALIGN = 0 ↔ ∃ early block late,
          FirstFit (alignUp size) blocks early block late ∧ alignedSizes early % 2 = 1) := by
  have initial : HeapRun.Eightfold { heap := heap, live := [] } :=
    ⟨_, kmallocInit_eightfold physical started rounded⟩
  rcases LabelledRun.exec_invariant wordStep_eightfold initial reached with
    ⟨blocks, holds, sizes⟩
  have laid := holds.invariant.laid
  refine ⟨blocks, laid, ?_⟩
  intro size ptr after positive word allocated
  have behindWindow (address : ptr = final.heap.heapEnd + HEADER_SIZE) : ptr % ALIGN ≠ 0 := by
    have aligned := laid.aligned
    rw [address]
    unfold PAGE_SIZE at aligned
    unfold HEADER_SIZE ALIGN
    omega
  by_cases none_ : 2 ^ 64 - 4143 ≤ size ∧ size ≤ 2 ^ 64 - 48
  · obtain ⟨address, absent⟩ := laid.kmalloc_zero_pages none_.1 none_.2 allocated
    constructor
    · intro aligned
      exact absurd aligned (behindWindow address)
    · intro served
      rcases served with ⟨early, block, late, first, _⟩
      exact absurd ⟨block, by rw [first.split]; simp, first.free, first.large⟩ absent
  · rcases laid.kmalloc_granted holds.physical positive (growthPages_pos word none_) allocated with
      ⟨early, block, late, first, address, _, _⟩ | ⟨block, absent, _, _, address, _, _⟩
    · have early8 : EightfoldSizes early := by
        rw [first.split, eightfold_append] at sizes
        exact sizes.1
      rw [address, payload_aligned_iff early8]
      constructor
      · intro odd
        exact ⟨early, block, late, first, odd⟩
      · intro served
        rcases served with ⟨other, found, rest, otherFirst, odd⟩
        rw [first.unique otherFirst]
        exact odd
    · constructor
      · intro aligned
        exact absurd aligned (behindWindow address)
      · intro served
        rcases served with ⟨early, found, late, first, _⟩
        exact absurd ⟨found, by rw [first.split]; simp, first.free, first.large⟩ absent

/-- After a block of 16 bytes the next payload is aligned. -/
theorem freshHeap_second_aligned :
    ∃ heap final ptr after, kmallocInit freshHeap HEAP_START 4096 = .ok heap ∧
      LabelledRun.exec wordStep { heap := heap, live := [] } [.kmalloc 1] = some final ∧
      kmalloc final.heap 1 = .ok (ptr, after) ∧
      ∃ blocks, Laid final.heap blocks ∧ (ptr % ALIGN = 0 ↔ ∃ early block late,
        FirstFit (alignUp 1) blocks early block late ∧ alignedSizes early % 2 = 1) := by
  obtain ⟨heap, last, started, continued⟩ := @freshHeap_reaches _ (fun heap =>
    (LabelledRun.exec wordStep { heap := heap, live := [] } [.kmalloc 1]).bind (fun final =>
      (kmalloc final.heap 1).toOption)) (by decide +kernel)
  obtain ⟨final, reached, allocated⟩ := Option.bind_eq_some_iff.mp continued
  cases result : kmalloc final.heap 1 with
  | error panic =>
      rw [result] at allocated
      cases allocated
  | ok granted =>
      obtain ⟨blocks, laid, aligned⟩ :=
        @payload_alignment_iff freshHeap heap 4096 [.kmalloc 1] final (by decide) started
          (by decide) reached
      exact ⟨heap, final, granted.1, granted.2, started, reached, result, blocks, laid,
        aligned 1 granted.1 granted.2 (by decide) (by decide) result⟩

/-- The first payload of a fresh heap is 24 bytes past a page boundary. -/
theorem freshHeap_first_misaligned :
    ∃ heap ptr after, kmallocInit freshHeap HEAP_START 4096 = .ok heap ∧
      kmalloc heap 1 = .ok (ptr, after) ∧ ptr = HEAP_START + 24 ∧ ptr % ALIGN ≠ 0 := by
  rcases freshHeap_runs with ⟨heap, _, started, _⟩
  have laid : Laid heap [{ size := 4072, used := false }] :=
    kmallocInit_first (by decide) started
  have first : FirstFit (alignUp 1) [{ size := 4072, used := false }] []
      { size := 4072, used := false } [] :=
    ⟨rfl, rfl, by decide, fun block member => absurd member List.not_mem_nil⟩
  rcases laid.kmalloc_first (by decide : 0 < 1) first with ⟨after, taken, _⟩
  exact ⟨heap, _, after, started, taken 1, rfl, by decide⟩

end CustomKernel.Memory
