/-
The invariant of the kernel heap.

In every reachable state the chain of headers tiles the window from its start to
`HEAP_END`.  Each operation edits the block list at one place, so the blocks of
the live pointers stay where they are.  A run interleaves allocations, releases
of live pointers and stores of the owners into their payloads.
-/

import CustomKernel.Foundation.LabelledRun
import CustomKernel.Memory.HeapBlocks
import CustomKernel.Memory.PageMapping

set_option autoImplicit false

namespace CustomKernel.Memory

/-- The heap's memory and statics hold the block list. -/
structure Laid (heap : Heap) (blocks : List Block) : Prop where
  inited : heap.heapInited = true
  head : heap.heapHead = HEAP_START
  nonempty : blocks ≠ []
  chain : Chain heap.mem 0 HEAP_START blocks
  reaches : blocksEnd HEAP_START blocks = heap.heapEnd
  aligned : heap.heapEnd % PAGE_SIZE = 0
  bounded : heap.heapEnd - HEAP_START ≤ HEAP_MAX_SIZE

namespace Laid

variable {heap : Heap} {blocks : List Block}

theorem start_le (laid : Laid heap blocks) : HEAP_START ≤ heap.heapEnd := by
  rw [← laid.reaches]
  exact Tiling.base_le_stop _ blocks

theorem end_le (laid : Laid heap blocks) : heap.heapEnd ≤ HEAP_START + HEAP_MAX_SIZE := by
  have start := laid.start_le
  have bounded := laid.bounded
  omega

theorem fits (laid : Laid heap blocks) : blocksEnd HEAP_START blocks < Word64.modulus := by
  have bound := laid.end_le
  rw [laid.reaches]
  exact Nat.lt_of_le_of_lt bound (by decide)

/-- The bound of the list walks is never reached. -/
theorem length_lt (laid : Laid heap blocks) : blocks.length < LIST_STEPS := by
  have extent : HEAP_START + HEADER_SIZE * blocks.length ≤ blocksEnd HEAP_START blocks :=
    Tiling.length_le (fun block => Nat.le_add_right _ block.size) HEAP_START blocks
  have bound := laid.end_le
  rw [laid.reaches] at extent
  have steps : LIST_STEPS = 2796203 := rfl
  have header : HEADER_SIZE = 24 := rfl
  have largest : HEAP_MAX_SIZE = 67108864 := rfl
  rw [header] at extent
  omega

theorem linkTo_head (laid : Laid heap blocks) : linkTo blocks HEAP_START 0 = heap.heapHead := by
  rw [laid.head]
  cases blocks with
  | nil => exact absurd rfl laid.nonempty
  | cons _ _ => rfl

theorem edited (laid : Laid heap blocks) {edit : List Block} {mem : ByteStore.Store}
    (nonempty : edit ≠ []) (chain : Chain mem 0 HEAP_START edit)
    (extent : blocksEnd HEAP_START edit = blocksEnd HEAP_START blocks) :
    Laid { heap with mem := mem } edit where
  inited := laid.inited
  head := laid.head
  nonempty := nonempty
  chain := chain
  reaches := extent.trans laid.reaches
  aligned := laid.aligned
  bounded := laid.bounded

end Laid

/-! ### Sizes -/

theorem alignUp_eq {n : Nat} (fits : n + ALIGN < Word64.modulus) :
    alignUp n = (n + 15) / 16 * 16 := by
  have sum : Word64.sub (Word64.add n ALIGN) 1 = n + 15 := by
    unfold ALIGN at *
    exact Word64.sub_add_eq (by omega) (by omega)
  have mask : ALIGN - 1 = 2 ^ 4 - 1 := rfl
  have small : n + 15 < Word64.modulus := by
    unfold ALIGN at fits
    omega
  unfold alignUp
  rw [sum, mask, Word64.and_not_low small (by decide)]
  rfl

theorem le_alignUp {n : Nat} (fits : n + ALIGN < Word64.modulus) :
    n ≤ alignUp n ∧ alignUp n < n + 16 := by
  rw [alignUp_eq fits]
  omega

/-! ### Panics while growing -/

/-- The panics that mapping fresh pages can raise. -/
inductive Panic.OfMapping : Panic → Prop where
  | noHeapPage : Panic.OfMapping .heapOutOfMemory
  | noTable : Panic.OfMapping .vmmOutOfMemory
  | virt (virt : Nat) : Panic.OfMapping (.mapPageVirtNotAligned virt)
  | phys (phys : Nat) : Panic.OfMapping (.mapPagePhysNotAligned phys)

theorem nextTableOrCreate_error {vmm : Vmm} {table idx : Nat} {panic : Panic}
    (failed : nextTableOrCreate vmm table idx = .error panic) : Panic.OfMapping panic := by
  simp only [nextTableOrCreate] at failed
  split at failed
  · cases failed
  · split at failed
    · simp only [Except.error.injEq] at failed
      subst failed
      exact .noTable
    · cases failed

theorem mapPage_error {vmm : Vmm} {virt phys : Nat} {flags : BitVec 64} {panic : Panic}
    (failed : mapPage vmm virt phys flags = .error panic) : Panic.OfMapping panic := by
  unfold mapPage at failed
  split at failed
  · cases failed
    exact .virt virt
  · split at failed
    · cases failed
      exact .phys phys
    · rcases bind_eq_error.mp failed with raised | ⟨_, _, failed⟩
      · exact nextTableOrCreate_error raised
      · rcases bind_eq_error.mp failed with raised | ⟨_, _, failed⟩
        · exact nextTableOrCreate_error raised
        · rcases bind_eq_error.mp failed with raised | ⟨_, _, failed⟩
          · exact nextTableOrCreate_error raised
          · cases failed

theorem mapFreshPage_error {vmm : Vmm} {virt i : Nat} {panic : Panic}
    (failed : mapFreshPage virt vmm i = .error panic) : Panic.OfMapping panic := by
  unfold mapFreshPage at failed
  split at failed
  · cases failed
    exact .noHeapPage
  · exact mapPage_error failed

theorem mapFreshPages_raises {vmm : Vmm} {virt nPages : Nat} {panic : Panic}
    (failed : mapFreshPages vmm virt nPages = .error panic) :
    ∃ current i, mapFreshPage virt current i = .error panic := by
  unfold mapFreshPages at failed
  generalize List.range nPages = pages at failed
  induction pages generalizing vmm with
  | nil => cases failed
  | cons page rest ih =>
      rw [List.foldlM_cons] at failed
      rcases bind_eq_error.mp failed with raised | ⟨next, _, failed⟩
      · exact ⟨vmm, page, raised⟩
      · exact ih failed

theorem mapFreshPages_error {vmm : Vmm} {virt nPages : Nat} {panic : Panic}
    (failed : mapFreshPages vmm virt nPages = .error panic) : Panic.OfMapping panic := by
  obtain ⟨current, i, raised⟩ := mapFreshPages_raises failed
  exact mapFreshPage_error raised

/-! ### The operations -/

theorem kmallocInit_ok {before heap : Heap} {start n : Nat}
    (started : kmallocInit before start n = .ok heap) :
    HEADER_SIZE + ALIGN < n ∧ ∃ vmm, mapFreshPages before.vmm start (pagesFor n) = .ok vmm ∧ heap =
      { vmm := vmm
        mem := writeHeader before.mem start
          { size := Word64.sub (Word64.mul (pagesFor n) PAGE_SIZE) HEADER_SIZE, used := 0,
            magic := MAGIC_FREE, next := 0 }
        heapHead := start
        heapEnd := Word64.add start (Word64.mul (pagesFor n) PAGE_SIZE)
        heapInited := true } := by
  unfold kmallocInit at started
  split at started
  · cases started
  · split at started
    · cases started
    · split at started
      · cases started
      · rename_i accepted
        refine ⟨Decidable.not_not.mp accepted, ?_⟩
        obtain ⟨vmm, mapped, result⟩ := bind_eq_ok.mp started
        exact ⟨vmm, mapped, (Except.ok.inj result).symm⟩

theorem expandHeap_ok {heap grown : Heap} {needed : Nat}
    (expanded : expandHeap heap needed = .ok grown) :
    ∃ extra, alignUp (Word64.add (Word64.add needed HEADER_SIZE) PAGE_SIZE) = extra ∧
      Word64.sub (Word64.add heap.heapEnd extra) HEAP_START ≤ HEAP_MAX_SIZE ∧
      mapFreshPages heap.vmm heap.heapEnd (extra / PAGE_SIZE) = .ok grown.vmm ∧
      grown.heapEnd = Word64.add heap.heapEnd (Word64.mul (extra / PAGE_SIZE) PAGE_SIZE) ∧
      grown.heapInited = heap.heapInited := by
  refine ⟨_, rfl, ?_⟩
  simp only [expandHeap] at expanded
  split at expanded
  · cases expanded
  · rename_i accepted
    obtain ⟨vmm, mapped, expanded⟩ := bind_eq_ok.mp expanded
    obtain ⟨last, _, result⟩ := bind_eq_ok.mp expanded
    have grownEq := (Except.ok.inj result).symm
    subst grownEq
    exact ⟨Decidable.not_not.mp accepted, mapped, rfl, rfl⟩

theorem kfree_memory {heap released : Heap} {ptr : Nat} (freed : kfree heap ptr = .ok released) :
    ∃ mem, released = { heap with mem := mem } := by
  simp only [kfree] at freed
  split at freed
  · cases freed
    exact ⟨heap.mem, rfl⟩
  · split at freed
    · cases freed
    · split at freed
      · cases freed
      · split at freed
        · cases freed
        · cases freed
          exact ⟨_, rfl⟩

theorem kmallocInit_of_mapped {heap : Heap} {start n : Nat} {vmm : Vmm}
    (fresh : heap.heapInited = false) (aligned : start % PAGE_SIZE = 0)
    (large : HEADER_SIZE + ALIGN < n) (mapped : mapFreshPages heap.vmm start (pagesFor n) = .ok vmm) :
    kmallocInit heap start n = .ok
      { vmm := vmm
        mem := writeHeader heap.mem start
          { size := Word64.sub (Word64.mul (pagesFor n) PAGE_SIZE) HEADER_SIZE, used := 0,
            magic := MAGIC_FREE, next := 0 }
        heapHead := start
        heapEnd := Word64.add start (Word64.mul (pagesFor n) PAGE_SIZE)
        heapInited := true } := by
  unfold kmallocInit
  rw [fresh, if_neg Bool.false_ne_true, if_neg (not_not.mpr aligned), if_neg (not_not.mpr large)]
  simp only [mapped, ok_bind]
  rfl

theorem initialTotal {n : Nat} (large : HEADER_SIZE + ALIGN < n)
    (rounded : (n + 4095) / PAGE_SIZE * PAGE_SIZE ≤ HEAP_MAX_SIZE) :
    HEADER_SIZE ≤ Word64.mul (pagesFor n) PAGE_SIZE ∧
      Word64.mul (pagesFor n) PAGE_SIZE ≤ HEAP_MAX_SIZE ∧
      Word64.mul (pagesFor n) PAGE_SIZE % PAGE_SIZE = 0 := by
  have small : n ≤ 2 ^ 63 := by
    unfold PAGE_SIZE HEAP_MAX_SIZE at rounded
    omega
  rw [pagesFor_eq small, Word64.mul_eq (Nat.lt_of_le_of_lt rounded (by decide))]
  refine ⟨?_, rounded, Nat.mul_mod_left _ _⟩
  unfold PAGE_SIZE
  unfold HEADER_SIZE ALIGN at *
  omega

theorem kmallocInit_first {before heap : Heap} {n : Nat}
    (rounded : (n + 4095) / PAGE_SIZE * PAGE_SIZE ≤ HEAP_MAX_SIZE)
    (started : kmallocInit before HEAP_START n = .ok heap) :
    Laid heap
      [{ size := Word64.mul (pagesFor n) PAGE_SIZE - HEADER_SIZE, used := false }] := by
  obtain ⟨large, vmm, _, heapEq⟩ := kmallocInit_ok started
  obtain ⟨atLeast, atMost, multiple⟩ := initialTotal large rounded
  generalize Word64.mul (pagesFor n) PAGE_SIZE = total at heapEq atLeast atMost multiple
  have inWindow : total < Word64.modulus := Nat.lt_of_le_of_lt atMost (by decide)
  have payload : Word64.sub total HEADER_SIZE = total - HEADER_SIZE :=
    Word64.sub_eq atLeast inWindow
  have stop : Word64.add HEAP_START total = HEAP_START + total := by
    apply Word64.add_eq
    have bound : HEAP_START + HEAP_MAX_SIZE < Word64.modulus := by decide
    omega
  rw [payload, stop] at heapEq
  subst heap
  refine ⟨rfl, rfl, by simp, ⟨?_, trivial⟩, ?_, ?_, ?_⟩
  · exact headerAt_writeHeader _ _ (Nat.lt_of_le_of_lt (Nat.sub_le _ _) inWindow) (by decide)
  · have extent : HEAP_START + (HEADER_SIZE + (total - HEADER_SIZE)) = HEAP_START + total := by
      omega
    exact extent
  · have base : HEAP_START % PAGE_SIZE = 0 := by decide
    rw [Nat.add_mod, base, multiple]
    rfl
  · rw [Nat.add_sub_cancel_left]
    exact atMost

theorem kmallocInit_laid {before heap : Heap} {n : Nat}
    (rounded : (n + 4095) / PAGE_SIZE * PAGE_SIZE ≤ HEAP_MAX_SIZE)
    (started : kmallocInit before HEAP_START n = .ok heap) :
    ∃ size, Laid heap [{ size := size, used := false }] :=
  ⟨_, kmallocInit_first rounded started⟩

/-- The panics a growing heap can raise: its limit, and those of mapping pages. -/
def Panic.OfGrowth (panic : Panic) : Prop :=
  panic = .heapMaximumSize ∨ Panic.OfMapping panic

theorem growth_exact {needed : Nat} (small : needed < 2 ^ 63 + 16) :
    alignUp (Word64.add (Word64.add needed HEADER_SIZE) PAGE_SIZE) =
      (needed + HEADER_SIZE + PAGE_SIZE + 15) / 16 * 16 := by
  have words : Word64.modulus = 2 ^ 64 := rfl
  have header : HEADER_SIZE = 24 := rfl
  have page : PAGE_SIZE = 4096 := rfl
  have inner : Word64.add needed HEADER_SIZE = needed + HEADER_SIZE :=
    Word64.add_eq (by omega)
  have outer : Word64.add (needed + HEADER_SIZE) PAGE_SIZE = needed + HEADER_SIZE + PAGE_SIZE :=
    Word64.add_eq (by omega)
  rw [inner, outer]
  exact alignUp_eq (by unfold ALIGN; omega)

theorem growth_size {needed : Nat} (small : needed < 2 ^ 63 + 16) :
    ∃ extra, alignUp (Word64.add (Word64.add needed HEADER_SIZE) PAGE_SIZE) = extra ∧
      extra < 2 ^ 63 + 2 ^ 13 ∧ extra / PAGE_SIZE * PAGE_SIZE ≤ extra ∧
      HEADER_SIZE + needed ≤ extra / PAGE_SIZE * PAGE_SIZE := by
  have header : HEADER_SIZE = 24 := rfl
  have page : PAGE_SIZE = 4096 := rfl
  refine ⟨_, growth_exact small, ?_⟩
  rw [header, page]
  omega

theorem Laid.lastBlock_eq {heap : Heap} {before : List Block} {last : Block}
    (laid : Laid heap (before ++ [last])) (header : BlockHeader) :
    lastBlock (writeHeader heap.mem heap.heapEnd header) LIST_STEPS heap.heapHead =
      .ok (blocksEnd HEAP_START before) := by
  have chain : Chain (writeHeader heap.mem heap.heapEnd header) 0 HEAP_START
      (before ++ [last]) := by
    apply laid.chain.outside
    intro byte _ upper
    rw [laid.reaches] at upper
    exact writeHeader_outside (Or.inl upper)
  rw [laid.head]
  exact lastBlock_spec chain (by decide) (Nat.lt_trans (by simp) laid.length_lt)

theorem Laid.expandHeap_raised {heap : Heap} {blocks : List Block} {needed : Nat} {panic : Panic}
    (laid : Laid heap blocks) (failed : expandHeap heap needed = .error panic) :
    panic = .heapMaximumSize ∨
      ∃ pages, mapFreshPages heap.vmm heap.heapEnd pages = .error panic := by
  simp only [expandHeap] at failed
  split at failed
  · cases failed
    exact Or.inl rfl
  · rcases bind_eq_error.mp failed with raised | ⟨vmm, _, failed⟩
    · exact Or.inr ⟨_, raised⟩
    · rcases bind_eq_error.mp failed with raised | ⟨last, _, failed⟩
      · obtain ⟨before, last, split⟩ := (List.eq_nil_or_concat blocks).resolve_left laid.nonempty
        rw [List.concat_eq_append] at split
        subst split
        rw [laid.lastBlock_eq] at raised
        cases raised
      · cases failed

theorem expandHeap_error {heap : Heap} {blocks : List Block} {needed : Nat} {panic : Panic}
    (laid : Laid heap blocks) (failed : expandHeap heap needed = .error panic) :
    Panic.OfGrowth panic := by
  rcases laid.expandHeap_raised failed with limit | ⟨pages, raised⟩
  · exact Or.inl limit
  · exact Or.inr (mapFreshPages_error raised)

/-- What a growth that succeeds leaves, however its sums have wrapped. -/
theorem Laid.expandHeap_chain {heap grown : Heap} {blocks : List Block} {needed : Nat}
    (laid : Laid heap blocks) (expanded : expandHeap heap needed = .ok grown) {pages : Nat}
    (pagesEq :
      alignUp (Word64.add (Word64.add needed HEADER_SIZE) PAGE_SIZE) / PAGE_SIZE = pages) :
    grown.heapInited = true ∧ grown.heapHead = HEAP_START ∧
      grown.heapEnd = Word64.add heap.heapEnd (Word64.mul pages PAGE_SIZE) ∧
      Chain grown.mem 0 HEAP_START
        (blocks ++ [{ size := Word64.sub (Word64.mul pages PAGE_SIZE) HEADER_SIZE, used := false }]) := by
  simp only [expandHeap, pagesEq] at expanded
  split at expanded
  · cases expanded
  · obtain ⟨vmm, _, expanded⟩ := bind_eq_ok.mp expanded
    obtain ⟨found, search, result⟩ := bind_eq_ok.mp expanded
    have grownEq := (Except.ok.inj result).symm
    subst grownEq
    obtain ⟨before, last, split⟩ := (List.eq_nil_or_concat blocks).resolve_left laid.nonempty
    rw [List.concat_eq_append] at split
    subst split
    rw [laid.lastBlock_eq] at search
    cases search
    have appended := append_chain laid.chain laid.fits
      (Word64.sub_lt (Word64.mul pages PAGE_SIZE) HEADER_SIZE)
    rw [laid.reaches, ← List.append_assoc] at appended
    exact ⟨laid.inited, laid.head, rfl, appended⟩

theorem Laid.expandHeap_span {heap grown : Heap} {blocks : List Block} {needed : Nat}
    (laid : Laid heap blocks) (expanded : expandHeap heap needed = .ok grown) {pages : Nat}
    (pagesEq : alignUp (Word64.add (Word64.add needed HEADER_SIZE) PAGE_SIZE) / PAGE_SIZE = pages)
    (positive : 0 < pages)
    (limit : heap.heapEnd + pages * PAGE_SIZE ≤ HEAP_START + HEAP_MAX_SIZE) :
    Laid grown (blocks ++ [{ size := pages * PAGE_SIZE - HEADER_SIZE, used := false }]) := by
  obtain ⟨inited, head, newEnd, chain⟩ := laid.expandHeap_chain expanded pagesEq
  have window : HEAP_START + HEAP_MAX_SIZE < Word64.modulus := by decide
  have enough : HEADER_SIZE ≤ pages * PAGE_SIZE := by
    unfold HEADER_SIZE PAGE_SIZE
    omega
  have aligned := laid.aligned
  have start := laid.start_le
  rw [Word64.mul_eq (by omega), Word64.sub_eq enough (by omega)] at chain
  rw [Word64.mul_eq (by omega), Word64.add_eq (by omega)] at newEnd
  constructor
  case inited => exact inited
  case head => exact head
  case nonempty => simp
  case chain => exact chain
  case reaches =>
    have oldEnd : blocksEnd HEAP_START blocks = heap.heapEnd := laid.reaches
    simp only [blocksEnd, Tiling.stop_append, Tiling.stop_cons, Tiling.stop_nil, Block.width]
      at oldEnd ⊢
    rw [oldEnd, newEnd]
    omega
  case aligned =>
    rw [newEnd, Nat.add_mul_mod_self_right]
    exact aligned
  case bounded =>
    rw [newEnd]
    omega

theorem expandHeap_laid {heap grown : Heap} {blocks : List Block} {needed : Nat}
    (laid : Laid heap blocks) (small : needed < 2 ^ 63 + 16)
    (expanded : expandHeap heap needed = .ok grown) :
    ∃ size, needed ≤ size ∧ Laid grown (blocks ++ [{ size := size, used := false }]) := by
  obtain ⟨extra, extraEq, bound, whole, enough⟩ := growth_size small
  obtain ⟨span, spanEq, accepted, _⟩ := expandHeap_ok expanded
  rw [extraEq] at spanEq
  subst spanEq
  have words : Word64.modulus = 2 ^ 64 := rfl
  have header : HEADER_SIZE = 24 := rfl
  have largest : HEAP_MAX_SIZE = 67108864 := rfl
  have start := laid.start_le
  have stop := laid.end_le
  have limit : heap.heapEnd + extra - HEAP_START ≤ HEAP_MAX_SIZE := by
    have exactSum : Word64.sub (Word64.add heap.heapEnd extra) HEAP_START =
        heap.heapEnd + extra - HEAP_START := Word64.sub_add_eq (by omega) (by omega)
    rw [← exactSum]
    exact accepted
  refine ⟨extra / PAGE_SIZE * PAGE_SIZE - HEADER_SIZE, by omega, ?_⟩
  apply laid.expandHeap_span expanded (by rw [extraEq])
  · apply Nat.pos_of_ne_zero
    intro none_
    rw [none_, Nat.zero_mul] at enough
    omega
  · omega

/-- An allocation took the free block between `before` and `behind`, in the block
list as it was or with one free block appended. -/
structure Granted (blocks before behind : List Block) (block : Block) (size ptr : Nat)
    (after : Heap) : Prop where
  source : before ++ ([block] ++ behind) = blocks ∨
    ∃ added, before ++ ([block] ++ behind) = blocks ++ [{ size := added, used := false }]
  free : block.used = false
  large : alignUp size ≤ block.size
  ptrEq : ptr = blocksEnd HEAP_START before + HEADER_SIZE
  laid : Laid after (before ++ (block.taken (alignUp size) ++ behind))

theorem kmallocWithin_found {heap : Heap} {before behind : List Block} {block : Block}
    {size calls : Nat} (laid : Laid heap (before ++ ([block] ++ behind))) (positive : 0 < size)
    (large : alignUp size ≤ block.size)
    (found : findBlock heap.mem (alignUp size) LIST_STEPS heap.heapHead =
      .ok (some (blocksEnd HEAP_START before))) :
    kmallocWithin (calls + 1) heap size =
        .ok (blocksEnd HEAP_START before + HEADER_SIZE,
          { heap with mem := takeBlock heap.mem (alignUp size) (blocksEnd HEAP_START before) }) ∧
      Laid { heap with mem := takeBlock heap.mem (alignUp size) (blocksEnd HEAP_START before) }
        (before ++ (block.taken (alignUp size) ++ behind)) := by
  have inside : blocksEnd HEAP_START before + block.width ≤
      blocksEnd (blocksEnd HEAP_START before + block.width) behind := Tiling.base_le_stop _ behind
  have fits : blocksEnd (blocksEnd HEAP_START before + block.width) behind < Word64.modulus := by
    simpa using laid.fits
  have wide : block.width = HEADER_SIZE + block.size := rfl
  have payload : Word64.add (blocksEnd HEAP_START before) HEADER_SIZE =
      blocksEnd HEAP_START before + HEADER_SIZE := Word64.add_eq (by omega)
  constructor
  · rw [kmallocWithin, if_neg (by simp [laid.inited]), if_neg (Nat.ne_of_gt positive)]
    dsimp only
    rw [found, ok_bind, ← payload]
    rfl
  · apply laid.edited
    · simp [Block.taken_ne_nil]
    · exact takeBlock_chain laid.chain (by decide) laid.fits large
    · have extent : blocksEnd (blocksEnd HEAP_START before) (block.taken (alignUp size)) =
          blocksEnd HEAP_START before + block.width := Block.taken_extent _
      simp only [blocksEnd, Tiling.stop_append, Tiling.stop_cons, Tiling.stop_nil] at extent ⊢
      rw [extent]

theorem kmallocWithin_none {heap : Heap} {size calls : Nat} (inited : heap.heapInited = true)
    (positive : 0 < size)
    (none_ : findBlock heap.mem (alignUp size) LIST_STEPS heap.heapHead = .ok none) :
    kmallocWithin (calls + 1) heap size =
      expandHeap heap (alignUp size) >>= fun expanded => kmallocWithin calls expanded size := by
  rw [kmallocWithin, if_neg (by simp [inited]), if_neg (Nat.ne_of_gt positive)]
  dsimp only
  rw [none_, ok_bind]

theorem kmalloc_cases {heap : Heap} {blocks : List Block} {size : Nat}
    (laid : Laid heap blocks) (positive : 0 < size) (small : size < 2 ^ 63) :
    (∃ ptr after before block behind, kmalloc heap size = .ok (ptr, after) ∧
        Granted blocks before behind block size ptr after) ∨
      ∃ panic, kmalloc heap size = .error panic ∧ Panic.OfGrowth panic := by
  have words : Word64.modulus = 2 ^ 64 := rfl
  have rounded := le_alignUp (by unfold ALIGN; omega : size + ALIGN < Word64.modulus)
  have search {current : Heap} {list : List Block} (currentLaid : Laid current list) :=
    @findBlock_spec _ _ (alignUp size) _ _ currentLaid.chain (by decide) currentLaid.length_lt
  rcases search laid with ⟨absent, _⟩ | ⟨before, block, behind, split, free, large, _, found⟩
  · -- nothing fits: grow, and the appended block is large enough
    rw [laid.linkTo_head] at absent
    rw [kmalloc, kmallocWithin_none laid.inited positive absent]
    cases expanded : expandHeap heap (alignUp size) with
    | error panic => exact Or.inr ⟨panic, rfl, expandHeap_error laid expanded⟩
    | ok grown =>
        obtain ⟨added, enough, grownLaid⟩ := expandHeap_laid laid (by omega) expanded
        rcases search grownLaid with
          ⟨_, noneFits⟩ | ⟨before, block, behind, split, free, large, _, found⟩
        · have last := noneFits { size := added, used := false } (by simp)
          simp only [Bool.false_eq_true, false_or] at last
          omega
        · rw [grownLaid.linkTo_head] at found
          rw [split] at grownLaid
          obtain ⟨result, afterLaid⟩ :=
            @kmallocWithin_found _ _ _ _ _ 0 grownLaid positive large found
          exact Or.inl ⟨_, _, before, block, behind, result,
            Or.inr ⟨added, split.symm⟩, free, large, rfl, afterLaid⟩
  · rw [laid.linkTo_head] at found
    subst split
    obtain ⟨result, afterLaid⟩ := kmallocWithin_found laid positive large found
    exact Or.inl ⟨_, _, before, block, behind, result, Or.inl rfl, free, large, rfl, afterLaid⟩

theorem mergeFree_extent (addr : Nat) (block : Block) (after : List Block) :
    blocksEnd addr (mergeFree block after) = blocksEnd addr ([block] ++ after) := by
  cases after with
  | nil => rfl
  | cons next rest =>
      cases usage : next.used with
      | true => simp [mergeFree, usage]
      | false =>
          have widths : addr + Block.width { block with size := block.size + next.width } =
              addr + block.width + next.width := by
            simp only [Block.width]
            omega
          simp only [mergeFree, usage, Bool.false_eq_true, if_false]
          exact congrArg (fun start => blocksEnd start rest) widths

theorem mergeFree_ne_nil (block : Block) (after : List Block) : mergeFree block after ≠ [] := by
  cases after with
  | nil => simp [mergeFree]
  | cons next rest => cases usage : next.used <;> simp [mergeFree, usage]

theorem kfree_used {heap : Heap} {before after : List Block} {block : Block}
    (laid : Laid heap (before ++ ([block] ++ after))) (used : block.used = true) :
    ∃ released, kfree heap (blocksEnd HEAP_START before + HEADER_SIZE) = .ok released ∧
      Laid released (before ++ mergeFree { block with used := false } after) := by
  have inside : blocksEnd HEAP_START before + block.width ≤
      blocksEnd (blocksEnd HEAP_START before + block.width) after := Tiling.base_le_stop _ after
  have fits : blocksEnd (blocksEnd HEAP_START before + block.width) after < Word64.modulus := by
    simpa using laid.fits
  have wide : block.width = HEADER_SIZE + block.size := rfl
  have notNull : blocksEnd HEAP_START before + HEADER_SIZE ≠ 0 := by
    unfold HEADER_SIZE
    omega
  have hdr : Word64.sub (blocksEnd HEAP_START before + HEADER_SIZE) HEADER_SIZE =
      blocksEnd HEAP_START before := by
    rw [Word64.sub_eq (by omega) (by omega), Nat.add_sub_cancel]
  have magic : readMagic heap.mem (blocksEnd HEAP_START before) = MAGIC_USED := by
    rw [(chain_split.mp laid.chain).2.1.1.magic, used]
    rfl
  have marked := mark_chain laid.chain false
  simp only [Bool.false_eq_true, if_false] at marked
  have sameEnd : blocksEnd HEAP_START (before ++ ([{ block with used := false }] ++ after)) =
      blocksEnd HEAP_START (before ++ ([block] ++ after)) := by
    simp [Block.width]
  have merged := coalesce_chain marked (by decide) (by rw [sameEnd]; exact laid.fits)
  refine ⟨{ heap with
    mem := coalesce
      (writeMagic (writeUsed heap.mem (blocksEnd HEAP_START before) 0)
        (blocksEnd HEAP_START before) MAGIC_FREE)
      (blocksEnd HEAP_START before) }, ?_, ?_⟩
  · simp only [kfree, if_neg notNull, laid.inited, hdr, magic]
    rfl
  · apply laid.edited
    · simp [mergeFree_ne_nil]
    · exact merged
    · rw [← sameEnd]
      have extent := mergeFree_extent (blocksEnd HEAP_START before)
        { block with used := false } after
      simp only [blocksEnd, Tiling.stop_append] at extent ⊢
      exact extent

/-! ### Live pointers -/

/-- The pointer addresses the payload of a used block of at least that size. -/
def Owned (blocks : List Block) (ptr size : Nat) : Prop :=
  ∃ hdr block, (hdr, block) ∈ placedBlocks HEAP_START blocks ∧ ptr = hdr + HEADER_SIZE ∧
    block.used = true ∧ size ≤ block.size

theorem Owned.replace {before middle after : List Block} {ptr size : Nat}
    (replacement : List Block) (owned : Owned (before ++ (middle ++ after)) ptr size)
    (extent : blocksEnd (blocksEnd HEAP_START before) replacement =
      blocksEnd (blocksEnd HEAP_START before) middle)
    (elsewhere : ∀ hdr block, (hdr, block) ∈ placedBlocks (blocksEnd HEAP_START before) middle →
      block.used = true → ptr ≠ hdr + HEADER_SIZE) :
    Owned (before ++ (replacement ++ after)) ptr size := by
  obtain ⟨hdr, block, member, ptrEq, used, large⟩ := owned
  refine ⟨hdr, block, ?_, ptrEq, used, large⟩
  simp only [placedBlocks, Tiling.placed_append, List.mem_append] at member ⊢
  rcases member with early | here | late
  · exact Or.inl early
  · exact absurd ptrEq (elsewhere hdr block here used)
  · simp only [blocksEnd] at extent
    rw [← extent] at late
    exact Or.inr (Or.inr late)

theorem Owned.append {blocks more : List Block} {ptr size : Nat} (owned : Owned blocks ptr size) :
    Owned (blocks ++ more) ptr size := by
  obtain ⟨hdr, block, member, rest⟩ := owned
  refine ⟨hdr, block, ?_, rest⟩
  rw [placedBlocks, Tiling.placed_append]
  exact List.mem_append_left _ member

theorem Owned.merge {before after : List Block} {block : Block} {ptr size : Nat}
    (free : block.used = false) (owned : Owned (before ++ ([block] ++ after)) ptr size) :
    Owned (before ++ mergeFree block after) ptr size := by
  cases after with
  | nil => exact owned
  | cons next rest =>
      cases usage : next.used with
      | true =>
          simp only [mergeFree, usage, if_true]
          exact owned
      | false =>
          have pair : Owned (before ++ ([block, next] ++ rest)) ptr size := owned
          have extent := mergeFree_extent (blocksEnd HEAP_START before) block [next]
          simp only [mergeFree, usage, Bool.false_eq_true, if_false] at extent ⊢
          apply Owned.replace _ pair extent
          intro hdr found member used
          simp only [placedBlocks, Tiling.placed, List.mem_cons, Prod.mk.injEq, List.not_mem_nil,
            or_false] at member
          rcases member with ⟨_, same⟩ | ⟨_, same⟩
          · rw [same, free] at used
            cases used
          · rw [same, usage] at used
            cases used

/-- The heap with the live pointers and the sizes they were requested with. -/
structure HeapRun where
  heap : Heap
  live : List (Nat × Nat)

inductive HeapCall where
  | kmalloc (size : Nat)
  | kfree (ptr : Nat)
  | store (address : Nat) (value : BitVec 8)

/-- A call of a well-behaved client: sizes below 2^63, releases of live pointers,
stores into live payloads.  A panic ends the run. -/
def heapStep (run : HeapRun) : HeapCall → Option HeapRun
  | .kmalloc size =>
      if 0 < size ∧ size < 2 ^ 63 then
        match kmalloc run.heap size with
        | .error _ => none
        | .ok (ptr, heap) => some { heap := heap, live := (ptr, size) :: run.live }
      else none
  | .kfree ptr =>
      if ∃ entry ∈ run.live, entry.1 = ptr then
        match kfree run.heap ptr with
        | .error _ => none
        | .ok heap =>
            some { heap := heap, live := run.live.filter (fun entry => entry.1 ≠ ptr) }
      else none
  | .store address value =>
      if ∃ entry ∈ run.live, entry.1 ≤ address ∧ address < entry.1 + entry.2 then
        some { run with heap :=
          { run.heap with mem := Function.update run.heap.mem address value } }
      else none

structure HeapRun.Invariant (run : HeapRun) (blocks : List Block) : Prop where
  laid : Laid run.heap blocks
  owned : ∀ entry, entry ∈ run.live → Owned blocks entry.1 entry.2
  distinct : run.live.Pairwise (fun left right => left.1 ≠ right.1)

theorem taken_head {block : Block} {needed : Nat} (large : needed ≤ block.size) :
    ∃ head rest, block.taken needed = head :: rest ∧ head.used = true ∧ needed ≤ head.size ∧
      head.size ≤ block.size := by
  unfold Block.taken
  split
  · exact ⟨_, _, rfl, rfl, Nat.le_refl _, large⟩
  · exact ⟨_, _, rfl, rfl, large, Nat.le_refl _⟩

theorem HeapRun.Invariant.grant {run : HeapRun} {blocks before behind rest : List Block}
    {block head : Block} {size requested ptr : Nat} {after : Heap}
    (invariant : run.Invariant blocks)
    (granted : Granted blocks before behind block size ptr after)
    (taken : block.taken (alignUp size) = head :: rest) (used : head.used = true)
    (enough : requested ≤ head.size) :
    HeapRun.Invariant { heap := after, live := (ptr, requested) :: run.live }
      (before ++ (block.taken (alignUp size) ++ behind)) := by
  have kept {pointer length : Nat} (owned : Owned blocks pointer length) :
      Owned (before ++ ([block] ++ behind)) pointer length := by
    rcases granted.source with same | ⟨added, grown⟩
    · rw [same]
      exact owned
    · rw [grown]
      exact owned.append
  have placed : (blocksEnd HEAP_START before, block) ∈
      placedBlocks HEAP_START (before ++ ([block] ++ behind)) := by
    simp [Tiling.placed]
  refine ⟨granted.laid, ?_, ?_⟩
  · intro entry member
    rcases List.mem_cons.mp member with new | old
    · subst entry
      refine ⟨_, head, ?_, granted.ptrEq, used, enough⟩
      rw [taken]
      simp [Tiling.placed]
    · apply Owned.replace _ (kept (invariant.owned entry old)) (Block.taken_extent _)
      intro hdr found foundPlaced used
      simp only [placedBlocks, Tiling.placed, List.mem_singleton, Prod.mk.injEq] at foundPlaced
      rw [foundPlaced.2, granted.free] at used
      cases used
  · refine List.Pairwise.cons ?_ invariant.distinct
    intro entry member same
    -- the granted block was free, so no live pointer had its address
    obtain ⟨hdr, found, foundPlaced, ptrEq, used, _⟩ := kept (invariant.owned entry member)
    have sameHdr : hdr = blocksEnd HEAP_START before := by
      have granted := granted.ptrEq
      simp only at same
      omega
    rw [sameHdr] at foundPlaced
    have sameBlock := Tiling.placed_unique Block.width_pos foundPlaced placed
    rw [sameBlock, granted.free] at used
    cases used

theorem HeapRun.Invariant.kmalloc {run : HeapRun} {blocks before behind : List Block}
    {block : Block} {size ptr : Nat} {after : Heap} (invariant : run.Invariant blocks)
    (small : size < 2 ^ 63) (granted : Granted blocks before behind block size ptr after) :
    HeapRun.Invariant { heap := after, live := (ptr, size) :: run.live }
      (before ++ (block.taken (alignUp size) ++ behind)) := by
  have words : Word64.modulus = 2 ^ 64 := rfl
  have rounded := le_alignUp (by unfold ALIGN; omega : size + ALIGN < Word64.modulus)
  rcases taken_head granted.large with ⟨head, rest, taken, used, least, _⟩
  exact invariant.grant granted taken used (Nat.le_trans rounded.1 least)

theorem HeapRun.Invariant.release {run : HeapRun} {blocks : List Block} {ptr size : Nat}
    (invariant : run.Invariant blocks) (live : (ptr, size) ∈ run.live) :
    ∃ before block after released, blocks = before ++ ([block] ++ after) ∧
      ptr = blocksEnd HEAP_START before + HEADER_SIZE ∧ block.used = true ∧
      Memory.kfree run.heap ptr = .ok released ∧
      HeapRun.Invariant
        { heap := released, live := run.live.filter (fun entry => entry.1 ≠ ptr) }
        (before ++ mergeFree { block with used := false } after) := by
  obtain ⟨hdr, block, placed, ptrEq, used, _⟩ := invariant.owned _ live
  obtain ⟨before, after, split, hdrEq⟩ := Tiling.placed_split placed
  have here : blocks = before ++ ([block] ++ after) := split
  have address : ptr = blocksEnd HEAP_START before + HEADER_SIZE := ptrEq.trans (by rw [hdrEq])
  subst here
  subst hdrEq
  obtain ⟨released, result, laid⟩ := kfree_used invariant.laid used
  refine ⟨before, block, after, released, rfl, address, used, by rw [address]; exact result,
    laid, ?_, ?_⟩
  · intro entry member
    obtain ⟨old, other⟩ := List.mem_filter.mp member
    simp only [ne_eq, decide_not, Bool.not_eq_eq_eq_not, Bool.not_true,
      decide_eq_false_iff_not] at other
    apply Owned.merge rfl
    apply Owned.replace _ (invariant.owned entry old)
    · rfl
    · intro otherHdr found foundPlaced _ same
      simp only [placedBlocks, Tiling.placed, List.mem_singleton, Prod.mk.injEq] at foundPlaced
      apply other
      rw [same, address, foundPlaced.1]
  · exact invariant.distinct.filter _

theorem HeapRun.Invariant.kfree {run : HeapRun} {blocks : List Block} {ptr size : Nat}
    (invariant : run.Invariant blocks) (live : (ptr, size) ∈ run.live) :
    ∃ released remaining, Memory.kfree run.heap ptr = .ok released ∧
      HeapRun.Invariant
        { heap := released, live := run.live.filter (fun entry => entry.1 ≠ ptr) } remaining := by
  obtain ⟨_, _, _, released, _, _, _, result, kept⟩ := invariant.release live
  exact ⟨released, _, result, kept⟩

theorem HeapRun.Invariant.store {run : HeapRun} {blocks : List Block} {address : Nat}
    {value : BitVec 8} (invariant : run.Invariant blocks)
    (inside : ∃ entry ∈ run.live, entry.1 ≤ address ∧ address < entry.1 + entry.2) :
    HeapRun.Invariant
      { run with heap := { run.heap with mem := Function.update run.heap.mem address value } }
      blocks := by
  obtain ⟨entry, live, lower, upper⟩ := inside
  obtain ⟨hdr, block, placed, ptrEq, _, large⟩ := invariant.owned entry live
  refine ⟨?_, invariant.owned, invariant.distinct⟩
  apply invariant.laid.edited invariant.laid.nonempty _ rfl
  apply invariant.laid.chain.congr
  intro other otherBlock otherPlaced byte above below
  apply Function.update_of_ne
  have wide : block.width = HEADER_SIZE + block.size := rfl
  have otherWide : otherBlock.width = HEADER_SIZE + otherBlock.size := rfl
  rcases Tiling.placed_apart placed otherPlaced with same | first | second
  · cases same
    omega
  · omega
  · omega

theorem heapStep_invariant {run next : HeapRun} {blocks : List Block} {call : HeapCall}
    (invariant : run.Invariant blocks) (stepped : heapStep run call = some next) :
    ∃ remaining, next.Invariant remaining := by
  cases call with
  | kmalloc size =>
      simp only [heapStep] at stepped
      split at stepped
      · rename_i allowed
        rcases kmalloc_cases invariant.laid allowed.1 allowed.2 with
          ⟨ptr, after, before, block, behind, result, granted⟩ | ⟨panic, result, _⟩
        · rw [result] at stepped
          cases stepped
          exact ⟨_, invariant.kmalloc allowed.2 granted⟩
        · rw [result] at stepped
          cases stepped
      · cases stepped
  | kfree ptr =>
      simp only [heapStep] at stepped
      split at stepped
      · rename_i live
        obtain ⟨⟨pointer, size⟩, member, same⟩ := live
        simp only at same
        subst same
        obtain ⟨released, remaining, result, kept⟩ := invariant.kfree member
        rw [result] at stepped
        cases stepped
        exact ⟨remaining, kept⟩
      · cases stepped
  | store address value =>
      simp only [heapStep] at stepped
      split at stepped
      · rename_i inside
        cases stepped
        exact ⟨blocks, invariant.store inside⟩
      · cases stepped

theorem exec_heapInvariant {run final : HeapRun} {blocks : List Block} {calls : List HeapCall}
    (invariant : run.Invariant blocks)
    (reached : LabelledRun.exec heapStep run calls = some final) :
    ∃ remaining, final.Invariant remaining := by
  apply @LabelledRun.exec_invariant _ _ heapStep (fun run => ∃ blocks, run.Invariant blocks)
    _ run final calls ⟨blocks, invariant⟩ reached
  intro state call next here stepped
  obtain ⟨blocks, invariant⟩ := here
  exact heapStep_invariant invariant stepped

/-! ### What a walk over the headers sees -/

def Visits (mem : ByteStore.Store) : Nat → List Nat → Prop
  | cur, [] => cur = 0
  | cur, hdr :: rest => cur ≠ 0 ∧ cur = hdr ∧ Visits mem (readNext mem hdr) rest

def TilesTo (mem : ByteStore.Store) (stop : Nat) : Nat → List Nat → Prop
  | addr, [] => addr = stop
  | addr, hdr :: rest => hdr = addr ∧ TilesTo mem stop (hdr + HEADER_SIZE + readSize mem hdr) rest

def FlagsAgree (mem : ByteStore.Store) (hdr : Nat) : Prop :=
  (readUsed mem hdr = 1 ↔ readMagic mem hdr = MAGIC_USED) ∧
    (readUsed mem hdr = 0 ↔ readMagic mem hdr = MAGIC_FREE) ∧
    (readUsed mem hdr = 0 ∨ readUsed mem hdr = 1)

def headersOf (addr : Nat) (blocks : List Block) : List Nat :=
  (placedBlocks addr blocks).map Prod.fst

theorem Chain.visits {mem : ByteStore.Store} {addr : Nat} {blocks : List Block}
    (chain : Chain mem 0 addr blocks) (high : 0 < addr) :
    Visits mem (linkTo blocks addr 0) (headersOf addr blocks) := by
  induction blocks generalizing addr with
  | nil => rfl
  | cons block rest ih =>
      obtain ⟨header, later⟩ := chain
      refine ⟨Nat.ne_of_gt high, rfl, ?_⟩
      rw [header.next]
      exact ih later (Nat.lt_of_lt_of_le high (Nat.le_add_right _ _))

theorem Chain.tilesTo {mem : ByteStore.Store} {tail addr : Nat} {blocks : List Block}
    (chain : Chain mem tail addr blocks) :
    TilesTo mem (blocksEnd addr blocks) addr (headersOf addr blocks) := by
  induction blocks generalizing addr with
  | nil => rfl
  | cons block rest ih =>
      obtain ⟨header, later⟩ := chain
      refine ⟨rfl, ?_⟩
      rw [header.size, Nat.add_assoc]
      exact ih later

theorem Chain.header {mem : ByteStore.Store} {tail addr hdr : Nat} {block : Block}
    {blocks : List Block} (chain : Chain mem tail addr blocks)
    (placed : (hdr, block) ∈ placedBlocks addr blocks) : ∃ next, HeaderAt mem hdr block next := by
  induction blocks generalizing addr with
  | nil => simp [Tiling.placed] at placed
  | cons first rest ih =>
      obtain ⟨header, later⟩ := chain
      rcases List.mem_cons.mp placed with here | behind
      · cases here
        exact ⟨_, header⟩
      · exact ih later behind

theorem HeaderAt.flagsAgree {mem : ByteStore.Store} {hdr next : Nat} {block : Block}
    (header : HeaderAt mem hdr block next) : FlagsAgree mem hdr := by
  unfold FlagsAgree
  rw [header.used, header.magic]
  cases block.used <;> decide

theorem headersOf_increasing (addr : Nat) (blocks : List Block) :
    (headersOf addr blocks).Pairwise (fun left right => left < right) := by
  rw [headersOf, List.pairwise_map]
  apply (Tiling.placed_ordered addr blocks).imp
  intro left right ordered
  have positive := left.2.width_pos
  omega

theorem Owned.inside {blocks : List Block} {ptr size : Nat} (owned : Owned blocks ptr size) :
    HEAP_START ≤ ptr ∧ ptr + size ≤ blocksEnd HEAP_START blocks := by
  obtain ⟨hdr, block, placed, ptrEq, _, large⟩ := owned
  have wide : block.width = HEADER_SIZE + block.size := rfl
  have first : HEAP_START ≤ hdr := (Tiling.placed_bounds placed).1
  have last : hdr + block.width ≤ blocksEnd HEAP_START blocks := (Tiling.placed_bounds placed).2
  omega

theorem Owned.apart_header {blocks : List Block} {ptr size hdr : Nat}
    (owned : Owned blocks ptr size) (member : hdr ∈ headersOf HEAP_START blocks) :
    ptr + size ≤ hdr ∨ hdr + HEADER_SIZE ≤ ptr := by
  obtain ⟨own, block, placed, ptrEq, _, large⟩ := owned
  obtain ⟨⟨found, other⟩, otherPlaced, same⟩ := List.mem_map.mp member
  simp only at same
  subst same
  have wide : block.width = HEADER_SIZE + block.size := rfl
  have otherWide : other.width = HEADER_SIZE + other.size := rfl
  rcases Tiling.placed_apart placed otherPlaced with here | first | second
  · cases here
    omega
  · omega
  · omega

theorem Owned.apart {blocks : List Block} {left leftSize right rightSize : Nat}
    (leftOwned : Owned blocks left leftSize) (rightOwned : Owned blocks right rightSize)
    (different : left ≠ right) : left + leftSize ≤ right ∨ right + rightSize ≤ left := by
  obtain ⟨leftHdr, leftBlock, leftPlaced, leftEq, _, leftLarge⟩ := leftOwned
  obtain ⟨rightHdr, rightBlock, rightPlaced, rightEq, _, rightLarge⟩ := rightOwned
  have leftWide : leftBlock.width = HEADER_SIZE + leftBlock.size := rfl
  have rightWide : rightBlock.width = HEADER_SIZE + rightBlock.size := rfl
  rcases Tiling.placed_apart leftPlaced rightPlaced with same | first | second
  · cases same
    omega
  · omega
  · omega

/-- In every reachable state the headers tile the window, their flags agree, live
payloads are disjoint from each other and from all headers, and an allocation
returns or panics for lack of memory, never for a corrupt header. -/
theorem heap_block_list_invariant {before heap : Heap} {n : Nat} {calls : List HeapCall}
    {final : HeapRun} (started : kmallocInit before HEAP_START n = .ok heap)
    (rounded : (n + 4095) / PAGE_SIZE * PAGE_SIZE ≤ HEAP_MAX_SIZE)
    (reached : LabelledRun.exec heapStep { heap := heap, live := [] } calls = some final) :
    (∃ headers, Visits final.heap.mem final.heap.heapHead headers ∧
        headers.Pairwise (fun left right => left < right) ∧
        TilesTo final.heap.mem final.heap.heapEnd HEAP_START headers ∧
        (∀ hdr, hdr ∈ headers → FlagsAgree final.heap.mem hdr) ∧
        ∀ entry, entry ∈ final.live → ∀ hdr, hdr ∈ headers →
          entry.1 + entry.2 ≤ hdr ∨ hdr + HEADER_SIZE ≤ entry.1) ∧
      final.heap.heapEnd % PAGE_SIZE = 0 ∧
      final.heap.heapEnd - HEAP_START ≤ HEAP_MAX_SIZE ∧
      (∀ entry, entry ∈ final.live →
        HEAP_START ≤ entry.1 ∧ entry.1 + entry.2 ≤ final.heap.heapEnd) ∧
      final.live.Pairwise (fun left right =>
        left.1 + left.2 ≤ right.1 ∨ right.1 + right.2 ≤ left.1) ∧
      ∀ size, 0 < size → size < 2 ^ 63 →
        (∀ magic, kmalloc final.heap size ≠ .error (.heapCorruption magic)) ∧
          ((∃ granted, kmalloc final.heap size = .ok granted) ∨
            ∃ panic, kmalloc final.heap size = .error panic ∧ Panic.OfGrowth panic) := by
  obtain ⟨size, initial⟩ := kmallocInit_laid rounded started
  obtain ⟨blocks, invariant⟩ :=
    exec_heapInvariant ⟨initial, by simp, List.Pairwise.nil⟩ reached
  have laid := invariant.laid
  refine ⟨⟨headersOf HEAP_START blocks, ?_, headersOf_increasing _ _, ?_, ?_, ?_⟩,
    laid.aligned, laid.bounded, ?_, ?_, ?_⟩
  · rw [← laid.linkTo_head]
    exact laid.chain.visits (by decide)
  · rw [← laid.reaches]
    exact laid.chain.tilesTo
  · intro hdr member
    obtain ⟨⟨found, block⟩, placed, same⟩ := List.mem_map.mp member
    simp only at same
    subst same
    obtain ⟨next, header⟩ := laid.chain.header placed
    exact header.flagsAgree
  · intro entry live hdr member
    exact (invariant.owned entry live).apart_header member
  · intro entry live
    rw [← laid.reaches]
    exact (invariant.owned entry live).inside
  · apply invariant.distinct.imp_of_mem
    intro left right leftLive rightLive different
    exact (invariant.owned left leftLive).apart (invariant.owned right rightLive) different
  · intro size positive small
    rcases kmalloc_cases laid positive small with
      ⟨ptr, after, _, _, _, result, _⟩ | ⟨panic, result, growth⟩
    · refine ⟨?_, Or.inl ⟨(ptr, after), result⟩⟩
      intro magic corrupt
      rw [result] at corrupt
      cases corrupt
    · refine ⟨?_, Or.inr ⟨panic, result, growth⟩⟩
      intro magic corrupt
      rw [result] at corrupt
      cases corrupt
      rcases growth with limit | mapping
      · cases limit
      · cases mapping

def freshHeap : Heap :=
  { vmm := sampleVmm
    mem := fun _ => 0#8
    heapHead := 0
    heapEnd := 0
    heapInited := false }

/-- Two allocations, a release that merges nothing, a reuse of the freed block, a
growth, and a store into the second payload. -/
def freshHeapCalls : List HeapCall :=
  [.kmalloc 100, .kmalloc 200, .kfree 0xffff800100000018, .kmalloc 40, .kmalloc 5000,
    .store 0xffff8001000000a0 7#8]

theorem freshHeap_computes {Result : Type} {use : Heap → Option Result} {result : Result}
    (computed : (kmallocInit freshHeap HEAP_START 4096).toOption.bind use = some result) :
    ∃ heap, kmallocInit freshHeap HEAP_START 4096 = .ok heap ∧ use heap = some result := by
  cases started : kmallocInit freshHeap HEAP_START 4096 with
  | error panic =>
      rw [started] at computed
      cases computed
  | ok heap =>
      rw [started] at computed
      exact ⟨heap, rfl, computed⟩

theorem freshHeap_reaches {Result : Type} {use : Heap → Option Result}
    (reaches : ((kmallocInit freshHeap HEAP_START 4096).toOption.bind use).isSome = true) :
    ∃ heap result, kmallocInit freshHeap HEAP_START 4096 = .ok heap ∧
      use heap = some result := by
  obtain ⟨result, computed⟩ := Option.isSome_iff_exists.mp reaches
  obtain ⟨heap, started, found⟩ := freshHeap_computes computed
  exact ⟨heap, result, started, found⟩

theorem freshHeap_runs :
    ∃ heap final, kmallocInit freshHeap HEAP_START 4096 = .ok heap ∧
      LabelledRun.exec heapStep { heap := heap, live := [] } freshHeapCalls = some final :=
  freshHeap_reaches (by decide +kernel)

theorem freshHeap_block_list :
    ∃ heap final, kmallocInit freshHeap HEAP_START 4096 = .ok heap ∧
      LabelledRun.exec heapStep { heap := heap, live := [] } freshHeapCalls = some final ∧
      final.heap.heapEnd - HEAP_START ≤ HEAP_MAX_SIZE ∧
      final.live.Pairwise (fun left right =>
        left.1 + left.2 ≤ right.1 ∨ right.1 + right.2 ≤ left.1) := by
  obtain ⟨heap, final, started, reached⟩ := freshHeap_runs
  have invariant := heap_block_list_invariant started (by decide) reached
  exact ⟨heap, final, started, reached, invariant.2.2.1, invariant.2.2.2.2.1⟩

end CustomKernel.Memory
