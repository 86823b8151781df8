/-
The heap as a list of blocks.

What the allocator is for, without bytes: the window is a list of blocks of given sizes,
some used.  An allocation takes the first free block that is large enough and splits it,
or appends a block; a release frees a block and merges it with a free successor.  The
heap on byte memory does exactly this to its block list, and returns the same pointers
and panics, whatever the payloads hold.
-/

import CustomKernel.Memory.HeapInvariant

set_option autoImplicit false

namespace CustomKernel.Memory

structure BlockHeap where
  vmm : Vmm
  blocks : List Block

namespace BlockHeap

/-- Take the first free block that is large enough: the pointer and the new list. -/
def takeFirst (needed : Nat) : Nat → List Block → Option (Nat × List Block)
  | _, [] => none
  | addr, block :: rest =>
      if block.used = false ∧ needed ≤ block.size then
        some (addr + HEADER_SIZE, block.taken needed ++ rest)
      else
        match takeFirst needed (addr + block.width) rest with
        | none => none
        | some (ptr, blocks) => some (ptr, block :: blocks)

/-- The bytes a growth asks for, rounded up to the alignment. -/
def request (needed : Nat) : Nat := (needed + HEADER_SIZE + PAGE_SIZE + 15) / 16 * 16

def growth (needed : Nat) : Nat := request needed / PAGE_SIZE * PAGE_SIZE

def grow (heap : BlockHeap) (needed : Nat) : Except Panic BlockHeap :=
  let stop := blocksEnd HEAP_START heap.blocks
  if ¬ stop + request needed - HEAP_START ≤ HEAP_MAX_SIZE then .error .heapMaximumSize
  else
    match mapFreshPages heap.vmm stop (growth needed / PAGE_SIZE) with
    | .error panic => .error panic
    | .ok vmm =>
        .ok { vmm := vmm
              blocks := heap.blocks ++ [{ size := growth needed - HEADER_SIZE, used := false }] }

def kmalloc (heap : BlockHeap) (size : Nat) : Except Panic (Nat × BlockHeap) :=
  match takeFirst (alignUp size) HEAP_START heap.blocks with
  | some (ptr, blocks) => .ok (ptr, { heap with blocks := blocks })
  | none =>
      match heap.grow (alignUp size) with
      | .error panic => .error panic
      | .ok grown =>
          match takeFirst (alignUp size) HEAP_START grown.blocks with
          | some (ptr, blocks) => .ok (ptr, { grown with blocks := blocks })
          | none => .error .stepBound

def release (ptr : Nat) : Nat → List Block → List Block
  | _, [] => []
  | addr, block :: rest =>
      if ptr = addr + HEADER_SIZE then mergeFree { block with used := false } rest
      else block :: release ptr (addr + block.width) rest

def kfree (heap : BlockHeap) (ptr : Nat) : BlockHeap :=
  { heap with blocks := release ptr HEAP_START heap.blocks }

/-! ### The list operations at a given place -/

def Unfit (needed : Nat) (blocks : List Block) : Prop :=
  ∀ block, block ∈ blocks → block.used = true ∨ block.size < needed

theorem takeFirst_none {needed addr : Nat} {blocks : List Block} (unfit : Unfit needed blocks) :
    takeFirst needed addr blocks = none := by
  induction blocks generalizing addr with
  | nil => rfl
  | cons block rest ih =>
      have passed : ¬(block.used = false ∧ needed ≤ block.size) := by
        intro fits
        rcases unfit block (List.mem_cons_self ..) with used | small
        · rw [fits.1] at used
          cases used
        · omega
      rw [takeFirst, if_neg passed,
        ih (fun other member => unfit other (List.mem_cons_of_mem _ member))]

theorem takeFirst_found {needed addr : Nat} {before after : List Block} {block : Block}
    (unfit : Unfit needed before) (free : block.used = false) (large : needed ≤ block.size) :
    takeFirst needed addr (before ++ ([block] ++ after)) =
      some (blocksEnd addr before + HEADER_SIZE, before ++ (block.taken needed ++ after)) := by
  induction before generalizing addr with
  | nil => exact if_pos ⟨free, large⟩
  | cons first rest ih =>
      have passed : ¬(first.used = false ∧ needed ≤ first.size) := by
        intro fits
        rcases unfit first (List.mem_cons_self ..) with used | small
        · rw [fits.1] at used
          cases used
        · omega
      rw [List.cons_append, takeFirst, if_neg passed,
        ih (fun other member => unfit other (List.mem_cons_of_mem _ member))]
      rfl

theorem release_at {ptr addr : Nat} {before after : List Block} {block : Block}
    (here : ptr = blocksEnd addr before + HEADER_SIZE) :
    release ptr addr (before ++ ([block] ++ after)) =
      before ++ mergeFree { block with used := false } after := by
  induction before generalizing addr with
  | nil => exact if_pos here
  | cons first rest ih =>
      have later : addr + first.width ≤ blocksEnd (addr + first.width) rest :=
        Tiling.base_le_stop _ rest
      have place : ptr = blocksEnd (addr + first.width) rest + HEADER_SIZE := here
      have positive := first.width_pos
      rw [List.cons_append, release, if_neg (by omega), ih here]
      rfl

/-! ### Refinement -/

theorem growth_eq {needed : Nat} (small : needed < 2 ^ 63 + 16) :
    alignUp (Word64.add (Word64.add needed HEADER_SIZE) PAGE_SIZE) = request needed :=
  growth_exact small

theorem growth_le (needed : Nat) :
    growth needed ≤ request needed ∧ HEADER_SIZE + needed ≤ growth needed ∧
      request needed < needed + 2 ^ 13 := by
  unfold growth request PAGE_SIZE HEADER_SIZE
  omega

theorem grow_last {heap grown : BlockHeap} {needed : Nat} (grew : heap.grow needed = .ok grown) :
    ∃ last, grown.blocks = heap.blocks ++ [last] ∧ last.used = false ∧ needed ≤ last.size := by
  unfold grow at grew
  dsimp only at grew
  split at grew
  · cases grew
  · split at grew
    · cases grew
    · cases grew
      have enough := (growth_le needed).2.1
      exact ⟨_, rfl, rfl, by dsimp only; omega⟩

end BlockHeap

/-- The heap's bytes and statics hold the block list, over the same page tables. -/
structure Heap.Holds (heap : Heap) (abstract : BlockHeap) : Prop where
  laid : Laid heap abstract.blocks
  vmm : heap.vmm = abstract.vmm

/-- Both results are the same panic, or both are returned and related. -/
inductive Refines {Concrete Abstract : Type} (related : Concrete → Abstract → Prop) :
    Except Panic Concrete → Except Panic Abstract → Prop
  | panics (panic : Panic) : Refines related (.error panic) (.error panic)
  | returns (concrete : Concrete) (abstract : Abstract) (both : related concrete abstract) :
      Refines related (.ok concrete) (.ok abstract)

theorem Refines.cases {Concrete Abstract : Type} {related : Concrete → Abstract → Prop}
    {left : Except Panic Concrete} {right : Except Panic Abstract}
    (refines : Refines related left right) :
    (∃ panic, left = .error panic ∧ right = .error panic) ∨
      ∃ concrete abstract, left = .ok concrete ∧ right = .ok abstract ∧
        related concrete abstract := by
  cases refines with
  | panics panic => exact Or.inl ⟨panic, rfl, rfl⟩
  | returns concrete abstract both => exact Or.inr ⟨concrete, abstract, rfl, rfl, both⟩

def Grants (concrete : Nat × Heap) (abstract : Nat × BlockHeap) : Prop :=
  concrete.1 = abstract.1 ∧ concrete.2.Holds abstract.2

theorem Laid.expandHeap_mapped {heap : Heap} {blocks : List Block} {needed extra : Nat} {vmm : Vmm}
    (laid : Laid heap blocks)
    (size : alignUp (Word64.add (Word64.add needed HEADER_SIZE) PAGE_SIZE) = extra)
    (limit : Word64.sub (Word64.add heap.heapEnd extra) HEAP_START ≤ HEAP_MAX_SIZE)
    (mapped : mapFreshPages heap.vmm heap.heapEnd (extra / PAGE_SIZE) = .ok vmm) :
    ∃ grown, expandHeap heap needed = .ok grown := by
  obtain ⟨before, last, split⟩ := (List.eq_nil_or_concat blocks).resolve_left laid.nonempty
  rw [List.concat_eq_append] at split
  subst split
  simp only [expandHeap, size, if_neg (not_not.mpr limit), mapped, ok_bind]
  rw [laid.lastBlock_eq]
  exact ⟨_, rfl⟩

section

variable {heap : Heap} {abstract : BlockHeap}

theorem Heap.Holds.limit (holds : heap.Holds abstract) {extra : Nat}
    (small : extra < 2 ^ 63 + 2 ^ 13 + 16) :
    Word64.sub (Word64.add heap.heapEnd extra) HEAP_START =
      blocksEnd HEAP_START abstract.blocks + extra - HEAP_START := by
  have words : Word64.modulus = 2 ^ 64 := rfl
  have largest : HEAP_MAX_SIZE = 67108864 := rfl
  have start := holds.laid.start_le
  have stop := holds.laid.end_le
  rw [holds.laid.reaches]
  exact Word64.sub_add_eq (by omega) (by omega)

theorem Heap.Holds.expandHeap (holds : heap.Holds abstract) {needed : Nat}
    (small : needed < 2 ^ 63 + 16) :
    Refines Heap.Holds (expandHeap heap needed) (abstract.grow needed) := by
  have words : Word64.modulus = 2 ^ 64 := rfl
  have size := BlockHeap.growth_eq small
  have bounds := BlockHeap.growth_le needed
  have limit := holds.limit (by omega : BlockHeap.request needed < 2 ^ 63 + 2 ^ 13 + 16)
  have pages : BlockHeap.growth needed / PAGE_SIZE = BlockHeap.request needed / PAGE_SIZE :=
    Nat.mul_div_cancel _ (Nat.zero_lt_succ _)
  have spanned : BlockHeap.request needed / PAGE_SIZE * PAGE_SIZE = BlockHeap.growth needed := rfl
  have reaches : blocksEnd HEAP_START abstract.blocks = heap.heapEnd := holds.laid.reaches
  unfold BlockHeap.grow
  dsimp only
  rw [← limit, pages, ← holds.vmm, reaches]
  generalize BlockHeap.request needed = extra at size limit pages spanned bounds ⊢
  by_cases accepted : Word64.sub (Word64.add heap.heapEnd extra) HEAP_START ≤ HEAP_MAX_SIZE
  · rw [if_neg (not_not.mpr accepted)]
    cases mapped : mapFreshPages heap.vmm heap.heapEnd (extra / PAGE_SIZE) with
    | error panic =>
        have failed : Memory.expandHeap heap needed = .error panic := by
          simp only [Memory.expandHeap, size, if_neg (not_not.mpr accepted), mapped]
          rfl
        rw [failed]
        exact .panics panic
    | ok vmm =>
        obtain ⟨grown, expanded⟩ := holds.laid.expandHeap_mapped size accepted mapped
        obtain ⟨span, spanEq, _, mappedSame, _⟩ := expandHeap_ok expanded
        rw [size] at spanEq
        subst spanEq
        rw [mapped] at mappedSame
        rw [expanded]
        refine .returns grown _ ⟨?_, (Except.ok.inj mappedSame).symm⟩
        have positive : 0 < extra / PAGE_SIZE := by
          apply Nat.pos_of_ne_zero
          intro none_
          have header : HEADER_SIZE = 24 := rfl
          rw [none_, Nat.zero_mul] at spanned
          omega
        have fits : heap.heapEnd + extra / PAGE_SIZE * PAGE_SIZE ≤ HEAP_START + HEAP_MAX_SIZE := by
          rw [limit, reaches] at accepted
          omega
        have appended := holds.laid.expandHeap_span expanded (by rw [size]) positive fits
        rw [spanned] at appended
        exact appended
  · rw [if_pos accepted]
    have failed : Memory.expandHeap heap needed = .error .heapMaximumSize := by
      simp only [Memory.expandHeap, size, if_pos accepted]
    rw [failed]
    exact .panics _

theorem Heap.Holds.take (holds : heap.Holds abstract) {size calls : Nat} (positive : 0 < size)
    {before behind : List Block} {block : Block}
    (split : abstract.blocks = before ++ ([block] ++ behind)) (free : block.used = false)
    (large : alignUp size ≤ block.size) (unfit : BlockHeap.Unfit (alignUp size) before)
    (found : findBlock heap.mem (alignUp size) LIST_STEPS heap.heapHead =
      .ok (some (blocksEnd HEAP_START before))) :
    ∃ ptr blocks, BlockHeap.takeFirst (alignUp size) HEAP_START abstract.blocks =
        some (ptr, blocks) ∧
      Refines Grants (kmallocWithin (calls + 1) heap size)
        (.ok (ptr, { abstract with blocks := blocks })) := by
  have laid := holds.laid
  rw [split] at laid ⊢
  obtain ⟨result, after⟩ := @kmallocWithin_found _ _ _ _ _ calls laid positive large found
  rw [BlockHeap.takeFirst_found unfit free large]
  refine ⟨_, _, rfl, ?_⟩
  rw [result]
  exact .returns _ _ ⟨rfl, after, holds.vmm⟩

theorem Heap.Holds.kmalloc (holds : heap.Holds abstract) {size : Nat} (positive : 0 < size)
    (small : size < 2 ^ 63) :
    Refines Grants (kmalloc heap size) (abstract.kmalloc size) := by
  have words : Word64.modulus = 2 ^ 64 := rfl
  have rounded := le_alignUp (by unfold ALIGN; omega : size + ALIGN < Word64.modulus)
  have search {current : Heap} {list : BlockHeap} (currentHolds : current.Holds list) :=
    @findBlock_spec _ _ (alignUp size) _ _ currentHolds.laid.chain (by decide)
      currentHolds.laid.length_lt
  rw [Memory.kmalloc, BlockHeap.kmalloc]
  rcases search holds with
    ⟨absent, unfit⟩ | ⟨before, block, behind, split, free, large, unfit, found⟩
  · rw [holds.laid.linkTo_head] at absent
    rw [kmallocWithin_none holds.laid.inited positive absent, BlockHeap.takeFirst_none unfit]
    rcases (holds.expandHeap (by omega : alignUp size < 2 ^ 63 + 16)).cases with
      ⟨panic, failed, same⟩ | ⟨grown, list, expanded, grew, grownHolds⟩
    · rw [failed, same]
      exact .panics panic
    · rw [expanded, grew, ok_bind]
      have last := BlockHeap.grow_last grew
      rcases search grownHolds with
        ⟨_, unfit⟩ | ⟨before, block, behind, split, free, large, unfit, found⟩
      · -- the appended block is large enough
        obtain ⟨appended, blocks, free, enough⟩ := last
        rcases unfit appended (by rw [blocks]; simp) with used | small
        · rw [free] at used
          cases used
        · omega
      · rw [grownHolds.laid.linkTo_head] at found
        obtain ⟨ptr, blocks, taken, granted⟩ :=
          @Heap.Holds.take _ _ grownHolds _ 0 positive _ _ _ split free large unfit found
        dsimp only
        rw [taken]
        exact granted
  · rw [holds.laid.linkTo_head] at found
    obtain ⟨ptr, blocks, taken, granted⟩ :=
      @Heap.Holds.take _ _ holds _ 1 positive _ _ _ split free large unfit found
    rw [taken]
    exact granted

theorem Heap.Holds.kfree (holds : heap.Holds abstract) {ptr size : Nat}
    (owned : Owned abstract.blocks ptr size) :
    ∃ released, Memory.kfree heap ptr = .ok released ∧ released.Holds (abstract.kfree ptr) := by
  obtain ⟨hdr, block, placed, ptrEq, used, _⟩ := owned
  obtain ⟨before, after, split, hdrEq⟩ := Tiling.placed_split placed
  have blocks : abstract.blocks = before ++ ([block] ++ after) := split
  have address : ptr = blocksEnd HEAP_START before + HEADER_SIZE := ptrEq.trans (by rw [hdrEq])
  have laid := holds.laid
  rw [blocks] at laid
  obtain ⟨released, result, after⟩ := kfree_used laid used
  rw [← address] at result
  refine ⟨released, result, ?_, ?_⟩
  · rw [BlockHeap.kfree, blocks, BlockHeap.release_at address]
    exact after
  · obtain ⟨mem, same⟩ := kfree_memory result
    rw [same]
    exact holds.vmm

end

end CustomKernel.Memory
