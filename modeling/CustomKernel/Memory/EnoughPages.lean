/-
Mappings that succeed.

A mapping fails only when the page allocator is empty.  A call of `map_page` takes at most the
three tables on its path, and pages that share a page table take no further one, so the number
of free pages tells beforehand that a whole range can be mapped.  For a single page below an
existing page directory it tells exactly when the mapping fails.
-/

import CustomKernel.Memory.HeapInvariant
import CustomKernel.Memory.TakenPages

set_option autoImplicit false

namespace CustomKernel.Memory

/-! ### Pages that a call may take -/

/-- The bitmap covers the pages, and at most `bound` of the free ones are gone. -/
structure Pmm.Spends (before : Pmm) (bound : Nat) (after : Pmm) : Prop where
  covered : after.totalPages ≤ after.bitmapLen * 8
  left : before.freePages ≤ after.freePages + bound

theorem Pmm.Spends.trans {first second third : Pmm} {early late : Nat}
    (left : first.Spends early second) (right : second.Spends late third) :
    first.Spends (early + late) third where
  covered := right.covered
  left := by
    have before := left.left
    have behind := right.left
    omega

theorem allocPage_succeeds {pmm : Pmm} (covered : pmm.totalPages ≤ pmm.bitmapLen * 8)
    (available : 0 < pmm.freePages) :
    ∃ page after, allocPage pmm = (some (Word64.mul page PAGE_SIZE), after) ∧
      pmm.Spends 1 after := by
  obtain ⟨page, after, taken, spent, length⟩ := allocPage_progress covered available
  refine ⟨page, after, taken, ?_, Nat.le_of_eq spent.symm⟩
  rw [(allocPage_onlyTakes taken).totalPages, length]
  exact covered

variable {vmm : Vmm}

theorem nextTableOrCreate_succeeds (covered : vmm.pmm.totalPages ≤ vmm.pmm.bitmapLen * 8)
    (available : 0 < vmm.pmm.freePages) (table idx : Nat) :
    ∃ next after, nextTableOrCreate vmm table idx = .ok (next, after) ∧
      vmm.pmm.Spends 1 after.pmm := by
  unfold nextTableOrCreate
  by_cases present : isPresent (readVolatile vmm (tableAdd table idx)) = true
  · refine ⟨_, vmm, if_pos present, covered, Nat.le_succ _⟩
  · obtain ⟨page, pmm, taken, spends⟩ := allocPage_succeeds covered available
    dsimp only
    rw [if_neg present, taken]
    exact ⟨_, _, rfl, spends⟩

theorem mapPage_succeeds {virt phys : Nat} (flags : BitVec 64)
    (virtAligned : virt % PAGE_SIZE = 0) (physAligned : phys % PAGE_SIZE = 0)
    (covered : vmm.pmm.totalPages ≤ vmm.pmm.bitmapLen * 8) (available : 3 ≤ vmm.pmm.freePages) :
    ∃ after, mapPage vmm virt phys flags = .ok after ∧ vmm.pmm.Spends 3 after.pmm := by
  obtain ⟨pdpt, first, pdptStep, early⟩ :=
    nextTableOrCreate_succeeds covered (by omega) (pml4Pointer vmm) (pml4Idx virt)
  have leftEarly := early.left
  obtain ⟨pd, second, pdStep, middle⟩ :=
    nextTableOrCreate_succeeds early.covered (by omega) pdpt (pdptIdx virt)
  have leftMiddle := middle.left
  obtain ⟨pt, third, ptStep, late⟩ :=
    nextTableOrCreate_succeeds middle.covered (by omega) pd (pdIdx virt)
  refine ⟨writeVolatile third (tableAdd pt (ptIdx virt)) (BitVec.ofNat 64 phys ||| flags |||
    PTE_PRESENT), ?_, (early.trans middle).trans late⟩
  unfold mapPage
  rw [if_neg (not_not.mpr virtAligned), if_neg (not_not.mpr physAligned)]
  simp only [splitIndices, pdptStep, pdStep, ptStep, ok_bind]
  rfl

theorem mapFreshPage_succeeds {virt i : Nat}
    (aligned : Word64.add virt (Word64.mul i PAGE_SIZE) % PAGE_SIZE = 0)
    (covered : vmm.pmm.totalPages ≤ vmm.pmm.bitmapLen * 8) (available : 4 ≤ vmm.pmm.freePages) :
    ∃ after, mapFreshPage virt vmm i = .ok after ∧ vmm.pmm.Spends 4 after.pmm := by
  obtain ⟨page, pmm, taken, first⟩ := allocPage_succeeds covered (by omega)
  have frame : Word64.mul page PAGE_SIZE % PAGE_SIZE = 0 := by
    unfold Word64.mul PAGE_SIZE Word64.modulus
    omega
  have left := first.left
  obtain ⟨after, mapped, rest⟩ := @mapPage_succeeds { vmm with pmm := pmm } _ _
    (PTE_PRESENT ||| PTE_WRITABLE ||| PTE_NO_EXEC) aligned frame first.covered
    (by change 3 ≤ pmm.freePages; omega)
  refine ⟨after, ?_, first.trans rest⟩
  unfold mapFreshPage
  rw [taken]
  exact mapped

/-! ### A range below one page table -/

theorem mapFreshPages_cons {virt n : Nat} (fits : virt + (n + 1) * PAGE_SIZE < Word64.modulus) :
    mapFreshPages vmm virt (n + 1) =
      mapFreshPage virt vmm 0 >>= fun middle => mapFreshPages middle (virt + PAGE_SIZE) n := by
  have shifted (i : Nat) (below : i < n) (current : Vmm) :
      mapFreshPage virt current (i + 1) = mapFreshPage (virt + PAGE_SIZE) current i := by
    have bound : i * PAGE_SIZE < n * PAGE_SIZE := Nat.mul_lt_mul_of_pos_right below (by decide)
    rw [Nat.succ_mul] at fits
    have here : Word64.add virt (Word64.mul (i + 1) PAGE_SIZE) = virt + (i + 1) * PAGE_SIZE :=
      freshAddress (by rw [Nat.succ_mul]; omega)
    have there : Word64.add (virt + PAGE_SIZE) (Word64.mul i PAGE_SIZE) =
        virt + PAGE_SIZE + i * PAGE_SIZE := freshAddress (by omega)
    have same : virt + (i + 1) * PAGE_SIZE = virt + PAGE_SIZE + i * PAGE_SIZE := by
      rw [Nat.succ_mul]
      omega
    unfold mapFreshPage
    rw [here, there, same]
  have others (pages : List Nat) (inside : ∀ i ∈ pages, i < n) (current : Vmm) :
      (pages.map Nat.succ).foldlM (mapFreshPage virt) current =
        pages.foldlM (mapFreshPage (virt + PAGE_SIZE)) current := by
    induction pages generalizing current with
    | nil => rfl
    | cons i rest ih =>
        rw [List.map_cons, List.foldlM_cons, List.foldlM_cons, Nat.succ_eq_add_one,
          shifted i (inside i (List.mem_cons_self ..))]
        congr 1
        funext next
        exact ih (fun later member => inside later (List.mem_cons_of_mem _ member)) next
  unfold mapFreshPages
  rw [List.range_succ_eq_map, List.foldlM_cons]
  congr 1
  funext middle
  exact others _ (fun i member => List.mem_range.mp member) middle

theorem pathOf_region {virt offset : Nat} (aligned : virt % 2 ^ 21 = 0) (small : offset < 2 ^ 21) :
    pathOf (virt + offset) = pathOf virt := by
  have pd : (virt + offset) >>> 21 = virt >>> 21 := by
    rw [Nat.shiftRight_eq_div_pow, Nat.shiftRight_eq_div_pow]
    omega
  have pdpt : (virt + offset) >>> 30 = virt >>> 30 := by
    rw [Nat.shiftRight_eq_div_pow, Nat.shiftRight_eq_div_pow]
    omega
  have pml4 : (virt + offset) >>> 39 = virt >>> 39 := by
    rw [Nat.shiftRight_eq_div_pow, Nat.shiftRight_eq_div_pow]
    omega
  unfold pathOf pdIdx pdptIdx pml4Idx
  rw [pd, pdpt, pml4]

theorem mapFreshPage_table {after : Vmm} {virt i address : Nat} (managed : vmm.Managed)
    (addressEq : Word64.add virt (Word64.mul i PAGE_SIZE) = address)
    (noLarge : NoLargePage vmm address) (mapped : mapFreshPage virt vmm i = .ok after) :
    after.Managed ∧ ∃ table, tableAt after (pathOf address) = some table := by
  obtain ⟨page, pmm, _, free, _, only, mapped⟩ := mapFreshPage_ok mapped
  rw [addressEq] at mapped
  obtain ⟨third, table, thirdManaged, _, _, _, reached, rfl⟩ :=
    mapPage_tables (managed.allocated only) noLarge mapped
  have written := writeLeaf_spec
    (leafEntry (Word64.mul page PAGE_SIZE) (PTE_PRESENT ||| PTE_WRITABLE ||| PTE_NO_EXEC))
    thirdManaged reached rfl (ptIdx_lt address)
  refine ⟨written.1, table, ?_⟩
  rw [writeLeaf_tables thirdManaged reached rfl (ptIdx_lt address)]
  exact reached

/-- Up to 512 pages from the beginning of a region take three tables at most. -/
theorem mapFreshPages_succeeds {virt n : Nat} (managed : vmm.Managed)
    (covered : vmm.pmm.totalPages ≤ vmm.pmm.bitmapLen * 8) (aligned : virt % 2 ^ 21 = 0)
    (fits : virt + (n + 1) * PAGE_SIZE < Word64.modulus) (small : n < 512)
    (noLarge : NoLargePage vmm virt) (available : n + 4 ≤ vmm.pmm.freePages) :
    ∃ after, mapFreshPages vmm virt (n + 1) = .ok after ∧ after.Managed ∧
      vmm.pmm.Spends (n + 4) after.pmm := by
  have pages : PAGE_SIZE = 4096 := rfl
  have start : Word64.add virt (Word64.mul 0 PAGE_SIZE) = virt := by
    have below : virt + 0 * PAGE_SIZE ≤ virt + (n + 1) * PAGE_SIZE :=
      Nat.add_le_add_left (Nat.mul_le_mul_right _ (Nat.zero_le _)) _
    have same := freshAddress (Nat.lt_of_le_of_lt below fits)
    rw [Nat.zero_mul, Nat.add_zero] at same
    exact same
  have onPage : virt % PAGE_SIZE = 0 := by
    rw [pages]
    omega
  obtain ⟨middle, first, spends⟩ := @mapFreshPage_succeeds vmm virt 0 (by rw [start]; exact onPage)
    covered (by omega)
  obtain ⟨middleManaged, table, reached⟩ := mapFreshPage_table managed start noLarge first
  have left := spends.left
  have ready : middle.Ready (tableAt middle) (middle.pmm.freePages - n + n) :=
    { managed := middleManaged
      tables := fun _ => rfl
      covered := spends.covered
      available := by omega }
  obtain ⟨after, rest, last⟩ := @Vmm.Ready.mapFreshPages middle _ _ (virt + PAGE_SIZE) n ready
    (by rw [Nat.succ_mul] at fits; omega) (by rw [Nat.add_mod_right]; exact onPage)
    (fun i below => by
      refine ⟨table, ?_⟩
      rw [Nat.add_assoc, pathOf_region aligned (by rw [pages]; omega)]
      exact reached)
  refine ⟨after, ?_, last.managed, last.covered, ?_⟩
  · rw [mapFreshPages_cons fits, first]
    exact rest
  · have remaining := last.available
    omega

/-! ### A single page below an existing page directory -/

/-- No free frame, or a single one where the page table is missing too. -/
def FramesShort (vmm : Vmm) (virt : Nat) : Prop :=
  vmm.pmm.available = 0 ∨ vmm.pmm.available = 1 ∧ isPresent (pdEntry vmm virt) = false

/-- Below an existing page directory, `map_page` fails only for want of a page table. -/
theorem mapPage_error_iff {virt phys : Nat} (flags : BitVec 64) (virtAligned : virt % PAGE_SIZE = 0)
    (physAligned : phys % PAGE_SIZE = 0) (pml4 : isPresent (pml4Entry vmm virt) = true)
    (pdpt : isPresent (pdptEntry vmm virt) = true) :
    (∃ panic, mapPage vmm virt phys flags = .error panic) ↔
      vmm.pmm.available = 0 ∧ isPresent (pdEntry vmm virt) = false := by
  have first : nextTableOrCreate vmm (pml4Pointer vmm) (pml4Idx virt) =
      .ok (physToVirt vmm (entryAddr (pml4Entry vmm virt)), vmm) :=
    nextTableOrCreate_present (entryAddr_isFrame _) (pml4Idx_lt virt) pml4
  have second : nextTableOrCreate vmm (physToVirt vmm (entryAddr (pml4Entry vmm virt)))
      (pdptIdx virt) = .ok (physToVirt vmm (entryAddr (pdptEntry vmm virt)), vmm) :=
    nextTableOrCreate_present (entryAddr_isFrame _) (pdptIdx_lt virt) pdpt
  have entry : readVolatile vmm (tableAdd (physToVirt vmm (entryAddr (pdptEntry vmm virt)))
      (pdIdx virt)) = pdEntry vmm virt :=
    readVolatile_table (entryAddr_isFrame _) (pdIdx_lt virt)
  unfold mapPage
  rw [if_neg (not_not.mpr virtAligned), if_neg (not_not.mpr physAligned)]
  simp only [splitIndices, first, second, ok_bind]
  unfold nextTableOrCreate
  rw [entry]
  dsimp only
  by_cases present : isPresent (pdEntry vmm virt) = true
  · rw [if_pos present, present]
    constructor
    · rintro ⟨panic, impossible⟩
      cases impossible
    · intro short
      cases short.2
  · rw [if_neg present]
    by_cases none_ : vmm.pmm.available = 0
    · rw [allocPage_exhausted none_]
      constructor
      · intro _
        exact ⟨none_, Bool.eq_false_of_not_eq_true present⟩
      · intro _
        exact ⟨_, rfl⟩
    · obtain ⟨page, pmm, taken, _⟩ := allocPage_takes (Nat.pos_of_ne_zero none_)
      rw [taken]
      constructor
      · rintro ⟨panic, impossible⟩
        cases impossible
      · intro short
        exact absurd short.1 none_

theorem mapFreshPages_one_error_iff {virt : Nat} (aligned : virt % PAGE_SIZE = 0)
    (word : virt < Word64.modulus) (pml4 : isPresent (pml4Entry vmm virt) = true)
    (pdpt : isPresent (pdptEntry vmm virt) = true) :
    (∃ panic, mapFreshPages vmm virt 1 = .error panic) ↔ FramesShort vmm virt := by
  have address : Word64.add virt (Word64.mul 0 PAGE_SIZE) = virt := by
    have same := @freshAddress virt 0 (by omega)
    rw [Nat.zero_mul, Nat.add_zero] at same
    exact same
  have single : mapFreshPages vmm virt 1 = mapFreshPage virt vmm 0 := by
    change (mapFreshPage virt vmm 0 >>= fun after => pure after) = mapFreshPage virt vmm 0
    exact bind_pure _
  rw [single]
  unfold mapFreshPage FramesShort
  rw [address]
  by_cases none_ : vmm.pmm.available = 0
  · rw [allocPage_exhausted none_]
    constructor
    · intro _
      exact Or.inl none_
    · intro _
      exact ⟨_, rfl⟩
  · obtain ⟨page, pmm, taken, spent, _⟩ := allocPage_takes (Nat.pos_of_ne_zero none_)
    have frame : Word64.mul page PAGE_SIZE % PAGE_SIZE = 0 := by
      unfold Word64.mul PAGE_SIZE Word64.modulus
      omega
    have rest := @mapPage_error_iff { vmm with pmm := pmm } virt _
      (PTE_PRESENT ||| PTE_WRITABLE ||| PTE_NO_EXEC) aligned frame pml4 pdpt
    have entry : pdEntry { vmm with pmm := pmm } virt = pdEntry vmm virt := rfl
    rw [entry] at rest
    rw [taken]
    dsimp only
    rw [rest]
    constructor
    · rintro ⟨last, absent⟩
      have one : vmm.pmm.available = 1 := by
        rw [← spent, last]
      exact Or.inr ⟨one, absent⟩
    · rintro (impossible | ⟨one, absent⟩)
      · exact absurd impossible none_
      · refine ⟨?_, absent⟩
        change pmm.available = 0
        omega

/-! ### The allocator in between -/

theorem mapPage_draws {after : Vmm} {virt phys : Nat} {flags : BitVec 64}
    (mapped : mapPage vmm virt phys flags = .ok after) : vmm.pmm.Draws after.pmm := by
  obtain ⟨_, pdpt, first, pd, second, pt, third, pdptStep, pdStep, ptStep, rfl⟩ :=
    mapPage_steps mapped
  have late := nextTableOrCreate_draws ptStep
  exact ((nextTableOrCreate_draws pdptStep).trans (nextTableOrCreate_draws pdStep)).trans late

theorem mapFreshPages_draws {after : Vmm} {virt n : Nat}
    (mapped : mapFreshPages vmm virt n = .ok after) : vmm.pmm.Draws after.pmm := by
  apply @mapFreshPages_induction (fun current _ => vmm.pmm.Draws current.pmm) _ _ _ _ _
    (Pmm.Draws.refl _) mapped
  intro current next i _ before step
  obtain ⟨page, pmm, taken, _, _, _, mapped⟩ := mapFreshPage_ok step
  exact before.trans ((allocPage_draws taken).trans (mapPage_draws mapped))

theorem kmallocInit_succeeds {heap : Heap} {sizeBytes n : Nat} (first : heap.heapInited = false)
    (large : HEADER_SIZE + ALIGN < sizeBytes) (managed : heap.vmm.Managed)
    (covered : heap.vmm.pmm.totalPages ≤ heap.vmm.pmm.bitmapLen * 8)
    (noLarge : NoLargePage heap.vmm HEAP_START) (pages : pagesFor sizeBytes = n + 1)
    (small : n < 512) (available : n + 4 ≤ heap.vmm.pmm.freePages) :
    ∃ after, kmallocInit heap HEAP_START sizeBytes = .ok after ∧ after.vmm.Managed ∧
      heap.vmm.pmm.Draws after.vmm.pmm ∧ heap.vmm.pmm.Spends (n + 4) after.vmm.pmm := by
  have fits : HEAP_START + (n + 1) * PAGE_SIZE < Word64.modulus := by
    unfold HEAP_START PAGE_SIZE Word64.modulus
    omega
  have aligned : HEAP_START % 2 ^ 21 = 0 := by decide
  obtain ⟨vmm, mapped, after, spends⟩ :=
    mapFreshPages_succeeds managed covered aligned fits small noLarge available
  have draws := mapFreshPages_draws mapped
  have onPage : ¬ HEAP_START % PAGE_SIZE ≠ 0 := by decide
  unfold kmallocInit
  rw [first, if_neg Bool.false_ne_true, if_neg onPage, if_neg (not_not.mpr large), pages]
  dsimp only
  rw [mapped]
  exact ⟨_, rfl, after, draws, spends⟩

end CustomKernel.Memory
