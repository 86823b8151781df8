/-
Backing addresses with fresh frames.

`map_fresh_pages` takes one page for each address and maps it, and mapping may take up
to three more pages for tables.  Each address gets a page that was free before and that
is neither a table nor handed out again; every other address keeps its frame, and every
page in use stays what it was.
-/

import CustomKernel.Memory.Heap
import CustomKernel.Memory.PageMapping

set_option autoImplicit false

namespace CustomKernel.Memory

/-! ### Pages spent -/

theorem nextTableOrCreate_onlyTakes {vmm after : Vmm} {table slot next : Nat}
    (result : nextTableOrCreate vmm table slot = .ok (next, after)) :
    vmm.pmm.OnlyTakes after.pmm := by
  simp only [nextTableOrCreate] at result
  split at result
  · cases result
    exact Pmm.OnlyTakes.refl _
  · split at result
    · cases result
    · rename_i taken
      cases result
      exact allocPage_onlyTakes taken

theorem mapPage_onlyTakes {vmm after : Vmm} {virt phys : Nat} {flags : BitVec 64}
    (mapped : mapPage vmm virt phys flags = .ok after) : vmm.pmm.OnlyTakes after.pmm := by
  obtain ⟨_, pdpt, first, pd, second, pt, third, pdptStep, pdStep, ptStep, afterEq⟩ :=
    mapPage_steps mapped
  have early := (nextTableOrCreate_onlyTakes pdptStep).trans (nextTableOrCreate_onlyTakes pdStep)
  have whole := early.trans (nextTableOrCreate_onlyTakes ptStep)
  subst afterEq
  exact whole

theorem mapFreshPage_ok {vmm after : Vmm} {virt i : Nat}
    (mapped : mapFreshPage virt vmm i = .ok after) :
    ∃ page pmm, allocPage vmm.pmm = (some (Word64.mul page PAGE_SIZE), pmm) ∧
      vmm.pmm.Free page ∧ isUsed pmm page = true ∧ vmm.pmm.OnlyTakes pmm ∧
      mapPage { vmm with pmm := pmm } (Word64.add virt (Word64.mul i PAGE_SIZE))
        (Word64.mul page PAGE_SIZE) (PTE_PRESENT ||| PTE_WRITABLE ||| PTE_NO_EXEC) = .ok after := by
  unfold mapFreshPage at mapped
  split at mapped
  · cases mapped
  · rename_i phys pmm taken
    obtain ⟨page, address, free, _, used⟩ := allocPage_some taken
    subst address
    exact ⟨page, pmm, taken, free, by rw [used]; simp, allocPage_onlyTakes taken, mapped⟩

theorem mapFreshPage_spends {vmm after : Vmm} {virt i : Nat}
    (mapped : mapFreshPage virt vmm i = .ok after) :
    after.pmm.freePages + 1 ≤ vmm.pmm.freePages := by
  obtain ⟨page, pmm, _, free, used, only, mapped⟩ := mapFreshPage_ok mapped
  have rest : pmm.OnlyTakes after.pmm := mapPage_onlyTakes mapped
  exact (only.trans rest).freePages_lt free (rest.used page used)

theorem mapFreshPages_succ {vmm after : Vmm} {virt nPages : Nat}
    (mapped : mapFreshPages vmm virt (nPages + 1) = .ok after) :
    ∃ middle, mapFreshPages vmm virt nPages = .ok middle ∧
      mapFreshPage virt middle nPages = .ok after := by
  unfold mapFreshPages at mapped
  rw [List.range_succ, List.foldlM_append] at mapped
  obtain ⟨middle, first, last⟩ := bind_eq_ok.mp mapped
  obtain ⟨next, mappedLast, same⟩ := bind_eq_ok.mp last
  cases same
  exact ⟨middle, first, mappedLast⟩

/-- The run rule of the mapping loop, for a property that follows the address. -/
theorem mapFreshPages_induction {property : Vmm → Nat → Prop} {vmm after : Vmm}
    {virt nPages : Nat}
    (step : ∀ current next i, i < nPages → property current i →
      mapFreshPage virt current i = .ok next → property next (i + 1))
    (initial : property vmm 0) (mapped : mapFreshPages vmm virt nPages = .ok after) :
    property after nPages := by
  induction nPages generalizing after with
  | zero =>
      cases mapped
      exact initial
  | succ nPages ih =>
      obtain ⟨middle, first, last⟩ := mapFreshPages_succ mapped
      have before := ih (fun current next i below => step current next i (Nat.lt_succ_of_lt below))
        first
      exact step middle after nPages (Nat.lt_succ_self _) before last

theorem mapFreshPages_spends {vmm after : Vmm} {virt nPages : Nat}
    (mapped : mapFreshPages vmm virt nPages = .ok after) :
    after.pmm.freePages + nPages ≤ vmm.pmm.freePages := by
  apply @mapFreshPages_induction
    (fun current i => current.pmm.freePages + i ≤ vmm.pmm.freePages) _ _ _ _ _ (Nat.le_refl _)
    mapped
  intro current next i _ before step
  have head := mapFreshPage_spends step
  omega

/-! ### Pages in use -/

structure DataPage (vmm : Vmm) (phys : Nat) : Prop where
  taken : vmm.pmm.Taken phys
  noTable : ∀ path, tableAt vmm path ≠ some phys

theorem DataPage.kept {vmm after : Vmm} {phys : Nat} (data : DataPage vmm phys)
    (took : TookTables vmm after) : DataPage after phys where
  taken := took.pmm.taken data.taken
  noTable path reached := by
    rcases took.tables path phys reached with old | ⟨page, address, free⟩
    · exact data.noTable path old
    · obtain ⟨other, same, _, used⟩ := data.taken
      rw [page_eq_of_address (same.symm.trans address), free.2] at used
      cases used

theorem TookTables.allocated {vmm : Vmm} {pmm : Pmm} (only : vmm.pmm.OnlyTakes pmm) :
    TookTables vmm { vmm with pmm := pmm } where
  pmm := only
  tables _ _ reached := Or.inl reached

theorem Vmm.Managed.allocated {vmm : Vmm} {pmm : Pmm} (managed : vmm.Managed)
    (only : vmm.pmm.OnlyTakes pmm) : Vmm.Managed { vmm with pmm := pmm } where
  tree := managed.tree
  fresh page free := managed.fresh page (only.free free)
  physical := by
    rw [only.totalPages]
    exact managed.physical

theorem Vmm.Managed.page_address {vmm : Vmm} (managed : vmm.Managed) {page : Nat}
    (free : vmm.pmm.Free page) :
    Word64.mul page PAGE_SIZE = page * PAGE_SIZE ∧ page * PAGE_SIZE < 2 ^ 52 := by
  have tracked := free.1
  have physical := managed.physical
  have small : page * PAGE_SIZE < 2 ^ 52 := by
    unfold PAGE_SIZE at *
    omega
  refine ⟨Word64.mul_eq ?_, small⟩
  unfold Word64.modulus
  omega

theorem Vmm.Managed.allocated_data {vmm : Vmm} {pmm : Pmm} {page : Nat} (managed : vmm.Managed)
    (only : vmm.pmm.OnlyTakes pmm) (free : vmm.pmm.Free page) (used : isUsed pmm page = true) :
    DataPage { vmm with pmm := pmm } (page * PAGE_SIZE) where
  taken := ⟨page, rfl, by rw [only.totalPages]; exact free.1, used⟩
  noTable path := managed.fresh page free path

/-! ### One address -/

structure Backed (vmm : Vmm) (virt phys : Nat) (after : Vmm) : Prop where
  wasFree : ∃ page, phys = page * PAGE_SIZE ∧ vmm.pmm.Free page
  data : DataPage after phys
  managed : after.Managed
  frames : ∀ other, Canonical other → frameOf after other =
    if other / PAGE_SIZE = virt / PAGE_SIZE then some phys else frameOf vmm other
  noLarge : ∀ other, NoLargePage vmm other → NoLargePage after other
  took : TookTables vmm after

theorem mapPage_frames {vmm after : Vmm} {virt phys : Nat} {flags : BitVec 64}
    (managed : vmm.Managed) (canonical : Canonical virt) (noLarge : NoLargePage vmm virt)
    (small : phys < 2 ^ 52) (subset : PteFlags flags)
    (mapped : mapPage vmm virt phys flags = .ok after) :
    after.Managed ∧
      (∀ other, Canonical other → frameOf after other =
        if other / PAGE_SIZE = virt / PAGE_SIZE then some phys else frameOf vmm other) ∧
      (∀ other, NoLargePage vmm other → NoLargePage after other) ∧ TookTables vmm after := by
  have initial := represents_initial vmm
  obtain ⟨stillManaged, represents, kept, took⟩ :=
    mapPage_represents managed initial canonical noLarge small subset mapped
  refine ⟨stillManaged, ?_, kept, took⟩
  intro other otherCanonical
  rw [represents other otherCanonical]
  by_cases same : other / PAGE_SIZE = virt / PAGE_SIZE
  · rw [if_pos same, same, Function.update_self]
  · rw [if_neg same, Function.update_of_ne same, initial other otherCanonical]

theorem mapFreshPage_backed {vmm after : Vmm} {virt i address : Nat} (managed : vmm.Managed)
    (addressEq : Word64.add virt (Word64.mul i PAGE_SIZE) = address)
    (canonical : Canonical address) (noLarge : NoLargePage vmm address)
    (mapped : mapFreshPage virt vmm i = .ok after) : ∃ phys, Backed vmm address phys after := by
  obtain ⟨page, pmm, _, free, used, only, mapped⟩ := mapFreshPage_ok mapped
  obtain ⟨exactAddress, small⟩ := managed.page_address free
  rw [addressEq, exactAddress] at mapped
  obtain ⟨stillManaged, frames, kept, took⟩ := mapPage_frames (managed.allocated only) canonical
    noLarge small (by unfold PteFlags; decide) mapped
  exact ⟨page * PAGE_SIZE,
    { wasFree := ⟨page, rfl, free⟩
      data := (managed.allocated_data only free used).kept took
      managed := stillManaged
      frames := frames
      noLarge := kept
      took := (TookTables.allocated only).trans took }⟩

/-! ### A range of addresses -/

theorem freshAddress {virt i : Nat} (fits : virt + i * PAGE_SIZE < Word64.modulus) :
    Word64.add virt (Word64.mul i PAGE_SIZE) = virt + i * PAGE_SIZE := by
  rw [Word64.mul_eq (by omega), Word64.add_eq fits]

theorem nextTableOrCreate_hhdmOffset {vmm after : Vmm} {table slot next : Nat}
    (result : nextTableOrCreate vmm table slot = .ok (next, after)) :
    after.hhdmOffset = vmm.hhdmOffset := by
  simp only [nextTableOrCreate] at result
  split at result
  · cases result
    rfl
  · split at result
    · cases result
    · cases result
      rfl

theorem mapPage_hhdmOffset {vmm after : Vmm} {virt phys : Nat} {flags : BitVec 64}
    (mapped : mapPage vmm virt phys flags = .ok after) : after.hhdmOffset = vmm.hhdmOffset := by
  obtain ⟨_, pdpt, first, pd, second, pt, third, pdptStep, pdStep, ptStep, afterEq⟩ :=
    mapPage_steps mapped
  have last : after.hhdmOffset = third.hhdmOffset := by
    rw [afterEq]
    rfl
  rw [last, nextTableOrCreate_hhdmOffset ptStep, nextTableOrCreate_hhdmOffset pdStep,
    nextTableOrCreate_hhdmOffset pdptStep]

theorem mapFreshPage_hhdmOffset {vmm after : Vmm} {virt i : Nat}
    (mapped : mapFreshPage virt vmm i = .ok after) : after.hhdmOffset = vmm.hhdmOffset := by
  obtain ⟨page, pmm, _, _, _, _, mapping⟩ := mapFreshPage_ok mapped
  have offset := mapPage_hhdmOffset mapping
  exact offset

structure ChangesOnly (vmm : Vmm) (start stop : Nat) (after : Vmm) : Prop where
  managed : after.Managed
  hhdmOffset : after.hhdmOffset = vmm.hhdmOffset
  noLarge : ∀ other, NoLargePage vmm other → NoLargePage after other
  frames : ∀ other, Canonical other → other < start ∨ stop ≤ other →
    frameOf after other = frameOf vmm other

theorem mapPage_changesOnly {vmm after : Vmm} {virt phys : Nat} {flags : BitVec 64}
    (managed : vmm.Managed) (canonical : Canonical virt) (noLarge : NoLargePage vmm virt)
    (aligned : virt % PAGE_SIZE = 0) (small : phys < 2 ^ 52) (subset : PteFlags flags)
    (mapped : mapPage vmm virt phys flags = .ok after) :
    ChangesOnly vmm virt (virt + PAGE_SIZE) after := by
  obtain ⟨stillManaged, frames, kept, _⟩ :=
    mapPage_frames managed canonical noLarge small subset mapped
  refine ⟨stillManaged, mapPage_hhdmOffset mapped, kept, ?_⟩
  intro other otherCanonical outside
  have different : other / PAGE_SIZE ≠ virt / PAGE_SIZE := by
    unfold PAGE_SIZE at *
    omega
  rw [frames other otherCanonical, if_neg different]

/-- The addresses of a range have been backed with pages that were free, and no other
translation has changed. -/
structure MapsFresh (vmm : Vmm) (start stop : Nat) (after : Vmm) : Prop extends
    ChangesOnly vmm start stop after where
  only : vmm.pmm.OnlyTakes after.pmm
  fresh : ∀ other, Canonical other → start ≤ other → other < stop →
    ∃ page, frameOf after other = some (page * PAGE_SIZE) ∧ vmm.pmm.Free page

theorem MapsFresh.refl {vmm : Vmm} (managed : vmm.Managed) (start : Nat) :
    MapsFresh vmm start start vmm where
  managed := managed
  hhdmOffset := rfl
  noLarge _ none_ := none_
  frames _ _ _ := rfl
  only := Pmm.OnlyTakes.refl _
  fresh _ _ lower upper := absurd upper (Nat.not_lt.mpr lower)

theorem MapsFresh.step {vmm current next : Vmm} {start stop phys : Nat}
    (maps : MapsFresh vmm start stop current) (ordered : start ≤ stop)
    (aligned : stop % PAGE_SIZE = 0) (backed : Backed current stop phys next)
    (offset : next.hhdmOffset = current.hhdmOffset) :
    MapsFresh vmm start (stop + PAGE_SIZE) next where
  managed := backed.managed
  hhdmOffset := offset.trans maps.hhdmOffset
  noLarge other none_ := backed.noLarge other (maps.noLarge other none_)
  frames other canonical outside := by
    have different : other / PAGE_SIZE ≠ stop / PAGE_SIZE := by
      unfold PAGE_SIZE at *
      omega
    rw [backed.frames other canonical, if_neg different]
    exact maps.frames other canonical (by omega)
  only := maps.only.trans backed.took.pmm
  fresh other canonical lower upper := by
    rw [backed.frames other canonical]
    by_cases here : other / PAGE_SIZE = stop / PAGE_SIZE
    · obtain ⟨page, address, free⟩ := backed.wasFree
      rw [if_pos here, address]
      exact ⟨page, rfl, maps.only.free free⟩
    · rw [if_neg here]
      apply maps.fresh other canonical lower
      unfold PAGE_SIZE at *
      omega

/-- The mapping loop backs its range and changes no other translation. -/
theorem mapFreshPages_fresh {vmm after : Vmm} {virt nPages : Nat} (managed : vmm.Managed)
    (aligned : virt % PAGE_SIZE = 0) (fits : virt + nPages * PAGE_SIZE < Word64.modulus)
    (canonical : ∀ other, virt ≤ other → other < virt + nPages * PAGE_SIZE → Canonical other)
    (noLarge : ∀ other, virt ≤ other → other < virt + nPages * PAGE_SIZE → NoLargePage vmm other)
    (mapped : mapFreshPages vmm virt nPages = .ok after) :
    MapsFresh vmm virt (virt + nPages * PAGE_SIZE) after := by
  apply @mapFreshPages_induction
    (fun current i => MapsFresh vmm virt (virt + i * PAGE_SIZE) current) _ _ _ _ _ _ mapped
  · intro current next i below before step
    have next_le : (i + 1) * PAGE_SIZE ≤ nPages * PAGE_SIZE := Nat.mul_le_mul_right _ below
    have split : (i + 1) * PAGE_SIZE = i * PAGE_SIZE + PAGE_SIZE := Nat.succ_mul _ _
    have positive : 0 < PAGE_SIZE := Nat.zero_lt_succ _
    have lower : virt ≤ virt + i * PAGE_SIZE := Nat.le_add_right _ _
    have inside : virt + i * PAGE_SIZE < virt + nPages * PAGE_SIZE := by omega
    have onPage : (virt + i * PAGE_SIZE) % PAGE_SIZE = 0 := by
      rw [Nat.add_mul_mod_self_right]
      exact aligned
    obtain ⟨phys, backed⟩ := mapFreshPage_backed before.managed
      (freshAddress (Nat.lt_trans inside fits)) (canonical _ lower inside)
      (before.noLarge _ (noLarge _ lower inside)) step
    have result := before.step lower onPage backed (mapFreshPage_hhdmOffset step)
    rw [split, ← Nat.add_assoc]
    exact result
  · rw [Nat.zero_mul, Nat.add_zero]
    exact MapsFresh.refl managed virt

/-! ### Mapping below existing tables -/

theorem nextTableOrCreate_present {vmm : Vmm} {table slot : Nat} (frame : IsFrame table)
    (inside : slot < 512) (present : isPresent (entryAt vmm table slot) = true) :
    nextTableOrCreate vmm (physToVirt vmm table) slot =
      .ok (physToVirt vmm (entryAddr (entryAt vmm table slot)), vmm) := by
  unfold nextTableOrCreate
  rw [readVolatile_table frame inside]
  exact if_pos present

theorem mapPage_of_table {vmm : Vmm} {virt phys table : Nat} {flags : BitVec 64}
    (virtAligned : virt % PAGE_SIZE = 0) (physAligned : phys % PAGE_SIZE = 0)
    (reached : tableAt vmm (pathOf virt) = some table) :
    mapPage vmm virt phys flags =
      .ok (writeVolatile vmm (tableAdd (physToVirt vmm table) (ptIdx virt))
        (leafEntry phys flags)) := by
  rw [tableAt_pt] at reached
  split at reached
  · rename_i present
    obtain ⟨e4, e3, _, e2, _⟩ := present
    cases reached
    have first : nextTableOrCreate vmm (pml4Pointer vmm) (pml4Idx virt) =
        .ok (physToVirt vmm (entryAddr (pml4Entry vmm virt)), vmm) :=
      nextTableOrCreate_present (entryAddr_isFrame _) (pml4Idx_lt virt) e4
    have second : nextTableOrCreate vmm (physToVirt vmm (entryAddr (pml4Entry vmm virt)))
        (pdptIdx virt) = .ok (physToVirt vmm (entryAddr (pdptEntry vmm virt)), vmm) :=
      nextTableOrCreate_present (entryAddr_isFrame _) (pdptIdx_lt virt) e3
    have third : nextTableOrCreate vmm (physToVirt vmm (entryAddr (pdptEntry vmm virt)))
        (pdIdx virt) = .ok (physToVirt vmm (entryAddr (pdEntry vmm virt)), vmm) :=
      nextTableOrCreate_present (entryAddr_isFrame _) (pdIdx_lt virt) e2
    unfold mapPage
    rw [if_neg (not_not.mpr virtAligned), if_neg (not_not.mpr physAligned)]
    simp only [splitIndices, first, second, third, ok_bind]
    rfl
  · cases reached

/-- The tables are as given, and pages remain to be taken. -/
structure Vmm.Ready (vmm : Vmm) (tables : List Nat → Option Nat) (remaining : Nat) : Prop where
  managed : vmm.Managed
  tables : ∀ path, tableAt vmm path = tables path
  covered : vmm.pmm.totalPages ≤ vmm.pmm.bitmapLen * 8
  available : remaining ≤ vmm.pmm.freePages

theorem Vmm.Ready.mapFreshPage {vmm : Vmm} {tables : List Nat → Option Nat}
    {remaining virt i address table : Nat} (ready : vmm.Ready tables (remaining + 1))
    (addressEq : Word64.add virt (Word64.mul i PAGE_SIZE) = address)
    (aligned : address % PAGE_SIZE = 0) (reached : tables (pathOf address) = some table) :
    ∃ after, mapFreshPage virt vmm i = .ok after ∧ after.Ready tables remaining := by
  have available := ready.available
  obtain ⟨page, pmm, taken, spent, length⟩ :=
    allocPage_progress ready.covered (Nat.lt_of_lt_of_le (Nat.succ_pos _) available)
  have only := allocPage_onlyTakes taken
  obtain ⟨frame, wordEq, free, _, _⟩ := allocPage_some taken
  have pageFrame : Word64.mul page PAGE_SIZE % PAGE_SIZE = 0 := by
    rw [wordEq, (ready.managed.page_address free).1]
    exact Nat.mul_mod_left _ _
  have managed := ready.managed.allocated only
  have tableReached : tableAt { vmm with pmm := pmm } (pathOf address) = some table :=
    (ready.tables _).trans reached
  have mapping := @mapPage_of_table _ _ _ _ (PTE_PRESENT ||| PTE_WRITABLE ||| PTE_NO_EXEC)
    aligned pageFrame tableReached
  have written := writeLeaf_spec
    (leafEntry (Word64.mul page PAGE_SIZE) (PTE_PRESENT ||| PTE_WRITABLE ||| PTE_NO_EXEC))
    managed tableReached rfl (ptIdx_lt address)
  refine ⟨_, ?_, written.1, ?_, ?_, ?_⟩
  · unfold Memory.mapFreshPage
    simp only [taken, addressEq]
    exact mapping
  · intro path
    rw [writeLeaf_tables managed tableReached rfl (ptIdx_lt address)]
    exact ready.tables path
  · have total : pmm.totalPages ≤ pmm.bitmapLen * 8 := by
      rw [only.totalPages, length]
      exact ready.covered
    exact total
  · have left : remaining ≤ pmm.freePages := by omega
    exact left

theorem Vmm.Ready.mapFreshPages {vmm : Vmm} {tables : List Nat → Option Nat}
    {remaining virt nPages : Nat} (ready : vmm.Ready tables (remaining + nPages))
    (fits : virt + nPages * PAGE_SIZE < Word64.modulus) (aligned : virt % PAGE_SIZE = 0)
    (reached : ∀ i, i < nPages → ∃ table, tables (pathOf (virt + i * PAGE_SIZE)) = some table) :
    ∃ after, mapFreshPages vmm virt nPages = .ok after ∧ after.Ready tables remaining := by
  induction nPages generalizing remaining with
  | zero => exact ⟨vmm, rfl, ready⟩
  | succ nPages ih =>
      rw [Nat.succ_mul] at fits
      rw [← Nat.add_assoc, Nat.add_right_comm] at ready
      obtain ⟨middle, first, middleReady⟩ := ih ready (by omega)
        (fun i below => reached i (Nat.lt_succ_of_lt below))
      obtain ⟨table, found⟩ := reached nPages (Nat.lt_succ_self _)
      have onPage : (virt + nPages * PAGE_SIZE) % PAGE_SIZE = 0 := by
        rw [Nat.add_mul_mod_self_right]
        exact aligned
      obtain ⟨after, last, afterReady⟩ :=
        middleReady.mapFreshPage (freshAddress (by omega)) onPage found
      refine ⟨after, ?_, afterReady⟩
      unfold Memory.mapFreshPages at first ⊢
      rw [List.range_succ, List.foldlM_append, first, ok_bind, List.foldlM_cons, last]
      rfl

end CustomKernel.Memory
