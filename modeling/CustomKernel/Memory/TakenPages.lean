/-
Where the pages go that the heap takes.

`map_page` takes a page only for a missing table and the mapping loop takes one more for
the address itself, so every page that the heap has taken is a table of the tree now or
the frame of one of the heap's pages.
-/

import CustomKernel.Memory.HeapBacking
import CustomKernel.Memory.LargePages

set_option autoImplicit false

namespace CustomKernel.Memory

def HeapFrame (vmm : Vmm) (stop phys : Nat) : Prop :=
  ∃ virt, HEAP_START ≤ virt ∧ virt < stop ∧ frameOf vmm virt = some phys

/-! ### Free pages before and after -/

theorem address_eq_iff {left right : Nat} :
    left * PAGE_SIZE = right * PAGE_SIZE ↔ left = right :=
  ⟨page_eq_of_address, fun same => by rw [same]⟩

theorem Pmm.Took.free_iff {before after : Pmm} {page other : Nat} (took : before.Took page after) :
    after.Free other ↔ before.Free other ∧ other ≠ page := by
  refine ⟨took.free_before, ?_⟩
  rintro ⟨free, different⟩
  exact ⟨took.totalPages.symm ▸ free.1, by rw [took.used, free.2]; simp [different]⟩

theorem Pmm.Gave.free_iff {before after : Pmm} {page other : Nat} (gave : before.Gave page after) :
    after.Free other ↔ other = page ∨ before.Free other := by
  constructor
  · intro free
    by_cases here : other = page
    · exact Or.inl here
    · exact Or.inr (gave.free_before free here)
  · rintro (rfl | free)
    · exact ⟨gave.totalPages.symm ▸ gave.tracked, by rw [gave.used]; simp⟩
    · exact ⟨gave.totalPages.symm ▸ free.1, by rw [gave.used, free.2, Bool.and_false]⟩

theorem Pmm.Took.freeOrHeld {before after : Pmm} {held : Finset Nat} {page : Nat}
    (took : before.Took page after) (other : Nat) :
    after.Free other ∨ other * PAGE_SIZE ∈ insert (page * PAGE_SIZE) held ↔
      before.Free other ∨ other * PAGE_SIZE ∈ held := by
  rw [took.free_iff, Finset.mem_insert, address_eq_iff]
  by_cases here : other = page
  · simp [here, took.free]
  · simp [here]

theorem Pmm.Gave.freeOrHeld {before after : Pmm} {held : Finset Nat} {page : Nat}
    (gave : before.Gave page after) (holds : page * PAGE_SIZE ∈ held) (other : Nat) :
    after.Free other ∨ other * PAGE_SIZE ∈ held.erase (page * PAGE_SIZE) ↔
      before.Free other ∨ other * PAGE_SIZE ∈ held := by
  rw [gave.free_iff, Finset.mem_erase, ne_eq, address_eq_iff]
  by_cases here : other = page
  · simp [here, holds]
  · simp [here]

/-! ### The allocator below the heap -/

structure Pmm.Draws (before after : Pmm) : Prop where
  only : before.OnlyTakes after
  invariant : before.Invariant → after.Invariant

theorem Pmm.Draws.refl (pmm : Pmm) : pmm.Draws pmm where
  only := Pmm.OnlyTakes.refl pmm
  invariant invariant := invariant

theorem Pmm.Draws.trans {first second third : Pmm} (left : first.Draws second)
    (right : second.Draws third) : first.Draws third where
  only := left.only.trans right.only
  invariant invariant := right.invariant (left.invariant invariant)

theorem allocPage_draws {pmm after : Pmm} {result : Option Nat}
    (taken : allocPage pmm = (result, after)) : pmm.Draws after where
  only := allocPage_onlyTakes taken
  invariant invariant := by
    have kept := allocPage_invariant invariant
    rw [taken] at kept
    exact kept

theorem nextTableOrCreate_draws {vmm after : Vmm} {table slot next : Nat}
    (result : nextTableOrCreate vmm table slot = .ok (next, after)) :
    vmm.pmm.Draws after.pmm := by
  simp only [nextTableOrCreate] at result
  split at result
  · cases result
    exact Pmm.Draws.refl _
  · split at result
    · cases result
    · rename_i taken
      cases result
      exact allocPage_draws taken

/-! ### Tables -/

/-- Every page taken in between is a table now, and no table is gone. -/
structure TablesTaken (vmm after : Vmm) : Prop where
  draws : vmm.pmm.Draws after.pmm
  kept : ∀ path table, tableAt vmm path = some table → tableAt after path = some table
  placed : ∀ page, vmm.pmm.Free page → ¬ after.pmm.Free page → IsTable after (page * PAGE_SIZE)

theorem TablesTaken.refl (vmm : Vmm) : TablesTaken vmm vmm where
  draws := Pmm.Draws.refl vmm.pmm
  kept _ _ reached := reached
  placed _ free taken := absurd free taken

theorem TablesTaken.trans {first second third : Vmm} (left : TablesTaken first second)
    (right : TablesTaken second third) : TablesTaken first third where
  draws := left.draws.trans right.draws
  kept path table reached := right.kept path table (left.kept path table reached)
  placed page free taken := by
    by_cases still : second.pmm.Free page
    · exact right.placed page still taken
    · obtain ⟨path, reached⟩ := left.placed page free still
      exact ⟨path, right.kept path _ reached⟩

theorem nextTableOrCreate_taken {vmm after : Vmm} {path : List Nat} {table slot next : Nat}
    (managed : vmm.Managed) (reached : tableAt vmm path = some table) (short : path.length < 3)
    (inside : slot < 512)
    (result : nextTableOrCreate vmm (physToVirt vmm table) slot = .ok (next, after)) :
    TablesTaken vmm after := by
  have draws := nextTableOrCreate_draws result
  rcases nextTableOrCreate_cases managed.physical (tableAt_isFrame reached) inside result with
    ⟨_, rfl, _⟩ | ⟨absent, page, pmm, free, isFrame, total, used, _, afterEq⟩
  · exact TablesTaken.refl _
  · have created := created_of_page managed reached short inside absent free isFrame afterEq
    have pmmEq : after.pmm = pmm := by
      rw [afterEq]
      rfl
    refine ⟨draws, created.extends_.kept, ?_⟩
    intro other wasFree taken
    have same : other = page := by
      by_contra different
      apply taken
      rw [pmmEq]
      exact ⟨total.symm ▸ wasFree.1, by rw [used, wasFree.2]; simp [different]⟩
    rw [same]
    exact ⟨slot :: path, created.tables.2⟩

theorem mapPage_taken {vmm after : Vmm} {virt phys : Nat} {flags : BitVec 64}
    (managed : vmm.Managed) (noLarge : NoLargePage vmm virt)
    (mapped : mapPage vmm virt phys flags = .ok after) : TablesTaken vmm after := by
  obtain ⟨_, pdpt, first, pd, second, pt, third, pdptStep, pdStep, ptStep, afterEq⟩ :=
    mapPage_steps mapped
  have firstTaken := nextTableOrCreate_taken managed (tableAt_nil vmm) (by decide)
    (pml4Idx_lt virt) pdptStep
  obtain ⟨firstManaged, firstExtends, _, pdptTable, rfl, pdptReached⟩ :=
    nextTableOrCreate_spec managed (tableAt_nil vmm) (by decide) (pml4Idx_lt virt)
      (not_largeAt_root vmm _) pdptStep
  have secondTaken := nextTableOrCreate_taken firstManaged pdptReached (by decide : 1 < 3)
    (pdptIdx_lt virt) pdStep
  obtain ⟨secondManaged, secondExtends, _, pdTable, rfl, pdReached⟩ :=
    nextTableOrCreate_spec firstManaged pdptReached (by decide : 1 < 3) (pdptIdx_lt virt)
      (fun isLarge => noLarge.1 (firstExtends.large _ _ (pdptIdx_lt virt) isLarge)) pdStep
  have early := firstExtends.trans secondExtends
  have thirdTaken := nextTableOrCreate_taken secondManaged pdReached (by decide : 2 < 3)
    (pdIdx_lt virt) ptStep
  obtain ⟨thirdManaged, _, _, ptTable, rfl, ptReached⟩ :=
    nextTableOrCreate_spec secondManaged pdReached (by decide : 2 < 3) (pdIdx_lt virt)
      (fun isLarge => noLarge.2 (early.large _ _ (pdIdx_lt virt) isLarge)) ptStep
  have walked := (firstTaken.trans secondTaken).trans thirdTaken
  have tables (route : List Nat) : tableAt after route = tableAt third route := by
    rw [afterEq]
    exact writeLeaf_tables thirdManaged ptReached rfl (ptIdx_lt virt) route
  have pmmEq : after.pmm = third.pmm := by
    rw [afterEq]
    rfl
  refine ⟨pmmEq ▸ walked.draws, ?_, ?_⟩
  · intro path table reached
    rw [tables]
    exact walked.kept path table reached
  · intro page free taken
    rw [pmmEq] at taken
    obtain ⟨path, reached⟩ := walked.placed page free taken
    exact ⟨path, (tables path).trans reached⟩

/-- One step of the mapping loop: the other pages taken are tables. -/
structure FreshTaken (vmm : Vmm) (virt : Nat) (after : Vmm) : Prop where
  draws : vmm.pmm.Draws after.pmm
  kept : ∀ path table, tableAt vmm path = some table → tableAt after path = some table
  placed : ∀ page, vmm.pmm.Free page → ¬ after.pmm.Free page →
    frameOf after virt = some (page * PAGE_SIZE) ∨ IsTable after (page * PAGE_SIZE)

theorem mapFreshPage_taken {vmm after : Vmm} {virt i address : Nat} (managed : vmm.Managed)
    (addressEq : Word64.add virt (Word64.mul i PAGE_SIZE) = address)
    (canonical : Canonical address) (noLarge : NoLargePage vmm address)
    (mapped : mapFreshPage virt vmm i = .ok after) : FreshTaken vmm address after := by
  unfold mapFreshPage at mapped
  split at mapped
  · cases mapped
  · rename_i phys pmm taken
    have drawn := allocPage_draws taken
    obtain ⟨page, rfl, free, total, used⟩ := allocPage_some taken
    obtain ⟨exactAddress, small⟩ := managed.page_address free
    rw [addressEq, exactAddress] at mapped
    have managedDrawn := managed.allocated drawn.only
    have noLargeDrawn : NoLargePage { vmm with pmm := pmm } address := noLarge
    have rest := mapPage_taken managedDrawn noLargeDrawn mapped
    obtain ⟨_, frames, _, _⟩ := mapPage_frames managedDrawn canonical noLargeDrawn small
      (by unfold PteFlags; decide) mapped
    have frame : frameOf after address = some (page * PAGE_SIZE) := by
      rw [frames address canonical, if_pos rfl]
    refine ⟨drawn.trans rest.draws, rest.kept, ?_⟩
    intro other wasFree gone
    by_cases same : other = page
    · rw [same]
      exact Or.inl frame
    · have still : pmm.Free other :=
        ⟨total.symm ▸ wasFree.1, by rw [used, wasFree.2]; simp [same]⟩
      exact Or.inr (rest.placed other still gone)

/-! ### Pages in circulation -/

/-- The pages that boot left free are the pages that are free now, that clients hold, that
back the heap, or that became tables; nothing else ever is one of the first three. -/
structure Circulates (boot : Pmm) (vmm : Vmm) (stop : Nat) (held : Finset Nat) : Prop where
  placed : ∀ page, boot.Free page → vmm.pmm.Free page ∨ page * PAGE_SIZE ∈ held ∨
    HeapFrame vmm stop (page * PAGE_SIZE) ∨ IsTable vmm (page * PAGE_SIZE)
  free : ∀ page, vmm.pmm.Free page → boot.Free page
  held : ∀ page, page * PAGE_SIZE ∈ held → boot.Free page
  heap : ∀ page, HeapFrame vmm stop (page * PAGE_SIZE) → boot.Free page

theorem Circulates.initial (vmm : Vmm) : Circulates vmm.pmm vmm HEAP_START ∅ where
  placed _ free := Or.inl free
  free _ free := free
  held _ member := absurd member (Finset.notMem_empty _)
  heap page frame := by
    obtain ⟨virt, lower, upper, _⟩ := frame
    exact absurd upper (Nat.not_lt.mpr lower)

namespace Circulates

variable {boot : Pmm} {vmm after : Vmm} {stop : Nat} {held : Finset Nat}

theorem backed (circulates : Circulates boot vmm stop held) {phys : Nat}
    (start : HEAP_START ≤ stop) (aligned : stop % PAGE_SIZE = 0)
    (limit : stop + PAGE_SIZE ≤ HEAP_START + HEAP_MAX_SIZE) (step : Backed vmm stop phys after)
    (taken : FreshTaken vmm stop after) : Circulates boot after (stop + PAGE_SIZE) held := by
  have canonical {virt : Nat} (lower : HEAP_START ≤ virt) (upper : virt < stop + PAGE_SIZE) :
      Canonical virt := InWindow.canonical ⟨lower, by omega⟩
  have below {virt : Nat} (upper : virt < stop) : virt / PAGE_SIZE ≠ stop / PAGE_SIZE := by
    unfold PAGE_SIZE at *
    omega
  have here {virt : Nat} (lower : stop ≤ virt) (upper : virt < stop + PAGE_SIZE) :
      virt / PAGE_SIZE = stop / PAGE_SIZE := by
    unfold PAGE_SIZE at *
    omega
  have positive : 0 < PAGE_SIZE := Nat.zero_lt_succ _
  have remains {other : Nat} (frame : HeapFrame vmm stop other) :
      HeapFrame after (stop + PAGE_SIZE) other := by
    obtain ⟨virt, lower, upper, found⟩ := frame
    refine ⟨virt, lower, by omega, ?_⟩
    rw [step.frames virt (canonical lower (by omega)), if_neg (below upper)]
    exact found
  refine ⟨?_, fun page free => circulates.free page (taken.draws.only.free free),
    circulates.held, ?_⟩
  · intro page wasFree
    rcases circulates.placed page wasFree with free | client | heap | ⟨path, table⟩
    · by_cases still : after.pmm.Free page
      · exact Or.inl still
      · rcases taken.placed page free still with frame | table
        · exact Or.inr (Or.inr (Or.inl ⟨stop, start, by omega, frame⟩))
        · exact Or.inr (Or.inr (Or.inr table))
    · exact Or.inr (Or.inl client)
    · exact Or.inr (Or.inr (Or.inl (remains heap)))
    · exact Or.inr (Or.inr (Or.inr ⟨path, taken.kept path _ table⟩))
  · rintro page ⟨virt, lower, upper, found⟩
    rw [step.frames virt (canonical lower upper)] at found
    by_cases old : virt < stop
    · rw [if_neg (below old)] at found
      exact circulates.heap page ⟨virt, lower, old, found⟩
    · rw [if_pos (here (Nat.le_of_not_lt old) upper)] at found
      obtain ⟨taken, address, free⟩ := step.wasFree
      rw [page_eq_of_address ((Option.some.inj found).symm.trans address)]
      exact circulates.free taken free

theorem grown (circulates : Circulates boot vmm stop held) (backing : Backing vmm stop held)
    {nPages : Nat} (start : HEAP_START ≤ stop) (aligned : stop % PAGE_SIZE = 0)
    (limit : stop + nPages * PAGE_SIZE ≤ HEAP_START + HEAP_MAX_SIZE)
    (mapped : mapFreshPages vmm stop nPages = .ok after) :
    Circulates boot after (stop + nPages * PAGE_SIZE) held ∧ vmm.pmm.Draws after.pmm := by
  have whole : Backing after (stop + nPages * PAGE_SIZE) held ∧
      Circulates boot after (stop + nPages * PAGE_SIZE) held ∧ vmm.pmm.Draws after.pmm := by
    apply @mapFreshPages_induction
      (fun current i => Backing current (stop + i * PAGE_SIZE) held ∧
        Circulates boot current (stop + i * PAGE_SIZE) held ∧ vmm.pmm.Draws current.pmm)
      _ _ _ _ _ _ mapped
    · rintro current next i below ⟨before, circulating, drawn⟩ step
      have next_le : (i + 1) * PAGE_SIZE ≤ nPages * PAGE_SIZE := Nat.mul_le_mul_right _ below
      have split : (i + 1) * PAGE_SIZE = i * PAGE_SIZE + PAGE_SIZE := Nat.succ_mul _ _
      have inside : InWindow (stop + i * PAGE_SIZE) := by
        unfold InWindow PAGE_SIZE at *
        omega
      have address := freshAddress (Nat.lt_trans inside.2 (by decide))
      have noLarge := before.noLarge _ inside
      have onPage : (stop + i * PAGE_SIZE) % PAGE_SIZE = 0 := by
        rw [Nat.add_mul_mod_self_right]
        exact aligned
      obtain ⟨phys, backed⟩ := mapFreshPage_backed before.managed address inside.canonical
        noLarge step
      have taken := mapFreshPage_taken before.managed address inside.canonical noLarge step
      rw [split, ← Nat.add_assoc]
      exact ⟨before.backed inside.1 onPage (by omega) backed,
        circulating.backed inside.1 onPage (by omega) backed taken, drawn.trans taken.draws⟩
    · rw [Nat.zero_mul, Nat.add_zero]
      exact ⟨backing, circulates, Pmm.Draws.refl _⟩
  exact whole.2

end Circulates

/-! ### Clients of the allocator -/

structure Exchange (before after : Pmm) (held heldAfter : Finset Nat) : Prop where
  totalPages : after.totalPages = before.totalPages
  same : ∀ page, after.Free page ∨ page * PAGE_SIZE ∈ heldAfter ↔
    before.Free page ∨ page * PAGE_SIZE ∈ held
  taken : ∀ phys, phys ∈ heldAfter → after.Taken phys

namespace Exchange

variable {pmm : Pmm} {vmm : Vmm} {stop : Nat} {held heldAfter : Finset Nat}

theorem source (exchange : Exchange vmm.pmm pmm held heldAfter) {phys : Nat}
    (member : phys ∈ heldAfter) :
    phys ∈ held ∨ ∃ page, phys = page * PAGE_SIZE ∧ vmm.pmm.Free page := by
  obtain ⟨page, rfl, _⟩ := exchange.taken phys member
  rcases (exchange.same page).mp (Or.inr member) with free | old
  · exact Or.inr ⟨page, rfl, free⟩
  · exact Or.inl old

theorem keeps (exchange : Exchange vmm.pmm pmm held heldAfter) {phys : Nat}
    (taken : vmm.pmm.Taken phys) (notHeld : phys ∉ held) : pmm.Taken phys := by
  obtain ⟨page, rfl, tracked, used⟩ := taken
  refine ⟨page, rfl, exchange.totalPages.symm ▸ tracked, ?_⟩
  by_contra clear
  have free : pmm.Free page :=
    ⟨exchange.totalPages.symm ▸ tracked, Bool.eq_false_iff.mpr clear⟩
  rcases (exchange.same page).mp (Or.inl free) with wasFree | member
  · rw [wasFree.2] at used
    cases used
  · exact notHeld member

theorem backing (exchange : Exchange vmm.pmm pmm held heldAfter)
    (backing : Backing vmm stop held) : Backing { vmm with pmm := pmm } stop heldAfter where
  managed :=
    { tree := backing.managed.tree
      fresh := by
        intro page free path
        rcases (exchange.same page).mp (Or.inl free) with wasFree | member
        · exact backing.managed.fresh page wasFree path
        · exact (backing.held _ member).noTable path
      physical := by
        rw [exchange.totalPages]
        exact backing.managed.physical }
  noLarge := backing.noLarge
  mapped := by
    intro virt lower upper
    obtain ⟨phys, frame, data, notHeld⟩ := backing.mapped virt lower upper
    refine ⟨phys, frame, ⟨exchange.keeps data.taken notHeld, data.noTable⟩, ?_⟩
    intro member
    rcases exchange.source member with old | ⟨page, address, free⟩
    · exact notHeld old
    · exact data.ne_free free address
  unmapped := backing.unmapped
  distinct := backing.distinct
  held := by
    intro phys member
    refine ⟨exchange.taken phys member, ?_⟩
    rcases exchange.source member with old | ⟨page, address, free⟩
    · exact (backing.held phys old).noTable
    · intro path reached
      rw [address] at reached
      exact backing.managed.fresh page free path reached

theorem circulates {boot : Pmm} (exchange : Exchange vmm.pmm pmm held heldAfter)
    (circulates : Circulates boot vmm stop held) :
    Circulates boot { vmm with pmm := pmm } stop heldAfter where
  placed := by
    intro page wasFree
    have moved (source : vmm.pmm.Free page ∨ page * PAGE_SIZE ∈ held) :=
      (exchange.same page).mpr source
    rcases circulates.placed page wasFree with free | client | owned
    · exact (moved (Or.inl free)).imp_right Or.inl
    · exact (moved (Or.inr client)).imp_right Or.inl
    · exact Or.inr (Or.inr owned)
  free := by
    intro page free
    rcases (exchange.same page).mp (Or.inl free) with wasFree | client
    · exact circulates.free page wasFree
    · exact circulates.held page client
  held := by
    intro page member
    rcases (exchange.same page).mp (Or.inr member) with wasFree | client
    · exact circulates.free page wasFree
    · exact circulates.held page client
  heap := circulates.heap

end Exchange

/-! ### The heap's calls -/

structure Heap.Accounts (boot : Pmm) (heap : Heap) (held : Finset Nat) : Prop where
  backs : heap.Backs held
  circulates : Circulates boot heap.vmm heap.heapEnd held

def Heap.withPmm (heap : Heap) (pmm : Pmm) : Heap :=
  { heap with vmm := { heap.vmm with pmm := pmm } }

namespace Heap.Accounts

variable {boot pmm : Pmm} {heap after : Heap} {held heldAfter : Finset Nat}

theorem exchanged (accounts : heap.Accounts boot held)
    (exchange : Exchange heap.vmm.pmm pmm held heldAfter) :
    (heap.withPmm pmm).Accounts boot heldAfter where
  backs :=
    { backing := exchange.backing accounts.backs.backing
      start := accounts.backs.start
      limit := accounts.backs.limit
      aligned := accounts.backs.aligned }
  circulates := exchange.circulates accounts.circulates

theorem expandHeap (accounts : heap.Accounts boot held) {needed : Nat}
    (expanded : expandHeap heap needed = .ok after) :
    after.Accounts boot held ∧ heap.vmm.pmm.Draws after.vmm.pmm := by
  have backs := accounts.backs
  have grown := backs.expandHeap expanded
  obtain ⟨extra, extraEq, accepted, mapped, newEnd, _⟩ := expandHeap_ok expanded
  have word : extra < Word64.modulus := by
    rw [← extraEq]
    exact alignUp_lt _
  have limit := growth_limit backs.backing.managed.physical backs.start backs.limit word accepted
    mapped
  have fits : heap.heapEnd + extra / PAGE_SIZE * PAGE_SIZE < Word64.modulus :=
    Nat.lt_of_le_of_lt limit (by decide)
  rw [Word64.mul_eq (by omega), Word64.add_eq fits] at newEnd
  obtain ⟨circulates, draws⟩ :=
    accounts.circulates.grown backs.backing backs.start backs.aligned limit mapped
  rw [← newEnd] at circulates
  exact ⟨⟨grown, circulates⟩, draws⟩

theorem kmallocWithin (accounts : heap.Accounts boot held) {calls size ptr : Nat}
    (allocated : kmallocWithin calls heap size = .ok (ptr, after)) :
    after.Accounts boot held ∧ heap.vmm.pmm.Draws after.vmm.pmm := by
  induction calls generalizing heap with
  | zero => cases allocated
  | succ calls ih =>
      unfold Memory.kmallocWithin at allocated
      split at allocated
      · cases allocated
      · split at allocated
        · cases allocated
        · obtain ⟨found, _, allocated⟩ := bind_eq_ok.mp allocated
          cases found with
          | some cur =>
              cases allocated
              have backs := accounts.backs
              exact ⟨⟨⟨backs.backing, backs.start, backs.limit, backs.aligned⟩,
                accounts.circulates⟩, Pmm.Draws.refl _⟩
          | none =>
              obtain ⟨grown, expanded, continued⟩ := bind_eq_ok.mp allocated
              obtain ⟨middle, first⟩ := accounts.expandHeap expanded
              obtain ⟨last, rest⟩ := ih middle continued
              exact ⟨last, first.trans rest⟩

theorem kfree (accounts : heap.Accounts boot held) {ptr : Nat}
    (freed : kfree heap ptr = .ok after) : after.Accounts boot held ∧ after.vmm = heap.vmm := by
  have backs := accounts.backs.kfree freed
  obtain ⟨mem, rfl⟩ := kfree_memory freed
  exact ⟨⟨backs, accounts.circulates⟩, rfl⟩

end Heap.Accounts

theorem kmallocInit_accounts {before heap : Heap} {n : Nat}
    (backing : Backing before.vmm HEAP_START ∅)
    (rounded : (n + 4095) / PAGE_SIZE * PAGE_SIZE ≤ HEAP_MAX_SIZE)
    (started : kmallocInit before HEAP_START n = .ok heap) :
    heap.Accounts before.vmm.pmm ∅ ∧ before.vmm.pmm.Draws heap.vmm.pmm := by
  have backs := kmallocInit_backs backing rounded started
  obtain ⟨large, vmm, mapped, heapEq⟩ := kmallocInit_ok started
  obtain ⟨_, atMost, _⟩ := initialTotal large rounded
  have small : n ≤ 2 ^ 63 := by
    unfold PAGE_SIZE HEAP_MAX_SIZE at rounded
    omega
  have total : Word64.mul (pagesFor n) PAGE_SIZE = pagesFor n * PAGE_SIZE := by
    rw [pagesFor_eq small]
    exact Word64.mul_eq (Nat.lt_of_le_of_lt rounded (by decide))
  rw [total] at atMost
  have limit : HEAP_START + pagesFor n * PAGE_SIZE ≤ HEAP_START + HEAP_MAX_SIZE :=
    Nat.add_le_add_left atMost _
  have stop : heap.heapEnd = HEAP_START + pagesFor n * PAGE_SIZE := by
    rw [heapEq, total]
    exact Word64.add_eq (Nat.lt_of_le_of_lt limit (by decide))
  have reached : heap.vmm = vmm := by
    rw [heapEq]
  obtain ⟨circulates, draws⟩ := (Circulates.initial before.vmm).grown backing (Nat.le_refl _)
    (by decide) limit mapped
  rw [← stop, ← reached] at circulates
  exact ⟨⟨backs, circulates⟩, reached ▸ draws⟩

end CustomKernel.Memory
