/-
The translations that the processor keeps.

The processor may remember the result of any walk and forget it at any time; only
`invlpg` makes it forget.  A mapping changes one leaf entry and creates links where there
were none, so flushing the mapped page alone is enough: whatever is remembered is what a
new walk would find, the rights included and for large pages too.
-/

import CustomKernel.Memory.LargePages
import CustomKernel.Memory.PageRights

set_option autoImplicit false

namespace CustomKernel.Memory

/-! ### What a walk finds -/

/-- The rights of the entries down to the one at which the processor stops. -/
def walkRights (vmm : Vmm) (virt : Nat) : Rights :=
  if pageSizeBit (pdptEntry vmm virt) then
    (Rights.ofEntry (pml4Entry vmm virt)).meet (Rights.ofEntry (pdptEntry vmm virt))
  else if pageSizeBit (pdEntry vmm virt) then
    (Rights.ofEntry (pml4Entry vmm virt)).meet
      ((Rights.ofEntry (pdptEntry vmm virt)).meet (Rights.ofEntry (pdEntry vmm virt)))
  else effectiveRights vmm virt

structure Translation where
  frame : Nat
  rights : Rights
  deriving DecidableEq

def walkPage (vmm : Vmm) (page : Nat) : Option Translation :=
  (mmuTranslate vmm (page * PAGE_SIZE)).map fun frame =>
    { frame := frame, rights := walkRights vmm (page * PAGE_SIZE) }

/-! ### Links and leaves that are kept -/

section

variable {vmm after : Vmm} {virt : Nat}

theorem LinksGrow.leaf_kept {path : List Nat} {slot : Nat} {entry : BitVec 64}
    (grown : LinksGrow vmm after) (short : path.length < 3) (inside : slot < 512)
    (found : leafAt vmm path slot = some entry) : leafAt after path slot = some entry := by
  rcases grown path slot short inside with same | ⟨absent, _⟩
  · exact same.trans found
  · rw [found] at absent
    cases absent

theorem LinksGrow.pml4Entry (grown : LinksGrow vmm after)
    (present : isPresent (pml4Entry vmm virt) = true) :
    pml4Entry after virt = pml4Entry vmm virt := by
  have found : leafAt vmm [] (pml4Idx virt) = some (Memory.pml4Entry vmm virt) :=
    (leafAt_eq (tableAt_nil vmm)).trans (if_pos present)
  obtain ⟨table, reached, same, _⟩ :=
    leafAt_some (grown.leaf_kept (by decide : ([] : List Nat).length < 3) (pml4Idx_lt virt) found)
  cases reached
  exact same

theorem LinksGrow.pdptEntry (grown : LinksGrow vmm after)
    (pml4 : isPresent (Memory.pml4Entry vmm virt) = true)
    (present : isPresent (pdptEntry vmm virt) = true) :
    pdptEntry after virt = pdptEntry vmm virt := by
  have upper := grown.pml4Entry pml4
  have reachedBefore := tableAt_pdpt vmm virt
  have reachedAfter := tableAt_pdpt after virt
  rw [if_pos pml4] at reachedBefore
  rw [upper, if_pos pml4] at reachedAfter
  have found : leafAt vmm [pml4Idx virt] (pdptIdx virt) = some (Memory.pdptEntry vmm virt) :=
    (leafAt_eq reachedBefore).trans (if_pos present)
  have short : [pml4Idx virt].length < 3 := Nat.lt_succ_of_lt (Nat.lt_succ_self 1)
  obtain ⟨table, reached, same, _⟩ := leafAt_some (grown.leaf_kept short (pdptIdx_lt virt) found)
  cases reachedAfter.symm.trans reached
  rw [Memory.pdptEntry, upper]
  exact same

theorem LinksGrow.pdEntry (grown : LinksGrow vmm after)
    (pml4 : isPresent (Memory.pml4Entry vmm virt) = true)
    (pdpt : isPresent (Memory.pdptEntry vmm virt) = true)
    (small : pageSizeBit (Memory.pdptEntry vmm virt) = false)
    (present : isPresent (pdEntry vmm virt) = true) : pdEntry after virt = pdEntry vmm virt := by
  have first := grown.pml4Entry pml4
  have second := grown.pdptEntry pml4 pdpt
  have reachedBefore := tableAt_pd vmm virt
  have reachedAfter := tableAt_pd after virt
  rw [if_pos ⟨pml4, pdpt, small⟩] at reachedBefore
  rw [first, second, if_pos ⟨pml4, pdpt, small⟩] at reachedAfter
  have found : leafAt vmm [pdptIdx virt, pml4Idx virt] (pdIdx virt) =
      some (Memory.pdEntry vmm virt) := (leafAt_eq reachedBefore).trans (if_pos present)
  have short : [pdptIdx virt, pml4Idx virt].length < 3 := Nat.lt_succ_self 2
  obtain ⟨table, reached, same, _⟩ := leafAt_some (grown.leaf_kept short (pdIdx_lt virt) found)
  cases reachedAfter.symm.trans reached
  rw [Memory.pdEntry, second]
  exact same

theorem ptEntry_kept (grown : LinksGrow vmm after)
    (leaf : leafAt after (pathOf virt) (ptIdx virt) = leafAt vmm (pathOf virt) (ptIdx virt))
    (pml4 : isPresent (pml4Entry vmm virt) = true) (pdpt : isPresent (pdptEntry vmm virt) = true)
    (huge : pageSizeBit (pdptEntry vmm virt) = false)
    (pd : isPresent (pdEntry vmm virt) = true) (large : pageSizeBit (pdEntry vmm virt) = false)
    (present : isPresent (ptEntry vmm virt) = true) : ptEntry after virt = ptEntry vmm virt := by
  have first := grown.pml4Entry pml4
  have second := grown.pdptEntry pml4 pdpt
  have third := grown.pdEntry pml4 pdpt huge pd
  have reachedBefore := tableAt_pt vmm virt
  have reachedAfter := tableAt_pt after virt
  rw [if_pos ⟨pml4, pdpt, huge, pd, large⟩] at reachedBefore
  rw [first, second, third, if_pos ⟨pml4, pdpt, huge, pd, large⟩] at reachedAfter
  have found : leafAt vmm (pathOf virt) (ptIdx virt) = some (ptEntry vmm virt) :=
    (leafAt_eq reachedBefore).trans (if_pos present)
  obtain ⟨table, reached, same, _⟩ := leafAt_some (leaf.trans found)
  cases reachedAfter.symm.trans reached
  rw [ptEntry, third]
  exact same

theorem walk_kept {phys : Nat} (grown : LinksGrow vmm after)
    (leaf : leafAt after (pathOf virt) (ptIdx virt) = leafAt vmm (pathOf virt) (ptIdx virt))
    (found : mmuTranslate vmm virt = some phys) :
    mmuTranslate after virt = some phys ∧ walkRights after virt = walkRights vmm virt := by
  unfold mmuTranslate at found
  split at found
  · cases found
  · rename_i pml4
    have pml4Present := Bool.eq_true_of_not_eq_false pml4
    split at found
    · cases found
    · rename_i pdpt
      have pdptPresent := Bool.eq_true_of_not_eq_false pdpt
      have first := grown.pml4Entry pml4Present
      have second := grown.pdptEntry pml4Present pdptPresent
      unfold mmuTranslate walkRights
      rw [first, second, if_neg pml4, if_neg pdpt]
      split at found
      · rename_i huge
        rw [if_pos huge, if_pos huge]
        exact ⟨found, (if_pos huge).symm⟩
      · rename_i notHuge
        have small := Bool.eq_false_of_not_eq_true notHuge
        rw [if_neg notHuge]
        split at found
        · cases found
        · rename_i pd
          have pdPresent := Bool.eq_true_of_not_eq_false pd
          have third := grown.pdEntry pml4Present pdptPresent small pdPresent
          rw [third, if_neg pd]
          split at found
          · rename_i large
            rw [if_pos large, if_neg notHuge, if_pos large, if_neg notHuge, if_pos large]
            exact ⟨found, rfl⟩
          · rename_i notLarge
            have smallPage := Bool.eq_false_of_not_eq_true notLarge
            split at found
            · cases found
            · rename_i pt
              have ptPresent := Bool.eq_true_of_not_eq_false pt
              have last := ptEntry_kept grown leaf pml4Present pdptPresent small pdPresent smallPage
                ptPresent
              unfold effectiveRights
              rw [first, second, third, last, if_neg notLarge, if_neg pt]
              exact ⟨found, rfl⟩

end

/-! ### The page of an address -/

theorem page_start (virt : Nat) : virt / PAGE_SIZE = virt / PAGE_SIZE * PAGE_SIZE / PAGE_SIZE := by
  unfold PAGE_SIZE
  omega

theorem entries_of_page {left right : Nat} (vmm : Vmm)
    (samePage : left / PAGE_SIZE = right / PAGE_SIZE) :
    pml4Entry vmm left = pml4Entry vmm right ∧ pdptEntry vmm left = pdptEntry vmm right ∧
      pdEntry vmm left = pdEntry vmm right ∧ ptEntry vmm left = ptEntry vmm right := by
  obtain ⟨pml4, pdpt, pd, pt⟩ := indices_of_page samePage
  simp only [pml4Entry, pdptEntry, pdEntry, ptEntry, pml4, pdpt, pd, pt, and_self]

theorem walkRights_page (vmm : Vmm) (virt : Nat) :
    walkRights vmm virt = walkRights vmm (virt / PAGE_SIZE * PAGE_SIZE) := by
  obtain ⟨pml4, pdpt, pd, pt⟩ := entries_of_page vmm (page_start virt)
  simp only [walkRights, effectiveRights, pml4, pdpt, pd, pt]

theorem mmuTranslate_page (vmm : Vmm) (virt : Nat) :
    mmuTranslate vmm virt =
      (mmuTranslate vmm (virt / PAGE_SIZE * PAGE_SIZE)).map (· + virt % PAGE_SIZE) := by
  obtain ⟨pml4, pdpt, pd, pt⟩ := entries_of_page vmm (page_start virt)
  have huge : virt % 2 ^ 30 = virt / PAGE_SIZE * PAGE_SIZE % 2 ^ 30 + virt % PAGE_SIZE := by
    unfold PAGE_SIZE
    omega
  have large : virt % 2 ^ 21 = virt / PAGE_SIZE * PAGE_SIZE % 2 ^ 21 + virt % PAGE_SIZE := by
    unfold PAGE_SIZE
    omega
  have small : virt / PAGE_SIZE * PAGE_SIZE % PAGE_SIZE = 0 := Nat.mul_mod_left _ _
  rw [mmuTranslate, mmuTranslate, pml4, pdpt, pd, pt, huge, large, small]
  simp only [apply_ite (Option.map (· + virt % PAGE_SIZE)), Option.map_none, Option.map_some,
    Nat.add_assoc, Nat.zero_add]

/-! ### The processor -/

/-- The tables with the translations the processor has kept. -/
structure Mmu where
  vmm : Vmm
  cached : List (Nat × Translation)

def Mmu.invlpg (mmu : Mmu) (virt : Nat) : Mmu :=
  { mmu with cached := mmu.cached.filter fun entry => entry.1 ≠ virt / PAGE_SIZE }

/-- `map_page` ends with `invlpg`, `unmap_page` only when it has found a table. -/
def Mmu.flush (mmu : Mmu) (vmm : Vmm) : VmmCall → Mmu
  | .mapPage virt _ _ => { mmu with vmm := vmm }.invlpg virt
  | .unmapPage virt =>
      if (walkExisting mmu.vmm virt).isSome then { mmu with vmm := vmm }.invlpg virt
      else { mmu with vmm := vmm }

def Mmu.call (mmu : Mmu) (call : VmmCall) : Option Mmu :=
  (vmmStep mmu.vmm call).map fun vmm => mmu.flush vmm call

inductive MmuEvent where
  | operation (call : VmmCall)
  /-- The processor walks the tables, for an access or ahead of one. -/
  | walk (virt : Nat)
  /-- The processor forgets a translation of its own accord. -/
  | evict (page : Nat)

def Mmu.step (mmu : Mmu) : MmuEvent → Option Mmu
  | .operation call => mmu.call call
  | .walk virt =>
      match walkPage mmu.vmm (virt / PAGE_SIZE) with
      | none => some mmu
      | some found => some { mmu with cached := (virt / PAGE_SIZE, found) :: mmu.cached }
  | .evict page => some { mmu with cached := mmu.cached.filter fun entry => entry.1 ≠ page }

def Mmu.translate (mmu : Mmu) (virt : Nat) : Option (Nat × Rights) :=
  match mmu.cached.find? fun entry => entry.1 = virt / PAGE_SIZE with
  | some (_, kept) => some (kept.frame + virt % PAGE_SIZE, kept.rights)
  | none => (mmuTranslate mmu.vmm virt).map fun phys => (phys, walkRights mmu.vmm virt)

/-- Every kept translation is one that a walk would find now. -/
def Mmu.Coherent (mmu : Mmu) : Prop :=
  ∀ entry, entry ∈ mmu.cached → Canonical (entry.1 * PAGE_SIZE) ∧
    walkPage mmu.vmm entry.1 = some entry.2

/-- Only canonical addresses are walked, and calls have admissible arguments. -/
def MmuEvent.Admissible (vmm : Vmm) : MmuEvent → Prop
  | .operation call => call.Admissible vmm
  | .walk virt => Canonical virt
  | .evict _ => True

theorem canonical_page {virt : Nat} (canonical : Canonical virt) :
    Canonical (virt / PAGE_SIZE * PAGE_SIZE) := by
  unfold Canonical PAGE_SIZE at *
  omega

theorem Mmu.Coherent.subset {mmu : Mmu} {cached : List (Nat × Translation)}
    (coherent : mmu.Coherent) (fewer : ∀ entry, entry ∈ cached → entry ∈ mmu.cached) :
    ({ mmu with cached := cached } : Mmu).Coherent :=
  fun entry member => coherent entry (fewer entry member)

theorem walkPage_some {vmm : Vmm} {page : Nat} {found : Translation}
    (walked : walkPage vmm page = some found) :
    mmuTranslate vmm (page * PAGE_SIZE) = some found.frame ∧
      walkRights vmm (page * PAGE_SIZE) = found.rights := by
  obtain ⟨frame, translated, rfl⟩ := Option.map_eq_some_iff.mp walked
  exact ⟨translated, rfl⟩

theorem vmmStep_walkPage {vmm after : Vmm} {call : VmmCall} {page : Nat} {found : Translation}
    (managed : vmm.Managed) (admissible : call.Admissible vmm)
    (canonical : Canonical (page * PAGE_SIZE)) (other : call.virt / PAGE_SIZE ≠ page)
    (stepped : vmmStep vmm call = some after) (walked : walkPage vmm page = some found) :
    walkPage after page = some found := by
  obtain ⟨translated, rights⟩ := walkPage_some walked
  have elsewhere : call.virt / PAGE_SIZE ≠ page * PAGE_SIZE / PAGE_SIZE := by
    rw [Nat.mul_div_cancel page (by decide : 0 < PAGE_SIZE)]
    exact other
  have grown := vmmStep_links managed admissible stepped
  have leaf := vmmStep_leaf managed admissible canonical elsewhere stepped
  obtain ⟨kept, keptRights⟩ := walk_kept grown leaf translated
  rw [walkPage, kept, keptRights, rights]
  rfl

/-- `unmap_page` leaves out `invlpg` only where it changes nothing. -/
theorem unmapPage_unchanged {vmm after : Vmm} {virt : Nat} (absent : walkExisting vmm virt = none)
    (unmapped : unmapPage vmm virt = .ok after) : after = vmm := by
  unfold unmapPage at unmapped
  rw [absent] at unmapped
  split at unmapped
  · cases unmapped
  · cases unmapped
    rfl

/-- A call keeps what the cache holds for other pages, and flushes its own page. -/
theorem Mmu.Coherent.call {mmu after : Mmu} {call : VmmCall} (coherent : mmu.Coherent)
    (managed : mmu.vmm.Managed) (admissible : call.Admissible mmu.vmm)
    (stepped : mmu.call call = some after) : after.Coherent := by
  obtain ⟨vmm, changed, afterEq⟩ := Option.map_eq_some_iff.mp stepped
  have flushed : ({ mmu with vmm := vmm }.invlpg call.virt : Mmu).Coherent := by
    intro entry member
    obtain ⟨kept, other⟩ := List.mem_filter.mp member
    obtain ⟨canonical, walked⟩ := coherent entry kept
    have differs : call.virt / PAGE_SIZE ≠ entry.1 := fun same => of_decide_eq_true other same.symm
    exact ⟨canonical, vmmStep_walkPage managed admissible canonical differs changed walked⟩
  cases call with
  | mapPage virt phys flags =>
      cases afterEq
      exact flushed
  | unmapPage virt =>
      cases found : walkExisting mmu.vmm virt with
      | some entry =>
          rw [Mmu.flush, found] at afterEq
          cases afterEq
          exact flushed
      | none =>
          rw [Mmu.flush, found] at afterEq
          cases afterEq
          rw [unmapPage_unchanged found (unmapPage_of_vmmStep changed)]
          exact coherent

theorem Mmu.flush_vmm (mmu : Mmu) (vmm : Vmm) (call : VmmCall) : (mmu.flush vmm call).vmm = vmm := by
  cases call with
  | mapPage virt phys flags => rfl
  | unmapPage virt =>
      rw [Mmu.flush]
      split <;> rfl

theorem Mmu.walk_cases {mmu after : Mmu} {virt : Nat} (stepped : mmu.step (.walk virt) = some after) :
    after = mmu ∨ ∃ found, walkPage mmu.vmm (virt / PAGE_SIZE) = some found ∧
      after = { mmu with cached := (virt / PAGE_SIZE, found) :: mmu.cached } := by
  cases walked : walkPage mmu.vmm (virt / PAGE_SIZE) with
  | none =>
      simp only [Mmu.step, walked, Option.some.injEq] at stepped
      exact Or.inl stepped.symm
  | some found =>
      simp only [Mmu.step, walked, Option.some.injEq] at stepped
      exact Or.inr ⟨found, rfl, stepped.symm⟩

theorem Mmu.step_vmm {mmu after : Mmu} {event : MmuEvent} (managed : mmu.vmm.Managed)
    (admissible : event.Admissible mmu.vmm) (stepped : mmu.step event = some after) :
    after.vmm.Managed ∧ ∀ virt, NoLargePage mmu.vmm virt → NoLargePage after.vmm virt := by
  have unchanged : after.vmm = mmu.vmm →
      after.vmm.Managed ∧ ∀ virt, NoLargePage mmu.vmm virt → NoLargePage after.vmm virt := by
    intro same
    rw [same]
    exact ⟨managed, fun _ noLarge => noLarge⟩
  cases event with
  | operation call =>
      obtain ⟨vmm, changed, afterEq⟩ := Option.map_eq_some_iff.mp stepped
      have tables : after.vmm = vmm := by
        rw [← afterEq]
        exact mmu.flush_vmm vmm call
      obtain ⟨managedAfter, _, noLarge⟩ :=
        vmmStep_represents managed (represents_initial mmu.vmm) admissible changed
      rw [tables]
      exact ⟨managedAfter, noLarge⟩
  | walk virt =>
      apply unchanged
      rcases Mmu.walk_cases stepped with rfl | ⟨found, _, rfl⟩ <;> rfl
  | evict page =>
      cases stepped
      exact unchanged rfl

theorem Mmu.Coherent.step {mmu after : Mmu} {event : MmuEvent} (coherent : mmu.Coherent)
    (managed : mmu.vmm.Managed) (admissible : event.Admissible mmu.vmm)
    (stepped : mmu.step event = some after) : after.Coherent := by
  cases event with
  | operation call => exact coherent.call managed admissible stepped
  | walk virt =>
      rcases Mmu.walk_cases stepped with rfl | ⟨found, walked, rfl⟩
      · exact coherent
      · intro entry member
        rcases List.mem_cons.mp member with rfl | old
        · exact ⟨canonical_page admissible, walked⟩
        · exact coherent entry old
  | evict page =>
      cases stepped
      exact coherent.subset fun entry member => (List.mem_filter.mp member).1

theorem Mmu.Coherent.translate {mmu : Mmu} (coherent : mmu.Coherent) (virt : Nat) :
    mmu.translate virt =
      (mmuTranslate mmu.vmm virt).map fun phys => (phys, walkRights mmu.vmm virt) := by
  unfold Mmu.translate
  split
  case h_1 entry page kept found =>
    have member := List.mem_of_find?_eq_some found
    have samePage : page = virt / PAGE_SIZE := by simpa using List.find?_some found
    obtain ⟨translated, rights⟩ := walkPage_some (coherent _ member).2
    subst page
    rw [mmuTranslate_page, walkRights_page, translated, rights]
    rfl
  case h_2 => rfl

theorem MmuEvent.Admissible.mono {vmm after : Vmm} {event : MmuEvent}
    (admissible : event.Admissible vmm)
    (noLarge : ∀ virt, NoLargePage vmm virt → NoLargePage after virt) :
    event.Admissible after := by
  cases event with
  | operation call => exact VmmCall.Admissible.mono admissible noLarge
  | walk virt => exact admissible
  | evict page => exact admissible

theorem Mmu.exec_coherent {mmu after : Mmu} {events : List MmuEvent} (coherent : mmu.Coherent)
    (managed : mmu.vmm.Managed)
    (admissible : ∀ event, event ∈ events → event.Admissible mmu.vmm)
    (reached : LabelledRun.exec Mmu.step mmu events = some after) : after.Coherent := by
  induction events generalizing mmu with
  | nil =>
      cases reached
      exact coherent
  | cons event rest ih =>
      obtain ⟨next, stepped, continued⟩ := LabelledRun.exec_cons_eq_some.mp reached
      have first := admissible event (List.mem_cons_self ..)
      obtain ⟨nextManaged, noLarge⟩ := Mmu.step_vmm managed first stepped
      exact ih (coherent.step managed first stepped) nextManaged
        (fun other member => (admissible other (List.mem_cons_of_mem _ member)).mono noLarge)
        continued

/-- Whatever the processor keeps, forgets and walks ahead between the calls, an access
always gets the frame and the rights that the tables hold at that time. -/
theorem no_stale_translation {mmu after : Mmu} {events : List MmuEvent} {virt : Nat}
    (coherent : mmu.Coherent) (tree : TreeShaped mmu.vmm) (fresh : AllocatesNoTable mmu.vmm)
    (physical : mmu.vmm.pmm.totalPages * PAGE_SIZE ≤ 2 ^ 52)
    (admissible : ∀ event, event ∈ events → event.Admissible mmu.vmm)
    (reached : LabelledRun.exec Mmu.step mmu events = some after) :
    after.translate virt =
      (mmuTranslate after.vmm virt).map fun phys => (phys, walkRights after.vmm virt) :=
  (Mmu.exec_coherent coherent ⟨tree, fresh, physical⟩ admissible reached).translate virt

/-- A page is mapped again after the processor has used it, another one is kept. -/
def remappingEvents : List MmuEvent :=
  [.operation (.mapPage 0x400000 0x7000 PTE_WRITABLE), .walk 0x400123,
    .operation (.mapPage 0x401000 0x8000 PTE_NO_EXEC), .walk 0x401000,
    .operation (.mapPage 0x400000 0x9000 PTE_WRITABLE)]

theorem remappingEvents_admissible :
    ∀ event, event ∈ remappingEvents → event.Admissible sampleVmm := by
  intro event member
  simp only [remappingEvents, List.mem_cons, List.not_mem_nil, or_false] at member
  rcases member with rfl | rfl | rfl | rfl | rfl
  · exact ⟨Or.inl (by decide), sampleVmm_empty.noLargePage _, by decide, by unfold PteFlags; decide⟩
  · exact Or.inl (by decide)
  · exact ⟨Or.inl (by decide), sampleVmm_empty.noLargePage _, by decide, by unfold PteFlags; decide⟩
  · exact Or.inl (by decide)
  · exact ⟨Or.inl (by decide), sampleVmm_empty.noLargePage _, by decide, by unfold PteFlags; decide⟩

theorem remapped_page_translated :
    ∃ after, LabelledRun.exec Mmu.step ⟨sampleVmm, []⟩ remappingEvents = some after ∧
      after.cached.map Prod.fst = [0x401] ∧
      after.translate 0x400123 =
        some (0x9123, { write := true, user := false, noExec := false }) := by
  have kept : (LabelledRun.exec Mmu.step ⟨sampleVmm, []⟩ remappingEvents).map
      (fun after => (after.cached.map Prod.fst, (mmuTranslate after.vmm 0x400123).map
        fun phys => (phys, walkRights after.vmm 0x400123))) =
      some ([0x401], some (0x9123, { write := true, user := false, noExec := false })) := by
    decide +kernel
  obtain ⟨after, reached, found⟩ := Option.map_eq_some_iff.mp kept
  obtain ⟨pages, walked⟩ := Prod.mk.inj found
  refine ⟨after, reached, pages, ?_⟩
  exact (no_stale_translation (fun _ member => absurd member List.not_mem_nil)
    sampleVmm_empty.treeShaped sampleVmm_fresh (by decide) remappingEvents_admissible reached).trans walked

end CustomKernel.Memory
