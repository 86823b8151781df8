/-
The rights of mapped pages.

The processor allows what all four entries of a walk allow.  The links that
`next_table_or_create` makes are writable and executable but never for the user, so
below tables made by `map_page` a page has the write and no-execute rights of its own
entry and no user right at all.
-/

import CustomKernel.Memory.PageMapping

set_option autoImplicit false

namespace CustomKernel.Memory

structure Rights where
  write : Bool
  user : Bool
  noExec : Bool
  deriving DecidableEq

def Rights.ofEntry (entry : BitVec 64) : Rights :=
  { write := entry.getLsbD 1, user := entry.getLsbD 2, noExec := entry.getLsbD 63 }

def Rights.meet (upper lower : Rights) : Rights :=
  { write := upper.write && lower.write
    user := upper.user && lower.user
    noExec := upper.noExec || lower.noExec }

/-- The rights the processor finds on its walk. -/
def effectiveRights (vmm : Vmm) (virt : Nat) : Rights :=
  (Rights.ofEntry (pml4Entry vmm virt)).meet
    ((Rights.ofEntry (pdptEntry vmm virt)).meet
      ((Rights.ofEntry (pdEntry vmm virt)).meet (Rights.ofEntry (ptEntry vmm virt))))

/-- The flags that say what a page is for. -/
def RightsFlags (flags : BitVec 64) : Prop :=
  flags &&& ~~~(PTE_WRITABLE ||| PTE_USER ||| PTE_NO_EXEC) = 0#64

instance (flags : BitVec 64) : Decidable (RightsFlags flags) :=
  inferInstanceAs (Decidable (_ = _))

/-! ### Links -/

theorem writeLeaf_links {vmm : Vmm} {path : List Nat} {table slot : Nat} (entry : BitVec 64)
    (managed : vmm.Managed) (reached : tableAt vmm path = some table) (deep : path.length = 3)
    (inside : slot < 512) :
    LinksGrow vmm (writeVolatile vmm (tableAdd (physToVirt vmm table) slot) entry) := by
  intro route turn short turnInside
  left
  have tables := @writeLeaf_tables vmm path table slot entry managed reached deep inside route
  cases found : tableAt vmm route with
  | none => rw [leafAt_none turn found, leafAt_none turn (tables.trans found)]
  | some parent =>
      have elsewhere : ¬(route = path ∧ turn = slot) := by
        intro both
        rw [both.1] at short
        omega
      have kept := @writeLeaf_entries vmm path table slot entry managed reached inside route parent
        turn found turnInside
      rw [if_neg elsewhere] at kept
      rw [leafAt_eq found, leafAt_eq (tables.trans found), kept]

theorem mapPage_links {vmm after : Vmm} {virt phys : Nat} {flags : BitVec 64}
    (managed : vmm.Managed) (noLarge : NoLargePage vmm virt)
    (mapped : mapPage vmm virt phys flags = .ok after) : LinksGrow vmm after := by
  rcases mapPage_tables managed noLarge mapped with
    ⟨third, table, managedThird, _, _, grown, reached, rfl⟩
  exact grown.trans (writeLeaf_links _ managedThird reached rfl (ptIdx_lt virt))

theorem unmapPage_links {vmm after : Vmm} {virt : Nat} (managed : vmm.Managed)
    (noLarge : NoLargePage vmm virt) (unmapped : unmapPage vmm virt = .ok after) :
    LinksGrow vmm after := by
  unfold unmapPage at unmapped
  split at unmapped
  case isTrue => cases unmapped
  case isFalse =>
    rw [walkExisting_eq vmm virt noLarge] at unmapped
    cases found : tableAt vmm (pathOf virt) with
    | none =>
        rw [found] at unmapped
        cases unmapped
        exact LinksGrow.refl _
    | some table =>
        rw [found] at unmapped
        cases unmapped
        exact writeLeaf_links 0#64 managed found rfl (ptIdx_lt virt)

theorem vmmStep_links {vmm after : Vmm} {call : VmmCall} (managed : vmm.Managed)
    (admissible : call.Admissible vmm) (stepped : vmmStep vmm call = some after) :
    LinksGrow vmm after := by
  cases call with
  | mapPage virt phys flags =>
      exact mapPage_links managed admissible.2.1 (mapPage_of_vmmStep stepped)
  | unmapPage virt => exact unmapPage_links managed admissible.2 (unmapPage_of_vmmStep stepped)

/-! ### A walk over made links -/

/-- The link, if it is present, was made by `next_table_or_create`. -/
def MadeAt (vmm : Vmm) (path : List Nat) (slot : Nat) : Prop :=
  ∀ entry, leafAt vmm path slot = some entry → ∃ frame, IsFrame frame ∧ entry = tableEntry frame

structure MadeLinks (vmm : Vmm) (virt : Nat) : Prop where
  pml4 : MadeAt vmm [] (pml4Idx virt)
  pdpt : MadeAt vmm [pml4Idx virt] (pdptIdx virt)
  pd : MadeAt vmm [pdptIdx virt, pml4Idx virt] (pdIdx virt)

theorem LinksGrow.madeAt {vmm after : Vmm} {path : List Nat} {slot : Nat}
    (grown : LinksGrow vmm after) (short : path.length < 3) (inside : slot < 512)
    (made : MadeAt vmm path slot) : MadeAt after path slot := by
  intro entry found
  rcases grown path slot short inside with same | ⟨_, frame, isFrame, linked⟩
  · exact made entry (same.symm.trans found)
  · rw [linked] at found
    cases found
    exact ⟨frame, isFrame, rfl⟩

theorem LinksGrow.madeLinks {vmm after : Vmm} {virt : Nat} (grown : LinksGrow vmm after)
    (made : MadeLinks vmm virt) : MadeLinks after virt := by
  constructor
  case pml4 => exact grown.madeAt (by decide : 0 < 3) (pml4Idx_lt virt) made.pml4
  case pdpt => exact grown.madeAt (by decide : 1 < 3) (pdptIdx_lt virt) made.pdpt
  case pd => exact grown.madeAt (by decide : 2 < 3) (pdIdx_lt virt) made.pd

theorem madeLinks_of_absent {vmm : Vmm} {virt : Nat}
    (absent : isPresent (pml4Entry vmm virt) = false) : MadeLinks vmm virt := by
  have pdptAbsent : tableAt vmm [pml4Idx virt] = none := by
    rw [tableAt_pdpt, absent]
    rfl
  have pdAbsent : tableAt vmm [pdptIdx virt, pml4Idx virt] = none :=
    PathTree.nodeAt_cons_none pdptAbsent _
  constructor
  case pml4 =>
    intro entry found
    rw [leafAt_eq (tableAt_nil vmm)] at found
    change (if isPresent (pml4Entry vmm virt) then _ else none) = _ at found
    rw [absent] at found
    cases found
  case pdpt =>
    intro entry found
    rw [leafAt_none _ pdptAbsent] at found
    cases found
  case pd =>
    intro entry found
    rw [leafAt_none _ pdAbsent] at found
    cases found

/-! ### The rights of entries -/

theorem ofNat_frame_high {phys index : Nat} (frame : IsFrame phys) (high : 52 ≤ index) :
    (BitVec.ofNat 64 phys).getLsbD index = false := by
  have bound : phys < 2 ^ index :=
    Nat.lt_of_lt_of_le frame.2 (Nat.pow_le_pow_right (by decide) high)
  rw [BitVec.getLsbD_ofNat, Nat.testBit_lt_two_pow bound, Bool.and_false]

theorem ofEntry_tableEntry {frame : Nat} (isFrame : IsFrame frame) :
    Rights.ofEntry (tableEntry frame) = { write := true, user := false, noExec := false } := by
  simp only [Rights.ofEntry, tableEntry, BitVec.getLsbD_or,
    ofNat_frame_low isFrame (by decide : 1 < 12), ofNat_frame_low isFrame (by decide : 2 < 12),
    ofNat_frame_high isFrame (by decide : 52 ≤ 63)]
  rfl

theorem ofEntry_leafEntry {phys : Nat} (flags : BitVec 64) (isFrame : IsFrame phys) :
    Rights.ofEntry (leafEntry phys flags) = Rights.ofEntry flags := by
  have write : PTE_PRESENT.getLsbD 1 = false := rfl
  have user : PTE_PRESENT.getLsbD 2 = false := rfl
  have noExec : PTE_PRESENT.getLsbD 63 = false := rfl
  simp only [Rights.ofEntry, leafEntry, BitVec.getLsbD_or,
    ofNat_frame_low isFrame (by decide : 1 < 12), ofNat_frame_low isFrame (by decide : 2 < 12),
    ofNat_frame_high isFrame (by decide : 52 ≤ 63), write, user, noExec, Bool.false_or,
    Bool.or_false]

theorem user_iff (flags : BitVec 64) : flags &&& PTE_USER = 0#64 ↔ flags.getLsbD 2 = false := by
  have bit : PTE_USER = BitVec.twoPow 64 2 := rfl
  rw [bit, BitVec.and_twoPow]
  cases flags.getLsbD 2 <;> decide

/-- Over made links a page has the rights of its own entry, less the user right. -/
theorem effectiveRights_eq {vmm : Vmm} {virt phys : Nat} {flags : BitVec 64}
    (made : MadeLinks vmm virt) (isFrame : IsFrame phys)
    (stored : leafAt vmm (pathOf virt) (ptIdx virt) = some (leafEntry phys flags)) :
    effectiveRights vmm virt =
      { write := flags.getLsbD 1, user := false, noExec := flags.getLsbD 63 } := by
  rcases leafAt_some stored with ⟨pt, ptReached, ptEq, _⟩
  rw [tableAt_pt] at ptReached
  split at ptReached
  case isFalse => cases ptReached
  case isTrue linked =>
    rcases linked with ⟨pml4Present, pdptPresent, pdptSmall, pdPresent, _⟩
    have pdptTable := tableAt_pdpt vmm virt
    rw [if_pos pml4Present] at pdptTable
    have pdTable := tableAt_pd vmm virt
    rw [if_pos ⟨pml4Present, pdptPresent, pdptSmall⟩] at pdTable
    have pml4Link : leafAt vmm [] (pml4Idx virt) = some (pml4Entry vmm virt) :=
      (leafAt_eq (tableAt_nil vmm)).trans (if_pos pml4Present)
    have pdptLink : leafAt vmm [pml4Idx virt] (pdptIdx virt) = some (pdptEntry vmm virt) :=
      (leafAt_eq pdptTable).trans (if_pos pdptPresent)
    have pdLink : leafAt vmm [pdptIdx virt, pml4Idx virt] (pdIdx virt) =
        some (pdEntry vmm virt) :=
      (leafAt_eq pdTable).trans (if_pos pdPresent)
    rcases made.pml4 _ pml4Link with ⟨frame4, isFrame4, made4⟩
    rcases made.pdpt _ pdptLink with ⟨frame3, isFrame3, made3⟩
    rcases made.pd _ pdLink with ⟨frame2, isFrame2, made2⟩
    have leaf : ptEntry vmm virt = leafEntry phys flags := by
      cases ptReached
      exact ptEq
    rw [effectiveRights, made4, made3, made2, leaf, ofEntry_tableEntry isFrame4,
      ofEntry_tableEntry isFrame3, ofEntry_tableEntry isFrame2, ofEntry_leafEntry flags isFrame]
    simp [Rights.meet, Rights.ofEntry]

/-! ### Runs -/

theorem VmmCall.Admissible.canonical {vmm : Vmm} {call : VmmCall}
    (admissible : call.Admissible vmm) : Canonical call.virt := by
  cases call with
  | mapPage virt phys flags => exact admissible.1
  | unmapPage virt => exact admissible.1

theorem vmmStep_leaf {vmm after : Vmm} {call : VmmCall} {virt : Nat} (managed : vmm.Managed)
    (admissible : call.Admissible vmm) (canonical : Canonical virt)
    (other : call.virt / PAGE_SIZE ≠ virt / PAGE_SIZE)
    (stepped : vmmStep vmm call = some after) :
    leafAt after (pathOf virt) (ptIdx virt) = leafAt vmm (pathOf virt) (ptIdx virt) := by
  have elsewhere : ¬(pathOf virt = pathOf call.virt ∧ ptIdx virt = ptIdx call.virt) := by
    intro same
    exact other ((sameLeaf_iff canonical admissible.canonical).mp same).symm
  cases call with
  | mapPage mapped phys flags =>
      have leaves := (mapPage_spec managed admissible.2.1 (mapPage_of_vmmStep stepped)).2.1
      rw [leaves (pathOf virt) (ptIdx virt) rfl (ptIdx_lt virt)]
      exact if_neg elsewhere
  | unmapPage unmapped =>
      have leaves := (unmapPage_spec managed admissible.2 (unmapPage_of_vmmStep stepped)).2.1
      rw [leaves (pathOf virt) (ptIdx virt) rfl (ptIdx_lt virt)]
      exact if_neg elsewhere

theorem exec_links {vmm after : Vmm} {calls : List VmmCall} (managed : vmm.Managed)
    (admissible : ∀ call, call ∈ calls → call.Admissible vmm)
    (reached : LabelledRun.exec vmmStep vmm calls = some after) :
    after.Managed ∧ LinksGrow vmm after ∧
      ∀ virt, NoLargePage vmm virt → NoLargePage after virt := by
  induction calls generalizing vmm with
  | nil =>
      cases reached
      exact ⟨managed, LinksGrow.refl _, fun _ noLarge => noLarge⟩
  | cons call rest ih =>
      rcases LabelledRun.exec_cons_eq_some.mp reached with ⟨next, stepped, continued⟩
      have first := admissible call (List.mem_cons_self ..)
      rcases vmmStep_represents managed (represents_initial vmm) first stepped with
        ⟨nextManaged, _, nextNoLarge⟩
      have grown := vmmStep_links managed first stepped
      rcases ih nextManaged
        (fun other member => (admissible other (List.mem_cons_of_mem _ member)).mono nextNoLarge)
        continued with ⟨lastManaged, more, lastNoLarge⟩
      exact ⟨lastManaged, grown.trans more,
        fun virt noLarge => lastNoLarge virt (nextNoLarge virt noLarge)⟩

theorem exec_leaf {vmm after : Vmm} {calls : List VmmCall} {virt : Nat} (managed : vmm.Managed)
    (admissible : ∀ call, call ∈ calls → call.Admissible vmm) (canonical : Canonical virt)
    (others : ∀ call, call ∈ calls → call.virt / PAGE_SIZE ≠ virt / PAGE_SIZE)
    (reached : LabelledRun.exec vmmStep vmm calls = some after) :
    leafAt after (pathOf virt) (ptIdx virt) = leafAt vmm (pathOf virt) (ptIdx virt) := by
  induction calls generalizing vmm with
  | nil =>
      cases reached
      rfl
  | cons call rest ih =>
      rcases LabelledRun.exec_cons_eq_some.mp reached with ⟨next, stepped, continued⟩
      have first := admissible call (List.mem_cons_self ..)
      rcases vmmStep_represents managed (represents_initial vmm) first stepped with
        ⟨nextManaged, _, nextNoLarge⟩
      have kept := vmmStep_leaf managed first canonical (others call (List.mem_cons_self ..)) stepped
      rw [← kept]
      exact ih nextManaged
        (fun other member => (admissible other (List.mem_cons_of_mem _ member)).mono nextNoLarge)
        (fun other member => others other (List.mem_cons_of_mem _ member)) continued

/-- A page mapped below a PML4 entry that was absent at first has the rights in its flags
just if the flags do not ask for the user right, whatever is mapped before it and, on
other pages, after it. -/
theorem requested_rights_iff {vmm after : Vmm} {before later : List VmmCall} {virt phys : Nat}
    {flags : BitVec 64} (tree : TreeShaped vmm) (fresh : AllocatesNoTable vmm)
    (physical : vmm.pmm.totalPages * PAGE_SIZE ≤ 2 ^ 52)
    (admissible : ∀ call, call ∈ before ++ VmmCall.mapPage virt phys flags :: later →
      call.Admissible vmm)
    (absent : isPresent (pml4Entry vmm virt) = false)
    (others : ∀ call, call ∈ later → call.virt / PAGE_SIZE ≠ virt / PAGE_SIZE)
    (reached : LabelledRun.exec vmmStep vmm
      (before ++ VmmCall.mapPage virt phys flags :: later) = some after) :
    effectiveRights after virt = Rights.ofEntry flags ↔ flags &&& PTE_USER = 0#64 := by
  have managed : vmm.Managed := ⟨tree, fresh, physical⟩
  have grown := (exec_links managed admissible reached).2.1
  have made := grown.madeLinks (madeLinks_of_absent absent)
  have own := admissible (.mapPage virt phys flags)
    (List.mem_append_right _ (List.mem_cons_self ..))
  rcases LabelledRun.exec_append_eq_some.mp reached with ⟨middle, first, second⟩
  rcases LabelledRun.exec_cons_eq_some.mp second with ⟨mapped, stepped, continued⟩
  rcases exec_links managed (fun call member => admissible call (List.mem_append_left _ member))
    first with ⟨middleManaged, _, middleNoLarge⟩
  have ownMiddle := own.mono middleNoLarge
  have result := mapPage_of_vmmStep stepped
  rcases mapPage_spec middleManaged ownMiddle.2.1 result with ⟨mappedManaged, leaves, large, _⟩
  have isFrame : IsFrame phys := ⟨(mapPage_steps result).1, own.2.2.1⟩
  have stored : leafAt mapped (pathOf virt) (ptIdx virt) = some (leafEntry phys flags) := by
    rw [leaves (pathOf virt) (ptIdx virt) rfl (ptIdx_lt virt)]
    exact if_pos ⟨rfl, rfl⟩
  have admissibleLater : ∀ call, call ∈ later → call.Admissible mapped := by
    intro call member
    have initial := admissible call
      (List.mem_append_right _ (List.mem_cons_of_mem _ member))
    exact (initial.mono middleNoLarge).mono (fun _ none_ => none_.kept large)
  have kept := exec_leaf mappedManaged admissibleLater own.1 others continued
  rw [effectiveRights_eq made isFrame (kept.trans stored), user_iff]
  simp only [Rights.ofEntry, Rights.mk.injEq, true_and, and_true]
  exact eq_comm

/-- A writable page and one without execution are mapped in the same table. -/
def sharedTableCalls : List VmmCall :=
  [.mapPage 0x400000 0x7000 PTE_WRITABLE, .mapPage 0x401000 0x9000 PTE_NO_EXEC]

theorem sharedTableCalls_rights :
    ∃ after, LabelledRun.exec vmmStep sampleVmm sharedTableCalls = some after ∧
      effectiveRights after 0x400000 = { write := true, user := false, noExec := false } := by
  have admissible : ∀ call, call ∈ sharedTableCalls → call.Admissible sampleVmm := by
    intro call member
    rcases List.mem_pair.mp member with rfl | rfl
    · exact ⟨Or.inl (by decide), sampleVmm_empty.noLargePage _, by decide, by unfold PteFlags; decide⟩
    · exact ⟨Or.inl (by decide), sampleVmm_empty.noLargePage _, by decide, by unfold PteFlags; decide⟩
  refine ⟨_, rfl, ?_⟩
  have rights := @requested_rights_iff sampleVmm _ [] [.mapPage 0x401000 0x9000 PTE_NO_EXEC]
    0x400000 0x7000 PTE_WRITABLE sampleVmm_empty.treeShaped sampleVmm_fresh (by decide) admissible
    rfl
    (by decide) rfl
  exact rights.mpr rfl

/-- A page mapped for the user is not accessible to the user. -/
theorem user_page_not_accessible :
    RightsFlags (PTE_WRITABLE ||| PTE_USER) ∧
      isPresent (pml4Entry sampleVmm 0x400000) = false ∧
      ∃ after, LabelledRun.exec vmmStep sampleVmm
          [.mapPage 0x400000 0x7000 (PTE_WRITABLE ||| PTE_USER)] = some after ∧
        effectiveRights after 0x400000 = { write := true, user := false, noExec := false } ∧
        effectiveRights after 0x400000 ≠ Rights.ofEntry (PTE_WRITABLE ||| PTE_USER) := by
  have rights : (LabelledRun.exec vmmStep sampleVmm
      [.mapPage 0x400000 0x7000 (PTE_WRITABLE ||| PTE_USER)]).map
        (fun after => effectiveRights after 0x400000) =
      some { write := true, user := false, noExec := false } := by
    decide +kernel
  refine ⟨by decide, rfl, _, rfl, Option.some.inj rights, ?_⟩
  intro same
  have users := congrArg Rights.user ((Option.some.inj rights).symm.trans same)
  revert users
  decide

end CustomKernel.Memory
