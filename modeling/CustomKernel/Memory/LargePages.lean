/-
Large pages.

The processor stops its walk at a present PDPT or PD entry whose bit 7 is set and
translates through a 1 GiB or 2 MiB page.  The software walk never looks at that
bit: it takes the frame of such an entry for the next table.  Without large pages
on the way the two walks agree; with one they agree only when the words misread
as entries happen to hold the same frame.
-/

import CustomKernel.Memory.PageMapping

set_option autoImplicit false

namespace CustomKernel.Memory

/-! ### The processor's walk -/

/-- The translation the memory management unit computes, `none` when it faults
because an entry is not present. -/
def mmuTranslate (vmm : Vmm) (virt : Nat) : Option Nat :=
  if isPresent (pml4Entry vmm virt) = false then none
  else if isPresent (pdptEntry vmm virt) = false then none
  else if pageSizeBit (pdptEntry vmm virt) = true then
    some (entryAddr (pdptEntry vmm virt) / 2 ^ 30 * 2 ^ 30 + virt % 2 ^ 30)
  else if isPresent (pdEntry vmm virt) = false then none
  else if pageSizeBit (pdEntry vmm virt) = true then
    some (entryAddr (pdEntry vmm virt) / 2 ^ 21 * 2 ^ 21 + virt % 2 ^ 21)
  else if isPresent (ptEntry vmm virt) = false then none
  else some (entryAddr (ptEntry vmm virt) + virt % PAGE_SIZE)

/-- The large-page entry at which the processor stops, with the size of its page. -/
def largeLeafOf (vmm : Vmm) (virt : Nat) : Option (BitVec 64 × Nat) :=
  if isPresent (pml4Entry vmm virt) = true ∧ isPresent (pdptEntry vmm virt) = true then
    if pageSizeBit (pdptEntry vmm virt) = true then some (pdptEntry vmm virt, 2 ^ 30)
    else if isPresent (pdEntry vmm virt) = true ∧ pageSizeBit (pdEntry vmm virt) = true then
      some (pdEntry vmm virt, 2 ^ 21)
    else none
  else none

theorem largeLeafOf_none_iff (vmm : Vmm) (virt : Nat) :
    largeLeafOf vmm virt = none ↔ NoLargePage vmm virt := by
  rw [noLargePage_iff, largeLeafOf]
  cases isPresent (pml4Entry vmm virt) <;> cases isPresent (pdptEntry vmm virt) <;>
    cases pageSizeBit (pdptEntry vmm virt) <;> simp

theorem largeLeafOf_cases {vmm : Vmm} {virt size : Nat} {leaf : BitVec 64}
    (stops : largeLeafOf vmm virt = some (leaf, size)) :
    isPresent (pml4Entry vmm virt) = true ∧ isPresent (pdptEntry vmm virt) = true ∧
      (leaf = pdptEntry vmm virt ∧ size = 2 ^ 30 ∧ pageSizeBit (pdptEntry vmm virt) = true ∨
        leaf = pdEntry vmm virt ∧ size = 2 ^ 21 ∧ pageSizeBit (pdptEntry vmm virt) = false ∧
          isPresent (pdEntry vmm virt) = true ∧ pageSizeBit (pdEntry vmm virt) = true) := by
  unfold largeLeafOf at stops
  split at stops
  · rename_i linked
    split at stops
    · rename_i huge
      cases stops
      exact ⟨linked.1, linked.2, Or.inl ⟨rfl, rfl, huge⟩⟩
    · rename_i small
      split at stops
      · rename_i large
        cases stops
        exact ⟨linked.1, linked.2,
          Or.inr ⟨rfl, rfl, Bool.eq_false_of_not_eq_true small, large.1, large.2⟩⟩
      · cases stops
  · cases stops

theorem mmuTranslate_large {vmm : Vmm} {virt size : Nat} {leaf : BitVec 64}
    (stops : largeLeafOf vmm virt = some (leaf, size)) :
    mmuTranslate vmm virt = some (entryAddr leaf / size * size + virt % size) := by
  obtain ⟨pml4, pdpt, which⟩ := largeLeafOf_cases stops
  rcases which with ⟨leafEq, sizeEq, huge⟩ | ⟨leafEq, sizeEq, small, pd, large⟩
  · subst leaf size
    simp [mmuTranslate, pml4, pdpt, huge]
  · subst leaf size
    simp [mmuTranslate, pml4, pdpt, small, pd, large]

theorem mmuTranslate_present {vmm : Vmm} {virt : Nat} (mapped : mmuTranslate vmm virt ≠ none) :
    isPresent (pml4Entry vmm virt) = true ∧ isPresent (pdptEntry vmm virt) = true := by
  unfold mmuTranslate at mapped
  cases pml4 : isPresent (pml4Entry vmm virt) with
  | false => exact absurd (if_pos pml4) mapped
  | true =>
      cases pdpt : isPresent (pdptEntry vmm virt) with
      | false => simp [pml4, pdpt] at mapped
      | true => exact ⟨rfl, rfl⟩

/-! ### The frames the operations take for tables -/

/-- The frames whose words the walk through existing entries reads as entries. -/
def walkTables (vmm : Vmm) (virt : Nat) : List Nat :=
  rootTable vmm ::
    if isPresent (pml4Entry vmm virt) then
      entryAddr (pml4Entry vmm virt) ::
        if isPresent (pdptEntry vmm virt) then
          entryAddr (pdptEntry vmm virt) ::
            if isPresent (pdEntry vmm virt) then [entryAddr (pdEntry vmm virt)] else []
        else []
    else []

theorem mem_walkTables {vmm : Vmm} {virt frame : Nat} :
    frame ∈ walkTables vmm virt ↔
      frame = rootTable vmm ∨
      isPresent (pml4Entry vmm virt) = true ∧
        (frame = entryAddr (pml4Entry vmm virt) ∨
        isPresent (pdptEntry vmm virt) = true ∧
          (frame = entryAddr (pdptEntry vmm virt) ∨
          isPresent (pdEntry vmm virt) = true ∧ frame = entryAddr (pdEntry vmm virt))) := by
  unfold walkTables
  cases isPresent (pml4Entry vmm virt) <;> cases isPresent (pdptEntry vmm virt) <;>
    cases isPresent (pdEntry vmm virt) <;> simp

def IsTable (vmm : Vmm) (frame : Nat) : Prop :=
  ∃ path, tableAt vmm path = some frame

/-- The frame lies in the page of a large-page entry of the tree. -/
def LargeData (vmm : Vmm) (frame : Nat) : Prop :=
  ∃ path table slot, tableAt vmm path = some table ∧ slot < 512 ∧
    isPresent (entryAt vmm table slot) = true ∧
    largeLeaf path.length (entryAt vmm table slot) = true ∧
    frame / (if path.length = 1 then 2 ^ 30 else 2 ^ 21) =
      entryAddr (entryAt vmm table slot) / (if path.length = 1 then 2 ^ 30 else 2 ^ 21)

def SmallData (vmm : Vmm) (frame : Nat) : Prop :=
  ∃ path slot entry, path.length = 3 ∧ slot < 512 ∧ leafAt vmm path slot = some entry ∧
    entryAddr entry = frame

def OnlyLargeData (vmm : Vmm) (frame : Nat) : Prop :=
  LargeData vmm frame ∧ ¬ IsTable vmm frame ∧ ¬ SmallData vmm frame

/-- The lookup equals the processor's translation, and no frame taken for a table
is reachable only as data of a large page. -/
def AgreesWithMmu (vmm : Vmm) (virt : Nat) : Prop :=
  getPhysAddr vmm virt = mmuTranslate vmm virt ∧
    ∀ frame, frame ∈ walkTables vmm virt → ¬ OnlyLargeData vmm frame

/-- The words `map_page` may change: those of the tables on its walk and of pages
the allocator had to give. -/
def Touchable (vmm : Vmm) (virt address : Nat) : Prop :=
  (∃ frame, frame ∈ walkTables vmm virt ∧ frame ≤ address ∧ address < frame + PAGE_SIZE) ∨
    ∃ page, vmm.pmm.Free page ∧ page * PAGE_SIZE ≤ address ∧ address < page * PAGE_SIZE + PAGE_SIZE

theorem changed_slot {vmm : Vmm} {table slot address : Nat} {value : BitVec 64}
    (isFrame : IsFrame table) (inside : slot < 512)
    (changed : (writeVolatile vmm (tableAdd (physToVirt vmm table) slot) value).physMem address ≠
      vmm.physMem address) :
    table ≤ address ∧ address < table + PAGE_SIZE := by
  unfold writeVolatile tableAdd at changed
  rw [directMap_add (isFrame.slot_fits inside)] at changed
  have here : address = table + 8 * slot := by
    by_contra elsewhere
    exact changed (Function.update_of_ne elsewhere _ _)
  unfold PAGE_SIZE
  omega

theorem changed_zeroed {vmm : Vmm} {table address : Nat} (isFrame : IsFrame table)
    (changed : (zeroTable vmm (physToVirt vmm table)).physMem address ≠ vmm.physMem address) :
    table ≤ address ∧ address < table + PAGE_SIZE := by
  have small : table < 2 ^ 64 := Nat.lt_trans isFrame.2 (by decide)
  unfold zeroTable at changed
  rw [directMap small] at changed
  by_contra outside
  exact changed (if_neg outside)

/-- Where `map_page` stands: still at a table of the walk with memory untouched, or
at an empty table made of a page it has taken. -/
structure Descent (vmm now : Vmm) (virt table walked : Nat) (linked : Prop) : Prop where
  physical : now.pmm.totalPages * PAGE_SIZE ≤ 2 ^ 52
  isFrame : IsFrame table
  free : ∀ page, now.pmm.Free page → vmm.pmm.Free page
  changed : ∀ address, now.physMem address ≠ vmm.physMem address → Touchable vmm virt address
  onWalk : linked → walked ∈ walkTables vmm virt
  place : (now = vmm ∧ table = walked ∧ linked) ∨
    ((∃ page, vmm.pmm.Free page ∧ ¬ now.pmm.Free page ∧ table = page * PAGE_SIZE) ∧
      ∀ slot, slot < 512 → isPresent (entryAt now table slot) = false)

theorem Descent.touchable {vmm now : Vmm} {virt table walked address : Nat} {linked : Prop}
    (descent : Descent vmm now virt table walked linked)
    (inTable : table ≤ address ∧ address < table + PAGE_SIZE) : Touchable vmm virt address := by
  rcases descent.place with ⟨_, same, isLinked⟩ | ⟨⟨page, free, _, same⟩, _⟩
  · subst table
    exact Or.inl ⟨walked, descent.onWalk isLinked, inTable⟩
  · subst table
    exact Or.inr ⟨page, free, inTable⟩

theorem Descent.next {vmm now after : Vmm} {virt table walked slot pointer : Nat} {linked : Prop}
    (noAlias : ∀ page, vmm.pmm.Free page → page * PAGE_SIZE ∉ walkTables vmm virt)
    (descent : Descent vmm now virt table walked linked) (inside : slot < 512)
    (link : linked ∧ isPresent (entryAt vmm walked slot) = true →
      entryAddr (entryAt vmm walked slot) ∈ walkTables vmm virt)
    (result : nextTableOrCreate now (physToVirt now table) slot = .ok (pointer, after)) :
    ∃ child, pointer = physToVirt after child ∧
      Descent vmm after virt child (entryAddr (entryAt vmm walked slot))
        (linked ∧ isPresent (entryAt vmm walked slot) = true) := by
  rcases nextTableOrCreate_cases descent.physical descent.isFrame inside result with
    ⟨present, afterEq, pointerEq⟩ |
    ⟨_, page, pmm, free, isFrame, total, used, pointerEq, afterEq⟩
  · subst after
    rcases descent.place with ⟨nowEq, same, isLinked⟩ | ⟨_, bare⟩
    · subst now table
      exact ⟨_, pointerEq,
        { physical := descent.physical
          isFrame := entryAddr_isFrame _
          free := descent.free
          changed := descent.changed
          onWalk := link
          place := Or.inl ⟨rfl, rfl, isLinked, present⟩ }⟩
    · rw [bare slot inside] at present
      cases present
  · have pmmEq : after.pmm = pmm := by rw [afterEq]; rfl
    have wasFree : vmm.pmm.Free page := descent.free page free
    have different : page * PAGE_SIZE ≠ table := by
      intro same
      rcases descent.place with ⟨_, atWalked, isLinked⟩ | ⟨⟨other, _, otherUsed, otherEq⟩, _⟩
      · exact noAlias page wasFree (by rw [same, atWalked]; exact descent.onWalk isLinked)
      · have samePage : page = other := by
          unfold PAGE_SIZE at *
          omega
        exact otherUsed (by rw [← samePage]; exact free)
    refine ⟨page * PAGE_SIZE, by rw [pointerEq, afterEq]; rfl, ?_⟩
    exact
      { physical := by
          rw [pmmEq, total]
          exact descent.physical
        isFrame := isFrame
        free := by
          intro other otherFree
          rw [pmmEq] at otherFree
          have clear := otherFree.2
          rw [used, Bool.or_eq_false_iff] at clear
          exact descent.free other ⟨by rw [← total]; exact otherFree.1, clear.2⟩
        changed := by
          intro address changed
          rw [afterEq] at changed
          by_cases slotKept : after.physMem address =
              (zeroTable { now with pmm := pmm } (physToVirt now (page * PAGE_SIZE))).physMem address
          · by_cases pageKept :
                (zeroTable { now with pmm := pmm } (physToVirt now (page * PAGE_SIZE))).physMem
                  address = now.physMem address
            · rw [afterEq] at slotKept
              rw [slotKept, pageKept] at changed
              exact descent.changed address changed
            · exact Or.inr ⟨page, wasFree,
                @changed_zeroed { now with pmm := pmm } _ _ isFrame pageKept⟩
          · rw [afterEq] at slotKept
            exact descent.touchable (@changed_slot
              (zeroTable { now with pmm := pmm } (physToVirt now (page * PAGE_SIZE)))
              _ _ _ _ descent.isFrame inside slotKept)
        onWalk := link
        place := by
          refine Or.inr ⟨⟨page, wasFree, ?_, rfl⟩, ?_⟩
          · intro stillFree
            rw [pmmEq] at stillFree
            have clear := stillFree.2
            rw [used] at clear
            simp at clear
          · intro turn turnInside
            rw [afterEq, entryAt_created descent.isFrame inside isFrame isFrame turnInside,
              if_neg (fun both => different both.1), if_pos rfl]
            exact isPresent_zero }

theorem mapPage_touches {vmm after : Vmm} {virt phys address : Nat} {flags : BitVec 64}
    (physical : vmm.pmm.totalPages * PAGE_SIZE ≤ 2 ^ 52)
    (noAlias : ∀ page, vmm.pmm.Free page → page * PAGE_SIZE ∉ walkTables vmm virt)
    (mapped : mapPage vmm virt phys flags = .ok after)
    (changed : after.physMem address ≠ vmm.physMem address) : Touchable vmm virt address := by
  obtain ⟨_, pdpt, first, pd, second, pt, third, pdptStep, pdStep, ptStep, afterEq⟩ :=
    mapPage_steps mapped
  have root : Descent vmm vmm virt (rootTable vmm) (rootTable vmm) True :=
    { physical := physical
      isFrame := entryAddr_isFrame _
      free := fun _ free => free
      changed := fun _ changed => absurd rfl changed
      onWalk := fun _ => mem_walkTables.mpr (Or.inl rfl)
      place := Or.inl ⟨rfl, rfl, trivial⟩ }
  obtain ⟨pdptTable, pdptEq, atPdpt⟩ := root.next noAlias (pml4Idx_lt virt)
    (fun links => mem_walkTables.mpr (Or.inr ⟨links.2, Or.inl rfl⟩)) pdptStep
  subst pdptEq
  obtain ⟨pdTable, pdEq, atPd⟩ := atPdpt.next noAlias (pdptIdx_lt virt)
    (fun links => mem_walkTables.mpr (Or.inr ⟨links.1.2, Or.inr ⟨links.2, Or.inl rfl⟩⟩)) pdStep
  subst pdEq
  obtain ⟨ptTable, ptEq, atPt⟩ := atPd.next noAlias (pdIdx_lt virt)
    (fun links => mem_walkTables.mpr
      (Or.inr ⟨links.1.1.2, Or.inr ⟨links.1.2, Or.inr ⟨links.2, rfl⟩⟩⟩)) ptStep
  subst ptEq
  by_cases kept : after.physMem address = third.physMem address
  · rw [kept] at changed
    exact atPt.changed address changed
  · rw [afterEq] at kept
    exact atPt.touchable (changed_slot atPt.isFrame (ptIdx_lt virt) kept)

theorem unmapPage_touches {vmm after : Vmm} {virt address : Nat}
    (unmapped : unmapPage vmm virt = .ok after)
    (changed : after.physMem address ≠ vmm.physMem address) :
    ∃ frame, frame ∈ walkTables vmm virt ∧ frame ≤ address ∧ address < frame + PAGE_SIZE := by
  unfold unmapPage at unmapped
  split at unmapped
  · cases unmapped
  · rw [walkExisting_entries] at unmapped
    split at unmapped
    · rename_i absent
      cases unmapped
      exact absurd rfl changed
    · rename_i pt slot entry found
      split at found
      · rename_i links
        cases found
        cases unmapped
        exact ⟨entryAddr (pdEntry vmm virt),
          mem_walkTables.mpr (Or.inr ⟨links.1, Or.inr ⟨links.2.1, Or.inr ⟨links.2.2, rfl⟩⟩⟩),
          changed_slot (entryAddr_isFrame _) (ptIdx_lt virt) changed⟩
      · cases found

/-! ### Agreement -/

theorem getPhysAddr_entries (vmm : Vmm) (virt : Nat) :
    getPhysAddr vmm virt =
      if isPresent (pml4Entry vmm virt) = true ∧ isPresent (pdptEntry vmm virt) = true ∧
          isPresent (pdEntry vmm virt) = true ∧ isPresent (ptEntry vmm virt) = true then
        some (entryAddr (ptEntry vmm virt) + virt % PAGE_SIZE)
      else none := by
  rw [getPhysAddr, walkExisting_entries]
  by_cases reached : isPresent (pml4Entry vmm virt) = true ∧
      isPresent (pdptEntry vmm virt) = true ∧ isPresent (pdEntry vmm virt) = true
  · rw [if_pos reached]
    cases present : isPresent (ptEntry vmm virt) with
    | false => simp [present]
    | true => simp [present, reached, frame_or_offset (entryAddr_isFrame _)]
  · rw [if_neg reached, if_neg]
    intro all
    exact reached ⟨all.1, all.2.1, all.2.2.1⟩

theorem mmuTranslate_noLarge {vmm : Vmm} {virt : Nat} (noLarge : NoLargePage vmm virt) :
    mmuTranslate vmm virt = getPhysAddr vmm virt := by
  have small := (noLargePage_iff vmm virt).mp noLarge
  rw [getPhysAddr_entries, mmuTranslate]
  cases pml4 : isPresent (pml4Entry vmm virt) with
  | false => simp
  | true =>
      cases pdpt : isPresent (pdptEntry vmm virt) with
      | false => simp
      | true =>
          have sizes := small pml4 pdpt
          cases pd : isPresent (pdEntry vmm virt) with
          | false => simp [sizes.1]
          | true =>
              have last := sizes.2 pd
              cases isPresent (ptEntry vmm virt) <;> simp [sizes.1, last]

theorem walkTables_isTable {vmm : Vmm} {virt frame : Nat} (noLarge : NoLargePage vmm virt)
    (member : frame ∈ walkTables vmm virt) : IsTable vmm frame := by
  have small := (noLargePage_iff vmm virt).mp noLarge
  rcases mem_walkTables.mp member with root | ⟨pml4, pdptFrame | ⟨pdpt, pdFrame | ⟨pd, ptFrame⟩⟩⟩
  · exact ⟨[], by rw [root]; rfl⟩
  · exact ⟨[pml4Idx virt], by rw [tableAt_pdpt, if_pos pml4, pdptFrame]⟩
  · have sizes := small pml4 pdpt
    exact ⟨[pdptIdx virt, pml4Idx virt], by
      rw [tableAt_pd, if_pos ⟨pml4, pdpt, sizes.1⟩, pdFrame]⟩
  · have sizes := small pml4 pdpt
    exact ⟨pathOf virt, by
      rw [tableAt_pt, if_pos ⟨pml4, pdpt, sizes.1, pd, sizes.2 pd⟩, ptFrame]⟩

theorem largeLeafOf_data {vmm : Vmm} {virt size : Nat} {leaf : BitVec 64}
    (stops : largeLeafOf vmm virt = some (leaf, size)) :
    LargeData vmm (entryAddr leaf) := by
  obtain ⟨pml4, pdpt, which⟩ := largeLeafOf_cases stops
  rcases which with ⟨leafEq, _, huge⟩ | ⟨leafEq, _, small, pd, large⟩
  · subst leaf
    have reached := tableAt_pdpt vmm virt
    rw [if_pos pml4] at reached
    exact ⟨[pml4Idx virt], _, pdptIdx virt, reached, pdptIdx_lt virt, pdpt, huge, rfl⟩
  · subst leaf
    have reached := tableAt_pd vmm virt
    rw [if_pos ⟨pml4, pdpt, small⟩] at reached
    exact ⟨[pdptIdx virt, pml4Idx virt], _, pdIdx virt, reached, pdIdx_lt virt, pd, large, rfl⟩

/-- What lies at a large leaf when the misreading does no harm: its frame, and the
frame misread below it, are reached in another way too, and the two words misread
as entries are present and hold the 4 KiB frame of the large page. -/
structure Mirrored (vmm : Vmm) (virt : Nat) (leaf : BitVec 64) (size : Nat) : Prop where
  leafShared : IsTable vmm (entryAddr leaf) ∨ SmallData vmm (entryAddr leaf)
  pdPresent : isPresent (pdEntry vmm virt) = true
  pdShared : LargeData vmm (entryAddr (pdEntry vmm virt)) →
    IsTable vmm (entryAddr (pdEntry vmm virt)) ∨ SmallData vmm (entryAddr (pdEntry vmm virt))
  ptPresent : isPresent (ptEntry vmm virt) = true
  ptFrame : entryAddr (ptEntry vmm virt) =
    entryAddr leaf / size * size + virt % size / PAGE_SIZE * PAGE_SIZE

theorem not_onlyLargeData_iff {vmm : Vmm} {frame : Nat} :
    ¬ OnlyLargeData vmm frame ↔
      (LargeData vmm frame → IsTable vmm frame ∨ SmallData vmm frame) := by
  unfold OnlyLargeData
  tauto

theorem offset_split {virt size frame base : Nat} (multiple : size % PAGE_SIZE = 0) :
    frame + virt % PAGE_SIZE = base + virt % size ↔
      frame = base + virt % size / PAGE_SIZE * PAGE_SIZE := by
  have divides : PAGE_SIZE ∣ size := Nat.dvd_of_mod_eq_zero multiple
  have sameOffset : virt % size % PAGE_SIZE = virt % PAGE_SIZE := Nat.mod_mod_of_dvd virt divides
  have parts := Nat.div_add_mod (virt % size) PAGE_SIZE
  rw [sameOffset, Nat.mul_comm] at parts
  omega

/-- At a large page the walks agree exactly when the misread words mirror it. -/
theorem agreesWithMmu_large {vmm : Vmm} {virt size : Nat} {leaf : BitVec 64}
    (stops : largeLeafOf vmm virt = some (leaf, size)) :
    AgreesWithMmu vmm virt ↔ Mirrored vmm virt leaf size := by
  have isData := largeLeafOf_data stops
  obtain ⟨pml4, pdpt, which⟩ := largeLeafOf_cases stops
  have multiple : size % PAGE_SIZE = 0 := by
    rcases which with ⟨_, sizeEq, _⟩ | ⟨_, sizeEq, _⟩ <;> rw [sizeEq] <;> rfl
  have leafOnWalk : entryAddr leaf ∈ walkTables vmm virt := by
    rw [mem_walkTables]
    rcases which with ⟨leafEq, _⟩ | ⟨leafEq, _, _, pd, _⟩
    · exact Or.inr ⟨pml4, Or.inr ⟨pdpt, Or.inl (by rw [leafEq])⟩⟩
    · exact Or.inr ⟨pml4, Or.inr ⟨pdpt, Or.inr ⟨pd, by rw [leafEq]⟩⟩⟩
  unfold AgreesWithMmu
  rw [mmuTranslate_large stops, getPhysAddr_entries]
  constructor
  · rintro ⟨translation, tables⟩
    by_cases found : isPresent (pml4Entry vmm virt) = true ∧
        isPresent (pdptEntry vmm virt) = true ∧ isPresent (pdEntry vmm virt) = true ∧
        isPresent (ptEntry vmm virt) = true
    · rw [if_pos found] at translation
      have pdOnWalk : entryAddr (pdEntry vmm virt) ∈ walkTables vmm virt :=
        mem_walkTables.mpr (Or.inr ⟨pml4, Or.inr ⟨pdpt, Or.inr ⟨found.2.2.1, rfl⟩⟩⟩)
      exact
        { leafShared := not_onlyLargeData_iff.mp (tables _ leafOnWalk) isData
          pdPresent := found.2.2.1
          pdShared := not_onlyLargeData_iff.mp (tables _ pdOnWalk)
          ptPresent := found.2.2.2
          ptFrame := (offset_split multiple).mp (Option.some.inj translation) }
    · rw [if_neg found] at translation
      cases translation
  · intro mirrored
    constructor
    · rw [if_pos ⟨pml4, pdpt, mirrored.pdPresent, mirrored.ptPresent⟩,
        (offset_split multiple).mpr mirrored.ptFrame]
    · intro frame member
      rw [not_onlyLargeData_iff]
      intro isLarge
      rcases mem_walkTables.mp member with
        root | ⟨_, pdptFrame | ⟨_, pdFrame | ⟨_, ptFrame⟩⟩⟩
      · exact Or.inl ⟨[], by rw [root]; rfl⟩
      · exact Or.inl ⟨[pml4Idx virt], by rw [tableAt_pdpt, if_pos pml4, pdptFrame]⟩
      · rcases which with ⟨leafEq, _⟩ | ⟨_, _, small, _⟩
        · rw [pdFrame, ← leafEq]
          exact mirrored.leafShared
        · exact Or.inl ⟨[pdptIdx virt, pml4Idx virt], by
            rw [tableAt_pd, if_pos ⟨pml4, pdpt, small⟩, pdFrame]⟩
      · rcases which with ⟨leafEq, _⟩ | ⟨leafEq, _⟩
        · rw [ptFrame] at isLarge ⊢
          exact mirrored.pdShared isLarge
        · rw [ptFrame, ← leafEq]
          exact mirrored.leafShared

/-- The software walk agrees with the processor exactly when no large page lies on
it, or the words it misreads mirror the large page. -/
theorem walk_agrees_with_mmu_iff (vmm : Vmm) (virt : Nat) :
    AgreesWithMmu vmm virt ↔
      NoLargePage vmm virt ∨
        ∃ leaf size, largeLeafOf vmm virt = some (leaf, size) ∧
          Mirrored vmm virt leaf size := by
  cases stops : largeLeafOf vmm virt with
  | none =>
      have noLarge := (largeLeafOf_none_iff vmm virt).mp stops
      constructor
      · intro _
        exact Or.inl noLarge
      · intro _
        refine ⟨(mmuTranslate_noLarge noLarge).symm, ?_⟩
        intro frame member onlyData
        exact onlyData.2.1 (walkTables_isTable noLarge member)
  | some found =>
      obtain ⟨leaf, size⟩ := found
      have isLarge : ¬ NoLargePage vmm virt := by
        rw [← largeLeafOf_none_iff, stops]
        simp
      rw [agreesWithMmu_large stops]
      constructor
      · intro mirrored
        exact Or.inr ⟨leaf, size, rfl, mirrored⟩
      · rintro (noLarge | ⟨other, otherSize, same, mirrored⟩)
        · exact absurd noLarge isLarge
        · cases same
          exact mirrored

/-- A direct map of one 2 MiB page: the leaf for physical 0 is the first entry of
the directory at 0x3000. -/
def directMapVmm : Vmm :=
  { pmm :=
      { bitmap := fun byte => if byte = 0 then 0xff#8 else 0#8
        bitmapPtr := 0xffff800000000000
        bitmapLen := 8
        totalPages := 64
        freeCount := 56
        usablePage := 56 }
    cr3 := 0x1000#64
    hhdmOffset := 0xffff800000000000
    physMem := fun address =>
      if address = 0x1800 then 0x2003#64
      else if address = 0x2000 then 0x3003#64
      else if address = 0x3000 then 0x83#64
      else 0#64 }

/-- The processor translates the direct-map address, the lookup finds nothing, and
unmapping or mapping a page there would write into the data at physical 0. -/
theorem directMapVmm_disagrees :
    Canonical 0xffff800000012345 ∧
      getPhysAddr directMapVmm 0xffff800000012345 = none ∧
      mmuTranslate directMapVmm 0xffff800000012345 = some 0x12345 ∧
      ¬ AgreesWithMmu directMapVmm 0xffff800000012345 ∧
      ∃ after, mapPage directMapVmm 0xffff800000012000 0x9000 PTE_WRITABLE = .ok after ∧
        after.physMem 0x90 ≠ directMapVmm.physMem 0x90 := by
  refine ⟨Or.inr (by decide), rfl, rfl, ?_, _, rfl, by decide⟩
  intro agrees
  have translation : (none : Option Nat) = some 0x12345 := agrees.1
  cases translation

end CustomKernel.Memory
