/-
The mapping operations as updates of a finite map.

Each walk level has one lemma.  From them `map_page` is an update of the leaf map
at the indices of its address, `unmap_page` removes that leaf, and a lookup
reads it.  A run of both is then the fold of the updates, so a lookup sees the
last operation on its page.
-/

import CustomKernel.Memory.PageTree

set_option autoImplicit false

namespace CustomKernel.Memory

/-! ### Walking -/

theorem not_largeAt_root (vmm : Vmm) (slot : Nat) : ¬ LargeAt vmm [] slot := by
  intro isLarge
  obtain ⟨_, _, _, impossible⟩ := isLarge
  cases impossible

section Walk

variable (vmm : Vmm) (virt : Nat)

/-- The four words the software walk reads, each through the one before. -/
def pml4Entry : BitVec 64 := entryAt vmm (rootTable vmm) (pml4Idx virt)
def pdptEntry : BitVec 64 := entryAt vmm (entryAddr (pml4Entry vmm virt)) (pdptIdx virt)
def pdEntry : BitVec 64 := entryAt vmm (entryAddr (pdptEntry vmm virt)) (pdIdx virt)
def ptEntry : BitVec 64 := entryAt vmm (entryAddr (pdEntry vmm virt)) (ptIdx virt)

theorem walkExisting_entries :
    walkExisting vmm virt =
      if isPresent (pml4Entry vmm virt) = true ∧ isPresent (pdptEntry vmm virt) = true ∧
          isPresent (pdEntry vmm virt) = true then
        some (physToVirt vmm (entryAddr (pdEntry vmm virt)), ptIdx virt, ptEntry vmm virt)
      else none := by
  have pml4 : pml4Pointer vmm = physToVirt vmm (rootTable vmm) := rfl
  simp only [walkExisting, splitIndices, pml4,
    readVolatile_table (entryAddr_isFrame _) (pdptIdx_lt virt),
    readVolatile_table (entryAddr_isFrame _) (pdIdx_lt virt),
    readVolatile_table (entryAddr_isFrame _) (ptIdx_lt virt),
    readVolatile_table (tableAt_isFrame (tableAt_nil vmm)) (pml4Idx_lt virt),
    ← pml4Entry.eq_1, ← pdptEntry.eq_1, ← pdEntry.eq_1, ← ptEntry.eq_1]
  cases isPresent (pml4Entry vmm virt) <;> cases isPresent (pdptEntry vmm virt) <;>
    cases isPresent (pdEntry vmm virt) <;> simp

theorem tableAt_pdpt :
    tableAt vmm [pml4Idx virt] =
      if isPresent (pml4Entry vmm virt) = true then some (entryAddr (pml4Entry vmm virt))
      else none := by
  exact tableAt_cons (tableAt_nil vmm) (by decide) (pml4Idx_lt virt) (not_largeAt_root vmm _)

theorem tableAt_pd :
    tableAt vmm [pdptIdx virt, pml4Idx virt] =
      if isPresent (pml4Entry vmm virt) = true ∧ isPresent (pdptEntry vmm virt) = true ∧
          pageSizeBit (pdptEntry vmm virt) = false then
        some (entryAddr (pdptEntry vmm virt))
      else none := by
  have above := tableAt_pdpt vmm virt
  cases present : isPresent (pml4Entry vmm virt) with
  | false =>
      simp only [present, Bool.false_eq_true, if_false] at above
      have absent : tableAt vmm [pdptIdx virt, pml4Idx virt] = none :=
        PathTree.nodeAt_cons_none above (pdptIdx virt)
      simp [absent]
  | true =>
      simp only [present, if_true] at above
      have step : tableAt vmm [pdptIdx virt, pml4Idx virt] =
          tableChild vmm 1 (entryAddr (pml4Entry vmm virt)) (pdptIdx virt) :=
        PathTree.nodeAt_cons above (pdptIdx virt)
      rw [step]
      simp [tableChild, pdptIdx_lt, largeLeaf, ← pdptEntry.eq_1]

theorem tableAt_pt :
    tableAt vmm (pathOf virt) =
      if isPresent (pml4Entry vmm virt) = true ∧ isPresent (pdptEntry vmm virt) = true ∧
          pageSizeBit (pdptEntry vmm virt) = false ∧ isPresent (pdEntry vmm virt) = true ∧
          pageSizeBit (pdEntry vmm virt) = false then
        some (entryAddr (pdEntry vmm virt))
      else none := by
  have above := tableAt_pd vmm virt
  by_cases found : isPresent (pml4Entry vmm virt) = true ∧
      isPresent (pdptEntry vmm virt) = true ∧ pageSizeBit (pdptEntry vmm virt) = false
  · rw [if_pos found] at above
    have step : tableAt vmm (pathOf virt) =
        tableChild vmm 2 (entryAddr (pdptEntry vmm virt)) (pdIdx virt) :=
      PathTree.nodeAt_cons above (pdIdx virt)
    rw [step]
    simp [tableChild, pdIdx_lt, largeLeaf, ← pdEntry.eq_1, found]
  · rw [if_neg found] at above
    have absent : tableAt vmm (pathOf virt) = none :=
      PathTree.nodeAt_cons_none above (pdIdx virt)
    rw [absent, if_neg]
    intro all
    exact found ⟨all.1, all.2.1, all.2.2.1⟩

theorem noLargePage_iff :
    NoLargePage vmm virt ↔
      (isPresent (pml4Entry vmm virt) = true → isPresent (pdptEntry vmm virt) = true →
        pageSizeBit (pdptEntry vmm virt) = false ∧
          (isPresent (pdEntry vmm virt) = true → pageSizeBit (pdEntry vmm virt) = false)) := by
  have pdptTable := tableAt_pdpt vmm virt
  have pdTable := tableAt_pd vmm virt
  unfold NoLargePage LargeAt
  rw [pdptTable, pdTable]
  cases e4 : isPresent (pml4Entry vmm virt) <;> cases e3 : isPresent (pdptEntry vmm virt) <;>
    cases s3 : pageSizeBit (pdptEntry vmm virt) <;>
    simp [largeLeaf, ← pdptEntry.eq_1, ← pdEntry.eq_1, e3, s3]

theorem walkExisting_eq (noLarge : NoLargePage vmm virt) :
    walkExisting vmm virt =
      match tableAt vmm (pathOf virt) with
      | none => none
      | some table =>
          some (physToVirt vmm table, ptIdx virt, entryAt vmm table (ptIdx virt)) := by
  have small := (noLargePage_iff vmm virt).mp noLarge
  rw [walkExisting_entries, tableAt_pt]
  by_cases found : isPresent (pml4Entry vmm virt) = true ∧
      isPresent (pdptEntry vmm virt) = true ∧ isPresent (pdEntry vmm virt) = true
  · obtain ⟨e4, e3, e2⟩ := found
    have sizes := small e4 e3
    rw [if_pos ⟨e4, e3, e2⟩, if_pos ⟨e4, e3, sizes.1, e2, sizes.2 e2⟩]
    rfl
  · rw [if_neg found, if_neg]
    intro all
    exact found ⟨all.1, all.2.1, all.2.2.2.1⟩

end Walk

def frameOf (vmm : Vmm) (virt : Nat) : Option Nat :=
  (leafAt vmm (pathOf virt) (ptIdx virt)).map entryAddr

theorem frame_or_offset {frame virt : Nat} (isFrame : IsFrame frame) :
    frame ||| (virt &&& 0xfff) = frame + virt % PAGE_SIZE := by
  have aligned : frame % 2 ^ 12 = 0 := isFrame.1
  have mask : (0xfff : Nat) = 2 ^ 12 - 1 := rfl
  have offset : virt % 2 ^ 12 < 2 ^ 12 := Nat.mod_lt _ (by decide)
  have base : frame = 2 ^ 12 * (frame / 2 ^ 12) := by omega
  rw [mask, Nat.and_two_pow_sub_one_eq_mod, base, ← Nat.two_pow_add_eq_or_of_lt offset]
  rfl

theorem getPhysAddr_eq {vmm : Vmm} {virt : Nat} (noLarge : NoLargePage vmm virt) :
    getPhysAddr vmm virt = (frameOf vmm virt).map (fun frame => frame + virt % PAGE_SIZE) := by
  unfold getPhysAddr frameOf leafAt
  rw [walkExisting_eq vmm virt noLarge]
  cases tableAt vmm (pathOf virt) with
  | none => rfl
  | some table =>
      cases present : isPresent (entryAt vmm table (ptIdx virt)) with
      | false => simp [present]
      | true => simp [present, frame_or_offset (entryAddr_isFrame _)]

/-! ### One level of `map_page` -/

theorem nextTableOrCreate_cases {vmm after : Vmm} {table slot next : Nat}
    (physical : vmm.pmm.totalPages * PAGE_SIZE ≤ 2 ^ 52) (tableFrame : IsFrame table)
    (inside : slot < 512)
    (result : nextTableOrCreate vmm (physToVirt vmm table) slot = .ok (next, after)) :
    isPresent (entryAt vmm table slot) = true ∧ after = vmm ∧
        next = physToVirt vmm (entryAddr (entryAt vmm table slot)) ∨
      isPresent (entryAt vmm table slot) = false ∧
        ∃ page pmm, vmm.pmm.Free page ∧ IsFrame (page * PAGE_SIZE) ∧
          pmm.totalPages = vmm.pmm.totalPages ∧
          (∀ other, isUsed pmm other = (decide (other = page) || isUsed vmm.pmm other)) ∧
          next = physToVirt vmm (page * PAGE_SIZE) ∧
          after = writeVolatile
            (zeroTable { vmm with pmm := pmm } (physToVirt vmm (page * PAGE_SIZE)))
            (tableAdd (physToVirt vmm table) slot) (tableEntry (page * PAGE_SIZE)) := by
  simp only [nextTableOrCreate, readVolatile_table tableFrame inside] at result
  cases present : isPresent (entryAt vmm table slot) with
  | true =>
      simp only [present, if_true, Except.ok.injEq, Prod.mk.injEq] at result
      exact Or.inl ⟨rfl, result.2.symm, result.1.symm⟩
  | false =>
      simp only [present, Bool.false_eq_true, if_false] at result
      cases taken : allocPage vmm.pmm with
      | mk allocated pmm =>
          cases allocated with
          | none => simp [taken] at result
          | some phys =>
              simp only [taken, Except.ok.injEq, Prod.mk.injEq] at result
              obtain ⟨nextEq, afterEq⟩ := result
              obtain ⟨page, physEq, free, total, used⟩ := allocPage_some taken
              have tracked := free.1
              have exactProduct : Word64.mul page PAGE_SIZE = page * PAGE_SIZE := by
                apply Word64.mul_eq
                unfold PAGE_SIZE Word64.modulus at *
                omega
              have isFrame : IsFrame (page * PAGE_SIZE) := by
                unfold IsFrame PAGE_SIZE at *
                omega
              rw [exactProduct] at physEq
              subst phys
              exact Or.inr ⟨rfl, page, pmm, free, isFrame, total, used, nextEq.symm,
                afterEq.symm⟩

theorem created_of_page {vmm after : Vmm} {path : List Nat} {table slot page : Nat} {pmm : Pmm}
    (managed : vmm.Managed) (reached : tableAt vmm path = some table) (short : path.length < 3)
    (inside : slot < 512) (absent : isPresent (entryAt vmm table slot) = false)
    (free : vmm.pmm.Free page) (isFrame : IsFrame (page * PAGE_SIZE))
    (afterEq : after = writeVolatile
      (zeroTable { vmm with pmm := pmm } (physToVirt vmm (page * PAGE_SIZE)))
      (tableAdd (physToVirt vmm table) slot) (tableEntry (page * PAGE_SIZE))) :
    Created vmm path table slot (page * PAGE_SIZE) after :=
  { tree := managed.tree
    reached := reached
    short := short
    inside := inside
    absent := absent
    isFrame := isFrame
    isNew := managed.fresh page free
    cr3 := by rw [afterEq]; rfl
    hhdmOffset := by rw [afterEq]; rfl
    entries := by
      intro other turn otherFrame turnInside
      rw [afterEq]
      exact entryAt_created (tableAt_isFrame reached) inside isFrame otherFrame turnInside }

theorem nextTableOrCreate_spec {vmm after : Vmm} {path : List Nat} {table slot next : Nat}
    (managed : vmm.Managed) (reached : tableAt vmm path = some table) (short : path.length < 3)
    (inside : slot < 512) (noLarge : ¬ LargeAt vmm path slot)
    (result : nextTableOrCreate vmm (physToVirt vmm table) slot = .ok (next, after)) :
    after.Managed ∧ Extends vmm after ∧ TookTables vmm after ∧
      ∃ child, next = physToVirt after child ∧ tableAt after (slot :: path) = some child := by
  have tableFrame := tableAt_isFrame reached
  rcases nextTableOrCreate_cases managed.physical tableFrame inside result with
    ⟨present, afterEq, nextEq⟩ |
    ⟨absent, page, pmm, free, isFrame, total, used, nextEq, afterEq⟩
  · subst after
    refine ⟨managed, Extends.refl vmm, TookTables.refl vmm, _, nextEq, ?_⟩
    rw [tableAt_cons reached short inside noLarge, if_pos present]
  · have created := created_of_page managed reached short inside absent free isFrame afterEq
    obtain ⟨unchanged, added⟩ := created.tables
    have pmmEq : after.pmm = pmm := by rw [afterEq]; rfl
    have took : TookTables vmm after := by
      refine ⟨⟨by rw [pmmEq]; exact total, ?_⟩, ?_⟩
      · intro other before
        rw [pmmEq, used, before, Bool.or_true]
      · intro route other otherReached
        by_cases here : route = slot :: path
        · rw [here, added] at otherReached
          exact Or.inr ⟨page, (Option.some.inj otherReached).symm, free⟩
        · rw [unchanged route here] at otherReached
          exact Or.inl otherReached
    refine ⟨⟨created.treeShaped, ?_, ?_⟩, created.extends_, took, page * PAGE_SIZE, ?_, added⟩
    · -- the page just linked is no longer free, and the others were no tables
      intro other otherFree route otherReached
      have wasFree := took.pmm.free otherFree
      rw [pmmEq] at otherFree
      have clear := otherFree.2
      rw [used, Bool.or_eq_false_iff, decide_eq_false_iff_not] at clear
      by_cases here : route = slot :: path
      · rw [here, added] at otherReached
        have sameFrame := Option.some.inj otherReached
        unfold PAGE_SIZE at sameFrame
        exact clear.1 (by omega)
      · rw [unchanged route here] at otherReached
        exact managed.fresh other wasFree route otherReached
    · rw [pmmEq, total]
      exact managed.physical
    · rw [nextEq, afterEq]
      rfl

theorem nextTableOrCreate_links {vmm after : Vmm} {path : List Nat} {table slot next : Nat}
    (managed : vmm.Managed) (reached : tableAt vmm path = some table) (short : path.length < 3)
    (inside : slot < 512)
    (result : nextTableOrCreate vmm (physToVirt vmm table) slot = .ok (next, after)) :
    LinksGrow vmm after := by
  rcases nextTableOrCreate_cases managed.physical (tableAt_isFrame reached) inside result with
    ⟨_, rfl, _⟩ | ⟨absent, page, pmm, free, isFrame, _, _, _, afterEq⟩
  · exact LinksGrow.refl _
  · exact (created_of_page managed reached short inside absent free isFrame afterEq).links

/-! ### Writing a leaf -/

section WriteLeaf

variable {vmm : Vmm} {path : List Nat} {table slot : Nat} {entry : BitVec 64}

theorem writeLeaf_entries (managed : vmm.Managed) (reached : tableAt vmm path = some table)
    (inside : slot < 512) {route : List Nat} {parent turn : Nat}
    (parentReached : tableAt vmm route = some parent) (turnInside : turn < 512) :
    entryAt (writeVolatile vmm (tableAdd (physToVirt vmm table) slot) entry) parent turn =
      if route = path ∧ turn = slot then entry else entryAt vmm parent turn := by
  have sameTest : (parent = table ∧ turn = slot) ↔ (route = path ∧ turn = slot) := by
    constructor
    · intro both
      exact ⟨managed.tree route path table (by rw [← both.1]; exact parentReached) reached,
        both.2⟩
    · intro both
      rw [both.1] at parentReached
      exact ⟨Option.some.inj (parentReached.symm.trans reached), both.2⟩
  rw [entryAt_writeVolatile entry (tableAt_isFrame reached) inside (tableAt_isFrame parentReached)
    turnInside]
  simp only [sameTest]

theorem writeLeaf_tables (managed : vmm.Managed) (reached : tableAt vmm path = some table)
    (deep : path.length = 3) (inside : slot < 512) (route : List Nat) :
    tableAt (writeVolatile vmm (tableAdd (physToVirt vmm table) slot) entry) route =
      tableAt vmm route := by
  apply PathTree.nodeAt_congr
  intro route parent turn parentReached
  by_cases here : route = path
  · have notShort : ¬ route.length < 3 := by
      rw [here]
      omega
    simp only [tableChild, notShort, false_and, if_false]
  · apply tableChild_congr
    intro turnInside
    rw [writeLeaf_entries managed reached inside parentReached turnInside,
      if_neg (fun both => here both.1)]

theorem writeLeaf_spec (entry : BitVec 64) (managed : vmm.Managed)
    (reached : tableAt vmm path = some table) (deep : path.length = 3) (inside : slot < 512) :
    let after := writeVolatile vmm (tableAdd (physToVirt vmm table) slot) entry
    after.Managed ∧
      (∀ route turn, route.length = 3 → turn < 512 → leafAt after route turn =
        if route = path ∧ turn = slot then
          (if isPresent entry then some entry else none)
        else leafAt vmm route turn) ∧
      (∀ route turn, turn < 512 → LargeAt after route turn → LargeAt vmm route turn) := by
  intro after
  have tables (route : List Nat) : tableAt after route = tableAt vmm route :=
    writeLeaf_tables managed reached deep inside route
  have entries (route : List Nat) (parent turn : Nat) (parentReached : tableAt vmm route = some parent)
      (turnInside : turn < 512) : entryAt after parent turn =
        if route = path ∧ turn = slot then entry else entryAt vmm parent turn :=
    writeLeaf_entries managed reached inside parentReached turnInside
  refine ⟨⟨?_, ?_, managed.physical⟩, ?_, ?_⟩
  · intro left right node leftReached rightReached
    exact managed.tree left right node ((tables left).symm.trans leftReached)
      ((tables right).symm.trans rightReached)
  · intro page free route
    rw [tables route]
    exact managed.fresh page free route
  · intro route turn _ turnInside
    simp only [leafAt, tables route]
    cases found : tableAt vmm route with
    | none =>
        have elsewhere : ¬(route = path ∧ turn = slot) := by
          intro both
          rw [both.1, reached] at found
          cases found
        rw [if_neg elsewhere]
    | some parent =>
        simp only [entries route parent turn found turnInside]
        split <;> rfl
  · intro route turn turnInside isLarge
    obtain ⟨parent, parentReached, present, large⟩ := isLarge
    rw [tables route] at parentReached
    have elsewhere : ¬(route = path ∧ turn = slot) := by
      intro both
      rw [both.1, largeLeaf, deep] at large
      cases large
    rw [entries route parent turn parentReached turnInside, if_neg elsewhere] at present large
    exact ⟨parent, parentReached, present, large⟩

end WriteLeaf

def leafEntry (phys : Nat) (flags : BitVec 64) : BitVec 64 :=
  BitVec.ofNat 64 phys ||| flags ||| PTE_PRESENT

theorem mapPage_steps {vmm after : Vmm} {virt phys : Nat} {flags : BitVec 64}
    (mapped : mapPage vmm virt phys flags = .ok after) :
    phys % PAGE_SIZE = 0 ∧ ∃ pdpt first pd second pt third,
      nextTableOrCreate vmm (physToVirt vmm (rootTable vmm)) (pml4Idx virt) = .ok (pdpt, first) ∧
      nextTableOrCreate first pdpt (pdptIdx virt) = .ok (pd, second) ∧
      nextTableOrCreate second pd (pdIdx virt) = .ok (pt, third) ∧
      after = writeVolatile third (tableAdd pt (ptIdx virt)) (leafEntry phys flags) := by
  unfold mapPage at mapped
  split at mapped
  · cases mapped
  · split at mapped
    · cases mapped
    · rename_i accepted
      obtain ⟨⟨pdpt, first⟩, pdptStep, mapped⟩ := bind_eq_ok.mp mapped
      obtain ⟨⟨pd, second⟩, pdStep, mapped⟩ := bind_eq_ok.mp mapped
      obtain ⟨⟨pt, third⟩, ptStep, mapped⟩ := bind_eq_ok.mp mapped
      exact ⟨Decidable.not_not.mp accepted, pdpt, first, pd, second, pt, third, pdptStep, pdStep,
        ptStep, (Except.ok.inj mapped).symm⟩

theorem mapPage_tables {vmm after : Vmm} {virt phys : Nat} {flags : BitVec 64}
    (managed : vmm.Managed) (noLarge : NoLargePage vmm virt)
    (mapped : mapPage vmm virt phys flags = .ok after) :
    ∃ third table, third.Managed ∧ Extends vmm third ∧ TookTables vmm third ∧
      LinksGrow vmm third ∧ tableAt third (pathOf virt) = some table ∧
      after = writeVolatile third (tableAdd (physToVirt third table) (ptIdx virt))
        (leafEntry phys flags) := by
  obtain ⟨_, pdpt, first, pd, second, pt, third, pdptStep, pdStep, ptStep, afterEq⟩ :=
    mapPage_steps mapped
  have firstLinks := nextTableOrCreate_links managed (tableAt_nil vmm) (by decide)
    (pml4Idx_lt virt) pdptStep
  obtain ⟨firstManaged, firstExtends, firstTook, pdptTable, pdptEq, pdptReached⟩ :=
    nextTableOrCreate_spec managed (tableAt_nil vmm) (by decide) (pml4Idx_lt virt)
      (not_largeAt_root vmm _) pdptStep
  subst pdptEq
  have secondLinks := nextTableOrCreate_links firstManaged pdptReached (by decide : 1 < 3)
    (pdptIdx_lt virt) pdStep
  obtain ⟨secondManaged, secondExtends, secondTook, pdTable, pdEq, pdReached⟩ :=
    nextTableOrCreate_spec firstManaged pdptReached (by decide : 1 < 3) (pdptIdx_lt virt)
      (fun isLarge => noLarge.1 (firstExtends.large _ _ (pdptIdx_lt virt) isLarge)) pdStep
  subst pdEq
  have early := firstExtends.trans secondExtends
  have thirdLinks := nextTableOrCreate_links secondManaged pdReached (by decide : 2 < 3)
    (pdIdx_lt virt) ptStep
  obtain ⟨thirdManaged, thirdExtends, thirdTook, ptTable, ptEq, ptReached⟩ :=
    nextTableOrCreate_spec secondManaged pdReached (by decide : 2 < 3) (pdIdx_lt virt)
      (fun isLarge => noLarge.2 (early.large _ _ (pdIdx_lt virt) isLarge)) ptStep
  subst ptEq
  exact ⟨third, ptTable, thirdManaged, early.trans thirdExtends,
    (firstTook.trans secondTook).trans thirdTook, (firstLinks.trans secondLinks).trans thirdLinks,
    ptReached, afterEq⟩

theorem mapPage_spec {vmm after : Vmm} {virt phys : Nat} {flags : BitVec 64}
    (managed : vmm.Managed) (noLarge : NoLargePage vmm virt)
    (mapped : mapPage vmm virt phys flags = .ok after) :
    after.Managed ∧
      (∀ route turn, route.length = 3 → turn < 512 → leafAt after route turn =
        if route = pathOf virt ∧ turn = ptIdx virt then some (leafEntry phys flags)
        else leafAt vmm route turn) ∧
      (∀ route turn, turn < 512 → LargeAt after route turn → LargeAt vmm route turn) ∧
      TookTables vmm after := by
  obtain ⟨third, table, managedThird, whole, took, _, reached, afterEq⟩ :=
    mapPage_tables managed noLarge mapped
  obtain ⟨lastManaged, lastLeaves, lastLarge⟩ :=
    writeLeaf_spec (leafEntry phys flags) managedThird reached rfl (ptIdx_lt virt)
  subst afterEq
  refine ⟨lastManaged, ?_, ?_, took.pmm, ?_⟩
  · intro route turn deep turnInside
    have present : isPresent (leafEntry phys flags) = true := isPresent_or_present _
    have leaf := lastLeaves route turn deep turnInside
    rw [whole.leaves route turn deep turnInside, if_pos present] at leaf
    exact leaf
  · intro route turn turnInside isLarge
    exact whole.large route turn turnInside (lastLarge route turn turnInside isLarge)
  · intro route other otherReached
    rw [writeLeaf_tables managedThird reached rfl (ptIdx_lt virt)] at otherReached
    exact took.tables route other otherReached

theorem unmapPage_spec {vmm after : Vmm} {virt : Nat} (managed : vmm.Managed)
    (noLarge : NoLargePage vmm virt) (unmapped : unmapPage vmm virt = .ok after) :
    after.Managed ∧
      (∀ route turn, route.length = 3 → turn < 512 → leafAt after route turn =
        if route = pathOf virt ∧ turn = ptIdx virt then none else leafAt vmm route turn) ∧
      (∀ route turn, turn < 512 → LargeAt after route turn → LargeAt vmm route turn) := by
  unfold unmapPage at unmapped
  split at unmapped
  · cases unmapped
  · rw [walkExisting_eq vmm virt noLarge] at unmapped
    cases found : tableAt vmm (pathOf virt) with
    | none =>
        simp only [found, Except.ok.injEq] at unmapped
        subst after
        refine ⟨managed, ?_, fun _ _ _ isLarge => isLarge⟩
        intro route turn _ _
        split
        · rename_i here
          rw [here.1, leafAt, found]
        · rfl
    | some table =>
        simp only [found, Except.ok.injEq] at unmapped
        subst after
        exact writeLeaf_spec 0#64 managed found rfl (ptIdx_lt virt)

/-! ### The abstract mapping -/

inductive VmmCall where
  | mapPage (virt phys : Nat) (flags : BitVec 64)
  | unmapPage (virt : Nat)

def VmmCall.virt : VmmCall → Nat
  | .mapPage virt _ _ => virt
  | .unmapPage virt => virt

def vmmStep (vmm : Vmm) : VmmCall → Option Vmm
  | .mapPage virt phys flags => (mapPage vmm virt phys flags).toOption
  | .unmapPage virt => (unmapPage vmm virt).toOption

abbrev PageMap := Nat → Option Nat

/-- What each call means for the abstract map. -/
def PageMap.apply (map : PageMap) : VmmCall → PageMap
  | .mapPage virt phys _ => Function.update map (virt / PAGE_SIZE) (some phys)
  | .unmapPage virt => Function.update map (virt / PAGE_SIZE) none

def Represents (vmm : Vmm) (map : PageMap) : Prop :=
  ∀ virt, Canonical virt → frameOf vmm virt = map (virt / PAGE_SIZE)

/-- Arguments callers may pass: canonical addresses whose walk meets no large
page, physical addresses of 52 bits and flag constants. -/
def VmmCall.Admissible (vmm : Vmm) : VmmCall → Prop
  | .mapPage virt phys flags =>
      Canonical virt ∧ NoLargePage vmm virt ∧ phys < 2 ^ 52 ∧ PteFlags flags
  | .unmapPage virt => Canonical virt ∧ NoLargePage vmm virt

theorem represents_initial (vmm : Vmm) :
    Represents vmm (fun page => frameOf vmm (page * PAGE_SIZE)) := by
  intro virt _
  have samePage : virt / PAGE_SIZE = virt / PAGE_SIZE * PAGE_SIZE / PAGE_SIZE := by
    unfold PAGE_SIZE
    omega
  obtain ⟨pml4, pdpt, pd, pt⟩ := indices_of_page samePage
  simp only [frameOf, pathOf, ← pml4, ← pdpt, ← pd, ← pt]

theorem sameLeaf_iff {left right : Nat} (leftCanonical : Canonical left)
    (rightCanonical : Canonical right) :
    (pathOf left = pathOf right ∧ ptIdx left = ptIdx right) ↔
      left / PAGE_SIZE = right / PAGE_SIZE := by
  constructor
  · intro both
    simp only [pathOf, List.cons.injEq, and_true] at both
    exact indices_inj leftCanonical rightCanonical both.1.2.2 both.1.2.1 both.1.1 both.2
  · intro samePage
    obtain ⟨pml4, pdpt, pd, pt⟩ := indices_of_page samePage
    exact ⟨by rw [pathOf, pathOf, pml4, pdpt, pd], pt⟩

theorem Represents.update {vmm after : Vmm} {map : PageMap} {virt : Nat}
    {entry : Option (BitVec 64)} (represents : Represents vmm map) (canonical : Canonical virt)
    (leaves : ∀ route turn, route.length = 3 → turn < 512 → leafAt after route turn =
      if route = pathOf virt ∧ turn = ptIdx virt then entry else leafAt vmm route turn) :
    Represents after (Function.update map (virt / PAGE_SIZE) (entry.map entryAddr)) := by
  intro other otherCanonical
  rw [frameOf, leaves (pathOf other) (ptIdx other) rfl (ptIdx_lt other)]
  by_cases samePage : other / PAGE_SIZE = virt / PAGE_SIZE
  · rw [if_pos ((sameLeaf_iff otherCanonical canonical).mpr samePage), samePage,
      Function.update_self]
  · rw [if_neg (fun sameLeaf => samePage ((sameLeaf_iff otherCanonical canonical).mp sameLeaf)),
      Function.update_of_ne samePage]
    exact represents other otherCanonical

theorem NoLargePage.kept {vmm after : Vmm} {virt : Nat} (noLarge : NoLargePage vmm virt)
    (large : ∀ route turn, turn < 512 → LargeAt after route turn → LargeAt vmm route turn) :
    NoLargePage after virt :=
  ⟨fun isLarge => noLarge.1 (large _ _ (pdptIdx_lt virt) isLarge),
    fun isLarge => noLarge.2 (large _ _ (pdIdx_lt virt) isLarge)⟩

theorem mapPage_represents {vmm after : Vmm} {map : PageMap} {virt phys : Nat}
    {flags : BitVec 64} (managed : vmm.Managed) (represents : Represents vmm map)
    (canonical : Canonical virt) (noLarge : NoLargePage vmm virt) (small : phys < 2 ^ 52)
    (subset : PteFlags flags) (mapped : mapPage vmm virt phys flags = .ok after) :
    after.Managed ∧ Represents after (Function.update map (virt / PAGE_SIZE) (some phys)) ∧
      (∀ other, NoLargePage vmm other → NoLargePage after other) ∧ TookTables vmm after := by
  obtain ⟨stillManaged, leaves, large, took⟩ := mapPage_spec managed noLarge mapped
  have aligned := (mapPage_steps mapped).1
  have address : entryAddr (leafEntry phys flags) = phys :=
    entryAddr_or ⟨aligned, small⟩ subset.outside_address (by decide)
  have updated := represents.update canonical leaves
  rw [Option.map_some, address] at updated
  exact ⟨stillManaged, updated, fun _ none_ => none_.kept large, took⟩

theorem mapPage_of_vmmStep {vmm after : Vmm} {virt phys : Nat} {flags : BitVec 64}
    (stepped : vmmStep vmm (.mapPage virt phys flags) = some after) :
    mapPage vmm virt phys flags = .ok after := by
  cases result : mapPage vmm virt phys flags with
  | error panic => simp [vmmStep, result, Except.toOption] at stepped
  | ok next =>
      simp only [vmmStep, result, Except.toOption, Option.some.injEq] at stepped
      rw [stepped]

theorem unmapPage_of_vmmStep {vmm after : Vmm} {virt : Nat}
    (stepped : vmmStep vmm (.unmapPage virt) = some after) : unmapPage vmm virt = .ok after := by
  cases result : unmapPage vmm virt with
  | error panic => simp [vmmStep, result, Except.toOption] at stepped
  | ok next =>
      simp only [vmmStep, result, Except.toOption, Option.some.injEq] at stepped
      rw [stepped]

/-- The step lemma of the refinement. -/
theorem vmmStep_represents {vmm after : Vmm} {map : PageMap} {call : VmmCall}
    (managed : vmm.Managed) (represents : Represents vmm map) (admissible : call.Admissible vmm)
    (stepped : vmmStep vmm call = some after) :
    after.Managed ∧ Represents after (map.apply call) ∧
      ∀ virt, NoLargePage vmm virt → NoLargePage after virt := by
  cases call with
  | mapPage virt phys flags =>
      obtain ⟨canonical, noLarge, small, subset⟩ := admissible
      obtain ⟨stillManaged, updated, kept, _⟩ := mapPage_represents managed represents canonical
        noLarge small subset (mapPage_of_vmmStep stepped)
      exact ⟨stillManaged, updated, kept⟩
  | unmapPage virt =>
      obtain ⟨canonical, noLarge⟩ := admissible
      obtain ⟨stillManaged, leaves, large⟩ :=
        unmapPage_spec managed noLarge (unmapPage_of_vmmStep stepped)
      exact ⟨stillManaged, represents.update canonical leaves,
        fun _ none_ => none_.kept large⟩

theorem VmmCall.Admissible.mono {vmm after : Vmm} {call : VmmCall}
    (admissible : call.Admissible vmm)
    (noLarge : ∀ virt, NoLargePage vmm virt → NoLargePage after virt) :
    call.Admissible after := by
  cases call with
  | mapPage virt phys flags =>
      exact ⟨admissible.1, noLarge virt admissible.2.1, admissible.2.2⟩
  | unmapPage virt => exact ⟨admissible.1, noLarge virt admissible.2⟩

/-- The run lemma of the refinement. -/
theorem exec_represents {vmm after : Vmm} {map : PageMap} {calls : List VmmCall}
    (managed : vmm.Managed) (represents : Represents vmm map)
    (admissible : ∀ call, call ∈ calls → call.Admissible vmm)
    (reached : LabelledRun.exec vmmStep vmm calls = some after) :
    after.Managed ∧ Represents after (calls.foldl PageMap.apply map) ∧
      ∀ virt, NoLargePage vmm virt → NoLargePage after virt := by
  induction calls generalizing vmm map with
  | nil =>
      cases reached
      exact ⟨managed, represents, fun _ noLarge => noLarge⟩
  | cons call rest ih =>
      obtain ⟨next, stepped, continued⟩ := LabelledRun.exec_cons_eq_some.mp reached
      obtain ⟨nextManaged, nextRepresents, nextNoLarge⟩ := vmmStep_represents managed represents
        (admissible call (List.mem_cons_self ..)) stepped
      obtain ⟨lastManaged, lastRepresents, lastNoLarge⟩ := ih nextManaged nextRepresents
        (fun other member =>
          (admissible other (List.mem_cons_of_mem _ member)).mono nextNoLarge) continued
      exact ⟨lastManaged, lastRepresents,
        fun virt noLarge => lastNoLarge virt (nextNoLarge virt noLarge)⟩

theorem PageMap.apply_other {map : PageMap} {call : VmmCall} {page : Nat}
    (other : call.virt / PAGE_SIZE ≠ page) : map.apply call page = map page := by
  cases call with
  | mapPage virt phys flags => exact Function.update_of_ne (fun same => other same.symm) _ _
  | unmapPage virt => exact Function.update_of_ne (fun same => other same.symm) _ _

theorem PageMap.foldl_apply_other {map : PageMap} {calls : List VmmCall} {page : Nat}
    (others : ∀ call, call ∈ calls → call.virt / PAGE_SIZE ≠ page) :
    calls.foldl PageMap.apply map page = map page := by
  induction calls generalizing map with
  | nil => rfl
  | cons call rest ih =>
      rw [List.foldl_cons, ih (fun other member => others other (List.mem_cons_of_mem _ member))]
      exact PageMap.apply_other (others call (List.mem_cons_self ..))

/-- After a run, a lookup sees the last call on its page, and the initial
translation if there was none; the tables are still a tree. -/
theorem page_tables_are_finite_map {vmm after : Vmm} {calls : List VmmCall} {virt : Nat}
    (tree : TreeShaped vmm) (fresh : AllocatesNoTable vmm)
    (physical : vmm.pmm.totalPages * PAGE_SIZE ≤ 2 ^ 52)
    (admissible : ∀ call, call ∈ calls → call.Admissible vmm)
    (canonical : Canonical virt) (noLarge : NoLargePage vmm virt)
    (reached : LabelledRun.exec vmmStep vmm calls = some after) :
    TreeShaped after ∧
    (∀ before mapped phys flags later,
      calls = before ++ VmmCall.mapPage mapped phys flags :: later →
      mapped / PAGE_SIZE = virt / PAGE_SIZE →
      (∀ call, call ∈ later → call.virt / PAGE_SIZE ≠ virt / PAGE_SIZE) →
      getPhysAddr after virt = some (phys + virt % PAGE_SIZE)) ∧
    (∀ before unmapped later, calls = before ++ VmmCall.unmapPage unmapped :: later →
      unmapped / PAGE_SIZE = virt / PAGE_SIZE →
      (∀ call, call ∈ later → call.virt / PAGE_SIZE ≠ virt / PAGE_SIZE) →
      getPhysAddr after virt = none) ∧
    ((∀ call, call ∈ calls → call.virt / PAGE_SIZE ≠ virt / PAGE_SIZE) →
      getPhysAddr after virt = getPhysAddr vmm virt) := by
  have initial := represents_initial vmm
  obtain ⟨managed, represents, keptNoLarge⟩ :=
    exec_represents ⟨tree, fresh, physical⟩ initial admissible reached
  have lookup : getPhysAddr after virt =
      (calls.foldl PageMap.apply (fun page => frameOf vmm (page * PAGE_SIZE))
        (virt / PAGE_SIZE)).map (fun frame => frame + virt % PAGE_SIZE) := by
    rw [getPhysAddr_eq (keptNoLarge virt noLarge), represents virt canonical]
  refine ⟨managed.tree, ?_, ?_, ?_⟩
  · intro before mapped phys flags later split samePage others
    rw [lookup, split, List.foldl_append, List.foldl_cons, PageMap.foldl_apply_other others,
      PageMap.apply, samePage, Function.update_self, Option.map_some]
  · intro before unmapped later split samePage others
    rw [lookup, split, List.foldl_append, List.foldl_cons, PageMap.foldl_apply_other others,
      PageMap.apply, samePage, Function.update_self, Option.map_none]
  · intro others
    rw [lookup, PageMap.foldl_apply_other others, getPhysAddr_eq noLarge, initial virt canonical]

/-- An empty PML4 at 0x1000 and an allocator whose first eight pages are used. -/
def sampleVmm : Vmm :=
  { pmm :=
      { bitmap := fun byte => if byte = 0 then 0xff#8 else 0#8
        bitmapPtr := 0xffff800000000000
        bitmapLen := 8
        totalPages := 64
        freeCount := 56
        usablePage := 56 }
    cr3 := 0x1000#64
    hhdmOffset := 0xffff800000000000
    physMem := fun _ => 0#64 }

theorem sampleVmm_empty : RootEmpty sampleVmm := fun _ _ => isPresent_zero

theorem sampleVmm_fresh : AllocatesNoTable sampleVmm := by
  apply sampleVmm_empty.allocatesNoTable
  intro page address free
  have root : rootTable sampleVmm = 0x1000 := rfl
  have pageEq : page = 1 := by
    unfold PAGE_SIZE at address
    omega
  rw [pageEq] at free
  exact absurd free.2 (by decide)

def sampleVmmCalls : List VmmCall :=
  [.mapPage 0x400000 0x7000 PTE_WRITABLE, .unmapPage 0x400000,
    .mapPage 0xffff800100000000 0x9000 (PTE_WRITABLE ||| PTE_NO_EXEC)]

theorem sampleVmmCalls_admissible :
    ∀ call, call ∈ sampleVmmCalls → call.Admissible sampleVmm := by
  intro call member
  simp only [sampleVmmCalls, List.mem_cons, List.not_mem_nil, or_false] at member
  rcases member with same | same | same
  · subst call
    exact ⟨Or.inl (by decide), sampleVmm_empty.noLargePage _, by decide, by unfold PteFlags; decide⟩
  · subst call
    exact ⟨Or.inl (by decide), sampleVmm_empty.noLargePage _⟩
  · subst call
    exact ⟨Or.inr (by decide), sampleVmm_empty.noLargePage _, by decide, by unfold PteFlags; decide⟩

theorem sampleVmm_finite_map :
    ∃ after, LabelledRun.exec vmmStep sampleVmm sampleVmmCalls = some after ∧
      getPhysAddr after 0xffff800100000abc = some 0x9abc ∧
      getPhysAddr after 0x400123 = none := by
  refine ⟨_, rfl, ?_, ?_⟩
  · exact (page_tables_are_finite_map sampleVmm_empty.treeShaped sampleVmm_fresh (by decide)
      sampleVmmCalls_admissible (Or.inr (by decide)) (sampleVmm_empty.noLargePage 0xffff800100000abc)
      rfl).2.1 [.mapPage 0x400000 0x7000 PTE_WRITABLE, .unmapPage 0x400000] _ _ _ [] rfl rfl
      (by simp)
  · exact (page_tables_are_finite_map sampleVmm_empty.treeShaped sampleVmm_fresh (by decide)
      sampleVmmCalls_admissible (Or.inl (by decide)) (sampleVmm_empty.noLargePage 0x400123)
      rfl).2.2.1 [.mapPage 0x400000 0x7000 PTE_WRITABLE] 0x400000
      [.mapPage 0xffff800100000000 0x9000 (PTE_WRITABLE ||| PTE_NO_EXEC)] rfl rfl
      (by decide)

end CustomKernel.Memory
