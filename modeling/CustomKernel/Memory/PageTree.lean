/-
The page tables as a tree, and the mapping it stores.

A path of at most three indices leads from the PML4 to a table, following
present entries that are not large pages.  In a tree no two paths meet.  Under
that invariant, and while the allocator has no table frame to give away, the
mapping operations are updates of one finite map from pages to entries: creating
a table changes no translation, and the final write changes exactly one.
-/

import CustomKernel.Foundation.LabelledRun
import CustomKernel.Foundation.PathTree
import CustomKernel.Memory.PmmSteps
import CustomKernel.Memory.TableEntry

set_option autoImplicit false

namespace CustomKernel.Memory

/-- Large pages are marked in the entries of the two directory levels. -/
def largeLeaf (depth : Nat) (entry : BitVec 64) : Bool :=
  (depth == 1 || depth == 2) && pageSizeBit entry

def tableChild (vmm : Vmm) (depth table slot : Nat) : Option Nat :=
  if depth < 3 ∧ slot < 512 ∧ isPresent (entryAt vmm table slot) = true ∧
      largeLeaf depth (entryAt vmm table slot) = false then
    some (entryAddr (entryAt vmm table slot))
  else none

def rootTable (vmm : Vmm) : Nat := entryAddr vmm.cr3

def tableAt (vmm : Vmm) (path : List Nat) : Option Nat :=
  PathTree.nodeAt (tableChild vmm) (rootTable vmm) path

/-- No table is reached along two paths: each table frame is referenced by
exactly one entry, and the PML4 by none. -/
def TreeShaped (vmm : Vmm) : Prop :=
  PathTree.Distinct (tableChild vmm) (rootTable vmm)

def AllocatesNoTable (vmm : Vmm) : Prop :=
  ∀ page, vmm.pmm.Free page → ∀ path, tableAt vmm path ≠ some (page * PAGE_SIZE)

/-- A tree of tables, with an allocator that keeps to other frames of the 52-bit
physical address space. -/
structure Vmm.Managed (vmm : Vmm) : Prop where
  tree : TreeShaped vmm
  fresh : AllocatesNoTable vmm
  physical : vmm.pmm.totalPages * PAGE_SIZE ≤ 2 ^ 52

def LargeAt (vmm : Vmm) (path : List Nat) (slot : Nat) : Prop :=
  ∃ table, tableAt vmm path = some table ∧ isPresent (entryAt vmm table slot) = true ∧
    largeLeaf path.length (entryAt vmm table slot) = true

def NoLargePage (vmm : Vmm) (virt : Nat) : Prop :=
  ¬ LargeAt vmm [pml4Idx virt] (pdptIdx virt) ∧
    ¬ LargeAt vmm [pdptIdx virt, pml4Idx virt] (pdIdx virt)

def pathOf (virt : Nat) : List Nat := [pdIdx virt, pdptIdx virt, pml4Idx virt]

def leafAt (vmm : Vmm) (path : List Nat) (slot : Nat) : Option (BitVec 64) :=
  match tableAt vmm path with
  | none => none
  | some table =>
      if isPresent (entryAt vmm table slot) then some (entryAt vmm table slot) else none

/-! ### Tables on a path -/

theorem tableChild_some {vmm : Vmm} {depth table slot child : Nat}
    (linked : tableChild vmm depth table slot = some child) :
    depth < 3 ∧ slot < 512 ∧ isPresent (entryAt vmm table slot) = true ∧
      largeLeaf depth (entryAt vmm table slot) = false ∧
      child = entryAddr (entryAt vmm table slot) := by
  unfold tableChild at linked
  split at linked
  · rename_i conditions
    cases linked
    exact ⟨conditions.1, conditions.2.1, conditions.2.2.1, conditions.2.2.2, rfl⟩
  · cases linked

theorem tableChild_of_entry {vmm : Vmm} {depth table slot : Nat} (short : depth < 3)
    (inside : slot < 512) (present : isPresent (entryAt vmm table slot) = true)
    (small : largeLeaf depth (entryAt vmm table slot) = false) :
    tableChild vmm depth table slot = some (entryAddr (entryAt vmm table slot)) :=
  if_pos ⟨short, inside, present, small⟩

theorem tableChild_of_absent {vmm : Vmm} {depth table slot : Nat}
    (absent : isPresent (entryAt vmm table slot) = false) :
    tableChild vmm depth table slot = none := by
  apply if_neg
  intro conditions
  rw [absent] at conditions
  cases conditions.2.2.1

theorem tableChild_congr {vmm other : Vmm} {depth table slot : Nat}
    (same : slot < 512 → entryAt other table slot = entryAt vmm table slot) :
    tableChild other depth table slot = tableChild vmm depth table slot := by
  by_cases inside : slot < 512
  · simp only [tableChild, same inside]
  · simp only [tableChild, inside, false_and, and_false, if_false]

theorem tableAt_nil (vmm : Vmm) : tableAt vmm [] = some (rootTable vmm) := rfl

theorem tableAt_isFrame {vmm : Vmm} {path : List Nat} {table : Nat}
    (reached : tableAt vmm path = some table) : IsFrame table := by
  cases path with
  | nil =>
      cases reached
      exact entryAddr_isFrame _
  | cons slot path =>
      obtain ⟨_, _, linked⟩ := PathTree.nodeAt_cons_some reached
      obtain ⟨_, _, _, _, addressed⟩ := tableChild_some linked
      rw [addressed]
      exact entryAddr_isFrame _

theorem largeLeaf_false_of_not_largeAt {vmm : Vmm} {path : List Nat} {table slot : Nat}
    (reached : tableAt vmm path = some table) (noLarge : ¬ LargeAt vmm path slot)
    (present : isPresent (entryAt vmm table slot) = true) :
    largeLeaf path.length (entryAt vmm table slot) = false := by
  cases large : largeLeaf path.length (entryAt vmm table slot) with
  | false => rfl
  | true => exact False.elim (noLarge ⟨table, reached, present, large⟩)

theorem tableAt_cons {vmm : Vmm} {path : List Nat} {table slot : Nat}
    (reached : tableAt vmm path = some table) (short : path.length < 3) (inside : slot < 512)
    (noLarge : ¬ LargeAt vmm path slot) :
    tableAt vmm (slot :: path) =
      if isPresent (entryAt vmm table slot) then some (entryAddr (entryAt vmm table slot))
      else none := by
  have step : tableAt vmm (slot :: path) = tableChild vmm path.length table slot :=
    PathTree.nodeAt_cons reached slot
  rw [step]
  cases present : isPresent (entryAt vmm table slot) with
  | false => exact tableChild_of_absent present
  | true =>
      exact tableChild_of_entry short inside present
        (largeLeaf_false_of_not_largeAt reached noLarge present)

/-! ### A root table without entries -/

/-- Nothing is mapped, and the root is the only table. -/
def RootEmpty (vmm : Vmm) : Prop :=
  ∀ slot, slot < 512 → isPresent (entryAt vmm (rootTable vmm) slot) = false

namespace RootEmpty

variable {vmm : Vmm}

theorem tableAt_cons (empty : RootEmpty vmm) (slot : Nat) (path : List Nat) :
    tableAt vmm (slot :: path) = none := by
  induction path generalizing slot with
  | nil =>
      cases found : tableAt vmm [slot] with
      | none => rfl
      | some table =>
          obtain ⟨parent, root, linked⟩ := PathTree.nodeAt_cons_some found
          cases root
          obtain ⟨_, inside, present, _⟩ := tableChild_some linked
          rw [empty slot inside] at present
          cases present
  | cons turn path ih => exact PathTree.nodeAt_cons_none (ih turn) slot

theorem path_eq_nil (empty : RootEmpty vmm) {path : List Nat} {table : Nat}
    (reached : tableAt vmm path = some table) : path = [] := by
  cases path with
  | nil => rfl
  | cons slot path =>
      rw [empty.tableAt_cons] at reached
      cases reached

theorem treeShaped (empty : RootEmpty vmm) : TreeShaped vmm := by
  intro left right table leftReached rightReached
  rw [empty.path_eq_nil leftReached, empty.path_eq_nil rightReached]

theorem allocatesNoTable (empty : RootEmpty vmm)
    (taken : ∀ page, rootTable vmm = page * PAGE_SIZE → ¬ vmm.pmm.Free page) :
    AllocatesNoTable vmm := by
  intro page free path reached
  rw [empty.path_eq_nil reached] at reached
  exact taken page (Option.some.inj reached) free

theorem noLargePage (empty : RootEmpty vmm) (virt : Nat) : NoLargePage vmm virt := by
  constructor
  · rintro ⟨table, reached, _⟩
    cases empty.path_eq_nil reached
  · rintro ⟨table, reached, _⟩
    cases empty.path_eq_nil reached

end RootEmpty

/-! ### What a table creation preserves -/

/-- `after` has the tables of `vmm`, possibly more, and the same leaves. -/
structure Extends (vmm after : Vmm) : Prop where
  cr3 : after.cr3 = vmm.cr3
  hhdmOffset : after.hhdmOffset = vmm.hhdmOffset
  kept : ∀ path table, tableAt vmm path = some table → tableAt after path = some table
  leaves : ∀ path slot, path.length = 3 → slot < 512 →
    leafAt after path slot = leafAt vmm path slot
  large : ∀ path slot, slot < 512 → LargeAt after path slot → LargeAt vmm path slot

theorem Extends.refl (vmm : Vmm) : Extends vmm vmm where
  cr3 := rfl
  hhdmOffset := rfl
  kept _ _ reached := reached
  leaves _ _ _ _ := rfl
  large _ _ _ large := large

theorem Extends.trans {first second third : Vmm} (left : Extends first second)
    (right : Extends second third) : Extends first third where
  cr3 := right.cr3.trans left.cr3
  hhdmOffset := right.hhdmOffset.trans left.hhdmOffset
  kept path table reached := right.kept path table (left.kept path table reached)
  leaves path slot deep inside :=
    (right.leaves path slot deep inside).trans (left.leaves path slot deep inside)
  large path slot inside large := left.large path slot inside (right.large path slot inside large)

theorem entryAt_created {vmm : Vmm} {pmm : Pmm} {table slot frame other turn : Nat}
    (tableFrame : IsFrame table) (inside : slot < 512) (freshFrame : IsFrame frame)
    (otherFrame : IsFrame other) (turnInside : turn < 512) :
    entryAt (writeVolatile (zeroTable { vmm with pmm := pmm } (physToVirt vmm frame))
        (tableAdd (physToVirt vmm table) slot) (tableEntry frame)) other turn =
      if other = table ∧ turn = slot then tableEntry frame
      else if other = frame then 0#64 else entryAt vmm other turn := by
  have zeroed : entryAt (zeroTable { vmm with pmm := pmm } (physToVirt vmm frame)) other turn =
      if other = frame then 0#64 else entryAt vmm other turn :=
    @entryAt_zeroTable { vmm with pmm := pmm } frame other turn freshFrame otherFrame turnInside
  have written := @entryAt_writeVolatile
    (zeroTable { vmm with pmm := pmm } (physToVirt vmm frame)) table slot other turn
    (tableEntry frame) tableFrame inside otherFrame turnInside
  rw [zeroed] at written
  exact written

/-- The allocator only took pages, and every new table lies on a page it took. -/
structure TookTables (vmm after : Vmm) : Prop where
  pmm : vmm.pmm.OnlyTakes after.pmm
  tables : ∀ path table, tableAt after path = some table →
    tableAt vmm path = some table ∨ ∃ page, table = page * PAGE_SIZE ∧ vmm.pmm.Free page

theorem TookTables.refl (vmm : Vmm) : TookTables vmm vmm where
  pmm := Pmm.OnlyTakes.refl vmm.pmm
  tables _ _ reached := Or.inl reached

theorem TookTables.trans {first second third : Vmm} (left : TookTables first second)
    (right : TookTables second third) : TookTables first third where
  pmm := left.pmm.trans right.pmm
  tables path table reached := by
    rcases right.tables path table reached with old | ⟨page, address, free⟩
    · exact left.tables path table old
    · exact Or.inr ⟨page, address, left.pmm.free free⟩

/-- Every link is as it was, or new and made by `next_table_or_create`. -/
def LinksGrow (vmm after : Vmm) : Prop :=
  ∀ path slot, path.length < 3 → slot < 512 →
    leafAt after path slot = leafAt vmm path slot ∨
      leafAt vmm path slot = none ∧
        ∃ frame, IsFrame frame ∧ leafAt after path slot = some (tableEntry frame)

theorem LinksGrow.refl (vmm : Vmm) : LinksGrow vmm vmm := fun _ _ _ _ => Or.inl rfl

theorem LinksGrow.trans {first second third : Vmm} (left : LinksGrow first second)
    (right : LinksGrow second third) : LinksGrow first third := by
  intro path slot short inside
  rcases right path slot short inside with same | ⟨absent, frame, isFrame, linked⟩
  · rw [same]
    exact left path slot short inside
  · rcases left path slot short inside with same | ⟨_, other, _, linkedBefore⟩
    · exact Or.inr ⟨same.symm.trans absent, frame, isFrame, linked⟩
    · rw [absent] at linkedBefore
      cases linkedBefore

theorem leafAt_some {vmm : Vmm} {path : List Nat} {slot : Nat} {entry : BitVec 64}
    (found : leafAt vmm path slot = some entry) :
    ∃ table, tableAt vmm path = some table ∧ entryAt vmm table slot = entry ∧
      isPresent entry = true := by
  unfold leafAt at found
  cases reached : tableAt vmm path with
  | none =>
      rw [reached] at found
      cases found
  | some table =>
      rw [reached] at found
      dsimp only at found
      split at found
      case isFalse => cases found
      case isTrue present =>
        cases found
        exact ⟨table, rfl, rfl, present⟩

theorem leafAt_eq {vmm : Vmm} {path : List Nat} {table slot : Nat}
    (reached : tableAt vmm path = some table) :
    leafAt vmm path slot =
      if isPresent (entryAt vmm table slot) then some (entryAt vmm table slot) else none := by
  unfold leafAt
  rw [reached]

theorem leafAt_none {vmm : Vmm} {path : List Nat} (slot : Nat)
    (absent : tableAt vmm path = none) : leafAt vmm path slot = none := by
  unfold leafAt
  rw [absent]

structure Created (vmm : Vmm) (path : List Nat) (table slot frame : Nat) (after : Vmm) :
    Prop where
  tree : TreeShaped vmm
  reached : tableAt vmm path = some table
  short : path.length < 3
  inside : slot < 512
  absent : isPresent (entryAt vmm table slot) = false
  isFrame : IsFrame frame
  isNew : ∀ route, tableAt vmm route ≠ some frame
  cr3 : after.cr3 = vmm.cr3
  hhdmOffset : after.hhdmOffset = vmm.hhdmOffset
  entries : ∀ other turn, IsFrame other → turn < 512 → entryAt after other turn =
    if other = table ∧ turn = slot then tableEntry frame
    else if other = frame then 0#64 else entryAt vmm other turn

namespace Created

variable {vmm after : Vmm} {path : List Nat} {table slot frame : Nat}

theorem absentPath (created : Created vmm path table slot frame after) :
    tableAt vmm (slot :: path) = none := by
  have step : tableAt vmm (slot :: path) = tableChild vmm path.length table slot :=
    PathTree.nodeAt_cons created.reached slot
  rw [step]
  exact tableChild_of_absent created.absent

theorem linked (created : Created vmm path table slot frame after) :
    entryAt after table slot = tableEntry frame := by
  rw [created.entries table slot (tableAt_isFrame created.reached) created.inside,
    if_pos ⟨rfl, rfl⟩]

theorem bare (created : Created vmm path table slot frame after) {turn : Nat}
    (turnInside : turn < 512) : isPresent (entryAt after frame turn) = false := by
  have notTable : ¬(frame = table ∧ turn = slot) := by
    intro both
    exact created.isNew path (by rw [both.1]; exact created.reached)
  rw [created.entries frame turn created.isFrame turnInside, if_neg notTable, if_pos rfl]
  exact isPresent_zero

/-- The frame of a creation: every other entry of the tree keeps its word. -/
theorem oldEntry (created : Created vmm path table slot frame after) {route : List Nat}
    {parent turn : Nat} (parentReached : tableAt vmm route = some parent)
    (turnInside : turn < 512) (elsewhere : ¬(route = path ∧ turn = slot)) :
    entryAt after parent turn = entryAt vmm parent turn := by
  have notFresh : parent ≠ frame := by
    intro same
    exact created.isNew route (by rw [← same]; exact parentReached)
  have notHere : ¬(parent = table ∧ turn = slot) := by
    intro both
    have sameRoute := created.tree route path table
      (by rw [← both.1]; exact parentReached) created.reached
    exact elsewhere ⟨sameRoute, both.2⟩
  rw [created.entries parent turn (tableAt_isFrame parentReached) turnInside, if_neg notHere,
    if_neg notFresh]

theorem tables (created : Created vmm path table slot frame after) :
    (∀ route, route ≠ slot :: path → tableAt after route = tableAt vmm route) ∧
      tableAt after (slot :: path) = some frame := by
  have roots : rootTable after = rootTable vmm := congrArg entryAddr created.cr3
  unfold tableAt
  rw [roots]
  apply PathTree.nodeAt_graft created.reached (tableChild_of_absent created.absent)
  · intro route parent turn parentReached elsewhere
    apply tableChild_congr
    intro turnInside
    exact created.oldEntry parentReached turnInside elsewhere
  · have small : largeLeaf path.length (entryAt after table slot) = false := by
      rw [created.linked, largeLeaf, tableEntry_pageSizeBit created.isFrame, Bool.and_false]
    have present : isPresent (entryAt after table slot) = true := by
      rw [created.linked]
      exact tableEntry_isPresent frame
    rw [tableChild_of_entry created.short created.inside present small, created.linked,
      tableEntry_addr created.isFrame]
  · intro turn
    by_cases turnInside : turn < 512
    · exact tableChild_of_absent (created.bare turnInside)
    · simp only [tableChild, turnInside, false_and, and_false, if_false]

theorem treeShaped (created : Created vmm path table slot frame after) : TreeShaped after := by
  have roots : rootTable after = rootTable vmm := congrArg entryAddr created.cr3
  obtain ⟨unchanged, added⟩ := created.tables
  unfold tableAt at unchanged added
  unfold TreeShaped
  rw [roots] at unchanged added ⊢
  exact PathTree.Distinct.graft created.tree created.isNew unchanged added

theorem extends_ (created : Created vmm path table slot frame after) : Extends vmm after := by
  obtain ⟨unchanged, added⟩ := created.tables
  refine ⟨created.cr3, created.hhdmOffset, ?_, ?_, ?_⟩
  · intro route other otherReached
    have different : route ≠ slot :: path := by
      intro same
      rw [same, created.absentPath] at otherReached
      cases otherReached
    rw [unchanged route different]
    exact otherReached
  · intro route turn deep turnInside
    by_cases here : route = slot :: path
    · subst route
      simp only [leafAt, added, created.absentPath, created.bare turnInside,
        Bool.false_eq_true, if_false]
    · simp only [leafAt, unchanged route here]
      cases found : tableAt vmm route with
      | none => rfl
      | some parent =>
          have short := created.short
          have elsewhere : ¬(route = path ∧ turn = slot) := by
            intro both
            rw [both.1] at deep
            omega
          simp only [created.oldEntry found turnInside elsewhere]
  · intro route turn turnInside isLarge
    obtain ⟨parent, parentReached, present, large⟩ := isLarge
    by_cases here : route = slot :: path
    · subst route
      rw [added] at parentReached
      cases parentReached
      rw [created.bare turnInside] at present
      cases present
    · rw [unchanged route here] at parentReached
      by_cases elsewhere : route = path ∧ turn = slot
      · obtain ⟨sameRoute, sameTurn⟩ := elsewhere
        subst route
        subst turn
        have sameTable := Option.some.inj (parentReached.symm.trans created.reached)
        rw [sameTable, created.linked, largeLeaf, tableEntry_pageSizeBit created.isFrame,
          Bool.and_false] at large
        cases large
      · rw [created.oldEntry parentReached turnInside elsewhere] at present large
        exact ⟨parent, parentReached, present, large⟩

theorem links (created : Created vmm path table slot frame after) : LinksGrow vmm after := by
  rcases created.tables with ⟨unchanged, added⟩
  intro route turn _ turnInside
  by_cases grown : route = slot :: path
  · left
    subst grown
    rw [leafAt_eq added, leafAt_none turn created.absentPath]
    simp [created.bare turnInside]
  · cases found : tableAt vmm route with
    | none =>
        left
        rw [leafAt_none turn found, leafAt_none turn ((unchanged route grown).trans found)]
    | some parent =>
        have still := (unchanged route grown).trans found
        by_cases here : route = path ∧ turn = slot
        · right
          rcases here with ⟨rfl, rfl⟩
          have same : parent = table := Option.some.inj (found.symm.trans created.reached)
          subst same
          constructor
          · rw [leafAt_eq found]
            simp [created.absent]
          · refine ⟨frame, created.isFrame, ?_⟩
            rw [leafAt_eq still, created.linked]
            simp [tableEntry_isPresent]
        · left
          rw [leafAt_eq still, leafAt_eq found, created.oldEntry found turnInside here]

end Created

end CustomKernel.Memory
