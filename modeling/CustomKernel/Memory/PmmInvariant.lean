/-
The representation invariant of the page allocator.

The free counter is the number of clear bits below the page total, and every
bit from the page total to the end of the last bitmap byte is set.  Boot
establishes it and both operations keep it, whatever address is freed.  It makes
the early stop of the scan harmless: the lowest clear bit is always a tracked
page.
-/

import CustomKernel.Foundation.LabelledRun
import CustomKernel.Memory.PmmBoot

set_option autoImplicit false

namespace CustomKernel.Memory

structure Pmm.Invariant (pmm : Pmm) : Prop where
  counted : pmm.freeCount = (Bitmap.clearBelow pmm.bitmap pmm.totalPages).card
  padded : ∀ index, pmm.totalPages ≤ index → index < pmm.bitmapLen * 8 →
    Bitmap.bit pmm.bitmap index = true
  covered : pmm.totalPages ≤ pmm.bitmapLen * 8
  small : pmm.totalPages < 2 ^ 52

def Pmm.Free (pmm : Pmm) (page : Nat) : Prop :=
  page < pmm.totalPages ∧ isUsed pmm page = false

theorem Pmm.mem_clearBelow {pmm : Pmm} {page : Nat} :
    page ∈ Bitmap.clearBelow pmm.bitmap pmm.totalPages ↔ pmm.Free page :=
  Bitmap.mem_clearBelow

theorem Pmm.Invariant.freeCount_le {pmm : Pmm} (invariant : pmm.Invariant) :
    pmm.freeCount ≤ pmm.totalPages := by
  rw [invariant.counted]
  exact Bitmap.card_clearBelow_le _ _

theorem Pmm.Invariant.page_fits {pmm : Pmm} (invariant : pmm.Invariant) {page : Nat}
    (tracked : page < pmm.totalPages) : page * PAGE_SIZE < Word64.modulus := by
  have small := invariant.small
  unfold PAGE_SIZE Word64.modulus
  omega

/-! ### Boot -/

theorem initPmm_free_iff {entries : List MemmapEntry} {hhdm : Nat} {memory : Bitmap.Bytes}
    {pmm : Pmm} (booted : initPmm (some entries) hhdm memory = .ok pmm) (page : Nat) :
    pmm.Free page ↔ page ∈ visitedPages entries ∧
      Releasable (bitmapPhysOf entries) (bitmapEndPhysOf entries) (totalPagesOf entries) page := by
  have released := initPmm_released booted
  have total : pmm.totalPages = totalPagesOf entries := released.totalPages
  have beforeTotal : (allUsed entries hhdm memory).totalPages = totalPagesOf entries := rfl
  unfold Pmm.Free isUsed
  rw [released.bits, total, beforeTotal]
  constructor
  · rintro ⟨tracked, clear⟩
    have inside : page < bitmapBytesOf entries * 8 :=
      Nat.lt_of_lt_of_le tracked (totalPagesOf_le_bitmap entries)
    simpa [allUsed_bit entries hhdm memory inside] using clear
  · rintro ⟨visited, allowed⟩
    exact ⟨allowed.2.2, by simp [visited, allowed]⟩

def releasedPages (entries : List MemmapEntry) : Finset Nat :=
  ((visitedPages entries).filter (fun page =>
    Releasable (bitmapPhysOf entries) (bitmapEndPhysOf entries) (totalPagesOf entries)
      page)).toFinset

theorem mem_releasedPages {entries : List MemmapEntry} {page : Nat} :
    page ∈ releasedPages entries ↔ page ∈ visitedPages entries ∧
      Releasable (bitmapPhysOf entries) (bitmapEndPhysOf entries) (totalPagesOf entries)
        page := by
  simp [releasedPages]

theorem initPmm_clearBelow {entries : List MemmapEntry} {hhdm : Nat} {memory : Bitmap.Bytes}
    {pmm : Pmm} (booted : initPmm (some entries) hhdm memory = .ok pmm) :
    Bitmap.clearBelow pmm.bitmap pmm.totalPages = releasedPages entries := by
  ext page
  rw [Pmm.mem_clearBelow, initPmm_free_iff booted, mem_releasedPages]

theorem initPmm_counts {entries : List MemmapEntry} {hhdm : Nat} {memory : Bitmap.Bytes}
    {pmm : Pmm} (noOverflow : NoOverflow entries) (aligned : UsableAligned entries)
    (disjoint : UsableDisjoint entries)
    (booted : initPmm (some entries) hhdm memory = .ok pmm) :
    pmm.freeCount = (releasedPages entries).card ∧
      pmm.usablePage = (releasedPages entries).card := by
  have released := initPmm_released booted
  have nodup := visitedPages_nodup noOverflow aligned disjoint
  have cardEq : (visitedPages entries).countP (fun page =>
      Releasable (bitmapPhysOf entries) (bitmapEndPhysOf entries) (totalPagesOf entries)
        page) = (releasedPages entries).card := by
    rw [List.countP_eq_length_filter, releasedPages,
      List.toFinset_card_of_nodup (nodup.filter _)]
  have bounded : (releasedPages entries).card < Word64.modulus := by
    have small := totalPagesOf_small entries
    have below : (releasedPages entries).card ≤ pmm.totalPages := by
      rw [← initPmm_clearBelow booted]
      exact Bitmap.card_clearBelow_le _ _
    have total : pmm.totalPages = totalPagesOf entries := released.totalPages
    unfold Word64.modulus
    omega
  have freeZero : (allUsed entries hhdm memory).freeCount = 0 := rfl
  have usableZero : (allUsed entries hhdm memory).usablePage = 0 := rfl
  have beforeTotal : (allUsed entries hhdm memory).totalPages = totalPagesOf entries := rfl
  have free := released.freeCount
  have usable := released.usablePage
  rw [beforeTotal, cardEq] at free usable
  rw [freeZero, Nat.zero_add] at free
  rw [usableZero, Nat.zero_add] at usable
  exact ⟨free bounded, usable bounded⟩

theorem initPmm_invariant {entries : List MemmapEntry} {hhdm : Nat} {memory : Bitmap.Bytes}
    {pmm : Pmm} (noOverflow : NoOverflow entries) (aligned : UsableAligned entries)
    (disjoint : UsableDisjoint entries)
    (booted : initPmm (some entries) hhdm memory = .ok pmm) : pmm.Invariant := by
  have released := initPmm_released booted
  have total : pmm.totalPages = totalPagesOf entries := released.totalPages
  have len : pmm.bitmapLen = bitmapBytesOf entries := released.bitmapLen
  refine ⟨?_, ?_, ?_, ?_⟩
  · rw [initPmm_clearBelow booted]
    exact (initPmm_counts noOverflow aligned disjoint booted).1
  · intro index past inside
    rw [len] at inside
    have notAllowed : ¬ Releasable (bitmapPhysOf entries) (bitmapEndPhysOf entries)
        (allUsed entries hhdm memory).totalPages index := by
      rintro ⟨_, _, tracked⟩
      have beforeTotal : (allUsed entries hhdm memory).totalPages = totalPagesOf entries := rfl
      omega
    rw [released.bits, allUsed_bit entries hhdm memory inside]
    simp [notAllowed]
  · rw [total, len]
    exact totalPagesOf_le_bitmap entries
  · rw [total]
    exact totalPagesOf_small entries

/-! ### The two operations -/

/-- What `alloc_page` does: nothing when no page is free, else it takes the
lowest free page and touches that page's bit and the counter only. -/
theorem allocPage_cases {pmm : Pmm} (invariant : pmm.Invariant) :
    (allocPage pmm = (none, pmm) ∧ ∀ page, ¬ pmm.Free page) ∨
    (∃ page, allocPage pmm = (some (page * PAGE_SIZE),
        { setUsed pmm page with freeCount := pmm.freeCount - 1 }) ∧
      pmm.Free page ∧ (∀ other, other < page → isUsed pmm other = true) ∧
      0 < pmm.freeCount) := by
  unfold allocPage
  cases found : Bitmap.firstClear pmm.bitmap pmm.bitmapLen 0 with
  | none =>
      refine Or.inl ⟨rfl, ?_⟩
      rintro page ⟨tracked, clear⟩
      have covered := invariant.covered
      have set := Bitmap.firstClear_none found page (by omega) (by omega)
      unfold isUsed at clear
      rw [set] at clear
      cases clear
  | some page =>
      obtain ⟨_, inside, clear, before⟩ := Bitmap.firstClear_some found
      have tracked : page < pmm.totalPages := by
        rcases Nat.lt_or_ge page pmm.totalPages with below | past
        · exact below
        · rw [invariant.padded page past (by omega)] at clear
          cases clear
      have positive : 0 < pmm.freeCount := by
        rw [invariant.counted]
        exact Finset.card_pos.mpr ⟨page, Bitmap.mem_clearBelow.mpr ⟨tracked, clear⟩⟩
      have countSmall : pmm.freeCount < Word64.modulus := by
        have below := invariant.freeCount_le
        have small := invariant.small
        unfold Word64.modulus
        omega
      refine Or.inr ⟨page, ?_, ⟨tracked, clear⟩, fun other => before other (by omega), positive⟩
      simp only [if_neg (Nat.not_le.mpr tracked), Word64.mul_eq (invariant.page_fits tracked),
        Word64.sub_eq positive countSmall]

theorem freePage_cases {pmm after : Pmm} {phys : Nat} (invariant : pmm.Invariant)
    (freed : freePage pmm phys = .ok after) :
    ∃ page, phys = page * PAGE_SIZE ∧ page < pmm.totalPages ∧ isUsed pmm page = true ∧
      after = { setFree pmm page with freeCount := pmm.freeCount + 1 } := by
  unfold freePage at freed
  split at freed
  · cases freed
  · rename_i aligned
    simp only at freed
    split at freed
    · cases freed
    · rename_i tracked
      split at freed
      · cases freed
      · rename_i used
        have inside : phys / PAGE_SIZE < pmm.totalPages := Decidable.not_not.mp tracked
        have exactSum : Word64.add pmm.freeCount 1 = pmm.freeCount + 1 := by
          have below := invariant.freeCount_le
          have small := invariant.small
          apply Word64.add_eq
          unfold Word64.modulus
          omega
        rw [exactSum] at freed
        refine ⟨phys / PAGE_SIZE, ?_, inside, by simpa using used, ?_⟩
        · unfold PAGE_SIZE at *
          omega
        · cases freed
          rfl

theorem allocPage_invariant {pmm : Pmm} (invariant : pmm.Invariant) :
    (allocPage pmm).2.Invariant := by
  rcases allocPage_cases invariant with ⟨unchanged, _⟩ | ⟨page, taken, free, _, positive⟩
  · rw [unchanged]
    exact invariant
  · rw [taken]
    refine ⟨?_, ?_, invariant.covered, invariant.small⟩
    · have card := Bitmap.card_clearBelow_setBit free.1 free.2
      have counted := invariant.counted
      change pmm.freeCount - 1 = (Bitmap.clearBelow (Bitmap.setBit pmm.bitmap page)
        pmm.totalPages).card
      omega
    · intro index past inside
      change Bitmap.bit (Bitmap.setBit pmm.bitmap page) index = true
      rw [Bitmap.bit_setBit, invariant.padded index past inside, Bool.or_true]

theorem freePage_invariant {pmm after : Pmm} {phys : Nat} (invariant : pmm.Invariant)
    (freed : freePage pmm phys = .ok after) : after.Invariant := by
  obtain ⟨page, _, tracked, used, rfl⟩ := freePage_cases invariant freed
  refine ⟨?_, ?_, invariant.covered, invariant.small⟩
  · have card := Bitmap.card_clearBelow_clearBit tracked used
    have counted := invariant.counted
    change pmm.freeCount + 1 = (Bitmap.clearBelow (Bitmap.clearBit pmm.bitmap page)
      pmm.totalPages).card
    omega
  · intro index past inside
    change pmm.totalPages ≤ index at past
    have different : index ≠ page := by omega
    change Bitmap.bit (Bitmap.clearBit pmm.bitmap page) index = true
    rw [Bitmap.bit_clearBit, invariant.padded index past inside]
    simp [different]

theorem allocPage_none_iff {pmm : Pmm} (invariant : pmm.Invariant) :
    (allocPage pmm).1 = none ↔ pmm.freeCount = 0 := by
  rcases allocPage_cases invariant with ⟨unchanged, full⟩ | ⟨page, taken, _, _, positive⟩
  · rw [unchanged, invariant.counted]
    simp only [true_iff, Finset.card_eq_zero]
    apply Finset.eq_empty_of_forall_notMem
    intro page member
    exact full page (Pmm.mem_clearBelow.mp member)
  · rw [taken]
    simp only [reduceCtorEq, false_iff]
    omega

/-! ### Runs -/

inductive PmmCall where
  | allocPage
  | freePage (phys : Nat)
  deriving DecidableEq

/-- A rejected `free_page` panics and ends the run. -/
def pmmStep (pmm : Pmm) : PmmCall → Option Pmm
  | .allocPage => some (allocPage pmm).2
  | .freePage phys => (freePage pmm phys).toOption

theorem freePage_of_pmmStep {pmm after : Pmm} {phys : Nat}
    (stepped : pmmStep pmm (.freePage phys) = some after) : freePage pmm phys = .ok after := by
  unfold pmmStep at stepped
  cases result : freePage pmm phys with
  | error panic => simp [result, Except.toOption] at stepped
  | ok next =>
      simp only [result, Except.toOption, Option.some.injEq] at stepped
      rw [stepped]

theorem pmmStep_invariant (pmm : Pmm) (call : PmmCall) (after : Pmm) (invariant : pmm.Invariant)
    (stepped : pmmStep pmm call = some after) : after.Invariant := by
  cases call with
  | allocPage =>
      cases stepped
      exact allocPage_invariant invariant
  | freePage phys => exact freePage_invariant invariant (freePage_of_pmmStep stepped)

theorem pmmStep_keeps_used {pmm after : Pmm} {call : PmmCall} {page : Nat}
    (invariant : pmm.Invariant) (used : isUsed pmm page = true)
    (other : call ≠ .freePage (page * PAGE_SIZE)) (stepped : pmmStep pmm call = some after) :
    isUsed after page = true := by
  cases call with
  | allocPage =>
      cases stepped
      rcases allocPage_cases invariant with ⟨unchanged, _⟩ | ⟨taken, allocated, _⟩
      · rw [unchanged]
        exact used
      · rw [allocated]
        change Bitmap.bit (Bitmap.setBit pmm.bitmap taken) page = true
        unfold isUsed at used
        rw [Bitmap.bit_setBit, used, Bool.or_true]
  | freePage phys =>
      obtain ⟨freed, rfl, _, _, rfl⟩ :=
        freePage_cases invariant (freePage_of_pmmStep stepped)
      have different : page ≠ freed := by
        intro same
        exact other (by rw [same])
      change Bitmap.bit (Bitmap.clearBit pmm.bitmap freed) page = true
      unfold isUsed at used
      rw [Bitmap.bit_clearBit, used]
      simp [different]

theorem exec_keeps_used {pmm final : Pmm} {calls : List PmmCall} {page : Nat}
    (invariant : pmm.Invariant) (used : isUsed pmm page = true)
    (untouched : PmmCall.freePage (page * PAGE_SIZE) ∉ calls)
    (reached : LabelledRun.exec pmmStep pmm calls = some final) :
    isUsed final page = true := by
  have others (call : PmmCall) (member : call ∈ calls) : call ≠ .freePage (page * PAGE_SIZE) := by
    intro same
    exact untouched (by rw [← same]; exact member)
  have kept := @LabelledRun.exec_invariant_of_labels _ _ pmmStep
    (fun pmm => pmm.Invariant ∧ isUsed pmm page = true) (· ≠ .freePage (page * PAGE_SIZE))
    (fun state call next here other stepped =>
      ⟨pmmStep_invariant state call next here.1 stepped,
        pmmStep_keeps_used here.1 here.2 other stepped⟩)
    pmm final calls ⟨invariant, used⟩ others reached
  exact kept.2

theorem allocPage_used {pmm : Pmm} {phys : Nat} (invariant : pmm.Invariant)
    (taken : (allocPage pmm).1 = some phys) :
    ∃ page, phys = page * PAGE_SIZE ∧ pmm.Free page ∧
      isUsed (allocPage pmm).2 page = true := by
  rcases allocPage_cases invariant with ⟨unchanged, _⟩ | ⟨page, allocated, free, _, _⟩
  · rw [unchanged] at taken
    cases taken
  · rw [allocated] at taken ⊢
    cases taken
    refine ⟨page, rfl, free, ?_⟩
    change Bitmap.bit (Bitmap.setBit pmm.bitmap page) page = true
    rw [Bitmap.bit_setBit]
    simp

theorem no_second_return {pmm later : Pmm} {phys : Nat} {calls : List PmmCall}
    (invariant : pmm.Invariant) (taken : (allocPage pmm).1 = some phys)
    (between : LabelledRun.exec pmmStep (allocPage pmm).2 calls = some later)
    (again : (allocPage later).1 = some phys) : PmmCall.freePage phys ∈ calls := by
  have afterFirst := allocPage_invariant invariant
  have laterInvariant := LabelledRun.exec_invariant pmmStep_invariant afterFirst between
  obtain ⟨page, rfl, _, used⟩ := allocPage_used invariant taken
  obtain ⟨samePage, sameEq, free, _⟩ := allocPage_used laterInvariant again
  have same : samePage = page := by
    unfold PAGE_SIZE at sameEq
    omega
  subst samePage
  apply Decidable.byContradiction
  intro untouched
  have stillUsed := exec_keeps_used afterFirst used untouched between
  rw [free.2] at stillUsed
  cases stillUsed

/-- In every state reached from a successful boot the counter and the bitmap
agree, `alloc_page` returns the lowest clear page or reports exhaustion exactly
at zero, and no page is returned twice without a `free_page` of it. -/
theorem pmm_representation_invariant {entries : List MemmapEntry} {hhdm : Nat}
    {memory : Bitmap.Bytes} {booted pmm : Pmm} {calls : List PmmCall}
    (noOverflow : NoOverflow entries) (aligned : UsableAligned entries)
    (disjoint : UsableDisjoint entries)
    (boot : initPmm (some entries) hhdm memory = .ok booted)
    (reached : LabelledRun.exec pmmStep booted calls = some pmm) :
    pmm.freeCount = (Bitmap.clearBelow pmm.bitmap pmm.totalPages).card ∧
    (∀ index, pmm.totalPages ≤ index → index < pmm.bitmapLen * 8 →
      isUsed pmm index = true) ∧
    pmm.freeCount ≤ pmm.totalPages ∧
    ((allocPage pmm).1 = none ↔ pmm.freeCount = 0) ∧
    (∀ phys, (allocPage pmm).1 = some phys →
      ∃ page, phys = page * PAGE_SIZE ∧ page < pmm.totalPages ∧ isUsed pmm page = false ∧
        (∀ other, other < page → isUsed pmm other = true) ∧
        (∀ other, isUsed (allocPage pmm).2 other =
          (decide (other = page) || isUsed pmm other)) ∧
        (allocPage pmm).2.freeCount + 1 = pmm.freeCount) ∧
    (∀ phys between later, (allocPage pmm).1 = some phys →
      LabelledRun.exec pmmStep (allocPage pmm).2 between = some later →
      (allocPage later).1 = some phys → PmmCall.freePage phys ∈ between) ∧
    meminfoUsed pmm + getFreePageCount pmm = getTotalPageCount pmm := by
  have invariant : pmm.Invariant :=
    LabelledRun.exec_invariant pmmStep_invariant
      (initPmm_invariant noOverflow aligned disjoint boot) reached
  have below := invariant.freeCount_le
  refine ⟨invariant.counted, invariant.padded, below, allocPage_none_iff invariant, ?_, ?_, ?_⟩
  · intro phys taken
    rcases allocPage_cases invariant with ⟨unchanged, _⟩ | ⟨page, allocated, free, lowest, positive⟩
    · rw [unchanged] at taken
      cases taken
    · rw [allocated] at taken ⊢
      cases taken
      refine ⟨page, rfl, free.1, free.2, lowest, fun other => Bitmap.bit_setBit _ _ _, ?_⟩
      change pmm.freeCount - 1 + 1 = pmm.freeCount
      omega
  · intro phys between later taken ran again
    exact no_second_return invariant taken ran again
  · have small := invariant.small
    have used : meminfoUsed pmm = pmm.totalPages - pmm.freeCount :=
      Word64.sub_eq below (by unfold getTotalPageCount Word64.modulus; omega)
    rw [used]
    unfold getFreePageCount getTotalPageCount
    omega

/-- A small map: low memory, a reserved hole and two usable regions. -/
def sampleMap : List MemmapEntry :=
  [{ base := 0x1000, length := 0x4000, type_ := MEMMAP_USABLE },
   { base := 0x9fc00, length := 0x60400, type_ := 1 },
   { base := 0x100000, length := 0x6000, type_ := MEMMAP_USABLE },
   { base := 0x108000, length := 0x3000, type_ := MEMMAP_USABLE }]

theorem sampleMap_noOverflow : NoOverflow sampleMap := by
  unfold NoOverflow sampleMap
  decide

theorem sampleMap_aligned : UsableAligned sampleMap := by
  unfold UsableAligned sampleMap
  decide

theorem sampleMap_separate : sampleMap.Pairwise (fun left right =>
    ∀ address, ¬(left.Contains address ∧ right.Contains address)) :=
  separate_of_sorted (by unfold sampleMap; decide)

theorem sampleMap_disjoint : UsableDisjoint sampleMap :=
  sampleMap_separate.imp (fun separate _ _ => separate)

theorem sampleMap_representation_invariant :
    ∃ booted pmm,
      initPmm (some sampleMap) 0xffff800000000000 (fun _ => 0#8) = .ok booted ∧
      LabelledRun.exec pmmStep booted
        [.allocPage, .allocPage, .freePage 0x100000, .freePage 0x3000] = some pmm ∧
      pmm.freeCount = 9 ∧ pmm.freeCount = (Bitmap.clearBelow pmm.bitmap pmm.totalPages).card :=
  ⟨_, _, rfl, rfl, rfl,
    (@pmm_representation_invariant sampleMap 0xffff800000000000 (fun _ => 0#8) _ _
      [.allocPage, .allocPage, .freePage 0x100000, .freePage 0x3000]
      sampleMap_noOverflow sampleMap_aligned sampleMap_disjoint rfl rfl).1⟩

end CustomKernel.Memory
