/-
The two operations of the page allocator as relations.

Taking a page sets one clear bit, the lowest; giving a page back clears one set bit.
Everything else that a proof about owners needs is the bit of every other page, the
counter and the page total.
-/

import CustomKernel.Memory.PmmInvariant

set_option autoImplicit false

namespace CustomKernel.Memory

structure Pmm.Took (before : Pmm) (page : Nat) (after : Pmm) : Prop where
  free : before.Free page
  lowest : ∀ other, other < page → isUsed before other = true
  used : ∀ other, isUsed after other = (decide (other = page) || isUsed before other)
  counted : after.freeCount + 1 = before.freeCount
  totalPages : after.totalPages = before.totalPages
  invariant : after.Invariant

structure Pmm.Gave (before : Pmm) (page : Nat) (after : Pmm) : Prop where
  tracked : page < before.totalPages
  wasUsed : isUsed before page = true
  used : ∀ other, isUsed after other = (!decide (other = page) && isUsed before other)
  counted : after.freeCount = before.freeCount + 1
  totalPages : after.totalPages = before.totalPages
  invariant : after.Invariant

theorem allocPage_took {pmm after : Pmm} {phys : Nat} (invariant : pmm.Invariant)
    (taken : allocPage pmm = (some phys, after)) :
    ∃ page, phys = page * PAGE_SIZE ∧ pmm.Took page after := by
  have kept := allocPage_invariant invariant
  rcases allocPage_cases invariant with ⟨unchanged, _⟩ | ⟨page, allocated, free, lowest, positive⟩
  · rw [unchanged] at taken
    cases taken
  · rw [allocated] at taken kept
    cases taken
    refine ⟨page, rfl, free, lowest, fun other => Bitmap.bit_setBit _ _ _, ?_, rfl, kept⟩
    exact Nat.sub_add_cancel positive

theorem allocPage_full {pmm after : Pmm} (invariant : pmm.Invariant)
    (failed : allocPage pmm = (none, after)) : after = pmm ∧ ∀ page, ¬ pmm.Free page := by
  rcases allocPage_cases invariant with ⟨unchanged, full⟩ | ⟨page, allocated, _⟩
  · rw [unchanged] at failed
    cases failed
    exact ⟨rfl, full⟩
  · rw [allocated] at failed
    cases failed

theorem freePage_gave {pmm after : Pmm} {phys : Nat} (invariant : pmm.Invariant)
    (freed : freePage pmm phys = .ok after) :
    ∃ page, phys = page * PAGE_SIZE ∧ pmm.Gave page after := by
  have kept := freePage_invariant invariant freed
  obtain ⟨page, same, tracked, used, rfl⟩ := freePage_cases invariant freed
  exact ⟨page, same, tracked, used, fun other => Bitmap.bit_clearBit _ _ _, rfl, rfl, kept⟩

theorem page_eq_of_address {left right : Nat} (same : left * PAGE_SIZE = right * PAGE_SIZE) :
    left = right :=
  Nat.eq_of_mul_eq_mul_right (Nat.zero_lt_succ _) same

theorem Pmm.Took.free_before {before after : Pmm} {page : Nat} (took : before.Took page after)
    {other : Nat} (free : after.Free other) : before.Free other ∧ other ≠ page := by
  obtain ⟨tracked, clear⟩ := free
  rw [took.used, Bool.or_eq_false_iff] at clear
  exact ⟨⟨took.totalPages ▸ tracked, clear.2⟩, of_decide_eq_false clear.1⟩

theorem Pmm.Gave.free_before {before after : Pmm} {page other : Nat}
    (gave : before.Gave page after) (free : after.Free other) (different : other ≠ page) :
    before.Free other := by
  obtain ⟨tracked, clear⟩ := free
  rw [gave.used] at clear
  exact ⟨gave.totalPages ▸ tracked, by simpa [different] using clear⟩

theorem Pmm.Took.below {pmm middle after : Pmm} {page0 page1 : Nat}
    (first : pmm.Took page0 middle) (second : middle.Took page1 after) : page0 < page1 := by
  obtain ⟨free, different⟩ := first.free_before second.free
  rcases Nat.lt_or_ge page1 page0 with before | past
  · have used := first.lowest page1 before
    rw [free.2] at used
    cases used
  · omega

/-! ### Pages in somebody's hands -/

def Pmm.Taken (pmm : Pmm) (phys : Nat) : Prop :=
  ∃ page, phys = page * PAGE_SIZE ∧ page < pmm.totalPages ∧ isUsed pmm page = true

theorem Pmm.Took.taken {before after : Pmm} {page : Nat} (took : before.Took page after) :
    after.Taken (page * PAGE_SIZE) :=
  ⟨page, rfl, took.totalPages ▸ took.free.1, by rw [took.used]; simp⟩

theorem Pmm.Took.not_taken {before after : Pmm} {page : Nat} (took : before.Took page after) :
    ¬ before.Taken (page * PAGE_SIZE) := by
  rintro ⟨other, same, _, used⟩
  rw [← page_eq_of_address same, took.free.2] at used
  cases used

theorem Pmm.Took.keeps {before after : Pmm} {page phys : Nat} (took : before.Took page after)
    (taken : before.Taken phys) : after.Taken phys := by
  obtain ⟨other, same, tracked, used⟩ := taken
  exact ⟨other, same, took.totalPages ▸ tracked, by rw [took.used, used, Bool.or_true]⟩

theorem Pmm.Gave.keeps {before after : Pmm} {page phys : Nat} (gave : before.Gave page after)
    (taken : before.Taken phys) (other : phys ≠ page * PAGE_SIZE) : after.Taken phys := by
  obtain ⟨kept, same, tracked, used⟩ := taken
  have different : kept ≠ page := by
    rintro rfl
    exact other same
  exact ⟨kept, same, gave.totalPages ▸ tracked, by rw [gave.used, used]; simp [different]⟩

/-! ### Runs of allocations -/

theorem allocPage_some {pmm after : Pmm} {phys : Nat}
    (taken : allocPage pmm = (some phys, after)) :
    ∃ page, phys = Word64.mul page PAGE_SIZE ∧ pmm.Free page ∧
      after.totalPages = pmm.totalPages ∧
      ∀ other, isUsed after other = (decide (other = page) || isUsed pmm other) := by
  unfold allocPage at taken
  cases found : Bitmap.firstClear pmm.bitmap pmm.bitmapLen 0 with
  | none => simp [found] at taken
  | some page =>
      simp only [found] at taken
      split at taken
      · cases taken
      · rename_i tracked
        have clear := (Bitmap.firstClear_some found).2.2.1
        cases taken
        exact ⟨page, rfl, ⟨Nat.not_le.mp tracked, clear⟩, rfl,
          fun other => Bitmap.bit_setBit _ _ _⟩

theorem freePage_clears {pmm after : Pmm} {phys : Nat} (freed : freePage pmm phys = .ok after) :
    ∃ page, phys = page * PAGE_SIZE ∧ after.totalPages = pmm.totalPages ∧
      ∀ other, isUsed after other = (!decide (other = page) && isUsed pmm other) := by
  unfold freePage at freed
  split at freed
  · cases freed
  · rename_i aligned
    have address : phys = phys / PAGE_SIZE * PAGE_SIZE := by
      unfold PAGE_SIZE at *
      omega
    dsimp only at freed
    split at freed
    · cases freed
    · split at freed
      · cases freed
      · cases freed
        exact ⟨phys / PAGE_SIZE, address, rfl, fun other => Bitmap.bit_clearBit _ _ _⟩

structure Pmm.OnlyTakes (before after : Pmm) : Prop where
  totalPages : after.totalPages = before.totalPages
  used : ∀ page, isUsed before page = true → isUsed after page = true

theorem Pmm.OnlyTakes.refl (pmm : Pmm) : pmm.OnlyTakes pmm where
  totalPages := rfl
  used _ used := used

theorem Pmm.OnlyTakes.trans {first second third : Pmm} (left : first.OnlyTakes second)
    (right : second.OnlyTakes third) : first.OnlyTakes third where
  totalPages := right.totalPages.trans left.totalPages
  used page used := right.used page (left.used page used)

theorem Pmm.OnlyTakes.free {before after : Pmm} (only : before.OnlyTakes after) {page : Nat}
    (free : after.Free page) : before.Free page := by
  obtain ⟨tracked, clear⟩ := free
  rw [only.totalPages] at tracked
  cases usage : isUsed before page with
  | false => exact ⟨tracked, usage⟩
  | true =>
      have used := only.used page usage
      rw [clear] at used
      cases used

theorem Pmm.OnlyTakes.taken {before after : Pmm} (only : before.OnlyTakes after) {phys : Nat}
    (taken : before.Taken phys) : after.Taken phys := by
  obtain ⟨page, same, tracked, used⟩ := taken
  rw [← only.totalPages] at tracked
  exact ⟨page, same, tracked, only.used page used⟩

theorem allocPage_onlyTakes {pmm after : Pmm} {result : Option Nat}
    (taken : allocPage pmm = (result, after)) : pmm.OnlyTakes after := by
  cases result with
  | some phys =>
      obtain ⟨page, _, _, total, used⟩ := allocPage_some taken
      refine ⟨total, ?_⟩
      intro other before
      rw [used, before, Bool.or_true]
  | none =>
      unfold allocPage at taken
      split at taken
      · cases taken
        exact Pmm.OnlyTakes.refl _
      · split at taken
        · cases taken
          exact Pmm.OnlyTakes.refl _
        · cases taken

def Pmm.freePages (pmm : Pmm) : Nat := (Bitmap.clearBelow pmm.bitmap pmm.totalPages).card

theorem Pmm.OnlyTakes.freePages_le {before after : Pmm} (only : before.OnlyTakes after) :
    after.freePages ≤ before.freePages := by
  apply Finset.card_le_card
  intro page member
  exact Pmm.mem_clearBelow.mpr (only.free (Pmm.mem_clearBelow.mp member))

theorem Pmm.OnlyTakes.freePages_lt {before after : Pmm} (only : before.OnlyTakes after)
    {page : Nat} (free : before.Free page) (used : isUsed after page = true) :
    after.freePages < before.freePages := by
  apply Finset.card_lt_card
  rw [Finset.ssubset_iff_of_subset]
  · refine ⟨page, Pmm.mem_clearBelow.mpr free, ?_⟩
    intro member
    have clear := (Pmm.mem_clearBelow.mp member).2
    rw [used] at clear
    cases clear
  · intro other member
    exact Pmm.mem_clearBelow.mpr (only.free (Pmm.mem_clearBelow.mp member))

theorem Pmm.freePages_le (pmm : Pmm) : pmm.freePages ≤ pmm.totalPages :=
  Bitmap.card_clearBelow_le _ _

/-- The free pages that the scan of `alloc_page` comes to. -/
def Pmm.available (pmm : Pmm) : Nat :=
  (Bitmap.clearBelow pmm.bitmap (min pmm.totalPages (pmm.bitmapLen * 8))).card

theorem Pmm.available_eq {pmm : Pmm} (covered : pmm.totalPages ≤ pmm.bitmapLen * 8) :
    pmm.available = pmm.freePages := by
  unfold Pmm.available Pmm.freePages
  rw [Nat.min_eq_left covered]

theorem allocPage_exhausted {pmm : Pmm} (none_ : pmm.available = 0) :
    allocPage pmm = (none, pmm) := by
  have clear (page : Nat) : ¬ (page < min pmm.totalPages (pmm.bitmapLen * 8) ∧
      Bitmap.bit pmm.bitmap page = false) := by
    rw [← Bitmap.mem_clearBelow, Finset.card_eq_zero.mp none_]
    exact Finset.notMem_empty page
  unfold allocPage
  cases found : Bitmap.firstClear pmm.bitmap pmm.bitmapLen 0 with
  | none => rfl
  | some page =>
      obtain ⟨_, inside, pageClear, _⟩ := Bitmap.firstClear_some found
      apply if_pos
      apply Nat.le_of_not_lt
      intro tracked
      exact clear page ⟨by omega, pageClear⟩

theorem allocPage_takes {pmm : Pmm} (available : 0 < pmm.available) :
    ∃ page after, allocPage pmm = (some (Word64.mul page PAGE_SIZE), after) ∧
      after.available + 1 = pmm.available ∧ after.bitmapLen = pmm.bitmapLen ∧
      after.totalPages = pmm.totalPages := by
  obtain ⟨remaining, member⟩ := Finset.card_pos.mp available
  obtain ⟨tracked, clear⟩ := Bitmap.mem_clearBelow.mp member
  unfold allocPage
  cases found : Bitmap.firstClear pmm.bitmap pmm.bitmapLen 0 with
  | none =>
      have set := Bitmap.firstClear_none found remaining (by omega) (by omega)
      rw [clear] at set
      cases set
  | some page =>
      obtain ⟨_, _, pageClear, before⟩ := Bitmap.firstClear_some found
      have lowest : page ≤ remaining := by
        apply Nat.le_of_not_lt
        intro past
        have set := before remaining (by omega) past
        rw [clear] at set
        cases set
      have inside : page < min pmm.totalPages (pmm.bitmapLen * 8) :=
        Nat.lt_of_le_of_lt lowest tracked
      refine ⟨page, _, if_neg (by omega), ?_, rfl, rfl⟩
      exact Bitmap.card_clearBelow_setBit inside pageClear

theorem allocPage_progress {pmm : Pmm} (covered : pmm.totalPages ≤ pmm.bitmapLen * 8)
    (available : 0 < pmm.freePages) :
    ∃ page after, allocPage pmm = (some (Word64.mul page PAGE_SIZE), after) ∧
      after.freePages + 1 = pmm.freePages ∧ after.bitmapLen = pmm.bitmapLen := by
  rw [← Pmm.available_eq covered] at available ⊢
  obtain ⟨page, after, taken, spent, length, total⟩ := allocPage_takes available
  refine ⟨page, after, taken, ?_, length⟩
  rw [← total, ← length] at covered
  rw [← Pmm.available_eq covered]
  exact spent

end CustomKernel.Memory
