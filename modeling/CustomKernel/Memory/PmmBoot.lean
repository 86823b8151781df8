/-
What a successful boot of the page allocator establishes.

The two nested boot loops are one fold over the pages of the usable regions.
The relation `Released` says exactly what that fold does to the bitmap and to
the counters, and composes over concatenation.  On a map whose usable regions
are aligned and disjoint no page is visited twice, so the counters equal the
number of clear bits.
-/

import CustomKernel.Memory.Pmm
import Mathlib.Data.List.Nodup
import Mathlib.Data.Finset.Card

set_option autoImplicit false

namespace CustomKernel.Memory

/-- The pages that pass every test of the inner boot loop. -/
def Releasable (bitmapPhys bitmapEndPhys totalPages page : Nat) : Prop :=
  0x100000 ≤ page * PAGE_SIZE ∧
    ¬(bitmapPhys ≤ page * PAGE_SIZE ∧ page * PAGE_SIZE < bitmapEndPhys) ∧
    page < totalPages

instance (bitmapPhys bitmapEndPhys totalPages : Nat) :
    DecidablePred (Releasable bitmapPhys bitmapEndPhys totalPages) := fun _ =>
  inferInstanceAs (Decidable (_ ∧ _ ∧ _))

section Loop

variable (bitmapPhys bitmapEndPhys : Nat)

/-- The effect of visiting `pages` in order. -/
structure Released (before : Pmm) (pages : List Nat) (after : Pmm) : Prop where
  totalPages : after.totalPages = before.totalPages
  bitmapLen : after.bitmapLen = before.bitmapLen
  bitmapPtr : after.bitmapPtr = before.bitmapPtr
  bits : ∀ index, Bitmap.bit after.bitmap index =
    (Bitmap.bit before.bitmap index &&
      !decide (index ∈ pages ∧ Releasable bitmapPhys bitmapEndPhys before.totalPages index))
  freeCount :
    before.freeCount +
        pages.countP (fun page => Releasable bitmapPhys bitmapEndPhys before.totalPages page) <
      Word64.modulus →
    after.freeCount = before.freeCount +
      pages.countP (fun page => Releasable bitmapPhys bitmapEndPhys before.totalPages page)
  usablePage :
    before.usablePage +
        pages.countP (fun page => Releasable bitmapPhys bitmapEndPhys before.totalPages page) <
      Word64.modulus →
    after.usablePage = before.usablePage +
      pages.countP (fun page => Releasable bitmapPhys bitmapEndPhys before.totalPages page)

variable {bitmapPhys bitmapEndPhys : Nat}

theorem Released.nil (pmm : Pmm) : Released bitmapPhys bitmapEndPhys pmm [] pmm where
  totalPages := rfl
  bitmapLen := rfl
  bitmapPtr := rfl
  bits index := by simp
  freeCount _ := rfl
  usablePage _ := rfl

theorem Released.append {before middle after : Pmm} {first second : List Nat}
    (left : Released bitmapPhys bitmapEndPhys before first middle)
    (right : Released bitmapPhys bitmapEndPhys middle second after) :
    Released bitmapPhys bitmapEndPhys before (first ++ second) after where
  totalPages := right.totalPages.trans left.totalPages
  bitmapLen := right.bitmapLen.trans left.bitmapLen
  bitmapPtr := right.bitmapPtr.trans left.bitmapPtr
  bits index := by
    rw [right.bits, left.bits, left.totalPages]
    by_cases inFirst : index ∈ first <;> by_cases inSecond : index ∈ second <;>
      by_cases allowed : Releasable bitmapPhys bitmapEndPhys before.totalPages index <;>
      simp [inFirst, inSecond, allowed]
  freeCount bounded := by
    have rightCount := right.freeCount
    rw [List.countP_append] at bounded ⊢
    rw [left.totalPages, left.freeCount (by omega)] at rightCount
    rw [rightCount (by omega)]
    omega
  usablePage bounded := by
    have rightCount := right.usablePage
    rw [List.countP_append] at bounded ⊢
    rw [left.totalPages, left.usablePage (by omega)] at rightCount
    rw [rightCount (by omega)]
    omega

theorem releasePage_released (pmm : Pmm) {page : Nat}
    (small : page * PAGE_SIZE < Word64.modulus) :
    Released bitmapPhys bitmapEndPhys pmm [page]
      (releasePage bitmapPhys bitmapEndPhys pmm page) := by
  by_cases allowed : Releasable bitmapPhys bitmapEndPhys pmm.totalPages page
  · obtain ⟨high, outside, tracked⟩ := allowed
    have nonzero : ¬ page * PAGE_SIZE = 0 := by omega
    have notLow : ¬ page * PAGE_SIZE < 0x100000 := by omega
    have body : releasePage bitmapPhys bitmapEndPhys pmm page =
        { setFree pmm page with
          freeCount := Word64.add pmm.freeCount 1
          usablePage := Word64.add pmm.usablePage 1 } := by
      simp only [releasePage, Word64.mul_eq small, if_neg nonzero, if_neg notLow,
        if_neg outside, if_pos tracked]
    have counted : [page].countP
        (fun page => Releasable bitmapPhys bitmapEndPhys pmm.totalPages page) = 1 := by
      simp [Releasable, high, outside, tracked]
    rw [body]
    refine ⟨rfl, rfl, rfl, ?_, ?_, ?_⟩
    · intro index
      simp only [setFree, Bitmap.bit_clearBit, List.mem_singleton, Bool.and_comm]
      by_cases same : index = page
      · subst index
        simp [Releasable, high, outside, tracked]
      · simp [same]
    · intro bounded
      rw [counted] at bounded ⊢
      exact Word64.add_eq bounded
    · intro bounded
      rw [counted] at bounded ⊢
      exact Word64.add_eq bounded
  · have body : releasePage bitmapPhys bitmapEndPhys pmm page = pmm := by
      simp only [releasePage, Word64.mul_eq small]
      split
      · rfl
      · split
        · rfl
        · split
          · rfl
          · split
            · rename_i notLow outside tracked
              exact False.elim (allowed ⟨Nat.not_lt.mp notLow, outside, tracked⟩)
            · rfl
    have counted : [page].countP
        (fun page => Releasable bitmapPhys bitmapEndPhys pmm.totalPages page) = 0 := by
      simp [allowed]
    rw [body]
    refine ⟨rfl, rfl, rfl, ?_, ?_, ?_⟩
    · intro index
      by_cases same : index = page
      · subst index
        simp [allowed]
      · simp [same]
    · intro _
      rw [counted, Nat.add_zero]
    · intro _
      rw [counted, Nat.add_zero]

theorem foldl_releasePage_released (pages : List Nat) (pmm : Pmm)
    (small : ∀ page, page ∈ pages → page * PAGE_SIZE < Word64.modulus) :
    Released bitmapPhys bitmapEndPhys pmm pages
      (pages.foldl (releasePage bitmapPhys bitmapEndPhys) pmm) := by
  induction pages generalizing pmm with
  | nil => exact Released.nil pmm
  | cons page rest ih =>
      have head : Released bitmapPhys bitmapEndPhys pmm [page]
          (releasePage bitmapPhys bitmapEndPhys pmm page) :=
        releasePage_released pmm (small page (List.mem_cons_self ..))
      have tail := ih (releasePage bitmapPhys bitmapEndPhys pmm page)
        (fun other member => small other (List.mem_cons_of_mem _ member))
      exact head.append tail

end Loop

/-! ### The pages of the usable regions -/

def MemmapEntry.Usable (entry : MemmapEntry) : Prop :=
  entry.type_ = MEMMAP_USABLE

instance (entry : MemmapEntry) : Decidable entry.Usable :=
  inferInstanceAs (Decidable (_ = _))

/-- The entry's range covers the address. -/
def MemmapEntry.Contains (entry : MemmapEntry) (address : Nat) : Prop :=
  entry.base ≤ address ∧ address < entry.base + entry.length

def MemmapEntry.ContainsPage (entry : MemmapEntry) (page : Nat) : Prop :=
  entry.base ≤ page * PAGE_SIZE ∧
    page * PAGE_SIZE + PAGE_SIZE ≤ entry.base + entry.length

def UsableAligned (entries : List MemmapEntry) : Prop :=
  ∀ entry, entry ∈ entries → entry.Usable →
    entry.base % PAGE_SIZE = 0 ∧ entry.length % PAGE_SIZE = 0

def UsableDisjoint (entries : List MemmapEntry) : Prop :=
  entries.Pairwise (fun left right => left.Usable → right.Usable →
    ∀ address, ¬(left.Contains address ∧ right.Contains address))

theorem separate_of_sorted {entries : List MemmapEntry}
    (sorted : entries.Pairwise (fun left right => left.base + left.length ≤ right.base)) :
    entries.Pairwise (fun left right =>
      ∀ address, ¬(left.Contains address ∧ right.Contains address)) := by
  refine List.Pairwise.imp ?_ sorted
  intro left right before address both
  unfold MemmapEntry.Contains at both
  omega

def NoOverflow (entries : List MemmapEntry) : Prop :=
  ∀ entry, entry ∈ entries → entry.base + entry.length < Word64.modulus

def visitedPages (entries : List MemmapEntry) : List Nat :=
  (entries.filter (fun entry => entry.Usable)).flatMap regionPages

theorem mem_regionPages {entry : MemmapEntry} {page : Nat}
    (noOverflow : entry.base + entry.length < Word64.modulus)
    (aligned : entry.base % PAGE_SIZE = 0) :
    page ∈ regionPages entry ↔ entry.ContainsPage page := by
  have bounded := entry.base_lt
  have stop : entry.stop = entry.base + entry.length := Word64.add_eq noOverflow
  have rounded : Word64.sub (Word64.add entry.base PAGE_SIZE) 1 = entry.base + 4095 := by
    unfold PAGE_SIZE Word64.modulus at *
    exact Word64.sub_add_eq (by omega) (by unfold Word64.modulus; omega)
  simp only [regionPages, stop, rounded, List.mem_range'_1, MemmapEntry.ContainsPage]
  unfold PAGE_SIZE at *
  omega

theorem regionPages_small {entry : MemmapEntry} {page : Nat}
    (visited : page ∈ regionPages entry) : page * PAGE_SIZE < Word64.modulus := by
  have stop : entry.stop < Word64.modulus := Word64.add_lt _ _
  simp only [regionPages, List.mem_range'_1] at visited
  unfold PAGE_SIZE at *
  omega

theorem visitedPages_small {entries : List MemmapEntry} {page : Nat}
    (visited : page ∈ visitedPages entries) : page * PAGE_SIZE < Word64.modulus := by
  obtain ⟨entry, _present, inside⟩ := List.mem_flatMap.mp visited
  exact regionPages_small inside

theorem mem_visitedPages {entries : List MemmapEntry} (noOverflow : NoOverflow entries)
    (aligned : UsableAligned entries) (page : Nat) :
    page ∈ visitedPages entries ↔
      ∃ entry, entry ∈ entries ∧ entry.Usable ∧ entry.ContainsPage page := by
  simp only [visitedPages, List.mem_flatMap, List.mem_filter, decide_eq_true_eq]
  constructor
  · rintro ⟨entry, ⟨member, usable⟩, inside⟩
    exact ⟨entry, member, usable,
      (mem_regionPages (noOverflow entry member) (aligned entry member usable).1).mp inside⟩
  · rintro ⟨entry, member, usable, inside⟩
    exact ⟨entry, ⟨member, usable⟩,
      (mem_regionPages (noOverflow entry member) (aligned entry member usable).1).mpr inside⟩

theorem visitedPages_nodup {entries : List MemmapEntry} (noOverflow : NoOverflow entries)
    (aligned : UsableAligned entries) (disjoint : UsableDisjoint entries) :
    (visitedPages entries).Nodup := by
  refine List.nodup_flatMap.mpr ⟨fun entry _ => List.nodup_range', ?_⟩
  have kept : (entries.filter (fun entry => entry.Usable)).Pairwise
      (fun left right => left.Usable → right.Usable →
        ∀ address, ¬(left.Contains address ∧ right.Contains address)) :=
    List.Pairwise.filter _ disjoint
  refine List.Pairwise.imp_of_mem ?_ kept
  intro left right leftMember rightMember apart page inLeft inRight
  obtain ⟨leftIn, leftUsable⟩ := List.mem_filter.mp leftMember
  obtain ⟨rightIn, rightUsable⟩ := List.mem_filter.mp rightMember
  simp only [decide_eq_true_eq] at leftUsable rightUsable
  have leftPage := (mem_regionPages (noOverflow left leftIn)
    (aligned left leftIn leftUsable).1).mp inLeft
  have rightPage := (mem_regionPages (noOverflow right rightIn)
    (aligned right rightIn rightUsable).1).mp inRight
  apply apart leftUsable rightUsable (page * PAGE_SIZE)
  unfold MemmapEntry.Contains MemmapEntry.ContainsPage PAGE_SIZE at *
  omega

/-! ### The state after boot -/

def bitmapEndPhysOf (entries : List MemmapEntry) : Nat :=
  Word64.add (bitmapPhysOf entries) (Word64.mul (bitmapPagesOf entries) PAGE_SIZE)

theorem foldl_releaseRegion (bitmapPhys bitmapEndPhys : Nat) (entries : List MemmapEntry)
    (pmm : Pmm) :
    entries.foldl (releaseRegion bitmapPhys bitmapEndPhys) pmm =
      (visitedPages entries).foldl (releasePage bitmapPhys bitmapEndPhys) pmm := by
  induction entries generalizing pmm with
  | nil => rfl
  | cons entry rest ih =>
      rw [List.foldl_cons, ih]
      by_cases usable : entry.Usable
      · have visited : visitedPages (entry :: rest) =
            regionPages entry ++ visitedPages rest := by
          simp [visitedPages, usable]
        have body : releaseRegion bitmapPhys bitmapEndPhys pmm entry =
            (regionPages entry).foldl (releasePage bitmapPhys bitmapEndPhys) pmm :=
          if_neg (fun different => different usable)
        rw [visited, List.foldl_append, body]
      · have visited : visitedPages (entry :: rest) = visitedPages rest := by
          simp [visitedPages, usable]
        have body : releaseRegion bitmapPhys bitmapEndPhys pmm entry = pmm :=
          if_pos usable
        rw [visited, body]

theorem initPmm_released {entries : List MemmapEntry} {hhdm : Nat} {memory : Bitmap.Bytes}
    {pmm : Pmm} (booted : initPmm (some entries) hhdm memory = .ok pmm) :
    Released (bitmapPhysOf entries) (bitmapEndPhysOf entries)
      (allUsed entries hhdm memory) (visitedPages entries) pmm := by
  unfold initPmm at booted
  split at booted
  · cases booted
  · rename_i found
    cases found
    split at booted
    · cases booted
    · split at booted
      · cases booted
      · simp only [foldl_releaseRegion] at booted
        cases booted
        exact foldl_releasePage_released _ _ (fun page visited => visitedPages_small visited)

theorem totalPagesOf_small (entries : List MemmapEntry) :
    totalPagesOf entries < 2 ^ 52 := by
  have bounded := Word64.sub_lt (Word64.add (highestAddr entries) PAGE_SIZE) 1
  unfold totalPagesOf pagesFor PAGE_SIZE Word64.modulus at *
  omega

theorem totalPagesOf_le_bitmap (entries : List MemmapEntry) :
    totalPagesOf entries ≤ bitmapBytesOf entries * 8 := by
  have small := totalPagesOf_small entries
  have exactSum : Word64.add (totalPagesOf entries) 7 = totalPagesOf entries + 7 :=
    Word64.add_eq (by unfold Word64.modulus; omega)
  unfold bitmapBytesOf
  rw [exactSum]
  omega

theorem allUsed_bit (entries : List MemmapEntry) (hhdm : Nat) (memory : Bitmap.Bytes)
    {index : Nat} (inside : index < bitmapBytesOf entries * 8) :
    Bitmap.bit (allUsed entries hhdm memory).bitmap index = true := by
  have byteInside : index / 8 < bitmapBytesOf entries := by omega
  have full : (allUsed entries hhdm memory).bitmap (index / 8) = 0xff#8 :=
    if_pos byteInside
  rw [Bitmap.bit_eq_getLsbD, full]
  exact Bitmap.full_bit _ (Nat.mod_lt _ (by decide))

end CustomKernel.Memory
