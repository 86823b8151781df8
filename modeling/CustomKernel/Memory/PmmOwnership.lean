/-
Which pages the allocator hands out.

A page of free RAM lies in a usable region, above the first megabyte and outside
the bitmap.  Boot releases exactly those pages.  Clients that free only what
they hold can never make another page free, and a page in their hands is never
handed out again.
-/

import CustomKernel.Memory.PmmInvariant
import Mathlib.Data.Set.Card

set_option autoImplicit false

namespace CustomKernel.Memory

/-- The end of every entry stays within the lower half of the address space. -/
def EndsInLowerHalf (entries : List MemmapEntry) : Prop :=
  ∀ entry, entry ∈ entries → entry.base + entry.length ≤ 2 ^ 63

def UsableApart (entries : List MemmapEntry) : Prop :=
  entries.Pairwise (fun left right => left.Usable ∨ right.Usable →
    ∀ address, ¬(left.Contains address ∧ right.Contains address))

theorem EndsInLowerHalf.noOverflow {entries : List MemmapEntry}
    (lower : EndsInLowerHalf entries) : NoOverflow entries := by
  intro entry member
  have bound := lower entry member
  unfold Word64.modulus
  omega

theorem UsableApart.disjoint {entries : List MemmapEntry} (apart : UsableApart entries) :
    UsableDisjoint entries :=
  List.Pairwise.imp (fun separate leftUsable _ => separate (Or.inl leftUsable)) apart

/-! ### Where the bitmap goes -/

theorem highest_le_foldl (entries : List MemmapEntry) (start : Nat) :
    start ≤ entries.foldl
      (fun highest entry => if highest < entry.stop then entry.stop else highest) start := by
  induction entries generalizing start with
  | nil => exact Nat.le_refl _
  | cons entry rest ih =>
      rw [List.foldl_cons]
      refine Nat.le_trans ?_ (ih _)
      split <;> omega

theorem stop_le_highest {entries : List MemmapEntry} {entry : MemmapEntry}
    (member : entry ∈ entries) (start : Nat) :
    entry.stop ≤ entries.foldl
      (fun highest entry => if highest < entry.stop then entry.stop else highest) start := by
  induction entries generalizing start with
  | nil => cases member
  | cons head rest ih =>
      rw [List.foldl_cons]
      rcases List.mem_cons.mp member with same | later
      · subst head
        refine Nat.le_trans ?_ (highest_le_foldl rest _)
        split <;> omega
      · exact ih later _

theorem highest_le_of_stops {entries : List MemmapEntry} {bound start : Nat}
    (below : ∀ entry, entry ∈ entries → entry.stop ≤ bound) (startBelow : start ≤ bound) :
    entries.foldl (fun highest entry => if highest < entry.stop then entry.stop else highest)
      start ≤ bound := by
  induction entries generalizing start with
  | nil => exact startBelow
  | cons entry rest ih =>
      rw [List.foldl_cons]
      apply ih (fun other member => below other (List.mem_cons_of_mem _ member))
      have head := below entry (List.mem_cons_self ..)
      split <;> omega

theorem MemmapEntry.stop_eq {entries : List MemmapEntry} {entry : MemmapEntry}
    (lower : EndsInLowerHalf entries) (member : entry ∈ entries) :
    entry.stop = entry.base + entry.length :=
  Word64.add_eq (lower.noOverflow entry member)

theorem highestAddr_le {entries : List MemmapEntry} (lower : EndsInLowerHalf entries) :
    highestAddr entries ≤ 2 ^ 63 :=
  highest_le_of_stops
    (fun entry member => by
      rw [MemmapEntry.stop_eq lower member]
      exact lower entry member)
    (Nat.zero_le _)

theorem tracked_of_containsPage {entries : List MemmapEntry} (lower : EndsInLowerHalf entries)
    {entry : MemmapEntry} (member : entry ∈ entries) {page : Nat}
    (inside : entry.ContainsPage page) : page < totalPagesOf entries := by
  have stop := stop_le_highest member 0
  rw [MemmapEntry.stop_eq lower member] at stop
  have total : totalPagesOf entries = (highestAddr entries + 4095) / PAGE_SIZE :=
    pagesFor_eq (highestAddr_le lower)
  unfold MemmapEntry.ContainsPage at inside
  unfold highestAddr at total
  unfold PAGE_SIZE at *
  omega

theorem bitmapBytesOf_le (entries : List MemmapEntry) : bitmapBytesOf entries ≤ 2 ^ 52 := by
  have small := totalPagesOf_small entries
  have exactSum : Word64.add (totalPagesOf entries) 7 = totalPagesOf entries + 7 :=
    Word64.add_eq (by unfold Word64.modulus; omega)
  unfold bitmapBytesOf
  rw [exactSum]
  omega

theorem findBitmap_spec {entries : List MemmapEntry} (lower : EndsInLowerHalf entries)
    (aligned : UsableAligned entries) {bytes : Nat}
    (found : findBitmap bytes entries ≠ 0) :
    ∃ entry, entry ∈ entries ∧ entry.Usable ∧ findBitmap bytes entries = entry.base ∧
      bytes ≤ entry.length := by
  induction entries with
  | nil => exact False.elim (found rfl)
  | cons entry rest ih =>
      have restLower : EndsInLowerHalf rest :=
        fun other member => lower other (List.mem_cons_of_mem _ member)
      have restAligned : UsableAligned rest :=
        fun other member => aligned other (List.mem_cons_of_mem _ member)
      have later : findBitmap bytes (entry :: rest) = findBitmap bytes rest →
          ∃ other, other ∈ entry :: rest ∧ other.Usable ∧
            findBitmap bytes (entry :: rest) = other.base ∧ bytes ≤ other.length := by
        intro skipped
        rw [skipped] at found ⊢
        obtain ⟨other, member, usable, start, fits⟩ := ih restLower restAligned found
        exact ⟨other, List.mem_cons_of_mem _ member, usable, start, fits⟩
      by_cases usable : entry.Usable
      · by_cases fits : bytes ≤ entry.length
        · have ends := lower entry (List.mem_cons_self ..)
          have onPage := (aligned entry (List.mem_cons_self ..) usable).1
          have rounded : Word64.sub (Word64.add entry.base PAGE_SIZE) 1 = entry.base + 4095 := by
            unfold PAGE_SIZE
            exact Word64.sub_add_eq (by omega) (by unfold Word64.modulus; omega)
          have start : (entry.base + 4095) &&& Word64.not (PAGE_SIZE - 1) = entry.base := by
            have mask : (entry.base + 4095) &&& Word64.not (PAGE_SIZE - 1) =
                (entry.base + 4095) / 2 ^ 12 * 2 ^ 12 :=
              @Word64.and_not_low (entry.base + 4095) 12 (by unfold Word64.modulus; omega)
                (by decide)
            rw [mask]
            unfold PAGE_SIZE at onPage
            omega
          have stop := MemmapEntry.stop_eq lower (List.mem_cons_self ..)
          have bitmapEnd : Word64.add entry.base bytes = entry.base + bytes :=
            Word64.add_eq (by unfold Word64.modulus; omega)
          have chosen : findBitmap bytes (entry :: rest) = entry.base := by
            simp only [findBitmap]
            rw [if_neg (fun different => different usable), if_pos fits, rounded, start,
              bitmapEnd, stop, if_pos (Nat.add_le_add_left fits _)]
          exact ⟨entry, List.mem_cons_self .., usable, chosen, fits⟩
        · refine later ?_
          simp only [findBitmap]
          rw [if_neg (fun different => different usable), if_neg fits]
      · exact later (if_pos usable)

theorem bitmapPhysOf_ne_zero {entries : List MemmapEntry} {hhdm : Nat}
    {memory : Bitmap.Bytes} {pmm : Pmm}
    (booted : initPmm (some entries) hhdm memory = .ok pmm) : bitmapPhysOf entries ≠ 0 := by
  unfold initPmm at booted
  split at booted
  · cases booted
  · rename_i found
    cases found
    split at booted
    · cases booted
    · split at booted
      · cases booted
      · rename_i _ present
        exact present

theorem bitmap_placement {entries : List MemmapEntry} {hhdm : Nat} {memory : Bitmap.Bytes}
    {pmm : Pmm} (lower : EndsInLowerHalf entries) (aligned : UsableAligned entries)
    (booted : initPmm (some entries) hhdm memory = .ok pmm) :
    bitmapPhysOf entries % PAGE_SIZE = 0 ∧
    bitmapEndPhysOf entries =
      bitmapPhysOf entries + bitmapPagesOf entries * PAGE_SIZE ∧
    bitmapBytesOf entries ≤ bitmapPagesOf entries * PAGE_SIZE := by
  obtain ⟨entry, member, usable, start, _⟩ := findBitmap_spec lower aligned
    (bitmapPhysOf_ne_zero booted)
  have bytes := bitmapBytesOf_le entries
  have pages : bitmapPagesOf entries = (bitmapBytesOf entries + 4095) / PAGE_SIZE :=
    pagesFor_eq (by omega)
  have onPage := (aligned entry member usable).1
  have ends := lower entry member
  have base : bitmapPhysOf entries = entry.base := start
  have product : Word64.mul (bitmapPagesOf entries) PAGE_SIZE =
      bitmapPagesOf entries * PAGE_SIZE :=
    Word64.mul_eq (by unfold PAGE_SIZE Word64.modulus at *; omega)
  refine ⟨by rw [base]; exact onPage, ?_, ?_⟩
  · unfold bitmapEndPhysOf
    rw [product]
    exact Word64.add_eq (by unfold PAGE_SIZE Word64.modulus at *; omega)
  · unfold PAGE_SIZE at *
    omega

/-! ### Free RAM -/

/-- A page boot may release: inside a usable entry, not in the first megabyte and
outside the whole pages of the bitmap. -/
def FreeRamPage (entries : List MemmapEntry) (page : Nat) : Prop :=
  (∃ entry, entry ∈ entries ∧ entry.Usable ∧ entry.ContainsPage page) ∧
    0x100000 ≤ page * PAGE_SIZE ∧
    ¬(bitmapPhysOf entries ≤ page * PAGE_SIZE ∧
      page * PAGE_SIZE < bitmapPhysOf entries + bitmapPagesOf entries * PAGE_SIZE)

theorem mem_releasedPages_iff {entries : List MemmapEntry} {hhdm : Nat}
    {memory : Bitmap.Bytes} {pmm : Pmm} (lower : EndsInLowerHalf entries)
    (aligned : UsableAligned entries)
    (booted : initPmm (some entries) hhdm memory = .ok pmm) (page : Nat) :
    page ∈ releasedPages entries ↔ FreeRamPage entries page := by
  have placement := (bitmap_placement lower aligned booted).2.1
  rw [mem_releasedPages, mem_visitedPages lower.noOverflow aligned, Releasable, placement]
  constructor
  · intro both
    exact ⟨both.1, both.2.1, both.2.2.1⟩
  · intro free
    obtain ⟨entry, member, _, inside⟩ := free.1
    exact ⟨free.1, free.2.1, free.2.2, tracked_of_containsPage lower member inside⟩

/-! ### Clients that free only what they hold -/

structure ClientState where
  pmm : Pmm
  held : Finset Nat

/-- A client may free a page only while it holds it. -/
def clientStep (state : ClientState) : PmmCall → Option ClientState
  | .allocPage =>
      match allocPage state.pmm with
      | (none, pmm) => some { state with pmm := pmm }
      | (some phys, pmm) => some { pmm := pmm, held := insert phys state.held }
  | .freePage phys =>
      if phys ∈ state.held then
        match freePage state.pmm phys with
        | .error _ => none
        | .ok pmm => some { pmm := pmm, held := state.held.erase phys }
      else none

/-- Free pages and held pages are pages of `ram`, and no held page is free. -/
structure ClientState.Invariant (ram : Nat → Prop) (state : ClientState) : Prop where
  pmm : state.pmm.Invariant
  free : ∀ page, state.pmm.Free page → ram page
  held : ∀ phys, phys ∈ state.held →
    ∃ page, phys = page * PAGE_SIZE ∧ ram page ∧ isUsed state.pmm page = true

theorem clientStep_invariant (ram : Nat → Prop) (state : ClientState) (call : PmmCall)
    (after : ClientState) (invariant : state.Invariant ram)
    (stepped : clientStep state call = some after) : after.Invariant ram := by
  cases call with
  | allocPage =>
      rcases allocPage_cases invariant.pmm with ⟨unchanged, _⟩ | ⟨page, taken, free, _, _⟩
      · simp only [clientStep, unchanged, Option.some.injEq] at stepped
        subst after
        exact invariant
      · have kept := allocPage_invariant invariant.pmm
        rw [taken] at kept
        simp only [clientStep, taken, Option.some.injEq] at stepped
        subst after
        refine ⟨kept, ?_, ?_⟩
        · intro other otherFree
          have clear : Bitmap.bit (Bitmap.setBit state.pmm.bitmap page) other = false :=
            otherFree.2
          rw [Bitmap.bit_setBit, Bool.or_eq_false_iff] at clear
          exact invariant.free other ⟨otherFree.1, clear.2⟩
        · intro phys member
          have bit (other : Nat) : isUsed { setUsed state.pmm page with
              freeCount := state.pmm.freeCount - 1 } other =
                (decide (other = page) || isUsed state.pmm other) :=
            Bitmap.bit_setBit _ _ _
          rcases Finset.mem_insert.mp member with new | old
          · exact ⟨page, new, invariant.free page free, by rw [bit]; simp⟩
          · obtain ⟨other, sameEq, inRam, used⟩ := invariant.held phys old
            exact ⟨other, sameEq, inRam, by rw [bit, used, Bool.or_true]⟩
  | freePage phys =>
      simp only [clientStep] at stepped
      split at stepped
      · rename_i holds
        split at stepped
        · cases stepped
        · rename_i pmm freed
          simp only [Option.some.injEq] at stepped
          subst after
          have kept := freePage_invariant invariant.pmm freed
          obtain ⟨page, rfl, tracked, _, rfl⟩ := freePage_cases invariant.pmm freed
          obtain ⟨samePage, sameEq, inRam, _⟩ := invariant.held _ holds
          have same : samePage = page := by
            unfold PAGE_SIZE at sameEq
            omega
          subst samePage
          have bit (other : Nat) : isUsed { setFree state.pmm page with
              freeCount := state.pmm.freeCount + 1 } other =
                (!decide (other = page) && isUsed state.pmm other) :=
            Bitmap.bit_clearBit _ _ _
          refine ⟨kept, ?_, ?_⟩
          · intro other otherFree
            have clear := otherFree.2
            rw [bit] at clear
            by_cases equal : other = page
            · rw [equal]
              exact inRam
            · simp only [equal, decide_false, Bool.not_false, Bool.true_and] at clear
              exact invariant.free other ⟨otherFree.1, clear⟩
          · intro other member
            obtain ⟨different, old⟩ := Finset.mem_erase.mp member
            obtain ⟨otherPage, otherEq, otherRam, used⟩ := invariant.held other old
            have apart : otherPage ≠ page := by
              intro equal
              exact different (by rw [otherEq, equal])
            exact ⟨otherPage, otherEq, otherRam, by rw [bit, used]; simp [apart]⟩
      · cases stepped

theorem initPmm_clientInvariant {entries : List MemmapEntry} {hhdm : Nat}
    {memory : Bitmap.Bytes} {pmm : Pmm} (lower : EndsInLowerHalf entries)
    (aligned : UsableAligned entries) (apart : UsableApart entries)
    (booted : initPmm (some entries) hhdm memory = .ok pmm) :
    ClientState.Invariant (FreeRamPage entries) { pmm := pmm, held := ∅ } where
  pmm := initPmm_invariant lower.noOverflow aligned apart.disjoint booted
  free page free := (mem_releasedPages_iff lower aligned booted page).mp
    (mem_releasedPages.mpr ((initPmm_free_iff booted page).mp free))
  held phys member := absurd member (Finset.notMem_empty phys)

theorem freePage_of_held {ram : Nat → Prop} {state : ClientState} {phys : Nat}
    (invariant : state.Invariant ram)
    (tracked : ∀ page, ram page → page < state.pmm.totalPages) (holds : phys ∈ state.held) :
    ∃ after, freePage state.pmm phys = .ok after := by
  obtain ⟨page, rfl, inRam, used⟩ := invariant.held phys holds
  have aligned : ¬ page * PAGE_SIZE % PAGE_SIZE ≠ 0 := by
    unfold PAGE_SIZE
    omega
  have index : page * PAGE_SIZE / PAGE_SIZE = page := by
    unfold PAGE_SIZE
    omega
  have inside := tracked page inRam
  simp only [freePage, if_neg aligned, index, inside, used, not_true_eq_false, if_false]
  exact ⟨_, rfl⟩

/-- Every page handed out is a page of free RAM that nobody holds, and right after
boot both counters equal the number of such pages. -/
theorem alloc_page_only_free_ram {entries : List MemmapEntry} {hhdm : Nat}
    {memory : Bitmap.Bytes} {booted : Pmm} {calls : List PmmCall} {state : ClientState}
    (lower : EndsInLowerHalf entries) (aligned : UsableAligned entries)
    (apart : UsableApart entries)
    (boot : initPmm (some entries) hhdm memory = .ok booted)
    (reached : LabelledRun.exec clientStep { pmm := booted, held := ∅ } calls = some state) :
    (∀ phys, (allocPage state.pmm).1 = some phys →
      (∃ entry, entry ∈ entries ∧ entry.Usable ∧ entry.base ≤ phys ∧
        phys + PAGE_SIZE ≤ entry.base + entry.length) ∧
      0x100000 ≤ phys ∧
      (∀ address, phys ≤ address → address < phys + PAGE_SIZE →
        ¬(bitmapPhysOf entries ≤ address ∧
          address < bitmapPhysOf entries + bitmapBytesOf entries)) ∧
      phys ∉ state.held) ∧
    booted.freeCount = booted.usablePage ∧
    booted.usablePage = Set.ncard {page | FreeRamPage entries page} := by
  have invariant : state.Invariant (FreeRamPage entries) :=
    LabelledRun.exec_invariant (clientStep_invariant (FreeRamPage entries))
      (initPmm_clientInvariant lower aligned apart boot) reached
  refine ⟨?_, ?_⟩
  · intro phys taken
    obtain ⟨page, rfl, free, _⟩ := allocPage_used invariant.pmm taken
    obtain ⟨region, high, outside⟩ := invariant.free page free
    obtain ⟨onPage, _, wholePages⟩ := bitmap_placement lower aligned boot
    obtain ⟨entry, member, usable, inside⟩ := region
    refine ⟨⟨entry, member, usable, inside.1, inside.2⟩, high, ?_, ?_⟩
    · intro address above below both
      apply outside
      unfold PAGE_SIZE at *
      omega
    · intro holds
      obtain ⟨other, sameEq, _, used⟩ := invariant.held _ holds
      have same : other = page := by
        unfold PAGE_SIZE at sameEq
        omega
      rw [same, free.2] at used
      cases used
  · obtain ⟨freeCount, usablePage⟩ :=
      initPmm_counts lower.noOverflow aligned apart.disjoint boot
    have sameSet : {page | FreeRamPage entries page} = ↑(releasedPages entries) := by
      ext page
      exact (mem_releasedPages_iff lower aligned boot page).symm
    rw [sameSet, Set.ncard_coe_finset]
    exact ⟨freeCount.trans usablePage.symm, usablePage⟩

theorem sampleMap_apart : UsableApart sampleMap := by
  refine List.Pairwise.imp ?_ sampleMap_separate
  intro left right separate _
  exact separate

theorem sampleMap_only_free_ram :
    ∃ booted state,
      initPmm (some sampleMap) 0xffff800000000000 (fun _ => 0#8) = .ok booted ∧
      LabelledRun.exec clientStep { pmm := booted, held := ∅ }
        [.allocPage, .allocPage, .freePage 0x100000] = some state ∧
      booted.usablePage = Set.ncard {page | FreeRamPage sampleMap page} :=
  ⟨_, _, rfl, rfl,
    (@alloc_page_only_free_ram sampleMap 0xffff800000000000 (fun _ => 0#8) _
      [.allocPage, .allocPage, .freePage 0x100000] _
      (by unfold EndsInLowerHalf sampleMap; decide) sampleMap_aligned
      sampleMap_apart rfl rfl).2.2⟩

end CustomKernel.Memory
