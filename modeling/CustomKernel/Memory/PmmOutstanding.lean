/-
Which calls of `free_page` are accepted.

A clear bit says that a page may be handed out.  A set bit says one of two things: the
page is out, or boot never released it.  The assertions of `free_page` look at the bit
only, so they also accept a page that boot kept back, once, and from then on that page
is handed out like any other.
-/

import CustomKernel.Memory.PmmOwnership
import CustomKernel.Memory.PmmSteps

set_option autoImplicit false

namespace CustomKernel.Memory

/-- The allocator and its history: the pages handed out and not freed since, and every
address that an accepted `free_page` has named. -/
structure PmmHistory where
  pmm : Pmm
  outstanding : Finset Nat
  named : Finset Nat

def PmmHistory.start (booted : Pmm) : PmmHistory :=
  { pmm := booted, outstanding := ∅, named := ∅ }

/-- Any address may be passed to `free_page`; a rejected call ends the run. -/
def historyStep (state : PmmHistory) : PmmCall → Option PmmHistory
  | .allocPage =>
      match allocPage state.pmm with
      | (none, pmm) => some { state with pmm := pmm }
      | (some phys, pmm) =>
          some { state with pmm := pmm, outstanding := insert phys state.outstanding }
  | .freePage phys =>
      match freePage state.pmm phys with
      | .error _ => none
      | .ok pmm =>
          some { pmm := pmm, outstanding := state.outstanding.erase phys
                 named := insert phys state.named }

/-- Boot left the page marked used and no `free_page` has named it so far. -/
def PmmHistory.Kept (booted : Pmm) (state : PmmHistory) (phys : Nat) : Prop :=
  booted.Taken phys ∧ phys ∉ state.named

/-! ### The assertions read one bit -/

theorem freePage_accepts_iff (pmm : Pmm) (phys : Nat) :
    (∃ after, freePage pmm phys = .ok after) ↔ pmm.Taken phys := by
  constructor
  · intro accepted
    rcases accepted with ⟨after, freed⟩
    unfold freePage at freed
    split at freed
    · cases freed
    · rename_i aligned
      dsimp only at freed
      split at freed
      · cases freed
      · rename_i tracked
        split at freed
        · cases freed
        · rename_i used
          have address : phys = phys / PAGE_SIZE * PAGE_SIZE := by
            unfold PAGE_SIZE at *
            omega
          exact ⟨phys / PAGE_SIZE, address, Decidable.not_not.mp tracked, by simpa using used⟩
  · intro taken
    rcases taken with ⟨page, rfl, tracked, used⟩
    have aligned : ¬ page * PAGE_SIZE % PAGE_SIZE ≠ 0 := by
      unfold PAGE_SIZE
      omega
    have index : page * PAGE_SIZE / PAGE_SIZE = page := by
      unfold PAGE_SIZE
      omega
    simp only [freePage, if_neg aligned, index, tracked, used, not_true_eq_false, if_false]
    exact ⟨_, rfl⟩

theorem allocPage_taken_iff {pmm after : Pmm} {phys : Nat} (small : pmm.totalPages < 2 ^ 52)
    (allocated : allocPage pmm = (some phys, after)) :
    ¬ pmm.Taken phys ∧ after.totalPages = pmm.totalPages ∧
      ∀ other, after.Taken other ↔ other = phys ∨ pmm.Taken other := by
  obtain ⟨page, wrapped, free, total, used⟩ := allocPage_some allocated
  have tracked := free.1
  have address : phys = page * PAGE_SIZE := by
    rw [wrapped]
    apply Word64.mul_eq
    unfold PAGE_SIZE Word64.modulus
    omega
  refine ⟨?_, total, ?_⟩
  · intro taken
    rcases taken with ⟨other, same, _, otherUsed⟩
    rw [address] at same
    rw [← page_eq_of_address same, free.2] at otherUsed
    cases otherUsed
  · intro other
    constructor
    · intro taken
      rcases taken with ⟨otherPage, same, otherTracked, otherUsed⟩
      rw [used, Bool.or_eq_true, decide_eq_true_iff] at otherUsed
      rcases otherUsed with new | old
      · exact Or.inl (by rw [same, new, address])
      · exact Or.inr ⟨otherPage, same, total ▸ otherTracked, old⟩
    · intro either
      rcases either with new | old
      · exact ⟨page, new.trans address, total ▸ tracked, by rw [used]; simp⟩
      · rcases old with ⟨otherPage, same, otherTracked, otherUsed⟩
        exact ⟨otherPage, same, total ▸ otherTracked, by rw [used, otherUsed, Bool.or_true]⟩

theorem freePage_taken_iff {pmm after : Pmm} {phys : Nat}
    (freed : freePage pmm phys = .ok after) :
    after.totalPages = pmm.totalPages ∧
      ∀ other, after.Taken other ↔ other ≠ phys ∧ pmm.Taken other := by
  obtain ⟨page, address, total, used⟩ := freePage_clears freed
  refine ⟨total, ?_⟩
  intro other
  constructor
  · intro taken
    rcases taken with ⟨otherPage, same, otherTracked, otherUsed⟩
    rw [used] at otherUsed
    simp only [Bool.and_eq_true, Bool.not_eq_true', decide_eq_false_iff_not] at otherUsed
    constructor
    · intro equal
      rw [same, address] at equal
      exact otherUsed.1 (page_eq_of_address equal)
    · exact ⟨otherPage, same, total ▸ otherTracked, otherUsed.2⟩
  · intro both
    rcases both with ⟨different, otherPage, same, otherTracked, otherUsed⟩
    have apart : otherPage ≠ page := by
      intro equal
      exact different (by rw [same, equal, address])
    exact ⟨otherPage, same, total ▸ otherTracked, by rw [used, otherUsed]; simp [apart]⟩

/-! ### What a set bit stands for -/

/-- A page is marked used because it is out or because boot kept it, never for both. -/
structure PmmHistory.Explained (booted : Pmm) (state : PmmHistory) : Prop where
  small : booted.totalPages < 2 ^ 52
  totalPages : state.pmm.totalPages = booted.totalPages
  taken : ∀ phys, state.pmm.Taken phys ↔ phys ∈ state.outstanding ∨ state.Kept booted phys
  apart : ∀ phys, phys ∈ state.outstanding → ¬ state.Kept booted phys

theorem PmmHistory.start_explained {booted : Pmm} (small : booted.totalPages < 2 ^ 52) :
    (PmmHistory.start booted).Explained booted where
  small := small
  totalPages := rfl
  taken phys := by simp [start, Kept]
  apart phys out := by simp [start] at out

theorem historyStep_explained (booted : Pmm) (state : PmmHistory) (call : PmmCall)
    (after : PmmHistory) (explained : state.Explained booted)
    (stepped : historyStep state call = some after) : after.Explained booted := by
  have small : state.pmm.totalPages < 2 ^ 52 := explained.totalPages ▸ explained.small
  cases call with
  | allocPage =>
      cases allocated : allocPage state.pmm with
      | mk result pmm =>
          cases result with
          | none =>
              simp only [historyStep, allocated, Option.some.injEq] at stepped
              subst after
              have unchanged : pmm = state.pmm := by
                unfold allocPage at allocated
                grind
              rw [unchanged]
              exact explained
          | some phys =>
              simp only [historyStep, allocated, Option.some.injEq] at stepped
              subst after
              obtain ⟨fresh, total, taken⟩ := allocPage_taken_iff small allocated
              have notKept : ¬ state.Kept booted phys := by
                intro kept
                exact fresh ((explained.taken phys).mpr (Or.inr kept))
              constructor
              case small => exact explained.small
              case totalPages => exact total.trans explained.totalPages
              case taken =>
                intro other
                rw [taken, explained.taken, Finset.mem_insert, or_assoc]
                exact Iff.rfl
              case apart =>
                intro other out
                rcases Finset.mem_insert.mp out with new | old
                · rw [new]
                  exact notKept
                · exact explained.apart other old
  | freePage phys =>
      cases freed : freePage state.pmm phys with
      | error panic => simp [historyStep, freed] at stepped
      | ok pmm =>
          simp only [historyStep, freed, Option.some.injEq] at stepped
          subst after
          obtain ⟨total, taken⟩ := freePage_taken_iff freed
          constructor
          case small => exact explained.small
          case totalPages => exact total.trans explained.totalPages
          case taken =>
            intro other
            rw [taken, explained.taken, Finset.mem_erase, PmmHistory.Kept, PmmHistory.Kept,
              Finset.mem_insert, not_or]
            tauto
          case apart =>
            intro other out kept
            rw [Finset.mem_erase] at out
            rw [PmmHistory.Kept, Finset.mem_insert, not_or] at kept
            exact explained.apart other out.2 ⟨kept.1, kept.2.2⟩

/-- The assertions accept a page exactly when it is out, unless boot kept it. -/
theorem PmmHistory.Explained.accepts_iff {booted : Pmm} {state : PmmHistory}
    (explained : state.Explained booted) (phys : Nat) :
    ((∃ after, freePage state.pmm phys = .ok after) ↔ phys ∈ state.outstanding) ↔
      ¬ state.Kept booted phys := by
  rw [freePage_accepts_iff, explained.taken]
  constructor
  · intro exactly kept
    exact explained.apart phys (exactly.mp (Or.inr kept)) kept
  · intro notKept
    constructor
    · intro either
      exact either.resolve_right notKept
    · exact Or.inl

/-! ### Runs that free no kept page -/

def SparesKept (booted : Pmm) (state : PmmHistory) (call : PmmCall) : Prop :=
  ∀ phys, call = .freePage phys → ¬ state.Kept booted phys

/-- Only pages that boot released are free or out, and the counter tells them apart. -/
structure PmmHistory.Conserved (booted : Pmm) (state : PmmHistory) : Prop where
  explained : state.Explained booted
  named : ∀ phys, phys ∈ state.named → ¬ booted.Taken phys

theorem historyStep_conserved (booted : Pmm) (state : PmmHistory) (call : PmmCall)
    (after : PmmHistory) (conserved : state.Conserved booted)
    (spares : SparesKept booted state call) (stepped : historyStep state call = some after) :
    after.Conserved booted := by
  have explained := historyStep_explained booted state call after conserved.explained stepped
  refine ⟨explained, ?_⟩
  cases call with
  | allocPage =>
      cases allocated : allocPage state.pmm with
      | mk result pmm =>
          cases result with
          | none =>
              simp only [historyStep, allocated, Option.some.injEq] at stepped
              subst after
              exact conserved.named
          | some phys =>
              simp only [historyStep, allocated, Option.some.injEq] at stepped
              subst after
              exact conserved.named
  | freePage phys =>
      cases freed : freePage state.pmm phys with
      | error panic => simp [historyStep, freed] at stepped
      | ok pmm =>
          simp only [historyStep, freed, Option.some.injEq] at stepped
          subst after
          intro other member
          rcases Finset.mem_insert.mp member with new | old
          · intro taken
            rw [new] at taken
            by_cases before : phys ∈ state.named
            · exact conserved.named phys before taken
            · exact spares phys rfl ⟨taken, before⟩
          · exact conserved.named other old

theorem PmmHistory.Conserved.allocated {booted : Pmm} {state : PmmHistory} {phys : Nat}
    (conserved : state.Conserved booted) (returned : (allocPage state.pmm).1 = some phys) :
    ∃ page, phys = page * PAGE_SIZE ∧ booted.Free page := by
  have explained := conserved.explained
  have small : state.pmm.totalPages < 2 ^ 52 := explained.totalPages ▸ explained.small
  have allocated : allocPage state.pmm = (some phys, (allocPage state.pmm).2) := by
    rw [← returned]
  obtain ⟨fresh, _⟩ := allocPage_taken_iff small allocated
  obtain ⟨page, wrapped, free, _⟩ := allocPage_some allocated
  have tracked : page < booted.totalPages := explained.totalPages ▸ free.1
  have address : phys = page * PAGE_SIZE := by
    have bound := explained.small
    rw [wrapped]
    apply Word64.mul_eq
    unfold PAGE_SIZE Word64.modulus
    omega
  refine ⟨page, address, tracked, ?_⟩
  cases usage : isUsed booted page with
  | false => rfl
  | true =>
      have kept : state.Kept booted phys := by
        refine ⟨⟨page, address, tracked, usage⟩, ?_⟩
        intro member
        exact conserved.named phys member ⟨page, address, tracked, usage⟩
      exact absurd ((explained.taken phys).mpr (Or.inr kept)) fresh

structure PmmHistory.Balanced (booted : Pmm) (state : PmmHistory) : Prop where
  conserved : state.Conserved booted
  pmm : state.pmm.Invariant
  balance : state.pmm.freeCount + state.outstanding.card = booted.freeCount
  usablePage : state.pmm.usablePage = booted.usablePage

theorem historyStep_balanced (booted : Pmm) (state : PmmHistory) (call : PmmCall)
    (after : PmmHistory) (balanced : state.Balanced booted)
    (spares : SparesKept booted state call) (stepped : historyStep state call = some after) :
    after.Balanced booted := by
  have conserved :=
    historyStep_conserved booted state call after balanced.conserved spares stepped
  have explained := balanced.conserved.explained
  have balance := balanced.balance
  cases call with
  | allocPage =>
      have kept := allocPage_invariant balanced.pmm
      rcases allocPage_cases balanced.pmm with ⟨unchanged, _⟩ | ⟨page, taken, _, _, positive⟩
      · simp only [historyStep, unchanged, Option.some.injEq] at stepped
        subst after
        exact ⟨conserved, balanced.pmm, balance, balanced.usablePage⟩
      · rw [taken] at kept
        have fresh := (allocPage_taken_iff balanced.pmm.small taken).1
        simp only [historyStep, taken, Option.some.injEq] at stepped
        subst after
        have new : page * PAGE_SIZE ∉ state.outstanding := by
          intro out
          exact fresh ((explained.taken _).mpr (Or.inl out))
        refine ⟨conserved, kept, ?_, balanced.usablePage⟩
        rw [Finset.card_insert_of_notMem new]
        dsimp only
        omega
  | freePage phys =>
      cases freed : freePage state.pmm phys with
      | error panic => simp [historyStep, freed] at stepped
      | ok pmm =>
          simp only [historyStep, freed, Option.some.injEq] at stepped
          subst after
          have kept := freePage_invariant balanced.pmm freed
          have accepted := (freePage_accepts_iff state.pmm phys).mp ⟨pmm, freed⟩
          have out : phys ∈ state.outstanding :=
            ((explained.taken phys).mp accepted).resolve_right (spares phys rfl)
          have positive : 0 < state.outstanding.card := Finset.card_pos.mpr ⟨phys, out⟩
          obtain ⟨page, _, _, _, rfl⟩ := freePage_cases balanced.pmm freed
          refine ⟨conserved, kept, ?_, balanced.usablePage⟩
          rw [Finset.card_erase_of_mem out]
          dsimp only
          omega

/-- After any calls, an address is accepted exactly when it is out, unless boot kept its
page and no call has freed it yet.  As long as no call frees such a page, only pages
that boot released are handed out and the counter stays below the usable pages. -/
theorem free_page_accepts_outstanding_iff {entries : List MemmapEntry} {hhdm : Nat}
    {memory : Bitmap.Bytes} {booted : Pmm} {calls : List PmmCall} {state : PmmHistory}
    (boot : initPmm (some entries) hhdm memory = .ok booted)
    (reached : LabelledRun.exec historyStep (PmmHistory.start booted) calls = some state) :
    (∀ phys, ((∃ after, freePage state.pmm phys = .ok after) ↔ phys ∈ state.outstanding) ↔
      ¬ state.Kept booted phys) ∧
    (LabelledRun.Guarded historyStep (SparesKept booted) (PmmHistory.start booted) calls →
      (∀ phys, (allocPage state.pmm).1 = some phys →
        ∃ page, phys = page * PAGE_SIZE ∧ booted.Free page) ∧
      (EndsInLowerHalf entries → UsableAligned entries → UsableApart entries →
        state.pmm.freeCount ≤ state.pmm.usablePage ∧
        ∀ phys, (allocPage state.pmm).1 = some phys →
          ∃ page, phys = page * PAGE_SIZE ∧ FreeRamPage entries page)) := by
  have total : booted.totalPages = totalPagesOf entries := (initPmm_released boot).totalPages
  have small : booted.totalPages < 2 ^ 52 := total ▸ totalPagesOf_small entries
  have initial := PmmHistory.start_explained small
  have explained : state.Explained booted :=
    LabelledRun.exec_invariant (historyStep_explained booted) initial reached
  constructor
  · exact explained.accepts_iff
  · intro guarded
    have conserved : state.Conserved booted :=
      LabelledRun.exec_invariant_of_guarded (historyStep_conserved booted)
        ⟨initial, fun phys member => absurd member (Finset.notMem_empty phys)⟩ guarded reached
    constructor
    · intro phys returned
      exact conserved.allocated returned
    · intro lower aligned apart
      have counts := initPmm_counts lower.noOverflow aligned apart.disjoint boot
      have balanced : state.Balanced booted := by
        refine LabelledRun.exec_invariant_of_guarded (historyStep_balanced booted) ?_ guarded
          reached
        constructor
        case conserved =>
          exact ⟨initial, fun phys member => absurd member (Finset.notMem_empty phys)⟩
        case pmm => exact initPmm_invariant lower.noOverflow aligned apart.disjoint boot
        case balance => rfl
        case usablePage => rfl
      constructor
      · have balance := balanced.balance
        rw [balanced.usablePage, counts.2, ← counts.1]
        omega
      · intro phys returned
        rcases conserved.allocated returned with ⟨page, address, free⟩
        refine ⟨page, address, (mem_releasedPages_iff lower aligned boot page).mp ?_⟩
        exact mem_releasedPages.mpr ((initPmm_free_iff boot page).mp free)

theorem sparesKept_of_released {booted : Pmm} {page : Nat}
    (released : isUsed booted page = false) :
    LabelledRun.Guarded historyStep (SparesKept booted) (PmmHistory.start booted)
      [.allocPage, .freePage (page * PAGE_SIZE)] := by
  constructor
  · intro phys same
    cases same
  · intro next _
    constructor
    · intro phys same kept
      cases same
      rcases kept.1 with ⟨other, address, _, used⟩
      rw [← page_eq_of_address address, released] at used
      cases used
    · intro last _
      trivial

theorem sampleMap_accepts_outstanding :
    ∃ booted state,
      initPmm (some sampleMap) 0xffff800000000000 (fun _ => 0#8) = .ok booted ∧
      LabelledRun.exec historyStep (PmmHistory.start booted)
        [.allocPage, .freePage (256 * PAGE_SIZE)] = some state ∧
      (((∃ after, freePage state.pmm 0x101000 = .ok after) ↔ 0x101000 ∈ state.outstanding) ↔
        ¬ state.Kept booted 0x101000) ∧
      state.pmm.freeCount ≤ state.pmm.usablePage := by
  have holds := @free_page_accepts_outstanding_iff sampleMap 0xffff800000000000 (fun _ => 0#8) _
    [.allocPage, .freePage (256 * PAGE_SIZE)] _ rfl rfl
  exact ⟨_, _, rfl, rfl, holds.1 0x101000,
    ((holds.2 (sparesKept_of_released rfl)).2
      (by unfold EndsInLowerHalf sampleMap; decide) sampleMap_aligned sampleMap_apart).1⟩

/-- Page zero was never handed out, yet right after boot `free_page` accepts it; then one
page more is free than usable, and page zero is the next to be handed out. -/
theorem sampleMap_page_zero_accepted :
    ∃ booted after,
      initPmm (some sampleMap) 0xffff800000000000 (fun _ => 0#8) = .ok booted ∧
      historyStep (PmmHistory.start booted) (.freePage 0) = some after ∧
      0 ∉ (PmmHistory.start booted).outstanding ∧
      after.pmm.usablePage < after.pmm.freeCount ∧
      (allocPage after.pmm).1 = some 0 :=
  ⟨_, _, rfl, rfl, Finset.notMem_empty 0, by decide, rfl⟩

end CustomKernel.Memory
