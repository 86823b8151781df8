/-
What tasks leave behind.

A creation takes two pages and an exit gives one of them back, so every exit leaves
one page marked used that no task owns.  The account below holds in every run in which
created tasks exit: nothing else takes pages for tasks or loses them.
-/

import CustomKernel.Multitask.StackPages
import Mathlib.Data.Finset.Filter
import Mathlib.Data.List.Count

set_option autoImplicit false

namespace CustomKernel.Multitask

open Memory

def OwnerCall.isExit : OwnerCall → Bool
  | .kernel (.exit _) => true
  | _ => false

namespace PageOwners

def createdAlive (owners : PageOwners) : Finset Slot :=
  Finset.univ.filter (fun slot => (owners.given slot).isSome = true ∧
    (owners.kernel.tasks slot).state ≠ .empty ∧ (owners.kernel.tasks slot).state ≠ .terminated)

/-- Tasks hold `STACK_PAGES` pages each, and none at all once every created task is
gone: the free counter and the pages of others make up the count at boot. -/
def NoLeak (initial : Nat) (owners : PageOwners) : Prop :=
  owners.taskPages.card = STACK_PAGES * owners.createdAlive.card ∧
    (owners.createdAlive = ∅ → owners.kernel.pmm.freeCount + owners.held.card = initial)

def CreatedExits (owners : PageOwners) : OwnerCall → Prop
  | .kernel (.exit _) => (owners.given owners.kernel.current).isSome = true
  | _ => True

instance (owners : PageOwners) : (call : OwnerCall) → Decidable (CreatedExits owners call)
  | .kernel (.tick _) => isTrue trivial
  | .kernel .yieldCpu => isTrue trivial
  | .kernel (.sleepMs _) => isTrue trivial
  | .kernel (.waitFor _) => isTrue trivial
  | .kernel (.newKernelTask _) => isTrue trivial
  | .kernel (.exit _) =>
      inferInstanceAs (Decidable ((owners.given owners.kernel.current).isSome = true))
  | .allocPage => isTrue trivial
  | .freePage _ => isTrue trivial

variable {owners next : PageOwners} {call : OwnerCall}

theorem mem_createdAlive {slot : Slot} :
    slot ∈ owners.createdAlive ↔
      (owners.given slot).isSome = true ∧ owners.kernel.Alive slot := by
  unfold createdAlive Kernel.Alive
  rw [Finset.mem_filter]
  constructor
  · rintro ⟨_, given, used, lasting⟩
    exact ⟨given, _, Task.life_alive.mpr ⟨used, lasting, rfl⟩⟩
  · rintro ⟨given, pid, alive⟩
    obtain ⟨used, lasting, _⟩ := Task.life_alive.mp alive
    exact ⟨Finset.mem_univ slot, given, used, lasting⟩

/-! ### The account -/

structure Account (initial : Nat) (owners : PageOwners) : Prop where
  taken : owners.taskPages.card = STACK_PAGES * owners.createdAlive.card + owners.exits
  pages : owners.kernel.pmm.freeCount + owners.taskPages.card + owners.held.card = initial

theorem Invariant.own_base (invariant : owners.Invariant)
    (created : (owners.given owners.kernel.current).isSome = true) :
    (owners.kernel.tasks owners.kernel.current).stackBase ∈ owners.taskPages := by
  obtain ⟨⟨phys0, phys1⟩, given⟩ := Option.isSome_iff_exists.mp created
  obtain ⟨base, _, first, _⟩ :=
    invariant.stack _ phys0 phys1 given invariant.alive_current
  rw [base]
  exact first

theorem Turn.createdAlive_exit {code : Int} (created : owners.CreatedExits (.kernel (.exit code)))
    (invariant : owners.Invariant) {after : Kernel}
    (alive : ∀ slot, after.Alive slot ↔
      slot ≠ owners.kernel.current ∧ owners.kernel.Alive slot) :
    (createdAlive { owners with kernel := after }).card + 1 = owners.createdAlive.card := by
  have caller : owners.kernel.current ∈ owners.createdAlive :=
    mem_createdAlive.mpr ⟨created, invariant.alive_current⟩
  have same : createdAlive { owners with kernel := after } =
      owners.createdAlive.erase owners.kernel.current := by
    ext slot
    rw [Finset.mem_erase, mem_createdAlive, mem_createdAlive]
    dsimp only
    rw [alive]
    exact and_left_comm
  rw [same, Finset.card_erase_add_one caller]

theorem Turn.createdAlive_created {after : Kernel} {slot : Slot} {stack : Nat × Nat}
    (dead : ¬ owners.kernel.Alive slot)
    (alive : ∀ other, after.Alive other ↔ other = slot ∨ owners.kernel.Alive other) :
    (createdAlive
      { owners with kernel := after, given := Function.update owners.given slot (some stack) }).card =
      owners.createdAlive.card + 1 := by
  have newcomer : slot ∉ owners.createdAlive :=
    fun member => dead (mem_createdAlive.mp member).2
  have grown : createdAlive
      { owners with kernel := after, given := Function.update owners.given slot (some stack) } =
      insert slot owners.createdAlive := by
    ext other
    rw [Finset.mem_insert, mem_createdAlive, mem_createdAlive]
    dsimp only
    rw [alive]
    by_cases here : other = slot
    · rw [here, Function.update_self]
      simp
    · rw [Function.update_of_ne here]
      simp [here]
  rw [grown, Finset.card_insert_of_notMem newcomer]

theorem Invariant.card_new (invariant : owners.Invariant) {page0 page1 : Nat} {middle after : Pmm}
    (took0 : owners.kernel.pmm.Took page0 middle) (took1 : middle.Took page1 after) :
    (insert (page0 * PAGE_SIZE) (insert (page1 * PAGE_SIZE) owners.taskPages)).card =
      owners.taskPages.card + STACK_PAGES := by
  have fresh1 : page1 * PAGE_SIZE ∉ owners.taskPages := fun member =>
    took1.not_taken (took0.keeps (invariant.taken _ (Or.inl member)))
  have fresh0 : page0 * PAGE_SIZE ∉ insert (page1 * PAGE_SIZE) owners.taskPages := by
    intro member
    rcases Finset.mem_insert.mp member with same | old
    · have below := took0.below took1
      have equal := page_eq_of_address same
      omega
    · exact took0.not_taken (invariant.taken _ (Or.inl old))
  rw [Finset.card_insert_of_notMem fresh0, Finset.card_insert_of_notMem fresh1]
  rfl

theorem Turn.account {initial : Nat} (invariant : owners.Invariant)
    (created : owners.CreatedExits call) (account : owners.Account initial)
    (turn : owners.Turn call next) : next.Account initial := by
  have taken := account.taken
  have pages := account.pages
  cases turn with
  | noPage => exact account
  | takes page after took =>
      have fresh : page * PAGE_SIZE ∉ owners.held :=
        fun held => took.not_taken (invariant.taken _ (Or.inr held))
      have counted := took.counted
      constructor
      · exact taken
      · dsimp only [setPmm]
        rw [Finset.card_insert_of_notMem fresh]
        omega
  | gives page after holds gave =>
      have counted := gave.counted
      have fewer := Finset.card_erase_add_one holds
      constructor
      · exact taken
      · dsimp only [setPmm]
        omega
  | same call after _ _ running hhdmOffset pmm stackKept alive =>
      have kept : createdAlive { owners with kernel := after } = owners.createdAlive := by
        ext slot
        rw [mem_createdAlive, mem_createdAlive]
        exact and_congr_right fun _ => alive slot
      have counted := pmm.counted
      constructor
      · rw [kept]
        exact taken
      · dsimp only
        omega
  | exits code after page running hhdmOffset base gave stackKept alive =>
      have fewer := Finset.card_erase_add_one (invariant.own_base created)
      have left := createdAlive_exit created invariant alive
      have counted := gave.counted
      constructor
      · change _ = STACK_PAGES * (createdAlive { owners with kernel := after }).card +
          (owners.exits + 1)
        dsimp only
        unfold STACK_PAGES at taken ⊢
        omega
      · dsimp only
        omega
  | creates entry slot page0 page1 middle after _ running hhdmOffset took0 took1 base top _
      stackKept dead alive =>
      have grown := @createdAlive_created owners after slot (page0 * PAGE_SIZE, page1 * PAGE_SIZE)
        dead alive
      have more := invariant.card_new took0 took1
      have counted0 := took0.counted
      have counted1 := took1.counted
      unfold STACK_PAGES at *
      constructor
      · change _ = 2 * (createdAlive { owners with
            kernel := after
            given := Function.update owners.given slot
              (some (page0 * PAGE_SIZE, page1 * PAGE_SIZE)) }).card + owners.exits
        dsimp only
        omega
      · dsimp only
        omega

theorem Turn.exits_counted (turn : owners.Turn call next) :
    next.exits = owners.exits + if call.isExit then 1 else 0 := by
  cases turn with
  | same call after notExit =>
      cases call with
      | exit code => exact absurd rfl (notExit code)
      | _ => rfl
  | _ => rfl

theorem exec_account {initial : Nat} {calls : List OwnerCall} (invariant : owners.Invariant)
    (account : owners.Account initial)
    (created : LabelledRun.Guarded step CreatedExits owners calls)
    (run : LabelledRun.exec step owners calls = some next) :
    next.Account initial ∧ next.exits = owners.exits + calls.countP OwnerCall.isExit := by
  induction calls generalizing owners with
  | nil =>
      cases run
      exact ⟨account, rfl⟩
  | cons call rest ih =>
      obtain ⟨middle, stepped, continued⟩ := LabelledRun.exec_cons_eq_some.mp run
      have turn := turn_of_step invariant stepped
      obtain ⟨ends, counted⟩ := ih (turn.invariant invariant)
        (turn.account invariant created.1 account) (created.2 middle stepped) continued
      refine ⟨ends, ?_⟩
      rw [counted, turn.exits_counted, List.countP_cons]
      omega

theorem start_account (pmm : Pmm) (hhdmOffset : Nat) :
    (start pmm hhdmOffset).Account pmm.freeCount := by
  have nobody : (start pmm hhdmOffset).createdAlive = ∅ := by
    ext slot
    rw [mem_createdAlive]
    simp [start]
  constructor
  · rw [nobody]
    rfl
  · rfl

/-- The account says exactly how much has leaked. -/
theorem Account.noLeak_iff {initial : Nat} (account : owners.Account initial) :
    owners.NoLeak initial ↔ owners.exits = 0 := by
  have taken := account.taken
  have pages := account.pages
  constructor
  · rintro ⟨exact, _⟩
    omega
  · intro none
    refine ⟨by omega, ?_⟩
    intro gone
    rw [gone, Finset.card_empty] at taken
    omega

/-- From boot on, tasks leak nothing in exactly the runs without an exit. -/
theorem no_leak_iff_no_exit {entries : List MemmapEntry} {hhdm : Nat} {memory : Bitmap.Bytes}
    {pmm : Pmm} {calls : List OwnerCall} {reached : PageOwners}
    (noOverflow : NoOverflow entries) (aligned : UsableAligned entries)
    (disjoint : UsableDisjoint entries)
    (boot : initPmm (some entries) hhdm memory = .ok pmm)
    (created : LabelledRun.Guarded step CreatedExits (start pmm hhdm) calls)
    (run : LabelledRun.exec step (start pmm hhdm) calls = some reached) :
    reached.NoLeak pmm.freeCount ↔ ∀ code, .kernel (.exit code) ∉ calls := by
  obtain ⟨account, counted⟩ := exec_account (start_invariant noOverflow aligned disjoint boot)
    (start_account pmm hhdm) created run
  have none : reached.exits = calls.countP OwnerCall.isExit := counted.trans (Nat.zero_add _)
  rw [account.noLeak_iff, none, List.countP_eq_zero]
  constructor
  · intro noExit code member
    exact noExit _ member rfl
  · intro noExit call member exits
    unfold OwnerCall.isExit at exits
    split at exits
    · exact noExit _ member
    · cases exits

def sampleBoot : Pmm :=
  match initPmm (some sampleMap) 0xffff800000000000 (fun _ => 0#8) with
  | .ok pmm => pmm
  | .error _ => samplePmm

theorem sampleBoot_boots :
    initPmm (some sampleMap) 0xffff800000000000 (fun _ => 0#8) = .ok sampleBoot := rfl

def sampleStay : List OwnerCall :=
  [.kernel (.newKernelTask 0x1000), .kernel .yieldCpu, .kernel (.sleepMs 20), .allocPage,
    .kernel (.tick 1), .kernel (.tick 2), .kernel (.tick 3)]

theorem sampleStay_no_leak :
    ∃ reached, LabelledRun.exec step (start sampleBoot 0xffff800000000000) sampleStay =
      some reached ∧ (reached.NoLeak sampleBoot.freeCount ↔
        ∀ code, .kernel (.exit code) ∉ sampleStay) := by
  have runs : (LabelledRun.exec step (start sampleBoot 0xffff800000000000) sampleStay).isSome =
      true := by
    decide +kernel
  obtain ⟨reached, run⟩ := Option.isSome_iff_exists.mp runs
  exact ⟨reached, run, no_leak_iff_no_exit sampleMap_noOverflow sampleMap_aligned
    sampleMap_disjoint sampleBoot_boots (by decide +kernel) run⟩

/-- A task is created, runs, exits and is reaped: one of its pages stays used. -/
def sampleExit : List OwnerCall :=
  [.kernel (.newKernelTask 0x1000), .kernel .yieldCpu, .kernel (.exit 0), .kernel (.waitFor 1)]

theorem sampleExit_leaks :
    ∃ reached, LabelledRun.exec step (start sampleBoot 0xffff800000000000) sampleExit =
      some reached ∧ LabelledRun.Guarded step CreatedExits (start sampleBoot 0xffff800000000000)
        sampleExit ∧ reached.createdAlive = ∅ ∧ reached.held = ∅ ∧
      reached.kernel.pmm.freeCount + 1 = sampleBoot.freeCount ∧
      ¬ reached.NoLeak sampleBoot.freeCount := by
  have runs : (LabelledRun.exec step (start sampleBoot 0xffff800000000000) sampleExit).map
      (fun owners => (owners.createdAlive, owners.held, owners.kernel.pmm.freeCount + 1)) =
        some (∅, ∅, sampleBoot.freeCount) := by
    decide +kernel
  obtain ⟨reached, run, values⟩ := Option.map_eq_some_iff.mp runs
  simp only [Prod.mk.injEq] at values
  obtain ⟨gone, nothing, count⟩ := values
  refine ⟨reached, run, by decide +kernel, gone, nothing, count, ?_⟩
  rintro ⟨_, back⟩
  have whole := back gone
  rw [nothing, Finset.card_empty] at whole
  omega

end PageOwners

end CustomKernel.Multitask
