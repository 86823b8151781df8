/-
The pages of the task stacks.

Every creation takes two pages and every exit gives one of them back.  The pages
taken for tasks and not given back are recorded beside the kernel, with the pages of
other clients, so that the free counter can be accounted for.
-/

import CustomKernel.Foundation.LabelledRun
import CustomKernel.Memory.PmmSteps
import CustomKernel.Multitask.Lives
import CustomKernel.Multitask.SchedulerSafety
import Mathlib.Data.Fintype.Card
import Mathlib.Data.Finset.Card

set_option autoImplicit false

namespace CustomKernel.Multitask

open Memory

/-! ### Two pages for a stack -/

theorem allocStack_pair {pmm after : Pmm} {phys0 phys1 : Nat} (invariant : pmm.Invariant)
    (allocated : allocStack pmm = .ok (some (phys0, phys1), after)) :
    ∃ page0 page1 middle, phys0 = page0 * PAGE_SIZE ∧ phys1 = page1 * PAGE_SIZE ∧
      pmm.Took page0 middle ∧ middle.Took page1 after := by
  unfold allocStack at allocated
  cases first : allocPage pmm with
  | mk taken middle =>
      rw [first] at allocated
      cases taken with
      | none => cases allocated
      | some given0 =>
          obtain ⟨page0, same0, took0⟩ := allocPage_took invariant first
          dsimp only at allocated
          cases second : allocPage middle with
          | mk taken last =>
              rw [second] at allocated
              cases taken with
              | none =>
                  dsimp only at allocated
                  split at allocated <;> cases allocated
              | some given1 =>
                  obtain ⟨page1, same1, took1⟩ := allocPage_took took0.invariant second
                  cases allocated
                  exact ⟨page0, page1, middle, same0, same1, took0, took1⟩

/-- A creation that gets no second page leaves every page as it was. -/
structure PmmSame (before after : Pmm) : Prop where
  used : ∀ page, isUsed after page = isUsed before page
  counted : after.freeCount = before.freeCount
  totalPages : after.totalPages = before.totalPages
  invariant : after.Invariant

theorem PmmSame.refl {pmm : Pmm} (invariant : pmm.Invariant) : PmmSame pmm pmm :=
  ⟨fun _ => rfl, rfl, rfl, invariant⟩

theorem allocStack_none {pmm after : Pmm} (invariant : pmm.Invariant)
    (allocated : allocStack pmm = .ok (none, after)) : PmmSame pmm after := by
  have unchanged := PmmSame.refl invariant
  unfold allocStack at allocated
  cases first : allocPage pmm with
  | mk taken middle =>
      rw [first] at allocated
      cases taken with
      | none =>
          obtain ⟨rfl, _⟩ := allocPage_full invariant first
          cases allocated
          exact unchanged
      | some given =>
          obtain ⟨page, same, took⟩ := allocPage_took invariant first
          dsimp only at allocated
          cases second : allocPage middle with
          | mk taken last =>
              rw [second] at allocated
              cases taken with
              | some given1 => cases allocated
              | none =>
                  obtain ⟨rfl, _⟩ := allocPage_full took.invariant second
                  dsimp only at allocated
                  cases freed : freePage last given with
                  | error panic =>
                      rw [freed] at allocated
                      cases allocated
                  | ok back =>
                      rw [freed] at allocated
                      cases allocated
                      obtain ⟨other, sameOther, gave⟩ := freePage_gave took.invariant freed
                      have samePage := page_eq_of_address (sameOther.symm.trans same)
                      subst samePage
                      refine ⟨?_, ?_, gave.totalPages.trans took.totalPages, gave.invariant⟩
                      · intro page
                        rw [gave.used, took.used]
                        by_cases here : page = other
                        · simp [here, took.free.2]
                        · simp [here]
                      · have up := gave.counted
                        have down := took.counted
                        omega

/-! ### What an operation does to stacks and pages -/

def Kernel.Alive (kernel : Kernel) (slot : Slot) : Prop :=
  ∃ pid, kernel.lives slot = .alive pid

def SameStacks (kernel after : Kernel) : Prop :=
  ∀ slot, (after.tasks slot).stackBase = (kernel.tasks slot).stackBase ∧
    (after.tasks slot).stackTop = (kernel.tasks slot).stackTop

inductive StackStep (kernel : Kernel) : KernelCall → Kernel → Prop
  | same (call : KernelCall) (after : Kernel) (notExit : ∀ code, call ≠ .exit code)
      (notNew : ∀ entry, call ≠ .newKernelTask entry) (pmm : after.pmm = kernel.pmm)
      (stackKept : SameStacks kernel after) (alive : ∀ slot, after.Alive slot ↔ kernel.Alive slot) :
      StackStep kernel call after
  | exits (code : Int) (after : Kernel)
      (freed : freePage kernel.pmm (kernel.tasks kernel.current).stackBase = .ok after.pmm)
      (stackKept : SameStacks kernel after)
      (alive : ∀ slot, after.Alive slot ↔ slot ≠ kernel.current ∧ kernel.Alive slot) :
      StackStep kernel (.exit code) after
  | fails (entry : Nat) (after : Kernel)
      (failed : after.pmm = kernel.pmm ∧ allocSlot kernel = none ∨
        allocStack kernel.pmm = .ok (none, after.pmm))
      (stackKept : SameStacks kernel after) (alive : ∀ slot, after.Alive slot ↔ kernel.Alive slot) :
      StackStep kernel (.newKernelTask entry) after
  | creates (entry : Nat) (slot : Slot) (phys0 phys1 : Nat) (after : Kernel)
      (chosen : allocSlot kernel = some slot)
      (allocated : allocStack kernel.pmm = .ok (some (phys0, phys1), after.pmm))
      (base : (after.tasks slot).stackBase = phys0)
      (top : (after.tasks slot).stackTop = stackVirtTop kernel phys1)
      (entered : (after.tasks slot).state ≠ .created)
      (stackKept : ∀ other, other ≠ slot →
        (after.tasks other).stackBase = (kernel.tasks other).stackBase ∧
          (after.tasks other).stackTop = (kernel.tasks other).stackTop)
      (dead : ¬ kernel.Alive slot)
      (alive : ∀ other, after.Alive other ↔ other = slot ∨ kernel.Alive other) :
      StackStep kernel (.newKernelTask entry) after

theorem Change.stack {kernel : Kernel} {call : KernelCall} {slot : Slot} {task : Task}
    (notNew : ∀ entry, call ≠ .newKernelTask entry) (change : Change kernel slot call task) :
    task.stackBase = (kernel.tasks slot).stackBase ∧
      task.stackTop = (kernel.tasks slot).stackTop := by
  cases change with
  | created entry phys0 phys1 _ => exact absurd rfl (notNew entry)
  | _ => exact ⟨rfl, rfl⟩

theorem LifeStep.alive_same {kernel after : Kernel} {call : KernelCall} {returned : Option Int}
    (notExit : ∀ code, call ≠ .exit code) (notNew : ∀ entry, call ≠ .newKernelTask entry)
    (step : LifeStep kernel call returned after) (slot : Slot) :
    after.Alive slot ↔ kernel.Alive slot := by
  unfold Kernel.Alive
  cases step with
  | same _ _ _ _ lives _ => rw [lives]
  | exits code _ _ _ => exact absurd rfl (notExit code)
  | missing pid _ _ lives _ => rw [lives]
  | reaps pid code target _ ended lives _ =>
      rw [lives]
      by_cases removed : slot = target
      · rw [removed, Function.update_self, ended]
        simp
      · rw [Function.update_of_ne removed]
  | blocks pid target _ _ lives _ => rw [lives]
  | creates entry _ _ _ _ _ => exact absurd rfl (notNew entry)

theorem newKernelTask_stacks {kernel after : Kernel} {entry : Nat} {returned : Option Nat}
    (result : newKernelTask kernel entry = .ok (returned, after)) :
    StackStep kernel (.newKernelTask entry) after := by
  rcases newKernelTask_cases result with ⟨full, _, rfl⟩ | ⟨pmm, failed, _, rfl⟩ |
    ⟨chosen, phys0, phys1, pmm, free, allocated, _, rfl⟩
  · exact .fails entry _ (Or.inl ⟨rfl, full⟩) (fun _ => ⟨rfl, rfl⟩) (fun _ => Iff.rfl)
  · exact .fails entry _ (Or.inr failed) (fun _ => ⟨rfl, rfl⟩) (fun _ => Iff.rfl)
  · have absent := Task.life_empty.mpr (allocSlot_empty free)
    have lives := Kernel.lives_setTask kernel chosen (createdTask kernel entry phys0 phys1)
    have born : (createdTask kernel entry phys0 phys1).life = .alive kernel.nextPid := rfl
    refine .creates entry chosen phys0 phys1 _ free allocated ?_ ?_ ?_ ?_ ?_ ?_
    · simp [createdTask]
    · simp [createdTask]
    · simp [createdTask]
    · intro other different
      simp [Function.update_of_ne different]
    · rintro ⟨pid, alive⟩
      rw [Kernel.lives, absent] at alive
      cases alive
    · intro other
      show (∃ pid, (kernel.setTask chosen (createdTask kernel entry phys0 phys1)).lives other =
        .alive pid) ↔ _
      rw [lives]
      by_cases here : other = chosen
      · rw [here, Function.update_self, born]
        simp
      · rw [Function.update_of_ne here]
        simp [here, Kernel.Alive]

theorem prepare_stacks {kernel : Kernel} {call : KernelCall} {prepared : Prepared}
    (running : (kernel.tasks kernel.current).state = .running)
    (result : prepare kernel call = .ok prepared) : StackStep kernel call prepared.kernel := by
  have lives := prepare_lives running result
  have stackKept (notNew : ∀ entry, call ≠ .newKernelTask entry) :
      SameStacks kernel prepared.kernel :=
    fun slot => (prepare_changes running result slot).stack notNew
  have plain (notExit : ∀ code, call ≠ .exit code)
      (notNew : ∀ entry, call ≠ .newKernelTask entry) : StackStep kernel call prepared.kernel :=
    .same call _ notExit notNew ((prepare_frame result).pmm notExit notNew) (stackKept notNew)
      (lives.alive_same notExit notNew)
  cases call with
  | tick _ => exact plain (by simp) (by simp)
  | yieldCpu => exact plain (by simp) (by simp)
  | sleepMs _ => exact plain (by simp) (by simp)
  | waitFor _ => exact plain (by simp) (by simp)
  | exit code =>
      obtain ⟨ended, terminated, rfl⟩ := prepare_exit result
      have exited := exit_lives running terminated
      have kept := stackKept (by simp)
      obtain ⟨pmm, freed, rfl⟩ := terminate_some terminated
      have base : ((wakeWaiters kernel (kernel.tasks kernel.current).pid code).tasks
          kernel.current).stackBase = (kernel.tasks kernel.current).stackBase := by
        unfold wakeWaiters wakeWaiter
        dsimp only
        split <;> rfl
      rw [base] at freed
      refine .exits code _ freed kept ?_
      intro slot
      unfold Kernel.Alive
      rw [exited]
      by_cases caller : slot = kernel.current
      · rw [caller, Function.update_self]
        simp
      · rw [Function.update_of_ne caller]
        simp [caller]
  | newKernelTask entry =>
      obtain ⟨returned, after, created, rfl⟩ := prepare_newKernelTask result
      exact newKernelTask_stacks created

theorem StackStep.transport {kernel after later : Kernel} {call : KernelCall}
    (step : StackStep kernel call after) (carried : Carried after later) :
    StackStep kernel call later := by
  have aliveSame (slot : Slot) : later.Alive slot ↔ after.Alive slot := by
    unfold Kernel.Alive
    rw [carried.lives]
  have kept {slot : Slot} (same : (after.tasks slot).stackBase = (kernel.tasks slot).stackBase ∧
      (after.tasks slot).stackTop = (kernel.tasks slot).stackTop) :
      (later.tasks slot).stackBase = (kernel.tasks slot).stackBase ∧
        (later.tasks slot).stackTop = (kernel.tasks slot).stackTop :=
    ⟨(carried.stackBase slot).trans same.1, (carried.stackTop slot).trans same.2⟩
  cases step with
  | same _ _ notExit notNew pmm stackKept alive =>
      exact .same call later notExit notNew (carried.pmm.trans pmm)
        (fun slot => kept (stackKept slot)) (fun slot => (aliveSame slot).trans (alive slot))
  | exits code _ freed stackKept alive =>
      exact .exits code later (carried.pmm.symm ▸ freed) (fun slot => kept (stackKept slot))
        (fun slot => (aliveSame slot).trans (alive slot))
  | fails entry _ failed stackKept alive =>
      exact .fails entry later (carried.pmm.symm ▸ failed) (fun slot => kept (stackKept slot))
        (fun slot => (aliveSame slot).trans (alive slot))
  | creates entry slot phys0 phys1 _ chosen allocated base top entered stackKept dead alive =>
      exact .creates entry slot phys0 phys1 later chosen (carried.pmm.symm ▸ allocated)
        ((carried.stackBase slot).trans base) ((carried.stackTop slot).trans top)
        (fun state => entered (carried.created slot state))
        (fun other different => kept (stackKept other different)) dead
        (fun other => (aliveSame other).trans (alive other))

theorem perform_stacks {kernel : Kernel} {call : KernelCall} {performed : Performed}
    (running : (kernel.tasks kernel.current).state = .running)
    (result : perform kernel call = .ok performed) :
    StackStep kernel call performed.kernel ∧
      performed.kernel.hhdmOffset = kernel.hhdmOffset ∧
      (performed.kernel.tasks performed.kernel.current).state = .running := by
  obtain ⟨prepared, prepares, carried, _⟩ := perform_prepared running result
  exact ⟨(prepare_stacks running prepares).transport carried,
    carried.hhdmOffset.trans (prepare_frame prepares).hhdmOffset, carried.running⟩

/-! ### Who owns which page -/

/-- The kernel with the two pages given to the task created last in each slot, the pages
taken for tasks and not given back, the pages other clients hold, and the number of
exits of created tasks. -/
structure PageOwners where
  kernel : Kernel
  given : Slot → Option (Nat × Nat)
  taskPages : Finset Nat
  held : Finset Nat
  exits : Nat

inductive OwnerCall where
  | kernel (call : KernelCall)
  | allocPage
  | freePage (phys : Nat)

def nextStack (kernel : Kernel) : Option (Slot × Nat × Nat) :=
  match allocSlot kernel, allocStack kernel.pmm with
  | some slot, .ok (some (phys0, phys1), _) => some (slot, phys0, phys1)
  | _, _ => none

namespace PageOwners

def setPmm (owners : PageOwners) (pmm : Pmm) : PageOwners :=
  { owners with kernel := { owners.kernel with pmm := pmm } }

def record (owners : PageOwners) (after : Kernel) : KernelCall → PageOwners
  | .exit _ =>
      { owners with
        kernel := after
        taskPages := owners.taskPages.erase
          (owners.kernel.tasks owners.kernel.current).stackBase
        exits := owners.exits + 1 }
  | .newKernelTask _ =>
      match nextStack owners.kernel with
      | none => { owners with kernel := after }
      | some (slot, phys0, phys1) =>
          { owners with
            kernel := after
            given := Function.update owners.given slot (some (phys0, phys1))
            taskPages := insert phys0 (insert phys1 owners.taskPages) }
  | _ => { owners with kernel := after }

/-- Clients free only what they hold; a panic ends the run. -/
def step (owners : PageOwners) : OwnerCall → Option PageOwners
  | .kernel call =>
      match perform owners.kernel call with
      | .error _ => none
      | .ok performed => some (owners.record performed.kernel call)
  | .allocPage =>
      match Memory.allocPage owners.kernel.pmm with
      | (none, pmm) => some (owners.setPmm pmm)
      | (some phys, pmm) =>
          some { owners.setPmm pmm with held := insert phys owners.held }
  | .freePage phys =>
      if phys ∈ owners.held then
        match Memory.freePage owners.kernel.pmm phys with
        | .error _ => none
        | .ok pmm => some { owners.setPmm pmm with held := owners.held.erase phys }
      else none

def Pair (totalPages phys0 phys1 : Nat) : Prop :=
  ∃ page0 page1, phys0 = page0 * PAGE_SIZE ∧ phys1 = page1 * PAGE_SIZE ∧ page0 < page1 ∧
    page1 < totalPages

/-- The idle task has no stack of its own: its `stack_base` is 0, a page that is never
free while it lives. -/
structure Invariant (owners : PageOwners) : Prop where
  running : (owners.kernel.tasks owners.kernel.current).state = .running
  pmm : owners.kernel.pmm.Invariant
  stack : ∀ slot phys0 phys1, owners.given slot = some (phys0, phys1) →
    owners.kernel.Alive slot →
    (owners.kernel.tasks slot).stackBase = phys0 ∧
      (owners.kernel.tasks slot).stackTop = stackVirtTop owners.kernel phys1 ∧
      phys0 ∈ owners.taskPages ∧ phys1 ∈ owners.taskPages ∧
      Pair owners.kernel.pmm.totalPages phys0 phys1
  idle : ∀ slot, owners.given slot = none → owners.kernel.Alive slot →
    slot = idleSlot ∧ (owners.kernel.tasks slot).stackBase = 0 ∧ ¬ owners.kernel.pmm.Free 0 ∧
      0 ∉ owners.taskPages ∧ 0 ∉ owners.held
  apart : ∀ left right left0 left1 right0 right1, left ≠ right →
    owners.given left = some (left0, left1) → owners.given right = some (right0, right1) →
    owners.kernel.Alive left → owners.kernel.Alive right →
    left0 ≠ right0 ∧ left0 ≠ right1 ∧ left1 ≠ right0 ∧ left1 ≠ right1
  taken : ∀ phys, phys ∈ owners.taskPages ∨ phys ∈ owners.held → owners.kernel.pmm.Taken phys
  disjoint : Disjoint owners.taskPages owners.held

/-! ### What keeps the invariant -/

variable {owners : PageOwners}

theorem Invariant.same {after : Kernel} (invariant : owners.Invariant)
    (running : (after.tasks after.current).state = .running)
    (hhdmOffset : after.hhdmOffset = owners.kernel.hhdmOffset)
    (pmm : PmmSame owners.kernel.pmm after.pmm) (stackKept : SameStacks owners.kernel after)
    (alive : ∀ slot, after.Alive slot ↔ owners.kernel.Alive slot) :
    Invariant { owners with kernel := after } where
  running := running
  pmm := pmm.invariant
  stack slot phys0 phys1 given lives := by
    obtain ⟨base, top, first, second, pair⟩ :=
      invariant.stack slot phys0 phys1 given ((alive slot).mp lives)
    dsimp only
    rw [(stackKept slot).1, (stackKept slot).2, pmm.totalPages]
    refine ⟨base, ?_, first, second, pair⟩
    rw [top]
    unfold stackVirtTop
    rw [hhdmOffset]
  idle slot given lives := by
    obtain ⟨zero, base, notFree, notTask, notHeld⟩ :=
      invariant.idle slot given ((alive slot).mp lives)
    refine ⟨zero, (stackKept slot).1.trans base, ?_, notTask, notHeld⟩
    rintro ⟨tracked, clear⟩
    dsimp only at tracked clear
    rw [pmm.totalPages] at tracked
    rw [pmm.used] at clear
    exact notFree ⟨tracked, clear⟩
  apart left right left0 left1 right0 right1 different leftGiven rightGiven leftLives rightLives :=
    invariant.apart left right left0 left1 right0 right1 different leftGiven rightGiven
      ((alive left).mp leftLives) ((alive right).mp rightLives)
  taken phys owned := by
    obtain ⟨page, same, tracked, used⟩ := invariant.taken phys owned
    exact ⟨page, same, pmm.totalPages ▸ tracked, (pmm.used page).trans used⟩
  disjoint := invariant.disjoint

theorem Invariant.allocPage {after : Pmm} {page : Nat} (invariant : owners.Invariant)
    (took : owners.kernel.pmm.Took page after) :
    Invariant { owners.setPmm after with held := insert (page * PAGE_SIZE) owners.held } where
  running := invariant.running
  pmm := took.invariant
  stack slot phys0 phys1 given lives := by
    obtain ⟨base, top, first, second, pair⟩ := invariant.stack slot phys0 phys1 given lives
    exact ⟨base, top, first, second, took.totalPages.symm ▸ pair⟩
  idle slot given lives := by
    obtain ⟨zero, base, notFree, notTask, notHeld⟩ := invariant.idle slot given lives
    refine ⟨zero, base, fun free => notFree (took.free_before free).1, notTask, ?_⟩
    intro member
    rcases Finset.mem_insert.mp member with new | old
    · have first : page = 0 := page_eq_of_address (new.symm.trans (Nat.zero_mul _).symm)
      exact notFree (first ▸ took.free)
    · exact notHeld old
  apart := invariant.apart
  taken phys owned := by
    rcases owned with task | held
    · exact took.keeps (invariant.taken phys (Or.inl task))
    · rcases Finset.mem_insert.mp held with new | old
      · exact new ▸ took.taken
      · exact took.keeps (invariant.taken phys (Or.inr old))
  disjoint := by
    rw [Finset.disjoint_insert_right]
    exact ⟨fun task => took.not_taken (invariant.taken _ (Or.inl task)), invariant.disjoint⟩

theorem Invariant.freePage {after : Pmm} {page : Nat} (invariant : owners.Invariant)
    (holds : page * PAGE_SIZE ∈ owners.held) (gave : owners.kernel.pmm.Gave page after) :
    Invariant { owners.setPmm after with held := owners.held.erase (page * PAGE_SIZE) } where
  running := invariant.running
  pmm := gave.invariant
  stack slot phys0 phys1 given lives := by
    obtain ⟨base, top, first, second, pair⟩ := invariant.stack slot phys0 phys1 given lives
    exact ⟨base, top, first, second, gave.totalPages.symm ▸ pair⟩
  idle slot given lives := by
    obtain ⟨zero, base, notFree, notTask, notHeld⟩ := invariant.idle slot given lives
    refine ⟨zero, base, ?_, notTask, fun member => notHeld (Finset.mem_of_mem_erase member)⟩
    have other : page ≠ 0 := by
      rintro rfl
      rw [Nat.zero_mul] at holds
      exact notHeld holds
    exact fun free => notFree (gave.free_before free (Ne.symm other))
  apart := invariant.apart
  taken phys owned := by
    have different : phys ≠ page * PAGE_SIZE := by
      rintro rfl
      rcases owned with task | held
      · exact Finset.disjoint_left.mp invariant.disjoint task holds
      · exact absurd rfl (Finset.ne_of_mem_erase held)
    apply gave.keeps (invariant.taken phys ?_) different
    exact owned.imp_right Finset.mem_of_mem_erase
  disjoint := Finset.disjoint_of_subset_right (Finset.erase_subset _ _) invariant.disjoint

theorem Invariant.alive_current (invariant : owners.Invariant) :
    owners.kernel.Alive owners.kernel.current :=
  ⟨_, Task.life_alive.mpr ⟨by simp [invariant.running], by simp [invariant.running], rfl⟩⟩

/-- The page that `exit` gives back belongs to nobody else. -/
theorem Invariant.stackBase_own (invariant : owners.Invariant) :
    (owners.kernel.tasks owners.kernel.current).stackBase ∉ owners.held ∧
    (∀ slot phys0 phys1, slot ≠ owners.kernel.current → owners.kernel.Alive slot →
      owners.given slot = some (phys0, phys1) →
      phys0 ≠ (owners.kernel.tasks owners.kernel.current).stackBase ∧
        phys1 ≠ (owners.kernel.tasks owners.kernel.current).stackBase) ∧
    ∀ slot, slot ≠ owners.kernel.current → owners.kernel.Alive slot → owners.given slot = none →
      (owners.kernel.tasks owners.kernel.current).stackBase ≠ 0 := by
  have lives := invariant.alive_current
  cases own : owners.given owners.kernel.current with
  | none =>
      obtain ⟨zero, base, _, notTask, notHeld⟩ := invariant.idle _ own lives
      rw [base]
      refine ⟨notHeld, ?_, ?_⟩
      · intro slot phys0 phys1 _ slotLives given
        obtain ⟨_, _, first, second, _⟩ := invariant.stack slot phys0 phys1 given slotLives
        constructor
        · rintro rfl
          exact notTask first
        · rintro rfl
          exact notTask second
      · intro slot other slotLives given
        exact absurd ((invariant.idle slot given slotLives).1.trans zero.symm) other
  | some pair =>
      obtain ⟨own0, own1⟩ := pair
      obtain ⟨base, _, first, _, _⟩ := invariant.stack _ own0 own1 own lives
      rw [base]
      refine ⟨Finset.disjoint_left.mp invariant.disjoint first, ?_, ?_⟩
      · intro slot phys0 phys1 other slotLives given
        have different :=
          invariant.apart slot _ phys0 phys1 own0 own1 other given own slotLives lives
        exact ⟨different.1, different.2.2.1⟩
      · rintro slot other slotLives given rfl
        exact (invariant.idle slot given slotLives).2.2.2.1 first

theorem Invariant.exits {after : Kernel} {page : Nat} (invariant : owners.Invariant)
    (running : (after.tasks after.current).state = .running)
    (hhdmOffset : after.hhdmOffset = owners.kernel.hhdmOffset)
    (base : (owners.kernel.tasks owners.kernel.current).stackBase = page * PAGE_SIZE)
    (gave : owners.kernel.pmm.Gave page after.pmm) (stackKept : SameStacks owners.kernel after)
    (alive : ∀ slot, after.Alive slot ↔
      slot ≠ owners.kernel.current ∧ owners.kernel.Alive slot) :
    Invariant
      { owners with
        kernel := after
        taskPages := owners.taskPages.erase
          (owners.kernel.tasks owners.kernel.current).stackBase
        exits := owners.exits + 1 } := by
  obtain ⟨notHeld, others, idleBase⟩ := invariant.stackBase_own
  constructor
  case running => exact running
  case pmm => exact gave.invariant
  case stack =>
    intro slot phys0 phys1 given lives
    obtain ⟨other, before⟩ := (alive slot).mp lives
    obtain ⟨slotBase, top, first, second, pair⟩ := invariant.stack slot phys0 phys1 given before
    obtain ⟨different0, different1⟩ := others slot phys0 phys1 other before given
    refine ⟨(stackKept slot).1.trans slotBase, ?_, Finset.mem_erase.mpr ⟨different0, first⟩,
      Finset.mem_erase.mpr ⟨different1, second⟩, gave.totalPages.symm ▸ pair⟩
    rw [(stackKept slot).2, top]
    unfold stackVirtTop
    dsimp only
    rw [hhdmOffset]
  case idle =>
    intro slot given lives
    obtain ⟨other, before⟩ := (alive slot).mp lives
    obtain ⟨zero, slotBase, notFree, notTask, slotHeld⟩ := invariant.idle slot given before
    have different : 0 ≠ page := by
      rintro rfl
      rw [Nat.zero_mul] at base
      exact idleBase slot other before given base
    exact ⟨zero, (stackKept slot).1.trans slotBase,
      fun free => notFree (gave.free_before free different),
      fun member => notTask (Finset.mem_of_mem_erase member), slotHeld⟩
  case apart =>
    intro left right left0 left1 right0 right1 different leftGiven rightGiven leftLives rightLives
    exact invariant.apart left right left0 left1 right0 right1 different leftGiven rightGiven
      ((alive left).mp leftLives).2 ((alive right).mp rightLives).2
  case taken =>
    intro phys owned
    have different : phys ≠ page * PAGE_SIZE := by
      rw [← base]
      rintro rfl
      rcases owned with task | held
      · exact absurd rfl (Finset.ne_of_mem_erase task)
      · exact notHeld held
    apply gave.keeps (invariant.taken phys ?_) different
    exact owned.imp_left Finset.mem_of_mem_erase
  case disjoint =>
    exact Finset.disjoint_of_subset_left (Finset.erase_subset _ _) invariant.disjoint

section Creates

variable {after : Kernel} {slot : Slot} {page0 page1 : Nat} {middle : Pmm}

theorem Invariant.not_new (invariant : owners.Invariant)
    (took0 : owners.kernel.pmm.Took page0 middle) (took1 : middle.Took page1 after.pmm) {phys : Nat}
    (owned : phys ∈ owners.taskPages ∨ phys ∈ owners.held) :
    phys ≠ page0 * PAGE_SIZE ∧ phys ≠ page1 * PAGE_SIZE := by
  have taken := invariant.taken phys owned
  constructor
  · rintro rfl
    exact took0.not_taken taken
  · rintro rfl
    exact took1.not_taken (took0.keeps taken)

theorem Invariant.new_apart (invariant : owners.Invariant)
    (took0 : owners.kernel.pmm.Took page0 middle) (took1 : middle.Took page1 after.pmm)
    {other : Slot} {phys0 phys1 : Nat} (given : owners.given other = some (phys0, phys1))
    (lives : owners.kernel.Alive other) :
    phys0 ≠ page0 * PAGE_SIZE ∧ phys0 ≠ page1 * PAGE_SIZE ∧ phys1 ≠ page0 * PAGE_SIZE ∧
      phys1 ≠ page1 * PAGE_SIZE := by
  obtain ⟨_, _, first, second, _⟩ := invariant.stack other phys0 phys1 given lives
  have lower := invariant.not_new took0 took1 (Or.inl first)
  have upper := invariant.not_new took0 took1 (Or.inl second)
  exact ⟨lower.1, lower.2, upper.1, upper.2⟩

theorem Invariant.creates_stack (invariant : owners.Invariant)
    (hhdmOffset : after.hhdmOffset = owners.kernel.hhdmOffset)
    (took0 : owners.kernel.pmm.Took page0 middle) (took1 : middle.Took page1 after.pmm)
    (base : (after.tasks slot).stackBase = page0 * PAGE_SIZE)
    (top : (after.tasks slot).stackTop = stackVirtTop owners.kernel (page1 * PAGE_SIZE))
    (stackKept : ∀ other, other ≠ slot →
      (after.tasks other).stackBase = (owners.kernel.tasks other).stackBase ∧
        (after.tasks other).stackTop = (owners.kernel.tasks other).stackTop)
    (before : ∀ other, other ≠ slot → after.Alive other → owners.kernel.Alive other)
    {other : Slot} {phys0 phys1 : Nat} (lives : after.Alive other)
    (given : Function.update owners.given slot (some (page0 * PAGE_SIZE, page1 * PAGE_SIZE)) other =
      some (phys0, phys1)) :
    (after.tasks other).stackBase = phys0 ∧
      (after.tasks other).stackTop = stackVirtTop after phys1 ∧
      phys0 ∈ insert (page0 * PAGE_SIZE) (insert (page1 * PAGE_SIZE) owners.taskPages) ∧
      phys1 ∈ insert (page0 * PAGE_SIZE) (insert (page1 * PAGE_SIZE) owners.taskPages) ∧
      Pair after.pmm.totalPages phys0 phys1 := by
  have totalPages : after.pmm.totalPages = owners.kernel.pmm.totalPages :=
    took1.totalPages.trans took0.totalPages
  have same : stackVirtTop after phys1 = stackVirtTop owners.kernel phys1 := by
    unfold stackVirtTop
    rw [hhdmOffset]
  rw [same, totalPages]
  by_cases here : other = slot
  · rw [here, Function.update_self] at given
    cases given
    rw [here]
    refine ⟨base, top, Finset.mem_insert_self .., ?_, page0, page1, rfl, rfl,
      took0.below took1, took0.totalPages ▸ took1.free.1⟩
    exact Finset.mem_insert_of_mem (Finset.mem_insert_self ..)
  · rw [Function.update_of_ne here] at given
    obtain ⟨otherBase, otherTop, first, second, pair⟩ :=
      invariant.stack other phys0 phys1 given (before other here lives)
    exact ⟨(stackKept other here).1.trans otherBase, (stackKept other here).2.trans otherTop,
      Finset.mem_insert_of_mem (Finset.mem_insert_of_mem first),
      Finset.mem_insert_of_mem (Finset.mem_insert_of_mem second), pair⟩

theorem Invariant.creates_idle (invariant : owners.Invariant)
    (took0 : owners.kernel.pmm.Took page0 middle) (took1 : middle.Took page1 after.pmm)
    {other : Slot} (given : owners.given other = none) (lives : owners.kernel.Alive other) :
    ¬ after.pmm.Free 0 ∧
      0 ∉ insert (page0 * PAGE_SIZE) (insert (page1 * PAGE_SIZE) owners.taskPages) := by
  obtain ⟨_, _, notFree, notTask, _⟩ := invariant.idle other given lives
  have notPage {page : Nat} (free : owners.kernel.pmm.Free page) : 0 ≠ page * PAGE_SIZE := by
    intro zeroPage
    have first : page = 0 := page_eq_of_address (zeroPage.symm.trans (Nat.zero_mul _).symm)
    exact notFree (first ▸ free)
  constructor
  · intro free
    exact notFree (took0.free_before (took1.free_before free).1).1
  · rw [Finset.mem_insert, Finset.mem_insert]
    rintro (first | second | old)
    · exact notPage took0.free first
    · exact notPage (took0.free_before took1.free).1 second
    · exact notTask old

theorem Invariant.creates_apart (invariant : owners.Invariant)
    (took0 : owners.kernel.pmm.Took page0 middle) (took1 : middle.Took page1 after.pmm)
    (before : ∀ other, other ≠ slot → after.Alive other → owners.kernel.Alive other)
    {left right : Slot} {left0 left1 right0 right1 : Nat} (different : left ≠ right)
    (leftGiven : Function.update owners.given slot
      (some (page0 * PAGE_SIZE, page1 * PAGE_SIZE)) left = some (left0, left1))
    (rightGiven : Function.update owners.given slot
      (some (page0 * PAGE_SIZE, page1 * PAGE_SIZE)) right = some (right0, right1))
    (leftLives : after.Alive left) (rightLives : after.Alive right) :
    left0 ≠ right0 ∧ left0 ≠ right1 ∧ left1 ≠ right0 ∧ left1 ≠ right1 := by
  by_cases leftNew : left = slot
  · have rightOld : right ≠ slot := fun new => different (leftNew.trans new.symm)
    rw [leftNew, Function.update_self] at leftGiven
    cases leftGiven
    rw [Function.update_of_ne rightOld] at rightGiven
    obtain ⟨lower0, lower1, upper0, upper1⟩ :=
      invariant.new_apart took0 took1 rightGiven (before right rightOld rightLives)
    exact ⟨lower0.symm, upper0.symm, lower1.symm, upper1.symm⟩
  · rw [Function.update_of_ne leftNew] at leftGiven
    by_cases rightNew : right = slot
    · rw [rightNew, Function.update_self] at rightGiven
      cases rightGiven
      exact invariant.new_apart took0 took1 leftGiven (before left leftNew leftLives)
    · rw [Function.update_of_ne rightNew] at rightGiven
      exact invariant.apart left right left0 left1 right0 right1 different leftGiven rightGiven
        (before left leftNew leftLives) (before right rightNew rightLives)

theorem Invariant.creates (invariant : owners.Invariant)
    (running : (after.tasks after.current).state = .running)
    (hhdmOffset : after.hhdmOffset = owners.kernel.hhdmOffset)
    (took0 : owners.kernel.pmm.Took page0 middle) (took1 : middle.Took page1 after.pmm)
    (base : (after.tasks slot).stackBase = page0 * PAGE_SIZE)
    (top : (after.tasks slot).stackTop = stackVirtTop owners.kernel (page1 * PAGE_SIZE))
    (stackKept : ∀ other, other ≠ slot →
      (after.tasks other).stackBase = (owners.kernel.tasks other).stackBase ∧
        (after.tasks other).stackTop = (owners.kernel.tasks other).stackTop)
    (alive : ∀ other, after.Alive other ↔ other = slot ∨ owners.kernel.Alive other) :
    Invariant
      { owners with
        kernel := after
        given := Function.update owners.given slot (some (page0 * PAGE_SIZE, page1 * PAGE_SIZE))
        taskPages := insert (page0 * PAGE_SIZE)
          (insert (page1 * PAGE_SIZE) owners.taskPages) } := by
  have before (other : Slot) (different : other ≠ slot) (lives : after.Alive other) :
      owners.kernel.Alive other := ((alive other).mp lives).resolve_left different
  constructor
  case running => exact running
  case pmm => exact took1.invariant
  case stack =>
    intro other phys0 phys1 given lives
    exact invariant.creates_stack hhdmOffset took0 took1 base top stackKept before lives given
  case idle =>
    intro other given lives
    dsimp only at given ⊢
    have here : other ≠ slot := by
      rintro rfl
      rw [Function.update_self] at given
      cases given
    rw [Function.update_of_ne here] at given
    have was := before other here lives
    obtain ⟨zero, otherBase, _, _, notHeld⟩ := invariant.idle other given was
    obtain ⟨notFree, notTask⟩ := invariant.creates_idle took0 took1 given was
    exact ⟨zero, (stackKept other here).1.trans otherBase, notFree, notTask, notHeld⟩
  case apart =>
    intro left right left0 left1 right0 right1 different leftGiven rightGiven leftLives rightLives
    exact invariant.creates_apart took0 took1 before different leftGiven rightGiven leftLives
      rightLives
  case taken =>
    intro phys owned
    dsimp only at owned ⊢
    rcases owned with task | held
    · rw [Finset.mem_insert, Finset.mem_insert] at task
      rcases task with rfl | rfl | old
      · exact took1.keeps took0.taken
      · exact took1.taken
      · exact took1.keeps (took0.keeps (invariant.taken phys (Or.inl old)))
    · exact took1.keeps (took0.keeps (invariant.taken phys (Or.inr held)))
  case disjoint =>
    dsimp only
    rw [Finset.disjoint_insert_left, Finset.disjoint_insert_left]
    exact ⟨fun held => (invariant.not_new took0 took1 (Or.inr held)).1 rfl,
      fun held => (invariant.not_new took0 took1 (Or.inr held)).2 rfl, invariant.disjoint⟩

end Creates

theorem nextStack_some {kernel : Kernel} {slot : Slot} {phys0 phys1 : Nat} {pmm : Pmm}
    (chosen : allocSlot kernel = some slot)
    (allocated : allocStack kernel.pmm = .ok (some (phys0, phys1), pmm)) :
    nextStack kernel = some (slot, phys0, phys1) := by
  unfold nextStack
  rw [chosen, allocated]

theorem nextStack_none {kernel : Kernel} {pmm : Pmm}
    (failed : pmm = kernel.pmm ∧ allocSlot kernel = none ∨
      allocStack kernel.pmm = .ok (none, pmm)) : nextStack kernel = none := by
  unfold nextStack
  rcases failed with ⟨_, full⟩ | failed
  · rw [full]
  · rw [failed]
    cases allocSlot kernel <;> rfl

theorem pmmSame_of_failed {kernel : Kernel} {pmm : Pmm} (invariant : kernel.pmm.Invariant)
    (failed : pmm = kernel.pmm ∧ allocSlot kernel = none ∨
      allocStack kernel.pmm = .ok (none, pmm)) : PmmSame kernel.pmm pmm := by
  rcases failed with ⟨rfl, _⟩ | failed
  · exact .refl invariant
  · exact allocStack_none invariant failed

theorem record_plain {after : Kernel} {call : KernelCall} (notExit : ∀ code, call ≠ .exit code)
    (notNew : ∀ entry, call ≠ .newKernelTask entry) :
    owners.record after call = { owners with kernel := after } := by
  cases call with
  | exit code => exact absurd rfl (notExit code)
  | newKernelTask entry => exact absurd rfl (notNew entry)
  | _ => rfl

theorem step_allocPage {next : PageOwners} (invariant : owners.Invariant)
    (stepped : owners.step .allocPage = some next) :
    next = owners ∨ ∃ page after, owners.kernel.pmm.Took page after ∧
      next = { owners.setPmm after with held := insert (page * PAGE_SIZE) owners.held } := by
  unfold step at stepped
  cases result : Memory.allocPage owners.kernel.pmm with
  | mk taken after =>
      rw [result] at stepped
      cases taken with
      | none =>
          obtain ⟨rfl, _⟩ := allocPage_full invariant.pmm result
          cases stepped
          exact Or.inl rfl
      | some phys =>
          obtain ⟨page, rfl, took⟩ := allocPage_took invariant.pmm result
          cases stepped
          exact Or.inr ⟨page, after, took, rfl⟩

theorem step_freePage {next : PageOwners} {phys : Nat} (invariant : owners.Invariant)
    (stepped : owners.step (.freePage phys) = some next) :
    ∃ page after, phys = page * PAGE_SIZE ∧ phys ∈ owners.held ∧
      owners.kernel.pmm.Gave page after ∧
      next = { owners.setPmm after with held := owners.held.erase phys } := by
  unfold step at stepped
  dsimp only at stepped
  by_cases holds : phys ∈ owners.held
  · rw [if_pos holds] at stepped
    cases result : Memory.freePage owners.kernel.pmm phys with
    | error panic =>
        rw [result] at stepped
        cases stepped
    | ok after =>
        rw [result] at stepped
        cases stepped
        obtain ⟨page, same, gave⟩ := freePage_gave invariant.pmm result
        exact ⟨page, after, same, holds, gave, rfl⟩
  · rw [if_neg holds] at stepped
    cases stepped

/-- A step, inverted once for everything that is proved about runs. -/
inductive Turn (owners : PageOwners) : OwnerCall → PageOwners → Prop
  | noPage : Turn owners .allocPage owners
  | takes (page : Nat) (after : Pmm) (took : owners.kernel.pmm.Took page after) :
      Turn owners .allocPage
        { owners.setPmm after with held := insert (page * PAGE_SIZE) owners.held }
  | gives (page : Nat) (after : Pmm) (holds : page * PAGE_SIZE ∈ owners.held)
      (gave : owners.kernel.pmm.Gave page after) :
      Turn owners (.freePage (page * PAGE_SIZE))
        { owners.setPmm after with held := owners.held.erase (page * PAGE_SIZE) }
  | same (call : KernelCall) (after : Kernel) (notExit : ∀ code, call ≠ .exit code)
      (noStack : ∀ entry, call = .newKernelTask entry →
        after.pmm = owners.kernel.pmm ∧ allocSlot owners.kernel = none ∨
          allocStack owners.kernel.pmm = .ok (none, after.pmm))
      (running : (after.tasks after.current).state = .running)
      (hhdmOffset : after.hhdmOffset = owners.kernel.hhdmOffset)
      (pmm : PmmSame owners.kernel.pmm after.pmm) (stackKept : SameStacks owners.kernel after)
      (alive : ∀ slot, after.Alive slot ↔ owners.kernel.Alive slot) :
      Turn owners (.kernel call) { owners with kernel := after }
  | exits (code : Int) (after : Kernel) (page : Nat)
      (running : (after.tasks after.current).state = .running)
      (hhdmOffset : after.hhdmOffset = owners.kernel.hhdmOffset)
      (base : (owners.kernel.tasks owners.kernel.current).stackBase = page * PAGE_SIZE)
      (gave : owners.kernel.pmm.Gave page after.pmm) (stackKept : SameStacks owners.kernel after)
      (alive : ∀ slot, after.Alive slot ↔
        slot ≠ owners.kernel.current ∧ owners.kernel.Alive slot) :
      Turn owners (.kernel (.exit code))
        { owners with
          kernel := after
          taskPages := owners.taskPages.erase
            (owners.kernel.tasks owners.kernel.current).stackBase
          exits := owners.exits + 1 }
  | creates (entry : Nat) (slot : Slot) (page0 page1 : Nat) (middle : Pmm) (after : Kernel)
      (chosen : allocSlot owners.kernel = some slot)
      (running : (after.tasks after.current).state = .running)
      (hhdmOffset : after.hhdmOffset = owners.kernel.hhdmOffset)
      (took0 : owners.kernel.pmm.Took page0 middle) (took1 : middle.Took page1 after.pmm)
      (base : (after.tasks slot).stackBase = page0 * PAGE_SIZE)
      (top : (after.tasks slot).stackTop = stackVirtTop owners.kernel (page1 * PAGE_SIZE))
      (entered : (after.tasks slot).state ≠ .created)
      (stackKept : ∀ other, other ≠ slot →
        (after.tasks other).stackBase = (owners.kernel.tasks other).stackBase ∧
          (after.tasks other).stackTop = (owners.kernel.tasks other).stackTop)
      (dead : ¬ owners.kernel.Alive slot)
      (alive : ∀ other, after.Alive other ↔ other = slot ∨ owners.kernel.Alive other) :
      Turn owners (.kernel (.newKernelTask entry))
        { owners with
          kernel := after
          given := Function.update owners.given slot
            (some (page0 * PAGE_SIZE, page1 * PAGE_SIZE))
          taskPages := insert (page0 * PAGE_SIZE)
            (insert (page1 * PAGE_SIZE) owners.taskPages) }

theorem turn_of_kernel {call : KernelCall} {next : PageOwners} (invariant : owners.Invariant)
    (stepped : owners.step (.kernel call) = some next) : owners.Turn (.kernel call) next := by
  unfold PageOwners.step at stepped
  dsimp only at stepped
  cases result : perform owners.kernel call with
  | error panic =>
      rw [result] at stepped
      cases stepped
  | ok performed =>
      rw [result] at stepped
      cases stepped
      obtain ⟨stacked, hhdmOffset, running⟩ := perform_stacks invariant.running result
      generalize performed.kernel = after at stacked hhdmOffset running ⊢
      cases stacked with
      | same _ _ notExit notNew pmm stackKept alive =>
          rw [record_plain notExit notNew]
          exact .same call after notExit (fun entry isNew => absurd isNew (notNew entry)) running
            hhdmOffset (pmm.symm ▸ PmmSame.refl invariant.pmm) stackKept alive
      | exits code _ freed stackKept alive =>
          obtain ⟨page, base, gave⟩ := freePage_gave invariant.pmm freed
          exact .exits code after page running hhdmOffset base gave stackKept alive
      | fails entry _ failed stackKept alive =>
          unfold record
          dsimp only
          rw [nextStack_none failed]
          exact .same _ after (by simp) (fun _ _ => failed) running hhdmOffset
            (pmmSame_of_failed invariant.pmm failed) stackKept alive
      | creates entry slot phys0 phys1 _ chosen allocated base top entered stackKept dead alive =>
          unfold record
          dsimp only
          rw [nextStack_some chosen allocated]
          obtain ⟨page0, page1, middle, rfl, rfl, took0, took1⟩ :=
            allocStack_pair invariant.pmm allocated
          exact .creates entry slot page0 page1 middle after chosen running hhdmOffset took0
            took1 base top entered stackKept dead alive

theorem turn_of_step {call : OwnerCall} {next : PageOwners} (invariant : owners.Invariant)
    (stepped : owners.step call = some next) : owners.Turn call next := by
  cases call with
  | kernel call => exact turn_of_kernel invariant stepped
  | allocPage =>
      rcases step_allocPage invariant stepped with rfl | ⟨page, after, took, rfl⟩
      · exact .noPage
      · exact .takes page after took
  | freePage phys =>
      obtain ⟨page, after, rfl, holds, gave, rfl⟩ := step_freePage invariant stepped
      exact .gives page after holds gave

theorem Turn.invariant {call : OwnerCall} {next : PageOwners} (invariant : owners.Invariant)
    (turn : owners.Turn call next) : next.Invariant := by
  cases turn with
  | noPage => exact invariant
  | takes page after took => exact invariant.allocPage took
  | gives page after holds gave => exact invariant.freePage holds gave
  | same call after _ _ running hhdmOffset pmm stackKept alive =>
      exact invariant.same running hhdmOffset pmm stackKept alive
  | exits code after page running hhdmOffset base gave stackKept alive =>
      exact invariant.exits running hhdmOffset base gave stackKept alive
  | creates entry slot page0 page1 middle after _ running hhdmOffset took0 took1 base top _
      stackKept _ alive =>
      exact invariant.creates running hhdmOffset took0 took1 base top stackKept alive

/-! ### From boot -/

def start (pmm : Pmm) (hhdmOffset : Nat) : PageOwners :=
  { kernel := booted pmm hhdmOffset
    given := fun _ => none
    taskPages := ∅
    held := ∅
    exits := 0 }

theorem booted_alive {pmm : Pmm} {hhdmOffset : Nat} {slot : Slot}
    (lives : (booted pmm hhdmOffset).Alive slot) : slot = idleSlot := by
  obtain ⟨pid, alive⟩ := lives
  exact booted_used (Task.life_alive.mp alive).1

theorem start_owned {pmm : Pmm} (hhdm : Nat) (invariant : pmm.Invariant)
    (lowUsed : ¬ pmm.Free 0) : (start pmm hhdm).Invariant := by
  constructor
  case running => exact (booted_safe pmm hhdm).current_running
  case pmm => exact invariant
  case stack =>
    intro slot phys0 phys1 given
    cases given
  case idle =>
    intro slot _ lives
    have zero := booted_alive lives
    refine ⟨zero, ?_, lowUsed, Finset.notMem_empty _, Finset.notMem_empty _⟩
    rw [zero]
    exact congrArg Task.stackBase (booted_idle pmm hhdm)
  case apart =>
    intro left right left0 left1 right0 right1 _ given
    cases given
  case taken =>
    intro phys owned
    rcases owned with task | held
    · cases task
    · cases held
  case disjoint => exact Finset.disjoint_empty_left _

theorem start_invariant {entries : List MemmapEntry} {hhdm : Nat} {memory : Bitmap.Bytes}
    {pmm : Pmm} (noOverflow : NoOverflow entries) (aligned : UsableAligned entries)
    (disjoint : UsableDisjoint entries)
    (boot : initPmm (some entries) hhdm memory = .ok pmm) : (start pmm hhdm).Invariant := by
  apply start_owned hhdm (initPmm_invariant noOverflow aligned disjoint boot)
  intro free
  have released := ((initPmm_free_iff boot 0).mp free).2.1
  unfold PAGE_SIZE at released
  omega

theorem exec_owners {final : PageOwners} {calls : List OwnerCall} (invariant : owners.Invariant)
    (run : LabelledRun.exec step owners calls = some final) : final.Invariant :=
  LabelledRun.exec_invariant
    (fun _ _ _ invariant stepped => (turn_of_step invariant stepped).invariant invariant)
    invariant run

end PageOwners

end CustomKernel.Multitask
