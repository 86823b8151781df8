/-
Task creation under preemption.

`new_kernel_task` runs with interrupts on, so between any two of its steps a tick may
switch away, and other tasks run before the creator goes on.  The slot that the creation
has chosen is marked only by the store of the state, and the fields that tell why a task
is blocked are reset only after it.
-/

import CustomKernel.Multitask.Preemption
import CustomKernel.Multitask.WakeUps

set_option autoImplicit false

namespace CustomKernel.Multitask

open Memory

/-! ### Complete operations -/

theorem alive_iff_life {task : Task} : Alive task ↔ ∃ pid, task.life = .alive pid := by
  constructor
  · intro alive
    exact ⟨task.pid, Task.life_alive.mpr ⟨alive.1, alive.2, rfl⟩⟩
  · rintro ⟨pid, life⟩
    obtain ⟨used, lives, _⟩ := Task.life_alive.mp life
    exact ⟨used, lives⟩

theorem LifeStep.alive_iff {kernel after : Kernel} {call : KernelCall} {returned : Option Int}
    (lives : LifeStep kernel call returned after) (notNew : ∀ entry, call ≠ .newKernelTask entry)
    (slot : Slot) :
    Alive (after.tasks slot) ↔
      Alive (kernel.tasks slot) ∧ ¬ ((∃ code, call = .exit code) ∧ slot = kernel.current) := by
  have unchanged (same : after.lives = kernel.lives) (notExit : ∀ code, call ≠ .exit code) :
      (∃ pid, after.lives slot = .alive pid) ↔
        (∃ pid, kernel.lives slot = .alive pid) ∧
          ¬ ((∃ code, call = .exit code) ∧ slot = kernel.current) := by
    rw [same]
    constructor
    · intro alive
      exact ⟨alive, fun exits => exits.1.elim notExit⟩
    · intro both
      exact both.1
  rw [alive_iff_life, alive_iff_life]
  change (∃ pid, after.lives slot = .alive pid) ↔ (∃ pid, kernel.lives slot = .alive pid) ∧ _
  cases lives with
  | same _ _ notExit _ same _ => exact unchanged same notExit
  | exits code _ same _ =>
      rw [same]
      by_cases caller : slot = kernel.current
      · rw [caller, Function.update_self]
        simp
      · rw [Function.update_of_ne caller]
        simp [caller]
  | missing pid _ _ same _ => exact unchanged same (by simp)
  | reaps pid code target _ ended same _ =>
      rw [same]
      by_cases here : slot = target
      · rw [here, Function.update_self, ended]
        simp
      · rw [Function.update_of_ne here]
        simp
  | blocks pid target _ _ same _ => exact unchanged same (by simp)
  | creates entry _ _ _ _ _ => exact absurd rfl (notNew entry)

section perform

variable {kernel : Kernel} {call : KernelCall} {performed : Performed}

theorem Wakeable.changed {slot : Slot} {task : Task} (wakeable : Wakeable (kernel.tasks slot))
    (awake : ∀ ms, call = .sleepMs ms → slot = kernel.current →
      wakeAt kernel ms ≠ 0 ∨ (kernel.tasks slot).waitForPid ≠ none)
    (change : Change kernel slot call task) : Wakeable task := by
  intro blocked
  cases change with
  | kept _ ticksRun => exact wakeable blocked
  | sleeps ms caller => exact awake ms rfl caller
  | waits pid target _ _ _ _ => exact Or.inr (by simp)
  | _ => cases blocked

theorem perform_wakeable (running : (kernel.tasks kernel.current).state = .running)
    (result : perform kernel call = .ok performed)
    (wakeable : ∀ slot, Wakeable (kernel.tasks slot))
    (awake : ∀ ms, call = .sleepMs ms → Leaves kernel (.sleepMs ms) → wakeAt kernel ms ≠ 0 ∨
      (kernel.tasks kernel.current).waitForPid ≠ none) (slot : Slot) :
    Wakeable (performed.kernel.tasks slot) := by
  rcases perform_halves result with ⟨prepared, prepares, finished⟩
  have current := (prepare_frame prepares).current
  have change := prepare_changes running prepares slot
  rcases finish_cases (prepare_returns running prepares) finished with outcome |
    ⟨context, calls, _, nobody, rfl⟩
  · have same := outcome.rescheduled
    unfold Wakeable
    rw [same.stopped_iff (by simp), same.sleepUntil, same.waitForPid]
    refine (wakeable slot).changed ?_ change
    rintro ms rfl caller
    have blocked := (prepare_leaves running prepares (by cases prepares; rfl)).2
    obtain ⟨next, switched⟩ := outcome.leaves (Or.inl blocked)
    rw [caller]
    exact awake ms rfl ((perform_switched_iff running result).mp ⟨next, switched⟩)
  · by_cases caller : slot = prepared.kernel.current
    · intro blocked
      rw [caller] at blocked
      simp [Kernel.setState, Kernel.setTask] at blocked
    · rw [show (prepared.kernel.setState prepared.kernel.current .running).tasks slot =
        prepared.kernel.tasks slot from Function.update_of_ne caller ..]
      rw [current] at caller
      exact (wakeable slot).changed (fun _ _ same => absurd same caller) change

theorem perform_sleepMs_task {ms : Nat} (running : (kernel.tasks kernel.current).state = .running)
    (result : perform kernel (.sleepMs ms) = .ok performed)
    (leaves : Leaves kernel (.sleepMs ms)) :
    (performed.kernel.tasks kernel.current).state = .blocked ∧
      (performed.kernel.tasks kernel.current).sleepUntil = wakeAt kernel ms ∧
      (performed.kernel.tasks kernel.current).waitForPid =
        (kernel.tasks kernel.current).waitForPid := by
  rcases perform_halves result with ⟨prepared, prepares, finished⟩
  obtain ⟨next, switched⟩ := (perform_switched_iff running result).mpr leaves
  have slept : prepared.kernel.tasks kernel.current =
      { kernel.tasks kernel.current with
        state := .blocked, sleepUntil := wakeAt kernel ms } := by
    cases prepares
    exact Function.update_self ..
  rcases finish_cases (prepare_returns running prepares) finished with outcome |
    ⟨context, calls, _, nobody, rfl⟩
  · have same := outcome.rescheduled
    rw [same.stopped_iff (by simp), same.sleepUntil, same.waitForPid, slept]
    exact ⟨rfl, rfl, rfl⟩
  · cases switched

end perform

/-! ### The steps of a creation -/

/-- What a creation stores in its slot. -/
structure Creation where
  slot : Slot
  entry : Nat
  phys0 : Nat
  phys1 : Nat
  pid : Nat
  deriving DecidableEq

inductive TaskField where
  | rsp
  | pid
  | state
  | stackBase
  | stackTop
  | ticksRun
  | sleepUntil
  | waitForPid
  | exitCode
  deriving DecidableEq

/-- The stores of `new_kernel_task`, in the order of the source -/
def stores : List TaskField :=
  [.rsp, .pid, .state, .stackBase, .stackTop, .ticksRun, .sleepUntil, .waitForPid, .exitCode]

def Creation.stored (creation : Creation) (kernel : Kernel) (field : TaskField) : Task :=
  let task := kernel.tasks creation.slot
  match field with
  | .rsp => { task with rsp := .fresh creation.entry }
  | .pid => { task with pid := creation.pid }
  | .state => { task with state := .ready }
  | .stackBase => { task with stackBase := creation.phys0 }
  | .stackTop => { task with stackTop := stackVirtTop kernel creation.phys1 }
  | .ticksRun => { task with ticksRun := 0 }
  | .sleepUntil => { task with sleepUntil := 0 }
  | .waitForPid => { task with waitForPid := none }
  | .exitCode => { task with exitCode := 0 }

/-- Where a call of `new_kernel_task` stands: the step it has done last. -/
inductive Progress where
  | slotChosen (entry : Nat) (slot : Slot)
  | pageTaken (entry : Nat) (slot : Slot) (phys0 : Nat)
  | stackTaken (entry : Nat) (slot : Slot) (phys0 phys1 : Nat)
  | pidTaken (creation : Creation)
  | storing (creation : Creation) (left : List TaskField)
  deriving DecidableEq

/-- The kernel, the creation that each task is in, and the number of tasks created in each
slot that have not exited. -/
structure Creators where
  kernel : Kernel
  creating : Slot → Option Progress
  unexited : Slot → Nat

inductive CreatorEvent where
  | tick
  | call (call : KernelCall)
  | newKernelTask (entry : Nat)
  | advance
  deriving DecidableEq

namespace Creators

/-- The idle task counts as created. -/
def start (pmm : Pmm) (hhdmOffset : Nat) : Creators :=
  { kernel := booted pmm hhdmOffset
    creating := fun _ => none
    unexited := fun slot => if slot = idleSlot then 1 else 0 }

def setCreating (creators : Creators) (progress : Option Progress) : Creators :=
  { creators with
    creating := Function.update creators.creating creators.kernel.current progress }

def resume (creators : Creators) : Option Creators :=
  match (creators.kernel.tasks creators.kernel.current).rsp with
  | .fresh _ => some (creators.setCreating none)
  | .tick => some creators
  | .yieldCpu => some creators
  | .sleepMs => some creators
  | .waitFor _ => some creators
  | .exit => none
  | .null => none

def unexitedAfter (creators : Creators) : KernelCall → Slot → Nat
  | .exit _ =>
      Function.update creators.unexited creators.kernel.current
        (creators.unexited creators.kernel.current - 1)
  | _ => creators.unexited

def operate (creators : Creators) (call : KernelCall) : Option Creators :=
  match perform creators.kernel call with
  | .error _ => none
  | .ok performed =>
      let after :=
        { creators with
          kernel := performed.kernel
          unexited := creators.unexitedAfter call }
      match performed.scheduled with
      | some (.switched _) => after.resume
      | _ => some after

def begin (creators : Creators) (entry : Nat) : Creators :=
  match allocSlot creators.kernel with
  | none => creators
  | some slot => creators.setCreating (some (.slotChosen entry slot))

def withPmm (creators : Creators) (pmm : Pmm) : Creators :=
  { creators with kernel := { creators.kernel with pmm := pmm } }

/-- One store; a task is there from the store of its state on. -/
def store (creators : Creators) (creation : Creation) (field : TaskField) : Creators :=
  { creators with
    kernel := creators.kernel.setTask creation.slot (creation.stored creators.kernel field)
    unexited :=
      if field = .state then
        Function.update creators.unexited creation.slot (creators.unexited creation.slot + 1)
      else creators.unexited }

def advance (creators : Creators) : Progress → Option Creators
  | .slotChosen entry slot =>
      match allocPage creators.kernel.pmm with
      | (none, pmm) => some ((creators.withPmm pmm).setCreating none)
      | (some phys0, pmm) =>
          some ((creators.withPmm pmm).setCreating (some (.pageTaken entry slot phys0)))
  | .pageTaken entry slot phys0 =>
      match allocPage creators.kernel.pmm with
      | (none, pmm) =>
          match freePage pmm phys0 with
          | .error _ => none
          | .ok pmm => some ((creators.withPmm pmm).setCreating none)
      | (some phys1, pmm) =>
          some ((creators.withPmm pmm).setCreating (some (.stackTaken entry slot phys0 phys1)))
  | .stackTaken entry slot phys0 phys1 =>
      let (pid, kernel) := allocPid creators.kernel
      some ({ creators with kernel := kernel }.setCreating
        (some (.pidTaken
          { slot := slot, entry := entry, phys0 := phys0, phys1 := phys1, pid := pid })))
  -- `setup_initial_stack` writes to the pages of the stack alone.
  | .pidTaken creation => some (creators.setCreating (some (.storing creation stores)))
  | .storing creation (field :: left) =>
      some ((creators.store creation field).setCreating (some (.storing creation left)))
  | .storing _ [] => some (creators.setCreating none)

/-- Ticks and the steps of creations interleave; the other operations begin with `cli` and
are complete when they return. -/
def step (creators : Creators) : CreatorEvent → Option Creators
  | .tick => creators.operate (.tick (Word64.add creators.kernel.tickCount 1))
  | .call call =>
      if ClearsFlag call ∧ creators.creating creators.kernel.current = none then
        creators.operate call
      else none
  | .newKernelTask entry =>
      if creators.creating creators.kernel.current = none then some (creators.begin entry)
      else none
  | .advance =>
      match creators.creating creators.kernel.current with
      | none => none
      | some progress => creators.advance progress

/-! ### The promise and its condition -/

/-- No two tasks are created in one slot and not exited, and a blocked task has a pending
wake-up. -/
structure SafeCreation (creators : Creators) : Prop where
  single : ∀ slot, creators.unexited slot ≤ 1
  wakeable : ∀ slot, Wakeable (creators.kernel.tasks slot)

/-- The store of the state finds no living task in the slot, and the reset of a reason to be
blocked does not take the only one of a task that blocked already. -/
def StoreUndisturbed (task : Task) : TaskField → Prop
  | .state => ¬ Alive task
  | .sleepUntil => task.state = .blocked → task.waitForPid ≠ none
  | .waitForPid => task.state = .blocked → task.sleepUntil ≠ 0
  | _ => True

instance (task : Task) : Decidable (Alive task) := inferInstanceAs (Decidable (_ ∧ _))

instance (task : Task) : (field : TaskField) → Decidable (StoreUndisturbed task field)
  | .state => inferInstanceAs (Decidable (¬ Alive task))
  | .sleepUntil => inferInstanceAs (Decidable (task.state = .blocked → task.waitForPid ≠ none))
  | .waitForPid => inferInstanceAs (Decidable (task.state = .blocked → task.sleepUntil ≠ 0))
  | .rsp => isTrue trivial
  | .pid => isTrue trivial
  | .stackBase => isTrue trivial
  | .stackTop => isTrue trivial
  | .ticksRun => isTrue trivial
  | .exitCode => isTrue trivial

/-- A creation is not disturbed by others, and no sleep that blocks has a wake tick that
wraps to the value for no sleep. -/
def Undisturbed (creators : Creators) : CreatorEvent → Prop
  | .advance =>
      match creators.creating creators.kernel.current with
      | some (.storing creation (field :: _)) =>
          StoreUndisturbed (creators.kernel.tasks creation.slot) field
      | _ => True
  | .call (.sleepMs ms) =>
      Leaves creators.kernel (.sleepMs ms) → wakeAt creators.kernel ms ≠ 0 ∨
        (creators.kernel.tasks creators.kernel.current).waitForPid ≠ none
  | _ => True

instance (creators : Creators) : (event : CreatorEvent) → Decidable (creators.Undisturbed event)
  | .tick => isTrue trivial
  | .newKernelTask _ => isTrue trivial
  | .call (.sleepMs ms) => inferInstanceAs (Decidable (Leaves creators.kernel (.sleepMs ms) → _))
  | .call (.tick _) => isTrue trivial
  | .call .yieldCpu => isTrue trivial
  | .call (.exit _) => isTrue trivial
  | .call (.waitFor _) => isTrue trivial
  | .call (.newKernelTask _) => isTrue trivial
  | .advance =>
      match creating : creators.creating creators.kernel.current with
      | some (.storing creation (field :: left)) =>
          decidable_of_iff (StoreUndisturbed (creators.kernel.tasks creation.slot) field)
            (by simp only [Undisturbed, creating])
      | some (.storing creation []) => isTrue (by simp only [Undisturbed, creating])
      | some (.slotChosen _ _) => isTrue (by simp only [Undisturbed, creating])
      | some (.pageTaken _ _ _) => isTrue (by simp only [Undisturbed, creating])
      | some (.stackTaken _ _ _ _) => isTrue (by simp only [Undisturbed, creating])
      | some (.pidTaken _) => isTrue (by simp only [Undisturbed, creating])
      | none => isTrue (by simp only [Undisturbed, creating])

structure Counted (creators : Creators) : Prop where
  running : (creators.kernel.tasks creators.kernel.current).state = .running
  count : ∀ slot, creators.unexited slot = if Alive (creators.kernel.tasks slot) then 1 else 0
  wakeable : ∀ slot, Wakeable (creators.kernel.tasks slot)

variable {creators next : Creators}

theorem operate_cases {call : KernelCall} (operates : creators.operate call = some next) :
    ∃ performed, perform creators.kernel call = .ok performed ∧
      next.kernel = performed.kernel ∧ next.unexited = creators.unexitedAfter call := by
  unfold operate at operates
  cases result : perform creators.kernel call with
  | error panic =>
      rw [result] at operates
      cases operates
  | ok performed =>
      rw [result] at operates
      dsimp only at operates
      refine ⟨performed, rfl, ?_⟩
      split at operates
      · unfold resume at operates
        split at operates <;> cases operates <;> exact ⟨rfl, rfl⟩
      · cases operates
        exact ⟨rfl, rfl⟩

structure Silent (creators next : Creators) : Prop where
  tasks : next.kernel.tasks = creators.kernel.tasks
  current : next.kernel.current = creators.kernel.current
  unexited : next.unexited = creators.unexited

theorem advance_cases {progress : Progress} (advances : creators.advance progress = some next) :
    (∃ creation field left, progress = .storing creation (field :: left) ∧
      next.kernel = (creators.store creation field).kernel ∧
      next.unexited = (creators.store creation field).unexited) ∨
    (∀ creation field left, progress ≠ .storing creation (field :: left)) ∧
      Silent creators next := by
  cases progress with
  | slotChosen entry slot =>
      refine Or.inr ⟨by simp, ?_⟩
      simp only [advance] at advances
      split at advances <;> cases advances <;> exact ⟨rfl, rfl, rfl⟩
  | pageTaken entry slot phys0 =>
      refine Or.inr ⟨by simp, ?_⟩
      simp only [advance] at advances
      split at advances
      · split at advances <;> cases advances
        exact ⟨rfl, rfl, rfl⟩
      · cases advances
        exact ⟨rfl, rfl, rfl⟩
  | stackTaken entry slot phys0 phys1 =>
      cases advances
      exact Or.inr ⟨by simp, rfl, rfl, rfl⟩
  | pidTaken creation =>
      cases advances
      exact Or.inr ⟨by simp, rfl, rfl, rfl⟩
  | storing creation left =>
      cases left with
      | nil =>
          cases advances
          exact Or.inr ⟨by simp, rfl, rfl, rfl⟩
      | cons field left =>
          cases advances
          exact Or.inl ⟨creation, field, left, rfl, rfl, rfl⟩

theorem step_cases {event : CreatorEvent} (stepped : creators.step event = some next) :
    (∃ call performed, (∀ entry, call ≠ .newKernelTask entry) ∧
      (creators.Undisturbed event ↔ ∀ ms, call = .sleepMs ms →
        Leaves creators.kernel (.sleepMs ms) → wakeAt creators.kernel ms ≠ 0 ∨
          (creators.kernel.tasks creators.kernel.current).waitForPid ≠ none) ∧
      perform creators.kernel call = .ok performed ∧ next.kernel = performed.kernel ∧
      next.unexited = creators.unexitedAfter call) ∨
    (∃ creation field,
      (creators.Undisturbed event ↔
        StoreUndisturbed (creators.kernel.tasks creation.slot) field) ∧
      next.kernel = (creators.store creation field).kernel ∧
      next.unexited = (creators.store creation field).unexited) ∨
    creators.Undisturbed event ∧ Silent creators next := by
  cases event with
  | tick =>
      have operates : creators.operate (.tick (Word64.add creators.kernel.tickCount 1)) =
          some next := stepped
      obtain ⟨performed, result, kernel, unexited⟩ := operate_cases operates
      exact Or.inl ⟨_, performed, by simp, by simp [Undisturbed], result, kernel, unexited⟩
  | call call =>
      unfold step at stepped
      dsimp only at stepped
      split at stepped
      · rename_i allowed
        obtain ⟨performed, result, kernel, unexited⟩ := operate_cases stepped
        refine Or.inl ⟨call, performed, ?_, ?_, result, kernel, unexited⟩
        · rintro entry rfl
          exact allowed.1
        · cases call <;> simp [Undisturbed]
      · cases stepped
  | newKernelTask entry =>
      unfold step begin at stepped
      dsimp only at stepped
      split at stepped
      · cases stepped
        refine Or.inr (Or.inr ⟨trivial, ?_⟩)
        split <;> exact ⟨rfl, rfl, rfl⟩
      · cases stepped
  | advance =>
      unfold step at stepped
      dsimp only at stepped
      cases creating : creators.creating creators.kernel.current with
      | none =>
          rw [creating] at stepped
          cases stepped
      | some progress =>
          rw [creating] at stepped
          rcases advance_cases stepped with ⟨creation, field, left, rfl, kernel, unexited⟩ |
            ⟨other, silent⟩
          · refine Or.inr (Or.inl ⟨creation, field, ?_, kernel, unexited⟩)
            unfold Undisturbed
            rw [creating]
          · refine Or.inr (Or.inr ⟨?_, silent⟩)
            unfold Undisturbed
            rw [creating]
            dsimp only
            split
            · rename_i creation field left same
              exact absurd (Option.some.inj same) (other creation field left)
            · trivial

/-! ### What a step keeps -/

theorem Counted.silent (counted : creators.Counted) (silent : Silent creators next) :
    next.Counted where
  running := by
    rw [silent.tasks, silent.current]
    exact counted.running
  count := by
    rw [silent.tasks, silent.unexited]
    exact counted.count
  wakeable := by
    rw [silent.tasks]
    exact counted.wakeable

theorem Counted.operate {call : KernelCall} {performed : Performed}
    (counted : creators.Counted) (notNew : ∀ entry, call ≠ .newKernelTask entry)
    (awake : ∀ ms, call = .sleepMs ms → Leaves creators.kernel (.sleepMs ms) →
      wakeAt creators.kernel ms ≠ 0 ∨
        (creators.kernel.tasks creators.kernel.current).waitForPid ≠ none)
    (result : perform creators.kernel call = .ok performed)
    (kernel : next.kernel = performed.kernel)
    (unexited : next.unexited = creators.unexitedAfter call) : next.Counted := by
  obtain ⟨lives, running⟩ := perform_lives counted.running result
  have alive := lives.alive_iff notNew
  constructor
  case running =>
    rw [kernel]
    exact running
  case wakeable =>
    rw [kernel]
    exact perform_wakeable counted.running result counted.wakeable awake
  case count =>
    intro slot
    rw [kernel, unexited]
    have before := counted.count slot
    cases call with
    | exit code =>
        by_cases caller : slot = creators.kernel.current
        · have own : Alive (creators.kernel.tasks slot) := by
            rw [caller]
            simp [Alive, counted.running]
          have ended : ¬ Alive (performed.kernel.tasks slot) := fun still =>
            ((alive slot).mp still).2 ⟨⟨code, rfl⟩, caller⟩
          rw [if_pos own] at before
          rw [if_neg ended]
          rw [caller] at before ⊢
          exact (Function.update_self ..).trans (by rw [before])
        · have same : Alive (performed.kernel.tasks slot) ↔ Alive (creators.kernel.tasks slot) :=
            (alive slot).trans (by simp [caller])
          rw [if_congr same rfl rfl, ← before]
          exact Function.update_of_ne caller ..
    | _ =>
        have same : Alive (performed.kernel.tasks slot) ↔ Alive (creators.kernel.tasks slot) :=
          (alive slot).trans (by simp)
        rw [if_congr same rfl rfl]
        exact before

theorem alive_congr {left right : Task} (same : left.state = right.state) :
    Alive left ↔ Alive right := by
  unfold Alive
  rw [same]

section store

variable {creation : Creation} {field : TaskField}

theorem store_here : (creators.store creation field).kernel.tasks creation.slot =
    creation.stored creators.kernel field :=
  Function.update_self ..

theorem store_elsewhere {slot : Slot} (other : slot ≠ creation.slot) :
    (creators.store creation field).kernel.tasks slot = creators.kernel.tasks slot :=
  Function.update_of_ne other ..

theorem store_state (other : field ≠ .state) (slot : Slot) :
    ((creators.store creation field).kernel.tasks slot).state =
      (creators.kernel.tasks slot).state := by
  by_cases here : slot = creation.slot
  · rw [here, store_here]
    cases field with
    | state => exact absurd rfl other
    | _ => rfl
  · rw [store_elsewhere here]

theorem Counted.store (counted : creators.Counted) (other : field ≠ .state)
    (undisturbed : StoreUndisturbed (creators.kernel.tasks creation.slot) field) :
    (creators.store creation field).Counted where
  running := (store_state other _).trans counted.running
  count slot := by
    rw [if_congr (alive_congr (store_state other slot)) rfl rfl, ← counted.count slot]
    exact congrFun (if_neg other) slot
  wakeable slot := by
    intro blocked
    rw [store_state other] at blocked
    by_cases here : slot = creation.slot
    · rw [here] at blocked ⊢
      have wakeable := counted.wakeable creation.slot blocked
      rw [store_here]
      cases field with
      | sleepUntil => exact Or.inr (undisturbed blocked)
      | waitForPid => exact Or.inl (undisturbed blocked)
      | state => exact absurd rfl other
      | _ => exact wakeable
    · rw [store_elsewhere here]
      exact counted.wakeable slot blocked

theorem Counted.storeState (counted : creators.Counted)
    (free : ¬ Alive (creators.kernel.tasks creation.slot)) :
    (creators.store creation .state).Counted := by
  have born : ((creators.store creation .state).kernel.tasks creation.slot).state = .ready := by
    rw [store_here]
    rfl
  have elsewhere : creators.kernel.current ≠ creation.slot := by
    intro same
    rw [← same] at free
    exact free (by simp [Alive, counted.running])
  constructor
  case running =>
    change ((creators.store creation .state).kernel.tasks creators.kernel.current).state = _
    rw [store_elsewhere elsewhere]
    exact counted.running
  case count =>
    intro slot
    change (if TaskField.state = .state then Function.update creators.unexited creation.slot
      (creators.unexited creation.slot + 1) else creators.unexited) slot = _
    rw [if_pos rfl]
    by_cases here : slot = creation.slot
    · rw [here, Function.update_self, counted.count, if_neg free,
        if_pos (by simp [Alive, born])]
    · rw [Function.update_of_ne here, store_elsewhere here]
      exact counted.count slot
  case wakeable =>
    intro slot
    by_cases here : slot = creation.slot
    · intro blocked
      rw [here, born] at blocked
      cases blocked
    · rw [store_elsewhere here]
      exact counted.wakeable slot

end store

theorem Counted.congr {other : Creators} (counted : creators.Counted)
    (kernel : other.kernel = creators.kernel) (unexited : other.unexited = creators.unexited) :
    other.Counted where
  running := by
    rw [kernel]
    exact counted.running
  count := by
    rw [kernel, unexited]
    exact counted.count
  wakeable := by
    rw [kernel]
    exact counted.wakeable

theorem Counted.step {event : CreatorEvent} (counted : creators.Counted)
    (undisturbed : creators.Undisturbed event) (stepped : creators.step event = some next) :
    next.Counted := by
  rcases step_cases stepped with ⟨call, performed, notNew, condition, result, kernel, unexited⟩ |
    ⟨creation, field, condition, kernel, unexited⟩ | ⟨_, silent⟩
  · exact counted.operate notNew (condition.mp undisturbed) result kernel unexited
  · by_cases born : field = .state
    · subst born
      exact (counted.storeState (condition.mp undisturbed)).congr kernel unexited
    · exact (counted.store born (condition.mp undisturbed)).congr kernel unexited
  · exact counted.silent silent

/-- A disturbed step breaks the promise at once. -/
theorem Counted.undisturbed {event : CreatorEvent} (counted : creators.Counted)
    (stepped : creators.step event = some next) (safe : next.SafeCreation) :
    creators.Undisturbed event := by
  rcases step_cases stepped with ⟨call, performed, notNew, condition, result, kernel, unexited⟩ |
    ⟨creation, field, condition, kernel, unexited⟩ | ⟨undisturbed, _⟩
  · refine condition.mpr ?_
    rintro ms rfl leaves
    obtain ⟨blocked, sleepUntil, waitForPid⟩ :=
      perform_sleepMs_task counted.running result leaves
    have wakeable := safe.wakeable creators.kernel.current
    rw [kernel] at wakeable
    rcases wakeable blocked with sleeps | waits
    · rw [sleepUntil] at sleeps
      exact Or.inl sleeps
    · rw [waitForPid] at waits
      exact Or.inr waits
  · refine condition.mpr ?_
    have wakeable := safe.wakeable creation.slot
    rw [kernel, store_here] at wakeable
    cases field with
    | state =>
        intro alive
        have single := safe.single creation.slot
        have count : next.unexited creation.slot = creators.unexited creation.slot + 1 := by
          rw [unexited]
          exact Function.update_self ..
        rw [count, counted.count, if_pos alive] at single
        omega
    | sleepUntil =>
        intro blocked
        exact (wakeable blocked).resolve_left (fun sleeps => sleeps rfl)
    | waitForPid =>
        intro blocked
        exact (wakeable blocked).resolve_right (fun waits => waits rfl)
    | _ => trivial
  · exact undisturbed

theorem step_advance {progress : Progress}
    (creating : creators.creating creators.kernel.current = some progress) :
    creators.step .advance = creators.advance progress := by
  simp only [step, creating]

@[simp] theorem setCreating_current (progress : Option Progress) :
    (creators.setCreating progress).creating creators.kernel.current = progress :=
  Function.update_self ..

def storeAll (creation : Creation) (kernel : Kernel) (left : List TaskField) : Kernel :=
  left.foldl (fun kernel field => kernel.setTask creation.slot (creation.stored kernel field)) kernel

theorem storeAll_stores (creation : Creation) (kernel : Kernel) :
    storeAll creation kernel stores = kernel.setTask creation.slot
      { rsp := .fresh creation.entry
        state := .ready
        pid := creation.pid
        stackBase := creation.phys0
        stackTop := stackVirtTop kernel creation.phys1
        ticksRun := 0
        sleepUntil := 0
        waitForPid := none
        exitCode := 0 } := by
  simp [storeAll, stores, Kernel.setTask, Creation.stored, stackVirtTop]

theorem exec_stores {creation : Creation} {left : List TaskField}
    (creating : creators.creating creators.kernel.current = some (.storing creation left)) :
    ∃ reached, LabelledRun.exec step creators (List.replicate (left.length + 1) .advance) =
        some reached ∧
      reached.kernel = storeAll creation creators.kernel left ∧
      reached.creating = Function.update creators.creating creators.kernel.current none := by
  induction left generalizing creators with
  | nil =>
      refine ⟨creators.setCreating none, ?_, rfl, rfl⟩
      exact LabelledRun.exec_cons_eq_some.mpr ⟨_, step_advance creating, rfl⟩
  | cons field left ih =>
      have stepped : creators.step .advance = some
          ((creators.store creation field).setCreating (some (.storing creation left))) :=
        step_advance creating
      obtain ⟨reached, run, kernel, none⟩ := @ih
        ((creators.store creation field).setCreating (some (.storing creation left)))
        (setCreating_current (some (.storing creation left)))
      refine ⟨reached, LabelledRun.exec_cons_eq_some.mpr ⟨_, stepped, run⟩, kernel, ?_⟩
      rw [none]
      exact Function.update_idem ..

section allocation

variable {entry phys0 phys1 : Nat} {slot : Slot} {middle last : Pmm}

theorem step_slotChosen
    (creating : creators.creating creators.kernel.current = some (.slotChosen entry slot))
    (taken : allocPage creators.kernel.pmm = (some phys0, middle)) :
    creators.step .advance =
      some ((creators.withPmm middle).setCreating (some (.pageTaken entry slot phys0))) := by
  rw [step_advance creating]
  simp only [advance, taken]

theorem step_pageTaken
    (creating : creators.creating creators.kernel.current = some (.pageTaken entry slot phys0))
    (taken : allocPage creators.kernel.pmm = (some phys1, last)) :
    creators.step .advance =
      some ((creators.withPmm last).setCreating
        (some (.stackTaken entry slot phys0 phys1))) := by
  rw [step_advance creating]
  simp only [advance, taken]

theorem step_slotChosen_none
    (creating : creators.creating creators.kernel.current = some (.slotChosen entry slot))
    (full : allocPage creators.kernel.pmm = (none, middle)) :
    creators.step .advance = some ((creators.withPmm middle).setCreating none) := by
  rw [step_advance creating]
  simp only [advance, full]

theorem step_pageTaken_none {freed : Pmm}
    (creating : creators.creating creators.kernel.current = some (.pageTaken entry slot phys0))
    (full : allocPage creators.kernel.pmm = (none, last))
    (givenBack : freePage last phys0 = .ok freed) :
    creators.step .advance = some ((creators.withPmm freed).setCreating none) := by
  rw [step_advance creating]
  simp only [advance, full, givenBack]

theorem exec_preparation
    (creating : creators.creating creators.kernel.current = some (.slotChosen entry slot))
    (first : allocPage creators.kernel.pmm = (some phys0, middle))
    (second : allocPage middle = (some phys1, last)) :
    ∃ reached, LabelledRun.exec step creators (List.replicate 4 .advance) = some reached ∧
      reached.kernel = { creators.kernel with
        pmm := last
        nextPid := (creators.kernel.nextPid + 1) % 2 ^ 32 } ∧
      reached.creating = Function.update creators.creating creators.kernel.current
        (some (.storing
          { slot := slot
            entry := entry
            phys0 := phys0
            phys1 := phys1
            pid := creators.kernel.nextPid } stores)) := by
  have page := step_slotChosen creating first
  have stack := @step_pageTaken
    ((creators.withPmm middle).setCreating (some (.pageTaken entry slot phys0)))
    entry phys0 phys1 slot last (setCreating_current _) second
  refine ⟨_, LabelledRun.exec_cons_eq_some.mpr ⟨_, page,
    LabelledRun.exec_cons_eq_some.mpr ⟨_, stack,
      LabelledRun.exec_cons_eq_some.mpr ⟨_, step_advance (setCreating_current _),
        LabelledRun.exec_cons_eq_some.mpr ⟨_, step_advance (setCreating_current _), rfl⟩⟩⟩⟩,
    rfl, ?_⟩
  simp [setCreating, withPmm]

end allocation

theorem exec_advance {entry : Nat} {slot : Slot} {returned : Option Nat} {after : Kernel}
    (creating : creators.creating creators.kernel.current = some (.slotChosen entry slot))
    (chosen : allocSlot creators.kernel = some slot)
    (result : newKernelTask creators.kernel entry = .ok (returned, after)) :
    ∃ count reached, LabelledRun.exec step creators (List.replicate count .advance) =
        some reached ∧
      reached.kernel = after ∧
      reached.creating = Function.update creators.creating creators.kernel.current none := by
  unfold newKernelTask allocStack at result
  rw [chosen] at result
  cases first : allocPage creators.kernel.pmm with
  | mk taken middle =>
      rw [first] at result
      cases taken with
      | none =>
          cases result
          exact ⟨1, _, LabelledRun.exec_cons_eq_some.mpr
            ⟨_, step_slotChosen_none creating first, rfl⟩, rfl, rfl⟩
      | some phys0 =>
          dsimp only at result
          cases second : allocPage middle with
          | mk taken last =>
              rw [second] at result
              cases taken with
              | none =>
                  dsimp only at result
                  cases freed : freePage last phys0 with
                  | error panic =>
                      rw [freed] at result
                      cases result
                  | ok pmm =>
                      rw [freed] at result
                      cases result
                      have page := step_slotChosen creating first
                      have failed := @step_pageTaken_none
                        ((creators.withPmm middle).setCreating (some (.pageTaken entry slot phys0)))
                        entry phys0 slot last pmm (setCreating_current _) second freed
                      refine ⟨2, _, LabelledRun.exec_cons_eq_some.mpr ⟨_, page,
                        LabelledRun.exec_cons_eq_some.mpr ⟨_, failed, rfl⟩⟩, rfl, ?_⟩
                      exact Function.update_idem ..
              | some phys1 =>
                  cases result
                  obtain ⟨prepared, run, kernel, storing⟩ := exec_preparation creating first second
                  have current : prepared.kernel.current = creators.kernel.current := by
                    rw [kernel]
                  have now := congrFun storing prepared.kernel.current
                  rw [current, Function.update_self, ← current] at now
                  obtain ⟨reached, stored, kernel', none⟩ := exec_stores now
                  refine ⟨4 + (stores.length + 1), reached, ?_, ?_, ?_⟩
                  · rw [← List.replicate_append_replicate]
                    exact LabelledRun.exec_append_eq_some.mpr ⟨prepared, run, stored⟩
                  · rw [kernel', storeAll_stores, kernel]
                    rfl
                  · rw [none, storing, current]
                    exact Function.update_idem ..

/-- Run without a break, the steps do what `new_kernel_task` does as a whole. -/
theorem uninterrupted_creation {entry : Nat} {returned : Option Nat} {after : Kernel}
    (idle : creators.creating creators.kernel.current = none)
    (result : newKernelTask creators.kernel entry = .ok (returned, after)) :
    ∃ count reached, LabelledRun.exec step creators
        (.newKernelTask entry :: List.replicate count .advance) = some reached ∧
      reached.kernel = after ∧ reached.creating = creators.creating := by
  have begins : creators.step (.newKernelTask entry) = some (creators.begin entry) := if_pos idle
  cases chosen : allocSlot creators.kernel with
  | none =>
      have same : creators.begin entry = creators := by
        unfold begin
        rw [chosen]
      unfold newKernelTask at result
      rw [chosen] at result
      cases result
      rw [same] at begins
      exact ⟨0, creators, LabelledRun.exec_cons_eq_some.mpr ⟨_, begins, rfl⟩, rfl, rfl⟩
  | some slot =>
      have started : creators.begin entry =
          creators.setCreating (some (.slotChosen entry slot)) := by
        unfold begin
        rw [chosen]
      rw [started] at begins
      obtain ⟨count, reached, run, kernel, none⟩ := @exec_advance
        (creators.setCreating (some (.slotChosen entry slot))) entry slot returned after
        (setCreating_current _) chosen result
      refine ⟨count, reached, LabelledRun.exec_cons_eq_some.mpr ⟨_, begins, run⟩, kernel, ?_⟩
      rw [none]
      change Function.update (Function.update creators.creating creators.kernel.current _)
        creators.kernel.current Option.none = _
      rw [Function.update_idem, ← idle, Function.update_eq_self]

end Creators

end CustomKernel.Multitask
