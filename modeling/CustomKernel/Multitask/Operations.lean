/-
What an operation does before it calls `schedule`.

Every operation is a change of the task table, followed by `schedule` or not.  The
change is listed task by task, so that an invariant of the table is one case
analysis and the rescheduling is common to all operations.
-/

import CustomKernel.Multitask.Selection

set_option autoImplicit false

namespace CustomKernel.Multitask

open Memory

/-- The table when `schedule` is called, with the context it saves, or when the
operation returns. -/
structure Prepared where
  context : Option SavedContext
  returned : Option Int
  kernel : Kernel

def prepareTick (kernel : Kernel) (currentTick : Nat) : Prepared :=
  let kernel := wakeSleepingTasks { kernel with tickCount := currentTick } currentTick
  let curr := kernel.tasks kernel.current
  let kernel := kernel.setTask kernel.current { curr with ticksRun := Word64.add curr.ticksRun 1 }
  let ticks := Word64.add kernel.ticksOnCurrent 1
  if TIME_SLICE_TICKS ≤ ticks then
    { context := some .tick, returned := none, kernel := { kernel with ticksOnCurrent := 0 } }
  else { context := none, returned := none, kernel := { kernel with ticksOnCurrent := ticks } }

def prepareWaitFor (kernel : Kernel) (pid : Nat) : Prepared :=
  match findPid kernel pid with
  | none => { context := none, returned := some (-1), kernel := kernel }
  | some slot =>
      if (kernel.tasks slot).state = .terminated then
        { context := none
          returned := some (kernel.tasks slot).exitCode
          kernel := kernel.setState slot .empty }
      else
        { context := some (.waitFor pid)
          returned := none
          kernel := kernel.setTask kernel.current
            { kernel.tasks kernel.current with state := .blocked, waitForPid := some pid } }

def prepare (kernel : Kernel) : KernelCall → Except Panic Prepared
  | .tick currentTick => .ok (prepareTick kernel currentTick)
  | .yieldCpu =>
      .ok { context := some .yieldCpu
            returned := none
            kernel := kernel.setState kernel.current .ready }
  | .sleepMs ms =>
      .ok { context := some .sleepMs
            returned := none
            kernel := blockUntil kernel kernel.current (wakeAt kernel ms) }
  | .exit code =>
      match terminate (wakeWaiters kernel (kernel.tasks kernel.current).pid code)
          kernel.current code with
      | .error panic => .error panic
      | .ok kernel => .ok { context := some .exit, returned := none, kernel := kernel }
  | .waitFor pid => .ok (prepareWaitFor kernel pid)
  | .newKernelTask entry =>
      match newKernelTask kernel entry with
      | .error panic => .error panic
      | .ok (_, kernel) => .ok { context := none, returned := none, kernel := kernel }

def finish (prepared : Prepared) : Except Panic Performed :=
  match prepared.context with
  | none =>
      .ok { scheduled := none, returned := prepared.returned, kernel := prepared.kernel }
  | some context =>
      match context, (schedule context prepared.kernel).1 with
      | .exit, .itself => .error .exitReturned
      | .exit, .notFound => .error .exitReturned
      | _, _ => .ok (reschedule context prepared.kernel)

theorem tick_eq (kernel : Kernel) (currentTick : Nat) :
    .ok (tick { kernel with tickCount := currentTick } currentTick) =
      finish (prepareTick kernel currentTick) := by
  unfold tick prepareTick
  dsimp only
  split <;> rfl

theorem waitFor_eq (kernel : Kernel) (pid : Nat) :
    .ok (waitFor kernel pid) = finish (prepareWaitFor kernel pid) := by
  unfold waitFor prepareWaitFor
  cases findPid kernel pid with
  | none => rfl
  | some slot =>
      dsimp only
      split <;> rfl

theorem perform_eq (kernel : Kernel) (call : KernelCall) :
    perform kernel call =
      match prepare kernel call with
      | .error panic => .error panic
      | .ok prepared => finish prepared := by
  cases call with
  | tick currentTick => exact tick_eq kernel currentTick
  | yieldCpu => rfl
  | sleepMs ms => rfl
  | exit code =>
      unfold perform exit prepare
      dsimp only
      cases terminate (wakeWaiters kernel (kernel.tasks kernel.current).pid code)
          kernel.current code with
      | error panic => rfl
      | ok ended =>
          simp only [finish]
          cases (schedule .exit ended).1 <;> rfl
  | waitFor pid => exact waitFor_eq kernel pid
  | newKernelTask entry =>
      unfold perform prepare
      dsimp only
      cases newKernelTask kernel entry <;> rfl

theorem perform_halves {kernel : Kernel} {call : KernelCall} {performed : Performed}
    (result : perform kernel call = .ok performed) :
    ∃ prepared, prepare kernel call = .ok prepared ∧ finish prepared = .ok performed := by
  rw [perform_eq] at result
  cases prepares : prepare kernel call with
  | error panic =>
      rw [prepares] at result
      cases result
  | ok prepared =>
      rw [prepares] at result
      exact ⟨prepared, rfl, result⟩

theorem prepare_exit {kernel : Kernel} {code : Int} {prepared : Prepared}
    (result : prepare kernel (.exit code) = .ok prepared) :
    ∃ ended, terminate (wakeWaiters kernel (kernel.tasks kernel.current).pid code)
        kernel.current code = .ok ended ∧
      prepared = { context := some .exit, returned := none, kernel := ended } := by
  unfold prepare at result
  dsimp only at result
  cases terminated : terminate (wakeWaiters kernel (kernel.tasks kernel.current).pid code)
      kernel.current code with
  | error panic =>
      rw [terminated] at result
      cases result
  | ok ended =>
      rw [terminated] at result
      cases result
      exact ⟨ended, rfl, rfl⟩

theorem prepare_newKernelTask {kernel : Kernel} {entry : Nat} {prepared : Prepared}
    (result : prepare kernel (.newKernelTask entry) = .ok prepared) :
    ∃ returned after, newKernelTask kernel entry = .ok (returned, after) ∧
      prepared = { context := none, returned := none, kernel := after } := by
  unfold prepare at result
  dsimp only at result
  cases created : newKernelTask kernel entry with
  | error panic =>
      rw [created] at result
      cases result
  | ok pair =>
      obtain ⟨returned, after⟩ := pair
      rw [created] at result
      cases result
      exact ⟨returned, after, rfl, rfl⟩

/-! ### Looking up slots -/

theorem allocSlot_empty {kernel : Kernel} {slot : Slot} (found : allocSlot kernel = some slot) :
    (kernel.tasks slot).state = .empty := by
  unfold allocSlot at found
  simpa using List.find?_some found

theorem findPid_some {kernel : Kernel} {pid : Nat} {slot : Slot}
    (found : findPid kernel pid = some slot) :
    (kernel.tasks slot).state ≠ .empty ∧ (kernel.tasks slot).pid = pid := by
  unfold findPid at found
  simpa using List.find?_some found

theorem findPid_none {kernel : Kernel} {pid : Nat} (absent : findPid kernel pid = none)
    (slot : Slot) (used : (kernel.tasks slot).state ≠ .empty) :
    (kernel.tasks slot).pid ≠ pid := by
  intro same
  have rejected := List.find?_eq_none.mp absent slot (List.mem_finRange slot)
  exact rejected (decide_eq_true ⟨used, same⟩)

/-! ### Creation -/

def createdTask (kernel : Kernel) (entry phys0 phys1 : Nat) : Task :=
  { rsp := .fresh entry
    state := .ready
    pid := kernel.nextPid
    stackBase := phys0
    stackTop := stackVirtTop kernel phys1
    ticksRun := 0
    sleepUntil := 0
    waitForPid := none
    exitCode := 0 }

theorem newKernelTask_cases {kernel after : Kernel} {entry : Nat} {returned : Option Nat}
    (result : newKernelTask kernel entry = .ok (returned, after)) :
    (allocSlot kernel = none ∧ returned = none ∧ after = kernel) ∨
    (∃ pmm, allocStack kernel.pmm = .ok (none, pmm) ∧ returned = none ∧
      after = { kernel with pmm := pmm }) ∨
    ∃ slot phys0 phys1 pmm, allocSlot kernel = some slot ∧
      allocStack kernel.pmm = .ok (some (phys0, phys1), pmm) ∧
      returned = some kernel.nextPid ∧
      after = { kernel with
        tasks := Function.update kernel.tasks slot (createdTask kernel entry phys0 phys1)
        nextPid := (kernel.nextPid + 1) % 2 ^ 32
        pmm := pmm } := by
  unfold newKernelTask at result
  cases chosen : allocSlot kernel with
  | none =>
      rw [chosen] at result
      cases result
      exact Or.inl ⟨rfl, rfl, rfl⟩
  | some slot =>
      rw [chosen] at result
      dsimp only at result
      cases stack : allocStack kernel.pmm with
      | error panic =>
          rw [stack] at result
          cases result
      | ok allocated =>
          obtain ⟨pages, pmm⟩ := allocated
          rw [stack] at result
          cases pages with
          | none =>
              cases result
              exact Or.inr (Or.inl ⟨pmm, rfl, rfl, rfl⟩)
          | some pair =>
              obtain ⟨phys0, phys1⟩ := pair
              cases result
              exact Or.inr (Or.inr ⟨slot, phys0, phys1, pmm, rfl, rfl, rfl, rfl⟩)

/-! ### The change of one task -/

/-- What an operation can make of the task in a slot before `schedule`. -/
inductive Change (kernel : Kernel) (slot : Slot) : KernelCall → Task → Prop
  | kept (call : KernelCall) (ticksRun : Nat) :
      Change kernel slot call { kernel.tasks slot with ticksRun := ticksRun }
  | sleepEnds (currentTick ticksRun : Nat) (blocked : (kernel.tasks slot).state = .blocked)
      (sleeps : (kernel.tasks slot).sleepUntil ≠ 0)
      (due : (kernel.tasks slot).sleepUntil ≤ currentTick) :
      Change kernel slot (.tick currentTick)
        { kernel.tasks slot with state := .ready, sleepUntil := 0, ticksRun := ticksRun }
  | waitEnds (code : Int) (other : slot ≠ kernel.current)
      (blocked : (kernel.tasks slot).state = .blocked)
      (waits : (kernel.tasks slot).waitForPid = some (kernel.tasks kernel.current).pid) :
      Change kernel slot (.exit code)
        { kernel.tasks slot with state := .ready, waitForPid := none, exitCode := code }
  | yields (caller : slot = kernel.current) :
      Change kernel slot .yieldCpu { kernel.tasks slot with state := .ready }
  | sleeps (ms : Nat) (caller : slot = kernel.current) :
      Change kernel slot (.sleepMs ms)
        { kernel.tasks slot with state := .blocked, sleepUntil := wakeAt kernel ms }
  | exits (code : Int) (caller : slot = kernel.current) :
      Change kernel slot (.exit code)
        { kernel.tasks slot with state := .terminated, exitCode := code }
  | reaped (pid : Nat) (ended : (kernel.tasks slot).state = .terminated)
      (same : (kernel.tasks slot).pid = pid) :
      Change kernel slot (.waitFor pid) { kernel.tasks slot with state := .empty }
  | waits (pid : Nat) (target : Slot) (caller : slot = kernel.current)
      (used : (kernel.tasks target).state ≠ .empty) (same : (kernel.tasks target).pid = pid)
      (alive : (kernel.tasks target).state ≠ .terminated) :
      Change kernel slot (.waitFor pid)
        { kernel.tasks slot with state := .blocked, waitForPid := some pid }
  | created (entry phys0 phys1 : Nat) (free : (kernel.tasks slot).state = .empty) :
      Change kernel slot (.newKernelTask entry) (createdTask kernel entry phys0 phys1)

namespace Change

variable {kernel : Kernel} {slot : Slot}

theorem same (call : KernelCall) : Change kernel slot call (kernel.tasks slot) :=
  .kept call (kernel.tasks slot).ticksRun

end Change

inductive OtherChange (kernel : Kernel) (slot : Slot) : KernelCall → Task → Prop
  | kept (call : KernelCall) (ticksRun : Nat) :
      OtherChange kernel slot call { kernel.tasks slot with ticksRun := ticksRun }
  | sleepEnds (currentTick ticksRun : Nat) (blocked : (kernel.tasks slot).state = .blocked)
      (sleeps : (kernel.tasks slot).sleepUntil ≠ 0)
      (due : (kernel.tasks slot).sleepUntil ≤ currentTick) :
      OtherChange kernel slot (.tick currentTick)
        { kernel.tasks slot with state := .ready, sleepUntil := 0, ticksRun := ticksRun }
  | waitEnds (code : Int) (blocked : (kernel.tasks slot).state = .blocked)
      (waits : (kernel.tasks slot).waitForPid = some (kernel.tasks kernel.current).pid) :
      OtherChange kernel slot (.exit code)
        { kernel.tasks slot with state := .ready, waitForPid := none, exitCode := code }
  | reaped (pid : Nat) (ended : (kernel.tasks slot).state = .terminated) :
      OtherChange kernel slot (.waitFor pid) { kernel.tasks slot with state := .empty }
  | created (entry phys0 phys1 : Nat) (free : (kernel.tasks slot).state = .empty) :
      OtherChange kernel slot (.newKernelTask entry) (createdTask kernel entry phys0 phys1)

theorem Change.elsewhere {kernel : Kernel} {slot : Slot} {call : KernelCall} {task : Task}
    (change : Change kernel slot call task) (other : slot ≠ kernel.current) :
    OtherChange kernel slot call task := by
  cases change with
  | kept _ ticksRun => exact .kept _ ticksRun
  | sleepEnds currentTick ticksRun blocked sleeps due =>
      exact .sleepEnds currentTick ticksRun blocked sleeps due
  | waitEnds code _ blocked waits => exact .waitEnds code blocked waits
  | yields caller => exact absurd caller other
  | sleeps ms caller => exact absurd caller other
  | exits code caller => exact absurd caller other
  | reaped pid ended _ => exact .reaped pid ended
  | waits pid target caller _ _ _ => exact absurd caller other
  | created entry phys0 phys1 free => exact .created entry phys0 phys1 free

theorem OtherChange.ready {kernel : Kernel} {slot : Slot} {call : KernelCall} {task : Task}
    (change : OtherChange kernel slot call task) (ready : (kernel.tasks slot).state = .ready) :
    task.state = .ready := by
  cases change with
  | kept _ ticksRun => exact ready
  | sleepEnds currentTick ticksRun _ _ _ => rfl
  | waitEnds code _ _ => rfl
  | reaped pid ended =>
      rw [ready] at ended
      cases ended
  | created entry phys0 phys1 _ => rfl

theorem prepareTick_tasks (kernel : Kernel) (currentTick : Nat) (slot : Slot) :
    ∃ ticksRun, (prepareTick kernel currentTick).kernel.tasks slot =
      { wakeSleeper currentTick (kernel.tasks slot) with ticksRun := ticksRun } := by
  have updated : ∃ ticksRun,
      ((wakeSleepingTasks { kernel with tickCount := currentTick } currentTick).setTask
        kernel.current
        { wakeSleeper currentTick (kernel.tasks kernel.current) with
          ticksRun := Word64.add
            (wakeSleeper currentTick (kernel.tasks kernel.current)).ticksRun 1 }).tasks slot =
        { wakeSleeper currentTick (kernel.tasks slot) with ticksRun := ticksRun } := by
    by_cases caller : slot = kernel.current
    · subst caller
      exact ⟨_, Function.update_self ..⟩
    · exact ⟨_, Function.update_of_ne caller ..⟩
  unfold prepareTick
  dsimp only
  split <;> exact updated

theorem prepareTick_changes (kernel : Kernel) (currentTick : Nat) (slot : Slot) :
    Change kernel slot (.tick currentTick)
      ((prepareTick kernel currentTick).kernel.tasks slot) := by
  obtain ⟨ticksRun, same⟩ := prepareTick_tasks kernel currentTick slot
  rw [same]
  unfold wakeSleeper
  split
  · rename_i due
    exact .sleepEnds currentTick ticksRun due.1 due.2.1 due.2.2
  · exact .kept _ ticksRun

theorem prepareWaitFor_changes (kernel : Kernel) (pid : Nat) (slot : Slot) :
    Change kernel slot (.waitFor pid) ((prepareWaitFor kernel pid).kernel.tasks slot) := by
  unfold prepareWaitFor
  cases found : findPid kernel pid with
  | none => exact .same _
  | some target =>
      have target_pid := findPid_some found
      dsimp only
      split
      · rename_i ended
        by_cases here : slot = target
        · subst here
          rw [show (kernel.setState slot .empty).tasks slot =
            { kernel.tasks slot with state := .empty } from Function.update_self ..]
          exact .reaped pid ended target_pid.2
        · rw [show (kernel.setState target .empty).tasks slot = kernel.tasks slot from
            Function.update_of_ne here ..]
          exact .same _
      · rename_i alive
        by_cases caller : slot = kernel.current
        · rw [← caller]
          rw [show (kernel.setTask slot _).tasks slot = _ from Function.update_self ..]
          exact .waits pid target caller target_pid.1 target_pid.2 alive
        · rw [show (kernel.setTask kernel.current _).tasks slot = kernel.tasks slot from
            Function.update_of_ne caller ..]
          exact .same _

theorem terminate_some {kernel ended : Kernel} {slot : Slot} {code : Int}
    (result : terminate kernel slot code = .ok ended) :
    ∃ pmm, freePage kernel.pmm (kernel.tasks slot).stackBase = .ok pmm ∧
      ended = { kernel.setTask slot
        { kernel.tasks slot with state := .terminated, exitCode := code } with pmm := pmm } := by
  unfold terminate at result
  dsimp only at result
  cases freed : freePage kernel.pmm (kernel.tasks slot).stackBase with
  | error panic =>
      rw [freed] at result
      cases result
  | ok pmm =>
      rw [freed] at result
      cases result
      exact ⟨pmm, rfl, rfl⟩

theorem exit_tasks {kernel ended : Kernel} {code : Int}
    (running : (kernel.tasks kernel.current).state = .running)
    (result : terminate (wakeWaiters kernel (kernel.tasks kernel.current).pid code)
      kernel.current code = .ok ended) (slot : Slot) :
    ended.tasks slot =
      if slot = kernel.current then
        { kernel.tasks slot with state := .terminated, exitCode := code }
      else wakeWaiter (kernel.tasks kernel.current).pid code (kernel.tasks slot) := by
  obtain ⟨pmm, _, rfl⟩ := terminate_some result
  have notWaiting : ¬ ((kernel.tasks kernel.current).state = .blocked ∧
      (kernel.tasks kernel.current).waitForPid = some (kernel.tasks kernel.current).pid) := by
    intro both
    rw [running] at both
    cases both.1
  have own : (wakeWaiters kernel (kernel.tasks kernel.current).pid code).tasks kernel.current =
      kernel.tasks kernel.current := if_neg notWaiting
  by_cases caller : slot = kernel.current
  · subst caller
    simp [Kernel.setTask, own]
  · simp [Kernel.setTask, wakeWaiters, caller]

theorem exit_changes {kernel ended : Kernel} {code : Int}
    (running : (kernel.tasks kernel.current).state = .running)
    (result : terminate (wakeWaiters kernel (kernel.tasks kernel.current).pid code)
      kernel.current code = .ok ended) (slot : Slot) :
    Change kernel slot (.exit code) (ended.tasks slot) := by
  rw [exit_tasks running result slot]
  by_cases caller : slot = kernel.current
  · rw [if_pos caller]
    exact .exits code caller
  · rw [if_neg caller]
    unfold wakeWaiter
    split
    · rename_i waiting
      exact .waitEnds code caller waiting.1 waiting.2
    · exact .same _

theorem newKernelTask_changes {kernel after : Kernel} {entry : Nat} {returned : Option Nat}
    (result : newKernelTask kernel entry = .ok (returned, after)) (slot : Slot) :
    Change kernel slot (.newKernelTask entry) (after.tasks slot) := by
  rcases newKernelTask_cases result with ⟨_, _, rfl⟩ | ⟨pmm, _, _, rfl⟩ |
    ⟨chosen, phys0, phys1, pmm, free, _, _, rfl⟩
  · exact .same _
  · exact .same _
  · by_cases here : slot = chosen
    · subst here
      simp only [Function.update_self]
      exact .created entry phys0 phys1 (allocSlot_empty free)
    · simp only [Function.update_of_ne here]
      exact .same _

/-- Everything an operation can do to a task before `schedule`. -/
theorem prepare_changes {kernel : Kernel} {call : KernelCall} {prepared : Prepared}
    (running : (kernel.tasks kernel.current).state = .running)
    (result : prepare kernel call = .ok prepared) (slot : Slot) :
    Change kernel slot call (prepared.kernel.tasks slot) := by
  have own (task : Task) (caller : slot = kernel.current) :
      (kernel.setTask kernel.current task).tasks slot = task := by
    simp [Kernel.setTask, caller]
  have elsewhere (task : Task) (other : slot ≠ kernel.current) :
      (kernel.setTask kernel.current task).tasks slot = kernel.tasks slot :=
    Function.update_of_ne other ..
  cases call with
  | tick currentTick =>
      cases result
      exact prepareTick_changes kernel currentTick slot
  | yieldCpu =>
      cases result
      by_cases caller : slot = kernel.current
      · rw [Kernel.setState, own _ caller, ← caller]
        exact .yields caller
      · rw [Kernel.setState, elsewhere _ caller]
        exact .same _
  | sleepMs ms =>
      cases result
      by_cases caller : slot = kernel.current
      · rw [blockUntil, own _ caller, ← caller]
        exact .sleeps ms caller
      · rw [blockUntil, elsewhere _ caller]
        exact .same _
  | exit code =>
      obtain ⟨ended, terminated, rfl⟩ := prepare_exit result
      exact exit_changes running terminated slot
  | waitFor pid =>
      cases result
      exact prepareWaitFor_changes kernel pid slot
  | newKernelTask entry =>
      obtain ⟨returned, after, created, rfl⟩ := prepare_newKernelTask result
      exact newKernelTask_changes created slot

/-! ### The rest of the kernel -/

theorem prepareTick_frame (kernel : Kernel) (currentTick : Nat) :
    ∃ tasks ticks, (prepareTick kernel currentTick).kernel =
      { kernel with tasks := tasks, ticksOnCurrent := ticks, tickCount := currentTick } := by
  unfold prepareTick
  dsimp only
  split <;> exact ⟨_, _, rfl⟩

theorem prepareWaitFor_frame (kernel : Kernel) (pid : Nat) :
    ∃ tasks, (prepareWaitFor kernel pid).kernel = { kernel with tasks := tasks } := by
  unfold prepareWaitFor
  cases findPid kernel pid with
  | none => exact ⟨_, rfl⟩
  | some target =>
      dsimp only
      split <;> exact ⟨_, rfl⟩

/-- Only `exit` and a creation touch the page allocator, only a creation the pids, and
only a tick the counters. -/
structure Framed (kernel : Kernel) (call : KernelCall) (after : Kernel) : Prop where
  current : after.current = kernel.current
  hhdmOffset : after.hhdmOffset = kernel.hhdmOffset
  pmm : (∀ code, call ≠ .exit code) → (∀ entry, call ≠ .newKernelTask entry) →
    after.pmm = kernel.pmm
  nextPid : (∀ entry, call ≠ .newKernelTask entry) → after.nextPid = kernel.nextPid
  counters : (∀ currentTick, call ≠ .tick currentTick) →
    after.tickCount = kernel.tickCount ∧ after.ticksOnCurrent = kernel.ticksOnCurrent

theorem prepare_frame {kernel : Kernel} {call : KernelCall} {prepared : Prepared}
    (result : prepare kernel call = .ok prepared) : Framed kernel call prepared.kernel := by
  cases call with
  | tick currentTick =>
      cases result
      obtain ⟨tasks, ticks, same⟩ := prepareTick_frame kernel currentTick
      rw [same]
      exact ⟨rfl, rfl, fun _ _ => rfl, fun _ => rfl, fun notTick => absurd rfl (notTick currentTick)⟩
  | yieldCpu =>
      cases result
      exact ⟨rfl, rfl, fun _ _ => rfl, fun _ => rfl, fun _ => ⟨rfl, rfl⟩⟩
  | sleepMs ms =>
      cases result
      exact ⟨rfl, rfl, fun _ _ => rfl, fun _ => rfl, fun _ => ⟨rfl, rfl⟩⟩
  | exit code =>
      obtain ⟨ended, terminated, rfl⟩ := prepare_exit result
      obtain ⟨pmm, _, rfl⟩ := terminate_some terminated
      exact ⟨rfl, rfl, fun notExit => absurd rfl (notExit code), fun _ => rfl, fun _ => ⟨rfl, rfl⟩⟩
  | waitFor pid =>
      cases result
      obtain ⟨tasks, same⟩ := prepareWaitFor_frame kernel pid
      rw [same]
      exact ⟨rfl, rfl, fun _ _ => rfl, fun _ => rfl, fun _ => ⟨rfl, rfl⟩⟩
  | newKernelTask entry =>
      obtain ⟨returned, after, created, rfl⟩ := prepare_newKernelTask result
      rcases newKernelTask_cases created with ⟨_, _, rfl⟩ | ⟨pmm, _, _, rfl⟩ |
        ⟨chosen, phys0, phys1, pmm, _, _, _, rfl⟩ <;>
      exact ⟨rfl, rfl, fun _ notNew => absurd rfl (notNew entry),
        fun notNew => absurd rfl (notNew entry), fun _ => ⟨rfl, rfl⟩⟩

/-! ### The caller -/

section caller

variable {kernel : Kernel} {call : KernelCall} {prepared : Prepared}

theorem prepare_pid (running : (kernel.tasks kernel.current).state = .running)
    (result : prepare kernel call = .ok prepared)
    (notNew : ∀ entry, call ≠ .newKernelTask entry) (slot : Slot) :
    (prepared.kernel.tasks slot).pid = (kernel.tasks slot).pid ∧
      ((kernel.tasks slot).state = .empty → (prepared.kernel.tasks slot).state = .empty) := by
  have change := prepare_changes running result slot
  have used (caller : slot = kernel.current) : (kernel.tasks slot).state ≠ .empty := by
    rw [caller, running]
    simp
  generalize prepared.kernel.tasks slot = task at change ⊢
  cases change with
  | kept _ ticksRun => exact ⟨rfl, fun empty => empty⟩
  | sleepEnds currentTick ticksRun blocked _ _ =>
      refine ⟨rfl, fun empty => ?_⟩
      rw [empty] at blocked
      cases blocked
  | waitEnds code _ blocked _ =>
      refine ⟨rfl, fun empty => ?_⟩
      rw [empty] at blocked
      cases blocked
  | yields caller => exact ⟨rfl, fun empty => absurd empty (used caller)⟩
  | sleeps ms caller => exact ⟨rfl, fun empty => absurd empty (used caller)⟩
  | exits code caller => exact ⟨rfl, fun empty => absurd empty (used caller)⟩
  | reaped pid _ _ => exact ⟨rfl, fun _ => rfl⟩
  | waits pid target caller _ _ _ => exact ⟨rfl, fun empty => absurd empty (used caller)⟩
  | created entry phys0 phys1 _ => exact absurd rfl (notNew entry)

theorem prepare_tick_running {currentTick : Nat}
    (running : (kernel.tasks kernel.current).state = .running)
    (result : prepare kernel (.tick currentTick) = .ok prepared) :
    (prepared.kernel.tasks kernel.current).state = .running := by
  have change := prepare_changes running result kernel.current
  generalize prepared.kernel.tasks kernel.current = task at change ⊢
  cases change with
  | kept _ ticksRun => exact running
  | sleepEnds _ ticksRun blocked _ _ =>
      rw [running] at blocked
      cases blocked

theorem prepare_returns (running : (kernel.tasks kernel.current).state = .running)
    (result : prepare kernel call = .ok prepared)
    (returns : prepared.context = none) :
    (prepared.kernel.tasks prepared.kernel.current).state = .running := by
  have change := prepare_changes running result kernel.current
  rw [(prepare_frame result).current]
  cases call with
  | tick currentTick => exact prepare_tick_running running result
  | yieldCpu =>
      cases result
      cases returns
  | sleepMs ms =>
      cases result
      cases returns
  | exit code =>
      obtain ⟨ended, _, rfl⟩ := prepare_exit result
      cases returns
  | waitFor pid =>
      cases result
      unfold prepareWaitFor at returns ⊢
      cases found : findPid kernel pid with
      | none => exact running
      | some target =>
          rw [found] at returns
          dsimp only at returns ⊢
          split at returns
          · rename_i ended
            rw [if_pos ended]
            have other : kernel.current ≠ target := by
              intro same
              rw [← same, running] at ended
              cases ended
            simp only [Kernel.setState, Kernel.setTask, Function.update_of_ne other]
            exact running
          · cases returns
  | newKernelTask entry =>
      generalize prepared.kernel.tasks kernel.current = task at change ⊢
      cases change with
      | kept _ ticksRun => exact running
      | created _ phys0 phys1 free =>
          rw [running] at free
          cases free

def Leaving (context : SavedContext) (state : TaskState) : KernelCall → Prop
  | .tick _ => context = .tick ∧ state = .running
  | .yieldCpu => context = .yieldCpu ∧ state = .ready
  | .sleepMs _ => context = .sleepMs ∧ state = .blocked
  | .exit _ => context = .exit ∧ state = .terminated
  | .waitFor pid => context = .waitFor pid ∧ state = .blocked
  | .newKernelTask _ => False

theorem Leaving.exit {state : TaskState} {call : KernelCall}
    (leaving : Leaving .exit state call) : state = .terminated := by
  cases call with
  | exit code => exact leaving.2
  | newKernelTask entry => exact absurd leaving id
  | tick _ => cases leaving.1
  | yieldCpu => cases leaving.1
  | sleepMs _ => cases leaving.1
  | waitFor _ => cases leaving.1

theorem prepare_leaves (running : (kernel.tasks kernel.current).state = .running)
    (result : prepare kernel call = .ok prepared)
    {context : SavedContext} (calls : prepared.context = some context) :
    Leaving context (prepared.kernel.tasks prepared.kernel.current).state call := by
  rw [(prepare_frame result).current]
  cases call with
  | tick currentTick =>
      refine ⟨?_, prepare_tick_running running result⟩
      cases result
      unfold prepareTick at calls
      dsimp only at calls
      split at calls <;> cases calls
      rfl
  | yieldCpu =>
      cases result
      cases calls
      simp [Leaving, Kernel.setState, Kernel.setTask]
  | sleepMs ms =>
      cases result
      cases calls
      simp [Leaving, blockUntil, Kernel.setTask]
  | exit code =>
      obtain ⟨ended, terminated, rfl⟩ := prepare_exit result
      cases calls
      unfold Leaving
      rw [exit_tasks running terminated, if_pos rfl]
      exact ⟨rfl, rfl⟩
  | waitFor pid =>
      cases result
      unfold prepareWaitFor at calls ⊢
      cases found : findPid kernel pid with
      | none =>
          rw [found] at calls
          cases calls
      | some target =>
          rw [found] at calls
          dsimp only at calls ⊢
          split at calls
          · cases calls
          · rename_i alive
            cases calls
            rw [if_neg alive]
            simp [Leaving, Kernel.setTask]
  | newKernelTask entry =>
      obtain ⟨_, _, _, rfl⟩ := prepare_newKernelTask result
      cases calls

end caller

/-! ### How an operation ends -/

inductive Outcome (prepared : Prepared) : Performed → Prop
  | returned (returns : prepared.context = none)
      (running : (prepared.kernel.tasks prepared.kernel.current).state = .running) :
      Outcome prepared
        { scheduled := none, returned := prepared.returned, kernel := prepared.kernel }
  | itself (context : SavedContext) (calls : prepared.context = some context)
      (selectable : Selectable prepared.kernel prepared.kernel.current)
      (alone : ∀ slot, slot ≠ prepared.kernel.current →
        (prepared.kernel.tasks slot).state ≠ .ready) :
      Outcome prepared
        { scheduled := some .itself
          returned := none
          kernel := prepared.kernel.setState prepared.kernel.current .running }
  | switched (context : SavedContext) (next : Slot) (calls : prepared.context = some context)
      (other : next ≠ prepared.kernel.current)
      (ready : (prepared.kernel.tasks next).state = .ready)
      (nearer : ∀ slot, slot ≠ prepared.kernel.current →
        (prepared.kernel.tasks slot).state = .ready →
        CyclicScan.distance next slot < CyclicScan.distance prepared.kernel.current slot) :
      Outcome prepared
        { scheduled := some (.switched next)
          returned := none
          kernel := switchTo context prepared.kernel next }

/-- Without an idle task there is a fourth end: `schedule` finds no task and lets its
caller run on. -/
theorem finish_cases {prepared : Prepared} {performed : Performed}
    (running : prepared.context = none →
      (prepared.kernel.tasks prepared.kernel.current).state = .running)
    (finished : finish prepared = .ok performed) :
    Outcome prepared performed ∨
      ∃ context, prepared.context = some context ∧ context ≠ .exit ∧
        (∀ slot, ¬ Selectable prepared.kernel slot) ∧
        performed =
          { scheduled := some .notFound
            returned := none
            kernel := prepared.kernel.setState prepared.kernel.current .running } := by
  unfold finish at finished
  cases calls : prepared.context with
  | none =>
      rw [calls] at finished
      cases finished
      exact Or.inl (.returned calls (running calls))
  | some context =>
      rw [calls] at finished
      dsimp only at finished
      rcases schedule_cases context prepared.kernel with ⟨scheduled, nobody⟩ |
        ⟨scheduled, selectable, alone⟩ | ⟨next, other, ready, scheduled, nearer⟩
      · rw [reschedule, scheduled] at finished
        cases context with
        | exit => cases finished
        | _ =>
            cases finished
            exact Or.inr ⟨_, rfl, by simp, nobody, rfl⟩
      · rw [reschedule, scheduled] at finished
        cases context with
        | exit => cases finished
        | _ =>
            cases finished
            exact Or.inl (.itself _ calls selectable alone)
      · rw [reschedule, scheduled] at finished
        cases context <;>
          · cases finished
            exact Or.inl (.switched _ next calls other ready nearer)

end CustomKernel.Multitask
