/-
The lives of tasks.

Seen from outside a slot is absent, alive with a pid, or ended with a pid and an
exit code.  Ticks, yields, sleeps and rescheduling change no life.  `exit` ends the
current task, `wait_for` may remove an ended one, a creation may start one.  None of
this needs the idle task: even a `schedule` that finds nothing only lets its caller
run on.
-/

import CustomKernel.Multitask.Operations

set_option autoImplicit false

namespace CustomKernel.Multitask

inductive Life where
  | absent
  | alive (pid : Nat)
  | ended (pid : Nat) (code : Int)
  deriving DecidableEq

def Life.pid : Life → Option Nat
  | .absent => none
  | .alive pid => some pid
  | .ended pid _ => some pid

def Task.life (task : Task) : Life :=
  match task.state with
  | .empty => .absent
  | .terminated => .ended task.pid task.exitCode
  | _ => .alive task.pid

def Kernel.lives (kernel : Kernel) (slot : Slot) : Life := (kernel.tasks slot).life

theorem Task.life_alive {task : Task} {pid : Nat} :
    task.life = .alive pid ↔
      task.state ≠ .empty ∧ task.state ≠ .terminated ∧ task.pid = pid := by
  unfold Task.life
  cases task.state <;> simp

theorem Task.life_empty {task : Task} : task.life = .absent ↔ task.state = .empty := by
  unfold Task.life
  cases task.state <;> simp

theorem Task.life_ended {task : Task} {pid : Nat} {code : Int} :
    task.life = .ended pid code ↔
      task.state = .terminated ∧ task.pid = pid ∧ task.exitCode = code := by
  unfold Task.life
  cases task.state <;> simp

theorem Kernel.lives_setTask (kernel : Kernel) (slot : Slot) (task : Task) :
    (kernel.setTask slot task).lives = Function.update kernel.lives slot task.life := by
  funext other
  unfold Kernel.lives Kernel.setTask
  by_cases here : other = slot
  · subst here
    simp only [Function.update_self]
  · simp only [Function.update_of_ne here]

theorem Kernel.lives_setTask_alive {kernel : Kernel} {slot : Slot} {task : Task}
    (before : (kernel.tasks slot).state ≠ .empty ∧ (kernel.tasks slot).state ≠ .terminated)
    (after : task.state ≠ .empty ∧ task.state ≠ .terminated)
    (pid : task.pid = (kernel.tasks slot).pid) :
    (kernel.setTask slot task).lives = kernel.lives := by
  have same : task.life = kernel.lives slot :=
    (Task.life_alive.mpr ⟨after.1, after.2, pid⟩).trans
      (Task.life_alive.mpr ⟨before.1, before.2, rfl⟩).symm
  rw [Kernel.lives_setTask, same, Function.update_eq_self]

/-! ### What an operation does to the lives -/

/-- The effect of an operation, with the value it returns. -/
inductive LifeStep (kernel : Kernel) : KernelCall → Option Int → Kernel → Prop
  | same (call : KernelCall) (after : Kernel) (notExit : ∀ code, call ≠ .exit code)
      (notWait : ∀ pid, call ≠ .waitFor pid) (lives : after.lives = kernel.lives)
      (nextPid : after.nextPid = kernel.nextPid) : LifeStep kernel call none after
  | exits (code : Int) (after : Kernel)
      (lives : after.lives = Function.update kernel.lives kernel.current
        (.ended (kernel.tasks kernel.current).pid code))
      (nextPid : after.nextPid = kernel.nextPid) : LifeStep kernel (.exit code) none after
  | missing (pid : Nat) (after : Kernel)
      (none : ∀ slot, kernel.lives slot ≠ .alive pid ∧ ∀ code, kernel.lives slot ≠ .ended pid code)
      (lives : after.lives = kernel.lives) (nextPid : after.nextPid = kernel.nextPid) :
      LifeStep kernel (.waitFor pid) (some (-1)) after
  | reaps (pid : Nat) (code : Int) (target : Slot) (after : Kernel)
      (ended : kernel.lives target = .ended pid code)
      (lives : after.lives = Function.update kernel.lives target .absent)
      (nextPid : after.nextPid = kernel.nextPid) :
      LifeStep kernel (.waitFor pid) (some code) after
  | blocks (pid : Nat) (target : Slot) (after : Kernel)
      (alive : kernel.lives target = .alive pid)
      (lives : after.lives = kernel.lives) (nextPid : after.nextPid = kernel.nextPid) :
      LifeStep kernel (.waitFor pid) none after
  | creates (entry : Nat) (slot : Slot) (after : Kernel) (free : kernel.lives slot = .absent)
      (lives : after.lives = Function.update kernel.lives slot (.alive kernel.nextPid))
      (nextPid : after.nextPid = (kernel.nextPid + 1) % 2 ^ 32) :
      LifeStep kernel (.newKernelTask entry) none after

theorem Task.life_congr {left right : Task}
    (empty : left.state = .empty ↔ right.state = .empty)
    (terminated : left.state = .terminated ↔ right.state = .terminated)
    (pid : left.pid = right.pid)
    (exitCode : right.state = .terminated → left.exitCode = right.exitCode) :
    left.life = right.life := by
  by_cases absent : right.state = .empty
  · rw [Task.life_empty.mpr absent, Task.life_empty.mpr (empty.mpr absent)]
  · by_cases ended : right.state = .terminated
    · rw [Task.life_ended.mpr ⟨ended, rfl, rfl⟩,
        Task.life_ended.mpr ⟨terminated.mpr ended, pid, exitCode ended⟩]
    · rw [Task.life_alive.mpr ⟨absent, ended, rfl⟩, ← pid]
      exact Task.life_alive.mpr ⟨fun held => absent (empty.mp held),
        fun held => ended (terminated.mp held), rfl⟩

theorem Rescheduled.lives {before after : Kernel} (same : Rescheduled before after) :
    after.lives = before.lives := by
  funext slot
  exact Task.life_congr (same.stopped_iff (by simp)) (same.stopped_iff (by simp))
    (same.pid slot) (fun _ => same.exitCode slot)

theorem Change.life_same {kernel : Kernel} {call : KernelCall} {slot : Slot} {task : Task}
    (running : (kernel.tasks kernel.current).state = .running)
    (notExit : ∀ code, call ≠ .exit code) (notWait : ∀ pid, call ≠ .waitFor pid)
    (notNew : ∀ entry, call ≠ .newKernelTask entry)
    (change : Change kernel slot call task) : task.life = kernel.lives slot := by
  have alive {state : TaskState} (held : (kernel.tasks slot).state = state)
      (living : state ≠ .empty ∧ state ≠ .terminated) :
      kernel.lives slot = .alive (kernel.tasks slot).pid :=
    Task.life_alive.mpr ⟨held ▸ living.1, held ▸ living.2, rfl⟩
  have caller (same : slot = kernel.current) : (kernel.tasks slot).state = .running := by
    rw [same]
    exact running
  cases change with
  | kept _ ticksRun => rfl
  | sleepEnds currentTick ticksRun blocked _ _ =>
      rw [alive blocked (by simp)]
      exact Task.life_alive.mpr ⟨by simp, by simp, rfl⟩
  | waitEnds code _ _ _ => exact absurd rfl (notExit code)
  | yields same =>
      rw [alive (caller same) (by simp)]
      exact Task.life_alive.mpr ⟨by simp, by simp, rfl⟩
  | sleeps ms same =>
      rw [alive (caller same) (by simp)]
      exact Task.life_alive.mpr ⟨by simp, by simp, rfl⟩
  | exits code _ => exact absurd rfl (notExit code)
  | reaped pid _ _ => exact absurd rfl (notWait pid)
  | waits pid target _ _ _ _ => exact absurd rfl (notWait pid)
  | created entry phys0 phys1 _ => exact absurd rfl (notNew entry)

theorem prepareWaitFor_lives {kernel : Kernel} (pid : Nat)
    (running : (kernel.tasks kernel.current).state = .running) :
    LifeStep kernel (.waitFor pid) (prepareWaitFor kernel pid).returned
      (prepareWaitFor kernel pid).kernel := by
  unfold prepareWaitFor
  cases found : findPid kernel pid with
  | none =>
      apply LifeStep.missing pid kernel ?_ rfl rfl
      intro slot
      have other := findPid_none found slot
      constructor
      · intro alive
        obtain ⟨used, _, same⟩ := Task.life_alive.mp alive
        exact other used same
      · intro code ended
        obtain ⟨terminated, same, _⟩ := Task.life_ended.mp ended
        exact other (by rw [terminated]; simp) same
  | some target =>
      obtain ⟨used, same⟩ := findPid_some found
      dsimp only
      split
      · rename_i terminated
        refine .reaps pid _ target _ (Task.life_ended.mpr ⟨terminated, same, rfl⟩) ?_ rfl
        exact Kernel.lives_setTask kernel target _
      · rename_i alive
        refine .blocks pid target _ (Task.life_alive.mpr ⟨used, alive, same⟩) ?_ rfl
        exact Kernel.lives_setTask_alive (by simp [running]) (by simp) rfl

theorem exit_lives {kernel ended : Kernel} {code : Int}
    (running : (kernel.tasks kernel.current).state = .running)
    (result : terminate (wakeWaiters kernel (kernel.tasks kernel.current).pid code)
      kernel.current code = .ok ended) :
    ended.lives = Function.update kernel.lives kernel.current
      (.ended (kernel.tasks kernel.current).pid code) := by
  funext slot
  unfold Kernel.lives
  rw [exit_tasks running result slot]
  by_cases caller : slot = kernel.current
  · subst caller
    rw [if_pos rfl, Function.update_self]
    exact Task.life_ended.mpr ⟨rfl, rfl, rfl⟩
  · rw [if_neg caller, Function.update_of_ne caller]
    unfold wakeWaiter
    split
    · rename_i waiting
      have before : (kernel.tasks slot).life = .alive (kernel.tasks slot).pid :=
        Task.life_alive.mpr ⟨by simp [waiting.1], by simp [waiting.1], rfl⟩
      rw [before]
      exact Task.life_alive.mpr ⟨by simp, by simp, rfl⟩
    · rfl

theorem newKernelTask_lives {kernel after : Kernel} {entry : Nat} {returned : Option Nat}
    (result : newKernelTask kernel entry = .ok (returned, after)) :
    LifeStep kernel (.newKernelTask entry) none after := by
  have notExit (code : Int) : KernelCall.newKernelTask entry ≠ .exit code := by simp
  have notWait (pid : Nat) : KernelCall.newKernelTask entry ≠ .waitFor pid := by simp
  rcases newKernelTask_cases result with ⟨_, _, rfl⟩ | ⟨pmm, _, _, rfl⟩ |
    ⟨chosen, phys0, phys1, pmm, free, _, _, rfl⟩
  · exact .same _ _ notExit notWait rfl rfl
  · exact .same _ _ notExit notWait rfl rfl
  · apply LifeStep.creates entry chosen _ (Task.life_empty.mpr (allocSlot_empty free)) ?_ rfl
    exact Kernel.lives_setTask kernel chosen (createdTask kernel entry phys0 phys1)

theorem prepare_lives {kernel : Kernel} {call : KernelCall} {prepared : Prepared}
    (running : (kernel.tasks kernel.current).state = .running)
    (result : prepare kernel call = .ok prepared) :
    LifeStep kernel call prepared.returned prepared.kernel := by
  have changes := prepare_changes running result
  have frame := prepare_frame result
  have plain (notExit : ∀ code, call ≠ .exit code) (notWait : ∀ pid, call ≠ .waitFor pid)
      (notNew : ∀ entry, call ≠ .newKernelTask entry) :
      LifeStep kernel call none prepared.kernel :=
    .same call _ notExit notWait
      (funext fun slot => (changes slot).life_same running notExit notWait notNew)
      (frame.nextPid notNew)
  cases call with
  | tick currentTick =>
      have returned : prepared.returned = none := by
        cases result
        unfold prepareTick
        dsimp only
        split <;> rfl
      rw [returned]
      exact plain (by simp) (by simp) (by simp)
  | yieldCpu =>
      cases result
      exact plain (by simp) (by simp) (by simp)
  | sleepMs ms =>
      cases result
      exact plain (by simp) (by simp) (by simp)
  | exit code =>
      obtain ⟨ended, terminated, rfl⟩ := prepare_exit result
      exact .exits code _ (exit_lives running terminated) (frame.nextPid (by simp))
  | waitFor pid =>
      cases result
      exact prepareWaitFor_lives pid running
  | newKernelTask entry =>
      obtain ⟨returned, after, created, rfl⟩ := prepare_newKernelTask result
      exact newKernelTask_lives created

/-! ### Whole operations -/

theorem prepare_returned {kernel : Kernel} {call : KernelCall} {prepared : Prepared}
    (result : prepare kernel call = .ok prepared) {context : SavedContext}
    (calls : prepared.context = some context) : prepared.returned = none := by
  cases call with
  | tick currentTick =>
      cases result
      unfold prepareTick
      dsimp only
      split <;> rfl
  | yieldCpu =>
      cases result
      rfl
  | sleepMs ms =>
      cases result
      rfl
  | exit code =>
      obtain ⟨ended, _, rfl⟩ := prepare_exit result
      rfl
  | waitFor pid =>
      cases result
      unfold prepareWaitFor at calls ⊢
      cases found : findPid kernel pid with
      | none =>
          rw [found] at calls
          cases calls
      | some target =>
          rw [found] at calls
          dsimp only at calls ⊢
          split at calls
          · cases calls
          · rename_i alive
            rw [if_neg alive]
  | newKernelTask entry =>
      obtain ⟨_, _, _, rfl⟩ := prepare_newKernelTask result
      cases calls

theorem LifeStep.transport {kernel after later : Kernel} {call : KernelCall}
    {returned : Option Int} (step : LifeStep kernel call returned after)
    (lives : later.lives = after.lives) (nextPid : later.nextPid = after.nextPid) :
    LifeStep kernel call returned later := by
  cases step with
  | same _ _ notExit notWait same counter =>
      exact .same call later notExit notWait (lives.trans same) (nextPid.trans counter)
  | exits code _ same counter =>
      exact .exits code later (lives.trans same) (nextPid.trans counter)
  | missing pid _ none same counter =>
      exact .missing pid later none (lives.trans same) (nextPid.trans counter)
  | reaps pid code target _ ended same counter =>
      exact .reaps pid code target later ended (lives.trans same) (nextPid.trans counter)
  | blocks pid target _ alive same counter =>
      exact .blocks pid target later alive (lives.trans same) (nextPid.trans counter)
  | creates entry slot _ free same counter =>
      exact .creates entry slot later free (lives.trans same) (nextPid.trans counter)

/-- What `schedule`, or returning without it, leaves as the operation made it. -/
structure Carried (before after : Kernel) : Prop where
  lives : after.lives = before.lives
  created : ∀ slot, (after.tasks slot).state = .created → (before.tasks slot).state = .created
  stackBase : ∀ slot, (after.tasks slot).stackBase = (before.tasks slot).stackBase
  stackTop : ∀ slot, (after.tasks slot).stackTop = (before.tasks slot).stackTop
  nextPid : after.nextPid = before.nextPid
  pmm : after.pmm = before.pmm
  hhdmOffset : after.hhdmOffset = before.hhdmOffset
  running : (after.tasks after.current).state = .running

theorem Rescheduled.carried {before after : Kernel} (same : Rescheduled before after)
    (running : (after.tasks after.current).state = .running) : Carried before after where
  lives := same.lives
  created _ := (same.stopped_iff (by simp)).mp
  stackBase := same.stackBase
  stackTop := same.stackTop
  nextPid := same.nextPid
  pmm := same.pmm
  hhdmOffset := same.hhdmOffset
  running := running

theorem setRunning_carried {kernel : Kernel}
    (living : (kernel.tasks kernel.current).state ≠ .empty ∧
      (kernel.tasks kernel.current).state ≠ .terminated) :
    Carried kernel (kernel.setState kernel.current .running) := by
  have task (slot : Slot) : ∃ state, (kernel.setState kernel.current .running).tasks slot =
      { kernel.tasks slot with state := state } ∧
        (state = .created → (kernel.tasks slot).state = .created) := by
    by_cases caller : slot = kernel.current
    · subst caller
      exact ⟨.running, Function.update_self .., by simp⟩
    · exact ⟨(kernel.tasks slot).state, Function.update_of_ne caller .., id⟩
  exact
    { lives := Kernel.lives_setTask_alive living (by simp) rfl
      created := fun slot => by
        obtain ⟨state, same, before⟩ := task slot
        rw [same]
        exact before
      stackBase := fun slot => by
        obtain ⟨state, same, _⟩ := task slot
        rw [same]
      stackTop := fun slot => by
        obtain ⟨state, same, _⟩ := task slot
        rw [same]
      nextPid := rfl
      pmm := rfl
      hhdmOffset := rfl
      running := by simp [Kernel.setState, Kernel.setTask] }

theorem finish_carried {kernel : Kernel} {call : KernelCall} {prepared : Prepared}
    {performed : Performed} (running : (kernel.tasks kernel.current).state = .running)
    (prepares : prepare kernel call = .ok prepared) (finished : finish prepared = .ok performed) :
    Carried prepared.kernel performed.kernel ∧ performed.returned = prepared.returned := by
  rcases finish_cases (prepare_returns running prepares) finished with outcome |
    ⟨context, calls, notExit, _, rfl⟩
  · cases outcome with
    | returned _ stillRunning => exact ⟨(Rescheduled.refl _).carried stillRunning, rfl⟩
    | itself context calls selectable _ =>
        refine ⟨(setRunning_rescheduled selectable).carried ?_,
          (prepare_returned prepares calls).symm⟩
        simp [Kernel.setState, Kernel.setTask]
    | switched context next calls _ ready _ =>
        refine ⟨(switchTo_rescheduled context ready).carried ?_,
          (prepare_returned prepares calls).symm⟩
        simp [switchTo]
  · have leaving := prepare_leaves running prepares calls
    refine ⟨setRunning_carried ?_, (prepare_returned prepares calls).symm⟩
    cases call with
    | exit code => exact absurd leaving.1 notExit
    | newKernelTask entry => exact absurd leaving id
    | tick _ => simp [leaving.2]
    | yieldCpu => simp [leaving.2]
    | sleepMs _ => simp [leaving.2]
    | waitFor _ => simp [leaving.2]

theorem perform_prepared {kernel : Kernel} {call : KernelCall} {performed : Performed}
    (running : (kernel.tasks kernel.current).state = .running)
    (result : perform kernel call = .ok performed) :
    ∃ prepared, prepare kernel call = .ok prepared ∧
      Carried prepared.kernel performed.kernel ∧ performed.returned = prepared.returned := by
  obtain ⟨prepared, prepares, finished⟩ := perform_halves result
  exact ⟨prepared, prepares, finish_carried running prepares finished⟩

theorem perform_lives {kernel : Kernel} {call : KernelCall} {performed : Performed}
    (running : (kernel.tasks kernel.current).state = .running)
    (result : perform kernel call = .ok performed) :
    LifeStep kernel call performed.returned performed.kernel ∧
      (performed.kernel.tasks performed.kernel.current).state = .running := by
  obtain ⟨prepared, prepares, carried, returned⟩ := perform_prepared running result
  rw [returned]
  exact ⟨(prepare_lives running prepares).transport carried.lives carried.nextPid,
    carried.running⟩

end CustomKernel.Multitask
