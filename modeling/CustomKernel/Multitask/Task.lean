/-
The task table.

Thirty-two slots hold the tasks; slot 0 is the idle task.  A task is created in
the lowest empty slot on a stack of two pages, sleeps or waits in the blocked
state, and is terminated with an exit code that stays in its slot until a waiter
reads it.  The saved stack pointer of a task is represented by the call it
returns into when it is loaded.
-/

import CustomKernel.Memory.Pmm
import CustomKernel.Foundation.CyclicScan
import Mathlib.Algebra.Group.Nat.Defs

set_option autoImplicit false

namespace CustomKernel.Multitask

open Memory

abbrev MAX_TASKS : Nat := 32

def STACK_PAGES : Nat := 2

def STACK_SIZE : Nat := STACK_PAGES * PAGE_SIZE

abbrev Slot := Fin MAX_TASKS

/-- The slot of the idle task. -/
abbrev idleSlot : Slot := 0

inductive TaskState where
  | empty
  | created
  | ready
  | running
  | blocked
  | terminated
  deriving DecidableEq, Repr

/-- Where a saved stack pointer continues: the entry function of a new task, or
inside the call of `schedule` that saved it. -/
inductive SavedContext where
  | null
  | fresh (entry : Nat)
  | tick
  | yieldCpu
  | sleepMs
  | exit
  | waitFor (pid : Nat)
  deriving DecidableEq, Repr

structure Task where
  rsp : SavedContext
  state : TaskState
  pid : Nat
  stackBase : Nat
  stackTop : Nat
  ticksRun : Nat
  sleepUntil : Nat
  waitForPid : Option Nat
  exitCode : Int

def Task.emptyTask : Task :=
  { rsp := .null
    state := .empty
    pid := 0
    stackBase := 0
    stackTop := 0
    ticksRun := 0
    sleepUntil := 0
    waitForPid := none
    exitCode := 0 }

/-- The statics of the task table and the scheduler, the tick counter, and the
page allocator the stacks come from. -/
structure Kernel where
  tasks : Slot → Task
  nextPid : Nat
  current : Slot
  ticksOnCurrent : Nat
  tickCount : Nat
  pmm : Pmm
  hhdmOffset : Nat

def Kernel.setTask (kernel : Kernel) (slot : Slot) (task : Task) : Kernel :=
  { kernel with tasks := Function.update kernel.tasks slot task }

def Kernel.setState (kernel : Kernel) (slot : Slot) (state : TaskState) : Kernel :=
  kernel.setTask slot { kernel.tasks slot with state := state }

def Kernel.zeroed (pmm : Pmm) (hhdmOffset : Nat) : Kernel :=
  { tasks := fun _ => Task.emptyTask
    nextPid := 1
    current := 0
    ticksOnCurrent := 0
    tickCount := 0
    pmm := pmm
    hhdmOffset := hhdmOffset }

def initTasks (kernel : Kernel) : Kernel :=
  { kernel.setTask 0 { kernel.tasks 0 with state := .running, pid := 0 } with
    current := 0
    nextPid := 1 }

/-! ### Creation -/

/-- `NEXT_PID` is a 32-bit word. -/
def allocPid (kernel : Kernel) : Nat × Kernel :=
  (kernel.nextPid, { kernel with nextPid := (kernel.nextPid + 1) % 2 ^ 32 })

def allocSlot (kernel : Kernel) : Option Slot :=
  (List.finRange MAX_TASKS).find? (fun slot => (kernel.tasks slot).state = .empty)

/-- The two pages of a stack; a lone first page is given back. -/
def allocStack (pmm : Pmm) : Except Panic (Option (Nat × Nat) × Pmm) :=
  match allocPage pmm with
  | (none, pmm) => .ok (none, pmm)
  | (some phys0, pmm) =>
      match allocPage pmm with
      | (none, pmm) =>
          match freePage pmm phys0 with
          | .error panic => .error panic
          | .ok pmm => .ok (none, pmm)
      | (some phys1, pmm) => .ok (some (phys0, phys1), pmm)

/-- `phys1 + PAGE_SIZE + hhdm` -/
def stackVirtTop (kernel : Kernel) (phys1 : Nat) : Nat :=
  Word64.add (Word64.add phys1 PAGE_SIZE) kernel.hhdmOffset

def newKernelTask (kernel : Kernel) (entry : Nat) : Except Panic (Option Nat × Kernel) :=
  match allocSlot kernel with
  | none => .ok (none, kernel)
  | some slot =>
      match allocStack kernel.pmm with
      | .error panic => .error panic
      | .ok (none, pmm) => .ok (none, { kernel with pmm := pmm })
      | .ok (some (phys0, phys1), pmm) =>
          let (pid, kernel) := allocPid { kernel with pmm := pmm }
          .ok (some pid, kernel.setTask slot
            { rsp := .fresh entry
              state := .ready
              pid := pid
              stackBase := phys0
              stackTop := stackVirtTop kernel phys1
              ticksRun := 0
              sleepUntil := 0
              waitForPid := none
              exitCode := 0 })

/-! ### Looking up, blocking, waking, ending -/

def findPid (kernel : Kernel) (pid : Nat) : Option Slot :=
  (List.finRange MAX_TASKS).find?
    (fun slot => (kernel.tasks slot).state ≠ .empty ∧ (kernel.tasks slot).pid = pid)

def blockUntil (kernel : Kernel) (slot : Slot) (wakeTick : Nat) : Kernel :=
  kernel.setTask slot { kernel.tasks slot with state := .blocked, sleepUntil := wakeTick }

def wakeSleeper (currentTick : Nat) (task : Task) : Task :=
  if task.state = .blocked ∧ task.sleepUntil ≠ 0 ∧ task.sleepUntil ≤ currentTick then
    { task with state := .ready, sleepUntil := 0 }
  else task

def wakeSleepingTasks (kernel : Kernel) (currentTick : Nat) : Kernel :=
  { kernel with tasks := fun slot => wakeSleeper currentTick (kernel.tasks slot) }

def terminate (kernel : Kernel) (slot : Slot) (exitCode : Int) : Except Panic Kernel :=
  let task := { kernel.tasks slot with state := .terminated, exitCode := exitCode }
  match freePage kernel.pmm task.stackBase with
  | .error panic => .error panic
  | .ok pmm => .ok { kernel.setTask slot task with pmm := pmm }

end CustomKernel.Multitask
