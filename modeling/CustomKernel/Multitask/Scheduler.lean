/-
The round-robin scheduler.

`schedule` puts a running caller back to ready, searches the ring of slots from the
one behind the caller, and switches to the first ready task.  The timer calls it
when a slice is used up; yielding, sleeping, waiting and exiting call it after
they have changed the caller's state.
-/

import CustomKernel.Multitask.Task

set_option autoImplicit false

namespace CustomKernel.Multitask

def TIME_SLICE_TICKS : Nat := 3

def TICKS_PER_SECOND : Nat := 100

inductive Scheduled where
  | notFound
  | itself
  | switched (next : Slot)
  deriving DecidableEq, Repr

/-- `schedule`, called with the context that `switch_to` would save. -/
def schedule (context : SavedContext) (kernel : Kernel) : Scheduled × Kernel :=
  let currIdx := kernel.current
  let kernel :=
    if (kernel.tasks currIdx).state = .running then kernel.setState currIdx .ready else kernel
  let isReady (slot : Slot) : Bool := (kernel.tasks slot).state = .ready
  match CyclicScan.scan isReady MAX_TASKS (CyclicScan.next currIdx) with
  | none =>
      (.notFound,
        if (kernel.tasks currIdx).state ≠ .running then kernel.setState currIdx .running
        else kernel)
  | some nextIdx =>
      if nextIdx = currIdx then (.itself, kernel.setState currIdx .running)
      else
        let kernel := { kernel with current := nextIdx }.setState nextIdx .running
        let kernel := { kernel with ticksOnCurrent := 0 }
        (.switched nextIdx, kernel.setTask currIdx { kernel.tasks currIdx with rsp := context })

/-- What an operation did: how `schedule` ended, if it was called, and the value
`wait_for` returned, if it did. -/
structure Performed where
  scheduled : Option Scheduled
  returned : Option Int
  kernel : Kernel

def reschedule (context : SavedContext) (kernel : Kernel) : Performed :=
  { scheduled := some (schedule context kernel).1
    returned := none
    kernel := (schedule context kernel).2 }

def tick (kernel : Kernel) (currentTick : Nat) : Performed :=
  let kernel := wakeSleepingTasks kernel currentTick
  let curr := kernel.tasks kernel.current
  let kernel := kernel.setTask kernel.current { curr with ticksRun := Word64.add curr.ticksRun 1 }
  let ticks := Word64.add kernel.ticksOnCurrent 1
  if TIME_SLICE_TICKS ≤ ticks then reschedule .tick { kernel with ticksOnCurrent := 0 }
  else { scheduled := none, returned := none, kernel := { kernel with ticksOnCurrent := ticks } }

def yieldCpu (kernel : Kernel) : Performed :=
  reschedule .yieldCpu (kernel.setState kernel.current .ready)

/-- The tick at which a sleep of `ms` milliseconds ends. -/
def wakeAt (kernel : Kernel) (ms : Nat) : Nat :=
  let ticksToWait := Word64.mul ms TICKS_PER_SECOND / 1000
  Word64.add kernel.tickCount (max ticksToWait 1)

def sleepMs (kernel : Kernel) (ms : Nat) : Performed :=
  reschedule .sleepMs (blockUntil kernel kernel.current (wakeAt kernel ms))

def wakeWaiter (ourPid : Nat) (code : Int) (task : Task) : Task :=
  if task.state = .blocked ∧ task.waitForPid = some ourPid then
    { task with state := .ready, waitForPid := none, exitCode := code }
  else task

def wakeWaiters (kernel : Kernel) (ourPid : Nat) (code : Int) : Kernel :=
  { kernel with tasks := fun slot => wakeWaiter ourPid code (kernel.tasks slot) }

/-- `exit` never returns; a `schedule` that does not switch away from it panics. -/
def exit (kernel : Kernel) (code : Int) : Except Panic Performed :=
  let ourPid := (kernel.tasks kernel.current).pid
  match terminate (wakeWaiters kernel ourPid code) kernel.current code with
  | .error panic => .error panic
  | .ok kernel =>
      match (schedule .exit kernel).1 with
      | .switched _ => .ok (reschedule .exit kernel)
      | .itself => .error .exitReturned
      | .notFound => .error .exitReturned

/-- One iteration of the loop of `wait_for`. -/
def waitFor (kernel : Kernel) (pid : Nat) : Performed :=
  match findPid kernel pid with
  | none => { scheduled := none, returned := some (-1), kernel := kernel }
  | some slot =>
      if (kernel.tasks slot).state = .terminated then
        { scheduled := none
          returned := some (kernel.tasks slot).exitCode
          kernel := kernel.setState slot .empty }
      else
        reschedule (.waitFor pid)
          (kernel.setTask kernel.current
            { kernel.tasks kernel.current with state := .blocked, waitForPid := some pid })

/-! ### Runs -/

/-- The atomic steps: a timer tick with its number, the calls of the current task,
with one step for each iteration of `wait_for`, and task creation. -/
inductive KernelCall where
  | tick (currentTick : Nat)
  | yieldCpu
  | sleepMs (ms : Nat)
  | exit (code : Int)
  | waitFor (pid : Nat)
  | newKernelTask (entry : Nat)
  deriving DecidableEq

def perform (kernel : Kernel) : KernelCall → Except Panic Performed
  | .tick currentTick => .ok (tick { kernel with tickCount := currentTick } currentTick)
  | .yieldCpu => .ok (yieldCpu kernel)
  | .sleepMs ms => .ok (sleepMs kernel ms)
  | .exit code => exit kernel code
  | .waitFor pid => .ok (waitFor kernel pid)
  | .newKernelTask entry =>
      match newKernelTask kernel entry with
      | .error panic => .error panic
      | .ok (_, kernel) => .ok { scheduled := none, returned := none, kernel := kernel }

/-- A panic halts the machine. -/
def kernelStep (kernel : Kernel) (call : KernelCall) : Option Kernel :=
  match perform kernel call with
  | .error _ => none
  | .ok performed => some performed.kernel

end CustomKernel.Multitask
