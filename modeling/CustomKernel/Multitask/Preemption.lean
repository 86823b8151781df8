/-
Tasks, the timer and the interrupt controller.

IRQ0 comes while interrupts are on and none is in service; it clears the interrupt flag,
and `iretq` puts it back.  `schedule` may load another stack inside the handler, so what
is left of an interrupt is done by the task that was suspended in one: the end of
interrupt is sent when such a task goes on, not when the handler of the tick has switched.
-/

import CustomKernel.Multitask.SchedulerSafety
import CustomKernel.Multitask.Lives

set_option autoImplicit false

namespace CustomKernel.Multitask

open Memory

/-- The kernel, the interrupt flag of the processor and the in-service bit of IRQ0; for each
task the interrupt flag in its interrupt frame and the pid of the call of `wait_for` it is
in.  Beside these, the task that the last IRQ0 came to, and the interrupt flag that each
task has given itself: on at its entry, as it last set it, or as it was at its last call. -/
structure Board where
  kernel : Kernel
  enabled : Bool
  inService : Bool
  frames : Slot → Bool
  waiting : Slot → Option Nat
  interrupted : Slot
  own : Slot → Bool

inductive BoardEvent where
  | irq0
  | setInterrupts (on : Bool)
  | call (call : KernelCall)
  deriving DecidableEq

namespace Board

/-- `_start` behind its `sti` -/
def start (pmm : Pmm) (hhdmOffset : Nat) : Board :=
  { kernel := booted pmm hhdmOffset
    enabled := true
    inService := false
    frames := fun _ => false
    waiting := fun _ => none
    interrupted := idleSlot
    own := fun _ => true }

/-- A task inside `wait_for` goes on with its loop. -/
def Possible (board : Board) : BoardEvent → Prop
  | .irq0 => board.enabled = true ∧ board.inService = false
  | .setInterrupts _ => board.waiting board.kernel.current = none
  | .call (.tick _) => False
  | .call (.waitFor pid) => (board.waiting board.kernel.current).getD pid = pid
  | .call _ => board.waiting board.kernel.current = none

instance (board : Board) : (event : BoardEvent) → Decidable (board.Possible event)
  | .irq0 => inferInstanceAs (Decidable (_ ∧ _))
  | .setInterrupts _ => inferInstanceAs (Decidable (board.waiting board.kernel.current = none))
  | .call (.tick _) => isFalse id
  | .call (.waitFor pid) =>
      inferInstanceAs (Decidable ((board.waiting board.kernel.current).getD pid = pid))
  | .call .yieldCpu => inferInstanceAs (Decidable (board.waiting board.kernel.current = none))
  | .call (.sleepMs _) => inferInstanceAs (Decidable (board.waiting board.kernel.current = none))
  | .call (.exit _) => inferInstanceAs (Decidable (board.waiting board.kernel.current = none))
  | .call (.newKernelTask _) =>
      inferInstanceAs (Decidable (board.waiting board.kernel.current = none))

def deliver (board : Board) : Board :=
  { board with
    enabled := false
    inService := true
    frames := Function.update board.frames board.kernel.current board.enabled
    interrupted := board.kernel.current }

def endInterrupt (board : Board) : Board :=
  { board with
    enabled := board.frames board.kernel.current
    inService := false }

def setInterrupts (board : Board) (on : Bool) : Board :=
  { board with
    enabled := on
    own := Function.update board.own board.kernel.current on }

def waitingAfter (board : Board) (returned : Option Int) : KernelCall → Slot → Option Nat
  | .waitFor pid =>
      Function.update board.waiting board.kernel.current
        (if returned = none then some pid else none)
  | _ => board.waiting

/-- The `cli` at the start of a call; one iteration of `wait_for` is a call. -/
def enter (board : Board) (returned : Option Int) (call : KernelCall) : Board :=
  { board with
    enabled := false
    waiting := board.waitingAfter returned call
    own :=
      if board.waiting board.kernel.current = none then
        Function.update board.own board.kernel.current board.enabled
      else board.own }

theorem enter_own {board : Board} {returned : Option Int} {call : KernelCall}
    (idle : board.waiting board.kernel.current = none) :
    (board.enter returned call).own board.kernel.current = board.enabled := by
  simp [enter, idle]

/-- Only a `wait_for` that returns ends in `sti`. -/
def leaveCall (returned : Option Int) (board : Board) : Board :=
  { board with enabled := board.enabled || returned.isSome }

/-- The task that `switch_to` has loaded goes on where it was suspended. -/
def resume (board : Board) : Option Board :=
  match (board.kernel.tasks board.kernel.current).rsp with
  | .fresh _ => some { board with own := Function.update board.own board.kernel.current true }
  | .tick => some board.endInterrupt
  | .yieldCpu => some board
  | .sleepMs => some board
  | .waitFor _ => some board
  | .exit => none
  | .null => none

/-- The end of an operation, which is `back` if no other task was switched to. -/
def proceed (board : Board) (performed : Performed) (back : Board → Board) : Option Board :=
  match performed.scheduled with
  | some (.switched _) => resume { board with kernel := performed.kernel }
  | _ => some (back { board with kernel := performed.kernel })

def timerCall (board : Board) : KernelCall := .tick (Word64.add board.kernel.tickCount 1)

def step (board : Board) (event : BoardEvent) : Option Board :=
  if board.Possible event then
    match event with
    | .irq0 =>
        match perform board.kernel board.timerCall with
        | .error _ => none
        | .ok performed => board.deliver.proceed performed endInterrupt
    | .setInterrupts on => some (board.setInterrupts on)
    | .call (.newKernelTask entry) =>
        match perform board.kernel (.newKernelTask entry) with
        | .error _ => none
        | .ok performed => some { board with kernel := performed.kernel }
    | .call call =>
        match perform board.kernel call with
        | .error _ => none
        | .ok performed =>
            (board.enter performed.returned call).proceed performed
              (leaveCall performed.returned)
  else none

end Board

def ClearsFlag : KernelCall → Prop
  | .tick _ => False
  | .newKernelTask _ => False
  | _ => True

instance : (call : KernelCall) → Decidable (ClearsFlag call)
  | .tick _ => isFalse id
  | .newKernelTask _ => isFalse id
  | .yieldCpu => isTrue trivial
  | .sleepMs _ => isTrue trivial
  | .exit _ => isTrue trivial
  | .waitFor _ => isTrue trivial

/-! ### When `schedule` switches -/

def Reschedules (kernel : Kernel) : KernelCall → Prop
  | .tick _ => TIME_SLICE_TICKS ≤ Word64.add kernel.ticksOnCurrent 1
  | .waitFor pid =>
      ∃ slot, findPid kernel pid = some slot ∧ (kernel.tasks slot).state ≠ .terminated
  | .newKernelTask _ => False
  | _ => True

def Leaves (kernel : Kernel) (call : KernelCall) : Prop :=
  Reschedules kernel call ∧ ∃ slot, slot ≠ kernel.current ∧
    ((kernel.tasks slot).state = .ready ∨
      (kernel.tasks slot).state = .blocked ∧ Woken kernel slot call)

instance (kernel : Kernel) : (call : KernelCall) → Decidable (Reschedules kernel call)
  | .tick _ => Nat.decLe TIME_SLICE_TICKS (Word64.add kernel.ticksOnCurrent 1)
  | .yieldCpu => isTrue trivial
  | .sleepMs _ => isTrue trivial
  | .exit _ => isTrue trivial
  | .waitFor pid => inferInstanceAs (Decidable (∃ slot, findPid kernel pid = some slot ∧
      (kernel.tasks slot).state ≠ .terminated))
  | .newKernelTask _ => isFalse id

instance (kernel : Kernel) (slot : Slot) : (call : KernelCall) → Decidable (Woken kernel slot call)
  | .tick _ => inferInstanceAs (Decidable (_ ∧ _))
  | .exit _ => inferInstanceAs (Decidable ((kernel.tasks slot).waitForPid = _))
  | .yieldCpu => isFalse id
  | .sleepMs _ => isFalse id
  | .waitFor _ => isFalse id
  | .newKernelTask _ => isFalse id

instance (kernel : Kernel) (call : KernelCall) : Decidable (Leaves kernel call) :=
  inferInstanceAs (Decidable (_ ∧ _))

theorem Change.rsp {kernel : Kernel} {slot : Slot} {call : KernelCall} {task : Task}
    (change : Change kernel slot call task) :
    task.rsp = (kernel.tasks slot).rsp ∨ ∃ entry, task.rsp = .fresh entry := by
  cases change with
  | created entry phys0 phys1 _ => exact Or.inr ⟨entry, rfl⟩
  | _ => exact Or.inl rfl

section prepare

variable {kernel : Kernel} {call : KernelCall} {prepared : Prepared}

theorem prepare_reschedules (result : prepare kernel call = .ok prepared) :
    prepared.context ≠ none ↔ Reschedules kernel call := by
  cases call with
  | tick currentTick =>
      cases result
      unfold prepareTick
      dsimp only
      split
      · rename_i usedUp
        exact iff_of_true (by simp) usedUp
      · rename_i goesOn
        exact iff_of_false (by simp) goesOn
  | yieldCpu =>
      cases result
      simp [Reschedules]
  | sleepMs ms =>
      cases result
      simp [Reschedules]
  | exit code =>
      obtain ⟨ended, _, rfl⟩ := prepare_exit result
      simp [Reschedules]
  | waitFor pid =>
      cases result
      unfold prepareWaitFor Reschedules
      cases found : findPid kernel pid with
      | none => simp [found]
      | some slot =>
          dsimp only
          by_cases ended : (kernel.tasks slot).state = .terminated
          · rw [if_pos ended]
            simp [found, ended]
          · rw [if_neg ended]
            simp [found, ended]
  | newKernelTask entry =>
      obtain ⟨_, _, _, rfl⟩ := prepare_newKernelTask result
      simp [Reschedules]

theorem prepare_woken (running : (kernel.tasks kernel.current).state = .running)
    (result : prepare kernel call = .ok prepared) {slot : Slot}
    (other : slot ≠ kernel.current) (blocked : (kernel.tasks slot).state = .blocked)
    (woken : Woken kernel slot call) : (prepared.kernel.tasks slot).state = .ready := by
  cases call with
  | tick currentTick =>
      cases result
      obtain ⟨ticksRun, same⟩ := prepareTick_tasks kernel currentTick slot
      rw [same, wakeSleeper, if_pos ⟨blocked, woken⟩]
  | exit code =>
      obtain ⟨ended, terminated, rfl⟩ := prepare_exit result
      rw [exit_tasks running terminated slot, if_neg other, wakeWaiter, if_pos ⟨blocked, woken⟩]
  | yieldCpu => exact absurd woken id
  | sleepMs ms => exact absurd woken id
  | waitFor pid => exact absurd woken id
  | newKernelTask entry => exact absurd woken id

theorem prepare_ready_iff (running : (kernel.tasks kernel.current).state = .running)
    (result : prepare kernel call = .ok prepared) (reschedules : Reschedules kernel call)
    {slot : Slot} (other : slot ≠ kernel.current) :
    (prepared.kernel.tasks slot).state = .ready ↔
      (kernel.tasks slot).state = .ready ∨
        (kernel.tasks slot).state = .blocked ∧ Woken kernel slot call := by
  have change := prepare_changes running result slot
  have woken := @prepare_woken kernel call prepared running result slot other
  generalize prepared.kernel.tasks slot = task at change woken ⊢
  constructor
  · intro ready
    cases change.elsewhere other with
    | kept _ ticksRun => exact Or.inl ready
    | sleepEnds currentTick ticksRun blocked sleeps due =>
        exact Or.inr ⟨blocked, sleeps, due⟩
    | waitEnds code blocked waits => exact Or.inr ⟨blocked, waits⟩
    | reaped pid _ => cases ready
    | created entry phys0 phys1 _ => exact absurd reschedules id
  · rintro (ready | ⟨blocked, wakes⟩)
    · exact (change.elsewhere other).ready ready
    · exact woken blocked wakes

end prepare

section perform

variable {kernel : Kernel} {call : KernelCall} {performed : Performed}

/-- An operation switches exactly when it reaches `schedule` with another task ready. -/
theorem perform_switched_iff (running : (kernel.tasks kernel.current).state = .running)
    (result : perform kernel call = .ok performed) :
    (∃ next, performed.scheduled = some (.switched next)) ↔ Leaves kernel call := by
  rcases perform_halves result with ⟨prepared, prepares, finished⟩
  have reaches := prepare_reschedules prepares
  have current := (prepare_frame prepares).current
  have calm (calls : prepared.context ≠ none)
      (alone : ∀ slot, slot ≠ prepared.kernel.current →
        (prepared.kernel.tasks slot).state ≠ .ready) : ¬ Leaves kernel call := by
    rintro ⟨reschedules, slot, other, ready⟩
    exact alone slot (by rw [current]; exact other)
      ((prepare_ready_iff running prepares reschedules other).mpr ready)
  rcases finish_cases (prepare_returns running prepares) finished with outcome |
    ⟨context, calls, _, nobody, rfl⟩
  · cases outcome with
    | returned returns _ =>
        refine iff_of_false (by simp) ?_
        rintro ⟨reschedules, _⟩
        exact reaches.mpr reschedules returns
    | itself context calls _ alone =>
        exact iff_of_false (by simp) (calm (by simp [calls]) alone)
    | switched context next calls other ready _ =>
        have reschedules := reaches.mp (by simp [calls])
        rw [current] at other
        refine iff_of_true ⟨next, rfl⟩ ⟨reschedules, next, other, ?_⟩
        exact (prepare_ready_iff running prepares reschedules other).mp ready
  · refine iff_of_false (by simp) (calm (by simp [calls]) ?_)
    intro slot _ ready
    exact nobody slot (Or.inl ready)

theorem not_leaves_of_not_switched (running : (kernel.tasks kernel.current).state = .running)
    (result : perform kernel call = .ok performed)
    (notSwitched : ∀ slot, performed.scheduled ≠ some (.switched slot)) : ¬ Leaves kernel call := by
  intro leaves
  obtain ⟨slot, switched⟩ := (perform_switched_iff running result).mpr leaves
  exact notSwitched slot switched

theorem perform_stays (running : (kernel.tasks kernel.current).state = .running)
    (result : perform kernel call = .ok performed) (stays : ¬ Leaves kernel call) :
    performed.kernel.current = kernel.current ∧
      ∀ slot, (performed.kernel.tasks slot).rsp = (kernel.tasks slot).rsp ∨
        ∃ entry, (performed.kernel.tasks slot).rsp = .fresh entry := by
  rcases perform_halves result with ⟨prepared, prepares, finished⟩
  have current := (prepare_frame prepares).current
  have kept (slot : Slot) := (prepare_changes running prepares slot).rsp
  have setRunning (slot : Slot) :
      ((prepared.kernel.setState prepared.kernel.current .running).tasks slot).rsp =
        (prepared.kernel.tasks slot).rsp := by
    by_cases caller : slot = prepared.kernel.current
    · subst caller
      simp [Kernel.setState, Kernel.setTask]
    · simp [Kernel.setState, Kernel.setTask, caller]
  rcases finish_cases (prepare_returns running prepares) finished with outcome |
    ⟨context, calls, _, nobody, rfl⟩
  · cases outcome with
    | returned returns _ => exact ⟨current, kept⟩
    | itself context calls _ alone =>
        refine ⟨current, fun slot => ?_⟩
        rw [setRunning]
        exact kept slot
    | switched context next calls other ready _ =>
        exact absurd ((perform_switched_iff running result).mp ⟨next, rfl⟩) stays
  · refine ⟨current, fun slot => ?_⟩
    rw [setRunning]
    exact kept slot

theorem perform_switches (running : (kernel.tasks kernel.current).state = .running)
    (result : perform kernel call = .ok performed) {next : Slot}
    (switched : performed.scheduled = some (.switched next)) :
    performed.kernel.current = next ∧ next ≠ kernel.current ∧ performed.returned = none ∧
      (∃ state, Leaving (performed.kernel.tasks kernel.current).rsp state call) ∧
      ∀ slot, slot ≠ kernel.current →
        (performed.kernel.tasks slot).rsp = (kernel.tasks slot).rsp ∨
          ∃ entry, (performed.kernel.tasks slot).rsp = .fresh entry := by
  rcases perform_halves result with ⟨prepared, prepares, finished⟩
  have current := (prepare_frame prepares).current
  rcases finish_cases (prepare_returns running prepares) finished with outcome |
    ⟨context, calls, _, nobody, rfl⟩
  · cases outcome with
    | returned returns _ => cases switched
    | itself context calls _ alone => cases switched
    | switched context next' calls other ready _ =>
        cases switched
        have leaving := prepare_leaves running prepares calls
        rw [current] at other
        refine ⟨rfl, other, rfl, ⟨(prepared.kernel.tasks prepared.kernel.current).state, ?_⟩, ?_⟩
        · simp only [switchTo, current, Ne.symm other, if_false, if_true, leave]
          exact current ▸ leaving
        · intro slot notCaller
          have kept := (prepare_changes running prepares slot).rsp
          by_cases chosen : slot = next
          · simp only [switchTo, chosen, if_true]
            exact chosen ▸ kept
          · rw [switchTo_other context chosen (by rw [current]; exact notCaller)]
            exact kept
  · cases switched

end perform

/-! ### Steps of the board -/

namespace Board

variable {board next : Board} {event : BoardEvent}

theorem proceed_cases {performed : Performed} {back : Board → Board}
    (proceeds : board.proceed performed back = some next) :
    ((∀ slot, performed.scheduled ≠ some (.switched slot)) ∧
      next = back { board with kernel := performed.kernel }) ∨
    ∃ slot, performed.scheduled = some (.switched slot) ∧
      resume { board with kernel := performed.kernel } = some next := by
  unfold proceed at proceeds
  cases scheduled : performed.scheduled with
  | none =>
      rw [scheduled] at proceeds
      exact Or.inl ⟨by simp, (Option.some.inj proceeds).symm⟩
  | some how =>
      rw [scheduled] at proceeds
      cases how with
      | notFound => exact Or.inl ⟨by simp, (Option.some.inj proceeds).symm⟩
      | itself => exact Or.inl ⟨by simp, (Option.some.inj proceeds).symm⟩
      | switched slot => exact Or.inr ⟨slot, rfl, proceeds⟩

theorem step_cases (stepped : board.step event = some next) :
    (∃ on, event = .setInterrupts on ∧ board.waiting board.kernel.current = none ∧
      next = board.setInterrupts on) ∨
    (∃ entry performed, event = .call (.newKernelTask entry) ∧
      perform board.kernel (.newKernelTask entry) = .ok performed ∧
      next = { board with kernel := performed.kernel }) ∨
    (∃ performed, event = .irq0 ∧ board.enabled = true ∧ board.inService = false ∧
      perform board.kernel board.timerCall = .ok performed ∧
      board.deliver.proceed performed endInterrupt = some next) ∨
    ∃ call performed, event = .call call ∧ ClearsFlag call ∧ board.Possible (.call call) ∧
      perform board.kernel call = .ok performed ∧
      (board.enter performed.returned call).proceed performed
        (leaveCall performed.returned) = some next := by
  unfold step at stepped
  by_cases possible : board.Possible event
  · rw [if_pos possible] at stepped
    cases event with
    | setInterrupts on => exact Or.inl ⟨on, rfl, possible, (Option.some.inj stepped).symm⟩
    | irq0 =>
        dsimp only at stepped
        cases result : perform board.kernel board.timerCall with
        | error panic =>
            rw [result] at stepped
            cases stepped
        | ok performed =>
            rw [result] at stepped
            exact Or.inr (Or.inr (Or.inl
              ⟨performed, rfl, possible.1, possible.2, rfl, stepped⟩))
    | call call =>
        cases result : perform board.kernel call with
        | error panic => cases call <;> simp [result] at stepped
        | ok performed =>
            cases call with
            | tick currentTick => exact absurd possible id
            | newKernelTask entry =>
                dsimp only at stepped
                rw [result] at stepped
                exact Or.inr (Or.inl
                  ⟨entry, performed, rfl, result, (Option.some.inj stepped).symm⟩)
            | _ =>
                dsimp only at stepped
                rw [result] at stepped
                exact Or.inr (Or.inr (Or.inr
                  ⟨_, performed, rfl, trivial, possible, result, stepped⟩))
  · rw [if_neg possible] at stepped
    cases stepped

theorem resume_cases (resumes : board.resume = some next) :
    (∃ entry, (board.kernel.tasks board.kernel.current).rsp = .fresh entry ∧
      next = { board with own := Function.update board.own board.kernel.current true }) ∨
    ((board.kernel.tasks board.kernel.current).rsp = .tick ∧ next = board.endInterrupt) ∨
    ((board.kernel.tasks board.kernel.current).rsp ≠ .tick ∧
      (∀ entry, (board.kernel.tasks board.kernel.current).rsp ≠ .fresh entry) ∧
      next = board) := by
  unfold resume at resumes
  cases context : (board.kernel.tasks board.kernel.current).rsp with
  | fresh entry =>
      rw [context] at resumes
      exact Or.inl ⟨entry, rfl, (Option.some.inj resumes).symm⟩
  | tick =>
      rw [context] at resumes
      exact Or.inr (Or.inl ⟨rfl, (Option.some.inj resumes).symm⟩)
  | null =>
      rw [context] at resumes
      cases resumes
  | exit =>
      rw [context] at resumes
      cases resumes
  | _ =>
      rw [context] at resumes
      exact Or.inr (Or.inr ⟨by simp, by simp, (Option.some.inj resumes).symm⟩)

theorem not_leaves_newKernelTask (kernel : Kernel) (entry : Nat) :
    ¬ Leaves kernel (.newKernelTask entry) :=
  fun leaves => leaves.1

/-! ### No task runs with an interrupt in service -/

/-- A task that runs with IRQ0 in service is the one that the interrupt came to. -/
def Acknowledged (board : Board) : Prop :=
  board.inService = true → board.kernel.current = board.interrupted

/-- The tick does not use up the slice, or no other task is ready after its wake-ups. -/
def TickStays (board : Board) : BoardEvent → Prop
  | .irq0 => ¬ Leaves board.kernel board.timerCall
  | _ => True

instance (board : Board) : (event : BoardEvent) → Decidable (board.TickStays event)
  | .irq0 => inferInstanceAs (Decidable (¬ Leaves board.kernel board.timerCall))
  | .setInterrupts _ => isTrue trivial
  | .call _ => isTrue trivial

structure Quiet (board : Board) : Prop where
  running : (board.kernel.tasks board.kernel.current).state = .running
  ended : board.inService = false
  contexts : ∀ slot, (board.kernel.tasks slot).rsp ≠ .tick

theorem start_quiet (pmm : Pmm) (hhdmOffset : Nat) : (start pmm hhdmOffset).Quiet where
  running := (booted_safe pmm hhdmOffset).current_running
  ended := rfl
  contexts slot := by
    change ((booted pmm hhdmOffset).tasks slot).rsp ≠ .tick
    by_cases idle : slot = 0
    · rw [idle, booted_idle]
      simp [Task.emptyTask]
    · rw [booted_rest pmm hhdmOffset idle]
      simp [Task.emptyTask]

theorem not_tick_of_kept {old new : SavedContext} (kept : new = old ∨ ∃ entry, new = .fresh entry)
    (notTick : old ≠ .tick) : new ≠ .tick := by
  rcases kept with same | ⟨entry, fresh⟩
  · rw [same]
    exact notTick
  · rw [fresh]
    simp

theorem not_tick_of_leaving {context : SavedContext} {state : TaskState} {call : KernelCall}
    (clears : ClearsFlag call) (leaving : Leaving context state call) : context ≠ .tick := by
  cases call with
  | tick currentTick => exact absurd clears id
  | newKernelTask entry => exact absurd leaving id
  | _ =>
      rw [leaving.1]
      simp

theorem Quiet.step (quiet : board.Quiet) (stays : board.TickStays event)
    (stepped : board.step event = some next) : next.Quiet := by
  rcases step_cases stepped with ⟨on, _, _, rfl⟩ | ⟨entry, performed, _, result, rfl⟩ |
    ⟨performed, rfl, _, _, result, proceeds⟩ |
    ⟨call, performed, rfl, clears, _, result, proceeds⟩
  · exact ⟨quiet.running, quiet.ended, quiet.contexts⟩
  · have kept := perform_stays quiet.running result (not_leaves_newKernelTask _ entry)
    exact
      { running := (perform_lives quiet.running result).2
        ended := quiet.ended
        contexts := fun slot => not_tick_of_kept (kept.2 slot) (quiet.contexts slot) }
  · have kept := perform_stays quiet.running result stays
    rcases proceed_cases proceeds with ⟨_, rfl⟩ | ⟨slot, switched, _⟩
    · exact
        { running := (perform_lives quiet.running result).2
          ended := rfl
          contexts := fun slot => not_tick_of_kept (kept.2 slot) (quiet.contexts slot) }
    · exact absurd ((perform_switched_iff quiet.running result).mp ⟨slot, switched⟩) stays
  · have running := (perform_lives quiet.running result).2
    rcases proceed_cases proceeds with ⟨notSwitched, rfl⟩ | ⟨slot, switched, resumes⟩
    · have leavesNot := not_leaves_of_not_switched quiet.running result notSwitched
      have kept := perform_stays quiet.running result leavesNot
      exact
        { running := running
          ended := quiet.ended
          contexts := fun slot => not_tick_of_kept (kept.2 slot) (quiet.contexts slot) }
    · have switches := perform_switches quiet.running result switched
      have contexts (slot : Slot) : (performed.kernel.tasks slot).rsp ≠ .tick := by
        by_cases caller : slot = board.kernel.current
        · obtain ⟨state, leaving⟩ := switches.2.2.2.1
          rw [caller]
          exact not_tick_of_leaving clears leaving
        · exact not_tick_of_kept (switches.2.2.2.2 slot caller) (quiet.contexts slot)
      rcases resume_cases resumes with ⟨_, _, rfl⟩ | ⟨_, rfl⟩ | ⟨_, _, rfl⟩
      · exact ⟨running, quiet.ended, contexts⟩
      · exact ⟨running, rfl, contexts⟩
      · exact ⟨running, quiet.ended, contexts⟩

theorem Quiet.tickStays (quiet : board.Quiet) (stepped : board.step event = some next)
    (acknowledged : next.Acknowledged) : board.TickStays event := by
  rcases step_cases stepped with ⟨on, rfl, _, rfl⟩ | ⟨entry, performed, rfl, result, rfl⟩ |
    ⟨performed, rfl, _, _, result, proceeds⟩ |
    ⟨call, performed, rfl, clears, _, result, proceeds⟩
  · trivial
  · trivial
  · intro leaves
    obtain ⟨slot, switched⟩ := (perform_switched_iff quiet.running result).mpr leaves
    have switches := perform_switches quiet.running result switched
    have notTick : (performed.kernel.tasks performed.kernel.current).rsp ≠ .tick := by
      rw [switches.1]
      exact not_tick_of_kept (switches.2.2.2.2 slot switches.2.1) (quiet.contexts slot)
    have elsewhere : performed.kernel.current ≠ board.kernel.current := by
      rw [switches.1]
      exact switches.2.1
    rcases proceed_cases proceeds with ⟨notSwitched, _⟩ | ⟨_, _, resumes⟩
    · exact notSwitched slot switched
    · rcases resume_cases resumes with ⟨_, _, rfl⟩ | ⟨suspended, _⟩ | ⟨_, _, rfl⟩
      · exact elsewhere (acknowledged rfl)
      · exact notTick suspended
      · exact elsewhere (acknowledged rfl)
  · trivial

/-- In a run from boot no task runs with the timer interrupt of another one in service just
if no tick switches. -/
theorem no_tick_in_service_iff {pmm : Pmm} {hhdmOffset : Nat} {events : List BoardEvent}
    {reached : Board} (run : LabelledRun.exec step (start pmm hhdmOffset) events = some reached) :
    (∀ first second middle, events = first ++ second →
      LabelledRun.exec step (start pmm hhdmOffset) first = some middle → middle.Acknowledged) ↔
    LabelledRun.Guarded step TickStays (start pmm hhdmOffset) events :=
  LabelledRun.passed_iff_guarded (fun _ _ _ quiet stays stepped => quiet.step stays stepped)
    (fun _ quiet inService => absurd (quiet.ended.symm.trans inService) (by simp))
    (fun _ _ _ quiet stepped acknowledged => quiet.tickStays stepped acknowledged)
    (start_quiet pmm hhdmOffset) run

def sampleBoard : Board := start samplePmm 0xffff800000000000

/-- The slice of the idle task is used up while it is alone; then it creates a task and
yields to it, and that task turns interrupts on and sleeps. -/
def sampleEvents : List BoardEvent :=
  [.irq0, .irq0, .irq0, .call (.newKernelTask 0x1000), .irq0, .call .yieldCpu,
    .setInterrupts true, .irq0, .call (.sleepMs 20), .setInterrupts true, .irq0]

theorem sampleEvents_acknowledged :
    ∃ reached, LabelledRun.exec step sampleBoard sampleEvents = some reached ∧
      ∀ first second middle, sampleEvents = first ++ second →
        LabelledRun.exec step sampleBoard first = some middle → middle.Acknowledged := by
  have runs : (LabelledRun.exec step sampleBoard sampleEvents).isSome = true := by
    decide +kernel
  obtain ⟨reached, run⟩ := Option.isSome_iff_exists.mp runs
  exact ⟨reached, run, (no_tick_in_service_iff run).mpr (by decide +kernel)⟩

/-- The third tick enters the new task with the interrupt of the idle task in service, and
no other tick comes. -/
theorem fresh_task_with_tick_in_service :
    ∃ reached, LabelledRun.exec step sampleBoard
        [.call (.newKernelTask 0x1000), .irq0, .irq0, .irq0] = some reached ∧
      reached.inService = true ∧ reached.interrupted = 0 ∧ reached.kernel.current = 1 ∧
      reached.waiting 1 = none ∧ reached.step .irq0 = none := by
  have runs : (LabelledRun.exec step sampleBoard
        [.call (.newKernelTask 0x1000), .irq0, .irq0, .irq0]).map
      (fun reached => (reached.inService, reached.interrupted, reached.kernel.current,
        reached.waiting 1, (reached.step .irq0).isNone)) = some (true, 0, 1, none, true) := by
    decide +kernel
  obtain ⟨reached, run, same⟩ := Option.map_eq_some_iff.mp runs
  simp only [Prod.mk.injEq, Option.isNone_iff_eq_none] at same
  exact ⟨reached, run, same⟩

end Board

end CustomKernel.Multitask
