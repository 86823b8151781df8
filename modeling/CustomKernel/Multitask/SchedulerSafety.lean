/-
Scheduler safety.

Every operation takes a safe task table to a table in which `schedule` finds a
task, and `schedule` makes it safe again.  So in every run exactly the current slot
is running, the idle task is ready or running, pids in use differ, and a caller
that has blocked or ended is never run on.
-/

import CustomKernel.Foundation.LabelledRun
import CustomKernel.Multitask.Operations

set_option autoImplicit false

namespace CustomKernel.Multitask

open Memory

/-- The idle task never blocks or exits: an iteration of its `wait_for` returns. -/
def IdleStays (kernel : Kernel) : KernelCall → Prop
  | .sleepMs _ => kernel.current ≠ idleSlot
  | .exit _ => kernel.current ≠ idleSlot
  | .waitFor pid => kernel.current = idleSlot → (prepareWaitFor kernel pid).context = none
  | _ => True

/-- A creation comes before the pids run out: fewer than `2 ^ 32 - 1` succeed. -/
def PidsLeft (kernel : Kernel) : KernelCall → Prop
  | .newKernelTask _ => kernel.nextPid < 2 ^ 32 - 1
  | _ => True

def Allowed (kernel : Kernel) (call : KernelCall) : Prop :=
  IdleStays kernel call ∧ PidsLeft kernel call

instance (kernel : Kernel) : (call : KernelCall) → Decidable (IdleStays kernel call)
  | .tick _ => isTrue trivial
  | .yieldCpu => isTrue trivial
  | .sleepMs _ => inferInstanceAs (Decidable (kernel.current ≠ idleSlot))
  | .exit _ => inferInstanceAs (Decidable (kernel.current ≠ idleSlot))
  | .waitFor pid => inferInstanceAs
      (Decidable (kernel.current = idleSlot → (prepareWaitFor kernel pid).context = none))
  | .newKernelTask _ => isTrue trivial

instance (kernel : Kernel) : (call : KernelCall) → Decidable (PidsLeft kernel call)
  | .tick _ => isTrue trivial
  | .yieldCpu => isTrue trivial
  | .sleepMs _ => isTrue trivial
  | .exit _ => isTrue trivial
  | .waitFor _ => isTrue trivial
  | .newKernelTask _ => Nat.decLt kernel.nextPid (2 ^ 32 - 1)

instance (kernel : Kernel) (call : KernelCall) : Decidable (Allowed kernel call) :=
  inferInstanceAs (Decidable (IdleStays kernel call ∧ PidsLeft kernel call))

/-! ### Entering `schedule` -/

section prepare

variable {kernel : Kernel} {call : KernelCall} {prepared : Prepared}

theorem Safe.current_running (safe : Safe kernel) :
    (kernel.tasks kernel.current).state = .running :=
  (safe.running kernel.current).mpr rfl

theorem Safe.not_current {slot : Slot} (safe : Safe kernel)
    (notRunning : (kernel.tasks slot).state ≠ .running) : slot ≠ kernel.current := by
  rintro rfl
  exact notRunning safe.current_running

theorem prepare_ended (safe : Safe kernel) (result : prepare kernel call = .ok prepared)
    (slot : Slot) (other : slot ≠ prepared.kernel.current)
    (exited : (prepared.kernel.tasks slot).rsp = .exit) :
    (prepared.kernel.tasks slot).state = .terminated ∨
      (prepared.kernel.tasks slot).state = .empty := by
  rw [(prepare_frame result).current] at other
  have change := prepare_changes safe.current_running result slot
  generalize prepared.kernel.tasks slot = task at change exited ⊢
  cases change.elsewhere other with
  | kept _ ticksRun => exact safe.ended slot other exited
  | sleepEnds currentTick ticksRun blocked _ _ =>
      have stopped := safe.ended slot other exited
      rw [blocked] at stopped
      simp at stopped
  | waitEnds code blocked _ =>
      have stopped := safe.ended slot other exited
      rw [blocked] at stopped
      simp at stopped
  | reaped pid _ => exact Or.inr rfl
  | created entry phys0 phys1 _ => cases exited

theorem newKernelTask_pids {after : Kernel} {entry : Nat} {returned : Option Nat}
    (pids : Pids kernel) (room : kernel.nextPid < 2 ^ 32 - 1)
    (result : newKernelTask kernel entry = .ok (returned, after)) : Pids after := by
  rcases newKernelTask_cases result with ⟨_, _, rfl⟩ | ⟨pmm, _, _, rfl⟩ |
    ⟨chosen, phys0, phys1, pmm, _, _, _, rfl⟩
  · exact pids
  · exact pids.congr (fun _ => rfl) (fun _ empty => empty) rfl
  · have counter : (kernel.nextPid + 1) % 2 ^ 32 = kernel.nextPid + 1 :=
      Nat.mod_eq_of_lt (by omega)
    have new (slot : Slot) (used : (kernel.tasks slot).state ≠ .empty) :
        (kernel.tasks slot).pid ≠ kernel.nextPid :=
      Nat.ne_of_lt (pids.bounded slot used)
    refine { distinct := ?_, bounded := ?_, counter := ?_ }
    · intro left right leftUsed rightUsed same
      dsimp only at leftUsed rightUsed same
      by_cases leftNew : left = chosen
      · by_cases rightNew : right = chosen
        · rw [leftNew, rightNew]
        · rw [Function.update_of_ne rightNew] at rightUsed same
          rw [leftNew, Function.update_self] at same
          exact absurd same.symm (new right rightUsed)
      · rw [Function.update_of_ne leftNew] at leftUsed same
        by_cases rightNew : right = chosen
        · rw [rightNew, Function.update_self] at same
          exact absurd same (new left leftUsed)
        · rw [Function.update_of_ne rightNew] at rightUsed same
          exact pids.distinct left right leftUsed rightUsed same
    · intro slot used
      dsimp only at used ⊢
      rw [counter]
      by_cases here : slot = chosen
      · rw [here, Function.update_self]
        exact Nat.lt_succ_self _
      · rw [Function.update_of_ne here] at used ⊢
        exact Nat.lt_succ_of_lt (pids.bounded slot used)
    · dsimp only
      omega

theorem prepare_pids (safe : Safe kernel) (pids : Pids kernel) (left : PidsLeft kernel call)
    (result : prepare kernel call = .ok prepared) : Pids prepared.kernel := by
  by_cases creation : ∃ entry, call = .newKernelTask entry
  · obtain ⟨entry, rfl⟩ := creation
    obtain ⟨returned, after, created, rfl⟩ := prepare_newKernelTask result
    exact newKernelTask_pids pids left created
  · have notNew (entry : Nat) : call ≠ .newKernelTask entry :=
      fun same => creation ⟨entry, same⟩
    have kept := prepare_pid safe.current_running result notNew
    exact pids.congr (fun slot => (kept slot).1) (fun slot => (kept slot).2)
      ((prepare_frame result).nextPid notNew)

theorem prepare_entered (safe : Safe kernel) (stays : IdleStays kernel call)
    (result : prepare kernel call = .ok prepared) : Entered prepared.kernel := by
  have changes := prepare_changes safe.current_running result
  have current := (prepare_frame result).current
  refine { ended := prepare_ended safe result, others := ?_, idle := ?_ }
  · intro slot other running
    rw [current] at other
    have change := changes slot
    generalize prepared.kernel.tasks slot = task at change running
    cases change with
    | kept _ ticksRun => exact other ((safe.running slot).mp running)
    | _ => cases running
  · unfold Selectable
    rw [current]
    have change := changes 0
    generalize taskEq : prepared.kernel.tasks 0 = task at change ⊢
    have idle (state : TaskState) (held : (kernel.tasks 0).state = state)
        (neither : state ≠ .ready ∧ state ≠ .running) : False := by
      rcases safe.idle with ready | running
      · exact neither.1 (held.symm.trans ready)
      · exact neither.2 (held.symm.trans running)
    cases change with
    | kept _ ticksRun =>
        rcases safe.idle with ready | running
        · exact Or.inl ready
        · exact Or.inr ⟨(safe.running 0).mp running, running⟩
    | sleepEnds currentTick ticksRun _ _ _ => exact Or.inl rfl
    | waitEnds code _ _ _ => exact Or.inl rfl
    | yields caller => exact Or.inl rfl
    | sleeps ms caller => exact absurd caller.symm stays
    | exits code caller => exact absurd caller.symm stays
    | reaped pid ended _ => exact absurd (idle _ ended (by simp)) id
    | waits pid target caller _ _ _ =>
        have prepares : prepareWaitFor kernel pid = prepared := Except.ok.inj result
        have returns := stays caller.symm
        rw [prepares] at returns
        have runs := prepare_returns safe.current_running result returns
        rw [current, ← caller, taskEq] at runs
        cases runs
    | created entry phys0 phys1 free => exact Or.inl rfl

end prepare

/-! ### What one operation does -/

theorem finish_of_prepared {kernel : Kernel} {call : KernelCall} {prepared : Prepared}
    (safe : Safe kernel) (stays : IdleStays kernel call)
    (result : prepare kernel call = .ok prepared) :
    ∃ performed, finish prepared = .ok performed ∧ Outcome prepared performed := by
  have entered := prepare_entered safe stays result
  unfold finish
  cases calls : prepared.context with
  | none => exact ⟨_, rfl, .returned calls (prepare_returns safe.current_running result calls)⟩
  | some context =>
      have leaving := prepare_leaves safe.current_running result calls
      dsimp only
      rcases entered.schedule_found context with ⟨scheduled, selectable, alone⟩ |
        ⟨next, other, ready, scheduled, nearer⟩
      · have notExit : context ≠ .exit := by
          rintro rfl
          have terminated := leaving.exit
          rcases selectable with ready | ⟨_, running⟩
          · exact absurd (terminated.symm.trans ready) (by simp)
          · exact absurd (terminated.symm.trans running) (by simp)
        refine ⟨_, ?_, .itself context calls selectable alone⟩
        rw [reschedule, scheduled]
        cases context with
        | exit => exact absurd rfl notExit
        | _ => rfl
      · refine ⟨_, ?_, .switched context next calls other ready nearer⟩
        rw [reschedule, scheduled]
        cases context <;> rfl

/-- One operation: a change of the table, and then one of the three outcomes. -/
theorem perform_outcome {kernel : Kernel} {call : KernelCall} {performed : Performed}
    (safe : Safe kernel) (stays : IdleStays kernel call)
    (result : perform kernel call = .ok performed) :
    ∃ prepared, prepare kernel call = .ok prepared ∧ Entered prepared.kernel ∧
      Outcome prepared performed := by
  obtain ⟨prepared, prepares, finished⟩ := perform_halves result
  obtain ⟨same, finishes, outcome⟩ := finish_of_prepared safe stays prepares
  cases finishes.symm.trans finished
  exact ⟨prepared, prepares, prepare_entered safe stays prepares, outcome⟩

theorem freePage_not_exitReturned (pmm : Pmm) (phys : Nat) :
    freePage pmm phys ≠ .error .exitReturned := by
  unfold freePage
  split
  · simp
  · dsimp only
    split
    · simp
    · split <;> simp

theorem allocStack_not_exitReturned (pmm : Pmm) : allocStack pmm ≠ .error .exitReturned := by
  unfold allocStack
  split
  · simp
  · split
    · rename_i phys0 _ _ _ given _
      have freed := freePage_not_exitReturned given phys0
      cases result : freePage given phys0 with
      | error panic =>
          rw [result] at freed
          simpa using freed
      | ok _ => simp
    · simp

theorem prepare_not_exitReturned (kernel : Kernel) (call : KernelCall) :
    prepare kernel call ≠ .error .exitReturned := by
  unfold prepare
  cases call with
  | exit code =>
      have freed := freePage_not_exitReturned
        (wakeWaiters kernel (kernel.tasks kernel.current).pid code).pmm
        ((wakeWaiters kernel (kernel.tasks kernel.current).pid code).tasks
          kernel.current).stackBase
      unfold terminate
      dsimp only
      cases result : freePage _ _ with
      | error panic =>
          rw [result] at freed
          exact fun same => freed (congrArg Except.error (Except.error.inj same))
      | ok _ => simp
  | newKernelTask entry =>
      have allocated := allocStack_not_exitReturned kernel.pmm
      unfold newKernelTask
      cases allocSlot kernel with
      | none => simp
      | some slot =>
          dsimp only
          cases result : allocStack kernel.pmm with
          | error panic =>
              rw [result] at allocated
              exact fun same => allocated (congrArg Except.error (Except.error.inj same))
          | ok pair =>
              obtain ⟨pages, pmm⟩ := pair
              cases pages <;> simp
  | tick _ => simp
  | yieldCpu => simp
  | sleepMs _ => simp
  | waitFor _ => simp

theorem perform_not_exitReturned {kernel : Kernel} {call : KernelCall} (safe : Safe kernel)
    (stays : IdleStays kernel call) : perform kernel call ≠ .error .exitReturned := by
  rw [perform_eq]
  cases prepares : prepare kernel call with
  | error panic =>
      rintro failed
      cases failed
      exact prepare_not_exitReturned kernel call prepares
  | ok prepared =>
      obtain ⟨performed, finished, _⟩ := finish_of_prepared safe stays prepares
      dsimp only
      rw [finished]
      simp

namespace Outcome

variable {prepared : Prepared} {performed : Performed}

theorem rescheduled (outcome : Outcome prepared performed) :
    Rescheduled prepared.kernel performed.kernel := by
  cases outcome with
  | returned _ _ => exact .refl _
  | itself context _ selectable _ => exact setRunning_rescheduled selectable
  | switched context next _ _ ready _ => exact switchTo_rescheduled context ready

theorem scheduled (outcome : Outcome prepared performed) :
    performed.scheduled ≠ some .notFound := by
  cases outcome <;> simp

theorem safe {kernel : Kernel} {call : KernelCall} (before : Safe kernel)
    (prepares : prepare kernel call = .ok prepared) (entered : Entered prepared.kernel)
    (outcome : Outcome prepared performed) : Safe performed.kernel := by
  cases outcome with
  | returned _ running => exact entered.safe_of_running running
  | itself context _ selectable _ => exact entered.setRunning_safe selectable
  | switched context next calls other ready _ =>
      apply entered.switchTo_safe ready
      rintro rfl
      exact (prepare_leaves before.current_running prepares calls).exit

theorem leaves (outcome : Outcome prepared performed)
    (stopped : (prepared.kernel.tasks prepared.kernel.current).state = .blocked ∨
      (prepared.kernel.tasks prepared.kernel.current).state = .terminated) :
    ∃ next, performed.scheduled = some (.switched next) := by
  cases outcome with
  | returned _ running =>
      rw [running] at stopped
      simp at stopped
  | itself context _ selectable _ =>
      rcases selectable with ready | ⟨_, running⟩
      · rw [ready] at stopped
        simp at stopped
      · rw [running] at stopped
        simp at stopped
  | switched context next _ _ _ _ => exact ⟨next, rfl⟩

end Outcome

theorem perform_of_kernelStep {kernel next : Kernel} {call : KernelCall}
    (stepped : kernelStep kernel call = some next) :
    ∃ performed, perform kernel call = .ok performed ∧ performed.kernel = next := by
  unfold kernelStep at stepped
  cases result : perform kernel call with
  | error panic =>
      rw [result] at stepped
      cases stepped
  | ok performed =>
      rw [result] at stepped
      cases stepped
      exact ⟨performed, rfl, rfl⟩

theorem kernelStep_safe {kernel next : Kernel} {call : KernelCall} (safe : Safe kernel)
    (stays : IdleStays kernel call) (stepped : kernelStep kernel call = some next) :
    Safe next := by
  obtain ⟨performed, result, rfl⟩ := perform_of_kernelStep stepped
  obtain ⟨prepared, prepares, entered, outcome⟩ := perform_outcome safe stays result
  exact outcome.safe safe prepares entered

theorem kernelStep_pids {kernel next : Kernel} {call : KernelCall} (safe : Safe kernel)
    (pids : Pids kernel) (allowed : Allowed kernel call)
    (stepped : kernelStep kernel call = some next) : Pids next := by
  obtain ⟨performed, result, rfl⟩ := perform_of_kernelStep stepped
  obtain ⟨prepared, prepares, entered, outcome⟩ := perform_outcome safe allowed.1 result
  exact (prepare_pids safe pids allowed.2 prepares).rescheduled outcome.rescheduled

def booted (pmm : Pmm) (hhdmOffset : Nat) : Kernel :=
  initTasks (Kernel.zeroed pmm hhdmOffset)

theorem booted_idle (pmm : Pmm) (hhdmOffset : Nat) :
    (booted pmm hhdmOffset).tasks 0 = { Task.emptyTask with state := .running } := by
  simp [booted, initTasks, Kernel.setTask, Kernel.zeroed, Task.emptyTask]

theorem booted_rest (pmm : Pmm) (hhdmOffset : Nat) {slot : Slot} (other : slot ≠ 0) :
    (booted pmm hhdmOffset).tasks slot = Task.emptyTask :=
  Function.update_of_ne other ..

theorem booted_used {pmm : Pmm} {hhdmOffset : Nat} {slot : Slot}
    (used : ((booted pmm hhdmOffset).tasks slot).state ≠ .empty) : slot = 0 := by
  by_contra other
  rw [booted_rest pmm hhdmOffset other] at used
  exact used rfl

theorem booted_safe (pmm : Pmm) (hhdmOffset : Nat) : Safe (booted pmm hhdmOffset) where
  running slot := by
    constructor
    · intro running
      apply @booted_used pmm hhdmOffset
      rw [running]
      simp
    · rintro rfl
      exact congrArg Task.state (booted_idle pmm hhdmOffset)
  idle := Or.inr (congrArg Task.state (booted_idle pmm hhdmOffset))
  ended slot other exited := by
    rw [booted_rest pmm hhdmOffset other] at exited
    cases exited

theorem booted_pids (pmm : Pmm) (hhdmOffset : Nat) : Pids (booted pmm hhdmOffset) where
  distinct left right leftUsed rightUsed _ := by
    rw [booted_used leftUsed, booted_used rightUsed]
  bounded slot used := by
    rw [booted_used used, booted_idle]
    exact Nat.zero_lt_one
  counter := Nat.one_lt_two_pow (by simp)

theorem exec_safe_pids {kernel reached : Kernel} {calls : List KernelCall}
    (safe : Safe kernel) (pids : Pids kernel)
    (allowed : LabelledRun.Guarded kernelStep Allowed kernel calls)
    (run : LabelledRun.exec kernelStep kernel calls = some reached) :
    Safe reached ∧ Pids reached :=
  @LabelledRun.exec_invariant_of_guarded _ _ kernelStep (fun kernel => Safe kernel ∧ Pids kernel)
    Allowed
    (fun _ _ _ both allowed stepped =>
      ⟨kernelStep_safe both.1 allowed.1 stepped, kernelStep_pids both.1 both.2 allowed stepped⟩)
    _ _ _ ⟨safe, pids⟩ allowed run

/-! ### Nobody is resurrected -/

def Woken (kernel : Kernel) (slot : Slot) : KernelCall → Prop
  | .tick currentTick =>
      (kernel.tasks slot).sleepUntil ≠ 0 ∧ (kernel.tasks slot).sleepUntil ≤ currentTick
  | .exit _ => (kernel.tasks slot).waitForPid = some (kernel.tasks kernel.current).pid
  | _ => False

theorem perform_blocked {kernel : Kernel} {call : KernelCall} {performed : Performed}
    (safe : Safe kernel) (stays : IdleStays kernel call)
    (result : perform kernel call = .ok performed) (slot : Slot)
    (blocked : (kernel.tasks slot).state = .blocked) :
    (performed.kernel.tasks slot).state = .blocked ∨ Woken kernel slot call := by
  obtain ⟨prepared, prepares, entered, outcome⟩ := perform_outcome safe stays result
  have same := outcome.rescheduled
  have change := prepare_changes safe.current_running prepares slot
  have stays (state : (prepared.kernel.tasks slot).state = .blocked) :
      (performed.kernel.tasks slot).state = .blocked :=
    (same.stopped slot (by simp [state]) (by simp [state])).trans state
  have notCaller := safe.not_current (by rw [blocked]; simp)
  generalize prepared.kernel.tasks slot = task at change stays
  cases change.elsewhere notCaller with
  | kept _ ticksRun => exact Or.inl (stays blocked)
  | sleepEnds currentTick ticksRun _ sleeps due => exact Or.inr ⟨sleeps, due⟩
  | waitEnds code _ waits => exact Or.inr waits
  | reaped pid ended =>
      rw [blocked] at ended
      cases ended
  | created entry phys0 phys1 free =>
      rw [blocked] at free
      cases free

theorem perform_terminated {kernel : Kernel} {call : KernelCall} {performed : Performed}
    (safe : Safe kernel) (stays : IdleStays kernel call)
    (result : perform kernel call = .ok performed) (slot : Slot)
    (terminated : (kernel.tasks slot).state = .terminated) :
    (performed.kernel.tasks slot).state = .terminated ∨
      (performed.kernel.tasks slot).state = .empty := by
  obtain ⟨prepared, prepares, entered, outcome⟩ := perform_outcome safe stays result
  have same := outcome.rescheduled
  have change := prepare_changes safe.current_running prepares slot
  have stays {state : TaskState} (held : (prepared.kernel.tasks slot).state = state)
      (stopped : state ≠ .ready ∧ state ≠ .running) :
      (performed.kernel.tasks slot).state = state :=
    (same.stopped slot (held ▸ stopped.1) (held ▸ stopped.2)).trans held
  have notCaller := safe.not_current (by rw [terminated]; simp)
  generalize prepared.kernel.tasks slot = task at change stays
  cases change.elsewhere notCaller with
  | kept _ ticksRun => exact Or.inl (stays terminated (by simp))
  | sleepEnds currentTick ticksRun blocked _ _ =>
      rw [terminated] at blocked
      cases blocked
  | waitEnds code blocked _ =>
      rw [terminated] at blocked
      cases blocked
  | reaped pid _ => exact Or.inr (stays rfl (by simp))
  | created entry phys0 phys1 free =>
      rw [terminated] at free
      cases free

def Stops : KernelCall → Option TaskState
  | .sleepMs _ => some .blocked
  | .exit _ => some .terminated
  | .waitFor _ => some .blocked
  | _ => none

theorem perform_stops {kernel : Kernel} {call : KernelCall} {performed : Performed}
    (safe : Safe kernel) (stays : IdleStays kernel call)
    (result : perform kernel call = .ok performed) {state : TaskState}
    (stops : Stops call = some state) (scheduled : performed.scheduled ≠ none) :
    (∃ next, performed.scheduled = some (.switched next)) ∧
      (performed.kernel.tasks kernel.current).state = state := by
  obtain ⟨prepared, prepares, entered, outcome⟩ := perform_outcome safe stays result
  cases context : prepared.context with
  | none =>
      cases outcome with
      | returned _ _ => exact absurd rfl scheduled
      | itself _ calls _ _ =>
          rw [context] at calls
          cases calls
      | switched _ _ calls _ _ _ =>
          rw [context] at calls
          cases calls
  | some saved =>
      have leaving := prepare_leaves safe.current_running prepares context
      have left : (prepared.kernel.tasks prepared.kernel.current).state = state ∧
          (state = .blocked ∨ state = .terminated) := by
        cases call with
        | sleepMs ms =>
            cases stops
            exact ⟨leaving.2, Or.inl rfl⟩
        | exit code =>
            cases stops
            exact ⟨leaving.2, Or.inr rfl⟩
        | waitFor pid =>
            cases stops
            exact ⟨leaving.2, Or.inl rfl⟩
        | tick _ => cases stops
        | yieldCpu => cases stops
        | newKernelTask _ => cases stops
      obtain ⟨held, stopped⟩ := left
      refine ⟨outcome.leaves (held ▸ stopped), ?_⟩
      rw [(prepare_frame prepares).current] at held
      rw [outcome.rescheduled.stopped kernel.current]
      · exact held
      · rintro ready
        rw [held] at ready
        rw [ready] at stopped
        simp at stopped
      · rintro running
        rw [held] at running
        rw [running] at stopped
        simp at stopped

theorem perform_resumes {kernel : Kernel} {call : KernelCall} {performed : Performed}
    (safe : Safe kernel) (stays : IdleStays kernel call)
    (result : perform kernel call = .ok performed) {next : Slot}
    (switched : performed.scheduled = some (.switched next)) :
    (performed.kernel.tasks next).rsp ≠ .exit := by
  obtain ⟨prepared, prepares, entered, outcome⟩ := perform_outcome safe stays result
  cases outcome with
  | returned _ _ => cases switched
  | itself _ _ _ _ => cases switched
  | switched context next' _ other ready _ =>
      cases switched
      intro exited
      simp only [switchTo, if_true] at exited
      have stopped := entered.ended next other exited
      rw [ready] at stopped
      simp at stopped

/-- Scheduler safety, in every reachable state and for every operation that follows. -/
theorem scheduler_safety {pmm : Pmm} {hhdmOffset : Nat} {calls : List KernelCall}
    {reached : Kernel}
    (allowed : LabelledRun.Guarded kernelStep Allowed (booted pmm hhdmOffset) calls)
    (run : LabelledRun.exec kernelStep (booted pmm hhdmOffset) calls = some reached) :
    (∀ slot, (reached.tasks slot).state = .running ↔ slot = reached.current) ∧
      ((reached.tasks 0).state = .ready ∨ (reached.tasks 0).state = .running) ∧
      (∀ left right, (reached.tasks left).state ≠ .empty → (reached.tasks right).state ≠ .empty →
        (reached.tasks left).pid = (reached.tasks right).pid → left = right) ∧
      ∀ call, Allowed reached call →
        perform reached call ≠ .error .exitReturned ∧
        ∀ performed, perform reached call = .ok performed →
          performed.scheduled ≠ some .notFound ∧
          (∀ slot, (reached.tasks slot).state = .blocked →
            (performed.kernel.tasks slot).state = .blocked ∨ Woken reached slot call) ∧
          (∀ slot, (reached.tasks slot).state = .terminated →
            (performed.kernel.tasks slot).state = .terminated ∨
              (performed.kernel.tasks slot).state = .empty) ∧
          (∀ state, Stops call = some state → performed.scheduled ≠ none →
            (∃ next, performed.scheduled = some (.switched next)) ∧
              (performed.kernel.tasks reached.current).state = state) ∧
          ∀ next, performed.scheduled = some (.switched next) →
            (performed.kernel.tasks next).rsp ≠ .exit := by
  obtain ⟨safe, pids⟩ := exec_safe_pids (booted_safe pmm hhdmOffset)
    (booted_pids pmm hhdmOffset) allowed run
  refine ⟨safe.running, safe.idle, pids.distinct, ?_⟩
  intro call callAllowed
  refine ⟨perform_not_exitReturned safe callAllowed.1, ?_⟩
  intro performed result
  obtain ⟨prepared, prepares, entered, outcome⟩ := perform_outcome safe callAllowed.1 result
  exact ⟨outcome.scheduled, perform_blocked safe callAllowed.1 result,
    perform_terminated safe callAllowed.1 result,
    fun _ => perform_stops safe callAllowed.1 result,
    fun _ => perform_resumes safe callAllowed.1 result⟩

def samplePmm : Pmm :=
  { bitmap := fun _ => 0#8
    bitmapPtr := 0
    bitmapLen := 8
    totalPages := 64
    freeCount := 64
    usablePage := 64 }

def sampleKernel : Kernel := booted samplePmm 0xffff800000000000

def sampleCalls : List KernelCall :=
  [.newKernelTask 0x1000, .newKernelTask 0x2000, .tick 1, .tick 2, .tick 3, .waitFor 2,
    .sleepMs 20, .tick 4, .tick 5, .yieldCpu, .exit 7, .tick 6, .yieldCpu, .waitFor 2]

theorem sampleKernel_safety :
    ∃ reached, LabelledRun.exec kernelStep sampleKernel sampleCalls = some reached ∧
      reached.current = 1 ∧
      ∀ slot, (reached.tasks slot).state = .running ↔ slot = reached.current := by
  have runs : (LabelledRun.exec kernelStep sampleKernel sampleCalls).isSome = true := by
    decide +kernel
  obtain ⟨reached, run⟩ := Option.isSome_iff_exists.mp runs
  have current : (LabelledRun.exec kernelStep sampleKernel sampleCalls).map Kernel.current =
      some 1 := by
    decide +kernel
  rw [run] at current
  exact ⟨reached, run, Option.some.inj current, (scheduler_safety (by decide +kernel) run).1⟩

end CustomKernel.Multitask
