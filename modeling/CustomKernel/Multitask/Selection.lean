/-
What `schedule` does.

One lemma lists its outcomes.  The idle task keeps every search from failing, so
a caller that is blocked or terminated is always left, and the table that results
is safe: the running slot is the current one, the idle task is ready or running,
and the pids in use differ.
-/

import CustomKernel.Multitask.Scheduler

set_option autoImplicit false

namespace CustomKernel.Multitask

open Memory

/-! ### What `schedule` does -/

def leave (context : SavedContext) (task : Task) : Task :=
  { task with
    rsp := context
    state := if task.state = .running then .ready else task.state }

def switchTo (context : SavedContext) (kernel : Kernel) (next : Slot) : Kernel :=
  { kernel with
    tasks := fun slot =>
      if slot = next then { kernel.tasks next with state := .running }
      else if slot = kernel.current then leave context (kernel.tasks kernel.current)
      else kernel.tasks slot
    current := next
    ticksOnCurrent := 0 }

theorem switchTo_other (context : SavedContext) {kernel : Kernel} {next slot : Slot}
    (notNext : slot ≠ next) (notCaller : slot ≠ kernel.current) :
    (switchTo context kernel next).tasks slot = kernel.tasks slot := by
  simp only [switchTo, notNext, notCaller, if_false]

def Selectable (kernel : Kernel) (slot : Slot) : Prop :=
  (kernel.tasks slot).state = .ready ∨
    slot = kernel.current ∧ (kernel.tasks slot).state = .running

def readied (kernel : Kernel) : Kernel :=
  if (kernel.tasks kernel.current).state = .running then kernel.setState kernel.current .ready
  else kernel

theorem readied_tasks (kernel : Kernel) (slot : Slot) :
    (readied kernel).tasks slot =
      if slot = kernel.current ∧ (kernel.tasks slot).state = .running then
        { kernel.tasks slot with state := .ready }
      else kernel.tasks slot := by
  unfold readied
  by_cases here : slot = kernel.current
  · subst here
    cases (kernel.tasks kernel.current).state <;> simp [Kernel.setState, Kernel.setTask]
  · have elsewhere : ¬(slot = kernel.current ∧ (kernel.tasks slot).state = .running) :=
      fun both => here both.1
    rw [if_neg elsewhere]
    split
    · exact Function.update_of_ne here ..
    · rfl

theorem readied_ready_iff (kernel : Kernel) (slot : Slot) :
    ((readied kernel).tasks slot).state = .ready ↔ Selectable kernel slot := by
  rw [readied_tasks]
  unfold Selectable
  split
  · rename_i both
    constructor
    · intro _
      exact Or.inr both
    · intro _
      rfl
  · rename_i other
    simp [other]

theorem readied_switched (context : SavedContext) (kernel : Kernel) {next : Slot}
    (other : next ≠ kernel.current) :
    ({ { readied kernel with current := next }.setState next .running with
        ticksOnCurrent := 0 }.setTask kernel.current
      { ({ readied kernel with current := next }.setState next .running).tasks kernel.current with
        rsp := context }) = switchTo context kernel next := by
  have current : kernel.current ≠ next := fun same => other same.symm
  have tasks : Function.update (Function.update (readied kernel).tasks next
        { (readied kernel).tasks next with state := .running }) kernel.current
        { (readied kernel).tasks kernel.current with rsp := context } =
      (switchTo context kernel next).tasks := by
    funext slot
    unfold switchTo leave
    by_cases caller : slot = kernel.current
    · subst caller
      rw [Function.update_self, readied_tasks]
      simp only [current, if_false, if_true, true_and]
      split <;> rfl
    · rw [Function.update_of_ne caller]
      by_cases chosen : slot = next
      · subst chosen
        rw [Function.update_self, readied_tasks, if_neg (fun both => caller both.1)]
        simp only [if_true]
      · rw [Function.update_of_ne chosen, readied_tasks, if_neg (fun both => caller both.1)]
        simp only [chosen, caller, if_false]
  unfold Kernel.setState Kernel.setTask
  simp only [Function.update_of_ne current]
  rw [tasks]
  unfold readied
  split <;> rfl

theorem schedule_eq (context : SavedContext) (kernel : Kernel) :
    schedule context kernel =
      match CyclicScan.scan (fun slot => decide (((readied kernel).tasks slot).state = .ready))
          MAX_TASKS (CyclicScan.next kernel.current) with
      | none =>
          (.notFound,
            if ((readied kernel).tasks kernel.current).state ≠ .running then
              (readied kernel).setState kernel.current .running
            else readied kernel)
      | some nextIdx =>
          if nextIdx = kernel.current then
            (.itself, (readied kernel).setState kernel.current .running)
          else
            let kernel' := { readied kernel with current := nextIdx }.setState nextIdx .running
            let kernel' := { kernel' with ticksOnCurrent := 0 }
            (.switched nextIdx, kernel'.setTask kernel.current
              { kernel'.tasks kernel.current with rsp := context }) :=
  rfl

/-- Everything `schedule` can do. -/
theorem schedule_cases (context : SavedContext) (kernel : Kernel) :
    (schedule context kernel = (.notFound, kernel.setState kernel.current .running) ∧
      ∀ slot, ¬ Selectable kernel slot) ∨
    (schedule context kernel = (.itself, kernel.setState kernel.current .running) ∧
      Selectable kernel kernel.current ∧
      ∀ slot, slot ≠ kernel.current → (kernel.tasks slot).state ≠ .ready) ∨
    ∃ next, next ≠ kernel.current ∧ (kernel.tasks next).state = .ready ∧
      schedule context kernel = (.switched next, switchTo context kernel next) ∧
      ∀ slot, slot ≠ kernel.current → (kernel.tasks slot).state = .ready →
        CyclicScan.distance next slot < CyclicScan.distance kernel.current slot := by
  have unready (slot : Slot) (other : slot ≠ kernel.current)
      (ready : (kernel.tasks slot).state = .ready) :
      decide (((readied kernel).tasks slot).state = .ready) = true :=
    decide_eq_true ((readied_ready_iff kernel slot).mpr (Or.inl ready))
  rw [schedule_eq]
  cases search : CyclicScan.scan
      (fun slot => decide (((readied kernel).tasks slot).state = .ready)) MAX_TASKS
      (CyclicScan.next kernel.current) with
  | none =>
      have nobody (slot : Slot) : ¬ Selectable kernel slot := by
        intro selectable
        have absent := of_decide_eq_false (CyclicScan.scan_all_none search slot)
        exact absent ((readied_ready_iff kernel slot).mpr selectable)
      have notRunning : (kernel.tasks kernel.current).state ≠ .running :=
        fun running => nobody kernel.current (Or.inr ⟨rfl, running⟩)
      have unchanged : readied kernel = kernel := if_neg notRunning
      refine Or.inl ⟨?_, nobody⟩
      dsimp only
      rw [unchanged, if_pos notRunning]
  | some next =>
      have accepted := of_decide_eq_true (CyclicScan.scan_some search).1
      have selectable := (readied_ready_iff kernel next).mp accepted
      by_cases here : next = kernel.current
      · refine Or.inr (Or.inl ⟨?_, here ▸ selectable, ?_⟩)
        · simp only [if_pos here, Prod.mk.injEq, true_and]
          unfold readied
          split
          · simp [Kernel.setState, Kernel.setTask]
          · rfl
        · intro slot other ready
          exact (CyclicScan.scan_nearer search (unready slot other ready)
            (fun same => other same.symm)).1 here
      · have ready : (kernel.tasks next).state = .ready := by
          rcases selectable with ready | ⟨same, _⟩
          · exact ready
          · exact absurd same here
        refine Or.inr (Or.inr ⟨next, here, ready, ?_, ?_⟩)
        · simp only [if_neg here, Prod.mk.injEq, true_and]
          exact readied_switched context kernel here
        · intro slot other slotReady
          exact (CyclicScan.scan_nearer search (unready slot other slotReady)
            (fun same => other same.symm)).2

/-! ### The invariant -/

structure Safe (kernel : Kernel) : Prop where
  ended : ∀ slot, slot ≠ kernel.current → (kernel.tasks slot).rsp = .exit →
    (kernel.tasks slot).state = .terminated ∨ (kernel.tasks slot).state = .empty
  running : ∀ slot, (kernel.tasks slot).state = .running ↔ slot = kernel.current
  idle : (kernel.tasks 0).state = .ready ∨ (kernel.tasks 0).state = .running

/-- What holds when `schedule` is entered: no other slot runs, and the idle task
can be selected. -/
structure Entered (kernel : Kernel) : Prop where
  ended : ∀ slot, slot ≠ kernel.current → (kernel.tasks slot).rsp = .exit →
    (kernel.tasks slot).state = .terminated ∨ (kernel.tasks slot).state = .empty
  others : ∀ slot, slot ≠ kernel.current → (kernel.tasks slot).state ≠ .running
  idle : Selectable kernel 0

/-- The pids in use differ, and the counter is past them. -/
structure Pids (kernel : Kernel) : Prop where
  distinct : ∀ left right, (kernel.tasks left).state ≠ .empty →
    (kernel.tasks right).state ≠ .empty →
    (kernel.tasks left).pid = (kernel.tasks right).pid → left = right
  bounded : ∀ slot, (kernel.tasks slot).state ≠ .empty → (kernel.tasks slot).pid < kernel.nextPid
  counter : kernel.nextPid < 2 ^ 32

/-- `after` differs from `before` in saved contexts and in which of the ready tasks
run, and in nothing else of the table. -/
structure Rescheduled (before after : Kernel) : Prop where
  pid : ∀ slot, (after.tasks slot).pid = (before.tasks slot).pid
  stackBase : ∀ slot, (after.tasks slot).stackBase = (before.tasks slot).stackBase
  stackTop : ∀ slot, (after.tasks slot).stackTop = (before.tasks slot).stackTop
  sleepUntil : ∀ slot, (after.tasks slot).sleepUntil = (before.tasks slot).sleepUntil
  waitForPid : ∀ slot, (after.tasks slot).waitForPid = (before.tasks slot).waitForPid
  exitCode : ∀ slot, (after.tasks slot).exitCode = (before.tasks slot).exitCode
  stopped : ∀ slot, (before.tasks slot).state ≠ .ready → (before.tasks slot).state ≠ .running →
    (after.tasks slot).state = (before.tasks slot).state
  able : ∀ slot, (before.tasks slot).state = .ready ∨ (before.tasks slot).state = .running →
    (after.tasks slot).state = .ready ∨ (after.tasks slot).state = .running
  nextPid : after.nextPid = before.nextPid
  tickCount : after.tickCount = before.tickCount
  pmm : after.pmm = before.pmm
  hhdmOffset : after.hhdmOffset = before.hhdmOffset

theorem rescheduled_of_tasks {before after : Kernel}
    (tasks : ∀ slot, ∃ rsp state, after.tasks slot =
        { before.tasks slot with rsp := rsp, state := state } ∧
      ((before.tasks slot).state ≠ .ready → (before.tasks slot).state ≠ .running →
        state = (before.tasks slot).state) ∧
      ((before.tasks slot).state = .ready ∨ (before.tasks slot).state = .running →
        state = .ready ∨ state = .running))
    (nextPid : after.nextPid = before.nextPid) (tickCount : after.tickCount = before.tickCount)
    (pmm : after.pmm = before.pmm) (hhdmOffset : after.hhdmOffset = before.hhdmOffset) :
    Rescheduled before after := by
  constructor
  case stopped =>
    intro slot notReady notRunning
    obtain ⟨rsp, state, same, kept, _⟩ := tasks slot
    rw [same]
    exact kept notReady notRunning
  case able =>
    intro slot able
    obtain ⟨rsp, state, same, _, kept⟩ := tasks slot
    rw [same]
    exact kept able
  case nextPid => exact nextPid
  case tickCount => exact tickCount
  case pmm => exact pmm
  case hhdmOffset => exact hhdmOffset
  all_goals
    intro slot
    obtain ⟨rsp, state, same, _⟩ := tasks slot
    rw [same]

theorem Rescheduled.refl (kernel : Kernel) : Rescheduled kernel kernel :=
  rescheduled_of_tasks (fun _ => ⟨_, _, rfl, fun _ _ => rfl, fun able => able⟩) rfl rfl rfl rfl

theorem switchTo_rescheduled (context : SavedContext) {kernel : Kernel} {next : Slot}
    (ready : (kernel.tasks next).state = .ready) :
    Rescheduled kernel (switchTo context kernel next) := by
  refine rescheduled_of_tasks ?_ rfl rfl rfl rfl
  intro slot
  unfold switchTo leave
  by_cases chosen : slot = next
  · subst chosen
    exact ⟨_, _, if_pos rfl, fun stopped _ => absurd ready stopped, fun _ => Or.inr rfl⟩
  · by_cases caller : slot = kernel.current
    · subst caller
      simp only [chosen, if_false, if_true]
      refine ⟨_, _, rfl, ?_, ?_⟩
      · intro _ notRunning
        rw [if_neg notRunning]
      · intro able
        split
        · exact Or.inl rfl
        · exact able
    · simp only [chosen, caller, if_false]
      exact ⟨_, _, rfl, fun _ _ => rfl, fun able => able⟩

theorem setRunning_rescheduled {kernel : Kernel} (selectable : Selectable kernel kernel.current) :
    Rescheduled kernel (kernel.setState kernel.current .running) := by
  refine rescheduled_of_tasks ?_ rfl rfl rfl rfl
  intro slot
  by_cases caller : slot = kernel.current
  · subst caller
    refine ⟨_, .running, Function.update_self .., ?_, fun _ => Or.inr rfl⟩
    intro notReady notRunning
    rcases selectable with ready | ⟨_, running⟩
    · exact absurd ready notReady
    · exact absurd running notRunning
  · exact ⟨_, _, Function.update_of_ne caller .., fun _ _ => rfl, fun able => able⟩

theorem Pids.congr {before after : Kernel} (pids : Pids before)
    (pid : ∀ slot, (after.tasks slot).pid = (before.tasks slot).pid)
    (empty : ∀ slot, (before.tasks slot).state = .empty → (after.tasks slot).state = .empty)
    (counter : after.nextPid = before.nextPid) : Pids after where
  distinct left right leftUsed rightUsed same := by
    apply pids.distinct left right (fun none => leftUsed (empty left none))
      (fun none => rightUsed (empty right none))
    rw [← pid left, ← pid right]
    exact same
  bounded slot used := by
    rw [pid slot, counter]
    exact pids.bounded slot (fun none => used (empty slot none))
  counter := by
    rw [counter]
    exact pids.counter

theorem Rescheduled.stopped_iff {before after : Kernel} (same : Rescheduled before after)
    {slot : Slot} {state : TaskState} (stopped : state ≠ .ready ∧ state ≠ .running) :
    (after.tasks slot).state = state ↔ (before.tasks slot).state = state := by
  by_cases able : (before.tasks slot).state = .ready ∨ (before.tasks slot).state = .running
  · have still := same.able slot able
    constructor
    · intro held
      rw [held] at still
      exact absurd still (not_or.mpr stopped)
    · intro held
      rw [held] at able
      exact absurd able (not_or.mpr stopped)
  · rw [not_or] at able
    rw [same.stopped slot able.1 able.2]

theorem Rescheduled.empty {before after : Kernel} (rescheduled : Rescheduled before after)
    (slot : Slot) (empty : (before.tasks slot).state = .empty) :
    (after.tasks slot).state = .empty :=
  (rescheduled.stopped_iff (by simp)).mpr empty

theorem Pids.rescheduled {before after : Kernel} (pids : Pids before)
    (rescheduled : Rescheduled before after) : Pids after :=
  pids.congr rescheduled.pid rescheduled.empty rescheduled.nextPid

namespace Entered

variable {kernel : Kernel}

theorem schedule_found (entered : Entered kernel) (context : SavedContext) :
    (schedule context kernel = (.itself, kernel.setState kernel.current .running) ∧
      Selectable kernel kernel.current ∧
      ∀ slot, slot ≠ kernel.current → (kernel.tasks slot).state ≠ .ready) ∨
    ∃ next, next ≠ kernel.current ∧ (kernel.tasks next).state = .ready ∧
      schedule context kernel = (.switched next, switchTo context kernel next) ∧
      ∀ slot, slot ≠ kernel.current → (kernel.tasks slot).state = .ready →
        CyclicScan.distance next slot < CyclicScan.distance kernel.current slot := by
  rcases Multitask.schedule_cases context kernel with ⟨_, nobody⟩ | found
  · exact absurd entered.idle (nobody 0)
  · exact found

theorem setRunning_safe (entered : Entered kernel)
    (selectable : Selectable kernel kernel.current) :
    Safe (kernel.setState kernel.current .running) := by
  have same := setRunning_rescheduled selectable
  have other (slot : Slot) (elsewhere : slot ≠ kernel.current) :
      (kernel.setState kernel.current .running).tasks slot = kernel.tasks slot :=
    Function.update_of_ne elsewhere ..
  have here : ((kernel.setState kernel.current .running).tasks kernel.current).state = .running := by
    simp [Kernel.setState, Kernel.setTask]
  refine { ended := ?_, running := ?_, idle := ?_ }
  · intro slot elsewhere
    rw [other slot elsewhere]
    exact entered.ended slot elsewhere
  · intro slot
    constructor
    · intro running
      by_contra elsewhere
      rw [other slot elsewhere] at running
      exact entered.others slot elsewhere running
    · intro caller
      rw [caller]
      exact here
  · rcases entered.idle with ready | ⟨_, running⟩
    · exact same.able 0 (Or.inl ready)
    · exact same.able 0 (Or.inr running)

theorem switchTo_safe (entered : Entered kernel) {context : SavedContext} {next : Slot}
    (ready : (kernel.tasks next).state = .ready)
    (leaving : context = .exit → (kernel.tasks kernel.current).state = .terminated) :
    Safe (switchTo context kernel next) := by
  have same := switchTo_rescheduled context ready
  refine { ended := ?_, running := ?_, idle := ?_ }
  · intro slot elsewhere exited
    have notNext : slot ≠ next := elsewhere
    simp only [switchTo, notNext, if_false] at exited ⊢
    by_cases caller : slot = kernel.current
    · subst caller
      simp only [if_true, leave] at exited ⊢
      have ended := leaving exited
      rw [ended]
      exact Or.inl rfl
    · simp only [caller, if_false] at exited ⊢
      exact entered.ended slot caller exited
  · intro slot
    simp only [switchTo]
    by_cases chosen : slot = next
    · simp [chosen]
    · by_cases caller : slot = kernel.current
      · subst caller
        simp only [chosen, if_false, if_true, leave, iff_false]
        split
        · simp
        · assumption
      · simp only [chosen, caller, if_false, iff_false]
        exact entered.others slot caller
  · rcases entered.idle with idle | ⟨_, running⟩
    · exact same.able 0 (Or.inl idle)
    · exact same.able 0 (Or.inr running)

theorem safe_of_running (entered : Entered kernel)
    (running : (kernel.tasks kernel.current).state = .running) : Safe kernel where
  ended := entered.ended
  running slot := by
    constructor
    · intro slotRunning
      by_contra other
      exact entered.others slot other slotRunning
    · rintro rfl
      exact running
  idle := by
    rcases entered.idle with ready | ⟨_, running⟩
    · exact Or.inl ready
    · exact Or.inr running

end Entered

end CustomKernel.Multitask
