/-
The interrupt flag of a task.

`switch_to` does not save the interrupt flag, and every path to it clears the flag before.
So a task goes on with interrupts off, unless it was suspended in an interrupt or the
call it goes on in ends in `sti`.
-/

import CustomKernel.Multitask.Preemption

set_option autoImplicit false

namespace CustomKernel.Multitask

open Memory

/-! ### Tasks that have not run yet -/

def Newcomer (task : Task) : Prop := task.state = .empty ∨ ∃ entry, task.rsp = .fresh entry

theorem Change.newcomer {kernel : Kernel} {slot : Slot} {call : KernelCall} {task : Task}
    (change : Change kernel slot call task) (other : slot ≠ kernel.current)
    (newcomer : Newcomer (kernel.tasks slot)) : Newcomer task := by
  cases change.elsewhere other with
  | kept _ ticksRun => exact newcomer
  | sleepEnds currentTick ticksRun blocked _ _ =>
      rcases newcomer with empty | fresh
      · rw [empty] at blocked
        cases blocked
      · exact Or.inr fresh
  | waitEnds code blocked _ =>
      rcases newcomer with empty | fresh
      · rw [empty] at blocked
        cases blocked
      · exact Or.inr fresh
  | reaped pid _ => exact Or.inl rfl
  | created entry phys0 phys1 _ => exact Or.inr ⟨entry, rfl⟩

section perform

variable {kernel : Kernel} {call : KernelCall} {performed : Performed}

theorem perform_newcomers (running : (kernel.tasks kernel.current).state = .running)
    (newcomers : ∀ slot, slot ≠ kernel.current → Newcomer (kernel.tasks slot))
    (result : perform kernel call = .ok performed) (stays : ¬ Leaves kernel call) (slot : Slot)
    (other : slot ≠ kernel.current) : Newcomer (performed.kernel.tasks slot) := by
  rcases perform_halves result with ⟨prepared, prepares, finished⟩
  have changed := (prepare_changes running prepares slot).newcomer other (newcomers slot other)
  have untouched : (prepared.kernel.setState prepared.kernel.current .running).tasks slot =
      prepared.kernel.tasks slot := by
    apply Function.update_of_ne
    rw [(prepare_frame prepares).current]
    exact other
  rcases finish_cases (prepare_returns running prepares) finished with outcome |
    ⟨context, calls, _, nobody, rfl⟩
  · cases outcome with
    | returned returns _ => exact changed
    | itself context calls _ alone =>
        rw [untouched]
        exact changed
    | switched context next calls _ ready _ =>
        exact absurd ((perform_switched_iff running result).mp ⟨next, rfl⟩) stays
  · rw [untouched]
    exact changed

theorem perform_enters (running : (kernel.tasks kernel.current).state = .running)
    (newcomers : ∀ slot, slot ≠ kernel.current → Newcomer (kernel.tasks slot))
    (result : perform kernel call = .ok performed) {next : Slot}
    (switched : performed.scheduled = some (.switched next)) :
    ∃ entry, (performed.kernel.tasks performed.kernel.current).rsp = .fresh entry := by
  rcases perform_halves result with ⟨prepared, prepares, finished⟩
  rcases finish_cases (prepare_returns running prepares) finished with outcome |
    ⟨context, calls, _, nobody, rfl⟩
  · cases outcome with
    | returned returns _ => cases switched
    | itself context calls _ alone => cases switched
    | switched context chosen calls other ready _ =>
        rw [(prepare_frame prepares).current] at other
        have newcomer :=
          (prepare_changes running prepares chosen).newcomer other (newcomers chosen other)
        rcases newcomer with empty | ⟨entry, fresh⟩
        · rw [ready] at empty
          cases empty
        · refine ⟨entry, ?_⟩
          simp only [switchTo, if_true]
          exact fresh
  · cases switched

theorem perform_exit_switches {code : Int} (result : perform kernel (.exit code) = .ok performed) :
    ∃ next, performed.scheduled = some (.switched next) := by
  change exit kernel code = .ok performed at result
  unfold exit at result
  dsimp only at result
  split at result
  · cases result
  · rename_i ended _
    cases how : (schedule .exit ended).1 with
    | notFound =>
        rw [how] at result
        cases result
    | itself =>
        rw [how] at result
        cases result
    | switched next =>
        rw [how] at result
        cases result
        exact ⟨next, congrArg some how⟩

end perform

namespace Board

variable {board next : Board} {event : BoardEvent}

/-! ### The flag a task goes on with -/

theorem waitingAfter_other {returned : Option Int} {call : KernelCall}
    (outside : ∀ slot, slot ≠ board.kernel.current → board.waiting slot = none) (slot : Slot)
    (other : slot ≠ board.kernel.current) : board.waitingAfter returned call slot = none := by
  cases call with
  | waitFor pid =>
      exact (Function.update_of_ne other ..).trans (outside slot other)
  | _ => exact outside slot other

/-- The current task, in its own code, has interrupts on if it was entered since it last set
the flag or made a call, or set the flag or made the call with interrupts on. -/
def FlagKept (board : Board) : Prop :=
  board.waiting board.kernel.current = none → board.own board.kernel.current = true →
    board.enabled = true

def LeavesFlagOff : KernelCall → Prop
  | .yieldCpu => True
  | .sleepMs _ => True
  | _ => False

instance : (call : KernelCall) → Decidable (LeavesFlagOff call)
  | .tick _ => isFalse id
  | .yieldCpu => isTrue trivial
  | .sleepMs _ => isTrue trivial
  | .exit _ => isFalse id
  | .waitFor _ => isFalse id
  | .newKernelTask _ => isFalse id

/-- Nothing switches to another task, and a task yields or sleeps with interrupts off. -/
def KeepsFlag (board : Board) : BoardEvent → Prop
  | .irq0 => ¬ Leaves board.kernel board.timerCall
  | .setInterrupts _ => True
  | .call call => ¬ Leaves board.kernel call ∧ (LeavesFlagOff call → board.enabled = false)

instance (board : Board) : (event : BoardEvent) → Decidable (board.KeepsFlag event)
  | .irq0 => inferInstanceAs (Decidable (¬ Leaves board.kernel board.timerCall))
  | .setInterrupts _ => isTrue trivial
  | .call _ => inferInstanceAs (Decidable (_ ∧ _))

structure FirstTask (board : Board) : Prop where
  running : (board.kernel.tasks board.kernel.current).state = .running
  newcomers : ∀ slot, slot ≠ board.kernel.current → Newcomer (board.kernel.tasks slot)
  outside : ∀ slot, slot ≠ board.kernel.current → board.waiting slot = none
  kept : board.FlagKept

theorem start_firstTask (pmm : Pmm) (hhdmOffset : Nat) : (start pmm hhdmOffset).FirstTask where
  running := (booted_safe pmm hhdmOffset).current_running
  newcomers _ other := Or.inl (congrArg Task.state (booted_rest pmm hhdmOffset other))
  outside _ _ := rfl
  kept _ _ := rfl

theorem FirstTask.switched {call : KernelCall} {performed : Performed} {entered : Board}
    (first : board.FirstTask) (result : perform board.kernel call = .ok performed)
    (leaves : Leaves board.kernel call) (off : entered.enabled = false)
    (outside : ∀ slot, slot ≠ board.kernel.current → entered.waiting slot = none)
    {back : Board → Board} (proceeds : entered.proceed performed back = some next) :
    ¬ next.FlagKept := by
  obtain ⟨slot, switched⟩ := (perform_switched_iff first.running result).mpr leaves
  obtain ⟨entry, fresh⟩ := perform_enters first.running first.newcomers result switched
  have switches := perform_switches first.running result switched
  have elsewhere : performed.kernel.current ≠ board.kernel.current := by
    rw [switches.1]
    exact switches.2.1
  intro kept
  rcases proceed_cases proceeds with ⟨notSwitched, _⟩ | ⟨_, _, resumes⟩
  · exact notSwitched slot switched
  · rcases resume_cases resumes with ⟨_, _, rfl⟩ | ⟨suspended, _⟩ | ⟨_, notFresh, _⟩
    · have on := kept (outside _ elsewhere) (Function.update_self ..)
      exact absurd (off.symm.trans on) (by simp)
    · cases fresh.symm.trans suspended
    · exact notFresh entry fresh

theorem flagKept_leaveCall {call : KernelCall} {performed : Performed}
    (clears : ClearsFlag call) (possible : board.Possible (.call call))
    (result : perform board.kernel call = .ok performed)
    (stays : performed.kernel.current = board.kernel.current)
    (notSwitched : ∀ slot, performed.scheduled ≠ some (.switched slot))
    (off : LeavesFlagOff call → board.enabled = false) :
    (leaveCall performed.returned
      { board.enter performed.returned call with kernel := performed.kernel }).FlagKept := by
  intro outside own
  have made (idle : board.waiting board.kernel.current = none) :
      (board.enter performed.returned call).own performed.kernel.current = board.enabled := by
    rw [stays]
    exact enter_own idle
  cases call with
  | tick currentTick => exact absurd clears id
  | newKernelTask entry => exact absurd clears id
  | yieldCpu => exact absurd ((off trivial).symm.trans ((made possible).symm.trans own)) (by simp)
  | sleepMs ms => exact absurd ((off trivial).symm.trans ((made possible).symm.trans own)) (by simp)
  | exit code =>
      obtain ⟨slot, switched⟩ := perform_exit_switches result
      exact absurd switched (notSwitched slot)
  | waitFor pid =>
      cases returned : performed.returned with
      | some value => rfl
      | none =>
          change Function.update board.waiting board.kernel.current
            (if performed.returned = none then some pid else none) performed.kernel.current = none
            at outside
          rw [stays, Function.update_self, if_pos returned] at outside
          cases outside

theorem FirstTask.step (first : board.FirstTask) (keeps : board.KeepsFlag event)
    (stepped : board.step event = some next) : next.FirstTask := by
  rcases step_cases stepped with ⟨on, rfl, _, rfl⟩ | ⟨entry, performed, rfl, result, rfl⟩ |
    ⟨performed, rfl, on, _, result, proceeds⟩ |
    ⟨call, performed, rfl, clears, possible, result, proceeds⟩
  · exact
      { running := first.running
        newcomers := first.newcomers
        outside := first.outside
        kept := fun _ own => by
          change Function.update board.own board.kernel.current on board.kernel.current = true
            at own
          rw [Function.update_self] at own
          exact own }
  · have stays := perform_stays first.running result keeps.1
    have newcomers := perform_newcomers first.running first.newcomers result keeps.1
    have kept := first.kept
    unfold FlagKept at kept
    rw [← stays.1] at newcomers kept
    exact
      { running := (perform_lives first.running result).2
        newcomers := newcomers
        outside := by
          rw [stays.1]
          exact first.outside
        kept := kept }
  · have stays := perform_stays first.running result keeps
    have newcomers := perform_newcomers first.running first.newcomers result keeps
    rcases proceed_cases proceeds with ⟨_, rfl⟩ | ⟨slot, switched, _⟩
    · rw [← stays.1] at newcomers
      exact
        { running := (perform_lives first.running result).2
          newcomers := newcomers
          outside := by
            change ∀ slot, slot ≠ performed.kernel.current → board.waiting slot = none
            rw [stays.1]
            exact first.outside
          kept := fun _ _ => by
            change Function.update board.frames board.kernel.current board.enabled
              performed.kernel.current = true
            rw [stays.1, Function.update_self]
            exact on }
    · exact absurd ((perform_switched_iff first.running result).mp ⟨slot, switched⟩) keeps
  · have stays := perform_stays first.running result keeps.1
    have newcomers := perform_newcomers first.running first.newcomers result keeps.1
    rcases proceed_cases proceeds with ⟨notSwitched, rfl⟩ | ⟨slot, switched, _⟩
    · rw [← stays.1] at newcomers
      exact
        { running := (perform_lives first.running result).2
          newcomers := newcomers
          outside := by
            change ∀ slot, slot ≠ performed.kernel.current →
              board.waitingAfter performed.returned call slot = none
            rw [stays.1]
            exact waitingAfter_other first.outside
          kept := flagKept_leaveCall clears possible result stays.1 notSwitched keeps.2 }
    · exact absurd ((perform_switched_iff first.running result).mp ⟨slot, switched⟩) keeps.1

theorem flag_lost_of_leaveCall {call : KernelCall} {performed : Performed}
    (ends : LeavesFlagOff call) (possible : board.Possible (.call call))
    (result : perform board.kernel call = .ok performed)
    (stays : performed.kernel.current = board.kernel.current) (on : board.enabled = true) :
    ¬ (leaveCall performed.returned
      { board.enter performed.returned call with kernel := performed.kernel }).FlagKept := by
  intro kept
  have idle : board.waiting board.kernel.current = none := by
    cases call with
    | yieldCpu => exact possible
    | sleepMs ms => exact possible
    | _ => exact absurd ends id
  have outside : board.waitingAfter performed.returned call = board.waiting := by
    cases call with
    | waitFor pid => exact absurd ends id
    | _ => rfl
  have returned : performed.returned = none := by
    cases call with
    | yieldCpu =>
        cases result
        rfl
    | sleepMs ms =>
        cases result
        rfl
    | _ => exact absurd ends id
  have enabled := kept
    (by
      change board.waitingAfter performed.returned call performed.kernel.current = none
      rw [stays, outside]
      exact idle)
    (by
      change (board.enter performed.returned call).own performed.kernel.current = true
      rw [stays, enter_own idle]
      exact on)
  change (false || performed.returned.isSome) = true at enabled
  rw [returned] at enabled
  cases enabled

/-- A step that keeps the flag switches nowhere, and does not return from a yield or a
sleep with interrupts on before it. -/
theorem FirstTask.keepsFlag (first : board.FirstTask) (stepped : board.step event = some next)
    (kept : next.FlagKept) : board.KeepsFlag event := by
  rcases step_cases stepped with ⟨on, rfl, _, rfl⟩ | ⟨entry, performed, rfl, result, rfl⟩ |
    ⟨performed, rfl, on, _, result, proceeds⟩ |
    ⟨call, performed, rfl, clears, possible, result, proceeds⟩
  · trivial
  · exact ⟨not_leaves_newKernelTask _ entry, fun off => absurd off id⟩
  · intro leaves
    have off : board.deliver.enabled = false := rfl
    exact first.switched result leaves off first.outside proceeds kept
  · have off : (board.enter performed.returned call).enabled = false := rfl
    have stays : ¬ Leaves board.kernel call := fun leaves =>
      first.switched result leaves off (waitingAfter_other first.outside) proceeds kept
    refine ⟨stays, ?_⟩
    intro ends
    by_contra on
    rcases proceed_cases proceeds with ⟨_, rfl⟩ | ⟨slot, switched, _⟩
    · exact flag_lost_of_leaveCall ends possible result
        (perform_stays first.running result stays).1 (Bool.eq_true_of_not_eq_false on) kept
    · exact stays ((perform_switched_iff first.running result).mp ⟨slot, switched⟩)

/-- In a run from boot every task has its interrupt flag back just if nothing switches to
another task and a task yields or sleeps with interrupts off. -/
theorem flag_kept_iff {pmm : Pmm} {hhdmOffset : Nat} {events : List BoardEvent}
    {reached : Board} (run : LabelledRun.exec step (start pmm hhdmOffset) events = some reached) :
    (∀ first second middle, events = first ++ second →
      LabelledRun.exec step (start pmm hhdmOffset) first = some middle → middle.FlagKept) ↔
    LabelledRun.Guarded step KeepsFlag (start pmm hhdmOffset) events :=
  LabelledRun.passed_iff_guarded (fun _ _ _ first keeps stepped => first.step keeps stepped)
    (fun _ first => first.kept)
    (fun _ _ _ first stepped kept => first.keepsFlag stepped kept)
    (start_firstTask pmm hhdmOffset) run

/-- The idle task yields with interrupts off while it is alone, and creates a task. -/
def sampleYield : List BoardEvent :=
  [.irq0, .irq0, .irq0, .setInterrupts false, .call .yieldCpu, .setInterrupts true,
    .call (.newKernelTask 0x1000), .irq0]

theorem sampleYield_flag_kept :
    ∃ reached, LabelledRun.exec step sampleBoard sampleYield = some reached ∧
      ∀ first second middle, sampleYield = first ++ second →
        LabelledRun.exec step sampleBoard first = some middle → middle.FlagKept := by
  have runs : (LabelledRun.exec step sampleBoard sampleYield).isSome = true := by
    decide +kernel
  obtain ⟨reached, run⟩ := Option.isSome_iff_exists.mp runs
  exact ⟨reached, run, (flag_kept_iff run).mpr (by decide +kernel)⟩

/-- A yield made with interrupts on returns with interrupts off, and a new task is entered
with interrupts off, by a tick as by a yield. -/
theorem flag_lost :
    sampleBoard.enabled = true ∧
      (LabelledRun.exec step sampleBoard [.call .yieldCpu]).map
        (fun reached => (reached.kernel.current, reached.waiting 0, reached.enabled)) =
          some (0, none, false) ∧
      (LabelledRun.exec step sampleBoard
        [.call (.newKernelTask 0x1000), .irq0, .irq0, .irq0]).map
        (fun reached => (reached.kernel.current, (reached.kernel.tasks 1).rsp, reached.enabled)) =
          some (1, .fresh 0x1000, false) ∧
      (LabelledRun.exec step sampleBoard [.call (.newKernelTask 0x1000), .call .yieldCpu]).map
        (fun reached => (reached.kernel.current, (reached.kernel.tasks 1).rsp, reached.enabled)) =
          some (1, .fresh 0x1000, false) := by
  decide +kernel

/-! ### Every switch -/

structure FramesOn (board : Board) : Prop where
  running : (board.kernel.tasks board.kernel.current).state = .running
  frames : ∀ slot, slot ≠ board.kernel.current → (board.kernel.tasks slot).rsp = .tick →
    board.frames slot = true

theorem start_framesOn (pmm : Pmm) (hhdmOffset : Nat) : (start pmm hhdmOffset).FramesOn where
  running := (booted_safe pmm hhdmOffset).current_running
  frames slot _ suspended := absurd suspended ((start_quiet pmm hhdmOffset).contexts slot)

theorem tick_of_kept {old new : SavedContext} (kept : new = old ∨ ∃ entry, new = .fresh entry)
    (suspended : new = .tick) : old = .tick := by
  by_contra notTick
  exact not_tick_of_kept kept notTick suspended

theorem FramesOn.stays {call : KernelCall} {performed : Performed} {after : Board}
    (framesOn : board.FramesOn) (result : perform board.kernel call = .ok performed)
    (stays : ¬ Leaves board.kernel call) (same : after.kernel = performed.kernel)
    (frames : ∀ slot, slot ≠ board.kernel.current → after.frames slot = board.frames slot) :
    after.FramesOn := by
  have kept := perform_stays framesOn.running result stays
  constructor
  case running =>
    rw [same]
    exact (perform_lives framesOn.running result).2
  case frames =>
    intro slot other suspended
    rw [same] at other suspended
    rw [kept.1] at other
    rw [frames slot other]
    exact framesOn.frames slot other (tick_of_kept (kept.2 slot) suspended)

theorem FramesOn.switched {call : KernelCall} {performed : Performed} {after : Board}
    {chosen : Slot} (framesOn : board.FramesOn)
    (result : perform board.kernel call = .ok performed)
    (switched : performed.scheduled = some (.switched chosen))
    (same : after.kernel = performed.kernel)
    (caller : (performed.kernel.tasks board.kernel.current).rsp = .tick →
      after.frames board.kernel.current = true)
    (frames : ∀ slot, slot ≠ board.kernel.current → after.frames slot = board.frames slot) :
    after.FramesOn := by
  obtain ⟨_, _, _, _, kept⟩ := perform_switches framesOn.running result switched
  constructor
  case running =>
    rw [same]
    exact (perform_lives framesOn.running result).2
  case frames =>
    intro slot _ suspended
    rw [same] at suspended
    by_cases here : slot = board.kernel.current
    · rw [here] at suspended ⊢
      exact caller suspended
    · rw [frames slot here]
      exact framesOn.frames slot here (tick_of_kept (kept slot here) suspended)

theorem resume_frame (resumes : board.resume = some next) :
    next.kernel = board.kernel ∧ next.frames = board.frames := by
  rcases resume_cases resumes with ⟨_, _, rfl⟩ | ⟨_, rfl⟩ | ⟨_, _, rfl⟩
  · exact ⟨rfl, rfl⟩
  · exact ⟨rfl, rfl⟩
  · exact ⟨rfl, rfl⟩

theorem FramesOn.step (framesOn : board.FramesOn) (stepped : board.step event = some next) :
    next.FramesOn := by
  rcases step_cases stepped with ⟨on, _, _, rfl⟩ | ⟨entry, performed, _, result, rfl⟩ |
    ⟨performed, _, on, _, result, proceeds⟩ | ⟨call, performed, _, clears, _, result, proceeds⟩
  · exact ⟨framesOn.running, framesOn.frames⟩
  · exact framesOn.stays result (not_leaves_newKernelTask _ entry) rfl (fun _ _ => rfl)
  · have delivered (slot : Slot) (other : slot ≠ board.kernel.current) :
        board.deliver.frames slot = board.frames slot :=
      Function.update_of_ne other ..
    rcases proceed_cases proceeds with ⟨notSwitched, rfl⟩ | ⟨slot, switched, resumes⟩
    · have stays := not_leaves_of_not_switched framesOn.running result notSwitched
      exact framesOn.stays result stays rfl delivered
    · rcases resume_frame resumes with ⟨kernel, frames⟩
      refine framesOn.switched result switched kernel ?_ (by rw [frames]; exact delivered)
      intro _
      rw [frames]
      exact (Function.update_self ..).trans on
  · rcases proceed_cases proceeds with ⟨notSwitched, rfl⟩ | ⟨slot, switched, resumes⟩
    · have stays := not_leaves_of_not_switched framesOn.running result notSwitched
      exact framesOn.stays result stays rfl (fun _ _ => rfl)
    · rcases resume_frame resumes with ⟨kernel, frames⟩
      obtain ⟨state, leaving⟩ := (perform_switches framesOn.running result switched).2.2.2.1
      refine framesOn.switched result switched kernel ?_ (fun _ _ => by rw [frames]; rfl)
      intro suspended
      exact absurd suspended (not_tick_of_leaving clears leaving)

theorem FramesOn.resume_enabled_iff {call : KernelCall} {performed : Performed}
    {entered : Board} {chosen : Slot} (framesOn : board.FramesOn)
    (result : perform board.kernel call = .ok performed)
    (switched : performed.scheduled = some (.switched chosen)) (off : entered.enabled = false)
    (frames : ∀ slot, slot ≠ board.kernel.current → entered.frames slot = board.frames slot)
    (resumes : resume { entered with kernel := performed.kernel } = some next) :
    next.enabled = true ↔ (next.kernel.tasks next.kernel.current).rsp = .tick := by
  obtain ⟨current, other, _, _, kept⟩ := perform_switches framesOn.running result switched
  rcases resume_cases resumes with ⟨entry, fresh, rfl⟩ | ⟨suspended, rfl⟩ | ⟨notTick, _, rfl⟩
  · refine iff_of_false (by simp [off]) ?_
    intro suspended
    cases fresh.symm.trans suspended
  · refine iff_of_true ?_ suspended
    change entered.frames performed.kernel.current = true
    change (performed.kernel.tasks performed.kernel.current).rsp = .tick at suspended
    rw [current] at suspended ⊢
    rw [frames chosen other]
    exact framesOn.frames chosen other (tick_of_kept (kept chosen other) suspended)
  · exact iff_of_false (by simp [off]) notTick

theorem FramesOn.switched_enabled_iff (framesOn : board.FramesOn)
    (stepped : board.step event = some next)
    (elsewhere : next.kernel.current ≠ board.kernel.current) :
    next.enabled = true ↔ (next.kernel.tasks next.kernel.current).rsp = .tick := by
  have remains {call : KernelCall} {performed : Performed}
      (result : perform board.kernel call = .ok performed)
      (notSwitched : ∀ slot, performed.scheduled ≠ some (.switched slot)) :
      performed.kernel.current = board.kernel.current :=
    (perform_stays framesOn.running result
      (not_leaves_of_not_switched framesOn.running result notSwitched)).1
  rcases step_cases stepped with ⟨on, _, _, rfl⟩ | ⟨entry, performed, _, result, rfl⟩ |
    ⟨performed, _, on, _, result, proceeds⟩ | ⟨call, performed, _, clears, _, result, proceeds⟩
  · exact absurd rfl elsewhere
  · exact absurd (perform_stays framesOn.running result (not_leaves_newKernelTask _ entry)).1
      elsewhere
  · rcases proceed_cases proceeds with ⟨notSwitched, rfl⟩ | ⟨slot, switched, resumes⟩
    · exact absurd (remains result notSwitched) elsewhere
    · have off : board.deliver.enabled = false := rfl
      exact framesOn.resume_enabled_iff result switched off
        (fun _ other => Function.update_of_ne other ..) resumes
  · rcases proceed_cases proceeds with ⟨notSwitched, rfl⟩ | ⟨slot, switched, resumes⟩
    · exact absurd (remains result notSwitched) elsewhere
    · have off : (board.enter performed.returned call).enabled = false := rfl
      exact framesOn.resume_enabled_iff result switched off (fun _ _ => rfl) resumes

/-- In every run from boot, a switch takes the interrupt flag from every task but those that
an interrupt has suspended. -/
theorem switch_enabled_iff {pmm : Pmm} {hhdmOffset : Nat} {events : List BoardEvent}
    {reached : Board} (run : LabelledRun.exec step (start pmm hhdmOffset) events = some reached)
    (stepped : reached.step event = some next)
    (elsewhere : next.kernel.current ≠ reached.kernel.current) :
    next.enabled = true ↔ (next.kernel.tasks next.kernel.current).rsp = .tick := by
  have framesOn : reached.FramesOn :=
    LabelledRun.exec_invariant (fun _ _ _ framesOn stepped => framesOn.step stepped)
      (start_framesOn pmm hhdmOffset) run
  exact framesOn.switched_enabled_iff stepped elsewhere

end Board

end CustomKernel.Multitask
