/-
Why a blocked task will wake up.

A task that is not blocked has no pending wake-up, and a blocked one sleeps or
waits, never both.  A sleeper stays blocked until the first tick at or past its
wake tick.  A waiter waits for a pid whose task is alive, since the exit that ends
that task wakes all of its waiters first.
-/

import CustomKernel.Multitask.SchedulerSafety

set_option autoImplicit false

namespace CustomKernel.Multitask

/-! ### Pending wake-ups -/

structure Settled (task : Task) : Prop where
  clear : task.state ≠ .blocked → task.sleepUntil = 0 ∧ task.waitForPid = none
  single : task.sleepUntil = 0 ∨ task.waitForPid = none

section prepare

variable {kernel : Kernel} {call : KernelCall} {slot : Slot} {task : Task}

theorem Settled.change (settled : Settled (kernel.tasks slot)) (safe : Safe kernel)
    (change : Change kernel slot call task) : Settled task := by
  have caller (same : slot = kernel.current) :
      (kernel.tasks slot).sleepUntil = 0 ∧ (kernel.tasks slot).waitForPid = none := by
    apply settled.clear
    rw [same, safe.current_running]
    simp
  cases change with
  | kept _ ticksRun => exact ⟨settled.clear, settled.single⟩
  | sleepEnds currentTick ticksRun _ sleeps _ =>
      have alone := settled.single.resolve_left sleeps
      exact ⟨fun _ => ⟨rfl, alone⟩, Or.inl rfl⟩
  | waitEnds code _ _ waits =>
      have awake : (kernel.tasks slot).sleepUntil = 0 := by
        apply settled.single.resolve_right
        rw [waits]
        simp
      exact ⟨fun _ => ⟨awake, rfl⟩, Or.inr rfl⟩
  | yields same => exact ⟨fun _ => caller same, Or.inl (caller same).1⟩
  | sleeps ms same => exact ⟨fun stopped => absurd rfl stopped, Or.inr (caller same).2⟩
  | exits code same => exact ⟨fun _ => caller same, Or.inl (caller same).1⟩
  | reaped pid ended _ =>
      have cleared := settled.clear (by rw [ended]; simp)
      exact ⟨fun _ => cleared, Or.inl cleared.1⟩
  | waits pid target same _ _ _ =>
      exact ⟨fun stopped => absurd rfl stopped, Or.inl (caller same).1⟩
  | created entry phys0 phys1 _ => exact ⟨fun _ => ⟨rfl, rfl⟩, Or.inl rfl⟩

end prepare

theorem Settled.rescheduled {before after : Kernel} {slot : Slot}
    (settled : Settled (before.tasks slot)) (same : Rescheduled before after) :
    Settled (after.tasks slot) where
  clear := by
    rw [same.sleepUntil, same.waitForPid, Ne, same.stopped_iff (by simp)]
    exact settled.clear
  single := by
    rw [same.sleepUntil, same.waitForPid]
    exact settled.single

theorem kernelStep_settled {kernel next : Kernel} {call : KernelCall} (safe : Safe kernel)
    (settled : ∀ slot, Settled (kernel.tasks slot)) (stays : IdleStays kernel call)
    (stepped : kernelStep kernel call = some next) (slot : Slot) :
    Settled (next.tasks slot) := by
  obtain ⟨performed, result, rfl⟩ := perform_of_kernelStep stepped
  obtain ⟨prepared, prepares, entered, outcome⟩ := perform_outcome safe stays result
  have change := prepare_changes safe.current_running prepares slot
  exact ((settled slot).change safe change).rescheduled outcome.rescheduled

theorem booted_settled (pmm : Memory.Pmm) (hhdmOffset : Nat) (slot : Slot) :
    Settled ((booted pmm hhdmOffset).tasks slot) := by
  by_cases idle : slot = 0
  · rw [idle, booted_idle]
    exact ⟨fun _ => ⟨rfl, rfl⟩, Or.inl rfl⟩
  · rw [booted_rest pmm hhdmOffset idle]
    exact ⟨fun _ => ⟨rfl, rfl⟩, Or.inl rfl⟩

theorem exec_settled {kernel reached : Kernel} {calls : List KernelCall} (safe : Safe kernel)
    (settled : ∀ slot, Settled (kernel.tasks slot))
    (stays : LabelledRun.Guarded kernelStep IdleStays kernel calls)
    (run : LabelledRun.exec kernelStep kernel calls = some reached) :
    Safe reached ∧ ∀ slot, Settled (reached.tasks slot) :=
  @LabelledRun.exec_invariant_of_guarded _ _ kernelStep
    (fun kernel => Safe kernel ∧ ∀ slot, Settled (kernel.tasks slot)) IdleStays
    (fun _ _ _ both stays stepped =>
      ⟨kernelStep_safe both.1 stays stepped, kernelStep_settled both.1 both.2 stays stepped⟩)
    _ _ _ ⟨safe, settled⟩ stays run

/-! ### Sleeping -/

structure Sleeping (wakeTick : Nat) (task : Task) : Prop where
  blocked : task.state = .blocked
  until_ : task.sleepUntil = wakeTick
  alone : task.waitForPid = none

/-- Ticks before the wake tick, and all other operations, leave a sleeper alone. -/
def Early (wakeTick : Nat) : KernelCall → Prop
  | .tick currentTick => currentTick < wakeTick
  | _ => True

theorem Sleeping.change {kernel : Kernel} {call : KernelCall} {slot : Slot} {task : Task}
    {wakeTick : Nat} (sleeping : Sleeping wakeTick (kernel.tasks slot)) (safe : Safe kernel)
    (early : Early wakeTick call) (change : Change kernel slot call task) :
    Sleeping wakeTick task := by
  have blocked := sleeping.blocked
  have notCaller := safe.not_current (by rw [blocked]; simp)
  cases change.elsewhere notCaller with
  | kept _ ticksRun => exact ⟨blocked, sleeping.until_, sleeping.alone⟩
  | sleepEnds currentTick ticksRun _ _ due =>
      have before : currentTick < wakeTick := early
      rw [sleeping.until_] at due
      omega
  | waitEnds code _ waits =>
      rw [sleeping.alone] at waits
      cases waits
  | reaped pid ended =>
      rw [blocked] at ended
      cases ended
  | created entry phys0 phys1 free =>
      rw [blocked] at free
      cases free

theorem Sleeping.rescheduled {before after : Kernel} {slot : Slot} {wakeTick : Nat}
    (sleeping : Sleeping wakeTick (before.tasks slot)) (same : Rescheduled before after) :
    Sleeping wakeTick (after.tasks slot) where
  blocked := (same.stopped_iff (by simp)).mpr sleeping.blocked
  until_ := (same.sleepUntil slot).trans sleeping.until_
  alone := (same.waitForPid slot).trans sleeping.alone

theorem kernelStep_sleeping {kernel next : Kernel} {call : KernelCall} {slot : Slot}
    {wakeTick : Nat} (safe : Safe kernel) (sleeping : Sleeping wakeTick (kernel.tasks slot))
    (stays : IdleStays kernel call) (early : Early wakeTick call)
    (stepped : kernelStep kernel call = some next) : Sleeping wakeTick (next.tasks slot) := by
  obtain ⟨performed, result, rfl⟩ := perform_of_kernelStep stepped
  obtain ⟨prepared, prepares, entered, outcome⟩ := perform_outcome safe stays result
  have change := prepare_changes safe.current_running prepares slot
  exact (sleeping.change safe early change).rescheduled outcome.rescheduled

theorem exec_sleeping {kernel reached : Kernel} {calls : List KernelCall} {slot : Slot}
    {wakeTick : Nat} (safe : Safe kernel) (sleeping : Sleeping wakeTick (kernel.tasks slot))
    (stays : LabelledRun.Guarded kernelStep IdleStays kernel calls)
    (early : ∀ call, call ∈ calls → Early wakeTick call)
    (run : LabelledRun.exec kernelStep kernel calls = some reached) :
    Safe reached ∧ Sleeping wakeTick (reached.tasks slot) :=
  @LabelledRun.exec_invariant_of_guarded _ _ kernelStep
    (fun kernel => Safe kernel ∧ Sleeping wakeTick (kernel.tasks slot))
    (fun kernel call => IdleStays kernel call ∧ Early wakeTick call)
    (fun _ _ _ both allowed stepped =>
      ⟨kernelStep_safe both.1 allowed.1 stepped,
        kernelStep_sleeping both.1 both.2 allowed.1 allowed.2 stepped⟩)
    _ _ _ ⟨safe, sleeping⟩ (stays.and_labels early) run

theorem sleepMs_sleeping {kernel : Kernel} {ms : Nat} {performed : Performed}
    (safe : Safe kernel) (settled : Settled (kernel.tasks kernel.current))
    (stays : kernel.current ≠ idleSlot)
    (result : perform kernel (.sleepMs ms) = .ok performed) :
    Sleeping (wakeAt kernel ms) (performed.kernel.tasks kernel.current) := by
  obtain ⟨prepared, prepares, entered, outcome⟩ :=
    @perform_outcome kernel (.sleepMs ms) performed safe stays result
  cases prepares
  have cleared := settled.clear (by rw [safe.current_running]; simp)
  have sleeping : Sleeping (wakeAt kernel ms)
      ((blockUntil kernel kernel.current (wakeAt kernel ms)).tasks kernel.current) := by
    simp only [blockUntil, Kernel.setTask, Function.update_self]
    exact ⟨rfl, rfl, cleared.2⟩
  exact sleeping.rescheduled outcome.rescheduled

theorem tick_wakes {kernel : Kernel} {slot : Slot} {wakeTick currentTick : Nat}
    {performed : Performed} (safe : Safe kernel)
    (sleeping : Sleeping wakeTick (kernel.tasks slot)) (stored : wakeTick ≠ 0)
    (due : wakeTick ≤ currentTick)
    (result : perform kernel (.tick currentTick) = .ok performed) :
    (wakeSleepingTasks kernel currentTick).tasks slot =
        { kernel.tasks slot with state := .ready, sleepUntil := 0 } ∧
      (performed.kernel.tasks slot).sleepUntil = 0 ∧
      ((performed.kernel.tasks slot).state = .ready ∨
        performed.scheduled = some (.switched slot)) := by
  have woken : wakeSleeper currentTick (kernel.tasks slot) =
      { kernel.tasks slot with state := .ready, sleepUntil := 0 } := by
    unfold wakeSleeper
    rw [if_pos]
    rw [sleeping.until_]
    exact ⟨sleeping.blocked, stored, due⟩
  refine ⟨woken, ?_⟩
  obtain ⟨prepared, prepares, entered, outcome⟩ :=
    @perform_outcome kernel (.tick currentTick) performed safe trivial result
  cases prepares
  obtain ⟨ticksRun, same⟩ := prepareTick_tasks kernel currentTick slot
  rw [woken] at same
  have ready : ((prepareTick kernel currentTick).kernel.tasks slot).state = .ready := by
    rw [same]
  have notCaller : slot ≠ (prepareTick kernel currentTick).kernel.current := by
    have running := @prepare_tick_running kernel (prepareTick kernel currentTick) currentTick
      safe.current_running rfl
    rintro rfl
    rw [(@prepare_frame kernel (.tick currentTick) _ rfl).current, running] at ready
    cases ready
  constructor
  · rw [outcome.rescheduled.sleepUntil, same]
  · cases outcome with
    | returned _ _ => exact Or.inl ready
    | itself context _ _ alone => exact absurd ready (alone slot notCaller)
    | switched context next _ other _ _ =>
        by_cases chosen : slot = next
        · rw [chosen]
          exact Or.inr rfl
        · refine Or.inl ?_
          dsimp only
          rw [switchTo_other context chosen notCaller]
          exact ready

/-- Sleep is exact: from the call of `sleep_ms` to the first tick at or past the wake
tick the sleeper is blocked and not running, and that tick makes it ready. -/
theorem sleep_is_exact {pmm : Memory.Pmm} {hhdmOffset : Nat} {earlier later : List KernelCall}
    {before reached : Kernel} {asleep : Performed} {ms : Nat}
    (staysBefore : LabelledRun.Guarded kernelStep IdleStays (booted pmm hhdmOffset) earlier)
    (runBefore : LabelledRun.exec kernelStep (booted pmm hhdmOffset) earlier = some before)
    (notIdle : before.current ≠ idleSlot)
    (called : perform before (.sleepMs ms) = .ok asleep)
    (stored : wakeAt before ms ≠ 0)
    (stays : LabelledRun.Guarded kernelStep IdleStays asleep.kernel later)
    (run : LabelledRun.exec kernelStep asleep.kernel later = some reached)
    (early : ∀ currentTick, .tick currentTick ∈ later → currentTick < wakeAt before ms) :
    (asleep.kernel.tasks before.current).sleepUntil = wakeAt before ms ∧
      (reached.tasks before.current).state = .blocked ∧
      (reached.tasks before.current).sleepUntil = wakeAt before ms ∧
      reached.current ≠ before.current ∧
      ∀ currentTick performed, wakeAt before ms ≤ currentTick →
        perform reached (.tick currentTick) = .ok performed →
        (wakeSleepingTasks reached currentTick).tasks before.current =
            { reached.tasks before.current with state := .ready, sleepUntil := 0 } ∧
          (performed.kernel.tasks before.current).sleepUntil = 0 ∧
          ((performed.kernel.tasks before.current).state = .ready ∨
            performed.scheduled = some (.switched before.current)) := by
  obtain ⟨safe, settled⟩ := exec_settled (booted_safe pmm hhdmOffset)
    (booted_settled pmm hhdmOffset) staysBefore runBefore
  have fallen := sleepMs_sleeping safe (settled before.current) notIdle called
  have stepped : kernelStep before (.sleepMs ms) = some asleep.kernel := by
    unfold kernelStep
    rw [called]
  have safeAsleep := @kernelStep_safe before asleep.kernel (.sleepMs ms) safe notIdle stepped
  have allEarly (call : KernelCall) (member : call ∈ later) : Early (wakeAt before ms) call := by
    cases call with
    | tick currentTick => exact early currentTick member
    | _ => trivial
  obtain ⟨safeReached, sleeping⟩ := exec_sleeping safeAsleep fallen stays allEarly run
  refine ⟨fallen.until_, sleeping.blocked, sleeping.until_, ?_, ?_⟩
  · intro selected
    have running := safeReached.current_running
    rw [selected, sleeping.blocked] at running
    cases running
  · intro currentTick performed due result
    exact tick_wakes safeReached sleeping stored due result

def sampleStart : List KernelCall :=
  [.newKernelTask 0x1000, .newKernelTask 0x2000, .tick 1, .tick 2, .tick 3]

def sampleBefore : Kernel :=
  (LabelledRun.exec kernelStep sampleKernel sampleStart).get (by decide +kernel)

theorem sampleKernel_sleeps :
    ∃ reached,
      LabelledRun.exec kernelStep (sleepMs sampleBefore 20).kernel
        [.tick 4, .yieldCpu, .newKernelTask 0x3000] = some reached ∧
      wakeAt sampleBefore 20 = 5 ∧
      (reached.tasks sampleBefore.current).state = .blocked ∧
      ((tick { reached with tickCount := 5 } 5).kernel.tasks sampleBefore.current).sleepUntil =
        0 := by
  have runs : (LabelledRun.exec kernelStep (sleepMs sampleBefore 20).kernel
      [.tick 4, .yieldCpu, .newKernelTask 0x3000]).isSome = true := by
    decide +kernel
  obtain ⟨reached, run⟩ := Option.isSome_iff_exists.mp runs
  have wakeTick : wakeAt sampleBefore 20 = 5 := by decide +kernel
  have early (currentTick : Nat)
      (member : KernelCall.tick currentTick ∈ [.tick 4, .yieldCpu, .newKernelTask 0x3000]) :
      currentTick < wakeAt sampleBefore 20 := by
    rw [wakeTick]
    simp at member
    omega
  have sleeps := @sleep_is_exact samplePmm 0xffff800000000000 sampleStart
    [.tick 4, .yieldCpu, .newKernelTask 0x3000] sampleBefore reached (sleepMs sampleBefore 20) 20
    (by decide +kernel) (Option.some_get _).symm (by decide +kernel) rfl (by decide +kernel)
    (by decide +kernel) run early
  exact ⟨reached, run, wakeTick, sleeps.2.1,
    (sleeps.2.2.2.2 5 _ (Nat.le_of_eq wakeTick) rfl).2.1⟩

/-! ### Waiting -/

def Alive (task : Task) : Prop :=
  task.state ≠ .empty ∧ task.state ≠ .terminated

/-- Whoever waits for a pid waits for a task that has not ended. -/
def Awaited (kernel : Kernel) : Prop :=
  ∀ slot pid, (kernel.tasks slot).state = .blocked → (kernel.tasks slot).waitForPid = some pid →
    ∃ target, Alive (kernel.tasks target) ∧ (kernel.tasks target).pid = pid

theorem exit_awaited {kernel ended : Kernel} {code : Int} (safe : Safe kernel)
    (awaited : Awaited kernel)
    (result : terminate (wakeWaiters kernel (kernel.tasks kernel.current).pid code)
      kernel.current code = .ok ended) : Awaited ended := by
  intro slot pid blocked waits
  have tasks := exit_tasks safe.current_running result
  rw [tasks slot] at blocked waits
  by_cases caller : slot = kernel.current
  · rw [if_pos caller] at blocked
    cases blocked
  · rw [if_neg caller] at blocked waits
    unfold wakeWaiter at blocked waits
    by_cases woken : (kernel.tasks slot).state = .blocked ∧
        (kernel.tasks slot).waitForPid = some (kernel.tasks kernel.current).pid
    · rw [if_pos woken] at blocked
      cases blocked
    · rw [if_neg woken] at blocked waits
      obtain ⟨target, alive, same⟩ := awaited slot pid blocked waits
      have other : target ≠ kernel.current := by
        rintro rfl
        rw [← same] at waits
        exact woken ⟨blocked, waits⟩
      refine ⟨target, ?_⟩
      rw [tasks target, if_neg other]
      unfold wakeWaiter
      split
      · exact ⟨⟨by simp, by simp⟩, same⟩
      · exact ⟨alive, same⟩

theorem Alive.change {kernel : Kernel} {call : KernelCall} {slot : Slot} {task : Task}
    (alive : Alive (kernel.tasks slot)) (notExit : ∀ code, call ≠ .exit code)
    (change : Change kernel slot call task) :
    Alive task ∧ task.pid = (kernel.tasks slot).pid := by
  cases change with
  | kept _ ticksRun => exact ⟨alive, rfl⟩
  | sleepEnds _ ticksRun _ _ _ => exact ⟨⟨by simp, by simp⟩, rfl⟩
  | waitEnds code _ _ _ => exact absurd rfl (notExit code)
  | yields _ => exact ⟨⟨by simp, by simp⟩, rfl⟩
  | sleeps ms _ => exact ⟨⟨by simp, by simp⟩, rfl⟩
  | exits code _ => exact absurd rfl (notExit code)
  | reaped pid ended _ => exact absurd ended alive.2
  | waits pid target _ _ _ _ => exact ⟨⟨by simp, by simp⟩, rfl⟩
  | created entry phys0 phys1 free => exact absurd free alive.1

theorem prepare_awaited {kernel : Kernel} {call : KernelCall} {prepared : Prepared}
    (safe : Safe kernel) (settled : ∀ slot, Settled (kernel.tasks slot))
    (awaited : Awaited kernel) (result : prepare kernel call = .ok prepared) :
    Awaited prepared.kernel := by
  by_cases exits : ∃ code, call = .exit code
  · obtain ⟨code, rfl⟩ := exits
    obtain ⟨ended, terminated, rfl⟩ := prepare_exit result
    exact exit_awaited safe awaited terminated
  · have notExit (code : Int) : call ≠ .exit code := fun same => exits ⟨code, same⟩
    have changes := prepare_changes safe.current_running result
    intro slot pid blocked waits
    have before : ∃ target, Alive (kernel.tasks target) ∧ (kernel.tasks target).pid = pid := by
      have change := changes slot
      generalize prepared.kernel.tasks slot = task at change blocked waits
      cases change with
      | kept _ ticksRun => exact awaited slot pid blocked waits
      | sleeps ms caller =>
          have running : (kernel.tasks slot).state = .running := by
            rw [caller]
            exact safe.current_running
          have cleared := (settled slot).clear (by rw [running]; simp)
          rw [cleared.2] at waits
          cases waits
      | waits pid' target _ used same alive =>
          cases waits
          exact ⟨target, ⟨used, alive⟩, same⟩
      | _ => cases blocked
    obtain ⟨target, alive, same⟩ := before
    obtain ⟨stillAlive, samePid⟩ := alive.change notExit (changes target)
    exact ⟨target, stillAlive, samePid.trans same⟩

theorem Awaited.rescheduled {before after : Kernel} (awaited : Awaited before)
    (same : Rescheduled before after) : Awaited after := by
  intro slot pid blocked waits
  rw [same.stopped_iff (by simp)] at blocked
  rw [same.waitForPid] at waits
  obtain ⟨target, alive, samePid⟩ := awaited slot pid blocked waits
  refine ⟨target, ⟨?_, ?_⟩, (same.pid target).trans samePid⟩
  · rw [Ne, same.stopped_iff (by simp)]
    exact alive.1
  · rw [Ne, same.stopped_iff (by simp)]
    exact alive.2

/-! ### Exactly one reason -/

def Timely : KernelCall → Prop
  | .tick currentTick => currentTick < 2 ^ 63
  | _ => True

instance : (call : KernelCall) → Decidable (Timely call)
  | .tick currentTick => Nat.decLt currentTick (2 ^ 63)
  | .yieldCpu => isTrue trivial
  | .sleepMs _ => isTrue trivial
  | .exit _ => isTrue trivial
  | .waitFor _ => isTrue trivial
  | .newKernelTask _ => isTrue trivial

/-- No wake tick overflows to the value that means "not sleeping". -/
theorem wakeAt_pos {kernel : Kernel} (timely : kernel.tickCount < 2 ^ 63) (ms : Nat) :
    wakeAt kernel ms ≠ 0 := by
  have words : Word64.modulus = 2 ^ 64 := rfl
  have product : Word64.mul ms TICKS_PER_SECOND < Word64.modulus :=
    Nat.mod_lt _ (by rw [words]; omega)
  unfold wakeAt
  dsimp only
  rw [Word64.add_eq (by omega)]
  omega

def Wakeable (task : Task) : Prop :=
  task.state = .blocked → task.sleepUntil ≠ 0 ∨ task.waitForPid ≠ none

theorem Wakeable.change {kernel : Kernel} {call : KernelCall} {slot : Slot} {task : Task}
    (wakeable : Wakeable (kernel.tasks slot)) (timely : kernel.tickCount < 2 ^ 63)
    (change : Change kernel slot call task) : Wakeable task := by
  intro blocked
  cases change with
  | kept _ ticksRun => exact wakeable blocked
  | sleeps ms _ => exact Or.inl (wakeAt_pos timely ms)
  | waits pid target _ _ _ _ => exact Or.inr (by simp)
  | _ => cases blocked

theorem prepare_timely {kernel : Kernel} {call : KernelCall} {prepared : Prepared}
    (timely : kernel.tickCount < 2 ^ 63) (allowed : Timely call)
    (result : prepare kernel call = .ok prepared) : prepared.kernel.tickCount < 2 ^ 63 := by
  by_cases ticks : ∃ currentTick, call = .tick currentTick
  · obtain ⟨currentTick, rfl⟩ := ticks
    cases result
    obtain ⟨tasks, counted, same⟩ := prepareTick_frame kernel currentTick
    rw [same]
    exact allowed
  · rw [((prepare_frame result).counters (fun currentTick same => ticks ⟨currentTick, same⟩)).1]
    exact timely

structure Woke (kernel : Kernel) : Prop where
  settled : ∀ slot, Settled (kernel.tasks slot)
  wakeable : ∀ slot, Wakeable (kernel.tasks slot)
  awaited : Awaited kernel
  timely : kernel.tickCount < 2 ^ 63

theorem kernelStep_woke {kernel next : Kernel} {call : KernelCall} (safe : Safe kernel)
    (woke : Woke kernel) (stays : IdleStays kernel call) (timely : Timely call)
    (stepped : kernelStep kernel call = some next) : Woke next := by
  have settled := kernelStep_settled safe woke.settled stays stepped
  obtain ⟨performed, result, rfl⟩ := perform_of_kernelStep stepped
  obtain ⟨prepared, prepares, entered, outcome⟩ := perform_outcome safe stays result
  have changes := prepare_changes safe.current_running prepares
  have same := outcome.rescheduled
  refine { settled := settled, wakeable := ?_, awaited := ?_, timely := ?_ }
  · intro slot
    unfold Wakeable
    rw [same.stopped_iff (by simp), same.sleepUntil, same.waitForPid]
    exact (woke.wakeable slot).change woke.timely (changes slot)
  · exact (prepare_awaited safe woke.settled woke.awaited prepares).rescheduled same
  · rw [same.tickCount]
    exact prepare_timely woke.timely timely prepares

theorem booted_woke (pmm : Memory.Pmm) (hhdmOffset : Nat) : Woke (booted pmm hhdmOffset) := by
  have notBlocked (slot : Slot) : ((booted pmm hhdmOffset).tasks slot).state ≠ .blocked := by
    by_cases idle : slot = 0
    · rw [idle, booted_idle]
      simp
    · rw [booted_rest pmm hhdmOffset idle]
      simp [Task.emptyTask]
  refine { settled := booted_settled pmm hhdmOffset, wakeable := ?_, awaited := ?_, timely := ?_ }
  · intro slot blocked
    exact absurd blocked (notBlocked slot)
  · intro slot pid blocked _
    exact absurd blocked (notBlocked slot)
  · exact Nat.two_pow_pos 63

theorem exec_woke {kernel reached : Kernel} {calls : List KernelCall} (safe : Safe kernel)
    (woke : Woke kernel) (allowed : LabelledRun.Guarded kernelStep Allowed kernel calls)
    (timely : ∀ call, call ∈ calls → Timely call)
    (run : LabelledRun.exec kernelStep kernel calls = some reached) : Woke reached := by
  have both : Safe reached ∧ Woke reached :=
    @LabelledRun.exec_invariant_of_guarded _ _ kernelStep
      (fun kernel => Safe kernel ∧ Woke kernel)
      (fun kernel call => Allowed kernel call ∧ Timely call)
      (fun _ _ _ both allowed stepped =>
        ⟨kernelStep_safe both.1 allowed.1.1 stepped,
          kernelStep_woke both.1 both.2 allowed.1.1 allowed.2 stepped⟩)
      _ _ _ ⟨safe, woke⟩ (allowed.and_labels timely) run
  exact both.2

/-- No wake-up is lost between `exit` and `wait_for`: a task that is blocked on a pid
waits for a live task, and every blocked task has exactly one pending reason. -/
theorem no_lost_wake_up {pmm : Memory.Pmm} {hhdmOffset : Nat} {calls : List KernelCall}
    {reached : Kernel}
    (allowed : LabelledRun.Guarded kernelStep Allowed
      (booted pmm hhdmOffset) calls)
    (timely : ∀ call, call ∈ calls → Timely call)
    (run : LabelledRun.exec kernelStep (booted pmm hhdmOffset) calls = some reached) :
    (∀ slot pid, (reached.tasks slot).state = .blocked →
      (reached.tasks slot).waitForPid = some pid →
      (∃ target, (reached.tasks target).state ≠ .empty ∧ (reached.tasks target).pid = pid) ∧
      ∀ target, (reached.tasks target).state ≠ .empty → (reached.tasks target).pid = pid →
        (reached.tasks target).state ≠ .terminated) ∧
    ∀ slot, (reached.tasks slot).state = .blocked →
      ((reached.tasks slot).sleepUntil ≠ 0 ∧ (reached.tasks slot).waitForPid = none) ∨
      ((reached.tasks slot).sleepUntil = 0 ∧
        ∃ pid, (reached.tasks slot).waitForPid = some pid) := by
  have safe := booted_safe pmm hhdmOffset
  have woke := exec_woke safe (booted_woke pmm hhdmOffset) allowed timely run
  obtain ⟨_, pids⟩ := exec_safe_pids safe (booted_pids pmm hhdmOffset) allowed run
  constructor
  · intro slot pid blocked waits
    obtain ⟨target, alive, same⟩ := woke.awaited slot pid blocked waits
    refine ⟨⟨target, alive.1, same⟩, ?_⟩
    intro other used otherSame
    rw [pids.distinct other target used alive.1 (otherSame.trans same.symm)]
    exact alive.2
  · intro slot blocked
    have single := (woke.settled slot).single
    rcases woke.wakeable slot blocked with sleeps | waits
    · exact Or.inl ⟨sleeps, single.resolve_left sleeps⟩
    · exact Or.inr ⟨single.resolve_right waits, Option.ne_none_iff_exists'.mp waits⟩

theorem sampleKernel_no_lost_wake_up :
    ∃ reached, LabelledRun.exec kernelStep sampleKernel
        (sampleStart ++ [.waitFor 2, .sleepMs 20, .tick 4]) = some reached ∧
      (reached.tasks 1).waitForPid = some 2 ∧
      ∃ target, (reached.tasks target).state ≠ .empty ∧ (reached.tasks target).pid = 2 := by
  have runs : (LabelledRun.exec kernelStep sampleKernel
      (sampleStart ++ [.waitFor 2, .sleepMs 20, .tick 4])).isSome = true := by
    decide +kernel
  obtain ⟨reached, run⟩ := Option.isSome_iff_exists.mp runs
  have first : (LabelledRun.exec kernelStep sampleKernel
      (sampleStart ++ [.waitFor 2, .sleepMs 20, .tick 4])).map
        (fun kernel => ((kernel.tasks 1).state, (kernel.tasks 1).waitForPid)) =
      some (.blocked, some 2) := by
    decide +kernel
  rw [run, Option.map_some, Option.some.injEq, Prod.mk.injEq] at first
  have timely : ∀ call, call ∈ sampleStart ++ [.waitFor 2, .sleepMs 20, .tick 4] →
      Timely call := by
    decide +kernel
  exact ⟨reached, run, first.2,
    ((no_lost_wake_up (by decide +kernel) timely run).1 1 2 first.1 first.2).1⟩

end CustomKernel.Multitask
