/-
Which blocked tasks can still be woken.

A task that waits is woken only by the exit of the task it waits for, and a task that waits
does not exit.  So tasks whose targets are all among themselves, or the idle task, which
never exits, wait for ever, whatever the other tasks do.  `wait_for` looks for none of this:
a task may even wait for itself.  There is no other way to wait for ever: from every other
blocked task a chain of targets leads to one that sleeps or can run, and so can exit.
-/

import CustomKernel.Memory.PmmOutstanding
import CustomKernel.Multitask.Creation
import CustomKernel.Multitask.RoundRobin
import CustomKernel.Multitask.WakeUps

set_option autoImplicit false

namespace CustomKernel.Multitask

open Memory

/-! ### Every reachable table -/

structure Sound (kernel : Kernel) : Prop where
  safe : Safe kernel
  pids : Pids kernel
  settled : ∀ slot, Settled (kernel.tasks slot)
  slice : kernel.ticksOnCurrent < TIME_SLICE_TICKS
  entered : ∀ slot, (kernel.tasks slot).state ≠ .created
  owned : ∃ owners : PageOwners, owners.kernel = kernel ∧ owners.Invariant

variable {kernel next : Kernel} {call : KernelCall} {slot : Slot} {slots : Finset Slot}

theorem Change.entered {task : Task} (change : Change kernel slot call task)
    (before : (kernel.tasks slot).state ≠ .created) : task.state ≠ .created := by
  cases change with
  | kept _ ticksRun => exact before
  | _ => simp [createdTask]

theorem kernelStep_owned
    (owned : ∃ owners : PageOwners, owners.kernel = kernel ∧ owners.Invariant)
    (stepped : kernelStep kernel call = some next) :
    ∃ owners : PageOwners, owners.kernel = next ∧ owners.Invariant := by
  obtain ⟨owners, rfl, invariant⟩ := owned
  obtain ⟨performed, result, rfl⟩ := perform_of_kernelStep stepped
  have turns : owners.step (.kernel call) = some (owners.record performed.kernel call) := by
    unfold PageOwners.step
    dsimp only
    rw [result]
  exact ⟨_, TaskTable.record_kernel owners performed.kernel call,
    (PageOwners.turn_of_step invariant turns).invariant invariant⟩

theorem kernelStep_sound (sound : Sound kernel) (allowed : Allowed kernel call)
    (stepped : kernelStep kernel call = some next) : Sound next := by
  have safe := kernelStep_safe sound.safe allowed.1 stepped
  have pids := kernelStep_pids sound.safe sound.pids allowed stepped
  have settled := kernelStep_settled sound.safe sound.settled allowed.1 stepped
  have owned := kernelStep_owned sound.owned stepped
  obtain ⟨performed, result, rfl⟩ := perform_of_kernelStep stepped
  obtain ⟨prepared, prepares, _, outcome⟩ := perform_outcome sound.safe allowed.1 result
  have changes := prepare_changes sound.safe.current_running prepares
  refine ⟨safe, pids, settled, outcome.slice (prepare_slice sound.slice prepares), ?_, owned⟩
  intro slot
  rw [Ne, outcome.rescheduled.stopped_iff (by simp)]
  exact (changes slot).entered (sound.entered slot)

theorem booted_sound {pmm : Pmm} (hhdm : Nat) (invariant : pmm.Invariant)
    (lowUsed : ¬ pmm.Free 0) : Sound (booted pmm hhdm) where
  safe := booted_safe pmm hhdm
  pids := booted_pids pmm hhdm
  settled := booted_settled pmm hhdm
  slice := Nat.zero_lt_succ _
  entered slot := by
    by_cases idle : slot = 0
    · rw [idle, booted_idle]
      simp
    · rw [booted_rest pmm hhdm idle]
      simp [Task.emptyTask]
  owned := ⟨_, rfl, PageOwners.start_owned hhdm invariant lowUsed⟩

theorem exec_sound {reached : Kernel} {calls : List KernelCall} (sound : Sound kernel)
    (allowed : LabelledRun.Guarded kernelStep Allowed kernel calls)
    (run : LabelledRun.exec kernelStep kernel calls = some reached) : Sound reached :=
  LabelledRun.exec_invariant_of_guarded
    (fun _ _ _ sound allowed stepped => kernelStep_sound sound allowed stepped) sound allowed run

/-! ### Waiting in a cycle -/

/-- The task waits for one in the set or for the idle task. -/
structure WaitsInside (kernel : Kernel) (slots : Finset Slot) (slot : Slot) : Prop where
  blocked : (kernel.tasks slot).state = .blocked
  waits : ∃ target, (kernel.tasks slot).waitForPid = some (kernel.tasks target).pid ∧
    (target ∈ slots ∨ target = idleSlot)

def WaitCycle (kernel : Kernel) (slots : Finset Slot) : Prop :=
  ∀ slot ∈ slots, WaitsInside kernel slots slot

theorem WaitCycle.target_stays (cycle : WaitCycle kernel slots) (safe : Safe kernel)
    (stays : IdleStays kernel call) {target : Slot}
    (inside : target ∈ slots ∨ target = idleSlot) :
    (kernel.tasks target).state ≠ .empty ∧
      ∀ code, call = .exit code → target ≠ kernel.current := by
  have running := safe.current_running
  rcases inside with member | rfl
  · have blocked := (cycle target member).blocked
    refine ⟨by rw [blocked]; simp, ?_⟩
    rintro code _ rfl
    rw [running] at blocked
    cases blocked
  · constructor
    · rcases safe.idle with ready | runs
      · rw [ready]
        simp
      · rw [runs]
        simp
    · rintro code rfl same
      exact stays same.symm

theorem WaitCycle.change (cycle : WaitCycle kernel slots) (sound : Sound kernel)
    (stays : IdleStays kernel call) (member : slot ∈ slots) {task : Task}
    (change : Change kernel slot call task) :
    task.state = .blocked ∧ task.pid = (kernel.tasks slot).pid ∧
      task.waitForPid = (kernel.tasks slot).waitForPid := by
  obtain ⟨blocked, target, waits, inside⟩ := cycle slot member
  have notCaller := sound.safe.not_current (by rw [blocked]; simp)
  cases change.elsewhere notCaller with
  | kept _ ticksRun => exact ⟨blocked, rfl, rfl⟩
  | sleepEnds currentTick ticksRun _ sleeps _ =>
      have alone := (sound.settled slot).single.resolve_left sleeps
      rw [waits] at alone
      cases alone
  | waitEnds code _ exited =>
      obtain ⟨used, other⟩ := cycle.target_stays sound.safe stays inside
      have same : (kernel.tasks target).pid = (kernel.tasks kernel.current).pid :=
        Option.some.inj (waits.symm.trans exited)
      have runs : (kernel.tasks kernel.current).state ≠ .empty := by
        rw [sound.safe.current_running]
        simp
      exact absurd (sound.pids.distinct target kernel.current used runs same) (other code rfl)
  | reaped pid ended =>
      rw [blocked] at ended
      cases ended
  | created entry phys0 phys1 free =>
      rw [blocked] at free
      cases free

theorem idle_change (safe : Safe kernel) {task : Task}
    (change : Change kernel idleSlot call task) : task.pid = (kernel.tasks idleSlot).pid := by
  cases change with
  | created entry phys0 phys1 free =>
      have idle := safe.idle
      rw [free] at idle
      simp at idle
  | _ => rfl

theorem kernelStep_cycle (sound : Sound kernel) (stays : IdleStays kernel call)
    (cycle : WaitCycle kernel slots) (stepped : kernelStep kernel call = some next) :
    WaitCycle next slots := by
  obtain ⟨performed, result, rfl⟩ := perform_of_kernelStep stepped
  obtain ⟨prepared, prepares, _, outcome⟩ := perform_outcome sound.safe stays result
  have changes := prepare_changes sound.safe.current_running prepares
  have same := outcome.rescheduled
  have each (slot : Slot) (member : slot ∈ slots) :=
    cycle.change sound stays member (changes slot)
  have pid (slot : Slot) (inside : slot ∈ slots ∨ slot = idleSlot) :
      (performed.kernel.tasks slot).pid = (kernel.tasks slot).pid := by
    rw [same.pid]
    rcases inside with member | rfl
    · exact (each slot member).2.1
    · exact idle_change sound.safe (changes idleSlot)
  intro slot member
  obtain ⟨_, target, waits, inside⟩ := cycle slot member
  refine ⟨(same.stopped_iff (by simp)).mpr (each slot member).1, target, ?_, inside⟩
  rw [same.waitForPid, (each slot member).2.2, pid target inside]
  exact waits

theorem exec_cycle {reached : Kernel} {calls : List KernelCall} (sound : Sound kernel)
    (cycle : WaitCycle kernel slots)
    (allowed : LabelledRun.Guarded kernelStep Allowed kernel calls)
    (run : LabelledRun.exec kernelStep kernel calls = some reached) : WaitCycle reached slots := by
  have both : Sound reached ∧ WaitCycle reached slots :=
    @LabelledRun.exec_invariant_of_guarded _ _ kernelStep
      (fun kernel => Sound kernel ∧ WaitCycle kernel slots) Allowed
      (fun _ _ _ both allowed stepped =>
        ⟨kernelStep_sound both.1 allowed stepped,
          kernelStep_cycle both.1 allowed.1 both.2 stepped⟩)
      _ _ _ ⟨sound, cycle⟩ allowed run
  exact both.2

/-! ### Continuations -/

def CanReach (kernel : Kernel) (property : Kernel → Prop) : Prop :=
  ∃ calls reached, LabelledRun.Guarded kernelStep Allowed kernel calls ∧
    LabelledRun.exec kernelStep kernel calls = some reached ∧ property reached

def CanWake (kernel : Kernel) (slot : Slot) : Prop :=
  CanReach kernel (fun reached => (reached.tasks slot).state ≠ .blocked)

variable {property : Kernel → Prop}

theorem CanReach.now (holds : property kernel) : CanReach kernel property :=
  ⟨[], kernel, trivial, rfl, holds⟩

theorem CanReach.step (allowed : Allowed kernel call)
    (stepped : kernelStep kernel call = some next) (later : CanReach next property) :
    CanReach kernel property := by
  obtain ⟨calls, reached, guarded, run, holds⟩ := later
  exact ⟨call :: calls, reached, guarded.cons stepped allowed,
    LabelledRun.exec_cons_eq_some.mpr ⟨next, stepped, run⟩, holds⟩

theorem canWake_of_sleeps (sound : Sound kernel) (blocked : (kernel.tasks slot).state = .blocked)
    (sleeps : (kernel.tasks slot).sleepUntil ≠ 0) : CanWake kernel slot := by
  have sleeping : Sleeping (kernel.tasks slot).sleepUntil (kernel.tasks slot) :=
    ⟨blocked, rfl, (sound.settled slot).single.resolve_left sleeps⟩
  have allowed : Allowed kernel (.tick (kernel.tasks slot).sleepUntil) := ⟨trivial, trivial⟩
  refine CanReach.step allowed rfl (CanReach.now ?_)
  obtain ⟨prepared, prepares, _, outcome⟩ :=
    @perform_outcome kernel (.tick (kernel.tasks slot).sleepUntil) _ sound.safe trivial rfl
  rw [Ne, outcome.rescheduled.stopped_iff (by simp)]
  cases prepares
  obtain ⟨ticksRun, same⟩ := prepareTick_tasks kernel (kernel.tasks slot).sleepUntil slot
  have woken := (tick_wakes sound.safe sleeping sleeps (Nat.le_refl _) rfl).1
  have ready : (wakeSleeper (kernel.tasks slot).sleepUntil (kernel.tasks slot)).state = .ready :=
    congrArg Task.state woken
  rw [same]
  dsimp only
  rw [ready]
  simp

/-! ### Waiting for a task that can run -/

structure WaitsOn (kernel : Kernel) (slot target : Slot) : Prop where
  blocked : (kernel.tasks slot).state = .blocked
  waits : (kernel.tasks slot).waitForPid = some (kernel.tasks target).pid
  alive : Alive (kernel.tasks target)

variable {target : Slot}

theorem exit_wakes {code : Int} (safe : Safe kernel) (waits : WaitsOn kernel slot kernel.current)
    (stays : IdleStays kernel (.exit code)) (stepped : kernelStep kernel (.exit code) = some next) :
    (next.tasks slot).state ≠ .blocked := by
  have notCaller := safe.not_current (by rw [waits.blocked]; simp)
  obtain ⟨performed, result, rfl⟩ := perform_of_kernelStep stepped
  obtain ⟨prepared, prepares, _, outcome⟩ := perform_outcome safe stays result
  obtain ⟨ended, terminated, rfl⟩ := prepare_exit prepares
  rw [Ne, outcome.rescheduled.stopped_iff (by simp)]
  dsimp only
  rw [exit_tasks safe.current_running terminated, if_neg notCaller]
  unfold wakeWaiter
  rw [if_pos ⟨waits.blocked, waits.waits⟩]
  simp

theorem target_change (alive : Alive (kernel.tasks target)) {task : Task}
    (notExit : ∀ code, call = .exit code → target ≠ kernel.current)
    (change : Change kernel target call task) :
    Alive task ∧ task.pid = (kernel.tasks target).pid := by
  by_cases exits : ∃ code, call = .exit code
  · obtain ⟨code, rfl⟩ := exits
    cases change.elsewhere (notExit code rfl) with
    | kept _ ticksRun => exact ⟨alive, rfl⟩
    | waitEnds _ _ _ => exact ⟨⟨by simp, by simp⟩, rfl⟩
  · exact alive.change (fun code same => exits ⟨code, same⟩) change

theorem Alive.rescheduled {after : Kernel} (same : Rescheduled kernel after)
    (alive : Alive (kernel.tasks target)) : Alive (after.tasks target) := by
  constructor
  · rw [Ne, same.stopped_iff (by simp)]
    exact alive.1
  · rw [Ne, same.stopped_iff (by simp)]
    exact alive.2

theorem kernelStep_waitsOn (sound : Sound kernel) (stays : IdleStays kernel call)
    (waits : WaitsOn kernel slot target) (stepped : kernelStep kernel call = some next)
    (stillBlocked : (next.tasks slot).state = .blocked) : WaitsOn next slot target := by
  have notExit (code : Int) (isExit : call = .exit code) : target ≠ kernel.current := by
    rintro rfl
    subst isExit
    exact exit_wakes sound.safe waits stays stepped stillBlocked
  have notCaller := sound.safe.not_current (by rw [waits.blocked]; simp)
  obtain ⟨performed, result, rfl⟩ := perform_of_kernelStep stepped
  obtain ⟨prepared, prepares, _, outcome⟩ := perform_outcome sound.safe stays result
  have changes := prepare_changes sound.safe.current_running prepares
  have same := outcome.rescheduled
  obtain ⟨alive, pid⟩ := target_change waits.alive notExit (changes target)
  rw [same.stopped_iff (by simp)] at stillBlocked
  have kept : (prepared.kernel.tasks slot).waitForPid = (kernel.tasks slot).waitForPid := by
    have change := changes slot
    generalize prepared.kernel.tasks slot = task at change stillBlocked
    cases change.elsewhere notCaller with
    | kept _ ticksRun => rfl
    | _ => cases stillBlocked
  refine ⟨(same.stopped_iff (by simp)).mpr stillBlocked, ?_, alive.rescheduled same⟩
  rw [same.waitForPid, kept, same.pid, pid]
  exact waits.waits

theorem exec_waitsOn {reached : Kernel} {calls : List KernelCall} (sound : Sound kernel)
    (waits : WaitsOn kernel slot target) (never : ¬ CanWake kernel slot)
    (allowed : LabelledRun.Guarded kernelStep Allowed kernel calls)
    (run : LabelledRun.exec kernelStep kernel calls = some reached) :
    Sound reached ∧ WaitsOn reached slot target ∧ ¬ CanWake reached slot :=
  @LabelledRun.exec_invariant_of_guarded _ _ kernelStep
    (fun kernel => Sound kernel ∧ WaitsOn kernel slot target ∧ ¬ CanWake kernel slot) Allowed
    (fun kernel call next all allowed stepped => by
      obtain ⟨sound, waits, never⟩ := all
      have neverNext : ¬ CanWake next slot := fun later => never (later.step allowed stepped)
      have stillBlocked : (next.tasks slot).state = .blocked := by
        by_contra woken
        exact neverNext (CanReach.now woken)
      exact ⟨kernelStep_sound sound allowed stepped,
        kernelStep_waitsOn sound allowed.1 waits stepped stillBlocked, neverNext⟩)
    _ _ _ ⟨sound, waits, never⟩ allowed run

/-! ### Running and exiting -/

theorem yield_nearer (sound : Sound kernel) (ready : (kernel.tasks target).state = .ready) :
    ∃ after, kernelStep kernel .yieldCpu = some after ∧
      (after.current = target ∨ (after.tasks target).state = .ready) ∧
      CyclicScan.distance after.current target <
        CyclicScan.distance kernel.current target := by
  obtain ⟨performed, result⟩ : ∃ performed, perform kernel .yieldCpu = .ok performed :=
    ⟨_, rfl⟩
  have stays : IdleStays kernel .yieldCpu := trivial
  have stepped : kernelStep kernel .yieldCpu = some performed.kernel := by
    unfold kernelStep
    rw [result]
  obtain ⟨nearer, progress⟩ := perform_patience sound.safe sound.slice ready stays result
  obtain ⟨prepared, prepares, _, outcome⟩ := perform_outcome sound.safe stays result
  obtain ⟨notCaller, stillReady⟩ := prepare_ready sound.safe ready prepares
  cases prepares
  cases outcome with
  | returned returns _ => cases returns
  | itself _ _ _ alone => exact absurd stillReady (alone target notCaller)
  | switched context chosen _ _ _ _ =>
      refine ⟨_, stepped, ?_, nearer chosen rfl⟩
      rcases progress with now | later
      · cases now
        exact Or.inl rfl
      · exact Or.inr later.1

theorem canReach_running (sound : Sound kernel) (ready : (kernel.tasks target).state = .ready) :
    CanReach kernel (fun reached => reached.current = target) := by
  induction apart : CyclicScan.distance kernel.current target using Nat.strong_induction_on
    generalizing kernel with
  | _ distance ih =>
      obtain ⟨after, stepped, progress, nearer⟩ := yield_nearer sound ready
      have allowed : Allowed kernel .yieldCpu := ⟨trivial, trivial⟩
      apply CanReach.step allowed stepped
      rcases progress with runs | stillReady
      · exact CanReach.now runs
      · exact ih _ (apart ▸ nearer) (kernelStep_sound sound allowed stepped) stillReady rfl

theorem stackBase_taken (sound : Sound kernel) (notIdle : kernel.current ≠ idleSlot) :
    kernel.pmm.Taken (kernel.tasks kernel.current).stackBase := by
  obtain ⟨owners, rfl, invariant⟩ := sound.owned
  have lives := invariant.alive_current
  cases given : owners.given owners.kernel.current with
  | none => exact absurd (invariant.idle _ given lives).1 notIdle
  | some pair =>
      obtain ⟨base, _, first, _, _⟩ := invariant.stack _ pair.1 pair.2 given lives
      rw [base]
      exact invariant.taken _ (Or.inl first)

theorem exit_succeeds (sound : Sound kernel) (notIdle : kernel.current ≠ idleSlot) (code : Int) :
    ∃ after, kernelStep kernel (.exit code) = some after := by
  obtain ⟨pmm, freed⟩ := (freePage_accepts_iff _ _).mpr (stackBase_taken sound notIdle)
  have base : ((wakeWaiters kernel (kernel.tasks kernel.current).pid code).tasks
      kernel.current).stackBase = (kernel.tasks kernel.current).stackBase := by
    unfold wakeWaiters wakeWaiter
    dsimp only
    split <;> rfl
  obtain ⟨prepared, prepares⟩ : ∃ prepared, prepare kernel (.exit code) = .ok prepared := by
    unfold prepare terminate
    dsimp only
    rw [base, show (wakeWaiters kernel (kernel.tasks kernel.current).pid code).pmm = kernel.pmm
      from rfl, freed]
    exact ⟨_, rfl⟩
  have stays : IdleStays kernel (.exit code) := notIdle
  obtain ⟨performed, finished, _⟩ := finish_of_prepared sound.safe stays prepares
  refine ⟨performed.kernel, ?_⟩
  unfold kernelStep
  rw [perform_eq, prepares]
  dsimp only
  rw [finished]

theorem canWake_of_target (sound : Sound kernel) (waits : WaitsOn kernel slot target)
    (notIdle : target ≠ idleSlot)
    (able : CanReach kernel (fun reached => (reached.tasks target).state ≠ .blocked)) :
    CanWake kernel slot := by
  by_contra never
  obtain ⟨calls, first, allowed, run, notBlocked⟩ := able
  obtain ⟨sound, waits, never⟩ := exec_waitsOn sound waits never allowed run
  have running : CanReach first (fun reached => reached.current = target) := by
    cases state : (first.tasks target).state with
    | empty => exact absurd state waits.alive.1
    | created => exact absurd state (sound.entered target)
    | ready => exact canReach_running sound state
    | running => exact CanReach.now ((sound.safe.running target).mp state).symm
    | blocked => exact absurd state notBlocked
    | terminated => exact absurd state waits.alive.2
  obtain ⟨calls, second, allowed, run, rfl⟩ := running
  obtain ⟨sound, waits, never⟩ := exec_waitsOn sound waits never allowed run
  obtain ⟨after, stepped⟩ := exit_succeeds sound notIdle 0
  have exits : Allowed second (.exit 0) := ⟨notIdle, trivial⟩
  exact never (CanReach.step exits stepped
    (CanReach.now (exit_wakes sound.safe waits notIdle stepped)))

/-! ### Exactly the cycles -/

open Classical in
noncomputable def stuckTasks (kernel : Kernel) : Finset Slot :=
  Finset.univ.filter (fun slot => ¬ CanWake kernel slot)

theorem mem_stuckTasks : slot ∈ stuckTasks kernel ↔ ¬ CanWake kernel slot := by
  classical
  exact Finset.mem_filter.trans (and_iff_right (Finset.mem_univ slot))

theorem blocked_of_stuck (never : ¬ CanWake kernel slot) :
    (kernel.tasks slot).state = .blocked := by
  by_contra awake
  exact never (CanReach.now awake)

/-- A stuck task does not sleep, and it waits for a stuck one or for the idle task. -/
theorem stuckTasks_cycle (sound : Sound kernel) (woke : Woke kernel) :
    WaitCycle kernel (stuckTasks kernel) := by
  intro slot member
  have never := mem_stuckTasks.mp member
  have blocked := blocked_of_stuck never
  rcases woke.wakeable slot blocked with sleeps | waiting
  · exact absurd (canWake_of_sleeps sound blocked sleeps) never
  · obtain ⟨pid, waits⟩ := Option.ne_none_iff_exists'.mp waiting
    obtain ⟨target, alive, rfl⟩ := woke.awaited slot pid blocked waits
    refine ⟨blocked, target, waits, ?_⟩
    by_contra outside
    obtain ⟨notStuck, notIdle⟩ := not_or.mp outside
    have able : CanWake kernel target := by
      by_contra stuck
      exact notStuck (mem_stuckTasks.mpr stuck)
    exact never (canWake_of_target sound ⟨blocked, waits, alive⟩ notIdle able)

/-- A blocked task stays blocked in all continuations if and only if it is one of tasks
that wait only for each other or for the idle task. -/
theorem waits_for_ever_iff_cycle {pmm : Pmm} {hhdm : Nat} {earlier : List KernelCall}
    {before : Kernel} (invariant : pmm.Invariant) (lowUsed : ¬ pmm.Free 0)
    (allowed : LabelledRun.Guarded kernelStep Allowed (booted pmm hhdm) earlier)
    (timely : ∀ call, call ∈ earlier → Timely call)
    (run : LabelledRun.exec kernelStep (booted pmm hhdm) earlier = some before) (slot : Slot) :
    (∀ later reached, LabelledRun.Guarded kernelStep Allowed before later →
      LabelledRun.exec kernelStep before later = some reached →
        (reached.tasks slot).state = .blocked) ↔
      ∃ slots : Finset Slot, slot ∈ slots ∧ WaitCycle before slots := by
  have start := booted_sound hhdm invariant lowUsed
  have sound := exec_sound start allowed run
  have woke := exec_woke start.safe (booted_woke pmm hhdm) allowed timely run
  constructor
  · intro always
    have never : ¬ CanWake before slot := by
      rintro ⟨later, reached, guarded, continued, awake⟩
      exact awake (always later reached guarded continued)
    exact ⟨stuckTasks before, mem_stuckTasks.mpr never, stuckTasks_cycle sound woke⟩
  · rintro ⟨slots, member, cycle⟩ later reached guarded continued
    exact (exec_cycle sound cycle guarded continued slot member).blocked

/-- Two tasks that wait for each other. -/
theorem sampleBoot_waits_for_ever :
    ∃ before, LabelledRun.exec kernelStep (booted PageOwners.sampleBoot 0xffff800000000000)
        (sampleStart ++ [.waitFor 2, .waitFor 1]) = some before ∧
      ∀ later reached, LabelledRun.Guarded kernelStep Allowed before later →
        LabelledRun.exec kernelStep before later = some reached →
          (reached.tasks 1).state = .blocked := by
  have values : (LabelledRun.exec kernelStep (booted PageOwners.sampleBoot 0xffff800000000000)
      (sampleStart ++ [.waitFor 2, .waitFor 1])).map (fun kernel =>
        ((kernel.tasks 1).state, (kernel.tasks 2).state, (kernel.tasks 1).waitForPid,
          (kernel.tasks 2).waitForPid, (kernel.tasks 1).pid, (kernel.tasks 2).pid)) =
      some (.blocked, .blocked, some 2, some 1, 1, 2) := by
    decide +kernel
  obtain ⟨before, run, both⟩ := Option.map_eq_some_iff.mp values
  simp only [Prod.mk.injEq] at both
  obtain ⟨firstBlocked, secondBlocked, firstWaits, secondWaits, firstPid, secondPid⟩ := both
  have cycle : WaitCycle before {1, 2} := by
    intro slot member
    rw [Finset.mem_insert, Finset.mem_singleton] at member
    rcases member with rfl | rfl
    · exact ⟨firstBlocked, 2, by rw [firstWaits, secondPid], Or.inl (by decide)⟩
    · exact ⟨secondBlocked, 1, by rw [secondWaits, firstPid], Or.inl (by decide)⟩
  have lowUsed : ¬ PageOwners.sampleBoot.Free 0 := by
    rw [initPmm_free_iff PageOwners.sampleBoot_boots]
    decide
  exact ⟨before, run, (waits_for_ever_iff_cycle
    (initPmm_invariant sampleMap_noOverflow sampleMap_aligned sampleMap_disjoint
      PageOwners.sampleBoot_boots) lowUsed (by decide +kernel) (by decide +kernel) run 1).mpr
    ⟨{1, 2}, by decide, cycle⟩⟩

end CustomKernel.Multitask
