/-
The round-robin bound.

While a ready task has not been selected, each switch brings the current slot
strictly nearer to it on the ring, and each tick uses up one of the three ticks of
a slice.  Both lower one measure, which starts at 93 at most.
-/

import CustomKernel.Multitask.SchedulerSafety

set_option autoImplicit false

namespace CustomKernel.Multitask

/-! ### The slice counter -/

theorem prepareTick_slice {kernel : Kernel} (currentTick : Nat)
    (slice : kernel.ticksOnCurrent < TIME_SLICE_TICKS) :
    ((prepareTick kernel currentTick).context = some .tick ∧
      kernel.ticksOnCurrent + 1 = TIME_SLICE_TICKS ∧
      (prepareTick kernel currentTick).kernel.ticksOnCurrent = 0) ∨
    ((prepareTick kernel currentTick).context = none ∧
      kernel.ticksOnCurrent + 1 < TIME_SLICE_TICKS ∧
      (prepareTick kernel currentTick).kernel.ticksOnCurrent = kernel.ticksOnCurrent + 1) := by
  have limit : TIME_SLICE_TICKS = 3 := rfl
  have words : Word64.modulus = 2 ^ 64 := rfl
  have counted : Word64.add kernel.ticksOnCurrent 1 = kernel.ticksOnCurrent + 1 :=
    Word64.add_eq (by omega)
  unfold prepareTick
  dsimp only [wakeSleepingTasks, Kernel.setTask]
  rw [counted]
  split
  · exact Or.inl ⟨rfl, by omega, rfl⟩
  · exact Or.inr ⟨rfl, by omega, rfl⟩

theorem prepare_slice {kernel : Kernel} {call : KernelCall} {prepared : Prepared}
    (slice : kernel.ticksOnCurrent < TIME_SLICE_TICKS)
    (result : prepare kernel call = .ok prepared) :
    prepared.kernel.ticksOnCurrent < TIME_SLICE_TICKS := by
  by_cases ticks : ∃ currentTick, call = .tick currentTick
  · obtain ⟨currentTick, rfl⟩ := ticks
    cases result
    rcases prepareTick_slice currentTick slice with ⟨_, _, reset⟩ | ⟨_, room, counted⟩
    · rw [reset]
      exact Nat.zero_lt_succ _
    · rw [counted]
      exact room
  · rw [((prepare_frame result).counters (fun currentTick same => ticks ⟨currentTick, same⟩)).2]
    exact slice

theorem Outcome.slice {prepared : Prepared} {performed : Performed}
    (outcome : Outcome prepared performed)
    (slice : prepared.kernel.ticksOnCurrent < TIME_SLICE_TICKS) :
    performed.kernel.ticksOnCurrent < TIME_SLICE_TICKS := by
  cases outcome with
  | returned _ _ => exact slice
  | itself _ _ _ _ => exact slice
  | switched _ _ _ _ _ _ => exact Nat.zero_lt_succ _

/-! ### Waiting for a turn -/

theorem prepare_ready {kernel : Kernel} {call : KernelCall} {prepared : Prepared} {slot : Slot}
    (safe : Safe kernel) (ready : (kernel.tasks slot).state = .ready)
    (result : prepare kernel call = .ok prepared) :
    slot ≠ prepared.kernel.current ∧ (prepared.kernel.tasks slot).state = .ready := by
  have notCaller := safe.not_current (by rw [ready]; simp)
  rw [(prepare_frame result).current]
  have change := prepare_changes safe.current_running result slot
  exact ⟨notCaller, (change.elsewhere notCaller).ready ready⟩

/-- How long a ready task may still have to wait, in ticks. -/
def patience (goal : Slot) (kernel : Kernel) : Nat :=
  TIME_SLICE_TICKS * CyclicScan.distance kernel.current goal - kernel.ticksOnCurrent

def isTick : KernelCall → Bool
  | .tick _ => true
  | _ => false

/-- One operation selects the ready task or uses up patience: each switch gets nearer
to it, and each tick lowers the measure. -/
theorem perform_patience {kernel : Kernel} {call : KernelCall} {performed : Performed}
    {goal : Slot} (safe : Safe kernel) (slice : kernel.ticksOnCurrent < TIME_SLICE_TICKS)
    (ready : (kernel.tasks goal).state = .ready) (stays : IdleStays kernel call)
    (result : perform kernel call = .ok performed) :
    (∀ next, performed.scheduled = some (.switched next) →
      CyclicScan.distance next goal < CyclicScan.distance kernel.current goal) ∧
    (performed.scheduled = some (.switched goal) ∨
      ((performed.kernel.tasks goal).state = .ready ∧
        patience goal performed.kernel + (if isTick call then 1 else 0) ≤
          patience goal kernel)) := by
  have limit : TIME_SLICE_TICKS = 3 := rfl
  obtain ⟨prepared, prepares, entered, outcome⟩ := perform_outcome safe stays result
  obtain ⟨notCaller, stillReady⟩ := prepare_ready safe ready prepares
  have current := (prepare_frame prepares).current
  have apart : 0 < CyclicScan.distance kernel.current goal :=
    CyclicScan.distance_pos (fun same => notCaller (same ▸ current.symm ▸ rfl))
  have counted : prepared.context = none →
      prepared.kernel.ticksOnCurrent = kernel.ticksOnCurrent + (if isTick call then 1 else 0) := by
    intro returns
    by_cases ticks : ∃ currentTick, call = .tick currentTick
    · obtain ⟨currentTick, rfl⟩ := ticks
      cases prepares
      rcases prepareTick_slice currentTick slice with ⟨calls, _, _⟩ | ⟨_, _, counted⟩
      · rw [calls] at returns
        cases returns
      · exact counted
    · rw [((prepare_frame prepares).counters (fun currentTick same => ticks ⟨currentTick, same⟩)).2]
      cases call with
      | tick currentTick => exact absurd ⟨currentTick, rfl⟩ ticks
      | _ => rfl
  cases outcome with
  | returned returns _ =>
      have ticks := counted returns
      have below := prepare_slice slice prepares
      refine ⟨?_, Or.inr ⟨stillReady, ?_⟩⟩
      · intro next switched
        cases switched
      · unfold patience
        dsimp only
        rw [current, ticks, limit]
        rw [ticks, limit] at below
        omega
  | itself _ _ _ alone => exact absurd stillReady (alone goal notCaller)
  | switched context next _ other _ nearer =>
      have closer : CyclicScan.distance next goal < CyclicScan.distance kernel.current goal := by
        rw [← current]
        exact nearer goal notCaller stillReady
      refine ⟨?_, ?_⟩
      · intro next' switched
        cases switched
        exact closer
      · by_cases chosen : goal = next
        · rw [chosen]
          exact Or.inl rfl
        · refine Or.inr ⟨?_, ?_⟩
          · dsimp only
            rw [switchTo_other context chosen notCaller]
            exact stillReady
          · unfold patience
            dsimp only [switchTo]
            rw [limit]
            split <;> omega

/-! ### Runs -/

def Selects (goal : Slot) : Kernel → List KernelCall → Prop
  | _, [] => False
  | kernel, call :: rest =>
      ∃ performed, perform kernel call = .ok performed ∧
        (performed.scheduled = some (.switched goal) ∨ Selects goal performed.kernel rest)

theorem exec_slice {kernel reached : Kernel} {calls : List KernelCall} (safe : Safe kernel)
    (slice : kernel.ticksOnCurrent < TIME_SLICE_TICKS)
    (stays : LabelledRun.Guarded kernelStep IdleStays kernel calls)
    (run : LabelledRun.exec kernelStep kernel calls = some reached) :
    Safe reached ∧ reached.ticksOnCurrent < TIME_SLICE_TICKS :=
  @LabelledRun.exec_invariant_of_guarded _ _ kernelStep
    (fun kernel => Safe kernel ∧ kernel.ticksOnCurrent < TIME_SLICE_TICKS) IdleStays
    (fun _ _ _ both stays stepped => by
      refine ⟨kernelStep_safe both.1 stays stepped, ?_⟩
      obtain ⟨performed, result, rfl⟩ := perform_of_kernelStep stepped
      obtain ⟨prepared, prepares, entered, outcome⟩ := perform_outcome both.1 stays result
      exact outcome.slice (prepare_slice both.2 prepares))
    _ _ _ ⟨safe, slice⟩ stays run

/-- Along a run without selection the measure pays for every tick. -/
theorem exec_patience {kernel reached : Kernel} {calls : List KernelCall} {goal : Slot}
    (safe : Safe kernel) (slice : kernel.ticksOnCurrent < TIME_SLICE_TICKS)
    (ready : (kernel.tasks goal).state = .ready)
    (stays : LabelledRun.Guarded kernelStep IdleStays kernel calls)
    (run : LabelledRun.exec kernelStep kernel calls = some reached)
    (unselected : ¬ Selects goal kernel calls) :
    (reached.tasks goal).state = .ready ∧
      patience goal reached + calls.countP isTick ≤ patience goal kernel := by
  induction calls generalizing kernel with
  | nil =>
      cases run
      exact ⟨ready, Nat.le_refl _⟩
  | cons call rest ih =>
      obtain ⟨next, stepped, continued⟩ := LabelledRun.exec_cons_eq_some.mp run
      obtain ⟨performed, result, rfl⟩ := perform_of_kernelStep stepped
      obtain ⟨_, progress⟩ := perform_patience safe slice ready stays.1 result
      have notNow : performed.scheduled ≠ some (.switched goal) :=
        fun now => unselected ⟨performed, result, Or.inl now⟩
      have notLater : ¬ Selects goal performed.kernel rest :=
        fun later => unselected ⟨performed, result, Or.inr later⟩
      obtain ⟨stillReady, lower⟩ := progress.resolve_left notNow
      obtain ⟨prepared, prepares, _, outcome⟩ := perform_outcome safe stays.1 result
      have later := ih (kernelStep_safe safe stays.1 stepped)
        (outcome.slice (prepare_slice slice prepares)) stillReady (stays.2 _ stepped) continued
        notLater
      refine ⟨later.1, ?_⟩
      rw [List.countP_cons]
      have paid := later.2
      omega

theorem patience_le (goal : Slot) (kernel : Kernel) :
    patience goal kernel ≤ (MAX_TASKS - 1) * TIME_SLICE_TICKS := by
  have limit : TIME_SLICE_TICKS = 3 := rfl
  have near := CyclicScan.distance_lt kernel.current goal
  unfold patience
  rw [limit]
  omega

theorem patience_pos {goal : Slot} {kernel : Kernel} (safe : Safe kernel)
    (slice : kernel.ticksOnCurrent < TIME_SLICE_TICKS)
    (ready : (kernel.tasks goal).state = .ready) : 0 < patience goal kernel := by
  have limit : TIME_SLICE_TICKS = 3 := rfl
  have apart : 0 < CyclicScan.distance kernel.current goal := by
    apply CyclicScan.distance_pos
    intro same
    rw [← same, safe.current_running] at ready
    cases ready
  unfold patience
  rw [limit] at slice ⊢
  omega

/-- The round-robin bound: a ready task stays ready until it is selected, every switch
before that gets nearer to it, every tick leaves the slice counter below the slice, and
93 ticks are enough to select it. -/
theorem round_robin_bound {pmm : Memory.Pmm} {hhdmOffset : Nat}
    {earlier later : List KernelCall} {start reached : Kernel} {goal : Slot}
    (staysBefore : LabelledRun.Guarded kernelStep IdleStays (booted pmm hhdmOffset) earlier)
    (runBefore : LabelledRun.exec kernelStep (booted pmm hhdmOffset) earlier = some start)
    (ready : (start.tasks goal).state = .ready)
    (stays : LabelledRun.Guarded kernelStep IdleStays start later)
    (run : LabelledRun.exec kernelStep start later = some reached) :
    (¬ Selects goal start later →
      (reached.tasks goal).state = .ready ∧
        ∀ call performed, IdleStays reached call → perform reached call = .ok performed →
          (∀ next, performed.scheduled = some (.switched next) →
            CyclicScan.distance next goal < CyclicScan.distance reached.current goal) ∧
          performed.kernel.ticksOnCurrent < TIME_SLICE_TICKS) ∧
      ((MAX_TASKS - 1) * TIME_SLICE_TICKS ≤ later.countP isTick → Selects goal start later) := by
  obtain ⟨safe, slice⟩ := exec_slice (booted_safe pmm hhdmOffset) (Nat.zero_lt_succ _)
    staysBefore runBefore
  obtain ⟨safeReached, sliceReached⟩ := exec_slice safe slice stays run
  constructor
  · intro unselected
    have stillReady := (exec_patience safe slice ready stays run unselected).1
    refine ⟨stillReady, ?_⟩
    intro call performed callStays result
    refine ⟨(perform_patience safeReached sliceReached stillReady callStays result).1, ?_⟩
    obtain ⟨prepared, prepares, _, outcome⟩ := perform_outcome safeReached callStays result
    exact outcome.slice (prepare_slice sliceReached prepares)
  · intro enough
    by_contra unselected
    obtain ⟨stillReady, paid⟩ := exec_patience safe slice ready stays run unselected
    have most := patience_le goal start
    have left := patience_pos safeReached sliceReached stillReady
    omega

def sampleCreated : Kernel :=
  (LabelledRun.exec kernelStep sampleKernel
    [.newKernelTask 0x1000, .newKernelTask 0x2000]).get (by decide +kernel)

/-- The second sample task is ready and is selected within the bound. -/
theorem sampleKernel_round_robin :
    ∃ reached,
      LabelledRun.exec kernelStep sampleCreated (List.replicate 93 (.tick 7)) = some reached ∧
      (sampleCreated.tasks 2).state = .ready ∧
      Selects 2 sampleCreated (List.replicate 93 (.tick 7)) := by
  have runs : (LabelledRun.exec kernelStep sampleCreated
      (List.replicate 93 (.tick 7))).isSome = true := by
    decide +kernel
  obtain ⟨reached, run⟩ := Option.isSome_iff_exists.mp runs
  have ready : (sampleCreated.tasks 2).state = .ready := by decide +kernel
  exact ⟨reached, run, ready,
    (@round_robin_bound samplePmm 0xffff800000000000
      [.newKernelTask 0x1000, .newKernelTask 0x2000] _ sampleCreated reached 2
      (by decide +kernel) (Option.some_get _).symm ready (by decide +kernel) run).2
      (by decide +kernel)⟩

end CustomKernel.Multitask
