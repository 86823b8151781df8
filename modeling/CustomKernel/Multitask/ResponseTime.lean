/-
When a sleeper runs again.

The timer counts one tick at a time.  Up to the wake tick a sleeper is not selected, the
wake tick makes it ready, and from then on each further tick uses up patience; so it is
selected within a full round of slices behind its wake tick.
-/

import CustomKernel.Multitask.RoundRobin
import CustomKernel.Multitask.WakeUps

set_option autoImplicit false

namespace CustomKernel.Multitask

def Consecutive (kernel : Kernel) : KernelCall → Prop
  | .tick currentTick => currentTick = Word64.add kernel.tickCount 1
  | _ => True

instance (kernel : Kernel) : (call : KernelCall) → Decidable (Consecutive kernel call)
  | .tick _ => inferInstanceAs (Decidable (_ = _))
  | .yieldCpu => isTrue trivial
  | .sleepMs _ => isTrue trivial
  | .exit _ => isTrue trivial
  | .waitFor _ => isTrue trivial
  | .newKernelTask _ => isTrue trivial

/-- The longest wait of a ready task, in ticks. -/
def ROUND_TICKS : Nat := (MAX_TASKS - 1) * TIME_SLICE_TICKS

variable {kernel next reached : Kernel} {call : KernelCall} {calls : List KernelCall}
  {slot : Slot} {wakeTick : Nat}

theorem kernelStep_tickCount (safe : Safe kernel) (stays : IdleStays kernel call)
    (consecutive : Consecutive kernel call) (small : kernel.tickCount + 1 < Word64.modulus)
    (stepped : kernelStep kernel call = some next) :
    next.tickCount = kernel.tickCount + (if isTick call then 1 else 0) := by
  obtain ⟨performed, result, rfl⟩ := perform_of_kernelStep stepped
  obtain ⟨prepared, prepares, _, outcome⟩ := perform_outcome safe stays result
  rw [outcome.rescheduled.tickCount]
  by_cases ticks : ∃ currentTick, call = .tick currentTick
  · obtain ⟨currentTick, rfl⟩ := ticks
    have counted : currentTick = Word64.add kernel.tickCount 1 := consecutive
    cases prepares
    obtain ⟨_, _, same⟩ := prepareTick_frame kernel currentTick
    rw [same]
    exact counted.trans (Word64.add_eq small)
  · rw [((prepare_frame prepares).counters (fun currentTick same => ticks ⟨currentTick, same⟩)).1]
    cases call with
    | tick currentTick => exact absurd ⟨currentTick, rfl⟩ ticks
    | _ => rfl

theorem early_of_consecutive (consecutive : Consecutive kernel call)
    (small : kernel.tickCount + 1 < Word64.modulus)
    (before : kernel.tickCount + (if isTick call then 1 else 0) < wakeTick) :
    Early wakeTick call := by
  cases call with
  | tick currentTick =>
      have counted : currentTick = Word64.add kernel.tickCount 1 := consecutive
      rw [Word64.add_eq small] at counted
      rw [Early, counted]
      exact before
  | _ => trivial

theorem Sleeping.not_switched {performed : Performed} (safe : Safe kernel)
    (stays : IdleStays kernel call) (result : perform kernel call = .ok performed)
    (sleeping : Sleeping wakeTick (performed.kernel.tasks slot)) :
    performed.scheduled ≠ some (.switched slot) := by
  intro switched
  have stepped : kernelStep kernel call = some performed.kernel := by rw [kernelStep, result]
  have running := (kernelStep_safe safe stays stepped).current_running
  obtain ⟨prepared, _, _, outcome⟩ := perform_outcome safe stays result
  cases outcome with
  | returned _ _ => cases switched
  | itself _ _ _ _ => cases switched
  | switched context other _ _ _ _ =>
      cases switched
      have blocked := sleeping.blocked
      rw [show (switchTo context prepared.kernel slot).current = slot from rfl, blocked] at running
      cases running

/-- By induction on the operations: none of them reaches the wake tick. -/
theorem sleeper_unselected (safe : Safe kernel) (sleeping : Sleeping wakeTick (kernel.tasks slot))
    (stays : LabelledRun.Guarded kernelStep IdleStays kernel calls)
    (consecutive : LabelledRun.Guarded kernelStep Consecutive kernel calls)
    (word : wakeTick < Word64.modulus)
    (before : kernel.tickCount + calls.countP isTick < wakeTick) : ¬ Selects slot kernel calls := by
  induction calls generalizing kernel with
  | nil => exact fun impossible => impossible
  | cons call rest ih =>
      rw [List.countP_cons] at before
      rintro ⟨performed, result, selected⟩
      have stepped : kernelStep kernel call = some performed.kernel := by rw [kernelStep, result]
      have small : kernel.tickCount + 1 < Word64.modulus := by omega
      have early := @early_of_consecutive kernel call wakeTick consecutive.1 small (by omega)
      have asleep := kernelStep_sleeping safe sleeping stays.1 early stepped
      rcases selected with now | later
      · exact asleep.not_switched safe stays.1 result now
      · refine ih (kernelStep_safe safe stays.1 stepped) asleep (stays.2 _ stepped)
          (consecutive.2 _ stepped) ?_ later
        rw [kernelStep_tickCount safe stays.1 consecutive.1 small stepped]
        omega

theorem ready_selected (safe : Safe kernel) (slice : kernel.ticksOnCurrent < TIME_SLICE_TICKS)
    (ready : (kernel.tasks slot).state = .ready)
    (stays : LabelledRun.Guarded kernelStep IdleStays kernel calls)
    (run : LabelledRun.exec kernelStep kernel calls = some reached)
    (enough : ROUND_TICKS ≤ calls.countP isTick) : Selects slot kernel calls := by
  by_contra unselected
  obtain ⟨safeReached, sliceReached⟩ := exec_slice safe slice stays run
  obtain ⟨stillReady, paid⟩ := exec_patience safe slice ready stays run unselected
  have most : patience slot kernel ≤ ROUND_TICKS := patience_le slot kernel
  have left := patience_pos safeReached sliceReached stillReady
  omega

/-- By induction on the operations, up to the wake tick and a round from there. -/
theorem sleeper_selected (safe : Safe kernel) (slice : kernel.ticksOnCurrent < TIME_SLICE_TICKS)
    (sleeping : Sleeping wakeTick (kernel.tasks slot))
    (stays : LabelledRun.Guarded kernelStep IdleStays kernel calls)
    (consecutive : LabelledRun.Guarded kernelStep Consecutive kernel calls)
    (run : LabelledRun.exec kernelStep kernel calls = some reached)
    (word : wakeTick < Word64.modulus) (ahead : kernel.tickCount < wakeTick)
    (enough : wakeTick + ROUND_TICKS ≤ kernel.tickCount + calls.countP isTick) :
    Selects slot kernel calls := by
  induction calls generalizing kernel with
  | nil =>
      rw [List.countP_nil] at enough
      omega
  | cons call rest ih =>
      rw [List.countP_cons] at enough
      obtain ⟨_, stepped, continued⟩ := LabelledRun.exec_cons_eq_some.mp run
      obtain ⟨performed, result, rfl⟩ := perform_of_kernelStep stepped
      have counts : kernel.tickCount + 1 < Word64.modulus := by omega
      have safeNext := kernelStep_safe safe stays.1 stepped
      obtain ⟨prepared, prepares, _, outcome⟩ := perform_outcome safe stays.1 result
      have sliceNext := outcome.slice (prepare_slice slice prepares)
      by_cases due : isTick call = true ∧ kernel.tickCount + 1 = wakeTick
      · obtain ⟨currentTick, rfl⟩ : ∃ currentTick, call = .tick currentTick := by
          cases call with
          | tick currentTick => exact ⟨currentTick, rfl⟩
          | _ => cases due.1
        have counted : currentTick = Word64.add kernel.tickCount 1 := consecutive.1
        rw [Word64.add_eq counts, due.2] at counted
        have stored : wakeTick ≠ 0 := by omega
        have woken := tick_wakes safe sleeping stored (Nat.le_of_eq counted.symm) result
        rcases woken.2.2 with ready | now
        · refine ⟨performed, result, Or.inr ?_⟩
          refine ready_selected safeNext sliceNext ready (stays.2 _ stepped) continued ?_
          rw [if_pos due.1] at enough
          omega
        · exact ⟨performed, result, Or.inl now⟩
      · have before : kernel.tickCount + (if isTick call then 1 else 0) < wakeTick := by
          split
          · rename_i ticks
            have other : kernel.tickCount + 1 ≠ wakeTick := fun same => due ⟨ticks, same⟩
            omega
          · omega
        have early := early_of_consecutive consecutive.1 counts before
        have counted := kernelStep_tickCount safe stays.1 consecutive.1 counts stepped
        refine ⟨performed, result, Or.inr ?_⟩
        refine ih safeNext sliceNext (kernelStep_sleeping safe sleeping stays.1 early stepped)
          (stays.2 _ stepped) (consecutive.2 _ stepped) continued ?_ ?_
        · rw [counted]
          exact before
        · rw [counted]
          omega

theorem sleepMs_counters {performed : Performed} {ms : Nat} (safe : Safe kernel)
    (slice : kernel.ticksOnCurrent < TIME_SLICE_TICKS) (stays : kernel.current ≠ idleSlot)
    (result : perform kernel (.sleepMs ms) = .ok performed) :
    performed.kernel.tickCount = kernel.tickCount ∧
      performed.kernel.ticksOnCurrent < TIME_SLICE_TICKS := by
  obtain ⟨prepared, prepares, _, outcome⟩ :=
    @perform_outcome kernel (.sleepMs ms) performed safe stays result
  constructor
  · rw [outcome.rescheduled.tickCount]
    cases prepares
    rfl
  · exact outcome.slice (prepare_slice slice prepares)

/-- A task that sleeps is not selected before its ticks have passed, and is selected at the
latest 93 ticks after that, whatever the other tasks do and however many there are. -/
theorem sleeper_runs_in_time {pmm : Memory.Pmm} {hhdmOffset : Nat}
    {earlier later : List KernelCall} {before reached : Kernel} {asleep : Performed} {ms : Nat}
    (staysBefore : LabelledRun.Guarded kernelStep IdleStays (booted pmm hhdmOffset) earlier)
    (runBefore : LabelledRun.exec kernelStep (booted pmm hhdmOffset) earlier = some before)
    (timely : before.tickCount < 2 ^ 63) (notIdle : before.current ≠ idleSlot)
    (called : perform before (.sleepMs ms) = .ok asleep)
    (stays : LabelledRun.Guarded kernelStep IdleStays asleep.kernel later)
    (consecutive : LabelledRun.Guarded kernelStep Consecutive asleep.kernel later)
    (run : LabelledRun.exec kernelStep asleep.kernel later = some reached) :
    let ticks := max (Word64.mul ms TICKS_PER_SECOND / 1000) 1
    (∀ first second, later = first ++ second → first.countP isTick < ticks →
      ¬ Selects before.current asleep.kernel first) ∧
    (ticks + ROUND_TICKS ≤ later.countP isTick → Selects before.current asleep.kernel later) := by
  intro ticks
  obtain ⟨safe, slice⟩ := exec_slice (booted_safe pmm hhdmOffset) (Nat.zero_lt_succ _)
    staysBefore runBefore
  obtain ⟨_, settled⟩ := exec_settled (booted_safe pmm hhdmOffset)
    (booted_settled pmm hhdmOffset) staysBefore runBefore
  have sleeping := sleepMs_sleeping safe (settled before.current) notIdle called
  obtain ⟨clock, sliceAsleep⟩ := sleepMs_counters safe slice notIdle called
  have stepped : kernelStep before (.sleepMs ms) = some asleep.kernel := by
    rw [kernelStep, called]
  have safeAsleep := @kernelStep_safe before asleep.kernel (.sleepMs ms) safe notIdle stepped
  have words : Word64.modulus = 2 ^ 64 := rfl
  have product : Word64.mul ms TICKS_PER_SECOND < Word64.modulus :=
    Nat.mod_lt _ (by rw [words]; omega)
  have few : ticks < 2 ^ 62 := by
    have few := Nat.div_lt_of_lt_mul (show Word64.mul ms TICKS_PER_SECOND < 1000 * 2 ^ 62 by omega)
    exact Nat.max_lt.mpr ⟨few, by omega⟩
  have wake : wakeAt before ms = before.tickCount + ticks :=
    Word64.add_eq (show before.tickCount + ticks < Word64.modulus by omega)
  have positive : 1 ≤ ticks := Nat.le_max_right _ _
  constructor
  · intro first second split short
    subst split
    refine sleeper_unselected safeAsleep sleeping stays.of_append consecutive.of_append ?_ ?_
    · omega
    · rw [clock, wake]
      omega
  · intro enough
    refine sleeper_selected safeAsleep sliceAsleep sleeping stays consecutive run ?_ ?_ ?_
    · omega
    · rw [clock, wake]
      omega
    · rw [clock, wake]
      omega

def ticksFrom (first count : Nat) : List KernelCall :=
  (List.range count).map fun i => .tick (first + i)

/-- The sample task sleeps for two ticks. -/
theorem sampleKernel_sleeps_in_time :
    ∃ reached, LabelledRun.exec kernelStep (sleepMs sampleBefore 20).kernel (ticksFrom 4 95) =
        some reached ∧
      ¬ Selects sampleBefore.current (sleepMs sampleBefore 20).kernel (ticksFrom 4 1) ∧
      Selects sampleBefore.current (sleepMs sampleBefore 20).kernel (ticksFrom 4 95) := by
  have runs : (LabelledRun.exec kernelStep (sleepMs sampleBefore 20).kernel
      (ticksFrom 4 95)).isSome = true := by
    decide +kernel
  obtain ⟨reached, run⟩ := Option.isSome_iff_exists.mp runs
  have response := @sleeper_runs_in_time samplePmm 0xffff800000000000 sampleStart (ticksFrom 4 95)
    sampleBefore reached (sleepMs sampleBefore 20) 20 (by decide +kernel)
    (Option.some_get _).symm (by decide +kernel) (by decide +kernel) rfl (by decide +kernel)
    (by decide +kernel) run
  exact ⟨reached, run, response.1 (ticksFrom 4 1) (ticksFrom 5 94) (by decide +kernel)
    (by decide +kernel), response.2 (by decide +kernel)⟩

end CustomKernel.Multitask
