/-
How long a sleep lasts.

The scheduler rounds the milliseconds down to ticks, and up to one tick; the timer rounds
them up.  Both multiply first, in 64 bits.  They agree on whole ticks, on which the
scheduler sleeps long enough, and the shell asks for nothing else.
-/

import CustomKernel.Interrupt.Pit
import CustomKernel.Multitask.SchedulerSafety
import CustomKernel.Shell.CommandLine

set_option autoImplicit false

namespace CustomKernel.SimpleShell

open Multitask
open Device (Byte)

def schedulerTicks (ms : Nat) : Nat := max (Word64.mul ms TICKS_PER_SECOND / 1000) 1

theorem wakeAt_eq (kernel : Kernel) (ms : Nat) :
    wakeAt kernel ms = Word64.add kernel.tickCount (schedulerTicks ms) := rfl

/-- The sleep lasts as long as it was asked for, its end lies ahead, and the timer would wait
as many ticks. -/
structure LongEnough (kernel : Kernel) (ms : Nat) : Prop where
  whole : ms * TICKS_PER_SECOND ≤ schedulerTicks ms * 1000
  ahead : kernel.tickCount < wakeAt kernel ms
  agrees : 0 < ms → schedulerTicks ms = Interrupt.ticksToWait ms

/-- The product with the round-up fits, and the milliseconds are at most one tick or whole
ticks. -/
def WholeTicks (ms : Nat) : Prop :=
  ms * TICKS_PER_SECOND + 999 < Word64.modulus ∧ (ms ≤ 10 ∨ ms % 10 = 0)

instance (ms : Nat) : Decidable (WholeTicks ms) := inferInstanceAs (Decidable (_ ∧ _))

variable {kernel : Kernel} {ms : Nat}

theorem schedulerTicks_lt (ms : Nat) : schedulerTicks ms * 1000 < Word64.modulus := by
  have word : Word64.mul ms TICKS_PER_SECOND < Word64.modulus := Nat.mod_lt _ (by decide)
  unfold schedulerTicks
  unfold Word64.modulus at *
  omega

theorem wakeAt_ahead (timely : kernel.tickCount < 2 ^ 63) (ms : Nat) :
    kernel.tickCount < wakeAt kernel ms := by
  have few := schedulerTicks_lt ms
  have one : 1 ≤ schedulerTicks ms := Nat.le_max_right ..
  have words : Word64.modulus = 2 ^ 64 := rfl
  rw [wakeAt_eq, Word64.add_eq (by omega)]
  omega

theorem ticks_of_fits (fits : ms * TICKS_PER_SECOND + 999 < Word64.modulus) :
    schedulerTicks ms = max (ms / 10) 1 ∧ Interrupt.ticksToWait ms = (ms + 9) / 10 := by
  have hundred : ms * TICKS_PER_SECOND = ms * 100 := rfl
  have product : Word64.mul ms TICKS_PER_SECOND = ms * TICKS_PER_SECOND :=
    Word64.mul_eq (by omega)
  unfold schedulerTicks Interrupt.ticksToWait
  rw [product, Word64.add_eq fits]
  omega

theorem longEnough_of_wholeTicks (timely : kernel.tickCount < 2 ^ 63) (whole : WholeTicks ms) :
    LongEnough kernel ms := by
  have hundred : ms * TICKS_PER_SECOND = ms * 100 := rfl
  rcases ticks_of_fits whole.1 with ⟨scheduler, timer⟩
  have rounded := whole.2
  constructor
  case whole =>
    rw [scheduler]
    omega
  case ahead => exact wakeAt_ahead timely ms
  case agrees =>
    intro positive
    rw [scheduler, timer]
    omega

/-- Without the room for the round-up the timer would wait for no tick at all. -/
theorem ticksToWait_of_wraps (product : ms * TICKS_PER_SECOND < Word64.modulus)
    (wraps : Word64.modulus ≤ ms * TICKS_PER_SECOND + 999) : Interrupt.ticksToWait ms = 0 := by
  unfold Interrupt.ticksToWait
  rw [Word64.mul_eq product]
  unfold Word64.add
  unfold Word64.modulus at *
  omega

/-- Rounding down loses part of a tick, and a product that wraps loses far more. -/
theorem wholeTicks_of_longEnough (long : LongEnough kernel ms) : WholeTicks ms := by
  have hundred : ms * TICKS_PER_SECOND = ms * 100 := rfl
  have words : Word64.modulus = 2 ^ 64 := rfl
  have few := schedulerTicks_lt ms
  have whole := long.whole
  have product : ms * TICKS_PER_SECOND < Word64.modulus := Nat.lt_of_le_of_lt whole few
  have fits : ms * TICKS_PER_SECOND + 999 < Word64.modulus := by
    by_contra tooLarge
    have one : 1 ≤ schedulerTicks ms := Nat.le_max_right ..
    have agrees := long.agrees (by omega)
    rw [ticksToWait_of_wraps product (Nat.le_of_not_lt tooLarge)] at agrees
    omega
  rcases ticks_of_fits fits with ⟨scheduler, _⟩
  rw [scheduler] at whole
  exact ⟨fits, by omega⟩

/-! ### The sleep command -/

theorem parseDecimal_getD_lt (bytes : List Byte) : (parseDecimal bytes).getD 1 < 2 ^ 32 := by
  cases result : parseDecimal bytes with
  | none => exact Nat.one_lt_two_pow (by omega)
  | some v => exact (parseDecimal_eq_some.mp result).2.2.2

theorem meant_sleep {verb text : List Byte} {arguments : List (List Byte)} {secs : Nat}
    (command : meant verb arguments text = .sleep secs) :
    secs = (parseDecimal (arguments.headD [])).getD 1 := by
  unfold meant at command
  cases found : builtins.lookup verb with
  | some builtin =>
      rw [found] at command
      cases command
  | none =>
      rw [found] at command
      dsimp only at command
      split at command
      · cases command
      · split at command
        · cases command
        · split at command
          · cases command
          · split at command
            · exact (Command.sleep.inj command).symm
            · split at command <;> cases command

theorem sleep_secs_lt {line : List Byte} {secs : Nat}
    (parsed : parseLine line = some (some (.sleep secs))) : secs < 2 ^ 32 := by
  cases split : words line with
  | nil =>
      rw [parseLine_blank split] at parsed
      cases parsed
  | cons verb arguments =>
      rcases parseLine_words split with ⟨text, _, same⟩
      rw [parsed] at same
      rw [meant_sleep (Option.some.inj (Option.some.inj same)).symm]
      exact parseDecimal_getD_lt _

theorem sleepArgument_wholeTicks {secs : Nat} (small : secs < 2 ^ 32) :
    WholeTicks (sleepArgument secs) := by
  have words : Word64.modulus = 2 ^ 64 := rfl
  have argument : sleepArgument secs = secs * 1000 := Word64.mul_eq (by omega)
  have hundred : sleepArgument secs * TICKS_PER_SECOND = sleepArgument secs * 100 := rfl
  exact ⟨by omega, Or.inr (by omega)⟩

/-- A sleep is long enough and agrees with the timer exactly for whole ticks, and so is every
sleep that a command line asks for. -/
theorem no_sleep_cut_short (timely : kernel.tickCount < 2 ^ 63) :
    (∀ ms, LongEnough kernel ms ↔ WholeTicks ms) ∧
      ∀ line secs, parseLine line = some (some (.sleep secs)) →
        LongEnough kernel (sleepArgument secs) := by
  constructor
  · intro ms
    exact ⟨wholeTicks_of_longEnough, longEnough_of_wholeTicks timely⟩
  · intro line secs parsed
    exact longEnough_of_wholeTicks timely (sleepArgument_wholeTicks (sleep_secs_lt parsed))

/-- Half a second, as the first demo task sleeps, and the line `sleep 3`. -/
theorem sample_sleeps :
    LongEnough sampleKernel 500 ∧ LongEnough sampleKernel (sleepArgument 3) := by
  have found := no_sleep_cut_short (show sampleKernel.tickCount < 2 ^ 63 by decide)
  constructor
  · exact (found.1 500).mpr (by decide)
  · exact found.2 (ascii "sleep 3") 3 (by decide)

/-- Fifteen milliseconds last one tick, and the timer would wait two. -/
theorem fifteen_cut_short :
    schedulerTicks 15 * 1000 < 15 * TICKS_PER_SECOND ∧
      wakeAt sampleKernel 15 = sampleKernel.tickCount + 1 ∧ Interrupt.ticksToWait 15 = 2 := by
  decide

end CustomKernel.SimpleShell
