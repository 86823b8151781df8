/-
The timer.

The counter of the chip divides its base frequency down to the ticks of the scheduler.
The tick counter wraps.  `sleep_ms` of the timer rounds the milliseconds up to ticks and
reads the counter after each interrupt, until the difference to its first reading is large
enough.
-/

import CustomKernel.Foundation.Word64
import CustomKernel.Multitask.Scheduler

set_option autoImplicit false

namespace CustomKernel.Interrupt

open CustomKernel.Multitask (TICKS_PER_SECOND)

def PIT_CHANNEL0 : Nat := 0x40
def PIT_COMMAND : Nat := 0x43

def PIT_BASE_FREQUENCY : Nat := 1193182

/-- `pit::init` up to the registration of its handler, with the bytes it writes to ports. -/
def initPit : Except Panic (List (Nat × BitVec 8)) :=
  let divisor := PIT_BASE_FREQUENCY / TICKS_PER_SECOND
  if ¬ divisor ≤ 0xffff then .error .pitDivisorOverflow
  else
    .ok [(PIT_COMMAND, 0b00110110#8), (PIT_CHANNEL0, BitVec.ofNat 8 (divisor &&& 0xff)),
      (PIT_CHANNEL0, BitVec.ofNat 8 ((divisor >>> 8) &&& 0xff))]

/-- `ticks_to_wait` of `pit::sleep_ms` -/
def ticksToWait (ms : Nat) : Nat := Word64.add (Word64.mul ms TICKS_PER_SECOND) 999 / 1000

/-- The loop of `pit::sleep_ms` over the readings of the counter; it ends at the one it
returns, or goes on when there is none. -/
def waitLoop (start wanted : Nat) : List Nat → Option Nat
  | [] => none
  | now :: later =>
      if Word64.sub now start < wanted then waitLoop start wanted later else some now

def readings (start : Nat) : Nat → Nat → List Nat
  | _, 0 => []
  | elapsed, count + 1 => Word64.add start elapsed :: readings start (elapsed + 1) count

theorem elapsed_eq {start elapsed : Nat} (small : elapsed < Word64.modulus) :
    Word64.sub (Word64.add start elapsed) start = elapsed := by
  unfold Word64.sub Word64.add
  unfold Word64.modulus at *
  omega

/-- `pit::sleep_ms`, with the first reading of the counter and those of the loop. -/
def sleepMs (start ms : Nat) (later : List Nat) : Option Nat :=
  waitLoop start (ticksToWait ms) later

theorem waitLoop_readings {start wanted elapsed count : Nat} (small : wanted < Word64.modulus)
    (before : elapsed ≤ wanted) (enough : wanted < elapsed + count) :
    waitLoop start wanted (readings start elapsed count) = some (Word64.add start wanted) := by
  induction count generalizing elapsed with
  | zero => omega
  | succ count ih =>
      rw [readings, waitLoop, elapsed_eq (Nat.lt_of_le_of_lt before small)]
      by_cases more : elapsed < wanted
      · rw [if_pos more]
        exact ih (by omega) (by omega)
      · have reached : elapsed = wanted := by omega
        rw [if_neg more, reached]

theorem ticksToWait_lt (ms : Nat) : ticksToWait ms < Word64.modulus := by
  have word := Word64.add_lt (Word64.mul ms TICKS_PER_SECOND) 999
  unfold ticksToWait
  omega

theorem sleepMs_ticks (start : Nat) {ms count : Nat} (enough : ticksToWait ms < count) :
    sleepMs start ms (readings start 0 count) = some (Word64.add start (ticksToWait ms)) :=
  waitLoop_readings (ticksToWait_lt ms) (Nat.zero_le _) (by omega)

end CustomKernel.Interrupt
