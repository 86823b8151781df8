/-
Spinlocks and the interrupt flag.

Acquiring a lock saves the flags and clears the interrupt flag; dropping a guard restores
the flags that this guard saved.  With guards of several locks alive the order of the drops
matters: only the oldest guard of a group has saved the flag as it was before the group.
-/

import CustomKernel.Foundation.LabelledRun
import Mathlib.Data.List.Nodup
import Mathlib.Logic.Function.Basic

set_option autoImplicit false

namespace CustomKernel.Multitask

abbrev Rflags := BitVec 64

/-- IF is bit 9. -/
def interruptFlag (rflags : Rflags) : Bool := rflags.getLsbD 9

def cli (rflags : Rflags) : Rflags := rflags &&& ~~~(1#64 <<< 9)

structure SpinlockGuard (LockId : Type*) where
  lock : LockId
  rflags : Rflags

/-- One processor and its locks; the guards alive, oldest first, and the interrupt flag as it
was when the first guard of the last group was acquired. -/
structure Locks (LockId : Type*) where
  rflags : Rflags
  locked : LockId → Bool
  guards : List (SpinlockGuard LockId)
  before : Bool

inductive LockEvent (LockId : Type*) where
  | acquire (lock : LockId)
  | drop (lock : LockId)

namespace Locks

variable {LockId : Type*}

def start (rflags : Rflags) : Locks LockId :=
  { rflags := rflags
    locked := fun _ => false
    guards := []
    before := interruptFlag rflags }

section step

variable [DecidableEq LockId]

def acquire (locks : Locks LockId) (lock : LockId) : Locks LockId :=
  { rflags := cli locks.rflags
    locked := Function.update locks.locked lock true
    guards := locks.guards ++ [{ lock := lock, rflags := locks.rflags }]
    before := if locks.guards.isEmpty then interruptFlag locks.rflags else locks.before }

def drop (locks : Locks LockId) (guard : SpinlockGuard LockId) : Locks LockId :=
  { locks with
    rflags := guard.rflags
    locked := Function.update locks.locked guard.lock false
    guards := locks.guards.filter fun other => other.lock ≠ guard.lock }

def step (locks : Locks LockId) : LockEvent LockId → Option (Locks LockId)
  | .acquire lock => if locks.locked lock then none else some (locks.acquire lock)
  | .drop lock => (locks.guards.find? fun guard => guard.lock = lock).map locks.drop

end step

/-! ### The promise and its condition -/

/-- Interrupts are off while a guard is alive and restored after the last one, and a lock is
marked while its guard is alive. -/
structure InterruptsOff (locks : Locks LockId) : Prop where
  off : locks.guards ≠ [] → interruptFlag locks.rflags = false
  marked : ∀ lock, locks.locked lock = true ↔ ∃ guard, guard ∈ locks.guards ∧ guard.lock = lock
  restored : locks.guards = [] → interruptFlag locks.rflags = locks.before

/-- If interrupts were on before the group, its oldest guard is dropped last. -/
def OldestLast (locks : Locks LockId) (event : LockEvent LockId) : Prop :=
  locks.before = true → ∀ oldest rest, locks.guards = oldest :: rest →
    event = .drop oldest.lock → rest = []

instance [DecidableEq LockId] (locks : Locks LockId) (event : LockEvent LockId) :
    Decidable (locks.OldestLast event) :=
  match event with
  | .acquire _ => isTrue fun _ _ _ _ other => nomatch other
  | .drop lock =>
      decidable_of_iff
        (locks.before = true → locks.guards.head?.map SpinlockGuard.lock = some lock →
          locks.guards.tail.isEmpty = true)
        (by
          constructor
          · intro found on oldest rest guards dropped
            rw [guards] at found
            rw [LockEvent.drop.inj dropped] at found
            exact List.isEmpty_iff.mp (found on rfl)
          · intro condition on head
            rcases Option.map_eq_some_iff.mp head with ⟨oldest, first, same⟩
            cases guards : locks.guards with
            | nil => rfl
            | cons guard rest =>
                rw [guards] at first
                cases first
                rw [condition on oldest rest guards (congrArg _ same.symm)]
                rfl)

/-! ### The invariant -/

theorem interruptFlag_cli (rflags : Rflags) : interruptFlag (cli rflags) = false := by
  unfold interruptFlag cli
  simp

/-- The oldest guard saved the flag from before the group, the others saved it off. -/
structure Invariant (locks : Locks LockId) : Prop extends InterruptsOff locks where
  oldest : ∀ guard rest, locks.guards = guard :: rest →
    interruptFlag guard.rflags = locks.before ∧
      ∀ other, other ∈ rest → interruptFlag other.rflags = false
  distinct : (locks.guards.map SpinlockGuard.lock).Nodup

theorem start_invariant (rflags : Rflags) : (start rflags : Locks LockId).Invariant where
  off held := absurd rfl held
  marked _ :=
    ⟨fun locked => Bool.noConfusion locked, fun ⟨_, member, _⟩ => nomatch member⟩
  restored _ := rfl
  oldest _ _ same := nomatch same
  distinct := List.nodup_nil

variable [DecidableEq LockId] {locks next : Locks LockId}

theorem Invariant.acquire (invariant : locks.Invariant) {lock : LockId}
    (free : locks.locked lock = false) : (locks.acquire lock).Invariant := by
  have unheld : lock ∉ locks.guards.map SpinlockGuard.lock := by
    intro held
    rcases List.mem_map.mp held with ⟨guard, member, same⟩
    have marked := (invariant.marked lock).mpr ⟨guard, member, same⟩
    rw [free] at marked
    cases marked
  constructor
  case toInterruptsOff =>
    constructor
    case off => exact fun _ => interruptFlag_cli locks.rflags
    case marked =>
      intro other
      change Function.update locks.locked lock true other = true ↔ _
      by_cases same : other = lock
      · rw [same, Function.update_self]
        exact ⟨fun _ => ⟨_, List.mem_append_right _ (List.mem_singleton_self _), rfl⟩,
          fun _ => rfl⟩
      · rw [Function.update_of_ne same, invariant.marked]
        constructor
        · rintro ⟨guard, member, held⟩
          exact ⟨guard, List.mem_append_left _ member, held⟩
        · rintro ⟨guard, member, held⟩
          rcases List.mem_append.mp member with old | new
          · exact ⟨guard, old, held⟩
          · rw [List.mem_singleton.mp new] at held
            exact absurd held.symm same
    case restored =>
      intro none
      exact absurd none (List.append_ne_nil_of_right_ne_nil _ (List.cons_ne_nil _ _))
  case oldest =>
    intro guard rest same
    cases guards : locks.guards with
    | nil =>
        change locks.guards ++ _ = _ at same
        rw [guards] at same
        cases same
        constructor
        · change _ = if locks.guards.isEmpty then _ else _
          rw [guards]
          rfl
        · exact fun other member => nomatch member
    | cons first others =>
        change locks.guards ++ _ = _ at same
        rw [guards] at same
        cases same
        have saved := invariant.oldest _ _ guards
        have off := invariant.off (by rw [guards]; exact List.cons_ne_nil _ _)
        constructor
        · change _ = if locks.guards.isEmpty then _ else _
          rw [guards]
          exact saved.1
        · intro other member
          rcases List.mem_append.mp member with old | new
          · exact saved.2 other old
          · rw [List.mem_singleton.mp new]
            exact off
  case distinct =>
    change ((locks.guards ++ _).map SpinlockGuard.lock).Nodup
    rw [List.map_append]
    exact List.nodup_append_comm.mp (List.nodup_cons.mpr ⟨unheld, invariant.distinct⟩)

theorem mem_left {guard other : SpinlockGuard LockId}
    (member : other ∈ (locks.drop guard).guards) : other ∈ locks.guards ∧ other.lock ≠ guard.lock := by
  rcases List.mem_filter.mp member with ⟨inside, different⟩
  exact ⟨inside, of_decide_eq_true different⟩

theorem Invariant.drop_marked (invariant : locks.Invariant) (guard : SpinlockGuard LockId)
    (lock : LockId) : (locks.drop guard).locked lock = true ↔
      ∃ other, other ∈ (locks.drop guard).guards ∧ other.lock = lock := by
  change Function.update locks.locked guard.lock false lock = true ↔ _
  by_cases same : lock = guard.lock
  · rw [same, Function.update_self]
    constructor
    · exact fun locked => Bool.noConfusion locked
    · rintro ⟨other, member, held⟩
      exact absurd held (mem_left member).2
  · rw [Function.update_of_ne same, invariant.marked]
    constructor
    · rintro ⟨other, member, held⟩
      refine ⟨other, List.mem_filter.mpr ⟨member, ?_⟩, held⟩
      rw [held]
      exact decide_eq_true same
    · rintro ⟨other, member, held⟩
      exact ⟨other, (mem_left member).1, held⟩

theorem drop_distinct (invariant : locks.Invariant) (guard : SpinlockGuard LockId) :
    ((locks.drop guard).guards.map SpinlockGuard.lock).Nodup :=
  invariant.distinct.sublist (List.filter_sublist.map SpinlockGuard.lock)

theorem Invariant.drop_oldest {guard : SpinlockGuard LockId} {rest : List (SpinlockGuard LockId)}
    (invariant : locks.Invariant) (guards : locks.guards = guard :: rest) :
    (locks.drop guard).guards = rest := by
  have distinct := invariant.distinct
  rw [guards, List.map_cons, List.nodup_cons] at distinct
  change locks.guards.filter _ = rest
  rw [guards, List.filter_cons_of_neg (by simp)]
  apply List.filter_eq_self.mpr
  intro other member
  apply decide_eq_true
  intro same
  exact distinct.1 (List.mem_map.mpr ⟨other, member, same⟩)

theorem drop_younger {oldest guard : SpinlockGuard LockId} {rest : List (SpinlockGuard LockId)}
    (guards : locks.guards = oldest :: rest) (younger : oldest.lock ≠ guard.lock) :
    (locks.drop guard).guards = oldest :: rest.filter fun other => other.lock ≠ guard.lock := by
  change locks.guards.filter _ = _
  rw [guards]
  exact List.filter_cons_of_pos (decide_eq_true younger)

theorem Invariant.drop_of_oldest {guard : SpinlockGuard LockId}
    {rest : List (SpinlockGuard LockId)} (invariant : locks.Invariant)
    (guards : locks.guards = guard :: rest) (last : locks.before = true → rest = []) :
    (locks.drop guard).Invariant := by
  have saved := invariant.oldest guard rest guards
  have left := invariant.drop_oldest guards
  have wasOff (more : rest ≠ []) : locks.before = false :=
    Bool.eq_false_iff.mpr (fun on => more (last on))
  constructor
  case toInterruptsOff =>
    constructor
    case off =>
      intro held
      rw [left] at held
      exact saved.1.trans (wasOff held)
    case marked => exact invariant.drop_marked guard
    case restored => exact fun _ => saved.1
  case oldest =>
    intro next others same
    rw [left] at same
    have off : locks.before = false := wasOff (by rw [same]; exact List.cons_ne_nil _ _)
    rw [same] at saved
    exact ⟨(saved.2 next (List.mem_cons_self ..)).trans off.symm,
      fun other member => saved.2 other (List.mem_cons_of_mem _ member)⟩
  case distinct => exact drop_distinct invariant guard

theorem Invariant.drop_of_younger {oldest guard : SpinlockGuard LockId}
    {rest : List (SpinlockGuard LockId)} (invariant : locks.Invariant)
    (guards : locks.guards = oldest :: rest) (younger : guard ∈ rest) :
    (locks.drop guard).Invariant := by
  have saved := invariant.oldest oldest rest guards
  have different : oldest.lock ≠ guard.lock := by
    intro same
    have distinct := invariant.distinct
    rw [guards, List.map_cons, List.nodup_cons] at distinct
    exact distinct.1 (List.mem_map.mpr ⟨guard, younger, same.symm⟩)
  have left := drop_younger guards different
  constructor
  case toInterruptsOff =>
    constructor
    case off => exact fun _ => saved.2 guard younger
    case marked => exact invariant.drop_marked guard
    case restored =>
      intro none
      rw [left] at none
      cases none
  case oldest =>
    intro first others same
    rw [left] at same
    cases same
    exact ⟨saved.1, fun other member => saved.2 other (List.mem_filter.mp member).1⟩
  case distinct => exact drop_distinct invariant guard

theorem step_drop {lock : LockId} (stepped : locks.step (.drop lock) = some next) :
    ∃ guard, guard ∈ locks.guards ∧ guard.lock = lock ∧ next = locks.drop guard := by
  rcases Option.map_eq_some_iff.mp stepped with ⟨guard, found, same⟩
  have meets := List.find?_some found
  exact ⟨guard, List.mem_of_find?_eq_some found, of_decide_eq_true meets, same.symm⟩

theorem Invariant.step {event : LockEvent LockId} (invariant : locks.Invariant)
    (condition : locks.OldestLast event) (stepped : locks.step event = some next) :
    next.Invariant := by
  cases event with
  | acquire lock =>
      cases marked : locks.locked lock with
      | true =>
          rw [Locks.step, marked] at stepped
          cases stepped
      | false =>
          rw [Locks.step, marked] at stepped
          cases stepped
          exact invariant.acquire marked
  | drop lock =>
      rcases step_drop stepped with ⟨guard, alive, same, dropped⟩
      subst dropped same
      cases guards : locks.guards with
      | nil =>
          rw [guards] at alive
          cases alive
      | cons oldest rest =>
          have member := alive
          rw [guards] at member
          rcases List.mem_cons.mp member with first | younger
          · subst first
            exact invariant.drop_of_oldest guards
              (fun on => condition on guard rest guards rfl)
          · exact invariant.drop_of_younger guards younger

theorem Invariant.needed {event : LockEvent LockId} (invariant : locks.Invariant)
    (stepped : locks.step event = some next) (promise : next.InterruptsOff) :
    locks.OldestLast event := by
  intro on oldest rest guards dropped
  subst dropped
  rcases step_drop stepped with ⟨guard, alive, same, after⟩
  subst after
  have there : oldest ∈ locks.guards := by
    rw [guards]
    exact List.mem_cons_self ..
  have first : guard = oldest := List.inj_on_of_nodup_map invariant.distinct alive there same
  subst first
  by_contra more
  have off := promise.off (by rw [invariant.drop_oldest guards]; exact more)
  have restored := (invariant.oldest guard rest guards).1
  rw [on] at restored
  change interruptFlag guard.rflags = false at off
  rw [restored] at off
  cases off

/-! ### Every sequence -/

/-- In every state passed the promise holds, exactly if no group that began with interrupts on
loses its oldest guard before the others. -/
theorem interrupts_off_while_held {rflags : Rflags} {events : List (LockEvent LockId)}
    {final : Locks LockId} (reached : LabelledRun.exec step (start rflags) events = some final) :
    (∀ first second middle, events = first ++ second →
      LabelledRun.exec step (start rflags) first = some middle → middle.InterruptsOff) ↔
    LabelledRun.Guarded step OldestLast (start rflags) events :=
  LabelledRun.passed_iff_guarded
    (fun _ _ _ invariant condition stepped => invariant.step condition stepped)
    (fun _ invariant => invariant.toInterruptsOff)
    (fun _ _ _ invariant stepped promise => invariant.needed stepped promise)
    (start_invariant rflags) reached

def nestedUse : List (LockEvent Nat) := [.acquire 0, .acquire 1, .drop 1, .drop 0]

theorem nestedUse_restores :
    ∃ final, LabelledRun.exec step (start 0x202#64) nestedUse = some final ∧
      ∀ first second middle, nestedUse = first ++ second →
        LabelledRun.exec step (start 0x202#64) first = some middle → middle.InterruptsOff :=
  ⟨_, rfl, (interrupts_off_while_held rfl).mpr (by decide)⟩

/-- The first guard is dropped before the second. -/
theorem overlapping_guards_enable_interrupts :
    ∃ middle final : Locks Nat,
      LabelledRun.exec step (start 0x202#64) [.acquire 0, .acquire 1, .drop 0] = some middle ∧
      middle.guards ≠ [] ∧ interruptFlag middle.rflags = true ∧
      LabelledRun.exec step (start 0x202#64) [.acquire 0, .acquire 1, .drop 0, .drop 1] =
        some final ∧
      final.guards = [] ∧ final.before = true ∧ interruptFlag final.rflags = false :=
  ⟨_, _, rfl, List.cons_ne_nil _ _, by decide, rfl, rfl, by decide, by decide⟩

end Locks

end CustomKernel.Multitask
