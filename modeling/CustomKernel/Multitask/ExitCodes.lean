/-
Which exit code a waiter gets.

`exit` wakes all waiters, but the code stays in the slot of the ended task, and the
first waiter to look there empties the slot.  A call of `wait_for` that began while
the task was alive therefore returns the task's code if nobody else takes it first.
The calls in progress and the codes passed to `exit` are recorded beside the kernel.
-/

import CustomKernel.Foundation.LabelledRun
import CustomKernel.Multitask.Lives
import CustomKernel.Multitask.SchedulerSafety

set_option autoImplicit false

namespace CustomKernel.Multitask

/-- A call of `wait_for` in progress.  It is early if another task had the pid and
had not exited when the call began. -/
structure WaitCall where
  pid : Nat
  early : Bool
  deriving DecidableEq

/-- The kernel, the calls of `wait_for` in progress and the last code each pid passed
to `exit`. -/
structure Waits where
  kernel : Kernel
  calls : Slot → Option WaitCall
  codes : Nat → Option Int

def beginWait (kernel : Kernel) (pid : Nat) : WaitCall :=
  { pid := pid
    early := decide (∃ slot, slot ≠ kernel.current ∧ kernel.lives slot = .alive pid) }

namespace Waits

def activeCall (waits : Waits) (pid : Nat) : WaitCall :=
  (waits.calls waits.kernel.current).getD (beginWait waits.kernel pid)

/-- A task inside `wait_for` goes on with its loop; the timer may tick at any time. -/
def Possible (waits : Waits) : KernelCall → Prop
  | .tick _ => True
  | .waitFor pid => (waits.activeCall pid).pid = pid
  | _ => waits.calls waits.kernel.current = none

instance (waits : Waits) : (call : KernelCall) → Decidable (waits.Possible call)
  | .tick _ => isTrue trivial
  | .waitFor pid => inferInstanceAs (Decidable ((waits.activeCall pid).pid = pid))
  | .yieldCpu => inferInstanceAs (Decidable (waits.calls waits.kernel.current = none))
  | .sleepMs _ => inferInstanceAs (Decidable (waits.calls waits.kernel.current = none))
  | .exit _ => inferInstanceAs (Decidable (waits.calls waits.kernel.current = none))
  | .newKernelTask _ => inferInstanceAs (Decidable (waits.calls waits.kernel.current = none))

def callsAfter (waits : Waits) (returned : Option Int) : KernelCall → Slot → Option WaitCall
  | .waitFor pid =>
      Function.update waits.calls waits.kernel.current
        (if returned = none then some (waits.activeCall pid) else none)
  | _ => waits.calls

def codesAfter (waits : Waits) (after : Kernel) : KernelCall → Nat → Option Int
  | .exit code =>
      Function.update waits.codes (waits.kernel.tasks waits.kernel.current).pid (some code)
  | .newKernelTask _ =>
      if after.nextPid = waits.kernel.nextPid then waits.codes
      else Function.update waits.codes waits.kernel.nextPid none
  | _ => waits.codes

def step (waits : Waits) (call : KernelCall) : Option Waits :=
  if waits.Possible call then
    match perform waits.kernel call with
    | .error _ => none
    | .ok performed =>
        some
          { kernel := performed.kernel
            calls := waits.callsAfter performed.returned call
            codes := waits.codesAfter performed.kernel call }
  else none

def ReturnsCode (waits : Waits) : Prop :=
  ∀ pid value, waits.Possible (.waitFor pid) → (waits.activeCall pid).early = true →
    (waitFor waits.kernel pid).returned = some value → waits.codes pid = some value

/-- No waiter takes a code that another early call is still waiting for (unless it is
the value of a failed wait), and no creation reuses a pid that is in use or waited for. -/
def Orderly (waits : Waits) : KernelCall → Prop
  | .waitFor pid =>
      ∀ target, (waits.kernel.tasks target).state = .terminated →
        (waits.kernel.tasks target).pid = pid → (waits.kernel.tasks target).exitCode ≠ -1 →
        ∀ slot, slot ≠ waits.kernel.current →
          waits.calls slot ≠ some { pid := pid, early := true }
  | .newKernelTask _ =>
      ∀ slot, (waits.kernel.lives slot).pid ≠ some waits.kernel.nextPid ∧
        waits.calls slot ≠ some { pid := waits.kernel.nextPid, early := true }
  | _ => True

instance (waits : Waits) : (call : KernelCall) → Decidable (waits.Orderly call)
  | .tick _ => isTrue trivial
  | .yieldCpu => isTrue trivial
  | .sleepMs _ => isTrue trivial
  | .exit _ => isTrue trivial
  | .waitFor pid => inferInstanceAs (Decidable (∀ target,
      (waits.kernel.tasks target).state = .terminated → (waits.kernel.tasks target).pid = pid →
      (waits.kernel.tasks target).exitCode ≠ -1 → ∀ slot, slot ≠ waits.kernel.current →
        waits.calls slot ≠ some { pid := pid, early := true }))
  | .newKernelTask _ => inferInstanceAs (Decidable (∀ slot,
      (waits.kernel.lives slot).pid ≠ some waits.kernel.nextPid ∧
        waits.calls slot ≠ some { pid := waits.kernel.nextPid, early := true }))

end Waits

/-! ### The invariant -/

/-- An early call of `wait_for` will find the task alive, or its code in its slot, or
has missed the code of a task that exited with the value of a failed wait. -/
def Promised (lives : Slot → Life) (codes : Nat → Option Int) (pid : Nat) : Prop :=
  (∃ target, lives target = .alive pid) ∨ (∃ target code, lives target = .ended pid code) ∨
    ((∀ target, (lives target).pid ≠ some pid) ∧ codes pid = some (-1))

/-- What the calls in progress and the codes say about the lives. -/
structure Ledger (lives : Slot → Life) (calls : Slot → Option WaitCall)
    (codes : Nat → Option Int) : Prop where
  distinct : ∀ left right pid, (lives left).pid = some pid → (lives right).pid = some pid →
    left = right
  callers : ∀ slot call, calls slot = some call → ∃ pid, lives slot = .alive pid
  ended : ∀ slot pid code, lives slot = .ended pid code → codes pid = some code
  early : ∀ slot call, calls slot = some call → call.early = true →
    Promised lives codes call.pid

namespace Ledger

variable {lives : Slot → Life} {calls : Slot → Option WaitCall} {codes : Nat → Option Int}

theorem exits {current : Slot} {ownPid : Nat} (ledger : Ledger lives calls codes)
    (own : lives current = .alive ownPid) (idle : calls current = none) (code : Int) :
    Ledger (Function.update lives current (.ended ownPid code)) calls
      (Function.update codes ownPid (some code)) := by
  have elsewhere {slot : Slot} (other : slot ≠ current) :
      Function.update lives current (.ended ownPid code) slot = lives slot :=
    Function.update_of_ne other ..
  have here : Function.update lives current (.ended ownPid code) current = .ended ownPid code :=
    Function.update_self ..
  have pids (slot : Slot) :
      (Function.update lives current (.ended ownPid code) slot).pid = (lives slot).pid := by
    by_cases caller : slot = current
    · rw [caller, here, own]
      rfl
    · rw [elsewhere caller]
  have otherPid {slot : Slot} {pid : Nat} (other : slot ≠ current)
      (held : (lives slot).pid = some pid) : pid ≠ ownPid := by
    rintro rfl
    exact other (ledger.distinct slot current pid held (by rw [own]; rfl))
  constructor
  case distinct =>
    intro left right pid
    rw [pids, pids]
    exact ledger.distinct left right pid
  case callers =>
    intro slot call held
    have other : slot ≠ current := by
      rintro rfl
      rw [idle] at held
      cases held
    rw [elsewhere other]
    exact ledger.callers slot call held
  case ended =>
    intro slot pid value ended
    by_cases caller : slot = current
    · rw [caller, here] at ended
      cases ended
      exact Function.update_self ..
    · rw [elsewhere caller] at ended
      rw [Function.update_of_ne (otherPid caller (by rw [ended]; rfl))]
      exact ledger.ended slot pid value ended
  case early =>
    intro slot call held early
    rcases ledger.early slot call held early with ⟨target, alive⟩ | ⟨target, value, ended⟩ |
      ⟨absent, value⟩
    · by_cases caller : target = current
      · rw [caller, own] at alive
        cases alive
        exact Or.inr (Or.inl ⟨current, code, here⟩)
      · exact Or.inl ⟨target, (elsewhere caller).trans alive⟩
    · have other : target ≠ current := by
        rintro rfl
        rw [own] at ended
        cases ended
      exact Or.inr (Or.inl ⟨target, value, (elsewhere other).trans ended⟩)
    · have different : call.pid ≠ ownPid := by
        rintro same
        exact absent current (by rw [own, same]; rfl)
      refine Or.inr (Or.inr ⟨?_, ?_⟩)
      · intro target
        rw [pids]
        exact absent target
      · rw [Function.update_of_ne different]
        exact value

theorem returns (ledger : Ledger lives calls codes) (current : Slot) :
    Ledger lives (Function.update calls current none) codes := by
  have before {slot : Slot} {call : WaitCall}
      (held : Function.update calls current none slot = some call) : calls slot = some call := by
    by_cases caller : slot = current
    · rw [caller, Function.update_self] at held
      cases held
    · rw [Function.update_of_ne caller] at held
      exact held
  exact
    { distinct := ledger.distinct
      callers := fun slot call held => ledger.callers slot call (before held)
      ended := ledger.ended
      early := fun slot call held => ledger.early slot call (before held) }

theorem blocks {current : Slot} {ownPid : Nat} {active : WaitCall}
    (ledger : Ledger lives calls codes) (own : lives current = .alive ownPid)
    (promised : active.early = true → Promised lives codes active.pid) :
    Ledger lives (Function.update calls current (some active)) codes where
  distinct := ledger.distinct
  callers slot call held := by
    by_cases caller : slot = current
    · exact ⟨ownPid, caller ▸ own⟩
    · rw [Function.update_of_ne caller] at held
      exact ledger.callers slot call held
  ended := ledger.ended
  early slot call held early := by
    by_cases caller : slot = current
    · rw [caller, Function.update_self] at held
      cases held
      exact promised early
    · rw [Function.update_of_ne caller] at held
      exact ledger.early slot call held early

theorem reaps {target : Slot} {pid : Nat} {code : Int} (ledger : Ledger lives calls codes)
    (ended : lives target = .ended pid code)
    (last : code ≠ -1 → ∀ slot call, calls slot = some call → call.early = true →
      call.pid ≠ pid) :
    Ledger (Function.update lives target .absent) calls codes := by
  have elsewhere {slot : Slot} (other : slot ≠ target) :
      Function.update lives target .absent slot = lives slot :=
    Function.update_of_ne other ..
  have here : Function.update lives target .absent target = .absent := Function.update_self ..
  have pids {slot : Slot} {held : Nat}
      (same : (Function.update lives target .absent slot).pid = some held) :
      slot ≠ target ∧ (lives slot).pid = some held := by
    by_cases removed : slot = target
    · rw [removed, here] at same
      cases same
    · rw [elsewhere removed] at same
      exact ⟨removed, same⟩
  constructor
  case distinct =>
    intro left right held leftPid rightPid
    exact ledger.distinct left right held (pids leftPid).2 (pids rightPid).2
  case callers =>
    intro slot call held
    obtain ⟨ownPid, alive⟩ := ledger.callers slot call held
    have other : slot ≠ target := by
      rintro rfl
      rw [ended] at alive
      cases alive
    exact ⟨ownPid, (elsewhere other).trans alive⟩
  case ended =>
    intro slot held value stored
    have other := (pids (by rw [stored]; rfl)).1
    rw [elsewhere other] at stored
    exact ledger.ended slot held value stored
  case early =>
    intro slot call held early
    rcases ledger.early slot call held early with ⟨other, alive⟩ | ⟨other, value, stored⟩ |
      ⟨absent, value⟩
    · have different : other ≠ target := by
        rintro rfl
        rw [ended] at alive
        cases alive
      exact Or.inl ⟨other, (elsewhere different).trans alive⟩
    · by_cases removed : other = target
      · rw [removed, ended] at stored
        cases stored
        have failed : code = -1 := by
          by_contra different
          exact last different slot call held early rfl
        refine Or.inr (Or.inr ⟨?_, ?_⟩)
        · intro remaining same
          obtain ⟨different, before⟩ := pids same
          exact different (ledger.distinct remaining target _ before (by rw [ended]; rfl))
        · rw [← failed]
          exact ledger.ended target _ code ended
      · exact Or.inr (Or.inl ⟨other, value, (elsewhere removed).trans stored⟩)
    · refine Or.inr (Or.inr ⟨?_, value⟩)
      intro remaining same
      exact absent remaining (pids same).2

theorem creates {slot : Slot} {pid : Nat} (ledger : Ledger lives calls codes)
    (free : lives slot = .absent) (unused : ∀ other, (lives other).pid ≠ some pid)
    (unawaited : ∀ other call, calls other = some call → call.early = true → call.pid ≠ pid) :
    Ledger (Function.update lives slot (.alive pid)) calls (Function.update codes pid none) := by
  have elsewhere {other : Slot} (different : other ≠ slot) :
      Function.update lives slot (.alive pid) other = lives other :=
    Function.update_of_ne different ..
  have here : Function.update lives slot (.alive pid) slot = .alive pid := Function.update_self ..
  constructor
  case distinct =>
    intro left right held leftPid rightPid
    by_cases leftNew : left = slot
    · by_cases rightNew : right = slot
      · rw [leftNew, rightNew]
      · rw [elsewhere rightNew] at rightPid
        rw [leftNew, here] at leftPid
        cases leftPid
        exact absurd rightPid (unused right)
    · rw [elsewhere leftNew] at leftPid
      by_cases rightNew : right = slot
      · rw [rightNew, here] at rightPid
        cases rightPid
        exact absurd leftPid (unused left)
      · rw [elsewhere rightNew] at rightPid
        exact ledger.distinct left right held leftPid rightPid
  case callers =>
    intro other call held
    obtain ⟨ownPid, alive⟩ := ledger.callers other call held
    have different : other ≠ slot := by
      rintro rfl
      rw [free] at alive
      cases alive
    exact ⟨ownPid, (elsewhere different).trans alive⟩
  case ended =>
    intro other held value stored
    have different : other ≠ slot := by
      rintro rfl
      rw [here] at stored
      cases stored
    rw [elsewhere different] at stored
    have otherPid : held ≠ pid := by
      rintro rfl
      exact unused other (by rw [stored]; rfl)
    rw [Function.update_of_ne otherPid]
    exact ledger.ended other held value stored
  case early =>
    intro other call held early
    have otherPid := unawaited other call held early
    rcases ledger.early other call held early with ⟨target, alive⟩ | ⟨target, value, stored⟩ |
      ⟨absent, value⟩
    · have different : target ≠ slot := by
        rintro rfl
        rw [free] at alive
        cases alive
      exact Or.inl ⟨target, (elsewhere different).trans alive⟩
    · have different : target ≠ slot := by
        rintro rfl
        rw [free] at stored
        cases stored
      exact Or.inr (Or.inl ⟨target, value, (elsewhere different).trans stored⟩)
    · refine Or.inr (Or.inr ⟨?_, ?_⟩)
      · intro target same
        by_cases new : target = slot
        · rw [new, here] at same
          cases same
          exact otherPid rfl
        · rw [elsewhere new] at same
          exact absent target same
      · rw [Function.update_of_ne otherPid]
        exact value

end Ledger

/-! ### Runs -/

namespace Waits

structure Invariant (waits : Waits) : Prop where
  running : (waits.kernel.tasks waits.kernel.current).state = .running
  ledger : Ledger waits.kernel.lives waits.calls waits.codes

variable {waits : Waits}

theorem Invariant.own (invariant : waits.Invariant) :
    waits.kernel.lives waits.kernel.current =
      .alive (waits.kernel.tasks waits.kernel.current).pid :=
  Task.life_alive.mpr ⟨by simp [invariant.running], by simp [invariant.running], rfl⟩

theorem Invariant.active_promised (invariant : waits.Invariant) {pid : Nat}
    (possible : waits.Possible (.waitFor pid)) (early : (waits.activeCall pid).early = true) :
    Promised waits.kernel.lives waits.codes pid := by
  cases calls : waits.calls waits.kernel.current with
  | none =>
      have active : waits.activeCall pid = beginWait waits.kernel pid := by
        rw [activeCall, calls, Option.getD_none]
      rw [active] at early
      obtain ⟨target, _, alive⟩ := of_decide_eq_true early
      exact Or.inl ⟨target, alive⟩
  | some call =>
      have active : waits.activeCall pid = call := by
        rw [activeCall, calls, Option.getD_some]
      have same : call.pid = pid := active ▸ possible
      rw [active] at early
      rw [← same]
      exact invariant.ledger.early _ call calls early

/-- While the promises are kept an early call returns the right code. -/
theorem Invariant.returnsCode (invariant : waits.Invariant) : waits.ReturnsCode := by
  intro pid value possible early returned
  have promised := invariant.active_promised possible early
  obtain ⟨step, _⟩ := @perform_lives waits.kernel (.waitFor pid) _ invariant.running rfl
  rw [returned] at step
  generalize (waitFor waits.kernel pid).kernel = after at step
  cases step with
  | missing _ _ none _ _ =>
      rcases promised with ⟨target, alive⟩ | ⟨target, code, ended⟩ | ⟨_, code⟩
      · exact absurd alive (none target).1
      · exact absurd ended ((none target).2 code)
      · exact code
  | reaps _ _ target _ ended _ _ => exact invariant.ledger.ended target pid value ended

theorem Invariant.step {call : KernelCall} {next : Waits} (invariant : waits.Invariant)
    (orderly : waits.Orderly call) (stepped : waits.step call = some next) :
    next.Invariant := by
  unfold Waits.step at stepped
  by_cases possible : waits.Possible call
  · rw [if_pos possible] at stepped
    cases result : perform waits.kernel call with
    | error panic =>
        rw [result] at stepped
        cases stepped
    | ok performed =>
        rw [result] at stepped
        cases stepped
        obtain ⟨life, running⟩ := perform_lives invariant.running result
        refine { running := running, ledger := ?_ }
        have ledger := invariant.ledger
        dsimp only
        generalize performed.kernel = after at life running ⊢
        generalize performed.returned = returned at life ⊢
        cases life with
        | same _ _ notExit notWait lives nextPid =>
            have calls : waits.callsAfter none call = waits.calls := by
              cases call with
              | waitFor pid => exact absurd rfl (notWait pid)
              | _ => rfl
            have codes : waits.codesAfter after call = waits.codes := by
              cases call with
              | exit code => exact absurd rfl (notExit code)
              | newKernelTask entry => exact if_pos nextPid
              | _ => rfl
            rw [lives, calls, codes]
            exact ledger
        | exits code _ lives _ =>
            rw [lives]
            exact ledger.exits invariant.own possible code
        | missing pid _ _ lives _ =>
            rw [lives]
            exact ledger.returns _
        | reaps pid code target _ ended lives _ =>
            rw [lives]
            apply (ledger.returns waits.kernel.current).reaps ended
            intro notFailed slot other held early
            have elsewhere : slot ≠ waits.kernel.current := by
              rintro rfl
              rw [Function.update_self] at held
              cases held
            rw [Function.update_of_ne elsewhere] at held
            obtain ⟨terminated, samePid, stored⟩ := Task.life_ended.mp ended
            rintro rfl
            apply orderly target terminated samePid (stored.symm ▸ notFailed) slot elsewhere
            rw [held, ← early]
        | blocks pid target _ _ lives _ =>
            rw [lives]
            apply ledger.blocks invariant.own
            intro early
            have same : (waits.activeCall pid).pid = pid := possible
            rw [same]
            exact invariant.active_promised possible early
        | creates entry slot _ free lives nextPid =>
            have counted : after.nextPid ≠ waits.kernel.nextPid := by
              rw [nextPid]
              omega
            have codes : waits.codesAfter after (.newKernelTask entry) =
                Function.update waits.codes waits.kernel.nextPid none := if_neg counted
            rw [lives, codes]
            apply ledger.creates free (fun other => (orderly other).1)
            rintro other call held early samePid
            apply (orderly other).2
            rw [held, ← samePid, ← early]
  · rw [if_neg possible] at stepped
    cases stepped

def initial (pmm : Memory.Pmm) (hhdmOffset : Nat) : Waits :=
  { kernel := booted pmm hhdmOffset, calls := fun _ => none, codes := fun _ => none }

theorem initial_invariant (pmm : Memory.Pmm) (hhdmOffset : Nat) :
    (initial pmm hhdmOffset).Invariant := by
  have only (slot : Slot) (pid : Nat)
      (held : ((booted pmm hhdmOffset).lives slot).pid = some pid) : slot = 0 := by
    apply @booted_used pmm hhdmOffset
    intro empty
    rw [Kernel.lives, Task.life_empty.mpr empty] at held
    cases held
  refine { running := congrArg Task.state (booted_idle pmm hhdmOffset), ledger := ?_ }
  constructor
  case distinct =>
    intro left right pid leftPid rightPid
    rw [only left pid leftPid, only right pid rightPid]
  case callers =>
    intro slot call held
    cases held
  case ended =>
    intro slot pid code ended
    have zero := only slot pid (by rw [show (booted pmm hhdmOffset).lives slot = _ from ended]; rfl)
    rw [zero] at ended
    have terminated := (Task.life_ended.mp ended).1
    rw [show (initial pmm hhdmOffset).kernel.tasks 0 = _ from booted_idle pmm hhdmOffset]
      at terminated
    cases terminated
  case early =>
    intro slot call held
    cases held

/-- Every waiter gets the exit code in every run in which no waiter takes a code that
another early call still waits for. -/
theorem waiters_get_exit_code {pmm : Memory.Pmm} {hhdmOffset : Nat} {calls : List KernelCall}
    {reached : Waits}
    (orderly : LabelledRun.Guarded Waits.step Orderly (initial pmm hhdmOffset) calls)
    (run : LabelledRun.exec Waits.step (initial pmm hhdmOffset) calls = some reached) :
    reached.ReturnsCode :=
  (LabelledRun.exec_invariant_of_guarded
    (fun _ _ _ invariant orderly stepped => invariant.step orderly stepped)
    (initial_invariant pmm hhdmOffset) orderly run).returnsCode

def soleCalls : List KernelCall :=
  [.newKernelTask 0x1000, .newKernelTask 0x2000, .yieldCpu, .waitFor 2, .exit 7, .yieldCpu]

/-- A lone waiter gets the code. -/
theorem sole_waiter_gets_exit_code :
    ∃ reached, LabelledRun.exec Waits.step (initial samplePmm 0xffff800000000000) soleCalls =
        some reached ∧
      (waitFor reached.kernel 2).returned = some 7 ∧ reached.codes 2 = some 7 := by
  have runs : (LabelledRun.exec Waits.step (initial samplePmm 0xffff800000000000)
      soleCalls).isSome = true := by
    decide +kernel
  obtain ⟨reached, run⟩ := Option.isSome_iff_exists.mp runs
  have observed : (LabelledRun.exec Waits.step (initial samplePmm 0xffff800000000000)
      soleCalls).map (fun waits => (decide (waits.Possible (.waitFor 2)),
        (waits.activeCall 2).early, (waitFor waits.kernel 2).returned)) =
      some (true, true, some 7) := by
    decide +kernel
  rw [run, Option.map_some, Option.some.injEq] at observed
  simp only [Prod.mk.injEq, decide_eq_true_eq] at observed
  obtain ⟨possible, early, returned⟩ := observed
  exact ⟨reached, run, returned,
    waiters_get_exit_code (by decide +kernel) run 2 7 possible early returned⟩

/-- Two tasks wait for a third, which exits with 7; the second waiter gets -1. -/
def rivalCalls : List KernelCall :=
  [.newKernelTask 0x1000, .newKernelTask 0x2000, .newKernelTask 0x3000, .yieldCpu,
    .waitFor 3, .waitFor 3, .exit 7, .yieldCpu, .waitFor 3, .yieldCpu]

theorem rival_misses_exit_code :
    ¬ ∀ reached, LabelledRun.exec Waits.step (initial samplePmm 0xffff800000000000) rivalCalls =
        some reached → reached.ReturnsCode := by
  intro always
  have runs : (LabelledRun.exec Waits.step (initial samplePmm 0xffff800000000000)
      rivalCalls).isSome = true := by
    decide +kernel
  obtain ⟨reached, run⟩ := Option.isSome_iff_exists.mp runs
  have observed : (LabelledRun.exec Waits.step (initial samplePmm 0xffff800000000000)
      rivalCalls).map (fun waits => (decide (waits.Possible (.waitFor 3)),
        (waits.activeCall 3).early, (waitFor waits.kernel 3).returned, waits.codes 3)) =
      some (true, true, some (-1), some 7) := by
    decide +kernel
  rw [run, Option.map_some, Option.some.injEq] at observed
  simp only [Prod.mk.injEq, decide_eq_true_eq] at observed
  obtain ⟨possible, early, returned, code⟩ := observed
  have expected := always reached run 3 (-1) possible early returned
  rw [code] at expected
  cases expected

end Waits

end CustomKernel.Multitask
