/-
Context switches between tasks on stacks of their own.

The tasks share one machine.  The running task changes registers and the bytes of its
stack, prepares new tasks, and switches to a waiting one.  The machine refines a table
of suspended contexts: whatever the tasks do, each of them continues with the context
it had when it called `switch_to`, or with the initial one.
-/

import CustomKernel.Foundation.LabelledRun
import CustomKernel.Multitask.Machine

set_option autoImplicit false

namespace CustomKernel.Multitask

open ByteStore WordStack

variable {TaskId : Type*}

/-- Where the stacks and the fields with the saved stack pointers lie. -/
structure Layout (TaskId : Type*) where
  stackBase : TaskId → Nat
  stackTop : TaskId → Word
  rspField : TaskId → Word
  room : ∀ task, stackBase task + frameSize ≤ (stackTop task).toNat
  stacksApart : ∀ left right, left ≠ right →
    (stackTop left).toNat ≤ stackBase right ∨ (stackTop right).toNat ≤ stackBase left
  fieldsApart : ∀ left right, left ≠ right →
    (rspField left).toNat + 8 ≤ (rspField right).toNat ∨
      (rspField right).toNat + 8 ≤ (rspField left).toNat
  fieldsOffStacks : ∀ task owner,
    (rspField task).toNat + 8 ≤ stackBase owner ∨
      (stackTop owner).toNat ≤ (rspField task).toNat

/-- The machine, the task that runs on it, and which tasks are suspended or fresh. -/
structure Processor (TaskId : Type*) where
  machine : Machine
  running : TaskId
  waiting : TaskId → Bool

def Processor.start (machine : Machine) (first : TaskId) : Processor TaskId :=
  { machine := machine, running := first, waiting := fun _ => false }

inductive MachineEvent (TaskId : Type*) where
  | setRegisters (registers : Register → Word) (rsp rip : Word)
  | store (address : Nat) (byte : BitVec 8)
  | prepare (task : TaskId) (entry : Word)
  | switchTo (next : TaskId) (returnAddress : Word)

/-- The event starts, continues or replaces the task. -/
def MachineEvent.Concerns (task : TaskId) : MachineEvent TaskId → Prop
  | .setRegisters .. => False
  | .store .. => False
  | .prepare other _ => other = task
  | .switchTo next _ => next = task

namespace Layout

variable (layout : Layout TaskId)

def FrameFits (task : TaskId) (rsp : Word) : Prop :=
  layout.stackBase task + frameSize ≤ rsp.toNat ∧ rsp.toNat ≤ (layout.stackTop task).toNat

instance (task : TaskId) (rsp : Word) : Decidable (layout.FrameFits task rsp) :=
  inferInstanceAs (Decidable (_ ∧ _))

def Owns (task : TaskId) (byte : Nat) : Prop :=
  (layout.stackBase task ≤ byte ∧ byte < (layout.stackTop task).toNat) ∨
    ((layout.rspField task).toNat ≤ byte ∧ byte < (layout.rspField task).toNat + 8)

variable {layout}

theorem Owns.unique {left right : TaskId} {byte : Nat} (atLeft : layout.Owns left byte)
    (atRight : layout.Owns right byte) : left = right := by
  by_contra different
  have stackOrder := layout.stacksApart left right different
  have fieldOrder := layout.fieldsApart left right different
  have leftField := layout.fieldsOffStacks left right
  have rightField := layout.fieldsOffStacks right left
  unfold Owns at atLeft atRight
  omega

theorem FrameFits.owns {task : TaskId} {rsp : Word} (fits : layout.FrameFits task rsp)
    {byte : Nat} (covered : Covers (layout.rspField task) rsp byte) : layout.Owns task byte := by
  have lower := fits.1
  have upper := fits.2
  unfold Covers at covered
  unfold Owns
  omega

theorem FrameFits.fieldApart {task : TaskId} {rsp : Word} (fits : layout.FrameFits task rsp)
    (owner : TaskId) :
    (layout.rspField owner).toNat + 8 ≤ rsp.toNat - frameSize ∨
      rsp.toNat ≤ (layout.rspField owner).toNat := by
  have lower := fits.1
  have upper := fits.2
  have apart := layout.fieldsOffStacks owner task
  omega

theorem frameFits_stackTop (layout : Layout TaskId) (task : TaskId) :
    layout.FrameFits task (layout.stackTop task) :=
  ⟨layout.room task, Nat.le_refl _⟩

variable [DecidableEq TaskId]

variable (layout) in
/-- A task writes only to its own stack, also when it calls `switch_to`. -/
def step (processor : Processor TaskId) : MachineEvent TaskId → Option (Processor TaskId)
  | .setRegisters registers rsp rip =>
      some { processor with
        machine := { processor.machine with registers := registers, rsp := rsp, rip := rip } }
  | .store address byte =>
      if layout.stackBase processor.running ≤ address ∧
          address < (layout.stackTop processor.running).toNat then
        some { processor with
          machine := { processor.machine with
            memory := Function.update processor.machine.memory address byte } }
      else none
  | .prepare task entry =>
      if task = processor.running then none
      else
        let (rsp, memory) :=
          setupInitialStack processor.machine.memory (layout.stackTop task) entry
        some { processor with
          machine := { processor.machine with
            memory := save memory (layout.rspField task).toNat rsp }
          waiting := Function.update processor.waiting task true }
  | .switchTo next returnAddress =>
      if processor.waiting next = true ∧
          layout.FrameFits processor.running processor.machine.rsp then
        some
          { machine := callSwitchTo (layout.rspField processor.running) (layout.rspField next)
              returnAddress processor.machine
            running := next
            waiting := Function.update
              (Function.update processor.waiting processor.running true) next false }
      else none

end Layout

/-! ### The table of contexts -/

structure Contexts (TaskId : Type*) where
  running : TaskId
  current : Context
  suspended : TaskId → Option Context

def Contexts.start (machine : Machine) (first : TaskId) : Contexts TaskId :=
  { running := first, current := machine.context, suspended := fun _ => none }

namespace Contexts

variable [DecidableEq TaskId]

/-- Suspend the running task where it will continue, and take another context. -/
def switchTo (contexts : Contexts TaskId) (next : TaskId) (returnAddress : Word)
    (context : Context) : Contexts TaskId :=
  { running := next
    current := context
    suspended := Function.update
      (Function.update contexts.suspended contexts.running
        (some { contexts.current with rip := returnAddress }))
      next (none : Option Context) }

theorem suspended_switchTo (contexts : Contexts TaskId) (next : TaskId) (returnAddress : Word)
    (context : Context) :
    (contexts.switchTo next returnAddress context).suspended =
      Function.update
        (Function.update contexts.suspended contexts.running
          (some { contexts.current with rip := returnAddress }))
        next none := rfl

def step (layout : Layout TaskId) (contexts : Contexts TaskId) :
    MachineEvent TaskId → Option (Contexts TaskId)
  | .setRegisters registers rsp rip =>
      some { contexts with current := { registers := registers, rsp := rsp, rip := rip } }
  | .store .. => some contexts
  | .prepare task entry =>
      some { contexts with
        suspended := Function.update contexts.suspended task
          (some (Context.initial (layout.stackTop task) entry)) }
  | .switchTo next returnAddress =>
      (contexts.suspended next).map (contexts.switchTo next returnAddress)

theorem step_suspended {layout : Layout TaskId} {contexts after : Contexts TaskId}
    {event : MachineEvent TaskId} {task : TaskId} {context : Context}
    (stepped : contexts.step layout event = some after)
    (waits : contexts.suspended task = some context) (notRunning : task ≠ contexts.running)
    (unconcerned : ¬event.Concerns task) :
    after.suspended task = some context ∧ task ≠ after.running := by
  cases event with
  | setRegisters registers rsp rip =>
      cases stepped
      exact ⟨waits, notRunning⟩
  | store address byte =>
      cases stepped
      exact ⟨waits, notRunning⟩
  | prepare other entry =>
      have different : task ≠ other := fun same => unconcerned same.symm
      cases stepped
      constructor
      · exact (Function.update_of_ne different ..).trans waits
      · exact notRunning
  | switchTo next returnAddress =>
      have different : task ≠ next := fun same => unconcerned same.symm
      rcases Option.map_eq_some_iff.mp stepped with ⟨taken, _, rfl⟩
      constructor
      · rw [suspended_switchTo, Function.update_of_ne different, Function.update_of_ne notRunning]
        exact waits
      · exact different

theorem exec_suspended {layout : Layout TaskId} {contexts after : Contexts TaskId}
    {events : List (MachineEvent TaskId)} {task : TaskId} {context : Context}
    (ran : LabelledRun.exec (Contexts.step layout) contexts events = some after)
    (waits : contexts.suspended task = some context) (notRunning : task ≠ contexts.running)
    (unconcerned : ∀ event, event ∈ events → ¬event.Concerns task) :
    after.suspended task = some context := by
  have kept := @LabelledRun.exec_invariant_of_labels _ _ (Contexts.step layout)
    (fun contexts => contexts.suspended task = some context ∧ task ≠ contexts.running)
    (fun event => ¬event.Concerns task)
    (fun state event next here apart stepped => step_suspended stepped here.1 here.2 apart)
    contexts after events ⟨waits, notRunning⟩ unconcerned ran
  exact kept.1

end Contexts

/-! ### The machine refines the table -/

/-- The memory holds the suspended contexts, each in the stack of its task. -/
def Holds (layout : Layout TaskId) (memory : Store) (suspended : TaskId → Option Context) :
    Prop :=
  ∀ task context, suspended task = some context →
    Suspended memory (layout.rspField task) context ∧ layout.FrameFits task context.rsp

/-- The machine is in the current context of the table and its memory holds the others. -/
structure Represents (layout : Layout TaskId) (processor : Processor TaskId)
    (contexts : Contexts TaskId) : Prop where
  running : processor.running = contexts.running
  current : processor.machine.context = contexts.current
  waiting : ∀ task, processor.waiting task = (contexts.suspended task).isSome
  notWaiting : contexts.suspended contexts.running = none
  holds : Holds layout processor.machine.memory contexts.suspended

namespace Holds

variable {layout : Layout TaskId} {before after : Store} {suspended : TaskId → Option Context}

theorem congr (holds : Holds layout before suspended)
    (kept : ∀ task context byte, suspended task = some context → layout.Owns task byte →
      after byte = before byte) : Holds layout after suspended := by
  intro task context waits
  have held := holds task context waits
  constructor
  · apply held.1.congr
    intro byte covered
    exact kept task context byte waits (held.2.owns covered)
  · exact held.2

variable [DecidableEq TaskId]

theorem insert (holds : Holds layout before suspended) {writer : TaskId} {context : Context}
    (own : Suspended after (layout.rspField writer) context)
    (fits : layout.FrameFits writer context.rsp)
    (kept : ∀ byte, ¬layout.Owns writer byte → after byte = before byte) :
    Holds layout after (Function.update suspended writer (some context)) := by
  intro task found waits
  by_cases same : task = writer
  · subst same
    rw [Function.update_self] at waits
    cases waits
    exact ⟨own, fits⟩
  · rw [Function.update_of_ne same] at waits
    have held := holds task found waits
    constructor
    · apply held.1.congr
      intro byte covered
      exact kept byte (fun owned => same ((held.2.owns covered).unique owned))
    · exact held.2

theorem erase (holds : Holds layout before suspended) (task : TaskId) :
    Holds layout before (Function.update suspended task (none : Option Context)) := by
  intro other context waits
  by_cases same : other = task
  · rw [same, Function.update_self] at waits
    cases waits
  · rw [Function.update_of_ne same] at waits
    exact holds other context waits

end Holds

namespace Represents

variable {layout : Layout TaskId} {processor after : Processor TaskId}
  {contexts : Contexts TaskId}

theorem start (layout : Layout TaskId) (machine : Machine) (first : TaskId) :
    Represents layout (Processor.start machine first) (Contexts.start machine first) := by
  constructor
  case running => rfl
  case current => rfl
  case waiting =>
    intro task
    rfl
  case notWaiting => rfl
  case holds =>
    intro task context waits
    cases waits

theorem different (represents : Represents layout processor contexts) {task : TaskId}
    {context : Context} (waits : contexts.suspended task = some context) :
    task ≠ contexts.running := by
  rintro rfl
  rw [represents.notWaiting] at waits
  cases waits

variable [DecidableEq TaskId]

theorem store (represents : Represents layout processor contexts) {address : Nat}
    {byte : BitVec 8}
    (stepped : layout.step processor (.store address byte) = some after) :
    Represents layout after contexts := by
  simp only [Layout.step] at stepped
  split at stepped
  case isFalse => cases stepped
  case isTrue inside =>
    cases stepped
    constructor
    case running => exact represents.running
    case current => exact represents.current
    case waiting => exact represents.waiting
    case notWaiting => exact represents.notWaiting
    case holds =>
      apply represents.holds.congr
      intro task context other waits owned
      have apart : other ≠ address := by
        rintro rfl
        have same := owned.unique (Or.inl inside)
        exact represents.different waits (same.trans represents.running)
      exact Function.update_of_ne apart ..

theorem prepare (represents : Represents layout processor contexts) {task : TaskId}
    {entry : Word} (stepped : layout.step processor (.prepare task entry) = some after) :
    Represents layout after
      { contexts with
        suspended := Function.update contexts.suspended task
          (some (Context.initial (layout.stackTop task) entry)) } := by
  simp only [Layout.step] at stepped
  split at stepped
  case isTrue => cases stepped
  case isFalse other =>
    cases stepped
    have fits := layout.frameFits_stackTop task
    have notRunning : contexts.running ≠ task := fun same =>
      other (same.symm.trans represents.running.symm)
    rcases setupInitialStack_spec processor.machine.memory entry
      (Nat.le_trans (Nat.le_add_left ..) fits.1) (fits.fieldApart task) with
      ⟨prepared, outside⟩
    constructor
    case running => exact represents.running
    case current => exact represents.current
    case waiting =>
      intro slot
      by_cases same : slot = task
      · subst same
        simp
      · simp only [Function.update_of_ne same]
        exact represents.waiting slot
    case notWaiting =>
      change Function.update contexts.suspended task _ contexts.running = none
      rw [Function.update_of_ne notRunning]
      exact represents.notWaiting
    case holds =>
      exact represents.holds.insert prepared fits
        (fun byte unowned => outside byte (fun covered => unowned (fits.owns covered)))

theorem switchTo (represents : Represents layout processor contexts) {next : TaskId}
    {returnAddress : Word}
    (stepped : layout.step processor (.switchTo next returnAddress) = some after) :
    ∃ context, contexts.suspended next = some context ∧
      Represents layout after (contexts.switchTo next returnAddress context) := by
  simp only [Layout.step] at stepped
  split at stepped
  case isFalse => cases stepped
  case isTrue possible =>
    cases stepped
    rcases possible with ⟨waits, fits⟩
    rw [represents.waiting] at waits
    rcases Option.isSome_iff_exists.mp waits with ⟨context, found⟩
    have held := represents.holds next context found
    have notRunning : next ≠ processor.running := by
      rw [represents.running]
      exact represents.different found
    have apart (byte : Nat) (covered : Covers (layout.rspField next) context.rsp byte) :
        ¬Covers (layout.rspField processor.running) processor.machine.rsp byte := by
      intro both
      exact notRunning ((held.2.owns covered).unique (fits.owns both))
    rcases Machine.callSwitchTo_spec returnAddress
      (Nat.le_trans (Nat.le_add_left ..) fits.1) (fits.fieldApart processor.running) held.1
      apart with ⟨memory, switched, saved, outside⟩
    have current := represents.current
    refine ⟨context, found, ?_⟩
    constructor
    case running => rfl
    case current =>
      change Machine.context (callSwitchTo ..) = context
      rw [switched]
      rfl
    case waiting =>
      intro task
      simp only [Contexts.switchTo]
      by_cases same : task = next
      · subst same
        simp
      · rw [Function.update_of_ne same, Function.update_of_ne same, represents.running]
        by_cases caller : task = contexts.running
        · subst caller
          simp
        · rw [Function.update_of_ne caller, Function.update_of_ne caller]
          exact represents.waiting task
    case notWaiting => exact Function.update_self ..
    case holds =>
      have saving : Suspended memory (layout.rspField contexts.running)
          { contexts.current with rip := returnAddress } := by
        rw [← represents.running, ← current]
        exact saved
      have savedFits : layout.FrameFits contexts.running contexts.current.rsp := by
        rw [← represents.running, ← current]
        exact fits
      have kept (byte : Nat) (unowned : ¬layout.Owns contexts.running byte) :
          memory byte = processor.machine.memory byte := by
        apply outside
        intro covered
        rw [← represents.running] at unowned
        exact unowned (fits.owns covered)
      change Holds layout (callSwitchTo ..).memory _
      rw [switched]
      exact (represents.holds.insert saving savedFits kept).erase next

theorem step (represents : Represents layout processor contexts)
    {event : MachineEvent TaskId} (stepped : layout.step processor event = some after) :
    ∃ next, contexts.step layout event = some next ∧ Represents layout after next := by
  cases event with
  | setRegisters registers rsp rip =>
      cases stepped
      refine ⟨_, rfl, ?_⟩
      constructor
      case running => exact represents.running
      case current => rfl
      case waiting => exact represents.waiting
      case notWaiting => exact represents.notWaiting
      case holds => exact represents.holds
  | store address byte => exact ⟨contexts, rfl, represents.store stepped⟩
  | prepare task entry => exact ⟨_, rfl, represents.prepare stepped⟩
  | switchTo next returnAddress =>
      rcases represents.switchTo stepped with ⟨context, found, switched⟩
      exact ⟨_, by rw [Contexts.step, found]; rfl, switched⟩

/-- Every run of the machine is a run of the table. -/
theorem exec (represents : Represents layout processor contexts)
    {events : List (MachineEvent TaskId)}
    (ran : LabelledRun.exec layout.step processor events = some after) :
    ∃ final, LabelledRun.exec (Contexts.step layout) contexts events = some final ∧
      Represents layout after final := by
  induction events generalizing processor contexts with
  | nil =>
      cases ran
      exact ⟨contexts, rfl, represents⟩
  | cons event rest ih =>
      rcases LabelledRun.exec_cons_eq_some.mp ran with ⟨middle, stepped, continued⟩
      rcases represents.step stepped with ⟨next, tableStep, represented⟩
      rcases ih represented continued with ⟨final, tableRun, last⟩
      exact ⟨final, LabelledRun.exec_cons_eq_some.mpr ⟨next, tableStep, tableRun⟩, last⟩

theorem resumes (represents : Represents layout processor contexts) {task : TaskId}
    {context : Context} (waits : contexts.suspended task = some context)
    {middle : List (MachineEvent TaskId)} {waiting resumed : Processor TaskId}
    (ran : LabelledRun.exec layout.step processor middle = some waiting)
    (unconcerned : ∀ event, event ∈ middle → ¬event.Concerns task) {back : Word}
    (switched : layout.step waiting (.switchTo task back) = some resumed) :
    resumed.running = task ∧ resumed.machine.context = context := by
  rcases represents.exec ran with ⟨final, tableRun, represented⟩
  have still := Contexts.exec_suspended tableRun waits (represents.different waits) unconcerned
  rcases represented.switchTo switched with ⟨found, taken, reached⟩
  rw [still] at taken
  cases taken
  exact ⟨reached.running, reached.current⟩

end Represents

/-! ### No context is lost -/

variable [DecidableEq TaskId]

/-- In every run that starts from one running task, a suspended task continues with the
registers, the stack pointer and the return address of its call of `switch_to`, and a
prepared task starts at its entry with cleared registers on an empty stack. -/
theorem context_switching_loses_nothing (layout : Layout TaskId) (machine : Machine)
    (first : TaskId) (before middle : List (MachineEvent TaskId))
    (reached waiting resumed : Processor TaskId) (task : TaskId) (back : Word)
    (run : LabelledRun.exec layout.step (Processor.start machine first) before = some reached)
    (unconcerned : ∀ event, event ∈ middle → ¬event.Concerns task)
    (resumes : layout.step waiting (.switchTo task back) = some resumed) :
    (∀ next returnAddress, task = reached.running →
      LabelledRun.exec layout.step reached (.switchTo next returnAddress :: middle) =
        some waiting →
      resumed.running = task ∧
        resumed.machine.registers = reached.machine.registers ∧
        resumed.machine.rsp = reached.machine.rsp ∧
        resumed.machine.rip = returnAddress) ∧
    (∀ entry,
      LabelledRun.exec layout.step reached (.prepare task entry :: middle) = some waiting →
      resumed.running = task ∧
        resumed.machine.registers = (fun _ => 0) ∧
        resumed.machine.rsp = layout.stackTop task ∧
        resumed.machine.rip = entry) := by
  rcases (Represents.start layout machine first).exec run with ⟨contexts, _, represents⟩
  constructor
  · intro next returnAddress own ran
    rcases LabelledRun.exec_cons_eq_some.mp ran with ⟨left, stepped, continued⟩
    rcases represents.switchTo stepped with ⟨context, found, switched⟩
    have caller : task = contexts.running := own.trans represents.running
    have other : contexts.running ≠ next := (represents.different found).symm
    have waits : (contexts.switchTo next returnAddress context).suspended task =
        some { contexts.current with rip := returnAddress } := by
      rw [Contexts.suspended_switchTo, caller, Function.update_of_ne other, Function.update_self]
    rcases switched.resumes waits continued unconcerned resumes with ⟨running, context_⟩
    rw [← represents.current] at context_
    exact ⟨running, congrArg Context.registers context_, congrArg Context.rsp context_,
      congrArg Context.rip context_⟩
  · intro entry ran
    rcases LabelledRun.exec_cons_eq_some.mp ran with ⟨left, stepped, continued⟩
    have prepared := represents.prepare stepped
    rcases prepared.resumes (Function.update_self ..) continued unconcerned resumes with
      ⟨running, context_⟩
    exact ⟨running, congrArg Context.registers context_, congrArg Context.rsp context_,
      congrArg Context.rip context_⟩

def twoStacks : Layout Bool :=
  { stackBase := fun task => if task then 0x4000 else 0x2000
    stackTop := fun task => if task then 0x5000 else 0x3000
    rspField := fun task => if task then 0x1048 else 0x1000
    room := by decide
    stacksApart := by decide
    fieldsApart := by decide
    fieldsOffStacks := by decide }

/-- The first task, with a second one prepared, about to call `switch_to`. -/
def switchingBefore : List (MachineEvent Bool) :=
  [.prepare true 0x90,
    .setRegisters (fun register => if register = .rbx then 7 else 9) 0x2e00 0x84]

def switchedAway : List (MachineEvent Bool) :=
  [.setRegisters (fun _ => 1) 0x4f00 0x98, .store 0x4f80 3]

def switchingStart : Processor Bool :=
  Processor.start { registers := fun _ => 5, rsp := 0x2f00, rip := 0x80, memory := fun _ => 0 } false

theorem switch_and_back :
    ∃ reached waiting resumed : Processor Bool,
      LabelledRun.exec twoStacks.step switchingStart switchingBefore = some reached ∧
      LabelledRun.exec twoStacks.step reached (.switchTo true 0x88 :: switchedAway) =
        some waiting ∧
      twoStacks.step waiting (.switchTo false 0x99) = some resumed ∧
      resumed.machine.registers = (fun register => if register = .rbx then 7 else 9) ∧
      resumed.machine.rsp = 0x2e00 ∧ resumed.machine.rip = 0x88 := by
  have possible : (LabelledRun.exec twoStacks.step switchingStart
      (switchingBefore ++ ((.switchTo true 0x88 :: switchedAway) ++ [.switchTo false 0x99]))).isSome =
        true := by decide +kernel
  have running : (LabelledRun.exec twoStacks.step switchingStart switchingBefore).map
      Processor.running = some false := by decide +kernel
  have registers : (LabelledRun.exec twoStacks.step switchingStart switchingBefore).map
      (fun processor => processor.machine.registers) =
        some (fun register => if register = .rbx then 7 else 9) := rfl
  have rsp : (LabelledRun.exec twoStacks.step switchingStart switchingBefore).map
      (fun processor => processor.machine.rsp) = some 0x2e00 := by decide +kernel
  rcases Option.isSome_iff_exists.mp possible with ⟨resumed, ran⟩
  rcases LabelledRun.exec_append_eq_some.mp ran with ⟨reached, start, continued⟩
  rcases LabelledRun.exec_append_eq_some.mp continued with ⟨waiting, left, last⟩
  rcases LabelledRun.exec_cons_eq_some.mp last with ⟨final, back, same⟩
  cases same
  rw [start] at running registers rsp
  have unconcerned : ∀ event, event ∈ switchedAway → ¬event.Concerns false := by
    intro event member
    rcases List.mem_pair.mp member with rfl | rfl
    · exact id
    · exact id
  have seen := (context_switching_loses_nothing twoStacks _ false switchingBefore switchedAway
    reached waiting resumed false 0x99 start unconcerned back).1 true 0x88
    (Option.some.inj running).symm left
  refine ⟨reached, waiting, resumed, start, left, back, ?_⟩
  exact ⟨seen.2.1.trans (Option.some.inj registers), seen.2.2.1.trans (Option.some.inj rsp),
    seen.2.2.2⟩

end CustomKernel.Multitask
