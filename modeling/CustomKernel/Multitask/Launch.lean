/-
The first entry of a task.

The first switch to a new task enters its function by the `ret` of `switch_to`, with the
stack pointer at the end of the stack.  A function that was called finds a return address
on top of its stack, and the stack pointer eight bytes below a multiple of 16.  The new
task finds neither: the word on top lies behind its stack, and nobody wrote it.
-/

import CustomKernel.Multitask.ContextSwitch
import CustomKernel.Multitask.StackRanges

set_option autoImplicit false

namespace CustomKernel.Multitask

open ByteStore WordStack

def OnStack (task : Task) (address : Word) : Prop :=
  ∀ index, index < 8 → Word64.add address.toNat index ∈ stackRange task

def SetUp (task : Task) (address : Word) : Prop :=
  ∃ index, index < FRAME_WORDS ∧
    address = BitVec.ofNat 64 task.stackTop - BitVec.ofNat 64 (FRAME_WORDS * 8) +
      BitVec.ofNat 64 (8 * index)

/-- What a function can rely on when it is entered: the alignment of the stack pointer, and
a return address on the stack of the task, written by the kernel. -/
structure CallFrame (task : Task) (machine : Machine) : Prop where
  aligned : (machine.rsp.toNat + 8) % 16 = 0
  inside : OnStack task machine.rsp
  written : SetUp task machine.rsp

/-! ### The stack pointer at the entry -/

theorem not_onStack_stackTop {task : Task} (small : task.stackTop < Word64.modulus) :
    ¬OnStack task (BitVec.ofNat 64 task.stackTop) := by
  intro inside
  have first := (inside 0 (Nat.zero_lt_succ _)).2
  have pages : STACK_SIZE = 8192 := rfl
  have place : (BitVec.ofNat 64 task.stackTop).toNat = task.stackTop :=
    Nat.mod_eq_of_lt small
  rw [place, pages] at first
  unfold Word64.add Word64.sub Word64.modulus at first
  unfold Word64.modulus at small
  omega

theorem not_setUp_stackTop (task : Task) : ¬SetUp task (BitVec.ofNat 64 task.stackTop) := by
  rintro ⟨index, inside, same⟩
  unfold FRAME_WORDS at *
  bv_omega

theorem stackVirtTop_lt (kernel : Kernel) (phys1 : Nat) :
    stackVirtTop kernel phys1 < Word64.modulus :=
  Word64.add_lt _ _

theorem stackVirtTop_aligned (kernel : Kernel) {page : Nat}
    (offset : kernel.hhdmOffset % 16 = 0) :
    (stackVirtTop kernel (page * Memory.PAGE_SIZE) + 8) % 16 = 8 := by
  unfold stackVirtTop Word64.add Word64.modulus Memory.PAGE_SIZE
  omega

theorem newKernelTask_created {kernel after : Kernel} {entry pid : Nat}
    (created : newKernelTask kernel entry = .ok (some pid, after)) :
    ∃ slot phys0 phys1 pmm, allocSlot kernel = some slot ∧
      allocStack kernel.pmm = .ok (some (phys0, phys1), pmm) ∧
      after.tasks slot = createdTask kernel entry phys0 phys1 := by
  rcases newKernelTask_cases created with ⟨_, none, _⟩ | ⟨_, _, none, _⟩ |
    ⟨slot, phys0, phys1, pmm, chosen, pages, _, same⟩
  · cases none
  · cases none
  · rw [same]
    exact ⟨slot, phys0, phys1, pmm, chosen, pages, Function.update_self ..⟩

/-! ### The first switch -/

section run

variable {TaskId : Type*} [DecidableEq TaskId] {layout : Layout TaskId} {machine : Machine}
  {first task : TaskId} (before middle : List (MachineEvent TaskId)) {entry back : Word}
  {waiting entered : Processor TaskId}

/-- In every run, the first switch to a prepared task enters it at its entry, with the
stack pointer at the stack top. -/
theorem entered_context
    (run : LabelledRun.exec layout.step (Processor.start machine first)
      (before ++ .prepare task entry :: middle) = some waiting)
    (unconcerned : ∀ event, event ∈ middle → ¬event.Concerns task)
    (switched : layout.step waiting (.switchTo task back) = some entered) :
    entered.machine.context = Context.initial (layout.stackTop task) entry := by
  rcases LabelledRun.exec_append_eq_some.mp run with ⟨reached, start, continued⟩
  rcases LabelledRun.exec_cons_eq_some.mp continued with ⟨left, stepped, rest⟩
  rcases (Represents.start layout machine first).exec start with ⟨contexts, _, represents⟩
  exact ((represents.prepare stepped).resumes (Function.update_self ..) rest unconcerned
    switched).2

/-- No task that `new_kernel_task` makes is ever entered on a call frame: the word on top is
not on its stack and was not set up, and the alignment is that of a function body. -/
theorem never_entered_on_call_frame {kernel after : Kernel} {slot : Slot} {function pid : Nat}
    (created : newKernelTask kernel function = .ok (some pid, after))
    (chosen : allocSlot kernel = some slot)
    (top : layout.stackTop task = BitVec.ofNat 64 (after.tasks slot).stackTop)
    (run : LabelledRun.exec layout.step (Processor.start machine first)
      (before ++ .prepare task (BitVec.ofNat 64 function) :: middle) = some waiting)
    (unconcerned : ∀ event, event ∈ middle → ¬event.Concerns task)
    (switched : layout.step waiting (.switchTo task back) = some entered) :
    entered.machine.rip = BitVec.ofNat 64 function ∧
      ¬CallFrame (after.tasks slot) entered.machine ∧
      ¬OnStack (after.tasks slot) entered.machine.rsp ∧
      ¬SetUp (after.tasks slot) entered.machine.rsp ∧
      (kernel.pmm.Invariant → kernel.hhdmOffset % 16 = 0 →
        (entered.machine.rsp.toNat + 8) % 16 = 8) := by
  have context := entered_context before middle run unconcerned switched
  have rsp : entered.machine.rsp = BitVec.ofNat 64 (after.tasks slot).stackTop :=
    (congrArg Context.rsp context).trans top
  rcases newKernelTask_created created with ⟨other, phys0, phys1, pmm, found, pages, stored⟩
  have same : slot = other := Option.some.inj (chosen.symm.trans found)
  subst same
  have stackTop : (after.tasks slot).stackTop = stackVirtTop kernel phys1 := by
    rw [stored]
    rfl
  have small : (after.tasks slot).stackTop < Word64.modulus := by
    rw [stackTop]
    exact stackVirtTop_lt kernel phys1
  have outside : ¬OnStack (after.tasks slot) entered.machine.rsp := by
    rw [rsp]
    exact not_onStack_stackTop small
  have unwritten : ¬SetUp (after.tasks slot) entered.machine.rsp := by
    rw [rsp]
    exact not_setUp_stackTop _
  refine ⟨congrArg Context.rip context, ?_, outside, unwritten, ?_⟩
  · intro frame
    exact outside frame.inside
  · intro invariant offset
    rcases allocStack_pair invariant pages with ⟨_, page1, _, _, second, _⟩
    have place : entered.machine.rsp.toNat = stackVirtTop kernel phys1 := by
      rw [rsp, ← stackTop]
      exact Nat.mod_eq_of_lt small
    rw [place, second]
    exact stackVirtTop_aligned kernel offset

end run

def higherHalf : Layout Bool :=
  { stackBase := fun task => if task then 0xffff800000000000 else 0xffff800000100000
    stackTop := fun task => if task then 0xffff800000002000 else 0xffff800000102000
    rspField := fun task => if task then 0xffffffff80010048 else 0xffffffff80010000
    room := by decide
    stacksApart := by decide
    fieldsApart := by decide
    fieldsOffStacks := by decide }

/-- Every byte that the kernel has not written is 0x5a. -/
def launchStart : Processor Bool :=
  Processor.start
    { registers := fun _ => 0
      rsp := 0xffff800000101f00
      rip := 0xffffffff80001000
      memory := fun _ => 0x5a }
    false

def launchEntry : Nat := 0xffffffff80002000

def launchEvents : List (MachineEvent Bool) := [.prepare true (BitVec.ofNat 64 launchEntry)]

/-- The creation and the first switch both happen, and a return from the entry jumps to what
lies behind the stack. -/
theorem launch_runs :
    ∃ waiting entered after,
      newKernelTask sampleKernel launchEntry = .ok (some 1, after) ∧
      (after.tasks 1).stackTop = 0xffff800000002000 ∧
      LabelledRun.exec higherHalf.step launchStart launchEvents = some waiting ∧
      higherHalf.step waiting (.switchTo true 0xffffffff80001008) = some entered ∧
      (entered.machine.execute 0 0 .ret).rip = 0x5a5a5a5a5a5a5a5a := by
  have fields : (newKernelTask sampleKernel launchEntry).toOption.map
      (fun result => (result.1, (result.2.tasks 1).stackTop)) =
        some (some 1, 0xffff800000002000) := by decide +kernel
  have returned : ((LabelledRun.exec higherHalf.step launchStart launchEvents).bind
        (higherHalf.step · (.switchTo true 0xffffffff80001008))).map
          (fun entered => (entered.machine.execute 0 0 .ret).rip) =
            some 0x5a5a5a5a5a5a5a5a := by decide +kernel
  rcases Option.map_eq_some_iff.mp returned with ⟨entered, both, target⟩
  rcases Option.bind_eq_some_iff.mp both with ⟨waiting, ran, switched⟩
  cases result : newKernelTask sampleKernel launchEntry with
  | error panic =>
      rw [result] at fields
      cases fields
  | ok created =>
      obtain ⟨pid, after⟩ := created
      rw [result] at fields
      have values := Prod.mk.inj (Option.some.inj fields)
      exact ⟨waiting, entered, after, congrArg (fun pid => Except.ok (pid, after)) values.1,
        values.2, ran, switched, target⟩

theorem launch_has_no_call_frame :
    ∃ after, ∃ entered : Processor Bool,
      newKernelTask sampleKernel launchEntry = .ok (some 1, after) ∧
      entered.machine.rip = BitVec.ofNat 64 launchEntry ∧
      ¬CallFrame (after.tasks 1) entered.machine := by
  rcases launch_runs with ⟨waiting, entered, after, created, stackTop, ran, switched, _⟩
  have chosen : allocSlot sampleKernel = some 1 := by decide +kernel
  have top : higherHalf.stackTop true = BitVec.ofNat 64 (after.tasks 1).stackTop := by
    rw [stackTop]
    rfl
  have found := never_entered_on_call_frame [] [] created chosen top ran
    (fun event member => nomatch member) switched
  exact ⟨after, entered, created, found.1, found.2.1⟩

/-- An entry that returns jumps to the bytes behind its stack. -/
theorem returning_entry_leaves_stack :
    ∃ waiting entered after,
      newKernelTask sampleKernel launchEntry = .ok (some 1, after) ∧
      LabelledRun.exec higherHalf.step launchStart launchEvents = some waiting ∧
      higherHalf.step waiting (.switchTo true 0xffffffff80001008) = some entered ∧
      ¬OnStack (after.tasks 1) entered.machine.rsp ∧
      (entered.machine.rsp.toNat + 8) % 16 = 8 ∧
      (entered.machine.execute 0 0 .ret).rip = 0x5a5a5a5a5a5a5a5a := by
  rcases launch_runs with ⟨waiting, entered, after, created, stackTop, ran, switched, target⟩
  have context := entered_context [] [] ran (fun event member => nomatch member) switched
  have rsp : entered.machine.rsp = 0xffff800000002000 := congrArg Context.rsp context
  have top : BitVec.ofNat 64 (after.tasks 1).stackTop = 0xffff800000002000 := by
    rw [stackTop]
    rfl
  have small : (after.tasks 1).stackTop < Word64.modulus := by
    rw [stackTop]
    decide
  refine ⟨waiting, entered, after, created, ran, switched, ?_, ?_, target⟩
  · rw [rsp, ← top]
    exact not_onStack_stackTop small
  · rw [rsp]
    rfl

end CustomKernel.Multitask
