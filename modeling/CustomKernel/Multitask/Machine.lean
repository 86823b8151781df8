/-
The machine under the scheduler.

`switch_to` is the program of its instructions on the callee-saved registers, the stack
pointer, the instruction pointer and byte memory.  Its first half leaves the caller's
context in a frame of seven words below the caller's stack pointer, its second half
takes a context out of such a frame, and `setup_initial_stack` writes a frame by hand.
-/

import CustomKernel.Foundation.WordStack

set_option autoImplicit false

namespace CustomKernel.Multitask

open ByteStore WordStack

inductive Register where
  | rbp
  | rbx
  | r12
  | r13
  | r14
  | r15
  deriving DecidableEq, Repr

@[ext]
structure Machine where
  registers : Register → Word
  rsp : Word
  rip : Word
  memory : Store

/-- The instructions of `switch_to`; `rdi` and `rsi` hold its two arguments. -/
inductive Instruction where
  | push (register : Register)
  | movToRdi
  | movFromRsi
  | pop (register : Register)
  | ret

namespace Machine

def push (machine : Machine) (word : Word) : Machine :=
  { machine with
    rsp := machine.rsp - 8
    memory := save machine.memory (machine.rsp - 8).toNat word }

def top (machine : Machine) : Word := load machine.memory machine.rsp.toNat

def execute (rdi rsi : Word) (machine : Machine) : Instruction → Machine
  | .push register => machine.push (machine.registers register)
  | .movToRdi => { machine with memory := save machine.memory rdi.toNat machine.rsp }
  | .movFromRsi => { machine with rsp := load machine.memory rsi.toNat }
  | .pop register =>
      { machine with
        registers := Function.update machine.registers register machine.top
        rsp := machine.rsp + 8 }
  | .ret => { machine with rip := machine.top, rsp := machine.rsp + 8 }

def executeAll (rdi rsi : Word) (machine : Machine) (code : List Instruction) : Machine :=
  code.foldl (execute rdi rsi) machine

end Machine

def switchToCode : List Instruction :=
  [ -- save the context of the current task
    .push .rbp,
    .push .rbx,
    .push .r12,
    .push .r13,
    .push .r14,
    .push .r15,
    -- save the resulting stack pointer
    .movToRdi,
    -- load the stack pointer of the next task
    .movFromRsi,
    -- restore the context of the next task
    .pop .r15,
    .pop .r14,
    .pop .r13,
    .pop .r12,
    .pop .rbx,
    .pop .rbp,
    -- jump into the task
    .ret ]

/-- `call switch_to` with the address behind the call. -/
def callSwitchTo (currRsp nextRsp returnAddress : Word) (machine : Machine) : Machine :=
  (machine.push returnAddress).executeAll currRsp nextRsp switchToCode

def FRAME_WORDS : Nat := 7

/-- The stack pointer and the memory after the initial frame of a task is written. -/
def setupInitialStack (memory : Store) (stackTop entry : Word) : Word × Store :=
  let frameStart := stackTop - BitVec.ofNat 64 (FRAME_WORDS * 8)
  let write (memory : Store) (index : Nat) (word : Word) : Store :=
    save memory (frameStart + BitVec.ofNat 64 (8 * index)).toNat word
  -- r15, r14, r13, r12, rbx, rbp
  let memory := write memory 0 0
  let memory := write memory 1 0
  let memory := write memory 2 0
  let memory := write memory 3 0
  let memory := write memory 4 0
  let memory := write memory 5 0
  -- return address
  let memory := write memory 6 entry
  (frameStart, memory)

/-! ### Contexts and their frames -/

/-- What a task sees of the machine: the registers, the stack pointer and where it
continues. -/
structure Context where
  registers : Register → Word
  rsp : Word
  rip : Word

def Machine.context (machine : Machine) : Context :=
  { registers := machine.registers, rsp := machine.rsp, rip := machine.rip }

def Context.initial (stackTop entry : Word) : Context :=
  { registers := fun _ => 0, rsp := stackTop, rip := entry }

def frameSize : Nat := 56

def pushOrder : List Register := [.rbp, .rbx, .r12, .r13, .r14, .r15]

def Context.frame (context : Context) : List Word :=
  pushOrder.reverse.map context.registers ++ [context.rip]

def Covers (field rsp : Word) (byte : Nat) : Prop :=
  (field.toNat ≤ byte ∧ byte < field.toNat + 8) ∨
    (rsp.toNat - frameSize ≤ byte ∧ byte < rsp.toNat)

/-- The memory holds the context in the frame that the word at `field` points to. -/
structure Suspended (memory : Store) (field : Word) (context : Context) : Prop where
  room : frameSize ≤ context.rsp.toNat
  pointer : load memory field.toNat = context.rsp - BitVec.ofNat 64 frameSize
  frame : Frame memory (context.rsp.toNat - frameSize) context.frame

@[simp] theorem Context.length_frame (context : Context) : context.frame.length = 7 := rfl

theorem mem_pushOrder (register : Register) : register ∈ pushOrder := by
  cases register <;> decide

theorem Suspended.congr {before after : Store} {field : Word} {context : Context}
    (suspended : Suspended before field context)
    (kept : ∀ byte, Covers field context.rsp byte → after byte = before byte) :
    Suspended after field context := by
  have size : frameSize = 56 := rfl
  have room := suspended.room
  have length := context.length_frame
  constructor
  case room => exact room
  case pointer =>
    rw [← suspended.pointer]
    exact load_congr (fun byte lower upper => kept byte (Or.inl ⟨lower, upper⟩))
  case frame =>
    exact suspended.frame.congr
      (fun byte lower upper => kept byte (Or.inr ⟨lower, by omega⟩))

/-! ### Running the two halves -/

namespace Machine

variable {rdi rsi : Word}

theorem executeAll_append (machine : Machine) (first second : List Instruction) :
    machine.executeAll rdi rsi (first ++ second) =
      (machine.executeAll rdi rsi first).executeAll rdi rsi second :=
  List.foldl_append ..

theorem toNat_sub_word {word : Word} {amount : Nat} (enough : amount ≤ word.toNat) :
    (word - BitVec.ofNat 64 amount).toNat = word.toNat - amount := by
  have bound := word.isLt
  rw [BitVec.toNat_sub, BitVec.toNat_ofNat]
  omega

theorem executeAll_cons (machine : Machine) (instruction : Instruction)
    (rest : List Instruction) :
    machine.executeAll rdi rsi (instruction :: rest) =
      (machine.execute rdi rsi instruction).executeAll rdi rsi rest := rfl

theorem executeAll_push (rdi rsi : Word) (order : List Register) (machine : Machine)
    {words : List Word}
    (room : 8 * order.length ≤ machine.rsp.toNat)
    (frame : Frame machine.memory machine.rsp.toNat words) :
    ∃ memory,
      machine.executeAll rdi rsi (order.map .push) =
        { machine with
          rsp := machine.rsp - BitVec.ofNat 64 (8 * order.length), memory := memory } ∧
      Frame memory (machine.rsp.toNat - 8 * order.length)
        (order.reverse.map machine.registers ++ words) ∧
      ∀ byte, byte < machine.rsp.toNat - 8 * order.length ∨ machine.rsp.toNat ≤ byte →
        memory byte = machine.memory byte := by
  induction order generalizing machine words with
  | nil =>
      have same : machine.rsp - BitVec.ofNat 64 (8 * ([] : List Register).length) = machine.rsp :=
        BitVec.sub_zero _
      refine ⟨machine.memory, ?_, frame, fun byte outside => rfl⟩
      rw [same]
      rfl
  | cons register rest ih =>
      have length : (register :: rest).length = rest.length + 1 := rfl
      have enough : 8 ≤ machine.rsp.toNat := by omega
      have below : (machine.rsp - 8).toNat = machine.rsp.toNat - 8 := toNat_sub_word enough
      have place : machine.rsp.toNat - 8 + 8 = machine.rsp.toNat := by omega
      have pushed : Frame (machine.push (machine.registers register)).memory
          (machine.push (machine.registers register)).rsp.toNat
          (machine.registers register :: words) := by
        change Frame (save machine.memory (machine.rsp - 8).toNat (machine.registers register))
          (machine.rsp - 8).toNat _
        rw [below]
        exact Frame.push _ (by rw [place]; exact frame)
      have pushedRsp : (machine.push (machine.registers register)).rsp = machine.rsp - 8 := rfl
      rcases ih (machine.push (machine.registers register))
        (by rw [pushedRsp, below]; omega) pushed with ⟨memory, ran, framed, outside⟩
      rw [pushedRsp, below] at framed outside
      refine ⟨memory, ?_, ?_, ?_⟩
      · have amount : machine.rsp - 8 - BitVec.ofNat 64 (8 * rest.length) =
            machine.rsp - BitVec.ofNat 64 (8 * (register :: rest).length) := by
          rw [length]
          bv_omega
        rw [List.map_cons, executeAll_cons]
        change (machine.push (machine.registers register)).executeAll rdi rsi _ = _
        rw [ran, pushedRsp, amount]
        rfl
      · have start : machine.rsp.toNat - 8 - 8 * rest.length =
            machine.rsp.toNat - 8 * (register :: rest).length := by omega
        rw [start] at framed
        rw [List.reverse_cons, List.map_append, List.append_assoc]
        exact framed
      · intro byte apart
        rw [outside byte (by omega)]
        change save machine.memory (machine.rsp - 8).toNat _ byte = _
        rw [below]
        exact save_outside _ _ (by omega)

theorem executeAll_pop (rdi rsi : Word) (values : Register → Word) (order : List Register)
    (machine : Machine) {words : List Word} (room : machine.rsp.toNat + 8 * order.length < 2 ^ 64)
    (frame : Frame machine.memory machine.rsp.toNat (order.map values ++ words)) :
    machine.executeAll rdi rsi (order.map .pop) =
        { machine with
          registers := fun register =>
            if register ∈ order then values register else machine.registers register
          rsp := machine.rsp + BitVec.ofNat 64 (8 * order.length) } ∧
      Frame machine.memory (machine.rsp.toNat + 8 * order.length) words := by
  induction order generalizing machine with
  | nil =>
      constructor
      · have same : machine.rsp + BitVec.ofNat 64 (8 * ([] : List Register).length) =
            machine.rsp := BitVec.add_zero _
        rw [same]
        simp [executeAll]
      · exact frame
  | cons register rest ih =>
      have length : (register :: rest).length = rest.length + 1 := rfl
      have above : (machine.rsp + 8).toNat = machine.rsp.toNat + 8 := by bv_omega
      have head : machine.top = values register := frame.1
      have tail : Frame machine.memory (machine.rsp + 8).toNat (rest.map values ++ words) := by
        rw [above]
        exact frame.2
      have popped : (machine.execute rdi rsi (.pop register)).rsp = machine.rsp + 8 := rfl
      rcases ih (machine.execute rdi rsi (.pop register))
        (by rw [popped, above]; omega) tail with ⟨ran, remaining⟩
      rw [popped, above] at remaining
      constructor
      · rw [List.map_cons, executeAll_cons, ran]
        apply Machine.ext
        case registers =>
          funext other
          by_cases here : other = register
          · subst here
            simp [execute, head]
          · simp [execute, here]
        case rsp =>
          change machine.rsp + 8 + BitVec.ofNat 64 (8 * rest.length) =
            machine.rsp + BitVec.ofNat 64 (8 * (register :: rest).length)
          rw [length]
          bv_omega
        case rip => rfl
        case memory => rfl
      · have place : machine.rsp.toNat + 8 + 8 * rest.length =
            machine.rsp.toNat + 8 * (register :: rest).length := by omega
        rw [place] at remaining
        exact remaining

theorem executeAll_save (rdi rsi : Word) {machine : Machine} (returnAddress : Word)
    (room : frameSize ≤ machine.rsp.toNat)
    (apart : rdi.toNat + 8 ≤ machine.rsp.toNat - frameSize ∨ machine.rsp.toNat ≤ rdi.toNat) :
    ∃ memory,
      (machine.push returnAddress).executeAll rdi rsi (pushOrder.map .push ++ [.movToRdi]) =
        { machine with rsp := machine.rsp - BitVec.ofNat 64 frameSize, memory := memory } ∧
      Suspended memory rdi
        { registers := machine.registers, rsp := machine.rsp, rip := returnAddress } ∧
      ∀ byte, ¬Covers rdi machine.rsp byte → memory byte = machine.memory byte := by
  have size : frameSize = 56 := rfl
  have six : pushOrder.length = 6 := rfl
  have enough : 8 ≤ machine.rsp.toNat := by omega
  have called : (machine.rsp - 8).toNat = machine.rsp.toNat - 8 := toNat_sub_word enough
  have calledRsp : (machine.push returnAddress).rsp = machine.rsp - 8 := rfl
  have calledFrame : Frame (machine.push returnAddress).memory
      (machine.push returnAddress).rsp.toNat [returnAddress] :=
    ⟨load_save .., trivial⟩
  rcases executeAll_push rdi rsi pushOrder (machine.push returnAddress)
    (by rw [calledRsp, called, six]; omega) calledFrame with ⟨memory, ran, framed, outside⟩
  rw [calledRsp, called, six] at framed outside
  have lowest : machine.rsp - 8 - BitVec.ofNat 64 (8 * pushOrder.length) =
      machine.rsp - BitVec.ofNat 64 frameSize := by
    rw [six, size]
    bv_omega
  have start : machine.rsp.toNat - 8 - 8 * 6 = machine.rsp.toNat - frameSize := by omega
  rw [start] at framed outside
  refine ⟨save memory rdi.toNat (machine.rsp - BitVec.ofNat 64 frameSize), ?_, ?_, ?_⟩
  · rw [executeAll_append, ran, calledRsp, lowest]
    rfl
  · constructor
    case room => exact room
    case pointer => exact load_save ..
    case frame =>
      have length : (pushOrder.reverse.map machine.registers ++ [returnAddress]).length = 7 := rfl
      change Frame _ (machine.rsp.toNat - frameSize)
        (pushOrder.reverse.map machine.registers ++ [returnAddress])
      exact Frame.save _ framed (by rw [length]; omega)
  · intro byte uncovered
    unfold Covers at uncovered
    rw [save_outside _ _ (by omega), outside byte (by omega)]
    exact save_outside _ _ (by rw [called]; omega)

theorem executeAll_restore {machine : Machine} {context : Context}
    (suspended : Suspended machine.memory rsi context) :
    machine.executeAll rdi rsi (.movFromRsi :: (pushOrder.reverse.map .pop ++ [.ret])) =
      { registers := context.registers
        rsp := context.rsp
        rip := context.rip
        memory := machine.memory } := by
  have size : frameSize = 56 := rfl
  have six : pushOrder.reverse.length = 6 := rfl
  have bound := context.rsp.isLt
  have room := suspended.room
  have lowest : (context.rsp - BitVec.ofNat 64 frameSize).toNat = context.rsp.toNat - frameSize :=
    toNat_sub_word room
  have loaded : machine.execute rdi rsi .movFromRsi =
      { machine with rsp := load machine.memory rsi.toNat } := rfl
  rw [suspended.pointer] at loaded
  have frame := suspended.frame
  rw [← lowest] at frame
  rcases executeAll_pop rdi rsi context.registers pushOrder.reverse
    { machine with rsp := context.rsp - BitVec.ofNat 64 frameSize }
    (by rw [lowest, six]; omega) frame with ⟨ran, remaining⟩
  rw [lowest, six] at remaining
  rw [executeAll_cons, loaded, executeAll_append, ran]
  have returnPlace : (context.rsp - BitVec.ofNat 64 frameSize +
      BitVec.ofNat 64 (8 * pushOrder.reverse.length)).toNat =
        context.rsp.toNat - frameSize + 8 * 6 := by
    rw [six]
    bv_omega
  apply Machine.ext
  case registers =>
    funext register
    exact if_pos (List.mem_reverse.mpr (mem_pushOrder register))
  case rsp =>
    have whole : context.rsp - BitVec.ofNat 64 frameSize +
        BitVec.ofNat 64 (8 * pushOrder.reverse.length) + 8 = context.rsp := by
      rw [six, size]
      bv_omega
    exact whole
  case rip =>
    have returned : load machine.memory (context.rsp - BitVec.ofNat 64 frameSize +
        BitVec.ofNat 64 (8 * pushOrder.reverse.length)).toNat = context.rip := by
      rw [returnPlace]
      exact remaining.1
    exact returned
  case memory => rfl

/-- `switch_to` suspends the caller, continues the other context and writes nothing but
the caller's frame and saved stack pointer. -/
theorem callSwitchTo_spec {machine : Machine} {currRsp nextRsp : Word} {context : Context}
    (returnAddress : Word) (room : frameSize ≤ machine.rsp.toNat)
    (ownApart : currRsp.toNat + 8 ≤ machine.rsp.toNat - frameSize ∨
      machine.rsp.toNat ≤ currRsp.toNat)
    (suspended : Suspended machine.memory nextRsp context)
    (apart : ∀ byte, Covers nextRsp context.rsp byte → ¬Covers currRsp machine.rsp byte) :
    ∃ memory,
      callSwitchTo currRsp nextRsp returnAddress machine =
        { registers := context.registers
          rsp := context.rsp
          rip := context.rip
          memory := memory } ∧
      Suspended memory currRsp
        { registers := machine.registers, rsp := machine.rsp, rip := returnAddress } ∧
      ∀ byte, ¬Covers currRsp machine.rsp byte → memory byte = machine.memory byte := by
  rcases executeAll_save currRsp nextRsp returnAddress room ownApart with
    ⟨memory, ran, saved, outside⟩
  have kept : Suspended memory nextRsp context :=
    suspended.congr (fun byte covered => outside byte (apart byte covered))
  have halves : switchToCode = (pushOrder.map .push ++ [.movToRdi]) ++
      .movFromRsi :: (pushOrder.reverse.map .pop ++ [.ret]) := rfl
  refine ⟨memory, ?_, saved, outside⟩
  rw [callSwitchTo, halves, executeAll_append, ran, executeAll_restore kept]

end Machine

/-! ### The initial frame -/

theorem setupInitialStack_eq (memory : Store) {stackTop : Word} (entry : Word)
    (room : frameSize ≤ stackTop.toNat) :
    setupInitialStack memory stackTop entry =
      (stackTop - BitVec.ofNat 64 frameSize,
        saveAll memory (stackTop.toNat - frameSize) (Context.initial stackTop entry).frame) := by
  have size : frameSize = 56 := rfl
  have place (index : Nat) (small : index < 7) :
      (stackTop - BitVec.ofNat 64 (FRAME_WORDS * 8) + BitVec.ofNat 64 (8 * index)).toNat =
        stackTop.toNat - frameSize + 8 * index := by
    have words : FRAME_WORDS * 8 = 56 := rfl
    rw [words]
    bv_omega
  dsimp only [setupInitialStack]
  rw [place 0 (by decide), place 1 (by decide), place 2 (by decide), place 3 (by decide),
    place 4 (by decide), place 5 (by decide), place 6 (by decide)]
  rfl

/-- With the returned stack pointer stored in its field, the new task is suspended at its
entry. -/
theorem setupInitialStack_spec (memory : Store) {stackTop field : Word} (entry : Word)
    (room : frameSize ≤ stackTop.toNat)
    (apart : field.toNat + 8 ≤ stackTop.toNat - frameSize ∨ stackTop.toNat ≤ field.toNat) :
    Suspended
        (save (setupInitialStack memory stackTop entry).2 field.toNat
          (setupInitialStack memory stackTop entry).1)
        field (Context.initial stackTop entry) ∧
      ∀ byte, ¬Covers field stackTop byte →
        save (setupInitialStack memory stackTop entry).2 field.toNat
          (setupInitialStack memory stackTop entry).1 byte = memory byte := by
  have size : frameSize = 56 := rfl
  have length := (Context.initial stackTop entry).length_frame
  have top : (Context.initial stackTop entry).rsp = stackTop := rfl
  rw [setupInitialStack_eq memory entry room]
  dsimp only
  constructor
  · constructor
    case room => exact room
    case pointer => exact load_save ..
    case frame =>
      have framed := frame_saveAll memory (stackTop.toNat - frameSize)
        (Context.initial stackTop entry).frame
      exact Frame.save _ framed (by rw [top]; omega)
  · intro byte uncovered
    unfold Covers at uncovered
    rw [save_outside _ _ (by omega), saveAll_outside _ (by omega)]

end CustomKernel.Multitask
