/-
Interrupt entry and exit.

The processor pushes five words, and for some vectors an error code; the stub of the
vector pushes what is missing and `common_stub` pushes the general registers, so that
the stack holds an interrupt frame when the handler is called.  After the handler the
same words are taken off again.
-/

import CustomKernel.Foundation.WordStack

set_option autoImplicit false

namespace CustomKernel.Interrupt

open ByteStore WordStack

inductive GeneralRegister where
  | rax
  | rbx
  | rcx
  | rdx
  | rsi
  | rdi
  | rbp
  | r8
  | r9
  | r10
  | r11
  | r12
  | r13
  | r14
  | r15
  deriving DecidableEq, Repr

@[ext]
structure Processor where
  registers : GeneralRegister → Word
  rsp : Word
  rip : Word
  cs : Word
  rflags : Word
  ss : Word
  memory : Store

@[ext]
structure InterruptFrame where
  r15 : Word
  r14 : Word
  r13 : Word
  r12 : Word
  r11 : Word
  r10 : Word
  r9 : Word
  r8 : Word
  rbp : Word
  rdi : Word
  rsi : Word
  rdx : Word
  rcx : Word
  rbx : Word
  rax : Word
  vector : Word
  errorCode : Word
  rip : Word
  cs : Word
  rflags : Word
  rsp : Word
  ss : Word
  deriving DecidableEq

/-- The frame behind a `*mut InterruptFrame`; the fields lie in order. -/
def readFrame (memory : Store) (pointer : Word) : InterruptFrame :=
  let field (index : Nat) : Word := load memory (pointer + BitVec.ofNat 64 (8 * index)).toNat
  { r15 := field 0
    r14 := field 1
    r13 := field 2
    r12 := field 3
    r11 := field 4
    r10 := field 5
    r9 := field 6
    r8 := field 7
    rbp := field 8
    rdi := field 9
    rsi := field 10
    rdx := field 11
    rcx := field 12
    rbx := field 13
    rax := field 14
    vector := field 15
    errorCode := field 16
    rip := field 17
    cs := field 18
    rflags := field 19
    rsp := field 20
    ss := field 21 }

/-! ### The stubs -/

inductive Instruction where
  | push (register : GeneralRegister)
  | pushImmediate (word : Word)
  | movRdiRsp
  | pop (register : GeneralRegister)
  | addRsp (amount : Word)
  | iretq

def hasErrorCode (vector : Nat) : Bool := vector ∈ [8, 10, 11, 12, 13, 14, 17, 21, 29, 30]

/-- The vectors with a gate in the descriptor table. -/
def Installed (vector : Nat) : Prop := vector < 48 ∨ vector = 128

instance (vector : Nat) : Decidable (Installed vector) := inferInstanceAs (Decidable (_ ∨ _))

def makeStub (vector : Nat) : List Instruction :=
  if hasErrorCode vector then [.pushImmediate (BitVec.ofNat 64 vector)]
  else [.pushImmediate 0, .pushImmediate (BitVec.ofNat 64 vector)]

/-- `common_stub` up to the call of the handler. -/
def commonStubEntry : List Instruction :=
  [.push .rax, .push .rbx, .push .rcx, .push .rdx,
    .push .rsi, .push .rdi, .push .rbp,
    .push .r8, .push .r9, .push .r10, .push .r11,
    .push .r12, .push .r13, .push .r14, .push .r15,
    .movRdiRsp]

/-- `common_stub` behind the call of the handler. -/
def commonStubExit : List Instruction :=
  [.pop .r15, .pop .r14, .pop .r13, .pop .r12,
    .pop .r11, .pop .r10, .pop .r9, .pop .r8,
    .pop .rbp, .pop .rdi, .pop .rsi,
    .pop .rdx, .pop .rcx, .pop .rbx, .pop .rax,
    -- discard vector and error code
    .addRsp 16,
    .iretq]

namespace Processor

def push (processor : Processor) (word : Word) : Processor :=
  { processor with
    rsp := processor.rsp - 8
    memory := save processor.memory (processor.rsp - 8).toNat word }

def stackWord (processor : Processor) (index : Nat) : Word :=
  load processor.memory (processor.rsp + BitVec.ofNat 64 (8 * index)).toNat

def execute (processor : Processor) : Instruction → Processor
  | .push register => processor.push (processor.registers register)
  | .pushImmediate word => processor.push word
  | .movRdiRsp =>
      { processor with
        registers := Function.update processor.registers .rdi processor.rsp }
  | .pop register =>
      { processor with
        registers := Function.update processor.registers register (processor.stackWord 0)
        rsp := processor.rsp + 8 }
  | .addRsp amount => { processor with rsp := processor.rsp + amount }
  | .iretq =>
      { processor with
        rip := processor.stackWord 0
        cs := processor.stackWord 1
        rflags := processor.stackWord 2
        rsp := processor.stackWord 3
        ss := processor.stackWord 4 }

def executeAll (processor : Processor) (code : List Instruction) : Processor :=
  code.foldl execute processor

/-- What the processor pushes from the stack pointer it switches to.  The error code is
there for the vectors built with one. -/
def deliver (processor : Processor) (base : Word) (vector : Nat) (errorCode : Word) : Processor :=
  let pushed := ((((({ processor with rsp := base }.push processor.ss).push processor.rsp).push
    processor.rflags).push processor.cs).push processor.rip)
  if hasErrorCode vector then pushed.push errorCode else pushed

def atHandlerCall (processor : Processor) (base : Word) (vector : Nat) (errorCode : Word) :
    Processor :=
  (processor.deliver base vector errorCode).executeAll (makeStub vector ++ commonStubEntry)

/-- The processor when the handler has returned to `common_stub` and the stub is done. -/
def leaveHandler (returned : Processor) : Processor := returned.executeAll commonStubExit

def interruptFrame (processor : Processor) (vector : Nat) (errorCode : Word) : InterruptFrame :=
  { r15 := processor.registers .r15
    r14 := processor.registers .r14
    r13 := processor.registers .r13
    r12 := processor.registers .r12
    r11 := processor.registers .r11
    r10 := processor.registers .r10
    r9 := processor.registers .r9
    r8 := processor.registers .r8
    rbp := processor.registers .rbp
    rdi := processor.registers .rdi
    rsi := processor.registers .rsi
    rdx := processor.registers .rdx
    rcx := processor.registers .rcx
    rbx := processor.registers .rbx
    rax := processor.registers .rax
    vector := BitVec.ofNat 64 vector
    errorCode := if hasErrorCode vector then errorCode else 0
    rip := processor.rip
    cs := processor.cs
    rflags := processor.rflags
    rsp := processor.rsp
    ss := processor.ss }

end Processor

/-- `syscall::dispatch`: the result of the call goes to `rax`. -/
def dispatch (call : Word → Word → Word → Word → Word) (frame : InterruptFrame) :
    InterruptFrame :=
  { frame with rax := call frame.rax frame.rdi frame.rsi frame.rdx }

/-! ### Frames as words of the stack -/

def popOrder : List GeneralRegister :=
  [.r15, .r14, .r13, .r12, .r11, .r10, .r9, .r8, .rbp, .rdi, .rsi, .rdx, .rcx, .rbx, .rax]

namespace InterruptFrame

def registers (frame : InterruptFrame) : GeneralRegister → Word
  | .rax => frame.rax
  | .rbx => frame.rbx
  | .rcx => frame.rcx
  | .rdx => frame.rdx
  | .rsi => frame.rsi
  | .rdi => frame.rdi
  | .rbp => frame.rbp
  | .r8 => frame.r8
  | .r9 => frame.r9
  | .r10 => frame.r10
  | .r11 => frame.r11
  | .r12 => frame.r12
  | .r13 => frame.r13
  | .r14 => frame.r14
  | .r15 => frame.r15

/-- The words the processor and the stub of the vector push, the last one first. -/
def hardware (frame : InterruptFrame) : List Word :=
  [frame.vector, frame.errorCode, frame.rip, frame.cs, frame.rflags, frame.rsp, frame.ss]

def words (frame : InterruptFrame) : List Word :=
  popOrder.map frame.registers ++ frame.hardware

end InterruptFrame

theorem InterruptFrame.words_inj {left right : InterruptFrame}
    (same : left.words = right.words) : left = right := by
  simp only [words, popOrder, registers, hardware, List.map_cons, List.map_nil, List.cons_append,
    List.nil_append, List.cons.injEq, and_true] at same
  apply InterruptFrame.ext <;> simp only [same]

theorem words_readFrame (memory : Store) (pointer : Word) :
    (readFrame memory pointer).words = loads memory pointer 22 := by
  simp [InterruptFrame.words, popOrder, InterruptFrame.registers, InterruptFrame.hardware,
    readFrame, loads, BitVec.add_assoc]

theorem stacked_iff_readFrame {memory : Store} {pointer : Word} {frame : InterruptFrame} :
    Stacked memory pointer frame.words ↔ readFrame memory pointer = frame := by
  have length : frame.words.length = 22 := rfl
  rw [stacked_iff, length, ← words_readFrame]
  constructor
  · exact InterruptFrame.words_inj
  · intro same
    rw [same]

/-! ### Entry and exit -/

theorem commonStubExit_eq :
    commonStubExit = popOrder.map .pop ++ [.addRsp 16, .iretq] := rfl

theorem mem_popOrder (register : GeneralRegister) : register ∈ popOrder := by
  cases register <;> decide

namespace Processor

theorem executeAll_cons (processor : Processor) (instruction : Instruction)
    (rest : List Instruction) :
    processor.executeAll (instruction :: rest) =
      (processor.execute instruction).executeAll rest := rfl

theorem executeAll_append (processor : Processor) (first second : List Instruction) :
    processor.executeAll (first ++ second) = (processor.executeAll first).executeAll second :=
  List.foldl_append ..

theorem stackWord_zero (processor : Processor) :
    processor.stackWord 0 = load processor.memory processor.rsp.toNat := by
  have top : processor.rsp + BitVec.ofNat 64 (8 * 0) = processor.rsp := BitVec.add_zero _
  rw [stackWord, top]

def pushWords (processor : Processor) (words : List Word) : Processor := words.foldl push processor

theorem pushWords_append (processor : Processor) (first second : List Word) :
    processor.pushWords (first ++ second) = (processor.pushWords first).pushWords second :=
  List.foldl_append ..

theorem pushWords_eq (processor : Processor) (words : List Word) :
    processor.pushWords words =
      { processor with
        rsp := (pushAll processor.memory processor.rsp words).2
        memory := (pushAll processor.memory processor.rsp words).1 } := by
  induction words generalizing processor with
  | nil => rfl
  | cons word rest ih => exact ih (processor.push word)

theorem registers_pushWords (processor : Processor) (words : List Word) :
    (processor.pushWords words).registers = processor.registers := by
  rw [pushWords_eq]

theorem executeAll_push (processor : Processor) (order : List GeneralRegister) :
    processor.executeAll (order.map .push) =
      processor.pushWords (order.map processor.registers) := by
  induction order generalizing processor with
  | nil => rfl
  | cons register rest ih => exact ih (processor.push (processor.registers register))

theorem commonStubEntry_eq : commonStubEntry = popOrder.reverse.map .push ++ [.movRdiRsp] := rfl

theorem deliver_makeStub (processor : Processor) (base : Word) (vector : Nat)
    (errorCode : Word) :
    (processor.deliver base vector errorCode).executeAll (makeStub vector) =
      { processor with rsp := base }.pushWords
        (processor.interruptFrame vector errorCode).hardware.reverse := by
  have code : (processor.interruptFrame vector errorCode).errorCode =
      if hasErrorCode vector then errorCode else 0 := rfl
  rw [InterruptFrame.hardware, code, deliver, makeStub]
  cases hasErrorCode vector with
  | true => rfl
  | false => rfl

theorem atHandlerCall_eq (processor : Processor) (base : Word) (vector : Nat)
    (errorCode : Word) :
    let pushed := pushAll processor.memory base
      (processor.interruptFrame vector errorCode).words.reverse
    processor.atHandlerCall base vector errorCode =
      { processor with
        registers := Function.update processor.registers .rdi pushed.2
        rsp := pushed.2
        memory := pushed.1 } := by
  intro pushed
  have order : (processor.interruptFrame vector errorCode).words.reverse =
      (processor.interruptFrame vector errorCode).hardware.reverse ++
        popOrder.reverse.map processor.registers := by
    rw [InterruptFrame.words, List.reverse_append, ← List.map_reverse]
    rfl
  have ran : (processor.deliver base vector errorCode).executeAll
      (makeStub vector ++ popOrder.reverse.map .push) =
        { processor with rsp := base }.pushWords
          (processor.interruptFrame vector errorCode).words.reverse := by
    rw [executeAll_append, deliver_makeStub, executeAll_push, registers_pushWords, order,
      pushWords_append]
  rw [atHandlerCall, commonStubEntry_eq, ← List.append_assoc, executeAll_append, ran,
    pushWords_eq]
  rfl

theorem executeAll_pop (values : GeneralRegister → Word) (order : List GeneralRegister)
    (processor : Processor) {words : List Word}
    (stacked : Stacked processor.memory processor.rsp (order.map values ++ words)) :
    processor.executeAll (order.map .pop) =
        { processor with
          registers := fun register =>
            if register ∈ order then values register else processor.registers register
          rsp := processor.rsp + BitVec.ofNat 64 (8 * order.length) } ∧
      Stacked processor.memory (processor.rsp + BitVec.ofNat 64 (8 * order.length)) words := by
  induction order generalizing processor with
  | nil =>
      have same : processor.rsp + BitVec.ofNat 64 (8 * ([] : List GeneralRegister).length) =
          processor.rsp := BitVec.add_zero _
      rw [same]
      exact ⟨by simp [executeAll], stacked⟩
  | cons register rest ih =>
      have above : processor.rsp + 8 + BitVec.ofNat 64 (8 * rest.length) =
          processor.rsp + BitVec.ofNat 64 (8 * (register :: rest).length) := by
        have length : (register :: rest).length = rest.length + 1 := rfl
        rw [length]
        bv_omega
      have head : processor.stackWord 0 = values register := by
        rw [stackWord_zero]
        exact stacked.1
      rcases ih (processor.execute (.pop register)) stacked.2 with ⟨ran, remaining⟩
      constructor
      · rw [List.map_cons, executeAll_cons, ran]
        apply Processor.ext
        case registers =>
          funext other
          by_cases here : other = register
          · subst here
            simp [execute, head]
          · simp [execute, here]
        case rsp => exact above
        case rip => rfl
        case cs => rfl
        case rflags => rfl
        case ss => rfl
        case memory => rfl
      · rw [← above]
        exact remaining

theorem execute_iretq {processor : Processor} {rip cs rflags rsp ss : Word}
    (stacked : Stacked processor.memory processor.rsp [rip, cs, rflags, rsp, ss]) :
    processor.execute .iretq =
      { processor with rip := rip, cs := cs, rflags := rflags, rsp := rsp, ss := ss } := by
  rcases stacked with ⟨ripAt, csAt, rflagsAt, rspAt, ssAt, _⟩
  have second : processor.rsp + BitVec.ofNat 64 (8 * 2) = processor.rsp + 8 + 8 := by bv_omega
  have third : processor.rsp + BitVec.ofNat 64 (8 * 3) = processor.rsp + 8 + 8 + 8 := by bv_omega
  have fourth : processor.rsp + BitVec.ofNat 64 (8 * 4) = processor.rsp + 8 + 8 + 8 + 8 := by
    bv_omega
  apply Processor.ext
  case registers => rfl
  case rip => exact (stackWord_zero processor).trans ripAt
  case cs => exact csAt
  case rflags =>
    change load processor.memory (processor.rsp + BitVec.ofNat 64 (8 * 2)).toNat = rflags
    rw [second]
    exact rflagsAt
  case rsp =>
    change load processor.memory (processor.rsp + BitVec.ofNat 64 (8 * 3)).toNat = rsp
    rw [third]
    exact rspAt
  case ss =>
    change load processor.memory (processor.rsp + BitVec.ofNat 64 (8 * 4)).toNat = ss
    rw [fourth]
    exact ssAt
  case memory => rfl

theorem leaveHandler_eq {returned : Processor} {frame : InterruptFrame}
    (stacked : Stacked returned.memory returned.rsp frame.words) :
    returned.leaveHandler =
      { registers := frame.registers
        rsp := frame.rsp
        rip := frame.rip
        cs := frame.cs
        rflags := frame.rflags
        ss := frame.ss
        memory := returned.memory } := by
  rcases executeAll_pop frame.registers popOrder returned stacked with ⟨ran, remaining⟩
  rw [leaveHandler, commonStubExit_eq, executeAll_append, ran]
  generalize returned.rsp + BitVec.ofNat 64 (8 * popOrder.length) = top at remaining ⊢
  rcases remaining with ⟨_, _, interrupted⟩
  have skipped : top + 8 + 8 = top + 16 := by bv_omega
  rw [skipped] at interrupted
  have registers : (fun register => if register ∈ popOrder then frame.registers register
      else returned.registers register) = frame.registers := by
    funext register
    exact if_pos (mem_popOrder register)
  rw [registers, executeAll_cons, executeAll_cons]
  exact execute_iretq interrupted

end Processor

/-- For every state and every installed vector the handler gets the interrupted state in
the fields of its frame, on an aligned stack if the processor switched to one; and if it
changes no field but `rax`, the interrupted state continues with that value in `rax`. -/
theorem interrupts_preserve_state (processor : Processor) (base : Word) (vector : Nat)
    (errorCode : Word) (installed : Installed vector) :
    let called := processor.atHandlerCall base vector errorCode
    let frame := readFrame called.memory (called.registers .rdi)
    frame = processor.interruptFrame vector errorCode ∧
      frame.vector.toNat = vector ∧
      (base.toNat % 16 = 0 → called.rsp.toNat % 16 = 0) ∧
      ∀ (returned : Processor) (result : Word), returned.rsp = called.rsp →
        readFrame returned.memory (called.registers .rdi) = { frame with rax := result } →
        returned.leaveHandler =
          { processor with
            registers := Function.update processor.registers .rax result
            memory := returned.memory } := by
  intro called frame
  have length : (processor.interruptFrame vector errorCode).words.reverse.length = 22 := rfl
  have calledEq := processor.atHandlerCall_eq base vector errorCode
  have empty : Stacked processor.memory base [] := trivial
  rcases stacked_pushAll (processor.interruptFrame vector errorCode).words.reverse empty
    (by rw [length]; decide) with ⟨rspEq, stacked⟩
  rw [List.reverse_reverse, List.append_nil] at stacked
  have rsp : called.rsp = base - BitVec.ofNat 64 (8 * 22) :=
    (congrArg Processor.rsp calledEq).trans rspEq
  have pointer : called.registers .rdi = called.rsp := by
    simp only [called, calledEq, Function.update_self]
  have frameEq : frame = processor.interruptFrame vector errorCode := by
    apply stacked_iff_readFrame.mp
    rw [pointer]
    simp only [called, calledEq]
    exact stacked
  refine ⟨frameEq, ?_, ?_, ?_⟩
  · have small : vector < 2 ^ 64 := by
      unfold Installed at installed
      omega
    rw [frameEq]
    exact BitVec.toNat_ofNat _ _ |>.trans (Nat.mod_eq_of_lt small)
  · intro aligned
    rw [rsp]
    bv_omega
  · intro returned result same changed
    rw [pointer, ← same] at changed
    rw [Processor.leaveHandler_eq (stacked_iff_readFrame.mpr changed), frameEq]
    apply Processor.ext
    case registers =>
      funext register
      cases register <;> rfl
    case rsp => rfl
    case rip => rfl
    case cs => rfl
    case rflags => rfl
    case ss => rfl
    case memory => rfl

def sampleProgram : Processor :=
  { registers := fun register =>
      if register = .rax then 0 else if register = .rdx then 3 else 0x4000
    rsp := 0x8ff8
    rip := 0x1234
    cs := 0x28
    rflags := 0x202
    ss := 0x30
    memory := fun _ => 0 }

/-- The result of the call, 3, is in `rax` when the program goes on. -/
theorem sampleProgram_writes :
    let called := sampleProgram.atHandlerCall 0x8ff0 128 0
    let frame := readFrame called.memory (called.registers .rdi)
    let written := (dispatch (fun _ _ _ len => len) frame).rax
    let returned : Processor := { called with memory := save called.memory 0x8fb0 written }
    frame = sampleProgram.interruptFrame 128 0 ∧ called.rsp.toNat % 16 = 0 ∧
      returned.leaveHandler =
        { sampleProgram with
          registers := Function.update sampleProgram.registers .rax 3
          memory := returned.memory } := by
  intro called frame written returned
  have preserved := interrupts_preserve_state sampleProgram 0x8ff0 128 0 (Or.inr rfl)
  refine ⟨preserved.1, preserved.2.2.1 (by decide), ?_⟩
  exact preserved.2.2.2 returned 3 rfl (by decide +kernel)

end CustomKernel.Interrupt
