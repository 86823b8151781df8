/-
What `common_handler` does with a vector.

An exception is reported on a new terminal and the machine stops.  The texts of the reports
begin with different headings and print every number in full width, so that the exception and
the registers shown can be read off the text.  An interrupt of a device goes to the handler
registered for its line, and is then acknowledged.
-/

import CustomKernel.Interrupt.Idt
import CustomKernel.Ui.PrintedText

set_option autoImplicit false

namespace CustomKernel.Interrupt

open ByteStore WordStack Ui Readback

/-! ### The reports -/

/-- What a report can show: the frame, and the fault address at that moment. -/
structure Fault where
  cr2 : Word
  frame : InterruptFrame

def exceptionName : Nat → String
  | 1 => "Debug"
  | 2 => "Non-Maskable Interrupt"
  | 3 => "Breakpoint"
  | 4 => "Overflow"
  | 5 => "Bound Range Exceeded"
  | 7 => "Device Not Available"
  | 9 => "Coprocessor Segment Overrun"
  | 10 => "Invalid TSS"
  | 11 => "Segment Not Present"
  | 12 => "Stack-Segment Fault"
  | 15 => "Reserved"
  | 16 => "x87 Floating-Point Exception"
  | 17 => "Alignment Check"
  | 18 => "Machine Check"
  | 19 => "SIMD Floating-Point Exception"
  | 20 => "Virtualization Exception"
  | 21 => "Control Protection Exception"
  | 22 => "Reserved"
  | 23 => "Reserved"
  | 24 => "Reserved"
  | 25 => "Reserved"
  | 26 => "Reserved"
  | 27 => "Reserved"
  | 28 => "Hypervisor Injection Exception"
  | 29 => "VMM Communication Exception"
  | 30 => "Security Exception"
  | 31 => "Reserved"
  | _ => "Unknown"

def exceptionGeneric (name : String) (fault : Fault) : List TerminalCall :=
  [.print "\n!! CPU EXCEPTION: ".toList, .print name.toList,
    .print "\n!! Vector: ".toList, .printHex64 fault.frame.vector,
    .print "\nError code: ".toList, .printHex64 fault.frame.errorCode,
    .print "\nRIP: ".toList, .printHex64 fault.frame.rip,
    .print "\n".toList]

def faultReasons (errorCode : Word) : List TerminalCall :=
  [.print (if errorCode &&& 1 = 0 then "not-present " else "protection-violation ").toList,
    .print (if errorCode &&& 2 ≠ 0 then "write " else "read ").toList] ++
    if errorCode &&& 4 ≠ 0 then [.print "user-mode ".toList] else []

def exceptionPageFault (fault : Fault) : List TerminalCall :=
  [.print "\n!! PAGE FAULT !!\n".toList,
    .print "CR2 (fault addr): ".toList, .printHex64 fault.cr2,
    .print "\nError code:      ".toList, .printHex64 fault.frame.errorCode,
    .print "\nRIP:             ".toList, .printHex64 fault.frame.rip,
    .print "\nRSP:             ".toList, .printHex64 fault.frame.rsp,
    .print "\nRAX:             ".toList, .printHex64 fault.frame.rax,
    .print "\nReason:          ".toList] ++
  faultReasons fault.frame.errorCode ++
  [.print "\nRIP:             ".toList, .printHex64 fault.frame.rip,
    .print "\n".toList]

def exceptionDivideByZero (fault : Fault) : List TerminalCall :=
  [.print "\n !! DIVIDE-BY-ZERO EXCEPTION !! \nRIP: ".toList, .printHex64 fault.frame.rip,
    .print "\n".toList]

def exceptionGeneralProtectionFault (fault : Fault) : List TerminalCall :=
  [.print "\n!! GENERAL PROTECTION FAULT !!\n".toList,
    .print "Saved RIP:     ".toList, .printHex64 fault.frame.rip,
    .print "\nError code:   ".toList, .printHex64 fault.frame.errorCode,
    .print "\nCS:           ".toList, .printHex64 fault.frame.cs,
    .print "\n".toList]

def exceptionInvalidOpcode (fault : Fault) : List TerminalCall :=
  [.print "\n!! INVALID OPCODE EXCEPTION !! \nRIP: ".toList, .printHex64 fault.frame.rip,
    .print "\n".toList]

def exceptionDoubleFault (fault : Fault) : List TerminalCall :=
  [.print "\n!! DOUBLE FAULT !! (register dump)\n".toList,
    .print "RIP: ".toList, .printHex64 fault.frame.rip, .print "\n".toList,
    .print "CS:  ".toList, .printHex64 fault.frame.cs, .print "\n".toList,
    .print "RAX: ".toList, .printHex64 fault.frame.rax, .print "  ".toList,
    .print "RBX: ".toList, .printHex64 fault.frame.rbx, .print "\n".toList,
    .print "RCX: ".toList, .printHex64 fault.frame.rcx, .print "  ".toList,
    .print "RDX: ".toList, .printHex64 fault.frame.rdx, .print "\n".toList,
    .print "RSI: ".toList, .printHex64 fault.frame.rsi, .print "  ".toList,
    .print "RDI: ".toList, .printHex64 fault.frame.rdi, .print "\n".toList,
    .print "RBP: ".toList, .printHex64 fault.frame.rbp, .print "  ".toList,
    .print "RSP: ".toList, .printHex64 fault.frame.rsp, .print "\n".toList,
    .print "R8:  ".toList, .printHex64 fault.frame.r8, .print "  ".toList,
    .print "R9:  ".toList, .printHex64 fault.frame.r9, .print "\n".toList,
    .print "R10: ".toList, .printHex64 fault.frame.r10, .print "  ".toList,
    .print "R11: ".toList, .printHex64 fault.frame.r11, .print "\n".toList,
    .print "R12: ".toList, .printHex64 fault.frame.r12, .print "  ".toList,
    .print "R13: ".toList, .printHex64 fault.frame.r13, .print "\n".toList,
    .print "R14: ".toList, .printHex64 fault.frame.r14, .print "  ".toList,
    .print "R15: ".toList, .printHex64 fault.frame.r15, .print "\n".toList,
    .print "RFLAGS: ".toList, .printHex64 fault.frame.rflags, .print "\n".toList]

/-- The calls on the terminal between the two changes of colors in `with_term`. -/
def exceptionReport (fault : Fault) : List TerminalCall :=
  match fault.frame.vector.toNat with
  | 0 => exceptionDivideByZero fault
  | 6 => exceptionInvalidOpcode fault
  | 8 => exceptionDoubleFault fault
  | 13 => exceptionGeneralProtectionFault fault
  | 14 => exceptionPageFault fault
  | vector => exceptionGeneric (exceptionName vector) fault

def COLOR_PANIC : Color := 0x00F38BA8#32

/-- `with_term` on a terminal that could be opened. -/
def withTerm (calls : List TerminalCall) : List TerminalCall :=
  .setColor COLOR_PANIC COLOR_BG :: calls ++ [.setColor COLOR_FG COLOR_BG]

def reportText (fault : Fault) : List Char := (exceptionReport fault).flatMap callText

/-! ### Reading a report -/

abbrev ReportField := List Char × (Fault → Word)

def ripFields (heading : String) : List ReportField := [(heading.toList, fun fault => fault.frame.rip)]

def protectionFields : List ReportField :=
  [("\n!! GENERAL PROTECTION FAULT !!\n".toList ++ "Saved RIP:     ".toList,
      fun fault => fault.frame.rip),
    ("\nError code:   ".toList, fun fault => fault.frame.errorCode),
    ("\nCS:           ".toList, fun fault => fault.frame.cs)]

def pageFaultFields : List ReportField :=
  [("\n!! PAGE FAULT !!\n".toList ++ "CR2 (fault addr): ".toList, fun fault => fault.cr2),
    ("\nError code:      ".toList, fun fault => fault.frame.errorCode),
    ("\nRIP:             ".toList, fun fault => fault.frame.rip),
    ("\nRSP:             ".toList, fun fault => fault.frame.rsp),
    ("\nRAX:             ".toList, fun fault => fault.frame.rax)]

def doubleFaultFields : List ReportField :=
  [("\n!! DOUBLE FAULT !! (register dump)\n".toList ++ "RIP: ".toList,
      fun fault => fault.frame.rip),
    ("\n".toList ++ "CS:  ".toList, fun fault => fault.frame.cs),
    ("\n".toList ++ "RAX: ".toList, fun fault => fault.frame.rax),
    ("  ".toList ++ "RBX: ".toList, fun fault => fault.frame.rbx),
    ("\n".toList ++ "RCX: ".toList, fun fault => fault.frame.rcx),
    ("  ".toList ++ "RDX: ".toList, fun fault => fault.frame.rdx),
    ("\n".toList ++ "RSI: ".toList, fun fault => fault.frame.rsi),
    ("  ".toList ++ "RDI: ".toList, fun fault => fault.frame.rdi),
    ("\n".toList ++ "RBP: ".toList, fun fault => fault.frame.rbp),
    ("  ".toList ++ "RSP: ".toList, fun fault => fault.frame.rsp),
    ("\n".toList ++ "R8:  ".toList, fun fault => fault.frame.r8),
    ("  ".toList ++ "R9:  ".toList, fun fault => fault.frame.r9),
    ("\n".toList ++ "R10: ".toList, fun fault => fault.frame.r10),
    ("  ".toList ++ "R11: ".toList, fun fault => fault.frame.r11),
    ("\n".toList ++ "R12: ".toList, fun fault => fault.frame.r12),
    ("  ".toList ++ "R13: ".toList, fun fault => fault.frame.r13),
    ("\n".toList ++ "R14: ".toList, fun fault => fault.frame.r14),
    ("  ".toList ++ "R15: ".toList, fun fault => fault.frame.r15),
    ("\n".toList ++ "RFLAGS: ".toList, fun fault => fault.frame.rflags)]

def genericFields : List ReportField :=
  [("\n!! Vector: ".toList, fun fault => fault.frame.vector),
    ("\nError code: ".toList, fun fault => fault.frame.errorCode),
    ("\nRIP: ".toList, fun fault => fault.frame.rip)]

def reportFields : Nat → List ReportField
  | 0 => ripFields "\n !! DIVIDE-BY-ZERO EXCEPTION !! \nRIP: "
  | 6 => ripFields "\n!! INVALID OPCODE EXCEPTION !! \nRIP: "
  | 8 => doubleFaultFields
  | 13 => protectionFields
  | 14 => pageFaultFields
  | _ => genericFields

def fieldText (fields : List ReportField) (fault : Fault) : List Char :=
  fields.flatMap fun field => field.1 ++ hexText (field.2 fault)

def fieldValues (fields : List ReportField) (fault : Fault) : List Word :=
  fields.map fun field => field.2 fault

/-- What the exception shows: its number, and the numbers of its report. -/
def Fault.reported (fault : Fault) : List Word :=
  fieldValues (reportFields fault.frame.vector.toNat) fault

theorem reads_fields (fields : List ReportField) (behind : List Char → Prop) :
    Reads (fieldText fields) (fieldValues fields) behind :=
  reads_labelled reads_hexText fields behind

/-- The heading of a report shows which of the six it is. -/
def headingLetter : Nat → Char
  | 0 => ' '
  | 6 => 'I'
  | 8 => 'D'
  | 13 => 'G'
  | 14 => 'P'
  | _ => 'C'

theorem reportText_letter (fault : Fault) :
    (reportText fault)[4]? = some (headingLetter fault.frame.vector.toNat) := by
  unfold reportText exceptionReport headingLetter
  split <;> rfl

/-- The end of a page fault's report, which repeats what was shown before. -/
def pageFaultClosing (errorCode rip : Word) : List Char :=
  "\nReason:          ".toList ++ (faultReasons errorCode).flatMap callText ++
    "\nRIP:             ".toList ++ hexText rip ++ "\n".toList

theorem pageFault_text (fault : Fault) :
    (exceptionPageFault fault).flatMap callText =
      fieldText pageFaultFields fault ++
        pageFaultClosing fault.frame.errorCode fault.frame.rip := by
  unfold exceptionPageFault pageFaultClosing
  rw [List.flatMap_append, List.flatMap_append]
  generalize (faultReasons fault.frame.errorCode).flatMap callText = reasons
  simp only [fieldText, pageFaultFields, List.flatMap_cons, List.flatMap_nil, callText,
    List.append_assoc, List.append_nil]

theorem reads_report {report : Fault → List TerminalCall} {fields : List ReportField}
    {closing : Fault → List Char}
    (text : ∀ fault, (report fault).flatMap callText = fieldText fields fault ++ closing fault)
    (known : ∀ left right, fieldValues fields left = fieldValues fields right →
      closing left = closing right) :
    Reads (fun fault => (report fault).flatMap callText) (fieldValues fields) (fun _ => True) := by
  have reads : Reads (fun fault => fieldText fields fault ++ closing fault) (fieldValues fields)
      (fun _ => True) :=
    (reads_fields fields (fun _ => True)).repeated known fun _ _ _ => trivial
  intro left right leftRest rightRest leftBehind rightBehind same
  dsimp only at same
  rw [text, text] at same
  exact reads left right leftRest rightRest leftBehind rightBehind same

theorem reads_pageFault :
    Reads (fun fault => (exceptionPageFault fault).flatMap callText)
      (fieldValues pageFaultFields) (fun _ => True) := by
  apply reads_report pageFault_text
  intro left right same
  simp only [fieldValues, pageFaultFields, List.map_cons, List.cons.injEq] at same
  rw [same.2.1, same.2.2.1]

theorem divideByZero_text (fault : Fault) :
    (exceptionDivideByZero fault).flatMap callText =
      fieldText (reportFields 0) fault ++ "\n".toList := by
  simp only [exceptionDivideByZero, fieldText, reportFields, ripFields, List.flatMap_cons,
    List.flatMap_nil, callText, List.append_assoc, List.append_nil]

theorem invalidOpcode_text (fault : Fault) :
    (exceptionInvalidOpcode fault).flatMap callText =
      fieldText (reportFields 6) fault ++ "\n".toList := by
  simp only [exceptionInvalidOpcode, fieldText, reportFields, ripFields, List.flatMap_cons,
    List.flatMap_nil, callText, List.append_assoc, List.append_nil]

theorem generalProtectionFault_text (fault : Fault) :
    (exceptionGeneralProtectionFault fault).flatMap callText =
      fieldText (reportFields 13) fault ++ "\n".toList := by
  simp only [exceptionGeneralProtectionFault, fieldText, reportFields, protectionFields,
    List.flatMap_cons, List.flatMap_nil, callText, List.append_assoc, List.append_nil]

theorem doubleFault_text (fault : Fault) :
    (exceptionDoubleFault fault).flatMap callText =
      fieldText (reportFields 8) fault ++ "\n".toList := by
  simp only [exceptionDoubleFault, fieldText, reportFields, doubleFaultFields, List.flatMap_cons,
    List.flatMap_nil, callText, List.append_assoc, List.append_nil]

theorem exceptionName_line (vector : Nat) {c : Char}
    (member : c ∈ (exceptionName vector).toList) : c ≠ '\n' := by
  have all : (exceptionName vector).toList.all (fun c => c ≠ '\n') = true := by
    unfold exceptionName
    split <;> rfl
  exact of_decide_eq_true (List.all_eq_true.mp all c member)

theorem generic_text (fault : Fault) :
    (exceptionGeneric (exceptionName fault.frame.vector.toNat) fault).flatMap callText =
      "\n!! CPU EXCEPTION: ".toList ++ ((exceptionName fault.frame.vector.toNat).toList ++
        (fieldText genericFields fault ++ "\n".toList)) := by
  simp only [exceptionGeneric, fieldText, genericFields, List.flatMap_cons,
    List.flatMap_nil, callText, List.append_assoc, List.append_nil]

theorem reads_generic :
    Reads (fun fault => (exceptionGeneric (exceptionName fault.frame.vector.toNat) fault).flatMap
      callText) (fieldValues genericFields) (fun _ => True) := by
  have named : Reads (fun fault : Fault => (exceptionName fault.frame.vector.toNat).toList)
      (fun fault => (exceptionName fault.frame.vector.toNat).toList) (Stops (· ≠ '\n')) :=
    reads_run fun fault _ => exceptionName_line fault.frame.vector.toNat
  have numbers : Reads (fun fault => fieldText genericFields fault ++ "\n".toList)
      (fieldValues genericFields) (fun _ => True) :=
    (reads_fields genericFields (fun _ => True)).repeated (fun _ _ _ => rfl) fun _ _ _ => trivial
  have stops (fault : Fault) (rest : List Char) (_ : True) :
      Stops (· ≠ '\n') (fieldText genericFields fault ++ "\n".toList ++ rest) := by
    intro c head marked
    exact marked (Option.some.inj head).symm
  have whole := ((reads_word "\n!! CPU EXCEPTION: ".toList (fun _ => True)).append
    (named.append numbers stops) fun _ _ _ => trivial).map fun seen => seen.2.2
  intro left right leftRest rightRest leftBehind rightBehind same
  dsimp only at same
  rw [generic_text, generic_text] at same
  exact whole left right leftRest rightRest leftBehind rightBehind same

/-! ### Telling reports apart -/

theorem exceptionReport_prints (fault : Fault) : (exceptionReport fault).all prints = true := by
  have reasons (errorCode : Word) : (faultReasons errorCode).all prints = true := by
    rw [faultReasons, List.all_append]
    by_cases user : errorCode &&& 4 ≠ 0
    · rw [if_pos user]
      rfl
    · rw [if_neg user]
      rfl
  unfold exceptionReport
  split
  case h_5 =>
    rw [exceptionPageFault, List.all_append, List.all_append, reasons]
    rfl
  all_goals rfl

theorem headingLetter_inj {left right : Nat} (same : headingLetter left = headingLetter right)
    (special : headingLetter left ≠ 'C') : left = right := by
  unfold headingLetter at same special
  split at same <;> split at same <;> simp_all

theorem exceptionReport_generic {fault : Fault}
    (letter : headingLetter fault.frame.vector.toNat = 'C') :
    exceptionReport fault = exceptionGeneric (exceptionName fault.frame.vector.toNat) fault := by
  unfold exceptionReport
  unfold headingLetter at letter
  split at letter
  all_goals first
    | exact absurd letter (by decide)
    | rfl

theorem reportFields_generic {vector : Nat} (letter : headingLetter vector = 'C') :
    reportFields vector = genericFields := by
  unfold reportFields
  unfold headingLetter at letter
  split at letter
  all_goals first
    | exact absurd letter (by decide)
    | rfl

theorem report_of_heading (vector : Nat) :
    ∃ report : Fault → List TerminalCall,
      (∀ fault : Fault, headingLetter fault.frame.vector.toNat = headingLetter vector →
        exceptionReport fault = report fault ∧
          fault.reported = fieldValues (reportFields vector) fault) ∧
      Reads (fun fault => (report fault).flatMap callText) (fieldValues (reportFields vector))
        (fun _ => True) := by
  have numbered {number : Nat} {report : Fault → List TerminalCall}
      (special : headingLetter number ≠ 'C')
      (reports : ∀ fault : Fault, fault.frame.vector.toNat = number →
        exceptionReport fault = report fault) (fault : Fault)
      (same : headingLetter fault.frame.vector.toNat = headingLetter number) :
      exceptionReport fault = report fault ∧
        fault.reported = fieldValues (reportFields number) fault := by
    have vector := (headingLetter_inj same.symm special).symm
    exact ⟨reports fault vector, by rw [Fault.reported, vector]⟩
  by_cases letter : headingLetter vector = 'C'
  · refine ⟨fun fault => exceptionGeneric (exceptionName fault.frame.vector.toNat) fault, ?_, ?_⟩
    · intro fault same
      rw [letter] at same
      rw [Fault.reported, reportFields_generic same, reportFields_generic letter]
      exact ⟨exceptionReport_generic same, rfl⟩
    · rw [reportFields_generic letter]
      exact reads_generic
  · have vectors : vector = 0 ∨ vector = 6 ∨ vector = 8 ∨ vector = 13 ∨ vector = 14 := by
      unfold headingLetter at letter
      split at letter <;> simp_all
    rcases vectors with rfl | rfl | rfl | rfl | rfl
    · exact ⟨exceptionDivideByZero, numbered letter fun fault same => by
        simp only [exceptionReport, same], reads_report divideByZero_text fun _ _ _ => rfl⟩
    · exact ⟨exceptionInvalidOpcode, numbered letter fun fault same => by
        simp only [exceptionReport, same], reads_report invalidOpcode_text fun _ _ _ => rfl⟩
    · exact ⟨exceptionDoubleFault, numbered letter fun fault same => by
        simp only [exceptionReport, same], reads_report doubleFault_text fun _ _ _ => rfl⟩
    · exact ⟨exceptionGeneralProtectionFault, numbered letter fun fault same => by
        simp only [exceptionReport, same], reads_report generalProtectionFault_text fun _ _ _ => rfl⟩
    · exact ⟨exceptionPageFault, numbered letter fun fault same => by
        simp only [exceptionReport, same], reads_pageFault⟩

/-- A report is drawn as one text, whatever the terminal showed, and whatever the faults: equal
texts are reports of the same vector, with the same value for every number shown.  For a page
fault these are the fault address, the error code and three registers, for a double fault
all general registers, `rip`, `rsp`, `cs` and `rflags`. -/
theorem exception_reports_readable :
    (∀ (fault : Fault) (font : FontBytes) (t : Terminal),
      t.run font (exceptionReport fault) = t.print font (reportText fault)) ∧
    ∀ left right : Fault, reportText left = reportText right →
      left.frame.vector = right.frame.vector ∧ left.reported = right.reported := by
  refine ⟨fun fault font t => run_prints font t (exceptionReport_prints fault), ?_⟩
  intro left right same
  have letters : headingLetter left.frame.vector.toNat =
      headingLetter right.frame.vector.toNat := by
    apply Option.some.inj
    rw [← reportText_letter, ← reportText_letter, same]
  obtain ⟨report, written, reads⟩ := report_of_heading right.frame.vector.toNat
  obtain ⟨leftReport, leftValues⟩ := written left letters
  obtain ⟨rightReport, rightValues⟩ := written right rfl
  rw [reportText, reportText, leftReport, rightReport] at same
  have values := reads.determines trivial same
  refine ⟨?_, by rw [leftValues, rightValues, values]⟩
  by_cases letter : headingLetter right.frame.vector.toNat = 'C'
  · rw [reportFields_generic letter] at values
    exact (List.cons.inj values).1
  · exact BitVec.eq_of_toNat_eq (headingLetter_inj letters.symm letter).symm

def sampleFault (unused : Word) : Fault :=
  { cr2 := 0xdead000
    frame :=
      { Processor.interruptFrame
          { registers := fun register => if register = .rdi then unused else 7
            rsp := 0x8000
            rip := 0x1234
            cs := 0x28
            rflags := 0x202
            ss := 0x30
            memory := fun _ => 0 } 14 2 with
        vector := 14 } }

/-- A page fault does not show `rdi`. -/
theorem sampleFault_read :
    reportText (sampleFault 1) = reportText (sampleFault 2) ∧
      (sampleFault 1).reported = (sampleFault 2).reported ∧
      (sampleFault 1).reported = [0xdead000, 2, 0x1234, 0x8000, 7] := by
  have same : reportText (sampleFault 1) = reportText (sampleFault 2) := by decide +kernel
  exact ⟨same, (exception_reports_readable.2 (sampleFault 1) (sampleFault 2) same).2,
    by decide +kernel⟩

/-! ### The handler -/

def IRQ_COUNT : Nat := 16

/-- `IRQ_HANDLES` -/
abbrev IrqHandles (Handler : Type) : Type := Fin IRQ_COUNT → Option Handler

/-- `register_irq_handler`; its assertion fails for other lines. -/
def registerIrqHandler {Handler : Type} (handles : IrqHandles Handler) (irq : BitVec 8)
    (handler : Handler) : Option (IrqHandles Handler) :=
  if inside : irq.toNat < IRQ_COUNT then
    some (Function.update handles ⟨irq.toNat, inside⟩ (some handler))
  else none

/-- What `common_handler` does, one effect after the other. -/
inductive Effect (Handler : Type) where
  | call (handler : Handler)
  | serial (text : String)
  | outb (port : Nat) (value : BitVec 8)
  | dispatch
  /-- `with_term`, which draws nothing if no terminal opens. -/
  | withTerm (calls : List TerminalCall)
  | haltForever

def PIC1_CMD : Nat := 0x20
def PIC1_DATA : Nat := 0x21
def PIC2_CMD : Nat := 0xa0
def PIC2_DATA : Nat := 0xa1
def PIC_EOI : BitVec 8 := 0x20

def sendEoi {Handler : Type} (irq : BitVec 8) : List (Effect Handler) :=
  (if 8 ≤ irq.toNat then [.outb PIC2_CMD PIC_EOI] else []) ++ [.outb PIC1_CMD PIC_EOI]

def callHandle {Handler : Type} : Option Handler → Effect Handler
  | some handler => .call handler
  | none => .serial "[IDT] NO HANDLER\n"

def commonHandler {Handler : Type} (handles : IrqHandles Handler) (fault : Fault) :
    List (Effect Handler) :=
  let vector := fault.frame.vector
  if 32 ≤ vector.toNat ∧ vector.toNat ≤ 47 then
    let irq := (vector - 32).setWidth 8
    let handle := if inside : irq.toNat < IRQ_COUNT then handles ⟨irq.toNat, inside⟩ else none
    callHandle handle :: sendEoi irq
  else if vector = 128 then [.dispatch]
  else [.withTerm (withTerm (exceptionReport fault)), .haltForever]

theorem commonHandler_line {Handler : Type} (handles : IrqHandles Handler) {fault : Fault}
    {line : Fin IRQ_COUNT} (vector : fault.frame.vector = BitVec.ofNat 64 (32 + line.val)) :
    commonHandler handles fault =
      callHandle (handles line) :: sendEoi (BitVec.ofNat 8 line.val) := by
  obtain ⟨line, small⟩ := line
  unfold IRQ_COUNT at small
  dsimp only at vector ⊢
  have word : fault.frame.vector.toNat = 32 + line := by
    rw [vector, BitVec.toNat_ofNat]
    omega
  have irq : (fault.frame.vector - 32).setWidth 8 = BitVec.ofNat 8 line := by
    rw [vector]
    bv_omega
  have number : (BitVec.ofNat 8 line).toNat = line := by
    rw [BitVec.toNat_ofNat]
    omega
  rw [commonHandler]
  dsimp only
  rw [if_pos (by omega), irq, dif_pos (by rw [number]; exact small)]
  simp only [number]

end CustomKernel.Interrupt
