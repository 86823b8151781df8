/-
System calls.

A program loads `rax`, `rdi`, `rsi` and `rdx` and executes `int 0x80`.  The stub saves its
registers on its own stack, `dispatch` reads the numbers from the saved ones, draws or reads
keys, and leaves the result in the saved `rax`.  The gate turns interrupts off, so no key
arrives during a call.
-/

import CustomKernel.Device.KeyQueue
import CustomKernel.Foundation.LabelledRun
import CustomKernel.Interrupt.Stubs
import CustomKernel.Ui.Rendering

set_option autoImplicit false

namespace CustomKernel.Interrupt

open ByteStore WordStack Ui

def SYS_WRITE : Word := 0

def SYS_READ : Word := 1

def SYS_REBOOT : Word := 2

def FAILED : Word := BitVec.ofNat 64 Device.ERROR_RESULT

/-- The font file and what the boot loader reports of the framebuffers. -/
structure Video where
  font : FontBytes
  framebuffers : Option (List Framebuffer)

/-- What system calls and the programs that make them change. -/
structure Machine where
  processor : Processor
  keys : Device.KeyBuffer
  pixels : Nat → Color

/-! ### The calls -/

/-- The byte at an offset of the buffer; the addition of pointers wraps. -/
def bufferByte (memory : Store) (buf : Word) (i : Nat) : Device.Byte :=
  memory (Word64.add buf.toNat i)

def bufferBytes (memory : Store) (buf : Word) (count : Nat) : List Device.Byte :=
  (List.range count).map (bufferByte memory buf)

def writeLoop (font : FontBytes) (memory : Store) (buf : Word) (term : Terminal) (len : Nat) :
    Except Terminal Terminal :=
  (List.range len).foldlM
    (fun term i => term.putc font (Terminal.charOf (bufferByte memory buf i))) term

/-- `none` is a panic of the terminal.  Without a framebuffer nothing is drawn. -/
def sysWrite (video : Video) (memory : Store) (pixels : Nat → Color) (buf len : Word) :
    Option (Word × (Nat → Color)) :=
  if buf = 0 ∨ len = 0 ∨ 4096 < len.toNat then some (FAILED, pixels)
  else
    match video.framebuffers.bind List.head? with
    | none => some (len, pixels)
    | some _ => do
        let term ← Terminal.new video.font video.framebuffers pixels
        let written ← (writeLoop video.font memory buf term len.toNat).toOption
        pure (len, written.pixels)

/-- The match of `dispatch` on the saved registers; `sys_reboot` does not return. -/
def Machine.serve (video : Video) (machine : Machine) (rax rsi rdx : Word) :
    Option (Word × Machine) :=
  if rax = SYS_WRITE then
    (sysWrite video machine.processor.memory machine.pixels rsi rdx).map fun (result, pixels) =>
      (result, { machine with pixels := pixels })
  else if rax = SYS_READ then
    let (result, memory, keys) :=
      Device.sysRead machine.processor.memory machine.keys rsi.toNat rdx.toNat
    some (BitVec.ofNat 64 result,
      { machine with
        processor := { machine.processor with memory := memory }
        keys := keys })
  else if rax = SYS_REBOOT then none
  else some (FAILED, machine)

def savedRax (pointer : Word) : Nat := (pointer + 112).toNat

def Machine.dispatch (video : Video) (machine : Machine) (pointer : Word) : Option Machine :=
  let frame := readFrame machine.processor.memory pointer
  (machine.serve video frame.rax frame.rsi frame.rdx).map fun (result, served) =>
    { served with
      processor := { served.processor with
        memory := save served.processor.memory (savedRax pointer) result } }

/-- What the compiled handler leaves in the stack below the frame. -/
structure Scratch where
  depth : Nat
  bytes : Store

def Scratch.spill (scratch : Scratch) (top : Nat) (memory : Store) : Store :=
  fun address =>
    if top - scratch.depth ≤ address ∧ address < top then scratch.bytes address
    else memory address

/-- The stack pointer from which the processor pushes; the privilege level and the stack stay
the same, and the gate names no other one. -/
def Processor.frameBase (processor : Processor) : Word := processor.rsp &&& ~~~15#64

def Processor.frameStart (processor : Processor) : Nat := processor.frameBase.toNat - 176

def Machine.systemCall (video : Video) (scratch : Scratch) (machine : Machine) : Option Machine :=
  let called := machine.processor.atHandlerCall machine.processor.frameBase 128 0
  (Machine.dispatch video { machine with processor := called } (called.registers .rdi)).map
    fun served =>
      let returned : Processor :=
        { called with memory := scratch.spill called.rsp.toNat served.processor.memory }
      { served with processor := returned.leaveHandler }

/-! ### What a program asks for -/

inductive Request where
  | write (text : List Device.Byte)
  | read (len : Nat)
  | reboot
  /-- An unknown number, or arguments that the call rejects. -/
  | refused

def Machine.request (machine : Machine) : Request :=
  let rax := machine.processor.registers .rax
  let rsi := machine.processor.registers .rsi
  let rdx := machine.processor.registers .rdx
  if rax = SYS_WRITE then
    if rsi = 0 ∨ rdx = 0 ∨ 4096 < rdx.toNat then .refused
    else .write (bufferBytes machine.processor.memory rsi rdx.toNat)
  else if rax = SYS_READ then
    if rsi = 0 ∨ rdx = 0 then .refused else .read rdx.toNat
  else if rax = SYS_REBOOT then .reboot
  else .refused

def Machine.taken (machine : Machine) : List Device.Byte :=
  match machine.request with
  | .read len => machine.keys.contents.take len
  | _ => []

def Machine.answer (machine : Machine) : Word :=
  match machine.request with
  | .write text => BitVec.ofNat 64 text.length
  | .read _ => BitVec.ofNat 64 machine.taken.length
  | _ => FAILED

/-- Outside the part of the stack that the call uses. -/
def Machine.Apart (machine : Machine) (depth address : Nat) : Prop :=
  address < machine.processor.frameStart - depth ∨ machine.processor.frameBase.toNat ≤ address

/-- The frame and the handler find room on the stack, and the buffer lies elsewhere. -/
structure Machine.Proper (machine : Machine) (depth : Nat) : Prop where
  room : 176 + depth ≤ machine.processor.frameBase.toNat
  buffer : machine.request ≠ .refused → machine.request ≠ .reboot →
    ∀ i, i < (machine.processor.registers .rdx).toNat →
      machine.Apart depth (Word64.add (machine.processor.registers .rsi).toNat i)

/-- A screen on which the terminal can draw any text. -/
structure Video.Ready (video : Video) (display : Display) : Prop where
  opens : ∃ pixels term, Terminal.new video.font video.framebuffers pixels = some term ∧
    term.toDisplay = display
  wide : display.glyphW ≤ display.width
  tall : display.glyphH ≤ display.height
  pitch : display.width ≤ display.pitch
  covered : display.Covered video.font

def Video.Displays (video : Video) (display : Display) (pixels : Nat → Color)
    (text : List Device.Byte) : Prop :=
  Terminal.Renders video.font display pixels
    ((blankGrid display).edits ((text.map Terminal.charOf).map charEdit)).cells

/-- What a program finds behind `int 0x80`. -/
structure Machine.Served (video : Video) (display : Display) (depth : Nat)
    (before after : Machine) : Prop where
  processor : after.processor =
    { before.processor with
      registers := Function.update before.processor.registers .rax before.answer
      memory := after.processor.memory }
  bytes : ∀ i (inside : i < before.taken.length),
    bufferByte after.processor.memory (before.processor.registers .rsi) i = before.taken[i]
  others : ∀ address, before.Apart depth address →
    (∀ i, i < before.taken.length →
      address ≠ Word64.add (before.processor.registers .rsi).toNat i) →
    after.processor.memory address = before.processor.memory address
  keys : after.keys.contents = before.keys.contents.drop before.taken.length
  screen : match before.request with
    | .write text => video.Displays display after.pixels text
    | _ => after.pixels = before.pixels

/-! ### Reading and writing -/

theorem readLoop_taken {memory now : Store} {keys : Device.KeyBuffer} {buf wanted : Nat}
    {written : List Device.Byte} (stored : Device.Console.Stored memory buf written now)
    (small : written.length + wanted ≤ Word64.modulus) :
    let taken := keys.contents.take wanted
    let result := Device.readLoop now keys buf written.length wanted
    result.1 = written.length + taken.length ∧
      Device.Console.Stored memory buf (written ++ taken) result.2.1 ∧
      result.2.2.contents = keys.contents.drop wanted := by
  induction wanted generalizing now keys written with
  | zero => simpa [Device.readLoop] using stored
  | succ wanted ih =>
      by_cases empty : keys.head = keys.tail
      · have none_ := keys.contents_eq_nil.mpr empty
        have popped : keys.pop = (none, keys) := if_pos empty
        simp only [Device.readLoop, popped, none_, List.take_nil, List.drop_nil, List.append_nil,
          List.length_nil, Nat.add_zero]
        exact ⟨trivial, stored, trivial⟩
      · have first := keys.contents_cons empty
        have popped : keys.pop = (some (keys.buf keys.tail), keys.advanceTail) := if_neg empty
        have more := stored.snoc (by omega) (keys.buf keys.tail)
        have length : (written ++ [keys.buf keys.tail]).length = written.length + 1 := by simp
        have rest := @ih _ keys.advanceTail _ more (by rw [length]; omega)
        simp only [Device.readLoop, popped, first, List.take_succ_cons, List.drop_succ_cons,
          List.length_cons]
        rw [length] at rest
        refine ⟨by omega, ?_, rest.2.2⟩
        rw [List.append_cons]
        exact rest.2.1

theorem new_of_any {font : FontBytes} {framebuffers : Option (List Framebuffer)}
    {pixels : Nat → Color} {term : Terminal}
    (opened : Terminal.new font framebuffers pixels = some term) (other : Nat → Color) :
    ∃ fresh, Terminal.new font framebuffers other = some fresh ∧
      fresh.toDisplay = term.toDisplay := by
  obtain ⟨fbs, found, opened⟩ := Option.bind_eq_some_iff.mp opened
  obtain ⟨fb, first, opened⟩ := Option.bind_eq_some_iff.mp opened
  obtain ⟨header, read, opened⟩ := Option.bind_eq_some_iff.mp opened
  split at opened
  · cases opened
  · rename_i extent
    cases opened
    refine ⟨_, Option.bind_eq_some_iff.mpr ⟨fbs, found, Option.bind_eq_some_iff.mpr ⟨fb, first,
      Option.bind_eq_some_iff.mpr ⟨header, read, if_neg extent⟩⟩⟩, ?_⟩
    rw [Terminal.clear_display, Terminal.clear_display]

theorem sysWrite_shows {video : Video} {display : Display} (ready : video.Ready display)
    (memory : Store) (pixels : Nat → Color) {buf len : Word}
    (accepted : ¬(buf = 0 ∨ len = 0 ∨ 4096 < len.toNat)) :
    ∃ drawn, sysWrite video memory pixels buf len = some (len, drawn) ∧
      video.Displays display drawn (bufferBytes memory buf len.toNat) := by
  obtain ⟨pixelsBefore, term, opened, rfl⟩ := ready.opens
  obtain ⟨fresh, opens, sameDisplay⟩ := new_of_any opened pixels
  have on := Terminal.new_on opens (by rw [sameDisplay]; exact ready.wide)
    (by rw [sameDisplay]; exact ready.tall) (by rw [sameDisplay]; exact ready.pitch)
  have shows := Terminal.new_shows opens (by rw [sameDisplay]; exact ready.wide)
    (by rw [sameDisplay]; exact ready.tall) (by rw [sameDisplay]; exact ready.pitch)
  rw [sameDisplay] at on shows
  obtain ⟨written, printed, _, shown⟩ := shows.print on ready.covered
    ((bufferBytes memory buf len.toNat).map Terminal.charOf)
  have drew : writeLoop video.font memory buf fresh len.toNat = .ok written := by
    rw [← printed, Terminal.print, bufferBytes, List.map_map, List.foldlM_map]
    rfl
  have head : ∃ framebuffer, video.framebuffers.bind List.head? = some framebuffer := by
    obtain ⟨fbs, found, rest⟩ := Option.bind_eq_some_iff.mp opens
    obtain ⟨framebuffer, first, _⟩ := Option.bind_eq_some_iff.mp rest
    exact ⟨framebuffer, Option.bind_eq_some_iff.mpr ⟨fbs, found, first⟩⟩
  obtain ⟨framebuffer, found⟩ := head
  refine ⟨written.pixels, ?_, shown.renders⟩
  rw [sysWrite, if_neg accepted, found]
  simp only [opens, bind, Option.bind, drew, Except.toOption]
  rfl

/-! ### The frame during a call -/

theorem bufferBytes_congr {left right : Store} {buf : Word} {count : Nat}
    (same : ∀ i, i < count → left (Word64.add buf.toNat i) = right (Word64.add buf.toNat i)) :
    bufferBytes left buf count = bufferBytes right buf count :=
  List.map_congr_left fun i member => same i (List.mem_range.mp member)

theorem readFrame_congr {left right : Store} {pointer : Word}
    (fits : pointer.toNat + 176 ≤ 2 ^ 64)
    (same : ∀ address, pointer.toNat ≤ address → address < pointer.toNat + 176 →
      left address = right address) : readFrame left pointer = readFrame right pointer := by
  have field (index : Nat) (inside : index < 22) :
      load left (pointer + BitVec.ofNat 64 (8 * index)).toNat =
        load right (pointer + BitVec.ofNat 64 (8 * index)).toNat := by
    have place : (pointer + BitVec.ofNat 64 (8 * index)).toNat = pointer.toNat + 8 * index := by
      bv_omega
    rw [place]
    exact load_congr fun address lower upper => same address (by omega) (by omega)
  apply InterruptFrame.ext <;> exact field _ (by decide)

theorem readFrame_saveRax (memory : Store) (pointer result : Word) :
    readFrame (save memory (savedRax pointer) result) pointer =
      { readFrame memory pointer with rax := result } := by
  have field (index : Nat) (inside : index < 22) (other : index ≠ 14) :
      load (save memory (savedRax pointer) result)
          (pointer + BitVec.ofNat 64 (8 * index)).toNat =
        load memory (pointer + BitVec.ofNat 64 (8 * index)).toNat := by
    apply load_save_apart
    unfold savedRax
    bv_omega
  have rax : load (save memory (savedRax pointer) result)
      (pointer + BitVec.ofNat 64 (8 * 14)).toNat = result := load_save ..
  apply InterruptFrame.ext
  case rax => exact rax
  all_goals exact field _ (by decide) (by decide)

namespace Machine

variable {machine : Machine} {depth : Nat}

theorem called_frame (room : 176 + depth ≤ machine.processor.frameBase.toNat) :
    let called := machine.processor.atHandlerCall machine.processor.frameBase 128 0
    called.rsp.toNat = machine.processor.frameStart ∧ called.registers .rdi = called.rsp ∧
      readFrame called.memory called.rsp = machine.processor.interruptFrame 128 0 ∧
      ∀ address, (address < machine.processor.frameStart ∨
          machine.processor.frameBase.toNat ≤ address) →
        called.memory address = machine.processor.memory address := by
  intro called
  have bottom : (machine.processor.frameBase - BitVec.ofNat 64 (8 * 22)).toNat =
      machine.processor.frameBase.toNat - 176 := by
    clear called
    bv_omega
  have length : (machine.processor.interruptFrame 128 0).words.reverse.length = 22 := rfl
  have calledEq : called = _ :=
    machine.processor.atHandlerCall_eq machine.processor.frameBase 128 0
  clear_value called
  have empty : Stacked machine.processor.memory machine.processor.frameBase [] := trivial
  obtain ⟨rspEq, stacked⟩ := stacked_pushAll
    (machine.processor.interruptFrame 128 0).words.reverse empty (by rw [length]; decide)
  rw [List.reverse_reverse, List.append_nil] at stacked
  have memory := congrArg Processor.memory calledEq
  have top := congrArg Processor.rsp calledEq
  have pointer := congrFun (congrArg Processor.registers calledEq) .rdi
  dsimp only at memory top pointer
  rw [Function.update_self, ← top] at pointer
  rw [← memory, ← top] at stacked
  rw [length, ← top] at rspEq
  refine ⟨?_, pointer, stacked_iff_readFrame.mp stacked, ?_⟩
  · rw [rspEq, bottom]
    rfl
  · intro address outside
    have kept := @pushAll_outside machine.processor.memory
      (machine.processor.interruptFrame 128 0).words.reverse machine.processor.frameBase address
      (by rw [length]; omega)
      (by rw [length]; exact outside)
    exact (congrFun memory address).trans kept

theorem refused_answers (refused : machine.request = .refused) :
    machine.answer = FAILED ∧ machine.taken = [] := by
  rw [answer, taken, refused]
  exact ⟨rfl, rfl⟩

structure Serves (video : Video) (display : Display) (machine : Machine) (processor : Processor)
    (served : Machine) : Prop where
  onlyMemory : served.processor = { processor with memory := served.processor.memory }
  stored : Device.Console.Stored processor.memory (machine.processor.registers .rsi).toNat
    machine.taken served.processor.memory
  keys : served.keys.contents = machine.keys.contents.drop machine.taken.length
  screen : match machine.request with
    | .write text => video.Displays display served.pixels text
    | _ => served.pixels = machine.pixels

def inHandler (machine : Machine) (processor : Processor) : Machine :=
  { machine with processor := processor }

theorem serves_refused {video : Video} {display : Display} (processor : Processor)
    (refused : machine.request = .refused) :
    Serves video display machine processor (machine.inHandler processor) where
  onlyMemory := rfl
  stored := by
    rw [(refused_answers refused).2]
    exact Device.Console.Stored.nil _ _
  keys := by
    rw [(refused_answers refused).2]
    rfl
  screen := by
    rw [refused]
    rfl

theorem serve_write {video : Video} {display : Display} (ready : video.Ready display)
    (proper : machine.Proper depth) {processor : Processor}
    (same : ∀ address, machine.Apart depth address →
      processor.memory address = machine.processor.memory address)
    (number : machine.processor.registers .rax = SYS_WRITE) :
    ∃ served, (machine.inHandler processor).serve video SYS_WRITE
        (machine.processor.registers .rsi) (machine.processor.registers .rdx) =
          some (machine.answer, served) ∧ Serves video display machine processor served := by
  by_cases rejected : machine.processor.registers .rsi = 0 ∨
      machine.processor.registers .rdx = 0 ∨ 4096 < (machine.processor.registers .rdx).toNat
  · have refused : machine.request = .refused := (if_pos number).trans (if_pos rejected)
    refine ⟨machine.inHandler processor, ?_, serves_refused processor refused⟩
    rw [serve, if_pos rfl, sysWrite, if_pos rejected, (refused_answers refused).1]
    rfl
  · have request : machine.request = .write (bufferBytes machine.processor.memory
        (machine.processor.registers .rsi) (machine.processor.registers .rdx).toNat) :=
      (if_pos number).trans (if_neg rejected)
    have buffer := proper.buffer (by rw [request]; exact Request.noConfusion)
      (by rw [request]; exact Request.noConfusion)
    have text := bufferBytes_congr fun i inside => same _ (buffer i inside)
    obtain ⟨drawn, wrote, shown⟩ := sysWrite_shows ready processor.memory machine.pixels rejected
    have answer : machine.answer = machine.processor.registers .rdx := by
      rw [Machine.answer, request]
      simp [bufferBytes]
    have taken : machine.taken = [] := by rw [Machine.taken, request]
    refine ⟨{ machine.inHandler processor with pixels := drawn }, ?_, ?_⟩
    · rw [serve, if_pos rfl, answer]
      exact congrArg (Option.map _) wrote
    · constructor
      case onlyMemory => rfl
      case stored =>
        rw [taken]
        exact Device.Console.Stored.nil _ _
      case keys =>
        rw [taken]
        rfl
      case screen =>
        rw [request, ← text]
        exact shown

theorem toNat_eq_zero (word : Word) : word.toNat = 0 ↔ word = 0 := by
  bv_omega

theorem serve_read {video : Video} {display : Display} {processor : Processor}
    (number : machine.processor.registers .rax = SYS_READ) :
    ∃ served, (machine.inHandler processor).serve video SYS_READ
        (machine.processor.registers .rsi) (machine.processor.registers .rdx) =
          some (machine.answer, served) ∧ Serves video display machine processor served := by
  have other : SYS_READ ≠ SYS_WRITE := by decide
  have notWrite : machine.processor.registers .rax ≠ SYS_WRITE := by
    rw [number]
    exact other
  have zeros := toNat_eq_zero (machine.processor.registers .rsi)
  have nones := toNat_eq_zero (machine.processor.registers .rdx)
  by_cases rejected : machine.processor.registers .rsi = 0 ∨ machine.processor.registers .rdx = 0
  · have refused : machine.request = .refused :=
      (if_neg notWrite).trans ((if_pos number).trans (if_pos rejected))
    refine ⟨machine.inHandler processor, ?_, serves_refused processor refused⟩
    rw [serve, if_neg other, if_pos rfl, Device.sysRead,
      if_pos (by rw [zeros, nones]; exact rejected), (refused_answers refused).1]
    rfl
  · have request : machine.request = .read (machine.processor.registers .rdx).toNat :=
      (if_neg notWrite).trans ((if_pos number).trans (if_neg rejected))
    have taken : machine.taken =
        machine.keys.contents.take (machine.processor.registers .rdx).toNat := by
      rw [Machine.taken, request]
    have small := (machine.processor.registers .rdx).isLt
    have nothing := Device.Console.Stored.nil processor.memory
      (machine.processor.registers .rsi).toNat
    obtain ⟨count, stored, left⟩ := @readLoop_taken _ _ machine.keys _
      (machine.processor.registers .rdx).toNat _ nothing
      (by rw [List.length_nil, Nat.zero_add]; exact Nat.le_of_lt small)
    generalize result : Device.readLoop _ _ _ _ _ = answered at count stored left
    obtain ⟨total, memory, keys⟩ := answered
    rw [List.length_nil, Nat.zero_add, ← taken] at count
    rw [List.nil_append, ← taken] at stored
    dsimp only at count stored left
    have read : Device.sysRead processor.memory machine.keys
        (machine.processor.registers .rsi).toNat (machine.processor.registers .rdx).toNat =
          (total, memory, keys) := by
      rw [Device.sysRead, if_neg (by rw [zeros, nones]; exact rejected)]
      exact result
    have answer : machine.answer = BitVec.ofNat 64 total := by
      rw [Machine.answer, request, count]
    refine ⟨{ processor := { processor with memory := memory }, keys := keys,
              pixels := machine.pixels }, ?_, ?_⟩
    · rw [serve, if_neg other, if_pos rfl, answer]
      dsimp only [inHandler]
      rw [read]
    · constructor
      case onlyMemory => rfl
      case stored => exact stored
      case keys =>
        rw [left, taken, List.length_take]
        rcases Nat.le_total (machine.processor.registers .rdx).toNat
          machine.keys.contents.length with short | long
        · rw [Nat.min_eq_left short]
        · rw [Nat.min_eq_right long, List.drop_length, List.drop_of_length_le long]
      case screen =>
        rw [request]

theorem serve_request {video : Video} {display : Display} (ready : video.Ready display)
    (proper : machine.Proper depth) (returns : machine.request ≠ .reboot)
    {processor : Processor} (same : ∀ address, machine.Apart depth address →
      processor.memory address = machine.processor.memory address) :
    ∃ served, (machine.inHandler processor).serve video (machine.processor.registers .rax)
        (machine.processor.registers .rsi) (machine.processor.registers .rdx) =
          some (machine.answer, served) ∧ Serves video display machine processor served := by
  by_cases write : machine.processor.registers .rax = SYS_WRITE
  · have served := serve_write ready proper same write
    rwa [← write] at served
  · by_cases read : machine.processor.registers .rax = SYS_READ
    · have served := @serve_read machine video display processor read
      rwa [← read] at served
    · have last : machine.request =
          if machine.processor.registers .rax = SYS_REBOOT then .reboot else .refused :=
        (if_neg write).trans (if_neg read)
      by_cases reboot : machine.processor.registers .rax = SYS_REBOOT
      · exact absurd (last.trans (if_pos reboot)) returns
      · have refused := last.trans (if_neg reboot)
        refine ⟨machine.inHandler processor, ?_, serves_refused processor refused⟩
        rw [serve, if_neg write, if_neg read, if_neg reboot, (refused_answers refused).1]

theorem taken_inside (proper : machine.Proper depth) {i : Nat} (inside : i < machine.taken.length) :
    machine.Apart depth (Word64.add (machine.processor.registers .rsi).toNat i) := by
  have asked : machine.request ≠ .refused ∧ machine.request ≠ .reboot ∧
      i < (machine.processor.registers .rdx).toNat := by
    unfold taken at inside
    split at inside
    · rename_i len request
      rw [request]
      refine ⟨Request.noConfusion, Request.noConfusion, ?_⟩
      unfold Machine.request at request
      dsimp only at request
      split at request
      · split at request <;> cases request
      · split at request
        · split at request
          · cases request
          · cases request
            rw [List.length_take] at inside
            omega
        · split at request <;> cases request
    · cases inside
  exact proper.buffer asked.1 asked.2.1 i asked.2.2

theorem returned_memory {scratch : Scratch} {pointer result : Word} {memory : Store}
    {address : Nat} (room : 176 + scratch.depth ≤ machine.processor.frameBase.toNat)
    (place : pointer.toNat = machine.processor.frameStart)
    (apart : machine.Apart scratch.depth address) :
    scratch.spill pointer.toNat (save memory (savedRax pointer) result) address =
      memory address := by
  have base := machine.processor.frameBase.isLt
  have saved : savedRax pointer = pointer.toNat + 112 := by
    unfold savedRax
    unfold Processor.frameStart at place
    bv_omega
  unfold Apart Processor.frameStart at apart
  unfold Processor.frameStart at place
  have notSpilled : ¬(pointer.toNat - scratch.depth ≤ address ∧ address < pointer.toNat) := by
    omega
  rw [Scratch.spill, if_neg notSpilled, saved, save_outside _ _ (by omega)]

/-- The frame that the stub takes off the stack is the one it has pushed, with the answer. -/
theorem returned_frame {scratch : Scratch} {served : Machine} {called : Processor}
    {video : Video} {display : Display} {pointer : Word} {frame : InterruptFrame}
    (proper : machine.Proper scratch.depth)
    (place : pointer.toNat = machine.processor.frameStart)
    (pushed : readFrame called.memory pointer = frame)
    (serves : Serves video display machine called served) (result : Word) :
    readFrame (scratch.spill pointer.toNat
      (save served.processor.memory (savedRax pointer) result)) pointer =
        { frame with rax := result } := by
  have room := proper.room
  have base := machine.processor.frameBase.isLt
  have top : pointer.toNat + 176 = machine.processor.frameBase.toNat := by
    unfold Processor.frameStart at place
    omega
  have unspilled : readFrame (scratch.spill pointer.toNat
      (save served.processor.memory (savedRax pointer) result)) pointer =
        readFrame (save served.processor.memory (savedRax pointer) result) pointer := by
    apply readFrame_congr (by omega)
    intro address lower _
    exact if_neg fun below => Nat.not_lt_of_le lower below.2
  have kept : readFrame served.processor.memory pointer = readFrame called.memory pointer := by
    apply readFrame_congr (by omega)
    intro address lower upper
    apply serves.stored.others
    intro i inside same
    have apart := taken_inside proper inside
    rw [← same] at apart
    unfold Apart at apart
    omega
  rw [unspilled, readFrame_saveRax, kept, pushed]

theorem leaveHandler_answer {processor returned : Processor} {result : Word}
    (frame : readFrame returned.memory returned.rsp =
      { processor.interruptFrame 128 0 with rax := result }) :
    returned.leaveHandler =
      { processor with
        registers := Function.update processor.registers .rax result
        memory := returned.memory } := by
  rw [Processor.leaveHandler_eq (stacked_iff_readFrame.mpr frame)]
  apply Processor.ext
  case registers =>
    funext register
    cases register <;> rfl
  case rsp => rfl
  case rip => rfl
  case cs => rfl
  case rflags => rfl
  case ss => rfl
  case memory => rfl

theorem served_of_restored {video : Video} {display : Display} {called final : Processor}
    {served : Machine} {memory : Store} (proper : machine.Proper depth)
    (serves : Serves video display machine called served)
    (same : ∀ address, machine.Apart depth address →
      called.memory address = machine.processor.memory address)
    (kept : ∀ address, machine.Apart depth address →
      memory address = served.processor.memory address)
    (restored : final =
      { machine.processor with
        registers := Function.update machine.processor.registers .rax machine.answer
        memory := memory }) :
    machine.Served video display depth { served with processor := final } := by
  subst final
  constructor
  case processor => rfl
  case bytes =>
    intro i inside
    exact (kept _ (taken_inside proper inside)).trans (serves.stored.values i inside)
  case others =>
    intro address apart elsewhere
    exact (kept address apart).trans
      ((serves.stored.others address elsewhere).trans (same address apart))
  case keys => exact serves.keys
  case screen => exact serves.screen

/-- A system call is served like one operation of the machine the program sees. -/
theorem systemCall_served {video : Video} {display : Display} (ready : video.Ready display)
    {scratch : Scratch} (proper : machine.Proper scratch.depth)
    (returns : machine.request ≠ .reboot) :
    ∃ after, machine.systemCall video scratch = some after ∧
      machine.Served video display scratch.depth after := by
  obtain ⟨place, pointer, frame, kept⟩ := called_frame proper.room
  rw [systemCall]
  generalize machine.processor.atHandlerCall machine.processor.frameBase 128 0 = called at *
  have same (address : Nat) (apart : machine.Apart scratch.depth address) :
      called.memory address = machine.processor.memory address := by
    apply kept
    unfold Apart at apart
    omega
  obtain ⟨served, result, serves⟩ := serve_request ready proper returns same
  have dispatched : Machine.dispatch video (machine.inHandler called) called.rsp =
      some { served with
        processor := { served.processor with
          memory := save served.processor.memory (savedRax called.rsp) machine.answer } } := by
    have called' : readFrame (machine.inHandler called).processor.memory called.rsp =
        machine.processor.interruptFrame 128 0 := frame
    rw [Machine.dispatch, called']
    exact congrArg (Option.map _) result
  have leaves := returned_frame proper place frame serves machine.answer
  have memory (address : Nat) (apart : machine.Apart scratch.depth address) :=
    @returned_memory machine scratch called.rsp machine.answer served.processor.memory address
      proper.room place apart
  have restored := @leaveHandler_answer machine.processor
    { called with
      memory := scratch.spill called.rsp.toNat
        (save served.processor.memory (savedRax called.rsp) machine.answer) } _ leaves
  have answered := served_of_restored proper serves same memory restored
  rw [pointer]
  exact ⟨_, congrArg (Option.map _) dispatched, answered⟩

theorem systemCall_reboot {video : Video} {scratch : Scratch}
    (room : 176 + scratch.depth ≤ machine.processor.frameBase.toNat)
    (reboot : machine.request = .reboot) : machine.systemCall video scratch = none := by
  obtain ⟨_, pointer, frame, _⟩ := called_frame room
  have number : machine.processor.registers .rax ≠ SYS_WRITE ∧
      machine.processor.registers .rax ≠ SYS_READ ∧
      machine.processor.registers .rax = SYS_REBOOT := by
    unfold request at reboot
    dsimp only at reboot
    split at reboot
    · split at reboot <;> cases reboot
    · split at reboot
      · split at reboot <;> cases reboot
      · split at reboot
        · exact ⟨by assumption, by assumption, by assumption⟩
        · cases reboot
  rw [systemCall]
  generalize machine.processor.atHandlerCall machine.processor.frameBase 128 0 = called at *
  have called' : readFrame (machine.inHandler called).processor.memory called.rsp =
      machine.processor.interruptFrame 128 0 := frame
  have stops : Machine.dispatch video (machine.inHandler called) called.rsp = none := by
    rw [Machine.dispatch, called', serve]
    exact congrArg (Option.map _)
      ((if_neg number.1).trans ((if_neg number.2.1).trans (if_pos number.2.2)))
  rw [pointer]
  exact congrArg (Option.map _) stops

end Machine

/-! ### Programs -/

/-- A program at work, with the keys that the ring has accepted, those that its reads have
returned, and the text of its last write. -/
structure Work where
  machine : Machine
  accepted : List Device.Byte
  received : List Device.Byte
  written : Option (List Device.Byte)

inductive WorkEvent where
  /-- An interrupt of the keyboard pushes a character. -/
  | key (byte : Device.Byte)
  /-- The program comes to another state by its own instructions. -/
  | compute (processor : Processor)
  | call (scratch : Scratch)

namespace Work

def start (machine : Machine) : Work :=
  { machine := machine
    accepted := machine.keys.contents
    received := []
    written := none }

/-- What the program finds in its buffer and its registers counts as received. -/
def called (work : Work) (after : Machine) : Work :=
  match work.machine.request with
  | .write text => { work with machine := after, written := some text }
  | .read _ =>
      { work with
        machine := after
        received := work.received ++ bufferBytes after.processor.memory
          (work.machine.processor.registers .rsi) (after.processor.registers .rax).toNat }
  | _ => { work with machine := after }

def step (video : Video) (work : Work) : WorkEvent → Option Work
  | .key byte =>
      some { work with
        machine := { work.machine with keys := work.machine.keys.push byte }
        accepted := if work.machine.keys.accepts then work.accepted ++ [byte] else work.accepted }
  | .compute processor => some { work with machine := { work.machine with processor := processor } }
  | .call scratch => (work.machine.systemCall video scratch).map work.called

def Proper (work : Work) : WorkEvent → Prop
  | .call scratch => work.machine.Proper scratch.depth
  | _ => True

theorem called_write {work : Work} {text : List Device.Byte} (after : Machine)
    (request : work.machine.request = .write text) :
    work.called after = { work with machine := after, written := some text } := by
  rw [called, request]

theorem called_read {work : Work} {len : Nat} (after : Machine)
    (request : work.machine.request = .read len) :
    work.called after =
      { work with
        machine := after
        received := work.received ++ bufferBytes after.processor.memory
          (work.machine.processor.registers .rsi) (after.processor.registers .rax).toNat } := by
  rw [called, request]

theorem step_call {video : Video} {work : Work} {scratch : Scratch} {after : Machine}
    (called : work.machine.systemCall video scratch = some after) :
    work.step video (.call scratch) = some (work.called after) := by
  rw [step, called]
  rfl

/-- No key is lost or doubled, and the screen shows the last text and nothing else. -/
structure Invariant (video : Video) (display : Display) (boot : Nat → Color) (work : Work) :
    Prop where
  queue : work.received ++ work.machine.keys.contents = work.accepted
  screen : match work.written with
    | none => work.machine.pixels = boot
    | some text => video.Displays display work.machine.pixels text

variable {video : Video} {display : Display} {boot : Nat → Color} {work next : Work}

theorem received_taken {machine after : Machine} {depth : Nat}
    (served : machine.Served video display depth after) :
    bufferBytes after.processor.memory (machine.processor.registers .rsi) machine.taken.length =
      machine.taken := by
  apply List.ext_getElem
  · simp [bufferBytes]
  · intro i _ inside
    simp only [bufferBytes, List.getElem_map, List.getElem_range]
    exact served.bytes i inside

theorem taken_short (machine : Machine) : machine.taken.length < 2 ^ 64 := by
  have ring : machine.keys.contents.length < 256 := by
    rw [Device.KeyBuffer.contents_length]
    exact RingWindow.stored_lt (by decide)
  unfold Machine.taken
  split
  · rw [List.length_take]
    omega
  · simp

theorem Invariant.call {scratch : Scratch} (ready : video.Ready display)
    (invariant : work.Invariant video display boot) (proper : work.machine.Proper scratch.depth)
    (stepped : work.step video (.call scratch) = some next) :
    next.Invariant video display boot := by
  have mapped : (work.machine.systemCall video scratch).map work.called = some next := stepped
  obtain ⟨after, called, rfl⟩ := Option.map_eq_some_iff.mp mapped
  have returns : work.machine.request ≠ .reboot := by
    intro reboot
    rw [Machine.systemCall_reboot proper.room reboot] at called
    cases called
  obtain ⟨served, answered, holds⟩ := Machine.systemCall_served ready proper returns
  cases answered.symm.trans called
  have queue := invariant.queue
  have keys := holds.keys
  have screen := holds.screen
  have text := invariant.screen
  cases request : work.machine.request with
  | write text =>
      rw [called_write after request]
      rw [request] at screen
      have taken : work.machine.taken = [] := by rw [Machine.taken, request]
      rw [taken] at keys
      constructor
      case queue =>
        dsimp only
        rw [keys]
        exact queue
      case screen => exact screen
  | read len =>
      rw [called_read after request]
      rw [request] at screen
      have rax : after.processor.registers .rax = work.machine.answer :=
        (congrFun (congrArg Processor.registers holds.processor) .rax).trans
          (Function.update_self .rax work.machine.answer work.machine.processor.registers)
      rw [Machine.answer, request] at rax
      have small := taken_short work.machine
      have count : (after.processor.registers .rax).toNat = work.machine.taken.length := by
        rw [rax]
        exact (BitVec.toNat_ofNat _ _).trans (Nat.mod_eq_of_lt small)
      have prefix_ : work.machine.taken ++
          work.machine.keys.contents.drop work.machine.taken.length =
            work.machine.keys.contents := by
        have taken : work.machine.taken = work.machine.keys.contents.take len := by
          rw [Machine.taken, request]
        rw [taken, List.length_take]
        rcases Nat.le_total len work.machine.keys.contents.length with short | long
        · rw [Nat.min_eq_left short, List.take_append_drop]
        · rw [Nat.min_eq_right long, List.take_of_length_le long, List.drop_length,
            List.append_nil]
      constructor
      case queue =>
        dsimp only
        rw [count, received_taken holds, keys, List.append_assoc, prefix_]
        exact queue
      case screen =>
        dsimp only
        rw [screen]
        exact text
  | reboot => exact absurd request returns
  | refused =>
      rw [Work.called, request]
      rw [request] at screen
      have taken : work.machine.taken = [] := by rw [Machine.taken, request]
      rw [taken] at keys
      constructor
      case queue =>
        dsimp only
        rw [keys]
        exact queue
      case screen =>
        dsimp only
        rw [screen]
        exact text

theorem Invariant.step {event : WorkEvent} (ready : video.Ready display)
    (invariant : work.Invariant video display boot) (proper : work.Proper event)
    (stepped : work.step video event = some next) : next.Invariant video display boot := by
  cases event with
  | key byte =>
      cases stepped
      constructor
      case queue =>
        dsimp only
        rw [Device.KeyBuffer.push_contents]
        split
        · rw [← List.append_assoc, invariant.queue]
        · exact invariant.queue
      case screen => exact invariant.screen
  | compute processor =>
      cases stepped
      exact ⟨invariant.queue, invariant.screen⟩
  | call scratch => exact invariant.call ready proper stepped

end Work

/-- However a program mixes its own work, key presses and system calls whose buffers lie off the
stack that they use: its reads return the accepted keys in order, each once; the screen shows the
text of its last write alone; and every further call but a reboot comes back with nothing changed
except `rax`, the bytes read and the stack below the program's own. -/
theorem system_calls_serve_programs {video : Video} {display : Display}
    (ready : video.Ready display) {machine : Machine} {events : List WorkEvent} {now : Work}
    (proper : LabelledRun.Guarded (Work.step video) Work.Proper (Work.start machine) events)
    (reached : LabelledRun.exec (Work.step video) (Work.start machine) events = some now) :
    now.received ++ now.machine.keys.contents = now.accepted ∧
    (match now.written with
      | none => now.machine.pixels = machine.pixels
      | some text => video.Displays display now.machine.pixels text) ∧
    ∀ scratch : Scratch, now.machine.Proper scratch.depth → now.machine.request ≠ .reboot →
      ∃ after, now.machine.systemCall video scratch = some after ∧
        now.machine.Served video display scratch.depth after := by
  have initial : (Work.start machine).Invariant video display machine.pixels :=
    ⟨List.nil_append _, rfl⟩
  have invariant := LabelledRun.exec_invariant_of_guarded
    (fun _ _ _ holds allowed stepped => Work.Invariant.step ready holds allowed stepped) initial
    proper reached
  exact ⟨invariant.queue, invariant.screen,
    fun _ allowed returns => Machine.systemCall_served ready allowed returns⟩

/-- A program that reads up to four keys into 0x5000. -/
def readingProgram : Processor :=
  { registers := fun register =>
      if register = .rax then 1 else if register = .rdx then 4 else 0x5000
    rsp := 0x9008
    rip := 0x1234
    cs := 0x28
    rflags := 0x202
    ss := 0x30
    memory := fun _ => 0 }

def writingProgram : Processor :=
  { readingProgram with
    registers := fun register =>
      if register = .rax then 0 else if register = .rdx then 1 else 0x5000
    memory := fun _ => 0x61 }

def sampleScratch : Scratch :=
  { depth := 64
    bytes := fun _ => 0xff }

theorem sample_ready : Video.Ready ⟨Terminal.sampleFont, Terminal.sampleFramebuffers⟩
    Terminal.sampleDisplay where
  opens := by
    obtain ⟨term, opened, display⟩ := Terminal.sample_opens
    exact ⟨_, term, opened, display⟩
  wide := by decide
  tall := by decide
  pitch := by decide
  covered := Terminal.sample_covered

theorem sample_proper {processor : Processor} (keys : Device.KeyBuffer) (pixels : Nat → Color)
    (base : processor.frameBase = 0x9000) (buf : processor.registers .rsi = 0x5000)
    (len : (processor.registers .rdx).toNat ≤ 4) :
    (Machine.mk processor keys pixels).Proper 64 where
  room := by
    dsimp only
    rw [base]
    decide
  buffer _ _ i inside := by
    have near : i < 4 := Nat.lt_of_lt_of_le inside len
    have unwrapped : Word64.add 0x5000 i = 0x5000 + i := by
      apply Nat.mod_eq_of_lt
      unfold Word64.modulus
      omega
    have below : Word64.add 0x5000 i < 0x9000 - 176 - 64 := by
      omega
    left
    dsimp only [Processor.frameStart]
    rw [buf, base]
    exact below

def sampleVideo : Video := ⟨Terminal.sampleFont, Terminal.sampleFramebuffers⟩

def sampleCalls : List WorkEvent :=
  [.key 0x62, .call sampleScratch, .compute writingProgram, .call sampleScratch]

/-- A key that is pressed before the read is read, and another text is written. -/
theorem readingProgram_served :
    ∃ now, LabelledRun.exec (Work.step sampleVideo)
        (Work.start ⟨readingProgram, Device.KeyBuffer.new, fun _ => 0⟩)
        sampleCalls = some now ∧
      now.received ++ now.machine.keys.contents = [0x62] ∧
      sampleVideo.Displays Terminal.sampleDisplay now.machine.pixels [0x61] := by
  have readingProper := @sample_proper readingProgram (Device.KeyBuffer.new.push 0x62)
    (fun _ => 0) rfl rfl (by decide)
  have reads : (Machine.mk readingProgram (Device.KeyBuffer.new.push 0x62)
      (fun _ => 0)).request = .read 4 := rfl
  obtain ⟨read, called, _⟩ := @Machine.systemCall_served _ sampleVideo _ sample_ready sampleScratch
    readingProper (by rw [reads]; exact Request.noConfusion)
  have writingProper := @sample_proper writingProgram read.keys read.pixels rfl rfl (by decide)
  have writes : (Machine.mk writingProgram read.keys read.pixels).request = .write [0x61] := rfl
  obtain ⟨wrote, calledAgain, _⟩ := @Machine.systemCall_served _ sampleVideo _ sample_ready
    sampleScratch writingProper (by rw [writes]; exact Request.noConfusion)
  have first : (Work.start ⟨readingProgram, Device.KeyBuffer.new, fun _ => 0⟩).step sampleVideo
      (.key 0x62) = some ⟨⟨readingProgram, Device.KeyBuffer.new.push 0x62, fun _ => 0⟩, [0x62], [],
        none⟩ := rfl
  have second := @Work.step_call sampleVideo ⟨_, [0x62], [], none⟩ _ _ called
  rw [Work.called_read read reads] at second
  have fourth := @Work.step_call sampleVideo ⟨⟨writingProgram, read.keys, read.pixels⟩, [0x62],
    [] ++ bufferBytes read.processor.memory (readingProgram.registers .rsi)
      (read.processor.registers .rax).toNat, none⟩ _ _ calledAgain
  rw [Work.called_write wrote writes] at fourth
  have proper : LabelledRun.Guarded (Work.step sampleVideo) Work.Proper
      (Work.start ⟨readingProgram, Device.KeyBuffer.new, fun _ => 0⟩) sampleCalls :=
    LabelledRun.Guarded.cons first trivial (LabelledRun.Guarded.cons second readingProper
      (LabelledRun.Guarded.cons rfl trivial (LabelledRun.Guarded.cons fourth writingProper
        trivial)))
  have reached : LabelledRun.exec (Work.step sampleVideo)
      (Work.start ⟨readingProgram, Device.KeyBuffer.new, fun _ => 0⟩) sampleCalls = some _ :=
    LabelledRun.exec_cons_eq_some.mpr ⟨_, first, LabelledRun.exec_cons_eq_some.mpr ⟨_, second,
      LabelledRun.exec_cons_eq_some.mpr ⟨_, rfl,
        LabelledRun.exec_cons_eq_some.mpr ⟨_, fourth, LabelledRun.exec_nil ..⟩⟩⟩⟩
  have serves := system_calls_serve_programs sample_ready proper reached
  exact ⟨_, reached, serves.1, serves.2.1⟩

end CustomKernel.Interrupt
