/-
The keyboard.

The interrupt handler translates a scancode and pushes the character into a ring of
256 bytes, of which one is left unused to tell a full ring from an empty one.  The
other end is read with `pop`, by the shell directly and by the read system call.
-/

import CustomKernel.Foundation.ByteStore
import CustomKernel.Foundation.RingWindow
import CustomKernel.Foundation.Word64

set_option autoImplicit false

namespace CustomKernel.Device

abbrev Byte := BitVec 8

def SC_LSHIFT_DOWN : Byte := 0x2a#8

def SC_RSHIFT_DOWN : Byte := 0x36#8

def SC_LSHIFT_UP : Byte := 0xaa#8

def SC_RSHIFT_UP : Byte := 0xb6#8

/-- ASCII codes by scancode; zero where a key has no character. -/
def SCANCODE_TABLE : List Byte :=
  [0, 27, 49, 50, 51, 52, 53, 54, -- escape, digits
    55, 56, 57, 48, 45, 61, 8, 9,
    113, 119, 101, 114, 116, 121, 117, 105, -- q w e r t y u i
    111, 112, 91, 93, 10, 0, 97, 115,
    100, 102, 103, 104, 106, 107, 108, 59,
    39, 96, 0, 92, 122, 120, 99, 118,
    98, 110, 109, 44, 46, 47, 0, 42,
    0, 32, 0, 0, 0, 0, 0, 0,
    0, 0, 0, 0, 0, 0, 0, 55, -- function keys, keypad
    56, 57, 45, 52, 53, 54, 43, 49,
    50, 51, 48, 46]

def SCANCODE_TABLE_SHIFT : List Byte :=
  [0, 27, 33, 64, 35, 36, 37, 94,
    38, 42, 40, 41, 95, 43, 8, 9,
    81, 87, 69, 82, 84, 89, 85, 73,
    79, 80, 123, 125, 10, 0, 65, 83,
    68, 70, 71, 72, 74, 75, 76, 58,
    34, 126, 0, 124, 90, 88, 67, 86,
    66, 78, 77, 60, 62, 63, 0, 42,
    0, 32, 0, 0, 0, 0, 0, 0,
    0, 0, 0, 0, 0, 0, 0, 55,
    56, 57, 45, 52, 53, 54, 43, 49,
    50, 51, 48, 46]

/-! ### The ring -/

def BUF_SIZE : Nat := 256

/-- Both indices stay inside the array, so no access panics. -/
structure KeyBuffer where
  buf : Nat → Byte
  head : Nat
  tail : Nat
  headInside : head < BUF_SIZE
  tailInside : tail < BUF_SIZE

namespace KeyBuffer

theorem next_inside (index : Nat) : (index + 1) % BUF_SIZE < BUF_SIZE :=
  Nat.mod_lt _ (Nat.zero_lt_succ _)

def new : KeyBuffer :=
  { buf := fun _ => 0#8
    head := 0
    tail := 0
    headInside := Nat.zero_lt_succ _
    tailInside := Nat.zero_lt_succ _ }

def push (buffer : KeyBuffer) (byte : Byte) : KeyBuffer :=
  let next := (buffer.head + 1) % BUF_SIZE
  if next ≠ buffer.tail then
    { buffer with
      buf := Function.update buffer.buf buffer.head byte
      head := next
      headInside := next_inside buffer.head }
  else buffer

/-- The store to `tail` that ends a successful `pop`. -/
def advanceTail (buffer : KeyBuffer) : KeyBuffer :=
  { buffer with
    tail := (buffer.tail + 1) % BUF_SIZE
    tailInside := next_inside buffer.tail }

def pop (buffer : KeyBuffer) : Option Byte × KeyBuffer :=
  if buffer.head = buffer.tail then (none, buffer)
  else (some (buffer.buf buffer.tail), buffer.advanceTail)

def isEmpty (buffer : KeyBuffer) : Bool :=
  buffer.head = buffer.tail

end KeyBuffer

/-! ### The interrupt handler -/

structure Keyboard where
  buffer : KeyBuffer
  shift : Bool

def Keyboard.new : Keyboard :=
  { buffer := KeyBuffer.new
    shift := false }

/-- The scancode is the byte read from port 0x60. -/
def Keyboard.handleIrq (keyboard : Keyboard) (scancode : Byte) : Keyboard :=
  if scancode = SC_LSHIFT_DOWN ∨ scancode = SC_RSHIFT_DOWN then { keyboard with shift := true }
  else if scancode = SC_LSHIFT_UP ∨ scancode = SC_RSHIFT_UP then { keyboard with shift := false }
  else if scancode &&& 0x80#8 ≠ 0#8 then keyboard
  else
    let table := if keyboard.shift then SCANCODE_TABLE_SHIFT else SCANCODE_TABLE
    match table[scancode.toNat]? with
    | none => keyboard
    | some ascii =>
        if ascii ≠ 0#8 then { keyboard with buffer := keyboard.buffer.push ascii }
        else keyboard

theorem Keyboard.handleIrq_buffer (keyboard : Keyboard) (scancode : Byte) :
    (keyboard.handleIrq scancode).buffer = keyboard.buffer ∨
      ∃ byte, (keyboard.handleIrq scancode).buffer = keyboard.buffer.push byte := by
  unfold Keyboard.handleIrq
  dsimp only
  split
  · exact Or.inl rfl
  · split
    · exact Or.inl rfl
    · split
      · exact Or.inl rfl
      · split
        · exact Or.inl rfl
        · split
          · exact Or.inr ⟨_, rfl⟩
          · exact Or.inl rfl

/-! ### Reading -/

/-- The loop of `sys_read`, with the number of bytes still wanted. -/
def readLoop (memory : ByteStore.Store) (buffer : KeyBuffer) (buf : Nat) :
    Nat → Nat → Nat × ByteStore.Store × KeyBuffer
  | count, 0 => (count, memory, buffer)
  | count, wanted + 1 =>
      match buffer.pop with
      | (none, buffer) => (count, memory, buffer)
      | (some byte, buffer) =>
          readLoop (Function.update memory (Word64.add buf count) byte) buffer buf (count + 1)
            wanted

def ERROR_RESULT : Nat := Word64.modulus - 1

def sysRead (memory : ByteStore.Store) (buffer : KeyBuffer) (buf len : Nat) :
    Nat × ByteStore.Store × KeyBuffer :=
  if buf = 0 ∨ len = 0 then (ERROR_RESULT, memory, buffer)
  else readLoop memory buffer buf 0 len

/-! ### The bytes stored -/

namespace KeyBuffer

variable (buffer : KeyBuffer)

def contents : List Byte :=
  RingWindow.window buffer.buf BUF_SIZE buffer.tail
    (RingWindow.stored BUF_SIZE buffer.head buffer.tail)

def accepts : Bool := (buffer.head + 1) % BUF_SIZE ≠ buffer.tail

theorem contents_length :
    buffer.contents.length = RingWindow.stored BUF_SIZE buffer.head buffer.tail :=
  RingWindow.window_length ..

theorem contents_eq_nil : buffer.contents = [] ↔ buffer.head = buffer.tail := by
  rw [← List.length_eq_zero_iff, contents_length]
  exact RingWindow.stored_eq_zero buffer.headInside buffer.tailInside

/-- One byte of the 256 is sacrificed. -/
theorem accepts_eq_false : buffer.accepts = false ↔ buffer.contents.length = 255 := by
  have full := RingWindow.full_iff (show 1 < BUF_SIZE by decide) buffer.headInside
    buffer.tailInside
  rw [contents_length]
  unfold accepts
  rw [decide_eq_false_iff_not, not_not, full]
  unfold BUF_SIZE
  omega

theorem push_contents (byte : Byte) :
    (buffer.push byte).contents =
      if buffer.accepts then buffer.contents ++ [byte] else buffer.contents := by
  unfold push accepts
  by_cases room : (buffer.head + 1) % BUF_SIZE ≠ buffer.tail
  · have stored := RingWindow.stored_push (show 1 < BUF_SIZE by decide) buffer.headInside
      buffer.tailInside room
    have small : RingWindow.stored BUF_SIZE buffer.head buffer.tail < BUF_SIZE :=
      RingWindow.stored_lt (by decide)
    have place := RingWindow.head_eq buffer.headInside buffer.tailInside
    simp only [if_pos room, decide_eq_true room, if_true]
    unfold contents
    dsimp only
    rw [stored, RingWindow.window_succ _ buffer.tailInside, place, Function.update_self]
    congr 1
    have kept := RingWindow.window_update buffer.buf byte buffer.tailInside
      (Nat.le_refl (RingWindow.stored BUF_SIZE buffer.head buffer.tail)) small
    rwa [place] at kept
  · simp [room]

theorem push_of_full {byte : Byte} (full : buffer.accepts = false) :
    buffer.push byte = buffer := by
  unfold accepts at full
  exact if_neg (of_decide_eq_false full)

theorem contents_cons (filled : buffer.head ≠ buffer.tail) :
    buffer.contents = buffer.buf buffer.tail :: buffer.advanceTail.contents := by
  have stored := RingWindow.stored_pop (show 1 < BUF_SIZE by decide) buffer.headInside
    buffer.tailInside filled
  unfold contents advanceTail
  rw [← stored, RingWindow.window]

end KeyBuffer

end CustomKernel.Device
