/-
Two shift keys and one flag.

The driver keeps a single flag that the press of either shift key sets and the release of
either one clears.  After the release of one key while the other is still held the flag
says "not shifted", so a key whose two characters differ is then translated wrongly.
-/

import CustomKernel.Device.Keyboard
import CustomKernel.Foundation.LabelledRun
import Mathlib.Tactic.ByContra
import Mathlib.Tactic.Tauto

set_option autoImplicit false

namespace CustomKernel.Device

/-! ### The translation -/

/-- The character of a make code; break codes and codes beyond the tables have none. -/
def character (held : Bool) (scancode : Byte) : Option Byte :=
  ((if held then SCANCODE_TABLE_SHIFT else SCANCODE_TABLE)[scancode.toNat]?).filter (· ≠ 0#8)

theorem tables_zero :
    SCANCODE_TABLE.map (fun entry => decide (entry = 0#8)) =
      SCANCODE_TABLE_SHIFT.map (fun entry => decide (entry = 0#8)) := rfl

theorem filter_isSome (entries : List Byte) (index : Nat) :
    ((entries[index]?).filter (· ≠ 0#8)).isSome =
      ((entries.map (fun entry => decide (entry = 0#8)))[index]? == some false) := by
  rw [List.getElem?_map]
  cases entries[index]? with
  | none => rfl
  | some entry =>
      by_cases zero : entry = 0#8
      · simp [zero]
      · simp [Option.filter, zero]

theorem character_isSome (held : Bool) (scancode : Byte) :
    (character held scancode).isSome = (character false scancode).isSome := by
  unfold character
  rw [filter_isSome, filter_isSome]
  cases held with
  | false => rfl
  | true => exact congrArg (fun entries => entries[scancode.toNat]? == some false) tables_zero.symm

theorem character_length (held other : Bool) (scancode : Byte) :
    (character held scancode).toList.length = (character other scancode).toList.length := by
  rw [Option.length_toList, Option.length_toList, character_isSome held, character_isSome other]

theorem character_shift {scancode : Byte} (held : Bool)
    (key : scancode = SC_LSHIFT_DOWN ∨ scancode = SC_RSHIFT_DOWN ∨
      scancode = SC_LSHIFT_UP ∨ scancode = SC_RSHIFT_UP) :
    character held scancode = none := by
  rcases key with same | same | same | same <;> subst same <;> cases held <;> rfl

theorem character_break {scancode : Byte} (held : Bool) (released : scancode &&& 0x80#8 ≠ 0#8) :
    character held scancode = none := by
  have high : 84 ≤ scancode.toNat := by
    by_contra low
    apply released
    apply BitVec.eq_of_toNat_eq
    rw [BitVec.toNat_and]
    change scancode.toNat &&& 2 ^ 7 = 0
    rw [Nat.and_two_pow, Nat.testBit_lt_two_pow (by omega)]
    rfl
  have beyond : (if held then SCANCODE_TABLE_SHIFT else SCANCODE_TABLE)[scancode.toNat]? =
      none := by
    apply List.getElem?_eq_none
    cases held <;> exact high
  unfold character
  rw [beyond]
  rfl

theorem Keyboard.handleIrq_eq (keyboard : Keyboard) (scancode : Byte) :
    keyboard.handleIrq scancode =
      { buffer := (character keyboard.shift scancode).elim keyboard.buffer keyboard.buffer.push
        shift :=
          if scancode = SC_LSHIFT_DOWN ∨ scancode = SC_RSHIFT_DOWN then true
          else if scancode = SC_LSHIFT_UP ∨ scancode = SC_RSHIFT_UP then false
          else keyboard.shift } := by
  unfold Keyboard.handleIrq
  by_cases pressed : scancode = SC_LSHIFT_DOWN ∨ scancode = SC_RSHIFT_DOWN
  · have silent : character keyboard.shift scancode = none := character_shift _ (by tauto)
    rw [if_pos pressed, if_pos pressed, silent]
    rfl
  · by_cases released : scancode = SC_LSHIFT_UP ∨ scancode = SC_RSHIFT_UP
    · have silent : character keyboard.shift scancode = none := character_shift _ (by tauto)
      rw [if_neg pressed, if_pos released, if_neg pressed, if_pos released, silent]
      rfl
    · rw [if_neg pressed, if_neg released, if_neg pressed, if_neg released]
      by_cases up : scancode &&& 0x80#8 ≠ 0#8
      · rw [if_pos up, character_break _ up]
        rfl
      · rw [if_neg up]
        unfold character
        dsimp only
        cases (if keyboard.shift then SCANCODE_TABLE_SHIFT else SCANCODE_TABLE)[scancode.toNat]? with
        | none => rfl
        | some ascii =>
            by_cases zero : ascii = 0#8 <;> simp [Option.filter, zero]

/-! ### The keys and the keyboard -/

/-- The shift keys that are down, and whether the last code of either was a press. -/
structure ShiftKeys where
  left : Bool
  right : Bool
  pressedLast : Bool
  deriving DecidableEq

def ShiftKeys.released : ShiftKeys :=
  { left := false
    right := false
    pressedLast := false }

def ShiftKeys.held (keys : ShiftKeys) : Bool := keys.left || keys.right

/-- What a keyboard without repeat can send next: a shift key is pressed when it is up and
released when it is down, and the prefix 0xe0 does not occur. -/
def ShiftKeys.send (keys : ShiftKeys) (scancode : Byte) : Option ShiftKeys :=
  if scancode = SC_LSHIFT_DOWN then
    if keys.left then none else some { keys with left := true, pressedLast := true }
  else if scancode = SC_RSHIFT_DOWN then
    if keys.right then none else some { keys with right := true, pressedLast := true }
  else if scancode = SC_LSHIFT_UP then
    if keys.left then some { keys with left := false, pressedLast := false } else none
  else if scancode = SC_RSHIFT_UP then
    if keys.right then some { keys with right := false, pressedLast := false } else none
  else if scancode = 0xe0#8 then none
  else some keys

inductive KeyEvent where
  | irq (scancode : Byte)
  | pop
  deriving DecidableEq

structure Typing where
  keyboard : Keyboard
  keys : ShiftKeys
  popped : List Byte
  translation : List Byte

namespace Typing

def start : Typing :=
  { keyboard := Keyboard.new
    keys := ShiftKeys.released
    popped := []
    translation := [] }

def translated (typing : Typing) (held : Bool) (scancode : Byte) : List Byte :=
  if typing.keyboard.buffer.accepts then (character held scancode).toList else []

def irq (typing : Typing) (keys : ShiftKeys) (scancode : Byte) : Typing :=
  { typing with
    keyboard := typing.keyboard.handleIrq scancode
    keys := keys
    translation := typing.translation ++ typing.translated typing.keys.held scancode }

def pop (typing : Typing) : Typing :=
  { typing with
    keyboard := { typing.keyboard with buffer := typing.keyboard.buffer.pop.2 }
    popped := typing.popped ++ typing.keyboard.buffer.pop.1.toList }

def step (typing : Typing) : KeyEvent → Option Typing
  | .irq scancode => (typing.keys.send scancode).map (typing.irq · scancode)
  | .pop => some typing.pop

def pushed (typing : Typing) : List Byte := typing.popped ++ typing.keyboard.buffer.contents

/-- A code that arrives while a shift key is held, and after the release of the other one,
finds no room or has the same character with and without shift. -/
def Undisturbed (typing : Typing) (event : KeyEvent) : Prop :=
  ∀ scancode, event = .irq scancode → typing.keys.held = true →
    typing.keys.pressedLast = false → typing.keyboard.buffer.accepts = true →
      character false scancode = character true scancode

instance (typing : Typing) (event : KeyEvent) : Decidable (typing.Undisturbed event) :=
  match event with
  | .irq scancode =>
      decidable_of_iff (typing.keys.held = true → typing.keys.pressedLast = false →
          typing.keyboard.buffer.accepts = true → character false scancode = character true scancode)
        ⟨fun same _ here => KeyEvent.irq.inj here ▸ same, fun all => all scancode rfl⟩
  | .pop => isTrue fun _ here => KeyEvent.noConfusion here

/-! ### Every sequence of codes -/

/-- The flag is the last shift code, and a key pressed last is still down. -/
structure Invariant (typing : Typing) : Prop where
  flag : typing.keyboard.shift = typing.keys.pressedLast
  down : typing.keys.pressedLast = true → typing.keys.held = true
  counted : typing.pushed.length = typing.translation.length

theorem start_invariant : start.Invariant where
  flag := rfl
  down pressed := Bool.noConfusion pressed
  counted := rfl

variable {typing next : Typing}

theorem send_flag {keys after : ShiftKeys} {keyboard : Keyboard} {scancode : Byte}
    (flag : keyboard.shift = keys.pressedLast)
    (down : keys.pressedLast = true → keys.held = true) (sent : keys.send scancode = some after) :
    (keyboard.handleIrq scancode).shift = after.pressedLast ∧
      (after.pressedLast = true → after.held = true) := by
  rw [Keyboard.handleIrq_eq]
  dsimp only
  unfold ShiftKeys.send at sent
  by_cases leftDown : scancode = SC_LSHIFT_DOWN
  · rw [if_pos leftDown] at sent
    rw [if_pos (Or.inl leftDown)]
    split at sent <;> cases sent
    exact ⟨rfl, fun _ => rfl⟩
  · rw [if_neg leftDown] at sent
    by_cases rightDown : scancode = SC_RSHIFT_DOWN
    · rw [if_pos rightDown] at sent
      rw [if_pos (Or.inr rightDown)]
      split at sent <;> cases sent
      exact ⟨rfl, fun _ => Bool.or_true _⟩
    · rw [if_neg rightDown] at sent
      rw [if_neg (fun either => either.elim leftDown rightDown)]
      by_cases leftUp : scancode = SC_LSHIFT_UP
      · rw [if_pos leftUp] at sent
        rw [if_pos (Or.inl leftUp)]
        split at sent <;> cases sent
        exact ⟨rfl, fun pressed => Bool.noConfusion pressed⟩
      · rw [if_neg leftUp] at sent
        by_cases rightUp : scancode = SC_RSHIFT_UP
        · rw [if_pos rightUp] at sent
          rw [if_pos (Or.inr rightUp)]
          split at sent <;> cases sent
          exact ⟨rfl, fun pressed => Bool.noConfusion pressed⟩
        · rw [if_neg rightUp] at sent
          rw [if_neg (fun either => either.elim leftUp rightUp)]
          split at sent <;> cases sent
          exact ⟨flag, down⟩

theorem irq_pushed (keys : ShiftKeys) (scancode : Byte) :
    (typing.irq keys scancode).pushed =
      typing.pushed ++ typing.translated typing.keyboard.shift scancode := by
  unfold pushed irq translated
  dsimp only
  rw [Keyboard.handleIrq_eq]
  dsimp only
  cases character typing.keyboard.shift scancode with
  | none => simp
  | some byte =>
      rw [Option.elim_some, KeyBuffer.push_contents]
      split <;> simp

theorem pop_pushed : typing.pop.pushed = typing.pushed := by
  unfold pushed pop KeyBuffer.pop
  dsimp only
  by_cases empty : typing.keyboard.buffer.head = typing.keyboard.buffer.tail
  · rw [if_pos empty, Option.toList_none, List.append_nil]
  · rw [if_neg empty, KeyBuffer.contents_cons _ empty]
    exact List.append_assoc ..

theorem translated_length (held other : Bool) (scancode : Byte) :
    (typing.translated held scancode).length = (typing.translated other scancode).length := by
  unfold translated
  split
  · exact character_length held other scancode
  · rfl

theorem toList_inj {left right : Option Byte} : left.toList = right.toList ↔ left = right := by
  constructor
  · intro same
    have first := congrArg List.head? same
    rwa [Option.head?_toList, Option.head?_toList] at first
  · exact congrArg Option.toList

theorem Invariant.translated_eq (invariant : typing.Invariant) (scancode : Byte) :
    typing.translated typing.keyboard.shift scancode =
        typing.translated typing.keys.held scancode ↔
      typing.Undisturbed (.irq scancode) := by
  unfold translated Undisturbed
  rw [invariant.flag]
  have down := invariant.down
  cases room : typing.keyboard.buffer.accepts with
  | false => simp
  | true =>
      cases pressed : typing.keys.pressedLast with
      | true =>
          rw [down pressed]
          simp
      | false =>
          cases held : typing.keys.held with
          | false => simp
          | true => simp [toList_inj]

theorem Invariant.step {event : KeyEvent} (invariant : typing.Invariant)
    (stepped : typing.step event = some next) : next.Invariant := by
  cases event with
  | irq scancode =>
      obtain ⟨keys, sent, same⟩ := Option.map_eq_some_iff.mp stepped
      subst same
      have kept := send_flag invariant.flag invariant.down sent
      constructor
      case flag => exact kept.1
      case down => exact kept.2
      case counted =>
        rw [irq_pushed, List.length_append, invariant.counted,
          translated_length _ typing.keys.held]
        exact (List.length_append ..).symm
  | pop =>
      cases stepped
      constructor
      case flag => exact invariant.flag
      case down => exact invariant.down
      case counted =>
        rw [pop_pushed]
        exact invariant.counted

theorem Invariant.step_pushed {event : KeyEvent} (invariant : typing.Invariant)
    (stepped : typing.step event = some next) :
    next.pushed = next.translation ↔
      typing.pushed = typing.translation ∧ typing.Undisturbed event := by
  cases event with
  | irq scancode =>
      obtain ⟨keys, sent, same⟩ := Option.map_eq_some_iff.mp stepped
      subst same
      rw [irq_pushed, ← invariant.translated_eq]
      constructor
      · exact fun equal => List.append_inj equal invariant.counted
      · rintro ⟨before, last⟩
        exact congrArg₂ List.append before last
  | pop =>
      cases stepped
      rw [pop_pushed]
      constructor
      · exact fun equal => ⟨equal, fun _ here => KeyEvent.noConfusion here⟩
      · exact And.left

/-- By induction on the events: an error in the pushed bytes is never made good. -/
theorem Invariant.exec_pushed {events : List KeyEvent} {final : Typing}
    (invariant : typing.Invariant)
    (reached : LabelledRun.exec Typing.step typing events = some final) :
    final.pushed = final.translation ↔
      typing.pushed = typing.translation ∧
        LabelledRun.Guarded Typing.step Undisturbed typing events := by
  induction events generalizing typing with
  | nil =>
      cases reached
      exact ⟨fun equal => ⟨equal, trivial⟩, And.left⟩
  | cons event rest ih =>
      obtain ⟨next, stepped, continued⟩ := LabelledRun.exec_cons_eq_some.mp reached
      rw [ih (invariant.step stepped) continued, invariant.step_pushed stepped, and_assoc]
      refine and_congr_right fun _ => and_congr_right fun _ => ?_
      constructor
      · intro guarded other same
        rw [stepped] at same
        cases same
        exact guarded
      · exact fun guarded => guarded next stepped

/-- The bytes popped, followed by those still stored, are the translation of the codes by
the shift keys held, just when every code was undisturbed. -/
theorem pushed_is_translation {events : List KeyEvent} {final : Typing}
    (reached : LabelledRun.exec step start events = some final) :
    final.popped ++ final.keyboard.buffer.contents = final.translation ↔
      LabelledRun.Guarded step Undisturbed start events := by
  have exact := start_invariant.exec_pushed reached
  have initial : start.pushed = start.translation := rfl
  rw [← pushed, exact]
  exact and_iff_right initial

def sampleEvents : List KeyEvent :=
  [.irq SC_LSHIFT_DOWN, .irq 0x1e#8, .irq 0x9e#8, .irq SC_LSHIFT_UP, .pop, .irq 0x1e#8]

theorem sampleEvents_translation :
    ∃ final, LabelledRun.exec step start sampleEvents = some final ∧
      final.popped ++ final.keyboard.buffer.contents = [65#8, 97#8] := by
  refine ⟨_, rfl, ?_⟩
  exact (@pushed_is_translation sampleEvents _ rfl).mpr (by decide)

/-- The right shift key is pressed and released while the left one stays down. -/
def overlappingEvents : List KeyEvent :=
  [.irq SC_LSHIFT_DOWN, .irq SC_RSHIFT_DOWN, .irq SC_RSHIFT_UP, .irq 0x1e#8, .pop]

theorem shift_still_held :
    ∃ final, LabelledRun.exec step start overlappingEvents = some final ∧
      final.keys.held = true ∧ final.translation = [65#8] ∧ final.popped = [97#8] :=
  ⟨_, rfl, rfl, rfl, rfl⟩

end Typing

end CustomKernel.Device
