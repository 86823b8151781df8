/-
The text of a sequence of calls.

Calls that print are one print of their texts.  The numbers in such a text can be read back:
a hexadecimal one by its width, a decimal one up to the first character that is no digit.
-/

import CustomKernel.Foundation.Readback
import CustomKernel.Ui.NumberPrinting
import CustomKernel.Ui.Rendering

set_option autoImplicit false

namespace CustomKernel.Ui

open Readback

def hexText (v : BitVec 64) : List Char :=
  ['0', 'x'] ++ (Terminal.hexDigits 16 v []).map Terminal.charOf

/-- The characters that a call prints; the others print none. -/
def callText : TerminalCall → List Char
  | .putc c => [c]
  | .print s => s
  | .printHex64 v => hexText v
  | .printUsize v => usizeText v
  | _ => []

def prints : TerminalCall → Bool
  | .putc _ => true
  | .print _ => true
  | .printHex64 _ => true
  | .printUsize _ => true
  | _ => false

/-! ### Calls as one print -/

theorem usizeText_eq (v : BitVec 64) :
    usizeText v =
      ((Numeral.numeral 10 v.toNat).map Numeral.decimalSymbol).map Terminal.charOf := by
  have word := v.isLt
  unfold usizeText Numeral.numeral
  by_cases zero : v.toNat = 0
  · rw [if_pos zero, if_pos zero]
    rfl
  · rw [if_neg zero, if_neg zero, Terminal.usizeDigits_eq [] (by omega), List.append_nil]
    rfl

theorem hexText_eq (v : BitVec 64) :
    hexText v = ([48#8, 120#8] ++
      (Numeral.padded 16 16 v.toNat).map Numeral.hexSymbol).map Terminal.charOf := by
  rw [hexText, Terminal.hexDigits_eq, List.append_nil, List.map_append, Terminal.map_charOf_0x]

theorem call_prints (font : FontBytes) (t : Terminal) {call : TerminalCall}
    (printing : prints call = true) : t.call font call = t.print font (callText call) := by
  cases call with
  | putc c =>
      change t.putc font c = (t.putc font c).bind pure
      cases t.putc font c with
      | error reached => rfl
      | ok reached => rfl
  | print s => rfl
  | printHex64 v =>
      rw [callText, hexText_eq]
      exact t.printHex64_eq font v
  | printUsize v =>
      rw [callText, usizeText_eq]
      exact t.printUsize_eq font v
  | backspace => exact absurd printing Bool.false_ne_true
  | clear => exact absurd printing Bool.false_ne_true
  | setColor fg bg => exact absurd printing Bool.false_ne_true

theorem run_prints (font : FontBytes) (t : Terminal) {calls : List TerminalCall}
    (printing : calls.all prints = true) : t.run font calls = t.print font (calls.flatMap callText) := by
  induction calls generalizing t with
  | nil => rfl
  | cons call rest ih =>
      rw [List.all_cons, Bool.and_eq_true] at printing
      rw [List.flatMap_cons, Terminal.print_append, ← call_prints font t printing.1]
      change (t.call font call).bind (fun reached => reached.run font rest) = _
      congr 1
      funext reached
      exact ih reached printing.2

/-! ### Numbers read back -/

theorem charOf_injective {left right : BitVec 8}
    (same : Terminal.charOf left = Terminal.charOf right) : left = right := by
  apply BitVec.eq_of_toNat_eq
  rw [← charOf_toNat, ← charOf_toNat, same]

theorem map_charOf_injective {left right : List (BitVec 8)}
    (same : left.map Terminal.charOf = right.map Terminal.charOf) : left = right :=
  List.map_injective_iff.mpr (fun _ _ => charOf_injective) same

theorem reads_hexText (behind : List Char → Prop) : Reads hexText id behind := by
  have width (v : BitVec 64) : (hexText v).length = 18 := by
    rw [hexText_eq, List.length_map, List.length_append, List.length_map, Numeral.length_padded]
    rfl
  intro left right leftRest rightRest leftBehind rightBehind same
  obtain ⟨texts, rests⟩ := reads_field width behind left right leftRest rightRest leftBehind
    rightBehind same
  refine ⟨?_, rests⟩
  rw [hexText_eq, hexText_eq] at texts
  have digits := List.append_cancel_left (map_charOf_injective texts)
  apply BitVec.eq_of_toNat_eq
  dsimp only [id]
  rw [← (Numeral.hex16_symbols left.isLt).denotes, digits,
    (Numeral.hex16_symbols right.isLt).denotes]

def IsDigit (c : Char) : Prop := 48 ≤ c.toNat ∧ c.toNat ≤ 57

theorem usizeText_digits (v : BitVec 64) (c : Char) (member : c ∈ usizeText v) : IsDigit c := by
  rw [usizeText_eq] at member
  obtain ⟨byte, inside, rfl⟩ := List.mem_map.mp member
  unfold IsDigit
  rw [charOf_toNat]
  exact (Numeral.decimal_symbols v.toNat).ascii byte inside

theorem reads_usizeText : Reads usizeText id (Stops IsDigit) := by
  intro left right leftRest rightRest leftStops rightStops same
  obtain ⟨texts, rests⟩ := reads_run usizeText_digits left right leftRest rightRest leftStops
    rightStops same
  refine ⟨?_, rests⟩
  rw [usizeText_eq, usizeText_eq] at texts
  have digits := map_charOf_injective texts
  apply BitVec.eq_of_toNat_eq
  dsimp only [id]
  rw [← (Numeral.decimal_symbols left.toNat).value, digits,
    (Numeral.decimal_symbols right.toNat).value]

end CustomKernel.Ui
