/-
The printers of numbers.

The serial port, the terminal, the heap dump and the two demo tasks each have loops of
their own that fill a buffer from its end.  All of them print the numeral of the number,
and no index passes zero.
-/

import CustomKernel.Device.Serial
import CustomKernel.Ui.Terminal

set_option autoImplicit false

namespace CustomKernel.Ui

open Device

namespace Terminal

def printBytes (font : FontBytes) (t : Terminal) (bytes : List Byte) : Except Terminal Terminal :=
  print font t (bytes.map charOf)

def printHexUsize (font : FontBytes) (t : Terminal) (v : BitVec 64) : Except Terminal Terminal := do
  let prefixed ← print font t ['0', 'x']
  printBytes font prefixed (hexLoop v.toNat)

/-- The number in the line of a demo task, whose buffer has ten bytes. -/
def printCount (font : FontBytes) (t : Terminal) (count : BitVec 32) :
    Except Terminal Terminal :=
  if count.toNat = 0 then putc font t '0'
  else
    match decimalLoop 10 count.toNat with
    | none => .error t
    | some bytes => printBytes font t bytes

def processOpening (name : Char) : List Char :=
  ['P', 'r', 'o', 'c', 'e', 's', 's', ' ', name, ' ', '(', 'c', 'o', 'u', 'n', 't', '=']

/-- The line that a demo task prints in each round. -/
def processLine (font : FontBytes) (name : Char) (t : Terminal) (count : BitVec 32) :
    Except Terminal Terminal := do
  let opened ← print font t (processOpening name)
  let counted ← printCount font opened count
  print font counted [')', '\n']

def taskALine (font : FontBytes) (t : Terminal) (count : BitVec 32) : Except Terminal Terminal :=
  processLine font 'A' t count

def taskBLine (font : FontBytes) (t : Terminal) (count : BitVec 32) : Except Terminal Terminal :=
  processLine font 'B' t count

/-! ### The loops of the terminal -/

/-- By induction on the cells left: each step writes one digit in front. -/
theorem usizeDigits_eq {room v : Nat} (buf : List Byte) (fits : v < 10 ^ room) :
    usizeDigits room v buf =
      some ((Nat.digits 10 v).reverse.map Numeral.decimalSymbol ++ buf) := by
  induction room generalizing v buf with
  | zero =>
      rw [Nat.pow_zero] at fits
      have zero : v = 0 := Nat.lt_one_iff.mp fits
      subst zero
      rw [Nat.digits_zero]
      rfl
  | succ room ih =>
      rw [usizeDigits]
      by_cases zero : v = 0
      · rw [if_pos zero, zero, Nat.digits_zero]
        rfl
      · have digits : Nat.digits 10 v = v % 10 :: Nat.digits 10 (v / 10) :=
          Nat.digits_def' (by omega) (Nat.pos_of_ne_zero zero)
        rw [if_neg zero, ih _ (by omega), digits, List.reverse_cons, List.map_append, List.append_assoc]
        rfl

theorem nibble_eq (v : BitVec 64) : (v &&& 0xf#64).setWidth 8 = BitVec.ofNat 8 (v.toNat % 16) := by
  apply BitVec.eq_of_toNat_eq
  have low : v.toNat &&& 15 = v.toNat % 16 := Nat.and_two_pow_sub_one_eq_mod v.toNat 4
  change (v.toNat &&& 15) % 2 ^ 8 = v.toNat % 16 % 2 ^ 8
  rw [low]

theorem hexDigits_eq (n : Nat) (v : BitVec 64) (buf : List Byte) :
    hexDigits n v buf = (Numeral.padded 16 n v.toNat).map Numeral.hexSymbol ++ buf := by
  induction n generalizing v buf with
  | zero => rfl
  | succ n ih =>
      have quotient : (v >>> 4).toNat = v.toNat / 16 := by
        rw [BitVec.toNat_ushiftRight, Nat.shiftRight_eq_div_pow]
      have digit := hexByte_eq (show v.toNat % 16 < 16 from Nat.mod_lt _ (by omega))
      unfold hexByte at digit
      rw [hexDigits, nibble_eq, digit, ih, quotient, Numeral.padded, List.map_append, List.append_assoc]
      rfl

/-! ### What is printed -/

section printed

variable (font : FontBytes) (t : Terminal)

theorem printBytes_singleton (byte : Byte) : t.printBytes font [byte] = t.putc font (charOf byte) := by
  change (t.putc font (charOf byte)).bind pure = _
  cases t.putc font (charOf byte) with
  | error reached => rfl
  | ok reached => rfl

theorem zero_numeral :
    (Numeral.numeral 10 0).map Numeral.decimalSymbol = [48#8] := rfl

theorem printUsize_eq (v : BitVec 64) :
    t.printUsize font v =
      t.printBytes font ((Numeral.numeral 10 v.toNat).map Numeral.decimalSymbol) := by
  have word := v.isLt
  unfold printUsize
  by_cases zero : v.toNat = 0
  · rw [if_pos zero, zero, zero_numeral, printBytes_singleton]
    rfl
  · rw [if_neg zero, usizeDigits_eq [] (by omega), List.append_nil, Numeral.numeral, if_neg zero]
    rfl

theorem printCount_eq (count : BitVec 32) :
    t.printCount font count =
      t.printBytes font ((Numeral.numeral 10 count.toNat).map Numeral.decimalSymbol) := by
  have word := count.isLt
  unfold printCount
  by_cases zero : count.toNat = 0
  · rw [if_pos zero, zero, zero_numeral, printBytes_singleton]
    rfl
  · rw [if_neg zero, decimalLoop_eq zero (by omega)]

theorem print_append (first second : List Char) :
    t.print font (first ++ second) =
      (t.print font first).bind fun reached => reached.print font second :=
  List.foldlM_append ..

theorem map_charOf_0x : [48#8, 120#8].map charOf = ['0', 'x'] := rfl

theorem print_0x (digits : List Byte) :
    (t.print font ['0', 'x']).bind (fun prefixed => prefixed.printBytes font digits) =
      t.printBytes font ([48#8, 120#8] ++ digits) := by
  unfold printBytes
  rw [List.map_append, map_charOf_0x, print_append]

theorem printHex64_eq (v : BitVec 64) :
    t.printHex64 font v =
      t.printBytes font ([48#8, 120#8] ++ (Numeral.padded 16 16 v.toNat).map Numeral.hexSymbol) := by
  rw [← print_0x, printHex64, hexDigits_eq, List.append_nil]
  rfl

theorem printHexUsize_eq (v : BitVec 64) :
    t.printHexUsize font v =
      t.printBytes font ([48#8, 120#8] ++ (Numeral.padded 16 16 v.toNat).map Numeral.hexSymbol) := by
  rw [← print_0x, printHexUsize, hexLoop_eq]
  rfl

theorem processLine_eq (name : Char) (count : BitVec 32) :
    t.processLine font name count =
      t.print font (processOpening name ++
        (((Numeral.numeral 10 count.toNat).map Numeral.decimalSymbol).map charOf ++
          [')', '\n'])) := by
  rw [print_append, processLine]
  change (t.print font (processOpening name)).bind _ = _
  congr 1
  funext opened
  rw [print_append, printCount_eq]
  rfl

end printed

end Terminal

/-! ### The agreement -/

structure Printed (v : BitVec 64) (bytes digits : List Byte) : Prop where
  decimal : Numeral.Decimal v.toNat bytes
  hex : Numeral.Hex16 v.toNat digits
  serialUsize : ∀ serial : Serial,
    (serial.printUsize v.toNat).map Serial.sent = some (serial.sent ++ bytes)
  serialHex64 : ∀ serial : Serial,
    (serial.printHex64 v.toNat).sent = serial.sent ++ 48#8 :: 120#8 :: digits
  usize : ∀ font (t : Terminal), t.printUsize font v = t.printBytes font bytes
  hex64 : ∀ font (t : Terminal), t.printHex64 font v = t.printBytes font ([48#8, 120#8] ++ digits)
  hexUsize : ∀ font (t : Terminal),
    t.printHexUsize font v = t.printBytes font ([48#8, 120#8] ++ digits)
  indices : v.toNat ≠ 0 →
    decimalLoop 20 v.toNat = some bytes ∧ Terminal.usizeDigits 20 v.toNat [] = some bytes

structure PrintedCount (count : BitVec 32) (bytes : List Byte) : Prop where
  decimal : Numeral.Decimal count.toNat bytes
  taskA : ∀ font (t : Terminal), t.taskALine font count =
    t.print font (Terminal.processOpening 'A' ++ (bytes.map Terminal.charOf ++ [')', '\n']))
  taskB : ∀ font (t : Terminal), t.taskBLine font count =
    t.print font (Terminal.processOpening 'B' ++ (bytes.map Terminal.charOf ++ [')', '\n']))
  indices : count.toNat ≠ 0 → decimalLoop 10 count.toNat = some bytes

/-- For every word and every count. -/
theorem printers_agree (v : BitVec 64) (count : BitVec 32) :
    (∃ bytes digits, Printed v bytes digits) ∧ ∃ bytes, PrintedCount count bytes := by
  have word := v.isLt
  have countWord := count.isLt
  constructor
  · refine ⟨(Numeral.numeral 10 v.toNat).map Numeral.decimalSymbol,
      (Numeral.padded 16 16 v.toNat).map Numeral.hexSymbol, ?_⟩
    constructor
    case decimal => exact Numeral.decimal_symbols v.toNat
    case hex => exact Numeral.hex16_symbols word
    case serialUsize => exact fun serial => serial.printUsize_eq word
    case serialHex64 => exact fun serial => serial.sent_printHex64 v.toNat
    case usize => exact fun font t => t.printUsize_eq font v
    case hex64 => exact fun font t => t.printHex64_eq font v
    case hexUsize => exact fun font t => t.printHexUsize_eq font v
    case indices =>
      intro positive
      constructor
      · exact decimalLoop_eq positive (by omega)
      · rw [Terminal.usizeDigits_eq [] (by omega), List.append_nil, Numeral.numeral,
          if_neg positive]
  · refine ⟨(Numeral.numeral 10 count.toNat).map Numeral.decimalSymbol, ?_⟩
    constructor
    case decimal => exact Numeral.decimal_symbols count.toNat
    case taskA => exact fun font t => t.processLine_eq font 'A' count
    case taskB => exact fun font t => t.processLine_eq font 'B' count
    case indices => exact fun positive => decimalLoop_eq positive (by omega)

end CustomKernel.Ui
