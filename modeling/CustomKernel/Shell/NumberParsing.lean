/-
The numbers of the command line.

Both parsers fold over the bytes with an accumulator of 32 bits: the decimal one checks it
at each step, the hexadecimal one bounds the number of digits.  What the shell prints in
decimal the parser reads back.
-/

import CustomKernel.Ui.NumberPrinting
import CustomKernel.Shell.SimpleShell

set_option autoImplicit false

namespace CustomKernel.SimpleShell

open Ui
open Device (Byte decimalLoop decimalLoop_eq)
open Numeral (IsDecimal IsLowerHex IsHex decimalDigit hexDigit decimalValue hexValue)

/-! ### The parsers -/

def isAsciiDigit (b : Byte) : Bool := 48#8 ≤ b ∧ b ≤ 57#8

def checkedMul (left right : Nat) : Option Nat :=
  if left * right < 2 ^ 32 then some (left * right) else none

def checkedAdd (left right : Nat) : Option Nat :=
  if left + right < 2 ^ 32 then some (left + right) else none

def decimalStep (val : Nat) (b : Byte) : Option Nat :=
  if ¬isAsciiDigit b then none
  else do
    let tens ← checkedMul val 10
    checkedAdd tens (b - 48#8).toNat

def parseDecimal (s : List Byte) : Option Nat :=
  if s = [] then none else s.foldlM decimalStep 0

def nibble (b : Byte) : Option Byte :=
  if 48#8 ≤ b ∧ b ≤ 57#8 then some (b - 48#8)
  else if 97#8 ≤ b ∧ b ≤ 102#8 then some (b - 97#8 + 10#8)
  else if 65#8 ≤ b ∧ b ≤ 70#8 then some (b - 65#8 + 10#8)
  else none

/-- The shift drops what leaves the 32 bits. -/
def hexStep (val : Nat) (b : Byte) : Option Nat := do
  let nib ← nibble b
  pure ((val <<< 4) % 2 ^ 32 ||| nib.toNat)

def parseHex6 (s : List Byte) : Option Nat :=
  if s = [] ∨ 6 < s.length then none else s.foldlM hexStep 0

def printUsize (font : FontBytes) (term : Terminal) (v : BitVec 64) : Except Terminal Terminal :=
  if v.toNat = 0 then term.putc font '0'
  else
    match decimalLoop 20 v.toNat with
    | none => .error term
    | some bytes => term.printBytes font bytes

/-! ### One digit -/

theorem isAsciiDigit_iff (b : Byte) : isAsciiDigit b = true ↔ IsDecimal b := by
  unfold isAsciiDigit IsDecimal
  rw [decide_eq_true_iff]
  exact Iff.rfl

theorem decimalStep_eq_some {val next : Nat} {b : Byte} :
    decimalStep val b = some next ↔
      IsDecimal b ∧ val * 10 + decimalDigit b = next ∧ next < 2 ^ 32 := by
  unfold decimalStep
  by_cases digit : IsDecimal b
  · have value : (b - 48#8).toNat = decimalDigit b := by
      unfold IsDecimal at digit
      unfold decimalDigit
      bv_omega
    rw [if_neg (not_not.mpr ((isAsciiDigit_iff b).mpr digit)), value]
    unfold checkedMul checkedAdd
    by_cases fits : val * 10 + decimalDigit b < 2 ^ 32
    · rw [if_pos (by omega)]
      change (if _ then _ else _) = _ ↔ _
      rw [if_pos fits, Option.some_inj]
      constructor
      · exact fun same => ⟨digit, same, same ▸ fits⟩
      · exact fun found => found.2.1
    · constructor
      · intro result
        exfalso
        rcases Option.bind_eq_some_iff.mp result with ⟨tens, first, second⟩
        by_cases small : val * 10 < 2 ^ 32
        · rw [if_pos small] at first
          cases first
          rw [if_neg fits] at second
          cases second
        · rw [if_neg small] at first
          cases first
      · rintro ⟨_, same, small⟩
        omega
  · rw [if_pos (fun is => digit ((isAsciiDigit_iff b).mp is))]
    constructor
    · exact fun none => nomatch none
    · exact fun found => absurd found.1 digit

theorem nibble_of_isHex {b : Byte} (hex : IsHex b) :
    ∃ nib, nibble b = some nib ∧ nib.toNat = hexDigit b := by
  unfold IsHex IsLowerHex IsDecimal at hex
  unfold nibble hexDigit
  rcases hex with (digit | lower) | upper
  · refine ⟨b - 48#8, if_pos (by bv_omega), ?_⟩
    rw [if_pos (by omega)]
    bv_omega
  · refine ⟨b - 97#8 + 10#8, ?_, ?_⟩
    · rw [if_neg (by bv_omega), if_pos (by bv_omega)]
    · rw [if_neg (by omega), if_pos (by omega)]
      bv_omega
  · refine ⟨b - 65#8 + 10#8, ?_, ?_⟩
    · rw [if_neg (by bv_omega), if_neg (by bv_omega), if_pos (by bv_omega)]
    · rw [if_neg (by omega), if_neg (by omega)]
      bv_omega

theorem nibble_of_not_isHex {b : Byte} (other : ¬IsHex b) : nibble b = none := by
  unfold IsHex IsLowerHex IsDecimal at other
  unfold nibble
  rw [if_neg (by bv_omega), if_neg (by bv_omega), if_neg (by bv_omega)]

theorem hexDigit_lt {b : Byte} (hex : IsHex b) : hexDigit b < 16 := by
  unfold IsHex IsLowerHex IsDecimal at hex
  unfold hexDigit
  split
  · omega
  · split <;> omega

/-- A step succeeds just when it appends a digit; the value must leave room for it. -/
theorem hexStep_eq_some {val next : Nat} {b : Byte} (room : val < 2 ^ 28) :
    hexStep val b = some next ↔ IsHex b ∧ val * 16 + hexDigit b = next := by
  unfold hexStep
  by_cases hex : IsHex b
  · rcases nibble_of_isHex hex with ⟨nib, found, value⟩
    have small : nib.toNat < 2 ^ 4 := by
      rw [value]
      exact hexDigit_lt hex
    have shifted : (val <<< 4) % 2 ^ 32 = 2 ^ 4 * val := by
      rw [Nat.shiftLeft_eq, Nat.mul_comm, Nat.mod_eq_of_lt (by omega)]
    have joined : (val <<< 4) % 2 ^ 32 ||| nib.toNat = val * 16 + hexDigit b := by
      rw [shifted, ← Nat.two_pow_add_eq_or_of_lt small, value, Nat.mul_comm]
    rw [found]
    change some _ = _ ↔ _
    rw [joined, Option.some_inj]
    exact (and_iff_right hex).symm
  · rw [nibble_of_not_isHex hex]
    constructor
    · exact fun none => nomatch none
    · exact fun both => absurd both.1 hex

/-! ### The grammars -/

theorem parseDecimal_eq_some {s : List Byte} {v : Nat} :
    parseDecimal s = some v ↔
      s ≠ [] ∧ (∀ b, b ∈ s → IsDecimal b) ∧ decimalValue s = v ∧ v < 2 ^ 32 := by
  unfold parseDecimal
  by_cases empty : s = []
  · rw [if_pos empty]
    constructor
    · exact fun none => nomatch none
    · exact fun found => absurd empty found.1
  · have small (b : Byte) (decimal : IsDecimal b) : decimalDigit b < 10 := by
      unfold IsDecimal at decimal
      unfold decimalDigit
      omega
    have fold := @Numeral.foldlM_eq_some 10 Byte decimalStep IsDecimal decimalDigit (· < 2 ^ 32)
      (by omega) (by omega) (fun _ _ => Nat.lt_of_le_of_lt) small s
      (fun _ _ _ _ => decimalStep_eq_some) v
    rw [if_neg empty, fold]
    exact (and_iff_right empty).symm

theorem parseHex6_eq_some {s : List Byte} {v : Nat} :
    parseHex6 s = some v ↔
      1 ≤ s.length ∧ s.length ≤ 6 ∧ (∀ b, b ∈ s → IsHex b) ∧ hexValue s = v := by
  unfold parseHex6
  have nonempty : s ≠ [] ↔ 1 ≤ s.length := List.length_pos_iff.symm
  by_cases refused : s = [] ∨ 6 < s.length
  · rw [if_pos refused]
    constructor
    · exact fun none => nomatch none
    · rintro ⟨one, six, _⟩
      rcases refused with empty | long
      · exact absurd empty (nonempty.mpr one)
      · omega
  · rcases not_or.mp refused with ⟨written, short⟩
    have six : s.length ≤ 6 := Nat.le_of_not_lt short
    have bound : 16 ^ s.length ≤ 16 ^ 6 := Nat.pow_le_pow_right (by omega) six
    have appends (val : Nat) (b : Byte) (next : Nat) (room : val * 16 < 16 ^ s.length) :
        hexStep val b = some next ↔ IsHex b ∧ val * 16 + hexDigit b = next ∧ True := by
      rw [hexStep_eq_some (by omega), and_true]
    have fold := @Numeral.foldlM_eq_some 16 Byte hexStep IsHex hexDigit (fun _ => True)
      (by omega) trivial (fun _ _ _ _ => trivial) (fun _ => hexDigit_lt) s appends v
    rw [if_neg refused, fold, and_true]
    constructor
    · exact fun found => ⟨nonempty.mp written, six, found⟩
    · exact fun found => found.2.2

/-! ### What the shell prints -/

theorem printUsize_eq (font : FontBytes) (term : Terminal) (v : BitVec 64) :
    printUsize font term v =
      term.printBytes font ((Numeral.numeral 10 v.toNat).map Numeral.decimalSymbol) := by
  have word := v.isLt
  unfold printUsize
  by_cases zero : v.toNat = 0
  · rw [if_pos zero, zero, Terminal.zero_numeral, Terminal.printBytes_singleton]
    rfl
  · rw [if_neg zero, decimalLoop_eq zero (by omega)]

theorem parseDecimal_numeral {number : Nat} {bytes : List Byte}
    (decimal : Numeral.Decimal number bytes) :
    parseDecimal bytes = if number < 2 ^ 32 then some number else none := by
  have written : bytes ≠ [] := by
    rintro rfl
    exact decimal.canonical.written rfl
  by_cases fits : number < 2 ^ 32
  · rw [if_pos fits]
    exact parseDecimal_eq_some.mpr ⟨written, decimal.ascii, decimal.value, fits⟩
  · rw [if_neg fits]
    cases result : parseDecimal bytes with
    | none => rfl
    | some v =>
        rcases parseDecimal_eq_some.mp result with ⟨_, _, value, small⟩
        rw [decimal.value] at value
        omega

/-- The parsers accept exactly their grammars, and the decimal one inverts the printer. -/
theorem parsers_accept_grammars :
    (∀ (s : List Byte) (v : Nat), parseDecimal s = some v ↔
      s ≠ [] ∧ (∀ b, b ∈ s → IsDecimal b) ∧ decimalValue s = v ∧ v < 2 ^ 32) ∧
    (∀ (s : List Byte) (v : Nat), parseHex6 s = some v ↔
      1 ≤ s.length ∧ s.length ≤ 6 ∧ (∀ b, b ∈ s → IsHex b) ∧ hexValue s = v) ∧
    ∀ v : BitVec 64, ∃ bytes,
      (∀ font term, printUsize font term v = term.printBytes font bytes) ∧
      parseDecimal bytes = if v.toNat < 2 ^ 32 then some v.toNat else none := by
  refine ⟨fun _ _ => parseDecimal_eq_some, fun _ _ => parseHex6_eq_some, ?_⟩
  intro v
  refine ⟨(Numeral.numeral 10 v.toNat).map Numeral.decimalSymbol, ?_, ?_⟩
  · exact fun font term => printUsize_eq font term v
  · exact parseDecimal_numeral (Numeral.decimal_symbols v.toNat)

end CustomKernel.SimpleShell
