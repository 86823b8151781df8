/-
Positional numerals.

A numeral is a list of digits, the most significant one first.  A number has exactly one
numeral without a leading zero, and one of each sufficient width.  Both are produced from
the other end, by loops that divide and fill cells downward; the free loop stops at the
index of its first digit, the counted one at zero.
-/

import Mathlib.Data.Nat.Digits.Lemmas

set_option autoImplicit false

namespace Numeral

variable {base : Nat}

/-! ### Values -/

def value (base : Nat) (digits : List Nat) : Nat :=
  digits.foldl (fun total digit => total * base + digit) 0

@[simp] theorem value_nil : value base [] = 0 := rfl

@[simp] theorem value_snoc (digits : List Nat) (digit : Nat) :
    value base (digits ++ [digit]) = value base digits * base + digit := by
  unfold value
  rw [List.foldl_append]
  rfl

theorem value_eq_ofDigits (digits : List Nat) :
    value base digits = Nat.ofDigits base digits.reverse := by
  induction digits using List.reverseRecOn with
  | nil => rfl
  | append_singleton digits digit ih =>
      rw [value_snoc, ih, List.reverse_append]
      change _ = Nat.ofDigits base (digit :: digits.reverse)
      rw [Nat.ofDigits_cons, Nat.mul_comm, Nat.add_comm]

theorem value_lt (large : 1 < base) {digits : List Nat}
    (small : ∀ digit, digit ∈ digits → digit < base) :
    value base digits < base ^ digits.length := by
  rw [value_eq_ofDigits, ← List.length_reverse]
  exact Nat.ofDigits_lt_base_pow_length large
    (fun digit member => small digit (List.mem_reverse.mp member))

/-! ### Canonical numerals -/

/-- A numeral of the number without a leading zero, unless it is zero itself. -/
structure Canonical (base number : Nat) (digits : List Nat) : Prop where
  written : digits ≠ []
  small : ∀ digit, digit ∈ digits → digit < base
  denotes : value base digits = number
  noLeadingZero : digits.head? = some 0 → digits = [0]

def numeral (base number : Nat) : List Nat :=
  if number = 0 then [0] else (Nat.digits base number).reverse

theorem numeral_canonical (large : 1 < base) (number : Nat) :
    Canonical base number (numeral base number) := by
  unfold numeral
  by_cases zero : number = 0
  · rw [if_pos zero]
    constructor
    case written => exact List.cons_ne_nil _ _
    case small =>
      intro digit member
      rw [List.mem_singleton.mp member]
      exact Nat.zero_lt_of_lt large
    case denotes =>
      rw [zero]
      exact Nat.zero_mul base
    case noLeadingZero => exact fun _ => rfl
  · rw [if_neg zero]
    have nonzero : Nat.digits base number ≠ [] := Nat.digits_ne_nil_iff_ne_zero.mpr zero
    constructor
    case written => exact fun none => nonzero (List.reverse_eq_nil_iff.mp none)
    case small =>
      intro digit member
      exact Nat.digits_lt_base large (List.mem_reverse.mp member)
    case denotes =>
      rw [value_eq_ofDigits, List.reverse_reverse]
      exact Nat.ofDigits_digits base number
    case noLeadingZero =>
      intro leading
      have last := Nat.getLast_digit_ne_zero base zero
      rw [List.head?_reverse, List.getLast?_eq_getLast_of_ne_nil nonzero] at leading
      exact absurd (Option.some.inj leading) last

theorem Canonical.eq_numeral {number : Nat} {digits : List Nat} (large : 1 < base)
    (canonical : Canonical base number digits) : digits = numeral base number := by
  have denotes := canonical.denotes
  rw [value_eq_ofDigits] at denotes
  by_cases leading : digits.head? = some 0
  · have zero := canonical.noLeadingZero leading
    rw [zero] at denotes
    have none : number = 0 := denotes.symm
    rw [zero, none]
    rfl
  · have digitsEq : Nat.digits base number = digits.reverse := by
      rw [← denotes]
      apply Nat.digits_ofDigits base large
      · intro digit member
        exact canonical.small digit (List.mem_reverse.mp member)
      · intro written last
        apply leading
        rw [← List.getLast?_reverse, List.getLast?_eq_getLast_of_ne_nil written, last]
    have positive : number ≠ 0 := by
      intro zero
      rw [zero, Nat.digits_zero] at digitsEq
      exact canonical.written (List.reverse_eq_nil_iff.mp digitsEq.symm)
    rw [numeral, if_neg positive, digitsEq, List.reverse_reverse]

theorem Canonical.unique {number : Nat} {left right : List Nat} (large : 1 < base)
    (first : Canonical base number left) (second : Canonical base number right) :
    left = right :=
  (first.eq_numeral large).trans (second.eq_numeral large).symm

/-! ### Numerals of a fixed width -/

def padded (base : Nat) : Nat → Nat → List Nat
  | 0, _ => []
  | width + 1, number => padded base width (number / base) ++ [number % base]

@[simp] theorem length_padded (width number : Nat) :
    (padded base width number).length = width := by
  induction width generalizing number with
  | zero => rfl
  | succ width ih => rw [padded, List.length_append, ih, List.length_singleton]

theorem padded_small (positive : 0 < base) {width number digit : Nat}
    (member : digit ∈ padded base width number) : digit < base := by
  induction width generalizing number with
  | zero => cases member
  | succ width ih =>
      rcases List.mem_append.mp member with earlier | last
      · exact ih earlier
      · rw [List.mem_singleton.mp last]
        exact Nat.mod_lt _ positive

theorem value_padded (width number : Nat) (fits : number < base ^ width) :
    value base (padded base width number) = number := by
  induction width generalizing number with
  | zero =>
      rw [Nat.pow_zero] at fits
      exact (Nat.lt_one_iff.mp fits).symm
  | succ width ih =>
      have quotient : number / base < base ^ width := by
        apply Nat.div_lt_of_lt_mul
        rwa [Nat.mul_comm, ← Nat.pow_succ]
      rw [padded, value_snoc, ih _ quotient, Nat.div_add_mod']

/-! ### Filling cells downward -/

section fill

variable {Value : Type*} (symbol : Nat → Value)

/-- The digits go into the cells below the index, until nothing of the number is left; the
index of the first one and the cells, or no result when the index would pass zero. -/
def fill (base : Nat) : Nat → Nat → List Value → Option (Nat × List Value)
  | index, 0, cells => some (index, cells)
  | 0, _ + 1, _ => none
  | index + 1, number + 1, cells =>
      fill base index ((number + 1) / base) (cells.set index (symbol ((number + 1) % base)))

def fillAll (base : Nat) : Nat → Nat → List Value → List Value
  | 0, _, cells => cells
  | index + 1, number, cells =>
      fillAll base index (number / base) (cells.set index (symbol (number % base)))

theorem drop_set_self {cells : List Value} {index : Nat} (inside : index < cells.length)
    (content : Value) : (cells.set index content).drop index = content :: cells.drop (index + 1) := by
  rw [List.drop_eq_getElem_cons (by rwa [List.length_set]), List.getElem_set_self,
    List.drop_set_of_lt (Nat.lt_succ_self index)]

/-- By induction on the index, which bounds the digits that are left. -/
theorem fill_eq (large : 1 < base) {index number : Nat} {cells : List Value}
    (fits : number < base ^ index) (inside : index ≤ cells.length) :
    ∃ start, start + (Nat.digits base number).length = index ∧
      fill symbol base index number cells =
        some (start, cells.take start ++
          ((Nat.digits base number).reverse.map symbol ++ cells.drop index)) := by
  induction index generalizing number cells with
  | zero =>
      rw [Nat.pow_zero] at fits
      have zero : number = 0 := Nat.lt_one_iff.mp fits
      subst zero
      exact ⟨0, by rw [Nat.digits_zero]; rfl, by rw [Nat.digits_zero]; rfl⟩
  | succ index ih =>
      cases number with
      | zero =>
          refine ⟨index + 1, by rw [Nat.digits_zero]; rfl, ?_⟩
          rw [Nat.digits_zero, List.reverse_nil, List.map_nil, List.nil_append,
            List.take_append_drop]
          rfl
      | succ number =>
          have digits : Nat.digits base (number + 1) =
              (number + 1) % base :: Nat.digits base ((number + 1) / base) :=
            Nat.digits_def' large (Nat.succ_pos number)
          have quotient : (number + 1) / base < base ^ index := by
            apply Nat.div_lt_of_lt_mul
            rwa [Nat.mul_comm, ← Nat.pow_succ]
          have room : index < cells.length := inside
          rcases @ih _ (cells.set index (symbol ((number + 1) % base))) quotient
            (by rw [List.length_set]; exact Nat.le_of_lt room) with ⟨start, count, filled⟩
          have before : start ≤ index := by omega
          refine ⟨start, ?_, ?_⟩
          · rw [digits, List.length_cons, ← Nat.add_assoc, count]
          · rw [fill, filled, drop_set_self room, List.take_set_of_le before, digits,
              List.reverse_cons, List.map_append, List.append_assoc]
            rfl

theorem fillAll_eq {index number : Nat} {cells : List Value} (inside : index ≤ cells.length) :
    fillAll symbol base index number cells =
      (padded base index number).map symbol ++ cells.drop index := by
  induction index generalizing number cells with
  | zero => rfl
  | succ index ih =>
      have room : index < cells.length := inside
      rw [fillAll, ih (by rw [List.length_set]; exact Nat.le_of_lt room), drop_set_self room,
        padded, List.map_append, List.append_assoc]
      rfl

theorem fill_numeral (large : 1 < base) {number : Nat} {cells : List Value}
    (positive : number ≠ 0) (fits : number < base ^ cells.length) :
    ∃ start after, fill symbol base cells.length number cells = some (start, after) ∧
      after.drop start = (numeral base number).map symbol := by
  rcases fill_eq symbol large fits (Nat.le_refl cells.length) with
    ⟨start, count, filled⟩
  refine ⟨start, _, filled, ?_⟩
  have taken : (cells.take start).length = start := by
    rw [List.length_take]
    omega
  rw [List.drop_append_of_le_length (Nat.le_of_eq taken.symm), List.drop_of_length_le (by omega),
    List.drop_length, List.append_nil, numeral, if_neg positive]
  rfl

end fill

/-! ### Reading -/

section read

variable {Symbol : Type*} {step : Nat → Symbol → Option Nat} {Accepts : Symbol → Prop}
  {digit : Symbol → Nat} {Fits : Nat → Prop}

/-- A fold whose steps append one digit each, as long as the value fits, reads the value of
the whole.  The steps are used on values shorter than the whole only. -/
theorem foldlM_eq_some (large : 1 < base) (zero : Fits 0)
    (down : ∀ less more, less ≤ more → Fits more → Fits less)
    (small : ∀ symbol, Accepts symbol → digit symbol < base) {symbols : List Symbol}
    (appends : ∀ total symbol next, total * base < base ^ symbols.length →
      (step total symbol = some next ↔
        Accepts symbol ∧ total * base + digit symbol = next ∧ Fits next)) {result : Nat} :
    symbols.foldlM step 0 = some result ↔
      (∀ symbol, symbol ∈ symbols → Accepts symbol) ∧
        value base (symbols.map digit) = result ∧ Fits result := by
  induction symbols using List.reverseRecOn generalizing result with
  | nil =>
      change some 0 = some result ↔ _
      rw [Option.some_inj]
      constructor
      · rintro rfl
        exact ⟨fun symbol member => (nomatch member), rfl, zero⟩
      · exact fun found => found.2.1
  | append_singleton symbols last ih =>
      have length : (symbols ++ [last]).length = symbols.length + 1 := List.length_append ..
      have longer : base ^ (symbols ++ [last]).length = base ^ symbols.length * base := by
        rw [length, Nat.pow_succ]
      have more : base ^ symbols.length ≤ base ^ (symbols ++ [last]).length := by
        rw [longer]
        exact Nat.le_mul_of_pos_right _ (Nat.zero_lt_of_lt large)
      have shorter := @ih (fun total symbol next bound =>
        appends total symbol next (Nat.lt_of_lt_of_le bound more))
      have bounded (all : ∀ symbol, symbol ∈ symbols → Accepts symbol) :
          value base (symbols.map digit) * base < base ^ (symbols ++ [last]).length := by
        have digits : ∀ each, each ∈ symbols.map digit → each < base := by
          intro each member
          rcases List.mem_map.mp member with ⟨symbol, inside, same⟩
          rw [← same]
          exact small symbol (all symbol inside)
        have bound := value_lt large digits
        rw [List.length_map] at bound
        rw [longer]
        exact Nat.mul_lt_mul_of_pos_right bound (Nat.zero_lt_of_lt large)
      have whole : (symbols ++ [last]).foldlM step 0 =
          (symbols.foldlM step 0).bind fun total => step total last := by
        rw [List.foldlM_append]
        simp
      rw [whole, Option.bind_eq_some_iff, List.map_append]
      change _ ↔ _ ∧ value base (symbols.map digit ++ [digit last]) = result ∧ _
      rw [value_snoc]
      constructor
      · rintro ⟨total, before, stepped⟩
        rcases shorter.mp before with ⟨all, same, _⟩
        subst same
        rcases (appends _ last result (bounded all)).mp stepped with ⟨accepted, value, fits⟩
        refine ⟨?_, value, fits⟩
        intro symbol member
        rcases List.mem_append.mp member with earlier | now
        · exact all symbol earlier
        · rw [List.mem_singleton.mp now]
          exact accepted
      · rintro ⟨all, value, fits⟩
        have earlier := fun symbol member => all symbol (List.mem_append_left [last] member)
        have accepted := all last (List.mem_append_right symbols (List.mem_singleton_self last))
        refine ⟨_, shorter.mpr ⟨earlier, rfl, down _ result ?_ fits⟩,
          (appends _ last result (bounded earlier)).mpr ⟨accepted, value, fits⟩⟩
        have grown := Nat.le_mul_of_pos_right (Numeral.value base (symbols.map digit))
          (Nat.zero_lt_of_lt large)
        omega

end read

/-! ### ASCII -/

abbrev Byte := BitVec 8

def IsDecimal (byte : Byte) : Prop := 48 ≤ byte.toNat ∧ byte.toNat ≤ 57

def IsLowerHex (byte : Byte) : Prop := IsDecimal byte ∨ (97 ≤ byte.toNat ∧ byte.toNat ≤ 102)

def IsHex (byte : Byte) : Prop := IsLowerHex byte ∨ (65 ≤ byte.toNat ∧ byte.toNat ≤ 70)

instance (byte : Byte) : Decidable (IsDecimal byte) := inferInstanceAs (Decidable (_ ∧ _))

instance (byte : Byte) : Decidable (IsLowerHex byte) := inferInstanceAs (Decidable (_ ∨ _))

instance (byte : Byte) : Decidable (IsHex byte) := inferInstanceAs (Decidable (_ ∨ _))

def decimalDigit (byte : Byte) : Nat := byte.toNat - 48

def hexDigit (byte : Byte) : Nat :=
  if byte.toNat ≤ 57 then byte.toNat - 48
  else if 97 ≤ byte.toNat then byte.toNat - 87
  else byte.toNat - 55

def decimalValue (bytes : List Byte) : Nat := value 10 (bytes.map decimalDigit)

def hexValue (bytes : List Byte) : Nat := value 16 (bytes.map hexDigit)

def decimalSymbol (digit : Nat) : Byte := BitVec.ofNat 8 (48 + digit)

/-- Lower case. -/
def hexSymbol (digit : Nat) : Byte :=
  BitVec.ofNat 8 (if digit < 10 then 48 + digit else 87 + digit)

theorem toNat_decimalSymbol {digit : Nat} (small : digit < 10) :
    (decimalSymbol digit).toNat = 48 + digit :=
  Nat.mod_eq_of_lt (by omega)

theorem decimalSymbol_isDecimal {digit : Nat} (small : digit < 10) :
    IsDecimal (decimalSymbol digit) := by
  unfold IsDecimal
  rw [toNat_decimalSymbol small]
  omega

theorem decimalDigit_symbol {digit : Nat} (small : digit < 10) :
    decimalDigit (decimalSymbol digit) = digit := by
  rw [decimalDigit, toNat_decimalSymbol small, Nat.add_sub_cancel_left]

theorem toNat_hexSymbol {digit : Nat} (small : digit < 16) :
    (hexSymbol digit).toNat = if digit < 10 then 48 + digit else 87 + digit := by
  apply Nat.mod_eq_of_lt
  split <;> omega

theorem hexSymbol_isLowerHex {digit : Nat} (small : digit < 16) :
    IsLowerHex (hexSymbol digit) := by
  unfold IsLowerHex IsDecimal
  rw [toNat_hexSymbol small]
  split <;> omega

theorem hexDigit_symbol {digit : Nat} (small : digit < 16) :
    hexDigit (hexSymbol digit) = digit := by
  unfold hexDigit
  rw [toNat_hexSymbol small]
  by_cases decimal : digit < 10
  · rw [if_pos decimal, if_pos (by omega), Nat.add_sub_cancel_left]
  · rw [if_neg decimal, if_neg (by omega), if_pos (by omega), Nat.add_sub_cancel_left]

structure Decimal (number : Nat) (bytes : List Byte) : Prop where
  ascii : ∀ byte, byte ∈ bytes → IsDecimal byte
  canonical : Canonical 10 number (bytes.map decimalDigit)

structure Hex16 (number : Nat) (bytes : List Byte) : Prop where
  length : bytes.length = 16
  ascii : ∀ byte, byte ∈ bytes → IsLowerHex byte
  denotes : hexValue bytes = number

theorem map_map_symbol {read : Byte → Nat} {write : Nat → Byte} {digits : List Nat}
    (back : ∀ digit, digit ∈ digits → read (write digit) = digit) :
    (digits.map write).map read = digits := by
  rw [List.map_map]
  exact (List.map_congr_left back).trans (List.map_id digits)

theorem decimal_symbols (number : Nat) :
    Decimal number ((numeral 10 number).map decimalSymbol) := by
  have canonical := numeral_canonical (show 1 < 10 by omega) number
  constructor
  case ascii =>
    intro byte member
    rcases List.mem_map.mp member with ⟨digit, inside, same⟩
    rw [← same]
    exact decimalSymbol_isDecimal (canonical.small digit inside)
  case canonical =>
    rw [map_map_symbol (fun digit inside => decimalDigit_symbol (canonical.small digit inside))]
    exact canonical

theorem hex16_symbols {number : Nat} (fits : number < 16 ^ 16) :
    Hex16 number ((padded 16 16 number).map hexSymbol) := by
  have small (digit : Nat) (member : digit ∈ padded 16 16 number) : digit < 16 :=
    padded_small (by omega) member
  constructor
  case length => rw [List.length_map, length_padded]
  case ascii =>
    intro byte member
    rcases List.mem_map.mp member with ⟨digit, inside, same⟩
    rw [← same]
    exact hexSymbol_isLowerHex (small digit inside)
  case denotes =>
    rw [hexValue, map_map_symbol (fun digit inside => hexDigit_symbol (small digit inside))]
    exact value_padded 16 number fits

theorem Decimal.value {number : Nat} {bytes : List Byte} (decimal : Decimal number bytes) :
    decimalValue bytes = number :=
  decimal.canonical.denotes

theorem Decimal.unique {number : Nat} {left right : List Byte} (first : Decimal number left)
    (second : Decimal number right) : left = right := by
  have digits := first.canonical.unique (by omega) second.canonical
  have back {bytes : List Byte} (ascii : ∀ byte, byte ∈ bytes → IsDecimal byte) :
      (bytes.map decimalDigit).map decimalSymbol = bytes := by
    rw [List.map_map]
    refine (List.map_congr_left ?_).trans (List.map_id bytes)
    intro byte member
    have bounds := ascii byte member
    unfold IsDecimal at bounds
    change decimalSymbol (decimalDigit byte) = byte
    unfold decimalSymbol decimalDigit
    bv_omega
  rw [← back first.ascii, digits, back second.ascii]

end Numeral
