/-
The serial port.

Bytes are sent one after another.  The two number printers fill a buffer of fixed size
from its end, with an index that the decimal one decrements by hand.
-/

import CustomKernel.Device.Keyboard
import CustomKernel.Foundation.Numeral

set_option autoImplicit false

namespace CustomKernel.Device

/-! ### Filling a buffer from its end -/

def decimalByte (digit : Nat) : Byte := 48#8 + BitVec.ofNat 8 digit

/-- The digit of a nibble, which is the low four bits of what is left of the number. -/
def hexByte (nib : Nat) : Byte :=
  let nib := BitVec.ofNat 8 nib
  if nib < 10#8 then 48#8 + nib else 97#8 + nib - 10#8

/-- The bytes from the index on, after the loop over a number that is not zero; no result
when the index would go below zero. -/
def decimalLoop (size v : Nat) : Option (List Byte) :=
  (Numeral.fill decimalByte 10 size v (List.replicate size 48#8)).map
    fun filled => filled.2.drop filled.1

/-- The buffer after the loop over the indices from 15 down to 0. -/
def hexLoop (v : Nat) : List Byte :=
  Numeral.fillAll hexByte 16 16 v (List.replicate 16 48#8)

theorem decimalByte_eq (digit : Nat) : decimalByte digit = Numeral.decimalSymbol digit :=
  BitVec.ofNat_add_ofNat ..

theorem hexByte_eq {nib : Nat} (small : nib < 16) : hexByte nib = Numeral.hexSymbol nib := by
  unfold hexByte Numeral.hexSymbol
  dsimp only
  by_cases decimal : nib < 10
  · rw [if_pos (by bv_omega), if_pos decimal]
    exact BitVec.ofNat_add_ofNat ..
  · rw [if_neg (by bv_omega), if_neg decimal]
    bv_omega

theorem decimalLoop_eq {size v : Nat} (positive : v ≠ 0) (fits : v < 10 ^ size) :
    decimalLoop size v = some ((Numeral.numeral 10 v).map Numeral.decimalSymbol) := by
  have length : (List.replicate size 48#8).length = size := List.length_replicate ..
  rcases Numeral.fill_numeral decimalByte (show 1 < 10 by omega) positive
    (show v < 10 ^ (List.replicate size 48#8).length by rwa [length]) with
    ⟨start, after, filled, written⟩
  rw [length] at filled
  rw [decimalLoop, filled, Option.map_some, written]
  exact congrArg some (List.map_congr_left (fun digit _ => decimalByte_eq digit))

theorem hexLoop_eq (v : Nat) :
    hexLoop v = (Numeral.padded 16 16 v).map Numeral.hexSymbol := by
  rw [hexLoop, Numeral.fillAll_eq hexByte (by rw [List.length_replicate]),
    List.drop_of_length_le (by rw [List.length_replicate]), List.append_nil]
  apply List.map_congr_left
  intro nib member
  exact hexByte_eq (Numeral.padded_small (by omega) member)

/-! ### The port -/

/-- The bytes sent, oldest first; the wait for the transmitter sends nothing. -/
structure Serial where
  sent : List Byte

namespace Serial

def putc (serial : Serial) (c : Byte) : Serial := { sent := serial.sent ++ [c] }

/-- A string is the list of its bytes. -/
def print (serial : Serial) (s : List Byte) : Serial :=
  s.foldl (fun serial b => (if b = 10#8 then serial.putc 13#8 else serial).putc b) serial

def putAll (serial : Serial) (bytes : List Byte) : Serial := bytes.foldl putc serial

def printHex64 (serial : Serial) (v : Nat) : Serial :=
  (serial.print [48#8, 120#8]).putAll (hexLoop v)

/-- Without a result the index has passed zero. -/
def printUsize (serial : Serial) (v : Nat) : Option Serial :=
  if v = 0 then some (serial.putc 48#8)
  else (decimalLoop 20 v).map serial.putAll

def printed (s : List Byte) : List Byte := s.flatMap fun b => if b = 10#8 then [13#8, 10#8] else [b]

theorem printed_cons (b : Byte) (rest : List Byte) :
    printed (b :: rest) = (if b = 10#8 then [13#8, 10#8] else [b]) ++ printed rest :=
  List.flatMap_cons ..

theorem printed_plain {s : List Byte} (plain : 10#8 ∉ s) : printed s = s := by
  induction s with
  | nil => rfl
  | cons b rest ih =>
      obtain ⟨first, others⟩ := not_or.mp (mt List.mem_cons.mpr plain)
      rw [printed_cons, if_neg (fun same => first same.symm), ih others]
      rfl

theorem sent_print (serial : Serial) (s : List Byte) :
    (serial.print s).sent = serial.sent ++ printed s := by
  induction s generalizing serial with
  | nil => exact (List.append_nil _).symm
  | cons b rest ih =>
      change (((if b = 10#8 then serial.putc 13#8 else serial).putc b).print rest).sent = _
      rw [ih, printed_cons]
      by_cases lineEnd : b = 10#8
      · rw [if_pos lineEnd, if_pos lineEnd, lineEnd]
        simp [putc]
      · rw [if_neg lineEnd, if_neg lineEnd]
        simp [putc]

theorem sent_putAll (serial : Serial) (bytes : List Byte) :
    (serial.putAll bytes).sent = serial.sent ++ bytes := by
  induction bytes generalizing serial with
  | nil => exact (List.append_nil _).symm
  | cons byte rest ih =>
      change ((serial.putc byte).putAll rest).sent = _
      rw [ih]
      exact List.append_assoc ..

theorem sent_printHex64 (serial : Serial) (v : Nat) :
    (serial.printHex64 v).sent =
      serial.sent ++ 48#8 :: 120#8 :: (Numeral.padded 16 16 v).map Numeral.hexSymbol := by
  rw [printHex64, sent_putAll, hexLoop_eq]
  change serial.sent ++ [48#8] ++ [120#8] ++ _ = _
  simp

theorem printUsize_eq (serial : Serial) {v : Nat} (word : v < 2 ^ 64) :
    (serial.printUsize v).map sent =
      some (serial.sent ++ (Numeral.numeral 10 v).map Numeral.decimalSymbol) := by
  unfold printUsize
  by_cases zero : v = 0
  · rw [if_pos zero, zero]
    rfl
  · rw [if_neg zero, decimalLoop_eq zero (by omega), Option.map_some, Option.map_some,
      sent_putAll]

end Serial

end CustomKernel.Device
