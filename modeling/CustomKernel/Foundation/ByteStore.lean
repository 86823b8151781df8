/-
Byte-addressed memory with little-endian fields.

A field of `count` bytes is read and written at any address.  Reading back a
written field returns its value; fields that share no byte do not influence each
other; a read depends only on the bytes it covers.
-/

import Mathlib.Logic.Function.Basic
import Mathlib.Algebra.Group.Nat.Defs

set_option autoImplicit false

namespace ByteStore

abbrev Store := Nat → BitVec 8

def readLE (store : Store) : Nat → Nat → Nat
  | _, 0 => 0
  | address, count + 1 => (store address).toNat + 256 * readLE store (address + 1) count

/-- Store the low `count` bytes of a value, least significant byte first. -/
def writeLE (store : Store) : Nat → Nat → Nat → Store
  | _, 0, _ => store
  | address, count + 1, value =>
      writeLE (Function.update store address (BitVec.ofNat 8 value)) (address + 1) count
        (value / 256)

theorem readLE_lt (store : Store) (address count : Nat) :
    readLE store address count < 256 ^ count := by
  induction count generalizing address with
  | zero => simp [readLE]
  | succ count ih =>
      have byte := (store address).isLt
      have tail := ih (address + 1)
      simp only [readLE, Nat.pow_succ]
      omega

theorem readLE_add (store : Store) (address low high : Nat) :
    readLE store address (low + high) =
      readLE store address low + 256 ^ low * readLE store (address + low) high := by
  induction low generalizing address with
  | zero => simp [readLE]
  | succ low ih =>
      have tail := ih (address + 1)
      have place : address + 1 + low = address + (low + 1) := by omega
      rw [place] at tail
      rw [Nat.add_right_comm, readLE, readLE, tail, Nat.pow_succ, Nat.mul_add, ← Nat.mul_assoc,
        Nat.mul_comm 256 (256 ^ low)]
      omega

theorem readLE_low (store : Store) (address low high : Nat) :
    readLE store address low = readLE store address (low + high) % 256 ^ low := by
  rw [readLE_add, Nat.add_mul_mod_self_left, Nat.mod_eq_of_lt (readLE_lt store address low)]

theorem readLE_congr {left right : Store} {address count : Nat}
    (same : ∀ byte, address ≤ byte → byte < address + count → left byte = right byte) :
    readLE left address count = readLE right address count := by
  induction count generalizing address with
  | zero => rfl
  | succ count ih =>
      have tail : readLE left (address + 1) count = readLE right (address + 1) count :=
        ih (fun byte lower upper => same byte (by omega) (by omega))
      simp only [readLE, tail, same address (Nat.le_refl _) (by omega)]

theorem writeLE_outside (store : Store) {address count value byte : Nat}
    (outside : byte < address ∨ address + count ≤ byte) :
    writeLE store address count value byte = store byte := by
  induction count generalizing store address value with
  | zero => rfl
  | succ count ih =>
      have different : byte ≠ address := by omega
      rw [writeLE, ih _ (by omega), Function.update_of_ne different]

theorem readLE_writeLE_same (store : Store) {address count value : Nat}
    (fits : value < 256 ^ count) :
    readLE (writeLE store address count value) address count = value := by
  induction count generalizing store address value with
  | zero =>
      simp only [Nat.pow_zero] at fits
      simp only [readLE]
      omega
  | succ count ih =>
      have tailFits : value / 256 < 256 ^ count := by
        rw [Nat.pow_succ] at fits
        omega
      have head : writeLE store address (count + 1) value address = BitVec.ofNat 8 value := by
        rw [writeLE, writeLE_outside _ (by omega), Function.update_self]
      rw [readLE, head, writeLE, ih _ tailFits, BitVec.toNat_ofNat]
      omega

theorem readLE_writeLE_disjoint (store : Store) {address count value other width : Nat}
    (apart : other + width ≤ address ∨ address + count ≤ other) :
    readLE (writeLE store address count value) other width = readLE store other width :=
  readLE_congr (fun _ _ _ => writeLE_outside store (by omega))

end ByteStore
