/-
Bitmaps held in bytes: one bit for each index, eight indices a byte.

The three bit operations are the shift-and-mask forms of the usual C and Rust
code.  The scan walks whole bytes, skips those with every bit set and finds the
bit inside a byte by counting its trailing ones; it returns the lowest clear
index.  The number of clear indices below a bound changes by one when a clear
bit is set or a set bit is cleared.
-/

import Mathlib.Data.Finset.Card
import Mathlib.Data.Finset.Range
import Mathlib.Logic.Function.Basic

set_option autoImplicit false

namespace Bitmap

abbrev Bytes := Nat → BitVec 8

def bit (bytes : Bytes) (index : Nat) : Bool :=
  (bytes (index / 8) &&& (1#8 <<< (index % 8))) ≠ 0#8

def setBit (bytes : Bytes) (index : Nat) : Bytes :=
  Function.update bytes (index / 8) (bytes (index / 8) ||| (1#8 <<< (index % 8)))

def clearBit (bytes : Bytes) (index : Nat) : Bytes :=
  Function.update bytes (index / 8) (bytes (index / 8) &&& ~~~(1#8 <<< (index % 8)))

theorem bit_eq_getLsbD (bytes : Bytes) (index : Nat) :
    bit bytes index = (bytes (index / 8)).getLsbD (index % 8) := by
  have within : index % 8 < 8 := Nat.mod_lt _ (by decide)
  have nonzero : BitVec.twoPow 8 (index % 8) ≠ 0#8 := by
    intro zero
    have lifted := congrArg (fun word => word.getLsbD (index % 8)) zero
    simp [within] at lifted
  unfold bit
  rw [← BitVec.twoPow_eq, BitVec.and_twoPow]
  cases (bytes (index / 8)).getLsbD (index % 8) <;> simp [nonzero]

theorem bit_setBit (bytes : Bytes) (index other : Nat) :
    bit (setBit bytes index) other = (decide (other = index) || bit bytes other) := by
  have within : index % 8 < 8 := Nat.mod_lt _ (by decide)
  simp only [bit_eq_getLsbD, setBit]
  by_cases sameByte : other / 8 = index / 8
  · rw [sameByte, Function.update_self, BitVec.getLsbD_or, ← BitVec.twoPow_eq,
      BitVec.getLsbD_twoPow]
    have position : (other = index) ↔ index % 8 = other % 8 := by omega
    simp only [position, within, decide_true, Bool.true_and, Bool.or_comm]
  · rw [Function.update_of_ne sameByte]
    have different : other ≠ index := by
      intro same
      exact sameByte (by rw [same])
    simp [different]

theorem bit_clearBit (bytes : Bytes) (index other : Nat) :
    bit (clearBit bytes index) other = (!decide (other = index) && bit bytes other) := by
  have within : index % 8 < 8 := Nat.mod_lt _ (by decide)
  have otherWithin : other % 8 < 8 := Nat.mod_lt _ (by decide)
  simp only [bit_eq_getLsbD, clearBit]
  by_cases sameByte : other / 8 = index / 8
  · rw [sameByte, Function.update_self, BitVec.getLsbD_and, BitVec.getLsbD_not,
      ← BitVec.twoPow_eq, BitVec.getLsbD_twoPow]
    have position : (other = index) ↔ index % 8 = other % 8 := by omega
    simp only [position, within, otherWithin, decide_true, Bool.true_and, Bool.and_comm]
  · rw [Function.update_of_ne sameByte]
    have different : other ≠ index := by
      intro same
      exact sameByte (by rw [same])
    simp [different]

theorem ext_bit {left right : Bytes} (same : ∀ index, bit left index = bit right index) :
    left = right := by
  funext byte
  apply BitVec.eq_of_getLsbD_eq
  intro position within
  have bits := same (byte * 8 + position)
  have quotient : (byte * 8 + position) / 8 = byte := by omega
  have remainder : (byte * 8 + position) % 8 = position := by omega
  rw [bit_eq_getLsbD, bit_eq_getLsbD, quotient, remainder] at bits
  exact bits

theorem clearBit_setBit {bytes : Bytes} {index : Nat} (clear : bit bytes index = false) :
    clearBit (setBit bytes index) index = bytes := by
  apply ext_bit
  intro other
  rw [bit_clearBit, bit_setBit]
  by_cases here : other = index
  · rw [here, clear]
    simp
  · simp [here]

/-- Count the set bits below the lowest clear one, looking at `fuel` bits from
`start` on. -/
def onesFrom {width : Nat} (word : BitVec width) : Nat → Nat → Nat
  | 0, start => start
  | fuel + 1, start => if word.getLsbD start then onesFrom word fuel (start + 1) else start

def trailingOnes {width : Nat} (word : BitVec width) : Nat := onesFrom word width 0

theorem onesFrom_spec {width : Nat} (word : BitVec width) (fuel start : Nat) :
    start ≤ onesFrom word fuel start ∧ onesFrom word fuel start ≤ start + fuel ∧
      (∀ index, start ≤ index → index < onesFrom word fuel start → word.getLsbD index = true) ∧
      (onesFrom word fuel start < start + fuel →
        word.getLsbD (onesFrom word fuel start) = false) := by
  induction fuel generalizing start with
  | zero =>
      simp only [onesFrom, Nat.add_zero, Nat.le_refl, Nat.lt_irrefl, false_implies, and_true,
        true_and]
      intro index lower upper
      omega
  | succ fuel ih =>
      obtain ⟨lower, upper, ones, stop⟩ := ih (start + 1)
      cases found : word.getLsbD start with
      | false =>
          simp only [onesFrom, found, Bool.false_eq_true, if_false, Nat.le_refl, true_and,
            implies_true, and_true]
          exact ⟨by omega, fun index above below => by omega⟩
      | true =>
          simp only [onesFrom, found, if_true]
          refine ⟨by omega, by omega, ?_, fun before => stop (by omega)⟩
          intro index above below
          rcases Nat.eq_or_lt_of_le above with same | later
          · rw [← same]
            exact found
          · exact ones index later below

theorem full_bit : ∀ position, position < 8 → (0xff#8).getLsbD position = true := by
  decide

theorem trailingOnes_of_ne {byte : BitVec 8} (different : byte ≠ 0xff#8) :
    trailingOnes byte < 8 ∧ byte.getLsbD (trailingOnes byte) = false ∧
      ∀ index, index < trailingOnes byte → byte.getLsbD index = true := by
  obtain ⟨_, upper, ones, stop⟩ := onesFrom_spec byte 8 0
  have inside : trailingOnes byte < 8 := by
    rcases Nat.eq_or_lt_of_le upper with full | less
    · exfalso
      apply different
      apply BitVec.eq_of_getLsbD_eq
      intro index bound
      rw [ones index (Nat.zero_le _) (by omega), full_bit index bound]
    · exact less
  exact ⟨inside, stop inside, fun index below => ones index (Nat.zero_le _) below⟩

/-- The lowest clear index in `count` bytes from byte `start` on, byte by byte. -/
def firstClear (bytes : Bytes) : Nat → Nat → Option Nat
  | 0, _ => none
  | count + 1, start =>
      if bytes start = 0xff#8 then firstClear bytes count (start + 1)
      else some (start * 8 + trailingOnes (bytes start))

private theorem bit_of_full {bytes : Bytes} {index : Nat}
    (full : bytes (index / 8) = 0xff#8) : bit bytes index = true := by
  rw [bit_eq_getLsbD, full]
  exact full_bit _ (Nat.mod_lt _ (by decide))

theorem firstClear_none {bytes : Bytes} {count start : Nat}
    (absent : firstClear bytes count start = none) (index : Nat)
    (lower : start * 8 ≤ index) (upper : index < (start + count) * 8) :
    bit bytes index = true := by
  induction count generalizing start with
  | zero => omega
  | succ count ih =>
      unfold firstClear at absent
      split at absent
      · rename_i full
        by_cases here : index / 8 = start
        · exact bit_of_full (by rw [here]; exact full)
        · exact ih absent (by omega) (by omega)
      · cases absent

theorem firstClear_some {bytes : Bytes} {count start index : Nat}
    (found : firstClear bytes count start = some index) :
    start * 8 ≤ index ∧ index < (start + count) * 8 ∧ bit bytes index = false ∧
      ∀ other, start * 8 ≤ other → other < index → bit bytes other = true := by
  induction count generalizing start with
  | zero => cases found
  | succ count ih =>
      unfold firstClear at found
      split at found
      · rename_i full
        obtain ⟨lower, upper, clear, before⟩ := ih found
        refine ⟨by omega, by omega, clear, ?_⟩
        intro other otherLower otherUpper
        by_cases here : other / 8 = start
        · exact bit_of_full (by rw [here]; exact full)
        · exact before other (by omega) otherUpper
      · rename_i different
        obtain ⟨inside, clear, ones⟩ := trailingOnes_of_ne different
        have indexEq : start * 8 + trailingOnes (bytes start) = index := Option.some.inj found
        have byteEq : index / 8 = start := by omega
        have positionEq : index % 8 = trailingOnes (bytes start) := by omega
        refine ⟨by omega, by omega, ?_, ?_⟩
        · rw [bit_eq_getLsbD, byteEq, positionEq]
          exact clear
        · intro other otherLower otherUpper
          have otherByte : other / 8 = start := by omega
          rw [bit_eq_getLsbD, otherByte]
          exact ones _ (by omega)

def clearBelow (bytes : Bytes) (bound : Nat) : Finset Nat :=
  (Finset.range bound).filter (fun index => bit bytes index = false)

theorem mem_clearBelow {bytes : Bytes} {bound index : Nat} :
    index ∈ clearBelow bytes bound ↔ index < bound ∧ bit bytes index = false := by
  simp [clearBelow]

theorem card_clearBelow_le (bytes : Bytes) (bound : Nat) :
    (clearBelow bytes bound).card ≤ bound := by
  simpa [clearBelow] using Finset.card_filter_le (Finset.range bound)
    (fun index => bit bytes index = false)

theorem clearBelow_setBit (bytes : Bytes) (bound index : Nat) :
    clearBelow (setBit bytes index) bound = (clearBelow bytes bound).erase index := by
  ext other
  simp only [mem_clearBelow, Finset.mem_erase, bit_setBit, Bool.or_eq_false_iff,
    decide_eq_false_iff_not]
  tauto

theorem clearBelow_clearBit {bytes : Bytes} {bound index : Nat} (inside : index < bound) :
    clearBelow (clearBit bytes index) bound = insert index (clearBelow bytes bound) := by
  ext other
  simp only [mem_clearBelow, Finset.mem_insert, bit_clearBit, Bool.and_eq_false_iff,
    Bool.not_eq_false', decide_eq_true_eq]
  constructor
  · rintro ⟨below, same | clear⟩
    · exact Or.inl same
    · exact Or.inr ⟨below, clear⟩
  · rintro (same | ⟨below, clear⟩)
    · subst other
      exact ⟨inside, Or.inl rfl⟩
    · exact ⟨below, Or.inr clear⟩

theorem card_clearBelow_setBit {bytes : Bytes} {bound index : Nat} (inside : index < bound)
    (clear : bit bytes index = false) :
    (clearBelow (setBit bytes index) bound).card + 1 = (clearBelow bytes bound).card := by
  rw [clearBelow_setBit]
  exact Finset.card_erase_add_one (mem_clearBelow.mpr ⟨inside, clear⟩)

theorem card_clearBelow_clearBit {bytes : Bytes} {bound index : Nat} (inside : index < bound)
    (used : bit bytes index = true) :
    (clearBelow (clearBit bytes index) bound).card = (clearBelow bytes bound).card + 1 := by
  rw [clearBelow_clearBit inside]
  apply Finset.card_insert_of_notMem
  simp [mem_clearBelow, used]

end Bitmap
