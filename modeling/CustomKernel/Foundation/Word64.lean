/-
Wrapping arithmetic on 64-bit machine words held as natural numbers.

Addition, subtraction and multiplication reduce modulo 2^64, as release builds
compute them.  Each operation has a lemma that removes the reduction where the
true result fits, and the mask that clears the low bits is division and
multiplication by the matching power of two.
-/

import Mathlib.Data.Nat.Bitwise

set_option autoImplicit false

namespace Word64

abbrev modulus : Nat := 18446744073709551616

def add (left right : Nat) : Nat := (left + right) % modulus

def sub (left right : Nat) : Nat := (left + (modulus - right % modulus)) % modulus

def mul (left right : Nat) : Nat := (left * right) % modulus

def not (word : Nat) : Nat := modulus - 1 - word

theorem add_lt (left right : Nat) : add left right < modulus :=
  Nat.mod_lt _ (by decide)

theorem sub_lt (left right : Nat) : sub left right < modulus :=
  Nat.mod_lt _ (by decide)

theorem add_eq {left right : Nat} (fits : left + right < modulus) :
    add left right = left + right :=
  Nat.mod_eq_of_lt fits

theorem sub_eq {left right : Nat} (ordered : right ≤ left) (fits : left < modulus) :
    sub left right = left - right := by
  unfold sub modulus at *
  omega

theorem mul_eq {left right : Nat} (fits : left * right < modulus) :
    mul left right = left * right :=
  Nat.mod_eq_of_lt fits

theorem sub_add_eq {base extra taken : Nat} (ordered : taken ≤ base + extra)
    (fits : base + extra - taken < modulus) :
    sub (add base extra) taken = base + extra - taken := by
  unfold sub add modulus at *
  omega

theorem and_not_low {word width : Nat} (small : word < modulus) (narrow : width ≤ 64) :
    word &&& not (2 ^ width - 1) = word / 2 ^ width * 2 ^ width := by
  have complement : not (2 ^ width - 1) = 2 ^ 64 - 2 ^ width := by
    have positive := Nat.two_pow_pos width
    unfold not modulus
    omega
  have wordBits : word < 2 ^ 64 := small
  apply Nat.eq_of_testBit_eq
  intro index
  have high : 2 ^ 64 - 2 ^ width = 2 ^ 64 - ((2 ^ width - 1) + 1) := by
    have positive := Nat.two_pow_pos width
    omega
  have lowFits : 2 ^ width - 1 < 2 ^ 64 := by
    have bound := Nat.pow_le_pow_right (n := 2) (by decide) narrow
    have positive := Nat.two_pow_pos width
    omega
  rw [complement, high, Nat.testBit_and, Nat.testBit_two_pow_sub_succ lowFits,
    Nat.testBit_two_pow_sub_one, Nat.testBit_mul_two_pow, Nat.testBit_div_two_pow]
  by_cases below : index < width
  · simp [below, Nat.not_le.mpr below]
  · have above := Nat.not_lt.mp below
    by_cases within : index < 64
    · simp [below, above, within, Nat.sub_add_cancel above]
    · have absent : word.testBit index = false :=
        Nat.testBit_lt_two_pow (Nat.lt_of_lt_of_le wordBits
          (Nat.pow_le_pow_right (by decide) (Nat.not_lt.mp within)))
      simp [above, within, Nat.sub_add_cancel above, absent]

end Word64
