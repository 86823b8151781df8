/-
Windows of a ring of cells.

A ring of `size` cells is read from a start index on, wrapping at the end.  With one
cell always left unused the two indices of a queue tell its length: equal indices mean
empty, and a full queue is one whose next write index would meet the read index.
-/

import Mathlib.Logic.Function.Basic
import Mathlib.Data.List.Basic

set_option autoImplicit false

namespace RingWindow

variable {Value : Type*}

/-- The values of `count` cells from `start` on. -/
def window (cells : Nat → Value) (size : Nat) : Nat → Nat → List Value
  | _, 0 => []
  | start, count + 1 => cells start :: window cells size ((start + 1) % size) count

def stored (size head tail : Nat) : Nat := (head + size - tail) % size

theorem window_length (cells : Nat → Value) (size start count : Nat) :
    (window cells size start count).length = count := by
  induction count generalizing start with
  | zero => rfl
  | succ count ih => rw [window, List.length_cons, ih]

theorem window_succ (cells : Nat → Value) {size start : Nat} (inside : start < size)
    (count : Nat) :
    window cells size start (count + 1) =
      window cells size start count ++ [cells ((start + count) % size)] := by
  induction count generalizing start with
  | zero =>
      have index : (start + 0) % size = start := Nat.mod_eq_of_lt inside
      rw [index]
      rfl
  | succ count ih =>
      have positive : 0 < size := by omega
      have index : ((start + 1) % size + count) % size = (start + (count + 1)) % size := by
        rw [Nat.mod_add_mod, Nat.add_assoc, Nat.add_comm 1 count]
      rw [window, ih (Nat.mod_lt _ positive), index]
      rfl

theorem wrap_cases {size start distance : Nat} (inside : start < size)
    (small : distance < size) :
    start + distance < size ∧ (start + distance) % size = start + distance ∨
      size ≤ start + distance ∧ (start + distance) % size = start + distance - size := by
  rcases Nat.lt_or_ge (start + distance) size with below | past
  · exact Or.inl ⟨below, Nat.mod_eq_of_lt below⟩
  · rw [Nat.mod_eq_sub_mod past, Nat.mod_eq_of_lt (by omega)]
    exact Or.inr ⟨past, rfl⟩

theorem index_injective {size start left right : Nat} (inside : start < size)
    (leftSmall : left < size) (rightSmall : right < size)
    (same : (start + left) % size = (start + right) % size) : left = right := by
  rcases wrap_cases inside leftSmall with ⟨_, first⟩ | ⟨_, first⟩ <;>
    rcases wrap_cases inside rightSmall with ⟨_, second⟩ | ⟨_, second⟩ <;> omega

theorem window_update (cells : Nat → Value) (value : Value) {size start count distance : Nat}
    (inside : start < size) (beyond : count ≤ distance) (small : distance < size) :
    window (Function.update cells ((start + distance) % size) value) size start count =
      window cells size start count := by
  induction count with
  | zero => rfl
  | succ count ih =>
      have different : (start + count) % size ≠ (start + distance) % size := by
        intro same
        have equal := index_injective inside (by omega) small same
        omega
      rw [window_succ _ inside, window_succ _ inside, ih (by omega),
        Function.update_of_ne different]

section indices

variable {size head tail : Nat}

theorem stored_lt (positive : 0 < size) : stored size head tail < size :=
  Nat.mod_lt _ positive

theorem stored_cases (headSmall : head < size) (tailSmall : tail < size) :
    tail ≤ head ∧ stored size head tail = head - tail ∨
      head < tail ∧ stored size head tail = head + size - tail := by
  unfold stored
  rcases Nat.lt_or_ge head tail with before | after
  · exact Or.inr ⟨before, Nat.mod_eq_of_lt (by omega)⟩
  · have wrapped : head + size - tail = head - tail + size := by omega
    rw [wrapped, Nat.add_mod_right, Nat.mod_eq_of_lt (by omega)]
    exact Or.inl ⟨after, rfl⟩

theorem head_eq (headSmall : head < size) (tailSmall : tail < size) :
    (tail + stored size head tail) % size = head := by
  rcases stored_cases headSmall tailSmall with ⟨order, count⟩ | ⟨order, count⟩
  · rw [count, Nat.add_sub_cancel' order, Nat.mod_eq_of_lt headSmall]
  · have wrapped : tail + (head + size - tail) = head + size := by omega
    rw [count, wrapped, Nat.add_mod_right, Nat.mod_eq_of_lt headSmall]

theorem stored_eq_zero (headSmall : head < size) (tailSmall : tail < size) :
    stored size head tail = 0 ↔ head = tail := by
  rcases stored_cases headSmall tailSmall with ⟨order, count⟩ | ⟨order, count⟩ <;> omega

/-- The sacrificed cell: the next write index meets the read index at `size - 1`. -/
theorem full_iff (small : 1 < size) (headSmall : head < size) (tailSmall : tail < size) :
    (head + 1) % size = tail ↔ stored size head tail + 1 = size := by
  rcases stored_cases headSmall tailSmall with ⟨order, count⟩ | ⟨order, count⟩ <;>
    rcases wrap_cases headSmall small with ⟨below, next⟩ | ⟨whole, next⟩ <;> omega

theorem stored_push (small : 1 < size) (headSmall : head < size) (tailSmall : tail < size)
    (room : (head + 1) % size ≠ tail) :
    stored size ((head + 1) % size) tail = stored size head tail + 1 := by
  have positive : 0 < size := by omega
  have after := stored_cases (Nat.mod_lt (head + 1) positive) tailSmall
  rcases stored_cases headSmall tailSmall with ⟨order, count⟩ | ⟨order, count⟩ <;>
    rcases wrap_cases headSmall small with ⟨below, next⟩ | ⟨whole, next⟩ <;>
      rw [next] at after room ⊢ <;> omega

theorem stored_pop (small : 1 < size) (headSmall : head < size) (tailSmall : tail < size)
    (filled : head ≠ tail) :
    stored size head ((tail + 1) % size) + 1 = stored size head tail := by
  have positive : 0 < size := by omega
  have after := stored_cases headSmall (Nat.mod_lt (tail + 1) positive)
  rcases stored_cases headSmall tailSmall with ⟨order, count⟩ | ⟨order, count⟩ <;>
    rcases wrap_cases tailSmall small with ⟨below, next⟩ | ⟨whole, next⟩ <;>
      rw [next] at after ⊢ <;> omega

end indices

end RingWindow
