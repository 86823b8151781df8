/-
Pictures in linear memory.

The pixel in column `x` of line `y` lies at `y * pitch + x`.  Two pixels with columns
below the pitch share a cell only if they are the same; loops that store one cell after
another overlay a stretch of a line, and loops over lines overlay a rectangle.
-/

import Mathlib.Data.List.Basic
import Mathlib.Logic.Function.Basic

set_option autoImplicit false

namespace ScanLines

/-! ### Coordinates -/

section

variable {pitch x y otherX otherY : Nat}

theorem place_lt_iff (column : x < pitch) (lines : Nat) :
    y * pitch + x < lines * pitch ↔ y < lines := by
  constructor
  · intro below
    by_contra behind
    have multiple : lines * pitch ≤ y * pitch := Nat.mul_le_mul_right pitch (by omega)
    omega
  · intro above
    have multiple : (y + 1) * pitch ≤ lines * pitch := Nat.mul_le_mul_right pitch above
    rw [Nat.succ_mul] at multiple
    omega

theorem place_inj (column : x < pitch) (otherColumn : otherX < pitch) :
    y * pitch + x = otherY * pitch + otherX ↔ x = otherX ∧ y = otherY := by
  constructor
  · intro same
    have upper := (@place_lt_iff pitch x y column (otherY + 1)).mp (by
      rw [Nat.succ_mul]
      omega)
    have lower := (@place_lt_iff pitch otherX otherY otherColumn (y + 1)).mp (by
      rw [Nat.succ_mul]
      omega)
    have line : y = otherY := by omega
    subst line
    exact ⟨by omega, rfl⟩
  · intro same
    rw [same.1, same.2]

theorem place_within_iff {left count line : Nat} (column : x < pitch)
    (inside : left + count ≤ pitch) :
    (line * pitch + left ≤ y * pitch + x ∧ y * pitch + x < line * pitch + left + count) ↔
      y = line ∧ left ≤ x ∧ x < left + count := by
  constructor
  · intro range
    have upper := (@place_lt_iff pitch x y column (line + 1)).mp (by
      rw [Nat.succ_mul]
      omega)
    have lower : ¬ y < line := by
      intro above
      have before := (@place_lt_iff pitch x y column line).mpr above
      omega
    have same : y = line := by omega
    subst same
    omega
  · intro range
    rw [range.1]
    omega

end

/-! ### Overlays -/

variable {Color State : Type*}

/-- The cells with `count` of them, from `first` on, replaced. -/
def overlay (cells : Nat → Color) (first count : Nat) (color : Nat → Color) : Nat → Color :=
  fun i => if first ≤ i ∧ i < first + count then color (i - first) else cells i

theorem overlay_succ (cells : Nat → Color) (first count : Nat) (color : Nat → Color) :
    overlay cells first (count + 1) color =
      Function.update (overlay cells first count color) (first + count) (color count) := by
  funext i
  by_cases last : i = first + count
  · subst last
    rw [Function.update_self, overlay, if_pos ⟨by omega, by omega⟩, Nat.add_sub_cancel_left]
  · rw [Function.update_of_ne last]
    unfold overlay
    by_cases inside : first ≤ i ∧ i < first + count
    · rw [if_pos inside, if_pos ⟨inside.1, by omega⟩]
    · rw [if_neg inside, if_neg (by omega)]

theorem foldl_overlay {cells : State → Nat → Color} {step : State → Nat → State}
    {invariant : State → Prop} {first : Nat} {color : Nat → Color}
    (keeps : ∀ state i, invariant state → invariant (step state i))
    (stores : ∀ state i, invariant state →
      cells (step state i) = Function.update (cells state) (first + i) (color i))
    {state : State} (initial : invariant state) (count : Nat) :
    invariant ((List.range count).foldl step state) ∧
      cells ((List.range count).foldl step state) =
        overlay (cells state) first count color := by
  induction count with
  | zero =>
      refine ⟨initial, ?_⟩
      funext i
      rw [overlay, if_neg (by omega)]
      rfl
  | succ count ih =>
      rw [List.range_succ, List.foldl_append, overlay_succ, ← ih.2]
      exact ⟨keeps _ count ih.1, stores _ count ih.1⟩

theorem foldl_rectangle {cells : State → Nat → Color} {step : State → Nat → State}
    {invariant : State → Prop} {pitch left top width : Nat} {color : Nat → Nat → Color}
    (inside : left + width ≤ pitch)
    (keeps : ∀ state line, invariant state → invariant (step state line))
    (overlays : ∀ state line, invariant state → cells (step state line) =
      overlay (cells state) ((top + line) * pitch + left) width (fun column => color column line))
    {state : State} (initial : invariant state) (count : Nat) :
    invariant ((List.range count).foldl step state) ∧
      ∀ x y, x < pitch → cells ((List.range count).foldl step state) (y * pitch + x) =
        if (left ≤ x ∧ x < left + width) ∧ top ≤ y ∧ y < top + count then
          color (x - left) (y - top)
        else cells state (y * pitch + x) := by
  induction count with
  | zero =>
      refine ⟨initial, ?_⟩
      intro x y _
      rw [if_neg (by omega)]
      rfl
  | succ count ih =>
      rw [List.range_succ, List.foldl_append]
      refine ⟨keeps _ count ih.1, ?_⟩
      intro x y column
      rw [List.foldl_cons, List.foldl_nil, overlays _ count ih.1, overlay]
      have stretch := @place_within_iff pitch x y left width (top + count) column inside
      by_cases here : y = top + count ∧ left ≤ x ∧ x < left + width
      · rw [if_pos (stretch.mpr here), if_pos (by omega), here.1]
        have offset : (top + count) * pitch + x - ((top + count) * pitch + left) = x - left := by
          omega
        rw [offset, Nat.add_sub_cancel_left]
      · rw [if_neg (fun within => here (stretch.mp within)), ih.2 x y column]
        by_cases earlier : (left ≤ x ∧ x < left + width) ∧ top ≤ y ∧ y < top + count
        · rw [if_pos earlier, if_pos ⟨earlier.1, by omega⟩]
        · rw [if_neg earlier, if_neg (by omega)]

end ScanLines
