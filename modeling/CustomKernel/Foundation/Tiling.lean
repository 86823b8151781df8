/-
Consecutive intervals.

A list of blocks of given widths is laid out from a base address without gaps.
Each block has its place; the places increase, two different blocks share no
address, and the layout of a concatenation is the layout of its parts.
-/

import Mathlib.Data.List.Basic
import Mathlib.Data.List.Pairwise

set_option autoImplicit false

namespace Tiling

variable {Block : Type*} (width : Block → Nat)

/-- The address just past the last block. -/
def stop : Nat → List Block → Nat
  | base, [] => base
  | base, block :: rest => stop (base + width block) rest

def placed : Nat → List Block → List (Nat × Block)
  | _, [] => []
  | base, block :: rest => (base, block) :: placed (base + width block) rest

variable {width}

@[simp] theorem stop_nil (base : Nat) : stop width base [] = base := rfl

@[simp] theorem stop_cons (base : Nat) (block : Block) (rest : List Block) :
    stop width base (block :: rest) = stop width (base + width block) rest := rfl

@[simp] theorem stop_append (base : Nat) (first second : List Block) :
    stop width base (first ++ second) = stop width (stop width base first) second := by
  induction first generalizing base with
  | nil => rfl
  | cons block rest ih => exact ih (base + width block)

@[simp] theorem placed_append (base : Nat) (first second : List Block) :
    placed width base (first ++ second) =
      placed width base first ++ placed width (stop width base first) second := by
  induction first generalizing base with
  | nil => rfl
  | cons block rest ih => simp only [List.cons_append, placed, stop_cons, ih]

theorem base_le_stop (base : Nat) (blocks : List Block) : base ≤ stop width base blocks := by
  induction blocks generalizing base with
  | nil => exact Nat.le_refl base
  | cons block rest ih => exact Nat.le_trans (Nat.le_add_right _ _) (ih _)

theorem placed_bounds {base address : Nat} {block : Block} {blocks : List Block}
    (member : (address, block) ∈ placed width base blocks) :
    base ≤ address ∧ address + width block ≤ stop width base blocks := by
  induction blocks generalizing base with
  | nil => simp [placed] at member
  | cons head rest ih =>
      rcases List.mem_cons.mp member with here | later
      · cases here
        exact ⟨Nat.le_refl _, base_le_stop _ rest⟩
      · have tail := ih later
        exact ⟨by omega, tail.2⟩

theorem placed_ordered (base : Nat) (blocks : List Block) :
    (placed width base blocks).Pairwise (fun left right => left.1 + width left.2 ≤ right.1) := by
  induction blocks generalizing base with
  | nil => exact List.Pairwise.nil
  | cons block rest ih =>
      refine List.Pairwise.cons ?_ (ih _)
      intro later member
      exact (placed_bounds member).1

theorem placed_apart {base left right : Nat} {leftBlock rightBlock : Block} {blocks : List Block}
    (leftMember : (left, leftBlock) ∈ placed width base blocks)
    (rightMember : (right, rightBlock) ∈ placed width base blocks) :
    (left, leftBlock) = (right, rightBlock) ∨ left + width leftBlock ≤ right ∨
      right + width rightBlock ≤ left := by
  induction blocks generalizing base with
  | nil => simp [placed] at leftMember
  | cons block rest ih =>
      rcases List.mem_cons.mp leftMember with leftHere | leftLater
      · rcases List.mem_cons.mp rightMember with rightHere | rightLater
        · exact Or.inl (leftHere.trans rightHere.symm)
        · cases leftHere
          exact Or.inr (Or.inl (placed_bounds rightLater).1)
      · rcases List.mem_cons.mp rightMember with rightHere | rightLater
        · cases rightHere
          exact Or.inr (Or.inr (placed_bounds leftLater).1)
        · exact ih leftLater rightLater

theorem placed_unique (positive : ∀ block, 0 < width block) {base address : Nat}
    {left right : Block} {blocks : List Block}
    (leftMember : (address, left) ∈ placed width base blocks)
    (rightMember : (address, right) ∈ placed width base blocks) : left = right := by
  rcases placed_apart leftMember rightMember with same | before | after
  · cases same
    rfl
  · have leftPositive := positive left
    omega
  · have rightPositive := positive right
    omega

theorem placed_split {base address : Nat} {block : Block} {blocks : List Block}
    (member : (address, block) ∈ placed width base blocks) :
    ∃ before after, blocks = before ++ block :: after ∧ address = stop width base before := by
  induction blocks generalizing base with
  | nil => simp [placed] at member
  | cons head rest ih =>
      rcases List.mem_cons.mp member with here | later
      · cases here
        exact ⟨[], rest, rfl, rfl⟩
      · obtain ⟨before, after, split, place⟩ := ih later
        exact ⟨head :: before, after, by rw [split]; rfl, place⟩

theorem split_unique (positive : ∀ block, 0 < width block) {base : Nat} {left right : Block}
    {before after other behind : List Block}
    (same : before ++ ([left] ++ after) = other ++ ([right] ++ behind))
    (place : stop width base before = stop width base other) :
    before = other ∧ left = right ∧ after = behind := by
  induction before generalizing base other with
  | nil =>
      cases other with
      | nil =>
          cases same
          exact ⟨rfl, rfl, rfl⟩
      | cons head rest =>
          have headPositive := positive head
          have later := @base_le_stop _ width (base + width head) rest
          rw [stop_nil, stop_cons] at place
          omega
  | cons head rest ih =>
      cases other with
      | nil =>
          have headPositive := positive head
          have later := @base_le_stop _ width (base + width head) rest
          rw [stop_nil, stop_cons] at place
          omega
      | cons otherHead otherRest =>
          rcases List.cons.inj same with ⟨rfl, tails⟩
          rcases ih tails place with ⟨rest_, block_, behind_⟩
          exact ⟨by rw [rest_], block_, behind_⟩

theorem length_le {least : Nat} (wide : ∀ block, least ≤ width block) (base : Nat)
    (blocks : List Block) : base + least * blocks.length ≤ stop width base blocks := by
  induction blocks generalizing base with
  | nil => simp
  | cons block rest ih =>
      have tail := ih (base + width block)
      have head := wide block
      rw [List.length_cons, Nat.mul_succ, stop_cons]
      omega

end Tiling
