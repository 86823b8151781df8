/-
Trees of linked nodes, addressed by the path of slots from the root.

The child function is partial and may depend on the depth of the node.  A path
lists its slots with the last one first, so a path grows by consing.  A tree in
which distinct paths reach distinct nodes has no sharing; grafting a bare fresh
node into an absent slot adds exactly one path.
-/

import Mathlib.Data.List.Basic

set_option autoImplicit false

namespace PathTree

variable {Node Slot : Type*}

def nodeAt (child : Nat → Node → Slot → Option Node) (root : Node) : List Slot → Option Node
  | [] => some root
  | slot :: path =>
      match nodeAt child root path with
      | none => none
      | some node => child path.length node slot

/-- No node is reached along two paths. -/
def Distinct (child : Nat → Node → Slot → Option Node) (root : Node) : Prop :=
  ∀ left right node, nodeAt child root left = some node →
    nodeAt child root right = some node → left = right

variable {child other : Nat → Node → Slot → Option Node} {root : Node}

theorem nodeAt_cons {path : List Slot} {node : Node}
    (reached : nodeAt child root path = some node) (slot : Slot) :
    nodeAt child root (slot :: path) = child path.length node slot := by
  simp only [nodeAt, reached]

theorem nodeAt_cons_none {path : List Slot} (absent : nodeAt child root path = none)
    (slot : Slot) : nodeAt child root (slot :: path) = none := by
  simp only [nodeAt, absent]

theorem nodeAt_cons_some {path : List Slot} {slot : Slot} {node : Node}
    (reached : nodeAt child root (slot :: path) = some node) :
    ∃ parent, nodeAt child root path = some parent ∧
      child path.length parent slot = some node := by
  cases found : nodeAt child root path with
  | none =>
      rw [nodeAt_cons_none found] at reached
      cases reached
  | some parent =>
      rw [nodeAt_cons found] at reached
      exact ⟨parent, rfl, reached⟩

theorem nodeAt_congr
    (same : ∀ path node slot, nodeAt child root path = some node →
      other path.length node slot = child path.length node slot)
    (path : List Slot) : nodeAt other root path = nodeAt child root path := by
  induction path with
  | nil => rfl
  | cons slot path ih =>
      cases found : nodeAt child root path with
      | none =>
          rw [nodeAt_cons_none found, nodeAt_cons_none (ih.trans found)]
      | some node =>
          rw [nodeAt_cons found, nodeAt_cons (ih.trans found)]
          exact same path node slot found

/-- Grafting a bare fresh node adds one path and changes no other. -/
theorem nodeAt_graft {path : List Slot} {node fresh : Node} {slot : Slot}
    (reached : nodeAt child root path = some node)
    (absent : child path.length node slot = none)
    (same : ∀ route parent turn, nodeAt child root route = some parent →
      ¬(route = path ∧ turn = slot) → other route.length parent turn =
        child route.length parent turn)
    (grafted : other path.length node slot = some fresh)
    (bare : ∀ turn, other (path.length + 1) fresh turn = none) :
    (∀ route, route ≠ slot :: path → nodeAt other root route = nodeAt child root route) ∧
      nodeAt other root (slot :: path) = some fresh := by
  have absentPath : nodeAt child root (slot :: path) = none := by
    rw [nodeAt_cons reached]
    exact absent
  have both (route : List Slot) :
      (route ≠ slot :: path → nodeAt other root route = nodeAt child root route) ∧
        (route = slot :: path → nodeAt other root route = some fresh) := by
    induction route with
    | nil => exact ⟨fun _ => rfl, fun impossible => by cases impossible⟩
    | cons turn route ih =>
        constructor
        · intro different
          by_cases extended : route = slot :: path
          · have reachedFresh := ih.2 extended
            subst route
            rw [nodeAt_cons reachedFresh, nodeAt_cons_none absentPath]
            exact bare turn
          · have unchanged := ih.1 extended
            cases found : nodeAt child root route with
            | none =>
                rw [nodeAt_cons_none found, nodeAt_cons_none (unchanged.trans found)]
            | some parent =>
                rw [nodeAt_cons found, nodeAt_cons (unchanged.trans found)]
                apply same route parent turn found
                rintro ⟨sameRoute, sameTurn⟩
                exact different (by rw [sameRoute, sameTurn])
        · intro here
          obtain ⟨turnEq, routeEq⟩ := List.cons.inj here
          subst turn
          subst route
          have shorter : path ≠ slot :: path := fun impossible =>
            List.cons_ne_self slot path impossible.symm
          rw [nodeAt_cons ((ih.1 shorter).trans reached)]
          exact grafted
  exact ⟨fun route => (both route).1, (both _).2 rfl⟩

theorem Distinct.graft {grown : List Slot} {fresh : Node} (distinct : Distinct child root)
    (isNew : ∀ route, nodeAt child root route ≠ some fresh)
    (unchanged : ∀ route, route ≠ grown → nodeAt other root route = nodeAt child root route)
    (added : nodeAt other root grown = some fresh) : Distinct other root := by
  intro left right node reachedLeft reachedRight
  by_cases atLeft : left = grown
  · by_cases atRight : right = grown
    · rw [atLeft, atRight]
    · exfalso
      rw [atLeft, added] at reachedLeft
      cases reachedLeft
      exact isNew right ((unchanged right atRight).symm.trans reachedRight)
  · by_cases atRight : right = grown
    · exfalso
      rw [atRight, added] at reachedRight
      cases reachedRight
      exact isNew left ((unchanged left atLeft).symm.trans reachedLeft)
    · exact distinct left right node ((unchanged left atLeft).symm.trans reachedLeft)
        ((unchanged right atRight).symm.trans reachedRight)

end PathTree
