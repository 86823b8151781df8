/-
Searching a ring of indices.

A search starts behind an index, visits every index once in cyclic order and ends
with the index it started behind.  The cyclic distance to any ready index shrinks
when the search result becomes the new starting point, which is what bounds the
number of searches that can pass a ready index by.
-/

import Mathlib.Data.Fin.Basic
import Mathlib.Tactic.SplitIfs

set_option autoImplicit false

namespace CyclicScan

variable {n : Nat}

def next (index : Fin n) : Fin n := ⟨(index.val + 1) % n, Nat.mod_lt _ index.pos⟩

def distance (start goal : Fin n) : Nat := (goal.val + (n - start.val)) % n

/-- The first ready index among the given number of indices. -/
def scan (ready : Fin n → Bool) : Nat → Fin n → Option (Fin n)
  | 0, _ => none
  | tries + 1, index => if ready index then some index else scan ready tries (next index)

theorem distance_eq (start goal : Fin n) :
    distance start goal =
      if start.val ≤ goal.val then goal.val - start.val else goal.val + n - start.val := by
  have startLt := start.isLt
  have goalLt := goal.isLt
  unfold distance
  split
  · have wraps : goal.val + (n - start.val) = goal.val - start.val + n := by omega
    rw [wraps, Nat.add_mod_right, Nat.mod_eq_of_lt (by omega)]
  · rw [Nat.mod_eq_of_lt (by omega)]
    omega

theorem next_val (index : Fin n) :
    (next index).val = if index.val + 1 = n then 0 else index.val + 1 := by
  have bound := index.isLt
  have value : (next index).val = (index.val + 1) % n := rfl
  rw [value]
  split
  · rename_i last
    rw [last, Nat.mod_self]
  · exact Nat.mod_eq_of_lt (by omega)

theorem distance_lt (start goal : Fin n) : distance start goal < n :=
  Nat.mod_lt _ start.pos

theorem distance_self (index : Fin n) : distance index index = 0 := by
  rw [distance_eq, if_pos (Nat.le_refl _), Nat.sub_self]

theorem distance_pos {start goal : Fin n} (different : start ≠ goal) :
    0 < distance start goal := by
  have values : start.val ≠ goal.val := fun same => different (Fin.ext same)
  have startLt := start.isLt
  rw [distance_eq]
  split <;> omega

theorem distance_next {start goal : Fin n} (different : start ≠ goal) :
    distance (next start) goal + 1 = distance start goal := by
  have values : start.val ≠ goal.val := fun same => different (Fin.ext same)
  have startLt := start.isLt
  have goalLt := goal.isLt
  rw [distance_eq, distance_eq, next_val]
  split <;> split <;> split <;> omega

theorem distance_next_self (index : Fin n) : distance (next index) index + 1 = n := by
  have bound := index.isLt
  rw [distance_eq, next_val]
  split <;> split <;> omega

theorem distance_split {start middle goal : Fin n}
    (onTheWay : distance start middle ≤ distance start goal) :
    distance start middle + distance middle goal = distance start goal := by
  have startLt := start.isLt
  have middleLt := middle.isLt
  have goalLt := goal.isLt
  simp only [distance_eq] at onTheWay ⊢
  split_ifs at onTheWay ⊢ <;> omega

theorem scan_none {ready : Fin n → Bool} {tries : Nat} {start : Fin n}
    (absent : scan ready tries start = none) :
    ∀ goal, distance start goal < tries → ready goal = false := by
  induction tries generalizing start with
  | zero =>
      intro goal impossible
      omega
  | succ tries ih =>
      intro goal near
      rw [scan] at absent
      split at absent
      · cases absent
      · rename_i notHere
        by_cases here : start = goal
        · rw [← here]
          exact Bool.eq_false_of_not_eq_true notHere
        · have step := distance_next here
          exact ih absent goal (by omega)

theorem scan_some {ready : Fin n → Bool} {tries : Nat} {start found : Fin n}
    (result : scan ready tries start = some found) :
    ready found = true ∧
      ∀ goal, distance start goal < distance start found → ready goal = false := by
  induction tries generalizing start with
  | zero => cases result
  | succ tries ih =>
      rw [scan] at result
      split at result
      · rename_i here
        cases result
        refine ⟨here, ?_⟩
        intro goal nearer
        rw [distance_self] at nearer
        omega
      · rename_i notHere
        obtain ⟨isReady, first⟩ := ih result
        refine ⟨isReady, ?_⟩
        intro goal nearer
        have different : start ≠ found := by
          intro same
          rw [same] at notHere
          exact notHere isReady
        by_cases here : start = goal
        · rw [← here]
          exact Bool.eq_false_of_not_eq_true notHere
        · have foundStep := distance_next different
          have goalStep := distance_next here
          exact first goal (by omega)

theorem scan_all_none {ready : Fin n → Bool} {start : Fin n}
    (absent : scan ready n (next start) = none) (goal : Fin n) : ready goal = false :=
  scan_none absent goal (distance_lt _ _)

/-- While another index is ready, a search ends at a new index that is nearer to it. -/
theorem scan_nearer {ready : Fin n → Bool} {start found goal : Fin n}
    (result : scan ready n (next start) = some found) (isReady : ready goal = true)
    (other : start ≠ goal) :
    found ≠ start ∧ distance found goal < distance start goal := by
  obtain ⟨_, first⟩ := scan_some result
  have onTheWay : distance (next start) found ≤ distance (next start) goal := by
    by_contra beyond
    have notReady := first goal (Nat.lt_of_not_le beyond)
    rw [isReady] at notReady
    cases notReady
  have step := distance_next other
  have parts := distance_split onTheWay
  have last := distance_next_self start
  have bound := distance_lt start goal
  refine ⟨?_, by omega⟩
  intro same
  rw [same] at onTheWay
  omega

end CyclicScan
