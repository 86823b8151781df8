/-
Computations that may stop and leave their state behind.

A result is the next state, or the state in which the computation has stopped.  What every
step keeps, whether it goes on or stops, holds of the state that a loop leaves; a loop
none of whose steps stops is the fold of its steps.
-/

import Mathlib.Data.List.Basic

set_option autoImplicit false

namespace KeptState

variable {State Item : Type*}

def left : Except State State → State
  | .ok state => state
  | .error state => state

theorem left_bind {property : State → Prop} {first : Except State State}
    {next : State → Except State State} (before : property (left first))
    (after : ∀ state, first = .ok state → property state → property (left (next state))) :
    property (left (first >>= next)) := by
  cases first with
  | error state => exact before
  | ok state => exact after state rfl before

theorem left_foldlM {property : State → Prop} {step : State → Item → Except State State}
    {items : List Item}
    (keeps : ∀ state item, item ∈ items → property state → property (left (step state item)))
    {state : State} (initial : property state) : property (left (items.foldlM step state)) := by
  induction items generalizing state with
  | nil => exact initial
  | cons item rest ih =>
      rw [List.foldlM_cons]
      apply left_bind (keeps state item (List.mem_cons_self ..) initial)
      intro next _ holds
      exact ih (fun other later member => keeps other later (List.mem_cons_of_mem _ member)) holds

theorem foldlM_goes_on (property : State → Prop) {step : State → Item → Except State State}
    {items : List Item}
    (keeps : ∀ state item, item ∈ items → property state →
      ∃ next, step state item = .ok next ∧ property next)
    {state : State} (initial : property state) :
    ∃ next, items.foldlM step state = .ok next ∧ property next := by
  induction items generalizing state with
  | nil => exact ⟨state, rfl, initial⟩
  | cons item rest ih =>
      obtain ⟨next, stepped, holds⟩ := keeps state item (List.mem_cons_self ..) initial
      rw [List.foldlM_cons, stepped]
      exact ih (fun other later member => keeps other later (List.mem_cons_of_mem _ member)) holds

theorem foldlM_eq_foldl (property : State → Prop) {step : State → Item → Except State State}
    {plain : State → Item → State} {items : List Item}
    (same : ∀ state item, item ∈ items → property state →
      step state item = .ok (plain state item) ∧ property (plain state item))
    {state : State} (initial : property state) :
    items.foldlM step state = .ok (items.foldl plain state) := by
  induction items generalizing state with
  | nil => rfl
  | cons item rest ih =>
      obtain ⟨stepped, holds⟩ := same state item (List.mem_cons_self ..) initial
      rw [List.foldlM_cons, stepped, List.foldl_cons]
      exact ih (fun other later member => same other later (List.mem_cons_of_mem _ member)) holds

end KeptState
