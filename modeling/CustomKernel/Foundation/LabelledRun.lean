/-
Finite runs of a partial labelled step function.

A step that yields `none` stops the system: it has no successor and no run
passes through it.  A run is the fold of its label list, so a prefix of a run is
a run and every reached state is the end of some run.  Guarded runs record a
condition on each label and the state in which it is taken.
-/

import Mathlib.Data.List.Basic

set_option autoImplicit false

namespace LabelledRun

variable {State Label : Type*}

/-- Execute the labels in order, stopping at the first step without successor. -/
def exec (step : State → Label → Option State) : State → List Label → Option State
  | state, [] => some state
  | state, label :: rest =>
      match step state label with
      | none => none
      | some next => exec step next rest

/-- Every step of the run is taken in a state that meets the condition. -/
def Guarded (step : State → Label → Option State) (condition : State → Label → Prop) :
    State → List Label → Prop
  | _, [] => True
  | state, label :: rest =>
      condition state label ∧
        ∀ next, step state label = some next → Guarded step condition next rest

variable {step : State → Label → Option State}

def decideGuarded {condition : State → Label → Prop}
    [decideCondition : ∀ state label, Decidable (condition state label)] :
    (state : State) → (labels : List Label) → Decidable (Guarded step condition state labels)
  | _, [] => isTrue trivial
  | state, label :: rest =>
      match stepped : step state label with
      | none =>
          decidable_of_iff (condition state label)
            ⟨fun holds => ⟨holds, fun next continued => by
                rw [stepped] at continued
                cases continued⟩,
              fun guarded => guarded.1⟩
      | some next =>
          have : Decidable (Guarded step condition next rest) := decideGuarded next rest
          decidable_of_iff (condition state label ∧ Guarded step condition next rest)
            ⟨fun both => ⟨both.1, fun other continued => by
                rw [stepped] at continued
                cases continued
                exact both.2⟩,
              fun guarded => ⟨guarded.1, guarded.2 next stepped⟩⟩

instance {condition : State → Label → Prop}
    [∀ state label, Decidable (condition state label)] (state : State) (labels : List Label) :
    Decidable (Guarded step condition state labels) :=
  decideGuarded state labels

@[simp] theorem exec_nil (state : State) : exec step state [] = some state := rfl

theorem exec_cons_eq_some {state final : State} {label : Label} {rest : List Label} :
    exec step state (label :: rest) = some final ↔
      ∃ next, step state label = some next ∧ exec step next rest = some final := by
  simp only [exec]
  cases step state label with
  | none => simp
  | some next => simp

theorem exec_append_eq_some {state final : State} {first second : List Label} :
    exec step state (first ++ second) = some final ↔
      ∃ middle, exec step state first = some middle ∧ exec step middle second = some final := by
  induction first generalizing state with
  | nil => simp
  | cons label rest ih =>
      simp only [List.cons_append, exec_cons_eq_some, ih]
      constructor
      · rintro ⟨next, stepped, middle, before, after⟩
        exact ⟨middle, ⟨next, stepped, before⟩, after⟩
      · rintro ⟨middle, ⟨next, stepped, before⟩, after⟩
        exact ⟨next, stepped, middle, before, after⟩

theorem exec_invariant_of_guarded {invariant : State → Prop}
    {condition : State → Label → Prop}
    (preserved : ∀ state label next, invariant state → condition state label →
      step state label = some next → invariant next)
    {state final : State} {labels : List Label} (initial : invariant state)
    (guarded : Guarded step condition state labels)
    (reached : exec step state labels = some final) : invariant final := by
  induction labels generalizing state with
  | nil =>
      cases reached
      exact initial
  | cons label rest ih =>
      obtain ⟨next, stepped, continued⟩ := exec_cons_eq_some.mp reached
      exact ih (preserved state label next initial guarded.1 stepped)
        (guarded.2 next stepped) continued

theorem Guarded.cons {condition : State → Label → Prop} {state next : State} {label : Label}
    {rest : List Label} (stepped : step state label = some next) (holds : condition state label)
    (guarded : Guarded step condition next rest) :
    Guarded step condition state (label :: rest) := by
  refine ⟨holds, ?_⟩
  intro other also
  cases stepped.symm.trans also
  exact guarded

theorem Guarded.of_labels {property : Label → Prop} {state : State} {labels : List Label}
    (each : ∀ label, label ∈ labels → property label) :
    Guarded step (fun _ label => property label) state labels := by
  induction labels generalizing state with
  | nil => trivial
  | cons label rest ih =>
      constructor
      · exact each label (List.mem_cons_self ..)
      · intro next _
        exact ih (fun other member => each other (List.mem_cons_of_mem _ member))

theorem exec_invariant_of_labels {invariant : State → Prop} {property : Label → Prop}
    (preserved : ∀ state label next, invariant state → property label →
      step state label = some next → invariant next)
    {state final : State} {labels : List Label} (initial : invariant state)
    (each : ∀ label, label ∈ labels → property label)
    (reached : exec step state labels = some final) : invariant final :=
  exec_invariant_of_guarded preserved initial (Guarded.of_labels each) reached

/-- The run rule: what one step preserves, every run preserves. -/
theorem exec_invariant {invariant : State → Prop}
    (preserved : ∀ state label next, invariant state → step state label = some next →
      invariant next)
    {state final : State} {labels : List Label} (initial : invariant state)
    (reached : exec step state labels = some final) : invariant final := by
  have each (label : Label) (_ : label ∈ labels) : True := trivial
  exact exec_invariant_of_labels
    (fun state label next holds _ stepped => preserved state label next holds stepped)
    initial each reached

theorem Guarded.mono {weaker stronger : State → Label → Prop} {state : State}
    {labels : List Label} (implies : ∀ state label, stronger state label → weaker state label)
    (guarded : Guarded step stronger state labels) : Guarded step weaker state labels := by
  induction labels generalizing state with
  | nil => trivial
  | cons label rest ih =>
      exact ⟨implies state label guarded.1, fun next stepped => ih (guarded.2 next stepped)⟩

theorem Guarded.and_labels {condition : State → Label → Prop} {property : Label → Prop}
    {state : State} {labels : List Label} (guarded : Guarded step condition state labels)
    (each : ∀ label, label ∈ labels → property label) :
    Guarded step (fun state label => condition state label ∧ property label) state labels := by
  induction labels generalizing state with
  | nil => trivial
  | cons label rest ih =>
      refine ⟨⟨guarded.1, each label (List.mem_cons_self ..)⟩, ?_⟩
      intro next stepped
      exact ih (guarded.2 next stepped)
        (fun other member => each other (List.mem_cons_of_mem _ member))

theorem Guarded.of_append {condition : State → Label → Prop} {state : State}
    {first second : List Label} (guarded : Guarded step condition state (first ++ second)) :
    Guarded step condition state first := by
  induction first generalizing state with
  | nil => trivial
  | cons label rest ih => exact ⟨guarded.1, fun next stepped => ih (guarded.2 next stepped)⟩

theorem guarded_iff {condition : State → Label → Prop} {state : State} {labels : List Label} :
    Guarded step condition state labels ↔
      ∀ before label after middle, labels = before ++ label :: after →
        exec step state before = some middle → condition middle label := by
  induction labels generalizing state with
  | nil => simp [Guarded]
  | cons first rest ih =>
      constructor
      · rintro ⟨now, later⟩ before label after middle split reached
        cases before with
        | nil =>
            cases reached
            cases split
            exact now
        | cons head tail =>
            cases split
            obtain ⟨next, stepped, continued⟩ := exec_cons_eq_some.mp reached
            exact ih.mp (later next stepped) tail label after middle rfl continued
      · intro each
        refine ⟨each [] first rest state rfl rfl, ?_⟩
        intro next stepped
        refine ih.mpr ?_
        intro before label after middle split reached
        exact each (first :: before) label after middle (by rw [split]; rfl)
          (exec_cons_eq_some.mpr ⟨next, stepped, reached⟩)

/-- A property that each step keeps just under a condition holds at the end of a run just if
it held at its start and the run was guarded. -/
theorem exec_iff_guarded {invariant property : State → Prop}
    {condition : State → Label → Prop}
    (preserved : ∀ state label next, invariant state → step state label = some next →
      invariant next)
    (each : ∀ state label next, invariant state → step state label = some next →
      (property next ↔ property state ∧ condition state label))
    {state final : State} {labels : List Label} (initial : invariant state)
    (reached : exec step state labels = some final) :
    property final ↔ property state ∧ Guarded step condition state labels := by
  induction labels generalizing state with
  | nil =>
      cases reached
      exact ⟨fun holds => ⟨holds, trivial⟩, And.left⟩
  | cons label rest ih =>
      obtain ⟨next, stepped, continued⟩ := exec_cons_eq_some.mp reached
      rw [ih (preserved state label next initial stepped) continued,
        each state label next initial stepped, and_assoc]
      refine and_congr_right fun _ => and_congr_right fun _ => ?_
      constructor
      · intro guarded other same
        rw [stepped] at same
        cases same
        exact guarded
      · exact fun guarded => guarded next stepped

/-- A property holds in every state passed just if every step meets a condition, when the
condition keeps an invariant that implies the property, and the property after a step
taken under the invariant implies the condition. -/
theorem passed_iff_guarded {invariant property : State → Prop}
    {condition : State → Label → Prop}
    (preserved : ∀ state label next, invariant state → condition state label →
      step state label = some next → invariant next)
    (implied : ∀ state, invariant state → property state)
    (needed : ∀ state label next, invariant state → step state label = some next →
      property next → condition state label)
    {state final : State} {labels : List Label} (initial : invariant state)
    (reached : exec step state labels = some final) :
    (∀ first second middle, labels = first ++ second → exec step state first = some middle →
      property middle) ↔ Guarded step condition state labels := by
  constructor
  · intro passed
    induction labels generalizing state with
    | nil => trivial
    | cons label rest ih =>
        obtain ⟨next, stepped, continued⟩ := exec_cons_eq_some.mp reached
        have once : exec step state [label] = some next :=
          exec_cons_eq_some.mpr ⟨next, stepped, rfl⟩
        have now := needed state label next initial stepped
          (passed [label] rest next rfl once)
        constructor
        · exact now
        · intro other same
          rw [stepped] at same
          cases same
          apply ih (preserved state label next initial now stepped) continued
          intro first second middle split ran
          exact passed (label :: first) second middle (by rw [split]; rfl)
            (exec_cons_eq_some.mpr ⟨next, stepped, ran⟩)
  · intro guarded first second middle split ran
    subst split
    exact implied middle (exec_invariant_of_guarded preserved initial guarded.of_append ran)

end LabelledRun
