/-
Texts that can be read back.

A printer writes a value in front of what is printed later.  It can be read back if the
whole text determines what was to be seen of the value, and where the rest begins.  Fixed
words, fields of one width, runs of marked symbols and lists with an end can be read back,
and so can texts put together from such parts.
-/

import Mathlib.Data.List.Basic
import Mathlib.Data.Prod.Basic

set_option autoImplicit false

namespace Readback

variable {Value Symbol Seen Further : Type*}

/-- Equal texts, with something allowed behind, show the same and leave the same rest. -/
def Reads (text : Value → List Symbol) (seen : Value → Seen) (behind : List Symbol → Prop) : Prop :=
  ∀ left right leftRest rightRest, behind leftRest → behind rightRest →
    text left ++ leftRest = text right ++ rightRest → seen left = seen right ∧ leftRest = rightRest

variable {text first second : Value → List Symbol} {seen : Value → Seen}
  {further : Value → Further} {behind between : List Symbol → Prop}

/-- With nothing behind, the text determines what is seen. -/
theorem Reads.determines (reads : Reads text seen behind) (ends : behind []) {left right : Value}
    (same : text left = text right) : seen left = seen right := by
  apply (reads left right [] [] ends ends _).1
  rw [List.append_nil, List.append_nil, same]

theorem Reads.map (reads : Reads text seen behind) (image : Seen → Further) :
    Reads text (fun value => image (seen value)) behind := by
  intro left right leftRest rightRest leftBehind rightBehind same
  obtain ⟨equal, rest⟩ := reads left right leftRest rightRest leftBehind rightBehind same
  exact ⟨congrArg image equal, rest⟩

theorem Reads.of_part {Whole : Type*} (reads : Reads text seen behind) (part : Whole → Value) :
    Reads (fun whole => text (part whole)) (fun whole => seen (part whole)) behind :=
  fun left right => reads (part left) (part right)

/-! ### Parts -/

theorem reads_word (word : List Symbol) (behind : List Symbol → Prop) :
    Reads (fun _ : Value => word) (fun _ => ()) behind :=
  fun _ _ _ _ _ _ same => ⟨rfl, List.append_cancel_left same⟩

theorem reads_field {width : Nat} (length : ∀ value, (text value).length = width)
    (behind : List Symbol → Prop) : Reads text text behind :=
  fun left right _ _ _ _ same =>
    List.append_inj same ((length left).trans (length right).symm)

/-- The rest does not begin with a marked symbol. -/
def Stops (marked : Symbol → Prop) (rest : List Symbol) : Prop :=
  ∀ symbol, rest.head? = some symbol → ¬ marked symbol

theorem stops_append {marked : Symbol → Prop} {first : List Symbol} {symbol : Symbol}
    (head : first.head? = some symbol) (other : ¬ marked symbol) (rest : List Symbol) :
    Stops marked (first ++ rest) := by
  intro found same
  rw [List.head?_append, head] at same
  cases same
  exact other

theorem reads_run {marked : Symbol → Prop}
    (all : ∀ value symbol, symbol ∈ text value → marked symbol) :
    Reads text text (Stops marked) := by
  have runs (left right leftRest rightRest : List Symbol)
      (leftMarked : ∀ symbol, symbol ∈ left → marked symbol)
      (rightMarked : ∀ symbol, symbol ∈ right → marked symbol)
      (leftStops : Stops marked leftRest) (rightStops : Stops marked rightRest)
      (same : left ++ leftRest = right ++ rightRest) : left = right ∧ leftRest = rightRest := by
    induction left generalizing right with
    | nil =>
        cases right with
        | nil => exact ⟨rfl, same⟩
        | cons symbol rest =>
            have head : leftRest.head? = some symbol := congrArg List.head? same
            exact absurd (rightMarked symbol (List.mem_cons_self ..)) (leftStops symbol head)
    | cons symbol rest ih =>
        cases right with
        | nil =>
            have head : rightRest.head? = some symbol := (congrArg List.head? same).symm
            exact absurd (leftMarked symbol (List.mem_cons_self ..)) (rightStops symbol head)
        | cons other others =>
            obtain ⟨sameHead, sameTail⟩ := List.cons.inj same
            obtain ⟨equal, rests⟩ := ih others
              (fun later member => leftMarked later (List.mem_cons_of_mem _ member))
              (fun later member => rightMarked later (List.mem_cons_of_mem _ member)) sameTail
            exact ⟨by rw [sameHead, equal], rests⟩
  intro left right leftRest rightRest leftStops rightStops same
  exact runs _ _ _ _ (all left) (all right) leftStops rightStops same

/-- A short text up to a word of two symbols, which may occur in the text, but does not begin
near the beginning of the rest. -/
theorem reads_short {size : Nat} {mark last : Symbol} (different : mark ≠ last)
    (short : ∀ value, (text value).length ≤ size) :
    Reads (fun value => text value ++ [mark, last]) text
      (fun rest => ∀ index, index + 1 < size → rest[index]? ≠ some mark) := by
  have notShorter (left right leftRest rightRest : List Symbol) (bounded : right.length ≤ size)
      (far : ∀ index, index + 1 < size → leftRest[index]? ≠ some mark)
      (same : left ++ [mark, last] ++ leftRest = right ++ [mark, last] ++ rightRest) :
      right.length ≤ left.length := by
    by_contra longer
    obtain ⟨gap, length⟩ := Nat.exists_eq_add_of_lt (Nat.lt_of_not_le longer)
    have symbol := congrArg (fun symbols => symbols[right.length]?) same
    simp only [List.append_assoc] at symbol
    rw [List.getElem?_append_right (Nat.le_refl _), Nat.sub_self,
      List.getElem?_append_right (by omega), length] at symbol
    -- The mark behind the longer text is the last symbol or lies in the rest.
    cases gap with
    | zero =>
        rw [show left.length + 0 + 1 - left.length = 1 by omega] at symbol
        exact different (Option.some.inj symbol).symm
    | succ gap =>
        rw [show left.length + (gap + 1) + 1 - left.length = gap + 2 by omega] at symbol
        exact far gap (by omega) symbol
  intro left right leftRest rightRest leftFar rightFar same
  have lengths : (text left).length = (text right).length :=
    Nat.le_antisymm (notShorter _ _ _ _ (short left) rightFar same.symm)
      (notShorter _ _ _ _ (short right) leftFar same)
  rw [List.append_assoc, List.append_assoc] at same
  obtain ⟨texts, rests⟩ := List.append_inj same lengths
  exact ⟨texts, List.append_cancel_left rests⟩

/-! ### Texts put together -/

theorem Reads.append (before : Reads first seen between) (after : Reads second further behind)
    (follows : ∀ value rest, behind rest → between (second value ++ rest)) :
    Reads (fun value => first value ++ second value) (fun value => (seen value, further value))
      behind := by
  intro left right leftRest rightRest leftBehind rightBehind same
  rw [List.append_assoc, List.append_assoc] at same
  obtain ⟨firstSame, rests⟩ := before left right _ _ (follows left _ leftBehind)
    (follows right _ rightBehind) same
  obtain ⟨secondSame, remaining⟩ := after left right _ _ leftBehind rightBehind rests
  exact ⟨Prod.ext firstSame secondSame, remaining⟩

theorem Reads.repeated (before : Reads first seen between)
    (known : ∀ left right, seen left = seen right → second left = second right)
    (follows : ∀ value rest, behind rest → between (second value ++ rest)) :
    Reads (fun value => first value ++ second value) seen behind := by
  intro left right leftRest rightRest leftBehind rightBehind same
  rw [List.append_assoc, List.append_assoc] at same
  obtain ⟨firstSame, rests⟩ := before left right _ _ (follows left _ leftBehind)
    (follows right _ rightBehind) same
  rw [known left right firstSame] at rests
  exact ⟨firstSame, List.append_cancel_left rests⟩

theorem reads_labelled {Field : Type*} {write : Field → List Symbol}
    (field : ∀ behind, Reads write id behind) (fields : List (List Symbol × (Value → Field)))
    (behind : List Symbol → Prop) :
    Reads (fun value => fields.flatMap fun entry => entry.1 ++ write (entry.2 value))
      (fun value => fields.map fun entry => entry.2 value) behind := by
  induction fields with
  | nil => exact fun _ _ _ _ _ _ same => ⟨rfl, same⟩
  | cons entry rest ih =>
      have value : Reads (fun value => write (entry.2 value)) (fun value => entry.2 value)
          (fun _ => True) := (field _).of_part entry.2
      have both := ((reads_word entry.1 (fun _ => True)).append value (fun _ _ _ => trivial)).append
        ih (fun _ _ _ => trivial)
      exact both.map fun seen => seen.1.2 :: seen.2

/-- Items one behind another, up to an end that no item begins with. -/
theorem Reads.list {stop : List Symbol} (item : Reads text seen between)
    (different : ∀ value rest other, text value ++ rest ≠ stop ++ other)
    (next : ∀ value rest, between (text value ++ rest)) (last : ∀ rest, between (stop ++ rest)) :
    Reads (fun values : List Value => values.flatMap text ++ stop)
      (fun values => values.map seen) behind := by
  have more (values : List Value) (rest : List Symbol) :
      between (values.flatMap text ++ stop ++ rest) := by
    cases values with
    | nil => exact last rest
    | cons value others =>
        rw [List.flatMap_cons, List.append_assoc, List.append_assoc]
        exact next value _
  intro left
  induction left with
  | nil =>
      intro right leftRest rightRest _ _ same
      cases right with
      | nil => exact ⟨rfl, List.append_cancel_left same⟩
      | cons value others =>
          simp only [List.flatMap_cons, List.flatMap_nil, List.nil_append,
            List.append_assoc] at same
          exact absurd same.symm (different value _ _)
  | cons value others ih =>
      intro right leftRest rightRest leftBehind rightBehind same
      cases right with
      | nil =>
          simp only [List.flatMap_cons, List.flatMap_nil, List.nil_append,
            List.append_assoc] at same
          exact absurd same (different value _ _)
      | cons other rest =>
          simp only [List.flatMap_cons, List.append_assoc] at same
          obtain ⟨head, tails⟩ := item value other _ _
            (by rw [← List.append_assoc]; exact more others leftRest)
            (by rw [← List.append_assoc]; exact more rest rightRest) same
          simp only [← List.append_assoc] at tails
          obtain ⟨equal, remaining⟩ := ih rest leftRest rightRest leftBehind rightBehind
            tails
          refine ⟨?_, remaining⟩
          dsimp only at equal ⊢
          rw [List.map_cons, List.map_cons, head, equal]

end Readback
