/-
Words between separators.

The words of a line are its maximal runs of symbols that are not separators.  Separators
around a line do not change its words, and a first word that ends at a separator or at the
end of the line comes before the words of the rest.
-/

import Mathlib.Data.List.Basic

set_option autoImplicit false

namespace Words

variable {Symbol : Type*} (separates : Symbol → Bool)

def words (line : List Symbol) : List (List Symbol) :=
  (line.splitOnP separates).filter fun word => !word.isEmpty

def Blank (line : List Symbol) : Prop := ∀ symbol, symbol ∈ line → separates symbol = true

def Solid (line : List Symbol) : Prop := ∀ symbol, symbol ∈ line → separates symbol = false

structure Tight (line : List Symbol) : Prop where
  first : ∃ symbol rest, line = symbol :: rest ∧ separates symbol = false
  last : ∃ before symbol, line = before ++ [symbol] ∧ separates symbol = false

variable {separates} {line lead word text trail rest : List Symbol}

/-! ### The words of a line -/

theorem words_cons_separator {symbol : Symbol} (separator : separates symbol = true)
    (line : List Symbol) : words separates (symbol :: line) = words separates line := by
  unfold words
  rw [List.splitOnP_cons_eq_if_modifyHead, if_pos separator]
  rfl

theorem words_lead (blank : Blank separates lead) (line : List Symbol) :
    words separates (lead ++ line) = words separates line := by
  induction lead with
  | nil => rfl
  | cons symbol rest ih =>
      rw [List.cons_append, words_cons_separator (blank symbol (List.mem_cons_self ..))]
      exact ih (List.forall_mem_cons.mp blank).2

theorem words_blank (blank : Blank separates line) : words separates line = [] := by
  rw [← List.append_nil line, words_lead blank]
  rfl

theorem filter_solid (written : word ≠ []) (rest : List (List Symbol)) :
    (word :: rest).filter (fun each => !each.isEmpty) =
      word :: rest.filter (fun each => !each.isEmpty) := by
  apply List.filter_cons_of_pos
  simpa using written

theorem words_solid (solid : Solid separates word) (written : word ≠ []) :
    words separates word = [word] := by
  unfold words
  rw [List.splitOnP_eq_singleton solid, filter_solid written]
  rfl

theorem words_first (solid : Solid separates word) (written : word ≠ []) {symbol : Symbol}
    (separator : separates symbol = true) (rest : List Symbol) :
    words separates (word ++ symbol :: rest) = word :: words separates rest := by
  unfold words
  rw [List.splitOnP_append_cons_of_forall_mem solid symbol separator, filter_solid written]

theorem words_trail (blank : Blank separates trail) (line : List Symbol) :
    words separates (line ++ trail) = words separates line := by
  cases trail with
  | nil => rw [List.append_nil]
  | cons symbol rest =>
      have tail : words separates rest = [] :=
        words_blank (List.forall_mem_cons.mp blank).2
      unfold words at tail ⊢
      rw [List.splitOnP_append_cons line rest (blank symbol (List.mem_cons_self ..)),
        List.filter_append, tail, List.append_nil]

/-! ### The parts of a line -/

theorem Tight.not_nil (tight : Tight separates line) : line ≠ [] := by
  rcases tight.first with ⟨symbol, rest, same, _⟩
  rw [same]
  exact List.cons_ne_nil symbol rest

theorem blank_or_tight (separates : Symbol → Bool) (line : List Symbol) :
    Blank separates line ∨
      ∃ lead text trail, line = lead ++ (text ++ trail) ∧ Blank separates lead ∧
        Blank separates trail ∧ Tight separates text := by
  induction line with
  | nil => exact Or.inl (List.forall_mem_nil _)
  | cons symbol rest ih =>
      cases separator : separates symbol with
      | true =>
          rcases ih with blank | ⟨lead, text, trail, same, leading, trailing, tight⟩
          · exact Or.inl (List.forall_mem_cons.mpr ⟨separator, blank⟩)
          · exact Or.inr ⟨symbol :: lead, text, trail, by rw [same]; rfl,
              List.forall_mem_cons.mpr ⟨separator, leading⟩, trailing, tight⟩
      | false =>
          right
          rcases ih with blank | ⟨lead, text, trail, same, leading, trailing, tight⟩
          · refine ⟨[], [symbol], rest, rfl, List.forall_mem_nil _, blank, ?_⟩
            exact ⟨⟨symbol, [], rfl, separator⟩, ⟨[], symbol, rfl, separator⟩⟩
          · refine ⟨[], symbol :: (lead ++ text), trail, ?_, List.forall_mem_nil _, trailing, ?_⟩
            · rw [same]
              simp
            · rcases tight.last with ⟨before, last, ends, solid⟩
              refine ⟨⟨symbol, lead ++ text, rfl, separator⟩, symbol :: (lead ++ before), last, ?_,
                solid⟩
              rw [ends]
              simp

theorem solid_front (separates : Symbol → Bool) (line : List Symbol) :
    ∃ word, Solid separates word ∧
      (line = word ∨ ∃ symbol rest, line = word ++ symbol :: rest ∧ separates symbol = true) := by
  induction line with
  | nil => exact ⟨[], List.forall_mem_nil _, Or.inl rfl⟩
  | cons symbol rest ih =>
      cases separator : separates symbol with
      | true =>
          exact ⟨[], List.forall_mem_nil _, Or.inr ⟨symbol, rest, rfl, separator⟩⟩
      | false =>
          rcases ih with ⟨word, solid, ends⟩
          refine ⟨symbol :: word, List.forall_mem_cons.mpr ⟨separator, solid⟩, ?_⟩
          rcases ends with whole | ⟨stop, after, same, stops⟩
          · exact Or.inl (by rw [whole])
          · exact Or.inr ⟨stop, after, by rw [same]; rfl, stops⟩

end Words
