/-
The command line.

`execute` trims the line, splits off its first word and lets the command split the rest.
Slices are checked, and an index out of range ends the call.  The words that the commands
see are the words of the line, and `echo` and `synwrite` see the text from the second word
to the last.
-/

import CustomKernel.Foundation.Words
import CustomKernel.Shell.NumberParsing

set_option autoImplicit false

namespace CustomKernel.SimpleShell

open Ui
open Device (Byte)
open Words (Blank Solid Tight)

/-! ### Slices -/

def sliceFrom (s : List Byte) (start : Nat) : Option (List Byte) :=
  if start ≤ s.length then some (s.drop start) else none

def sliceTo (s : List Byte) (stop : Nat) : Option (List Byte) :=
  if stop ≤ s.length then some (s.take stop) else none

/-- The last index whose byte meets the condition. -/
def rposition (s : List Byte) (condition : Byte → Bool) : Option Nat :=
  (s.reverse.findIdx? condition).map fun distance => s.length - 1 - distance

def isSpace (b : Byte) : Bool := b = 32#8

def trimEnd (s : List Byte) : Option (List Byte) :=
  match rposition s (fun b => !isSpace b) with
  | none => some s
  | some i => sliceTo s (i + 1)

/-- Without a result a slice index is out of range. -/
def trimAscii (s : List Byte) : Option (List Byte) :=
  match s.findIdx? (fun b => !isSpace b) with
  | none => some []
  | some i => do
      let s ← sliceFrom s i
      trimEnd s

def splitFirstWord (s : List Byte) : Option (List Byte × List Byte) :=
  match s.findIdx? isSpace with
  | none => some (s, [])
  | some i => do
      let word ← sliceTo s i
      let rest ← sliceFrom s (i + 1)
      some (word, rest)

/-! ### Commands -/

/-- The commands without arguments that reach beyond the terminal, and the help text. -/
inductive Builtin where
  | help
  | reboot
  | meminfo
  | memtest
  | heap
  | pgfault
  | divzero
  | intopcode
  | breakpoint
  | dfault
  | uptime
  deriving DecidableEq, Repr

inductive Command where
  | builtin (command : Builtin)
  | cls
  | echo (text : List Byte)
  | color (fg bg : Option Nat)
  | sleep (secs : Nat)
  | synwrite (text : List Byte)
  | unknown (verb : List Byte)
  deriving DecidableEq, Repr

def ascii (verb : String) : List Byte := verb.toList.map fun c => BitVec.ofNat 8 c.toNat

def builtins : List (List Byte × Builtin) :=
  [(ascii "help", .help), (ascii "reboot", .reboot), (ascii "meminfo", .meminfo),
    (ascii "memtest", .memtest), (ascii "heap", .heap), (ascii "pgfault", .pgfault),
    (ascii "divzero", .divzero), (ascii "intopcode", .intopcode),
    (ascii "breakpoint", .breakpoint), (ascii "dfault", .dfault), (ascii "uptime", .uptime)]

def selectCommand (verb rest : List Byte) : Option Command :=
  match builtins.lookup verb with
  | some command => some (.builtin command)
  | none =>
      if verb = ascii "cls" then some .cls
      else if verb = ascii "echo" then do
        let text ← trimAscii rest
        some (.echo text)
      else if verb = ascii "color" then do
        let (fgS, rest2) ← splitFirstWord (← trimAscii rest)
        let (bgS, _) ← splitFirstWord (← trimAscii rest2)
        some (.color (parseHex6 fgS) (parseHex6 bgS))
      else if verb = ascii "sleep" then do
        let (secsS, _) ← splitFirstWord (← trimAscii rest)
        some (.sleep ((parseDecimal secsS).getD 1))
      else if verb = ascii "synwrite" then do
        let text ← trimAscii rest
        some (.synwrite text)
      else some (.unknown verb)

/-- What the shell calls elsewhere in the kernel. -/
structure System where
  builtin : Builtin → Terminal → Except Terminal Terminal
  sleepMs : Nat → Terminal → Except Terminal Terminal
  sysWrite : List Byte → Terminal → Except Terminal Terminal

/-- The milliseconds that the sleep command asks for; 32-bit seconds do not wrap. -/
def sleepArgument (secs : Nat) : Nat := Word64.mul secs 1000

def runCommand (font : FontBytes) (system : System) (term : Terminal) :
    Command → Except Terminal Terminal
  | .builtin command => system.builtin command term
  | .cls => .ok term.clear
  | .echo text => do
      let shown ← term.printBytes font text
      shown.putc font '\n'
  | .color (some fg) (some bg) =>
      (term.setColor (BitVec.ofNat 32 fg) (BitVec.ofNat 32 bg)).print font
        "Color updated.\n".toList
  | .color _ _ => term.print font "Usage: color RRGGBB RRGGBB\n".toList
  | .sleep secs => do
      let opened ← term.print font "Sleeping ".toList
      let counted ← printUsize font opened (BitVec.ofNat 64 secs)
      let closed ← counted.print font "s...\n".toList
      let slept ← system.sleepMs (sleepArgument secs) closed
      slept.print font "Awake.\n".toList
  | .synwrite text => do
      let opened ← term.print font "via syscall: ".toList
      let written ← system.sysWrite text opened
      written.putc font '\n'
  | .unknown verb => do
      let opened ← term.print font "Unknown command: ".toList
      let shown ← opened.printBytes font verb
      shown.print font "\nType 'help' for a list of commands.\n".toList

/-- The command of a line: no result when a slice is out of range, and none when the line is
blank. -/
def parseLine (line : List Byte) : Option (Option Command) := do
  let cmdStr ← trimAscii line
  if cmdStr = [] then some none
  else do
    let (verb, rest) ← splitFirstWord cmdStr
    let command ← selectCommand verb rest
    some (some command)

def execute (font : FontBytes) (system : System) (shell : Shell) (term : Terminal) :
    Except Terminal Terminal :=
  match parseLine shell.line with
  | none => .error term
  | some none => .ok term
  | some (some command) => runCommand font system term command

/-! ### The slices -/

theorem findIdx?_front {condition : Byte → Bool} {front : List Byte}
    (fails : ∀ b, b ∈ front → condition b = false) {b : Byte} (meets : condition b = true)
    (rest : List Byte) : (front ++ b :: rest).findIdx? condition = some front.length := by
  induction front with
  | nil => rw [List.nil_append, List.findIdx?_cons, if_pos meets]; rfl
  | cons first front ih =>
      have both := List.forall_mem_cons.mp fails
      rw [List.cons_append, List.findIdx?_cons, both.1, ih both.2]
      rfl

theorem trimAscii_blank {s : List Byte} (blank : Blank isSpace s) : trimAscii s = some [] := by
  have absent : s.findIdx? (fun b => !isSpace b) = none := by
    rw [List.findIdx?_eq_none_iff]
    intro b member
    rw [blank b member]
    rfl
  rw [trimAscii, absent]

theorem trimAscii_tight {lead text trail : List Byte} (leading : Blank isSpace lead)
    (trailing : Blank isSpace trail) (tight : Tight isSpace text) :
    trimAscii (lead ++ (text ++ trail)) = some text := by
  have fails {line : List Byte} (blank : Blank isSpace line) (b : Byte) (member : b ∈ line) :
      (!isSpace b) = false := by
    rw [blank b member]
    rfl
  rcases tight.first with ⟨first, rest, begins, solid⟩
  rcases tight.last with ⟨before, last, ends, solidLast⟩
  have start : (lead ++ (text ++ trail)).findIdx? (fun b => !isSpace b) = some lead.length := by
    rw [begins]
    exact findIdx?_front (fails leading) (by rw [solid]; rfl) _
  have sliced : sliceFrom (lead ++ (text ++ trail)) lead.length = some (text ++ trail) := by
    rw [sliceFrom, if_pos (by rw [List.length_append]; omega), List.drop_left]
  have reversed : (text ++ trail).reverse = trail.reverse ++ last :: before.reverse := by
    rw [ends]
    simp
  have stop : rposition (text ++ trail) (fun b => !isSpace b) = some before.length := by
    rw [rposition, reversed, findIdx?_front (fun b member => fails trailing b
      (List.mem_reverse.mp member)) (by rw [solidLast]; rfl), Option.map_some, ends]
    simp only [List.length_append, List.length_reverse, List.length_singleton]
    congr 1
    omega
  have length : text.length = before.length + 1 := by
    rw [ends, List.length_append, List.length_singleton]
  have front : trimAscii (lead ++ (text ++ trail)) = trimEnd (text ++ trail) := by
    rw [trimAscii, start]
    dsimp only
    rw [sliced]
    rfl
  rw [front, trimEnd, stop]
  dsimp only
  rw [sliceTo, ← length, if_pos (by rw [List.length_append]; omega), List.take_left]

theorem splitFirstWord_solid {word : List Byte} (solid : Solid isSpace word) :
    splitFirstWord word = some (word, []) := by
  rw [splitFirstWord, List.findIdx?_eq_none_iff.mpr solid]

theorem splitFirstWord_separated {word : List Byte} (solid : Solid isSpace word) {b : Byte}
    (space : isSpace b = true) (rest : List Byte) :
    splitFirstWord (word ++ b :: rest) = some (word, rest) := by
  have length : (word ++ b :: rest).length = word.length + 1 + rest.length := by
    rw [List.length_append, List.length_cons]
    omega
  have after : (word ++ b :: rest).drop (word.length + 1) = rest := by
    rw [List.drop_append]
    simp
  rw [splitFirstWord, findIdx?_front solid space]
  dsimp only
  rw [sliceTo, if_pos (by omega), List.take_left, sliceFrom, if_pos (by omega), after]
  rfl

/-! ### Words -/

abbrev words (line : List Byte) : List (List Byte) := Words.words isSpace line

/-- The text from the first byte of the second word to the last byte of the last one, which
is empty when there is no second word. -/
def IsArguments (line text : List Byte) : Prop :=
  (text = [] ∧ (words line).tail = []) ∨
    ∃ before after, line = before ++ (text ++ after) ∧
      (∃ word, words before = [word]) ∧ before.getLast? = some 32#8 ∧
      Blank isSpace after ∧ Tight isSpace text

theorem trimAscii_words (s : List Byte) :
    ∃ text, trimAscii s = some text ∧ words text = words s ∧
      (text = [] ∧ words s = [] ∨
        ∃ lead trail, s = lead ++ (text ++ trail) ∧ Blank isSpace lead ∧ Blank isSpace trail ∧
          Tight isSpace text) := by
  rcases Words.blank_or_tight isSpace s with blank | ⟨lead, text, trail, same, leading, trailing, tight⟩
  · have none := Words.words_blank blank
    exact ⟨[], trimAscii_blank blank, none.symm, Or.inl ⟨rfl, none⟩⟩
  · refine ⟨text, ?_, ?_, Or.inr ⟨lead, trail, same, leading, trailing, tight⟩⟩
    · rw [same]
      exact trimAscii_tight leading trailing tight
    · rw [same]
      exact ((Words.words_lead leading _).trans (Words.words_trail trailing text)).symm

theorem splitFirstWord_tight {text : List Byte} (tight : Tight isSpace text) :
    ∃ word rest, splitFirstWord text = some (word, rest) ∧ words text = word :: words rest ∧
      Solid isSpace word ∧ word ≠ [] ∧ (text = word ∧ rest = [] ∨ text = word ++ 32#8 :: rest) := by
  rcases tight.first with ⟨first, tail, begins, solidFirst⟩
  rcases Words.solid_front isSpace text with ⟨word, solid, whole | ⟨b, rest, same, space⟩⟩
  · have nonempty : word ≠ [] := whole ▸ tight.not_nil
    refine ⟨word, [], ?_, ?_, solid, nonempty, Or.inl ⟨whole, rfl⟩⟩
    · rw [whole]
      exact splitFirstWord_solid solid
    · rw [whole]
      exact Words.words_solid solid nonempty
  · have nonempty : word ≠ [] := by
      rintro rfl
      rw [List.nil_append, begins] at same
      rw [(List.cons.inj same).1, space] at solidFirst
      cases solidFirst
    have byte : b = 32#8 := of_decide_eq_true space
    refine ⟨word, rest, ?_, ?_, solid, nonempty, Or.inr (byte ▸ same)⟩
    · rw [same]
      exact splitFirstWord_separated solid space rest
    · rw [same]
      exact Words.words_first solid nonempty space rest

/-- The first word, which is empty when there is none, and a rest with the other words. -/
theorem trim_then_split (s : List Byte) :
    ∃ text word rest, trimAscii s = some text ∧ splitFirstWord text = some (word, rest) ∧
      word = (words s).headD [] ∧ words rest = (words s).tail := by
  rcases trimAscii_words s with ⟨text, trimmed, same, ⟨empty, none⟩ | ⟨_, _, _, _, _, tight⟩⟩
  · subst empty
    rw [none]
    exact ⟨[], [], [], trimmed, splitFirstWord_solid (List.forall_mem_nil _), rfl, rfl⟩
  · rcases splitFirstWord_tight tight with ⟨word, rest, split, whole, _⟩
    rw [← same, whole]
    exact ⟨text, word, rest, trimmed, split, rfl, rfl⟩

/-! ### Every line -/

/-- The command of a line, by its first word, its other words and the text of these. -/
def meant (verb : List Byte) (arguments : List (List Byte)) (text : List Byte) : Command :=
  match builtins.lookup verb with
  | some command => .builtin command
  | none =>
      if verb = ascii "cls" then .cls
      else if verb = ascii "echo" then .echo text
      else if verb = ascii "color" then
        .color (parseHex6 (arguments.headD [])) (parseHex6 (arguments.tail.headD []))
      else if verb = ascii "sleep" then .sleep ((parseDecimal (arguments.headD [])).getD 1)
      else if verb = ascii "synwrite" then .synwrite text
      else .unknown verb

theorem selectCommand_eq (verb : List Byte) {rest text : List Byte}
    (trimmed : trimAscii rest = some text) :
    selectCommand verb rest = some (meant verb (words rest) text) := by
  rcases trim_then_split rest with ⟨same, second, rest2, again, split, secondEq, others⟩
  rcases trim_then_split rest2 with ⟨text2, third, rest3, trimmed2, split2, thirdEq, _⟩
  rw [trimmed] at again
  cases again
  rw [others] at thirdEq
  unfold selectCommand meant
  rw [trimmed, ← secondEq, ← thirdEq]
  cases builtins.lookup verb with
  | some command => rfl
  | none =>
      dsimp only
      by_cases cls : verb = ascii "cls"
      · rw [if_pos cls, if_pos cls]
      · rw [if_neg cls, if_neg cls]
        by_cases echo : verb = ascii "echo"
        · rw [if_pos echo, if_pos echo]
          rfl
        · rw [if_neg echo, if_neg echo]
          by_cases color : verb = ascii "color"
          · rw [if_pos color, if_pos color]
            simp only [Option.bind_eq_bind, Option.bind_some, split, trimmed2, split2]
          · rw [if_neg color, if_neg color]
            by_cases sleep : verb = ascii "sleep"
            · rw [if_pos sleep, if_pos sleep]
              simp only [Option.bind_eq_bind, Option.bind_some, split]
            · rw [if_neg sleep, if_neg sleep]
              by_cases synwrite : verb = ascii "synwrite"
              · rw [if_pos synwrite, if_pos synwrite]
                rfl
              · rw [if_neg synwrite, if_neg synwrite]

theorem getLast?_spaces {front spaces : List Byte} (blank : Blank isSpace spaces) :
    (front ++ 32#8 :: spaces).getLast? = some 32#8 := by
  have all : Blank isSpace (32#8 :: spaces) := List.forall_mem_cons.mpr ⟨rfl, blank⟩
  rw [List.getLast?_append_of_ne_nil _ (List.cons_ne_nil _ _),
    List.getLast?_eq_getLast_of_ne_nil (List.cons_ne_nil _ _)]
  exact congrArg some (of_decide_eq_true (all _ (List.getLast_mem (List.cons_ne_nil _ _))))

theorem parseLine_blank {line : List Byte} (none : words line = []) :
    parseLine line = some (Option.none : Option Command) := by
  rcases trimAscii_words line with ⟨text, trimmed, same, ⟨empty, _⟩ | ⟨_, _, _, _, _, tight⟩⟩
  · subst empty
    rw [parseLine, trimmed]
    rfl
  · rcases splitFirstWord_tight tight with ⟨word, rest, _, whole, _⟩
    rw [same, none] at whole
    cases whole

theorem parseLine_words {line verb : List Byte} {arguments : List (List Byte)}
    (split : words line = verb :: arguments) :
    ∃ text, IsArguments line text ∧
      parseLine line = some (some (meant verb arguments text)) := by
  rcases trimAscii_words line with
    ⟨cmdStr, trimmed, same, ⟨_, none⟩ | ⟨lead, trail, whole, leading, trailing, tight⟩⟩
  · rw [split] at none
    cases none
  · rcases splitFirstWord_tight tight with ⟨word, rest, cut, listed, solid, written, ends⟩
    rw [same, split] at listed
    have verbEq := (List.cons.inj listed).1
    have argumentsEq := (List.cons.inj listed).2
    rcases trimAscii_words rest with ⟨text, trimmedRest, _, place⟩
    refine ⟨text, ?_, ?_⟩
    · rcases place with ⟨empty, none⟩ | ⟨lead2, trail2, inside, leading2, trailing2, tightText⟩
      · left
        rw [split]
        exact ⟨empty, argumentsEq.trans none⟩
      · right
        rcases ends with ⟨_, nothing⟩ | front
        · rw [nothing] at inside
          have absent := (List.append_eq_nil_iff.mp
            (List.append_eq_nil_iff.mp inside.symm).2).1
          exact absurd absent tightText.not_nil
        · refine ⟨lead ++ (word ++ 32#8 :: lead2), trail2 ++ trail, ?_, ⟨word, ?_⟩, ?_, ?_,
            tightText⟩
          · rw [whole, front, inside]
            simp
          · rw [words, Words.words_lead leading, Words.words_first solid written rfl,
              Words.words_blank leading2]
          · rw [← List.append_assoc]
            exact getLast?_spaces leading2
          · exact List.forall_mem_append.mpr ⟨trailing2, trailing⟩
    · rw [parseLine, trimmed]
      change (if cmdStr = [] then _ else _) = _
      rw [if_neg tight.not_nil, cut]
      change (selectCommand word rest).bind _ = _
      rw [selectCommand_eq word trimmedRest, verbEq, argumentsEq]
      rfl

example : parseLine (ascii " color  ff0000   00Ff00 x ") =
    some (some (.color (some 0xff0000) (some 0x00ff00))) := by decide

/-- For every line: nothing happens without a word, the command sees the words of the line,
and no slice of the two helpers is out of range. -/
theorem command_line_words (font : FontBytes) (system : System) (shell : Shell)
    (term : Terminal) :
    (words shell.line = [] → execute font system shell term = .ok term) ∧
    (∀ verb arguments, words shell.line = verb :: arguments →
      ∃ text, IsArguments shell.line text ∧
        execute font system shell term =
          runCommand font system term (meant verb arguments text)) ∧
    ∀ s : List Byte, (trimAscii s).isSome ∧ (splitFirstWord s).isSome := by
  refine ⟨?_, ?_, ?_⟩
  · intro none
    rw [execute, parseLine_blank none]
  · intro verb arguments split
    rcases parseLine_words split with ⟨text, place, parsed⟩
    exact ⟨text, place, by rw [execute, parsed]⟩
  · intro s
    constructor
    · rcases trimAscii_words s with ⟨text, trimmed, _⟩
      rw [trimmed]
      rfl
    · rcases Words.solid_front isSpace s with ⟨word, solid, whole | ⟨b, rest, same, space⟩⟩
      · rw [whole, splitFirstWord_solid solid]
        rfl
      · rw [same, splitFirstWord_separated solid space]
        rfl

end CustomKernel.SimpleShell
