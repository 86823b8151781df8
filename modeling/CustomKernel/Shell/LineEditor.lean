/-
The line on the screen is the line in the buffer.

The prompt and the keys that were accepted lie on consecutive places of the grid, read row
by row.  A key that is typed sets the place of the cursor, a key that is taken back blanks
the place before it, and a scroll shifts all of them by one row; none is lost as long as
the prompt and a full buffer fit below the top row.
-/

import CustomKernel.Shell.SimpleShell
import CustomKernel.Ui.Rendering

set_option autoImplicit false

namespace CustomKernel.SimpleShell

open TextGrid
open Ui

/-! ### A line of text on a grid -/

/-- The text lies on the places from `place` on, the cursor behind it, and the places that
were typed into before, `typed` in all, are blank. -/
structure Line (grid : CharGrid) (place : Nat) (text : List (BitVec 8)) (typed : Nat)
    (fg bg : Color) : Prop where
  placed : grid.Placed
  cursor : grid.cursor = place + text.length
  fgEq : grid.fg = fg
  bgEq : grid.bg = bg
  longest : text.length ≤ typed
  inside : place + typed ≤ grid.rows * grid.cols
  shown : ∀ i byte, text[i]? = some byte → grid.cellAt (place + i) = .glyph byte fg bg
  blank : ∀ i, text.length ≤ i → i < typed → grid.cellAt (place + i) = .blank bg

def origin (grid : CharGrid) (place : Nat) : Nat := place + grid.cols * grid.scrolls

theorem Line.start {grid : CharGrid} (placed : grid.Placed) :
    Line grid grid.cursor [] 0 grid.fg grid.bg where
  placed := placed
  cursor := rfl
  fgEq := rfl
  bgEq := rfl
  longest := Nat.le_refl 0
  inside := Nat.le_of_lt placed.cursor_lt
  shown := by
    intro i byte impossible
    cases impossible
  blank := by
    intro i _ impossible
    exact absurd impossible (Nat.not_lt_zero i)

section

variable {grid : CharGrid} {place typed : Nat} {text : List (BitVec 8)} {fg bg : Color}

theorem Line.write (line : Line grid place text typed fg bg)
    (room : text.length + 1 ≤ (grid.rows - 1) * grid.cols) (byte : BitVec 8) :
    ∃ next, Line (grid.edit (.write byte)) next (text ++ [byte]) (max typed (text.length + 1))
        fg bg ∧
      grid.Like (grid.edit (.write byte)) ∧
      origin (grid.edit (.write byte)) next = origin grid place := by
  have cursor := line.cursor
  have inside := line.inside
  have last := line.placed.cursor_lt
  have rows : (grid.rows - 1) * grid.cols + grid.cols = grid.rows * grid.cols := by
    have positive := line.placed.row
    rw [← Nat.succ_mul, Nat.succ_eq_add_one, Nat.sub_add_cancel (by omega)]
  rcases line.placed.write byte with ⟨shift, advanced⟩
  have moved : (grid.edit (.write byte)).cursor + shift = grid.cursor + 1 := advanced.cursor
  have fits : shift ≤ place := by
    rcases advanced.last with none_ | ⟨whole, full⟩
    · omega
    · have total : grid.cursor + 1 = grid.rows * grid.cols := full
      have width : shift = grid.cols := whole
      omega
  have like : grid.Like (grid.edit (.write byte)) :=
    ⟨advanced.like.rows, advanced.like.cols, advanced.like.fg, advanced.like.bg⟩
  have cells (i : Nat) (below : place + i < grid.rows * grid.cols) :
      (grid.edit (.write byte)).cellAt (place - shift + i) =
        if place + i = grid.cursor then .glyph byte grid.fg grid.bg
        else grid.cellAt (place + i) := by
    have back : place - shift + i + shift = place + i := by omega
    have shifted := advanced.cells (place - shift + i) (by rw [back]; exact below)
    have written := @Grid.setCell_cellAt _ _ grid grid.row grid.col
      (.glyph byte grid.fg grid.bg) line.placed.col (place + i)
    rw [back, written] at shifted
    exact shifted
  refine ⟨place - shift, ?_, like, ?_⟩
  · constructor
    case placed => exact advanced.placed
    case cursor =>
      rw [List.length_append, List.length_singleton]
      omega
    case fgEq => exact like.fg.trans line.fgEq
    case bgEq => exact like.bg.trans line.bgEq
    case longest =>
      rw [List.length_append, List.length_singleton]
      exact Nat.le_max_right _ _
    case inside =>
      rw [like.rows, like.cols]
      omega
    case shown =>
      intro i found held
      rcases Nat.lt_trichotomy i text.length with early | here | late
      · rw [List.getElem?_append_left early] at held
        rw [cells i (by omega), if_neg (by omega)]
        exact line.shown i found held
      · subst here
        rw [List.getElem?_concat_length] at held
        cases held
        rw [cells _ (by omega), if_pos (by omega), line.fgEq, line.bgEq]
      · rw [List.getElem?_eq_none (by
          rw [List.length_append, List.length_singleton]
          omega)] at held
        cases held
    case blank =>
      intro i behind below
      rw [List.length_append, List.length_singleton] at behind
      have before : i < typed := by omega
      rw [cells i (by omega), if_neg (by omega)]
      exact line.blank i (by omega) before
  · have count := advanced.scrolls
    have scrolled : shift + grid.cols * grid.scrolls =
        grid.cols * (grid.edit (.write byte)).scrolls := count
    rw [origin, origin, like.cols]
    omega

theorem Line.backspace {byte : BitVec 8} (line : Line grid place (text ++ [byte]) typed fg bg) :
    Line (grid.edit .backspace) place text typed fg bg ∧ grid.Like (grid.edit .backspace) ∧
      origin (grid.edit .backspace) place = origin grid place := by
  have cursor := line.cursor
  have longest := line.longest
  rw [List.length_append, List.length_singleton] at cursor longest
  obtain ⟨like, placed, stepped, scrolls, cells⟩ := line.placed.backspace (by omega)
  refine ⟨?_, like, ?_⟩
  · constructor
    case placed => exact placed
    case cursor => omega
    case fgEq => exact like.fg.trans line.fgEq
    case bgEq => exact like.bg.trans line.bgEq
    case longest => omega
    case inside =>
      rw [like.rows, like.cols]
      exact line.inside
    case shown =>
      intro i found held
      have early : i < text.length := (List.getElem?_eq_some_iff.mp held).1
      rw [cells, if_neg (by omega)]
      apply line.shown i found
      rw [List.getElem?_append_left early]
      exact held
    case blank =>
      intro i behind below
      rw [cells]
      by_cases here : place + i + 1 = grid.cursor
      · rw [if_pos here, line.bgEq]
      · rw [if_neg here]
        apply line.blank i _ below
        rw [List.length_append, List.length_singleton]
        omega
  · rw [origin, origin, like.cols, scrolls]

theorem Line.writes (line : Line grid place text typed fg bg) {bytes : List (BitVec 8)}
    (room : text.length + bytes.length ≤ (grid.rows - 1) * grid.cols) :
    ∃ next high, Line (grid.edits (bytes.map Edit.write)) next (text ++ bytes) high fg bg ∧
      high = max typed (text.length + bytes.length) ∧
      grid.Like (grid.edits (bytes.map Edit.write)) ∧
      origin (grid.edits (bytes.map Edit.write)) next = origin grid place := by
  induction bytes generalizing grid place text typed with
  | nil =>
      refine ⟨place, typed, ?_, ?_, ⟨rfl, rfl, rfl, rfl⟩, rfl⟩
      · rw [List.append_nil]
        exact line
      · have longest := line.longest
        rw [List.length_nil]
        omega
  | cons byte rest ih =>
      rw [List.length_cons] at room
      rcases line.write (by omega) byte with ⟨middle, written, like, same⟩
      have roomLater : (text ++ [byte]).length + rest.length ≤
          ((grid.edit (.write byte)).rows - 1) * (grid.edit (.write byte)).cols := by
        rw [like.rows, like.cols, List.length_append, List.length_singleton]
        omega
      rcases ih written roomLater with ⟨next, high, later, highEq, likeLater, sameLater⟩
      refine ⟨next, high, ?_, ?_, ?_, sameLater.trans same⟩
      · rw [List.append_assoc, List.singleton_append] at later
        exact later
      · rw [highEq, List.length_append, List.length_singleton, List.length_cons]
        omega
      · exact ⟨likeLater.rows.trans like.rows, likeLater.cols.trans like.cols,
          likeLater.fg.trans like.fg, likeLater.bg.trans like.bg⟩

end

/-! ### Keys -/

def referenceEdit (line : List (BitVec 8)) (key : BitVec 8) : List (BitVec 8) :=
  if key = 8#8 then line.dropLast
  else if 32 ≤ key.toNat ∧ key.toNat < 127 ∧ line.length < CMD_BUF_SIZE - 1 then line ++ [key]
  else line

theorem charEdit_printable {key : BitVec 8} (above : 32 ≤ key.toNat) (below : key.toNat < 127) :
    charEdit (Terminal.charOf key) = .write key := by
  have code := charOf_toNat key
  have newline : Terminal.charOf key ≠ '\n' := by
    intro same
    rw [same] at code
    have ten : '\n'.toNat = 10 := rfl
    omega
  have carriage : Terminal.charOf key ≠ '\r' := by
    intro same
    rw [same] at code
    have thirteen : '\r'.toNat = 13 := rfl
    omega
  rw [charEdit, if_neg newline, if_neg carriage, Terminal.shown, code, if_pos ⟨by omega, above⟩,
    BitVec.ofNat_toNat, BitVec.setWidth_eq]

theorem prompt_edits :
    PROMPT.map charEdit = (PROMPT.map Terminal.shown).map Edit.write := rfl

theorem Shell.push_line {shell : Shell} (key : BitVec 8) (room : shell.len < CMD_BUF_SIZE) :
    (shell.push key).line = shell.line ++ [key] := by
  have inside : shell.len < shell.buf.length := by
    rw [shell.size]
    exact room
  unfold Shell.line Shell.push
  dsimp only
  rw [List.take_add_one, List.take_set_of_le (Nat.le_refl _), List.getElem?_set_self inside]
  rfl

theorem Shell.line_length {shell : Shell} (room : shell.len < CMD_BUF_SIZE) :
    shell.line.length = shell.len := by
  rw [Shell.line, List.length_take, shell.size]
  omega

/-! ### The shell and its terminal -/

structure Agrees (font : FontBytes) (display : Display) (shell : Shell) (term : Terminal)
    (first typed : Nat) (line : List (BitVec 8)) (fg bg : Color) : Prop where
  on : Terminal.On display term
  held : shell.line = line
  bounded : shell.len ≤ CMD_BUF_SIZE - 1
  shown : ∃ grid place, Terminal.Shows font display term grid ∧ origin grid place = first ∧
    Line grid place (PROMPT.map Terminal.shown ++ line) typed fg bg

section

variable {font : FontBytes} {display : Display} {term : Terminal} {first typed : Nat}
  {line : List (BitVec 8)} {fg bg : Color}

theorem room_for_key (room : PROMPT.length + CMD_BUF_SIZE - 1 ≤ (display.rows - 1) * display.cols)
    {grid : CharGrid} (shows : Terminal.Shows font display term grid)
    (short : line.length < CMD_BUF_SIZE - 1) :
    (PROMPT.map Terminal.shown ++ line).length + 1 ≤ (grid.rows - 1) * grid.cols := by
  have prompt : PROMPT.length = 8 := rfl
  have buffer : CMD_BUF_SIZE = 256 := rfl
  rw [List.length_append, List.length_map, shows.rows, shows.cols]
  omega

theorem Agrees.length {shell : Shell}
    (agrees : Agrees font display shell term first typed line fg bg) :
    line.length = shell.len := by
  have bounded := agrees.bounded
  have buffer : CMD_BUF_SIZE = 256 := rfl
  rw [← agrees.held]
  exact Shell.line_length (by omega)

theorem Agrees.erases {shell : Shell}
    (agrees : Agrees font display shell term first typed line fg bg) (some_ : 0 < shell.len) :
    Agrees font display { shell with len := shell.len - 1 } term.backspace first typed
      line.dropLast fg bg := by
  have length := agrees.length
  have bounded := agrees.bounded
  rcases agrees.shown with ⟨grid, place, shows, begins, text⟩
  obtain ⟨front, last, split⟩ := (List.eq_nil_or_concat line).resolve_left (by
    intro empty
    rw [empty] at length
    simp at length
    omega)
  rw [List.concat_eq_append] at split
  rw [split, ← List.append_assoc] at text
  obtain ⟨erased, like, same⟩ := text.backspace
  constructor
  case on => exact Terminal.backspace_on agrees.on
  case held =>
    have heldLine := agrees.held
    rw [Shell.line] at heldLine ⊢
    dsimp only
    have buffer : CMD_BUF_SIZE = 256 := rfl
    rw [← heldLine, List.dropLast_take (by rw [shell.size]; omega)]
  case bounded =>
    dsimp only
    omega
  case shown =>
    rw [split, List.dropLast_concat]
    exact ⟨_, place, shows.backspace agrees.on, same.trans begins, erased⟩

theorem Agrees.writes {shell : Shell}
    (agrees : Agrees font display shell term first typed line fg bg)
    (covered : display.Covered font)
    (room : PROMPT.length + CMD_BUF_SIZE - 1 ≤ (display.rows - 1) * display.cols)
    {key : BitVec 8} (printable : 32 ≤ key.toNat ∧ key.toNat < 127)
    (short : shell.len < CMD_BUF_SIZE - 1) :
    ∃ shown later, term.putc font (Terminal.charOf key) = .ok shown ∧
      Agrees font display (shell.push key) shown first later (line ++ [key]) fg bg ∧
      typed ≤ later := by
  have length := agrees.length
  have buffer : CMD_BUF_SIZE = 256 := rfl
  rcases agrees.shown with ⟨grid, place, shows, begins, text⟩
  rcases shows.putc agrees.on covered (Terminal.charOf key) with
    ⟨shown, result, onAfter, showsAfter⟩
  rw [charEdit_printable printable.1 printable.2] at showsAfter
  rcases text.write (room_for_key room shows (by omega)) key with ⟨next, written, _, same⟩
  refine ⟨shown, max typed ((PROMPT.map Terminal.shown ++ line).length + 1), result, ?_,
    Nat.le_max_left _ _⟩
  constructor
  case on => exact onAfter
  case held =>
    rw [← agrees.held]
    exact Shell.push_line key (by omega)
  case bounded =>
    have grown : (shell.push key).len = shell.len + 1 := rfl
    omega
  case shown =>
    rw [← List.append_assoc]
    exact ⟨_, next, showsAfter, same.trans begins, written⟩

theorem Agrees.key {shell : Shell} (agrees : Agrees font display shell term first typed line fg bg)
    (covered : display.Covered font)
    (room : PROMPT.length + CMD_BUF_SIZE - 1 ≤ (display.rows - 1) * display.cols)
    (execute : Shell → Terminal → Except Terminal Terminal) {key : BitVec 8}
    (noNewline : key ≠ 10#8) :
    ∃ after shown later, shell.handleKey font execute term key = .ok (after, shown) ∧
      Agrees font display after shown first later (referenceEdit line key) fg bg ∧
      typed ≤ later := by
  have length := agrees.length
  unfold Shell.handleKey referenceEdit
  rw [if_neg noNewline]
  by_cases back : key = 8#8
  · rw [if_pos back, if_pos back]
    by_cases some_ : 0 < shell.len
    · rw [if_pos some_]
      exact ⟨_, _, typed, rfl, agrees.erases some_, Nat.le_refl _⟩
    · rw [if_neg some_]
      have empty : line = [] := by
        apply List.eq_nil_of_length_eq_zero
        omega
      refine ⟨_, _, typed, rfl, ?_, Nat.le_refl _⟩
      rw [empty] at agrees ⊢
      exact agrees
  · rw [if_neg back, if_neg back]
    by_cases printable : 32 ≤ key.toNat ∧ key.toNat < 127
    · rw [if_pos printable]
      by_cases short : shell.len < CMD_BUF_SIZE - 1
      · have accepted : 32 ≤ key.toNat ∧ key.toNat < 127 ∧ line.length < CMD_BUF_SIZE - 1 :=
          ⟨printable.1, printable.2, by omega⟩
        rw [if_pos short, if_pos accepted]
        rcases agrees.writes covered room printable short with
          ⟨shown, later, result, agreesAfter, more⟩
        rw [result]
        exact ⟨shell.push key, shown, later, rfl, agreesAfter, more⟩
      · have full : ¬ (32 ≤ key.toNat ∧ key.toNat < 127 ∧ line.length < CMD_BUF_SIZE - 1) := by
          omega
        rw [if_neg short, if_neg full]
        exact ⟨_, _, typed, rfl, agrees, Nat.le_refl _⟩
    · have ignored : ¬ (32 ≤ key.toNat ∧ key.toNat < 127 ∧ line.length < CMD_BUF_SIZE - 1) := by
        omega
      rw [if_neg printable, if_neg ignored]
      exact ⟨_, _, typed, rfl, agrees, Nat.le_refl _⟩

theorem Agrees.keys {shell : Shell} (agrees : Agrees font display shell term first typed line fg bg)
    (covered : display.Covered font)
    (room : PROMPT.length + CMD_BUF_SIZE - 1 ≤ (display.rows - 1) * display.cols)
    (execute : Shell → Terminal → Except Terminal Terminal) {keys : List (BitVec 8)}
    (noNewline : ∀ key, key ∈ keys → key ≠ 10#8) :
    ∃ after shown later, shell.handleKeys font execute term keys = .ok (after, shown) ∧
      Agrees font display after shown first later (keys.foldl referenceEdit line) fg bg ∧
      typed ≤ later ∧ ∀ before behind, keys = before ++ behind →
        PROMPT.length + (before.foldl referenceEdit line).length ≤ later := by
  have reached {shell : Shell} {term : Terminal} {typed : Nat} {line : List (BitVec 8)}
      (here : Agrees font display shell term first typed line fg bg) :
      PROMPT.length + line.length ≤ typed := by
    rcases here.shown with ⟨_, _, _, _, text⟩
    have longest := text.longest
    rw [List.length_append, List.length_map] at longest
    exact longest
  induction keys generalizing shell term typed line with
  | nil =>
      refine ⟨shell, term, typed, rfl, agrees, Nat.le_refl _, ?_⟩
      intro before behind split
      rw [(List.append_eq_nil_iff.mp split.symm).1]
      exact reached agrees
  | cons key rest ih =>
      rcases agrees.key covered room execute (noNewline key (List.mem_cons_self ..)) with
        ⟨next, drawn, middle, handled, kept, grown⟩
      rcases ih kept (fun other member => noNewline other (List.mem_cons_of_mem _ member)) with
        ⟨after, shown, later, rested, final, more, prefixes⟩
      refine ⟨after, shown, later, ?_, final, Nat.le_trans grown more, ?_⟩
      · rw [Shell.handleKeys, List.foldlM_cons, handled]
        exact rested
      · intro before behind split
        cases before with
        | nil => exact Nat.le_trans (reached agrees) (Nat.le_trans grown more)
        | cons head tail =>
            rw [List.cons_append, List.cons.injEq] at split
            rw [← split.1]
            exact prefixes tail behind split.2

def ShowsCell (font : FontBytes) (term : Terminal) (place : Nat)
    (cell : Cell (BitVec 8) Color) : Prop :=
  ∀ gx gy, gx < term.glyphW → gy < term.glyphH →
    term.pixels ((place / term.cols * term.glyphH + gy) * term.pitch +
        (place % term.cols * term.glyphW + gx)) =
      cell.shade (term.lit font) gx gy

theorem showsCell_of_cellAt {grid : CharGrid} {place : Nat} {cell : Cell (BitVec 8) Color}
    (shows : Terminal.Shows font display term grid) (inside : place < grid.rows * grid.cols)
    (same : grid.cellAt place = cell) : ShowsCell font term place cell := by
  have onDisplay := shows.toDisplay
  have cols := shows.cols
  have rows := shows.rows
  subst onDisplay
  rw [rows, cols] at inside
  have positive : 0 < term.cols := by
    apply Nat.pos_of_ne_zero
    intro none_
    rw [none_, Nat.mul_zero] at inside
    omega
  have row : place / term.cols < term.rows := (Nat.div_lt_iff_lt_mul positive).mpr inside
  intro gx gy inColumn inLine
  rw [← same, Grid.cellAt, cols]
  exact shows.renders _ _ gx gy row (Nat.mod_lt _ positive) inColumn inLine

theorem Shell.showPrompt_agrees {shell : Shell} (empty : shell.len = 0)
    (on : Terminal.On display term) (covered : display.Covered font)
    (room : PROMPT.length + CMD_BUF_SIZE - 1 ≤ (display.rows - 1) * display.cols) {grid : CharGrid}
    (shows : Terminal.Shows font display term grid) :
    ∃ prompted typed, shell.showPrompt font term = .ok prompted ∧
      Agrees font display shell prompted (origin grid grid.cursor) typed [] term.fg term.bg := by
  have placed : grid.Placed := by
    constructor
    · rw [← shows.row, shows.rows, ← on.1]
      exact on.2.row
    · rw [← shows.col, shows.cols, ← on.1]
      exact on.2.col
  rcases shows.print on covered PROMPT with ⟨prompted, printed, onAfter, showsAfter⟩
  rw [prompt_edits] at showsAfter
  have enough : ([] : List (BitVec 8)).length + (PROMPT.map Terminal.shown).length ≤
      (grid.rows - 1) * grid.cols := by
    have prompt : PROMPT.length = 8 := rfl
    have buffer : CMD_BUF_SIZE = 256 := rfl
    rw [List.length_nil, List.length_map, shows.rows, shows.cols]
    omega
  rcases (Line.start placed).writes enough with ⟨next, high, text, _, _, same⟩
  refine ⟨prompted, high, printed, ?_⟩
  constructor
  case on => exact onAfter
  case held =>
    rw [Shell.line, empty]
    rfl
  case bounded =>
    rw [empty]
    exact Nat.zero_le _
  case shown =>
    rw [shows.fg, shows.bg, List.append_nil]
    exact ⟨_, next, showsAfter, same, text⟩

end

/-- On a terminal in any state that calls have led to, with room for the prompt and a full
buffer below the top row: after the prompt and any keys but newline the buffer holds the
edited line, and the places of the screen from the prompt's first cell on, which has moved
up with the scrolls, show the prompt and the line, with the cursor behind it and blanks
wherever a key was typed behind that. -/
theorem line_and_screen_agree {font : FontBytes} {framebuffers : Option (List Framebuffer)}
    {pixels : Nat → Color} {opened term : Terminal} {calls : List TerminalCall}
    (fresh : Terminal.new font framebuffers pixels = some opened)
    (wide : opened.glyphW ≤ opened.width) (tall : opened.glyphH ≤ opened.height)
    (pitch : opened.width ≤ opened.pitch) (covered : opened.Covered font)
    (ran : opened.run font calls = .ok term)
    (room : PROMPT.length + CMD_BUF_SIZE - 1 ≤ (opened.rows - 1) * opened.cols)
    {shell : Shell} (empty : shell.len = 0)
    (execute : Shell → Terminal → Except Terminal Terminal) {keys : List (BitVec 8)}
    (noNewline : ∀ key, key ∈ keys → key ≠ 10#8) :
    ∃ prompted after shown place,
      shell.showPrompt font term = .ok prompted ∧
      shell.handleKeys font execute prompted keys = .ok (after, shown) ∧
      after.len ≤ CMD_BUF_SIZE - 1 ∧ after.line = keys.foldl referenceEdit [] ∧
      after.line.length = after.len ∧
      place + shown.cols * shown.scrolls =
        term.row * term.cols + term.col + term.cols * term.scrolls ∧
      shown.row * shown.cols + shown.col = place + (PROMPT.length + after.len) ∧
      shown.row < shown.rows ∧ shown.col < shown.cols ∧
      (∀ i byte, (PROMPT.map Terminal.shown ++ after.line)[i]? = some byte →
        ShowsCell font shown (place + i) (.glyph byte term.fg term.bg)) ∧
      ∀ before behind, keys = before ++ behind → ∀ i, PROMPT.length + after.len ≤ i →
        i < PROMPT.length + (before.foldl referenceEdit []).length →
          ShowsCell font shown (place + i) (.blank term.bg) := by
  have on := Terminal.new_on fresh wide tall pitch
  rcases (Terminal.new_shows fresh wide tall pitch).run on covered calls with
    ⟨reached, same, onTerm, shows⟩
  rw [ran] at same
  cases same
  rcases Shell.showPrompt_agrees empty onTerm covered room shows with
    ⟨prompted, typed, printed, start⟩
  rcases start.keys covered room execute noNewline with
    ⟨after, shown, later, handled, agrees, _, prefixes⟩
  rcases agrees.shown with ⟨grid, place, showsAfter, begins, text⟩
  have bounded := agrees.bounded
  have length : after.line.length = after.len := Shell.line_length (by
    unfold CMD_BUF_SIZE at bounded ⊢
    omega)
  have cursor := text.cursor
  have inside := text.inside
  have longest := text.longest
  rw [List.length_append, List.length_map, ← agrees.held, length] at cursor longest
  refine ⟨prompted, after, shown, place, printed, handled, bounded, agrees.held, length, ?_, ?_,
    agrees.on.2.row, agrees.on.2.col, ?_, ?_⟩
  · rw [showsAfter.width, showsAfter.scrolls, shows.width, shows.row, shows.col, shows.scrolls]
    exact begins
  · rw [showsAfter.width, showsAfter.row, showsAfter.col]
    exact cursor
  · intro i byte held
    rw [agrees.held] at held
    have early := (List.getElem?_eq_some_iff.mp held).1
    rw [List.length_append, List.length_map, ← agrees.held, length] at early
    exact showsCell_of_cellAt showsAfter (by omega) (text.shown i byte held)
  · intro before behind split i above below
    have bound := prefixes before behind split
    refine showsCell_of_cellAt showsAfter (by omega) (text.blank i ?_ (by omega))
    rw [List.length_append, List.length_map, ← agrees.held, length]
    exact above

def sampleScreen : Option (List Framebuffer) :=
  some [{ width := 360, height := 16, pitch := 1600 }]

theorem sampleScreen_opens :
    ∃ t, Terminal.new Terminal.sampleFont sampleScreen (fun _ => 0#32) = some t ∧
      t.toDisplay = { width := 360, height := 16, pitch := 400, cols := 40, rows := 8, glyphH := 2,
                      glyphW := 9, bytesPerGlyph := 4, headerSize := 32 } := by
  refine ⟨_, rfl, ?_⟩
  rw [Terminal.clear_display]
  rfl

/-- A key, its removal, a key that is ignored, and another key. -/
theorem sample_line :
    ∃ t prompted after shown,
      Terminal.new Terminal.sampleFont sampleScreen (fun _ => 0#32) = some t ∧
      Shell.new.showPrompt Terminal.sampleFont t = .ok prompted ∧
      Shell.new.handleKeys Terminal.sampleFont (fun _ term => .ok term) prompted
        [104#8, 8#8, 127#8, 105#8] = .ok (after, shown) ∧ after.line = [105#8] := by
  obtain ⟨t, opened, display⟩ := sampleScreen_opens
  have covered : t.Covered Terminal.sampleFont := by
    rw [display]
    exact ⟨Terminal.sample_covered.glyphs, by decide⟩
  obtain ⟨prompted, after, shown, _, printed, handled, _, line, _⟩ :=
    line_and_screen_agree opened (by rw [display]; decide) (by rw [display]; decide)
      (by rw [display]; decide) covered (rfl : t.run _ [] = .ok t) (by rw [display]; decide)
      (rfl : Shell.new.len = 0) (fun _ term => .ok term)
      (by decide : ∀ key, key ∈ [104#8, 8#8, 127#8, 105#8] → key ≠ 10#8)
  exact ⟨t, prompted, after, shown, opened, printed, handled, line⟩

end CustomKernel.SimpleShell
