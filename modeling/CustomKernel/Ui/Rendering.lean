/-
The picture is the grid.

Painting a cell changes the pixels of that cell only, scrolling moves whole bands of scan
lines, and clearing covers the whole buffer.  So after every call each pixel of the rows
and columns is that of a cell of the text grid, which changes by the rules of text alone.
-/

import CustomKernel.Foundation.TextGrid
import CustomKernel.Ui.Bounds

set_option autoImplicit false

namespace CustomKernel.Ui

open TextGrid

abbrev CharGrid := Grid (BitVec 8) Color

abbrev CharEdit := Edit (BitVec 8) Color

/-! ### The text of the calls -/

def charEdit (c : Char) : CharEdit :=
  if c = '\n' then .newline
  else if c = '\r' then .carriageReturn
  else .write (Terminal.shown c)

theorem charOf_toNat (byte : BitVec 8) : (Terminal.charOf byte).toNat = byte.toNat := by
  have valid : byte.toNat.isValidChar := Or.inl (Nat.lt_trans byte.isLt (by decide))
  rw [Terminal.charOf, Char.ofNat, dif_pos valid]
  rfl

def usizeText (v : BitVec 64) : List Char :=
  if v.toNat = 0 then ['0']
  else ((Terminal.usizeDigits 20 v.toNat []).getD []).map Terminal.charOf

def textEdits : TerminalCall → List CharEdit
  | .putc c => [charEdit c]
  | .print s => s.map charEdit
  | .backspace => [.backspace]
  | .clear => [.clear]
  | .setColor fg bg => [.setColor fg bg]
  | .printHex64 v =>
      (['0', 'x'] ++ (Terminal.hexDigits 16 v []).map Terminal.charOf).map charEdit
  | .printUsize v => (usizeText v).map charEdit

def blankGrid (display : Display) : CharGrid :=
  { rows := display.rows
    cols := display.cols
    cells := fun _ _ => .blank COLOR_BG
    row := 0
    col := 0
    fg := COLOR_FG
    bg := COLOR_BG
    scrolls := 0 }

/-! ### Pixels of a cell -/

namespace Terminal

section

variable {t : Terminal}

theorem fill_pixels (t : Terminal) (first count : Nat) (color : Color) :
    (t.fill first count color).controls = t.controls ∧
      (t.fill first count color).pixels =
        ScanLines.overlay t.pixels first count (fun _ => color) :=
  @ScanLines.foldl_overlay Color Terminal Terminal.pixels
    (fun state i => state.write (first + i) color) (fun state => state.controls = t.controls)
    first (fun _ => color) (fun _ _ here => here) (fun _ _ _ => rfl) t rfl count

theorem paintLine_pixels {state : Terminal} (same : state.controls = t.controls)
    (left line : Nat) (color : Nat → Color) (count : Nat) :
    ((List.range count).foldl (fun inner gx => inner.putPixel (left + gx) line (color gx))
        state).controls = t.controls ∧
      ((List.range count).foldl (fun inner gx => inner.putPixel (left + gx) line (color gx))
        state).pixels = ScanLines.overlay state.pixels (line * t.pitch + left) count color := by
  apply @ScanLines.foldl_overlay Color Terminal Terminal.pixels _
    (fun inner => inner.controls = t.controls)
  · intro inner gx here
    exact here
  · intro inner gx here
    have pitch : inner.pitch = t.pitch :=
      congrArg (fun kept : Controls => kept.display.pitch) here
    rw [putPixel, pitch, Nat.add_assoc]
  · exact same

theorem paint_pixels (fits : t.Fits) {col row : Nat} (column : col < t.cols)
    (color : Nat → Nat → Color) {x y : Nat} (inside : x < t.pitch) :
    (t.paint col row color).pixels (y * t.pitch + x) =
      if (col * t.glyphW ≤ x ∧ x < col * t.glyphW + t.glyphW) ∧
          row * t.glyphH ≤ y ∧ y < row * t.glyphH + t.glyphH then
        color (x - col * t.glyphW) (y - row * t.glyphH)
      else t.pixels (y * t.pitch + x) := by
  have last := fits.column_inside column (Nat.sub_lt fits.glyphW Nat.one_pos)
  have positive := fits.glyphW
  have pitch := fits.pitch
  have painted := @ScanLines.foldl_rectangle Color Terminal Terminal.pixels
    (fun current gy => (List.range current.glyphW).foldl
      (fun inner gx =>
        inner.putPixel (col * t.glyphW + gx) (row * t.glyphH + gy) (color gx gy)) current)
    (fun current => current.controls = t.controls) t.pitch (col * t.glyphW) (row * t.glyphH)
    t.glyphW color (by omega)
    (fun current gy same => (paintLine_pixels same _ _ _ _).1)
    (fun current gy same => by
      have width : current.glyphW = t.glyphW :=
        congrArg (fun kept : Controls => kept.display.glyphW) same
      rw [width]
      exact (paintLine_pixels same _ _ _ _).2)
    t rfl t.glyphH
  exact painted.2 x y inside

theorem unit_iff {unit index other offset : Nat} (inside : offset < unit) :
    (index * unit ≤ other * unit + offset ∧ other * unit + offset < index * unit + unit) ↔
      other = index := by
  have within := @ScanLines.place_within_iff unit offset other 0 unit index inside (by omega)
  simp only [Nat.add_zero, Nat.zero_add, Nat.zero_le, true_and] at within
  rw [within]
  constructor
  · intro same
    exact same.1
  · intro same
    exact ⟨same, inside⟩

def cellPixel (display : Display) (row col gx gy : Nat) : Nat :=
  (row * display.glyphH + gy) * display.pitch + (col * display.glyphW + gx)

theorem paint_cell (fits : t.Fits) {col row : Nat} (column : col < t.cols)
    (color : Nat → Nat → Color) {r c gx gy : Nat} (cell : c < t.cols) (inColumn : gx < t.glyphW)
    (inLine : gy < t.glyphH) :
    (t.paint col row color).pixels (cellPixel t.toDisplay r c gx gy) =
      if r = row ∧ c = col then color gx gy else t.pixels (cellPixel t.toDisplay r c gx gy) := by
  have inside : c * t.glyphW + gx < t.pitch :=
    Nat.lt_of_lt_of_le (fits.column_inside cell inColumn) fits.pitch
  rw [cellPixel, paint_pixels fits column color inside]
  have sameCol := @unit_iff t.glyphW col c gx inColumn
  have sameRow := @unit_iff t.glyphH row r gy inLine
  by_cases here : r = row ∧ c = col
  · rw [if_pos ⟨sameCol.mpr here.2, sameRow.mpr here.1⟩, if_pos here, here.1, here.2,
      Nat.add_sub_cancel_left, Nat.add_sub_cancel_left]
  · rw [if_neg (fun both => here ⟨sameRow.mp both.2, sameCol.mp both.1⟩), if_neg here]

theorem scroll_controls (t : Terminal) :
    t.scroll.controls = { t.controls with scrolls := t.scrolls + 1 } :=
  congrArg (fun kept : Controls => { kept with scrolls := t.scrolls + 1 })
    (fill_pixels (t.copy _ _ _) _ _ _).1

theorem scroll_cell (fits : t.Fits) {r c gx gy : Nat} (row : r < t.rows) (cell : c < t.cols)
    (inColumn : gx < t.glyphW) (inLine : gy < t.glyphH) :
    t.scroll.pixels (cellPixel t.toDisplay r c gx gy) =
      if r + 1 < t.rows then t.pixels (cellPixel t.toDisplay (r + 1) c gx gy) else t.bg := by
  have inside : c * t.glyphW + gx < t.pitch :=
    Nat.lt_of_lt_of_le (fits.column_inside cell inColumn) fits.pitch
  have pixels : t.scroll.pixels =
      ScanLines.overlay
        (ScanLines.overlay t.pixels 0 ((t.rows - 1) * (t.glyphH * t.pitch))
          (fun i => t.pixels (t.glyphH * t.pitch + i)))
        ((t.rows - 1) * (t.glyphH * t.pitch)) (t.glyphH * t.pitch) (fun _ => t.bg) :=
    (fill_pixels (t.copy _ _ _) _ _ _).2
  have bands : (t.rows - 1) * (t.glyphH * t.pitch) = (t.rows - 1) * t.glyphH * t.pitch :=
    (Nat.mul_assoc _ _ _).symm
  have bottom : (t.rows - 1) * t.glyphH * t.pitch + t.glyphH * t.pitch =
      ((t.rows - 1) * t.glyphH + t.glyphH) * t.pitch := (Nat.add_mul _ _ _).symm
  have above := @ScanLines.place_lt_iff t.pitch _ (r * t.glyphH + gy) inside
    ((t.rows - 1) * t.glyphH)
  have within := @ScanLines.place_lt_iff t.pitch _ (r * t.glyphH + gy) inside
    ((t.rows - 1) * t.glyphH + t.glyphH)
  have aboveLine := @ScanLines.place_lt_iff t.glyphH gy r inLine (t.rows - 1)
  have withinLine := @ScanLines.place_lt_iff t.glyphH gy r inLine (t.rows - 1 + 1)
  rw [Nat.succ_mul] at withinLine
  rw [pixels, cellPixel, bands]
  unfold ScanLines.overlay
  by_cases moved : r + 1 < t.rows
  · have early : (r * t.glyphH + gy) * t.pitch + (c * t.glyphW + gx) <
        (t.rows - 1) * t.glyphH * t.pitch := above.mpr (aboveLine.mpr (by omega))
    rw [if_neg (by omega), if_pos ⟨Nat.zero_le _, by omega⟩, if_pos moved, Nat.sub_zero]
    apply congrArg t.pixels
    rw [cellPixel, Nat.succ_mul, Nat.add_right_comm (r * t.glyphH), Nat.add_mul _ t.glyphH]
    omega
  · have late : ¬ (r * t.glyphH + gy) * t.pitch + (c * t.glyphW + gx) <
        (t.rows - 1) * t.glyphH * t.pitch := by
      rw [above, aboveLine]
      omega
    have early : (r * t.glyphH + gy) * t.pitch + (c * t.glyphW + gx) <
        ((t.rows - 1) * t.glyphH + t.glyphH) * t.pitch :=
      within.mpr (withinLine.mpr (by omega))
    rw [if_pos ⟨by omega, by omega⟩, if_neg moved]

theorem clear_cell (fits : t.Fits) {r c gx gy : Nat} (row : r < t.rows) (cell : c < t.cols)
    (inColumn : gx < t.glyphW) (inLine : gy < t.glyphH) :
    t.clear.pixels (cellPixel t.toDisplay r c gx gy) = t.bg := by
  have inside : c * t.glyphW + gx < t.pitch :=
    Nat.lt_of_lt_of_le (fits.column_inside cell inColumn) fits.pitch
  have pixels : t.clear.pixels =
      ScanLines.overlay t.pixels 0 (t.height * t.pitch) (fun _ => t.bg) :=
    (fill_pixels { t with col := 0, row := 0 } _ _ _).2
  have within := (@ScanLines.place_lt_iff t.pitch _ (r * t.glyphH + gy) inside t.height).mpr
    (fits.line_inside row inLine)
  rw [pixels, ScanLines.overlay, cellPixel, if_pos ⟨Nat.zero_le _, by omega⟩]

end

/-! ### The simulation -/

/-- The pixels of the rows and columns are those of the cells. -/
def Renders (font : FontBytes) (display : Display) (pixels : Nat → Color)
    (cells : Nat → Nat → Cell (BitVec 8) Color) : Prop :=
  ∀ row col gx gy, row < display.rows → col < display.cols → gx < display.glyphW →
    gy < display.glyphH →
      pixels (cellPixel display row col gx gy) =
        (cells row col).shade (display.lit font) gx gy

structure Shows (font : FontBytes) (display : Display) (t : Terminal) (grid : CharGrid) :
    Prop where
  controls : t.controls =
    { display := display, col := grid.col, row := grid.row, fg := grid.fg, bg := grid.bg,
      scrolls := grid.scrolls }
  rows : grid.rows = display.rows
  cols : grid.cols = display.cols
  renders : Renders font display t.pixels grid.cells

section

variable {font : FontBytes} {display : Display} {t : Terminal} {grid : CharGrid}

theorem Shows.move (shows : Shows font display t grid) (col row : Nat) :
    Shows font display { t with col := col, row := row } { grid with col := col, row := row } where
  controls := congrArg (fun kept => { kept with col := col, row := row }) shows.controls
  rows := shows.rows
  cols := shows.cols
  renders := shows.renders

theorem Shows.moveRow (shows : Shows font display t grid) (row : Nat) :
    Shows font display { t with row := row } { grid with row := row } where
  controls := congrArg (fun kept => { kept with row := row }) shows.controls
  rows := shows.rows
  cols := shows.cols
  renders := shows.renders

theorem Shows.moveCol (shows : Shows font display t grid) (col : Nat) :
    Shows font display { t with col := col } { grid with col := col } where
  controls := congrArg (fun kept => { kept with col := col }) shows.controls
  rows := shows.rows
  cols := shows.cols
  renders := shows.renders

theorem Shows.setColor (shows : Shows font display t grid) (fg bg : Color) :
    Shows font display (t.setColor fg bg) (grid.edit (.setColor fg bg)) where
  controls := congrArg (fun kept => { kept with fg := fg, bg := bg }) shows.controls
  rows := shows.rows
  cols := shows.cols
  renders := shows.renders

theorem Shows.toDisplay (shows : Shows font display t grid) : t.toDisplay = display :=
  congrArg Controls.display shows.controls

theorem Shows.col (shows : Shows font display t grid) : t.col = grid.col :=
  congrArg Controls.col shows.controls

theorem Shows.row (shows : Shows font display t grid) : t.row = grid.row :=
  congrArg Controls.row shows.controls

theorem Shows.width (shows : Shows font display t grid) : t.cols = grid.cols := by
  rw [shows.toDisplay]
  exact shows.cols.symm

theorem Shows.height (shows : Shows font display t grid) : t.rows = grid.rows := by
  rw [shows.toDisplay]
  exact shows.rows.symm

theorem Shows.fg (shows : Shows font display t grid) : t.fg = grid.fg :=
  congrArg Controls.fg shows.controls

theorem Shows.bg (shows : Shows font display t grid) : t.bg = grid.bg :=
  congrArg Controls.bg shows.controls

theorem Shows.scrolls (shows : Shows font display t grid) : t.scrolls = grid.scrolls :=
  congrArg Controls.scrolls shows.controls

theorem Shows.paint (shows : Shows font display t grid) (fits : display.Fits) {row col : Nat}
    (column : col < display.cols) {color : Nat → Nat → Color} {cell : Cell (BitVec 8) Color}
    (same : ∀ gx gy, color gx gy = cell.shade (display.lit font) gx gy) :
    Shows font display (t.paint col row color) (grid.setCell row col cell) where
  controls := (paint_controls t col row color).trans shows.controls
  rows := shows.rows
  cols := shows.cols
  renders := by
    have onDisplay := shows.toDisplay
    intro r c gx gy inRow inCol inColumn inLine
    have before := shows.renders r c gx gy inRow inCol inColumn inLine
    subst onDisplay
    rw [paint_cell fits column color inCol inColumn inLine]
    dsimp only [Grid.setCell]
    by_cases here : r = row ∧ c = col
    · rw [if_pos here, if_pos here, same]
    · rw [if_neg here, if_neg here, before]

theorem Shows.erase (shows : Shows font display t grid) (fits : display.Fits) {col : Nat}
    (column : col < display.cols) (row : Nat) :
    Shows font display (t.eraseGlyph col row) (grid.setCell row col (.blank grid.bg)) := by
  rw [eraseGlyph_eq]
  apply shows.paint fits column
  intro gx gy
  exact shows.bg

theorem Shows.scroll (shows : Shows font display t grid) (fits : display.Fits) :
    Shows font display t.scroll grid.dropTop where
  controls := by
    have here := congrArg (fun kept : Controls => { kept with scrolls := kept.scrolls + 1 })
      shows.controls
    exact (scroll_controls t).trans here
  rows := shows.rows
  cols := shows.cols
  renders := by
    have onDisplay := shows.toDisplay
    have rows := shows.rows
    have background := shows.bg
    intro r c gx gy inRow inCol inColumn inLine
    have before := shows.renders (r + 1) c gx gy
    subst onDisplay
    rw [scroll_cell fits inRow inCol inColumn inLine]
    dsimp only [Grid.dropTop]
    by_cases moved : r + 1 < t.rows
    · rw [if_pos moved, if_pos (by omega), before moved inCol inColumn inLine]
    · rw [if_neg moved, if_neg (by omega), background]
      rfl

theorem Shows.clear (shows : Shows font display t grid) (fits : display.Fits) :
    Shows font display t.clear (grid.edit .clear) where
  controls := by
    have here := congrArg (fun kept : Controls => { kept with col := 0, row := 0 }) shows.controls
    exact (fill_pixels { t with col := 0, row := 0 } _ _ _).1.trans here
  rows := shows.rows
  cols := shows.cols
  renders := by
    have onDisplay := shows.toDisplay
    have background := shows.bg
    intro r c gx gy inRow inCol inColumn inLine
    subst onDisplay
    rw [clear_cell fits inRow inCol inColumn inLine, background]
    rfl

theorem Shows.settle (shows : Shows font display t grid) (fits : display.Fits) :
    Shows font display t.settle grid.settle := by
  have col := shows.col
  have row := shows.row
  have cols := shows.width
  have rows := shows.height
  unfold Terminal.settle Grid.settle
  rw [cols, col, row]
  by_cases last : grid.cols ≤ grid.col
  · have moved := shows.move 0 (grid.row + 1)
    simp only [if_pos last, rows]
    by_cases bottom : grid.rows ≤ grid.row + 1
    · rw [if_pos bottom, if_pos bottom]
      exact (moved.scroll fits).moveRow (grid.rows - 1)
    · rw [if_neg bottom, if_neg bottom]
      exact moved
  · simp only [if_neg last, rows, row]
    by_cases bottom : grid.rows ≤ grid.row
    · rw [if_pos bottom, if_pos bottom]
      exact (shows.scroll fits).moveRow (grid.rows - 1)
    · rw [if_neg bottom, if_neg bottom]
      exact shows

/-- The result shows the grid, with the cursor on a cell. -/
def Results (font : FontBytes) (display : Display) (grid : CharGrid)
    (result : Except Terminal Terminal) : Prop :=
  ∃ next, result = .ok next ∧ On display next ∧ Shows font display next grid

theorem Results.bind {first : Except Terminal Terminal} {next : Terminal → Except Terminal Terminal}
    {middle final : CharGrid} (before : Results font display middle first)
    (after : ∀ state, On display state → Shows font display state middle →
      Results font display final (next state)) : Results font display final (first >>= next) := by
  rcases before with ⟨state, same, on, shows⟩
  rw [same]
  exact after state on shows

theorem Shows.putc (shows : Shows font display t grid) (on : On display t)
    (covered : display.Covered font) (c : Char) :
    Results font display (grid.edit (charEdit c)) (Terminal.putc font t c) := by
  have fits : display.Fits := by
    rw [← on.1]
    exact on.2.fits
  have after := @putc_on font t display c on
  have drawn (next : Terminal) (result : Terminal.putc font t c = .ok next)
      (shown : Shows font display next (grid.edit (charEdit c))) :
      Results font display (grid.edit (charEdit c)) (Terminal.putc font t c) := by
    rw [result] at after
    exact ⟨next, result, after, shown⟩
  have col := shows.col
  have row := shows.row
  by_cases newline : c = '\n'
  · apply drawn _ (by rw [Terminal.putc, if_pos newline])
    rw [charEdit, if_pos newline, row]
    exact (shows.move 0 (grid.row + 1)).settle fits
  · by_cases carriage : c = '\r'
    · apply drawn _ (by rw [Terminal.putc, if_neg newline, if_pos carriage])
      rw [charEdit, if_neg newline, if_pos carriage]
      exact (shows.moveCol 0).settle fits
    · have onDisplay := on.1
      have coveredHere : t.Covered font := by
        rw [onDisplay]
        exact covered
      have written := drawGlyph_eq coveredHere (shown_ascii c) t.col t.row
      apply drawn _ (by
        rw [Terminal.putc, if_neg newline, if_neg carriage, written]
        rfl)
      have column : t.col < display.cols := by
        rw [← onDisplay]
        exact on.2.col
      have painted := @Shows.paint font display t grid shows fits t.row t.col column
        (fun gx gy => if t.lit font (shown c) gx gy then t.fg else t.bg)
        (.glyph (shown c) grid.fg grid.bg) (by
          intro gx gy
          rw [shows.fg, shows.bg, onDisplay]
          rfl)
      have stepped : grid.edit (.write (shown c)) =
          { grid.setCell t.row t.col (.glyph (shown c) grid.fg grid.bg) with
            col := grid.col + 1 }.settle := by
        rw [row, col]
        rfl
      rw [charEdit, if_neg newline, if_neg carriage, stepped, painted.col]
      exact (painted.moveCol (grid.col + 1)).settle fits

theorem Shows.print (shows : Shows font display t grid) (on : On display t)
    (covered : display.Covered font) (s : List Char) :
    Results font display (grid.edits (s.map charEdit)) (Terminal.print font t s) := by
  induction s generalizing t grid with
  | nil => exact ⟨t, rfl, on, shows⟩
  | cons c rest ih =>
      apply Results.bind (shows.putc on covered c)
      intro state stateOn stateShows
      exact ih stateShows stateOn

theorem Shows.backspace (shows : Shows font display t grid) (on : On display t) :
    Shows font display t.backspace (grid.edit .backspace) := by
  have fits : display.Fits := by
    rw [← on.1]
    exact on.2.fits
  have col := shows.col
  have row := shows.row
  have cols := shows.width
  have inside : grid.col < display.cols := by
    rw [← col, ← on.1]
    exact on.2.col
  unfold Terminal.backspace Grid.edit
  rw [col, row, cols]
  by_cases later : 0 < grid.col
  · have moved := shows.move (grid.col - 1) grid.row
    have before : grid.col - 1 < display.cols := by omega
    rw [if_pos later, if_pos later]
    exact moved.erase fits before grid.row
  · by_cases below : 0 < grid.row
    · have moved := shows.move (grid.cols - 1) (grid.row - 1)
      have last : grid.cols - 1 < display.cols := by
        rw [shows.cols]
        omega
      rw [if_neg later, if_neg later, if_pos below, if_pos below]
      exact moved.erase fits last (grid.row - 1)
    · rw [if_neg later, if_neg later, if_neg below, if_neg below]
      exact shows

theorem Shows.call (shows : Shows font display t grid) (on : On display t)
    (covered : display.Covered font) (call : TerminalCall) :
    Results font display (grid.edits (textEdits call)) (t.call font call) := by
  have fits : display.Fits := by
    rw [← on.1]
    exact on.2.fits
  have after := @call_on font t display call on
  cases call with
  | putc c => exact shows.putc on covered c
  | print s => exact shows.print on covered s
  | backspace => exact ⟨_, rfl, after, shows.backspace on⟩
  | clear => exact ⟨_, rfl, after, shows.clear fits⟩
  | setColor fg bg => exact ⟨_, rfl, after, shows.setColor fg bg⟩
  | printHex64 v =>
      rw [textEdits, List.map_append, Grid.edits, List.foldl_append]
      apply Results.bind (shows.print on covered ['0', 'x'])
      intro state stateOn stateShows
      exact stateShows.print stateOn covered _
  | printUsize v =>
      have small : v.toNat < 10 ^ 20 := Nat.lt_trans v.isLt (by decide)
      obtain ⟨digits, written⟩ := usizeDigits_some small []
      dsimp only [Terminal.call, printUsize, textEdits, usizeText]
      by_cases zero : v.toNat = 0
      · rw [if_pos zero, if_pos zero]
        exact shows.putc on covered '0'
      · rw [if_neg zero, if_neg zero, written]
        exact shows.print on covered _

theorem Shows.run (shows : Shows font display t grid) (on : On display t)
    (covered : display.Covered font) (calls : List TerminalCall) :
    Results font display (grid.edits (calls.flatMap textEdits)) (t.run font calls) := by
  induction calls generalizing t grid with
  | nil => exact ⟨t, rfl, on, shows⟩
  | cons call rest ih =>
      rw [List.flatMap_cons, Grid.edits, List.foldl_append]
      apply Results.bind (shows.call on covered call)
      intro state stateOn stateShows
      exact ih stateShows stateOn

end

theorem new_shows {font : FontBytes} {framebuffers : Option (List Framebuffer)}
    {pixels : Nat → Color} {t : Terminal} (opened : new font framebuffers pixels = some t)
    (wide : t.glyphW ≤ t.width) (tall : t.glyphH ≤ t.height) (pitch : t.width ≤ t.pitch) :
    Shows font t.toDisplay t (blankGrid t.toDisplay) := by
  have fits := (new_on opened wide tall pitch).2.fits
  obtain ⟨base, same, _, _, _, _, _, fg, bg, none_⟩ := new_some opened
  subst same
  rw [clear_display] at fits ⊢
  constructor
  case controls =>
    have cleared : base.clear.controls = { base.controls with col := 0, row := 0 } :=
      (fill_pixels { base with col := 0, row := 0 } _ _ _).1
    rw [cleared, controls, fg, bg, none_]
    rfl
  case rows => rfl
  case cols => rfl
  case renders =>
    intro r c gx gy inRow inCol inColumn inLine
    rw [clear_cell fits inRow inCol inColumn inLine, bg]
    rfl

/-- Whatever is called after `Terminal::new`, with a font that has the glyphs of ASCII, the
call returns and every pixel of the rows and columns is that of the grid. -/
theorem framebuffer_renders_grid {font : FontBytes} {framebuffers : Option (List Framebuffer)}
    {pixels : Nat → Color} {t : Terminal} (opened : new font framebuffers pixels = some t)
    (wide : t.glyphW ≤ t.width) (tall : t.glyphH ≤ t.height) (pitch : t.width ≤ t.pitch)
    (covered : t.Covered font) (calls : List TerminalCall) :
    ∃ final, t.run font calls = .ok final ∧
      ∀ row col gx gy, row < t.rows → col < t.cols → gx < t.glyphW → gy < t.glyphH →
        final.pixels ((row * t.glyphH + gy) * t.pitch + (col * t.glyphW + gx)) =
          (((blankGrid t.toDisplay).edits (calls.flatMap textEdits)).cells row col).shade
            (t.lit font) gx gy := by
  rcases (new_shows opened wide tall pitch).run (new_on opened wide tall pitch) covered calls with
    ⟨final, ran, _, shows⟩
  exact ⟨final, ran, shows.renders⟩

/-- Two glyphs, a color change and a scroll: the row that has come in is blank. -/
theorem sample_rendered :
    ∃ t, new sampleFont sampleFramebuffers (fun _ => 0#32) = some t ∧
      ∃ final, t.run sampleFont [.putc 'a', .setColor 7#32 8#32, .putc 'b', .putc '\n'] =
        .ok final ∧ final.pixels 44 = 8#32 := by
  obtain ⟨t, opened, display⟩ := sample_opens
  obtain ⟨final, ran, pixels⟩ := framebuffer_renders_grid opened (by rw [display]; decide)
    (by rw [display]; decide) (by rw [display]; decide) (by rw [display]; exact sample_covered)
    [.putc 'a', .setColor 7#32 8#32, .putc 'b', .putc '\n']
  have pixel := pixels 1 0 0 0
  rw [display] at pixel
  exact ⟨t, opened, final, ran, pixel (by decide) (by decide) (by decide) (by decide)⟩

end Terminal

end CustomKernel.Ui
