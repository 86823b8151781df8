/-
Text on a grid of cells.

A cell holds a glyph in two colors, or nothing on a background.  Writing advances the
cursor; behind the last column it goes on in the next row, and behind the last row the top
row is dropped and a blank one appended.  Read row by row the grid is a tape: a write or a
step back changes one place of it, and dropping a row shifts it.
-/

import CustomKernel.Foundation.ScanLines

set_option autoImplicit false

namespace TextGrid

variable {Glyph Color : Type*}

inductive Cell (Glyph Color : Type*) where
  | glyph (drawn : Glyph) (fg bg : Color)
  | blank (bg : Color)

def Cell.shade (shape : Glyph → Nat → Nat → Bool) (cell : Cell Glyph Color) (x y : Nat) : Color :=
  match cell with
  | .glyph drawn fg bg => if shape drawn x y then fg else bg
  | .blank bg => bg

/-- The cells by row and column, the cursor, the current colors, and how often the top row
was dropped. -/
structure Grid (Glyph Color : Type*) where
  rows : Nat
  cols : Nat
  cells : Nat → Nat → Cell Glyph Color
  row : Nat
  col : Nat
  fg : Color
  bg : Color
  scrolls : Nat

inductive Edit (Glyph Color : Type*) where
  | write (glyph : Glyph)
  | newline
  | carriageReturn
  | backspace
  | clear
  | setColor (fg bg : Color)

namespace Grid

def setCell (grid : Grid Glyph Color) (row col : Nat) (cell : Cell Glyph Color) :
    Grid Glyph Color :=
  { grid with cells := fun r c => if r = row ∧ c = col then cell else grid.cells r c }

def dropTop (grid : Grid Glyph Color) : Grid Glyph Color :=
  { grid with
    cells := fun r c => if r + 1 < grid.rows then grid.cells (r + 1) c else .blank grid.bg
    scrolls := grid.scrolls + 1 }

def settle (grid : Grid Glyph Color) : Grid Glyph Color :=
  let wrapped := if grid.cols ≤ grid.col then { grid with col := 0, row := grid.row + 1 } else grid
  if wrapped.rows ≤ wrapped.row then { wrapped.dropTop with row := wrapped.rows - 1 } else wrapped

def edit (grid : Grid Glyph Color) : Edit Glyph Color → Grid Glyph Color
  | .write glyph =>
      { grid.setCell grid.row grid.col (.glyph glyph grid.fg grid.bg) with
        col := grid.col + 1 }.settle
  | .newline => { grid with col := 0, row := grid.row + 1 }.settle
  | .carriageReturn => { grid with col := 0 }.settle
  | .backspace =>
      if 0 < grid.col then
        { grid with col := grid.col - 1 }.setCell grid.row (grid.col - 1) (.blank grid.bg)
      else if 0 < grid.row then
        { grid with row := grid.row - 1, col := grid.cols - 1 }.setCell (grid.row - 1)
          (grid.cols - 1) (.blank grid.bg)
      else grid
  | .clear => { grid with cells := fun _ _ => .blank grid.bg, row := 0, col := 0 }
  | .setColor fg bg => { grid with fg := fg, bg := bg }

def edits (grid : Grid Glyph Color) (list : List (Edit Glyph Color)) : Grid Glyph Color :=
  list.foldl edit grid

structure Placed (grid : Grid Glyph Color) : Prop where
  row : grid.row < grid.rows
  col : grid.col < grid.cols

/-! ### The tape -/

def cellAt (grid : Grid Glyph Color) (place : Nat) : Cell Glyph Color :=
  grid.cells (place / grid.cols) (place % grid.cols)

def cursor (grid : Grid Glyph Color) : Nat := grid.row * grid.cols + grid.col

theorem cellAt_place {grid : Grid Glyph Color} {row col : Nat} (column : col < grid.cols) :
    grid.cellAt (row * grid.cols + col) = grid.cells row col := by
  have positive : 0 < grid.cols := by omega
  have quotient : (row * grid.cols + col) / grid.cols = row := by
    rw [Nat.add_comm, Nat.add_mul_div_right _ _ positive, Nat.div_eq_of_lt column, Nat.zero_add]
  have rest : (row * grid.cols + col) % grid.cols = col := by
    rw [Nat.mul_add_mod_self_right, Nat.mod_eq_of_lt column]
  rw [cellAt, quotient, rest]

theorem place_split {grid : Grid Glyph Color} (positive : 0 < grid.cols) (place : Nat) :
    ∃ row col, col < grid.cols ∧ place = row * grid.cols + col :=
  ⟨place / grid.cols, place % grid.cols, Nat.mod_lt _ positive, (Nat.div_add_mod' _ _).symm⟩

theorem Placed.cursor_lt {grid : Grid Glyph Color} (placed : grid.Placed) :
    grid.cursor < grid.rows * grid.cols :=
  (ScanLines.place_lt_iff placed.col grid.rows).mpr placed.row

theorem setCell_cellAt {grid : Grid Glyph Color} {row col : Nat} {cell : Cell Glyph Color}
    (column : col < grid.cols) (place : Nat) :
    (grid.setCell row col cell).cellAt place =
      if place = row * grid.cols + col then cell else grid.cellAt place := by
  rcases place_split (Nat.lt_of_le_of_lt (Nat.zero_le _) column) place with ⟨r, c, inside, rfl⟩
  have same := @ScanLines.place_inj grid.cols c r col row inside column
  have after : (grid.setCell row col cell).cellAt (r * grid.cols + c) =
      (grid.setCell row col cell).cells r c := cellAt_place inside
  rw [after, cellAt_place inside]
  dsimp only [setCell]
  by_cases here : r = row ∧ c = col
  · rw [if_pos here, if_pos (same.mpr ⟨here.2, here.1⟩)]
  · rw [if_neg here, if_neg (fun equal => here ⟨(same.mp equal).2, (same.mp equal).1⟩)]

theorem dropTop_cellAt {grid : Grid Glyph Color} (positive : 0 < grid.cols) (place : Nat) :
    grid.dropTop.cellAt place =
      if place + grid.cols < grid.rows * grid.cols then grid.cellAt (place + grid.cols)
      else .blank grid.bg := by
  rcases place_split positive place with ⟨r, c, inside, rfl⟩
  have next : r * grid.cols + c + grid.cols = (r + 1) * grid.cols + c := by
    rw [Nat.succ_mul]
    omega
  have after : grid.dropTop.cellAt (r * grid.cols + c) = grid.dropTop.cells r c :=
    cellAt_place inside
  rw [after, next, cellAt_place inside]
  have above := @ScanLines.place_lt_iff grid.cols c (r + 1) inside grid.rows
  dsimp only [dropTop]
  by_cases kept : r + 1 < grid.rows
  · rw [if_pos kept, if_pos (above.mpr kept)]
  · rw [if_neg kept, if_neg (fun below => kept (above.mp below))]

/-! ### Edits of the tape -/

/-- What an edit leaves as it was. -/
structure Like (grid next : Grid Glyph Color) : Prop where
  rows : next.rows = grid.rows
  cols : next.cols = grid.cols
  fg : next.fg = grid.fg
  bg : next.bg = grid.bg

/-- The cursor on the next place, with the tape shifted by whole rows where it has run out. -/
structure Advanced (grid next : Grid Glyph Color) (shift : Nat) : Prop where
  like : grid.Like next
  placed : next.Placed
  cursor : next.cursor + shift = grid.cursor + 1
  scrolls : shift + grid.cols * grid.scrolls = grid.cols * next.scrolls
  last : shift = 0 ∨ shift = grid.cols ∧ grid.cursor + 1 = grid.rows * grid.cols
  cells : ∀ place, place + shift < grid.rows * grid.cols →
    next.cellAt place = grid.cellAt (place + shift)

theorem Placed.advance {grid : Grid Glyph Color} (placed : grid.Placed) :
    ∃ shift, Advanced grid { grid with col := grid.col + 1 }.settle shift := by
  have row := placed.row
  have col := placed.col
  unfold settle
  by_cases wraps : grid.cols ≤ grid.col + 1
  · simp only [if_pos wraps]
    have lastCol : grid.col + 1 = grid.cols := by omega
    by_cases bottom : grid.rows ≤ grid.row + 1
    · rw [if_pos bottom]
      have lastRow : grid.row + 1 = grid.rows := by omega
      have total : grid.cursor + 1 = grid.rows * grid.cols := by
        rw [cursor, ← lastRow, Nat.succ_mul]
        omega
      refine ⟨grid.cols, ⟨rfl, rfl, rfl, rfl⟩, ⟨?_, ?_⟩, ?_, ?_, Or.inr ⟨rfl, total⟩, ?_⟩
      · exact Nat.sub_lt (by omega) Nat.one_pos
      · exact Nat.lt_of_le_of_lt (Nat.zero_le _) col
      · rw [total, ← lastRow, Nat.succ_mul]
        rfl
      · exact Nat.add_comm _ _
      · intro place inside
        have shifted := @dropTop_cellAt _ _ grid (by omega) place
        rw [if_pos inside] at shifted
        exact shifted
    · rw [if_neg bottom]
      refine ⟨0, ⟨rfl, rfl, rfl, rfl⟩, ⟨?_, ?_⟩, ?_, Nat.zero_add _, Or.inl rfl, ?_⟩
      · exact Nat.lt_of_not_le bottom
      · exact Nat.lt_of_le_of_lt (Nat.zero_le _) col
      · dsimp only [cursor]
        rw [Nat.succ_mul]
        omega
      · intro place _
        rfl
  · simp only [if_neg wraps]
    have above : ¬ grid.rows ≤ grid.row := by omega
    rw [if_neg above]
    refine ⟨0, ⟨rfl, rfl, rfl, rfl⟩, ⟨row, Nat.lt_of_not_le wraps⟩, ?_, Nat.zero_add _, Or.inl rfl, ?_⟩
    · exact Nat.add_assoc _ _ _
    · intro place _
      rfl

theorem Placed.write {grid : Grid Glyph Color} (placed : grid.Placed) (glyph : Glyph) :
    ∃ shift, Advanced (grid.setCell grid.row grid.col (.glyph glyph grid.fg grid.bg))
      (grid.edit (.write glyph)) shift :=
  @Placed.advance _ _ (grid.setCell grid.row grid.col (.glyph glyph grid.fg grid.bg))
    ⟨placed.row, placed.col⟩

theorem Placed.backspace {grid : Grid Glyph Color} (placed : grid.Placed)
    (positive : 0 < grid.cursor) :
    grid.Like (grid.edit .backspace) ∧ (grid.edit .backspace).Placed ∧
      (grid.edit .backspace).cursor + 1 = grid.cursor ∧
      (grid.edit .backspace).scrolls = grid.scrolls ∧
      ∀ place, (grid.edit .backspace).cellAt place =
        if place + 1 = grid.cursor then .blank grid.bg else grid.cellAt place := by
  have row := placed.row
  have col := placed.col
  by_cases inside : 0 < grid.col
  · have stepped : grid.edit .backspace = { grid with col := grid.col - 1 }.setCell grid.row
        (grid.col - 1) (.blank grid.bg) := if_pos inside
    have back : grid.row * grid.cols + (grid.col - 1) + 1 = grid.cursor := by
      unfold cursor
      omega
    rw [stepped]
    refine ⟨⟨rfl, rfl, rfl, rfl⟩, ⟨row, Nat.lt_of_le_of_lt (Nat.sub_le _ _) col⟩, back, rfl, ?_⟩
    intro place
    have same : place = grid.row * grid.cols + (grid.col - 1) ↔ place + 1 = grid.cursor := by
      omega
    have cell := @setCell_cellAt _ _ { grid with col := grid.col - 1 } grid.row (grid.col - 1)
      (.blank grid.bg) (Nat.lt_of_le_of_lt (Nat.sub_le _ _) col) place
    simp only [same] at cell
    exact cell
  · have firstCol : grid.col = 0 := by omega
    have below : 0 < grid.row := by
      apply Nat.pos_of_ne_zero
      intro top
      rw [cursor, top, firstCol] at positive
      omega
    have stepped : grid.edit .backspace =
        { grid with row := grid.row - 1, col := grid.cols - 1 }.setCell
          (grid.row - 1) (grid.cols - 1) (.blank grid.bg) := by
      unfold edit
      rw [if_neg inside, if_pos below]
    have back : (grid.row - 1) * grid.cols + (grid.cols - 1) + 1 = grid.cursor := by
      have whole : (grid.row - 1 + 1) * grid.cols = grid.row * grid.cols := by
        rw [Nat.sub_add_cancel below]
      rw [Nat.succ_mul] at whole
      rw [cursor, firstCol]
      omega
    have last : grid.cols - 1 < grid.cols := by omega
    rw [stepped]
    refine ⟨⟨rfl, rfl, rfl, rfl⟩, ⟨Nat.lt_of_le_of_lt (Nat.sub_le _ _) row, last⟩, back, rfl, ?_⟩
    intro place
    have same : place = (grid.row - 1) * grid.cols + (grid.cols - 1) ↔
        place + 1 = grid.cursor := by
      omega
    have cell := @setCell_cellAt _ _ { grid with row := grid.row - 1, col := grid.cols - 1 }
      (grid.row - 1) (grid.cols - 1) (.blank grid.bg) last place
    simp only [same] at cell
    exact cell

end Grid

end TextGrid
