/-
Where the terminal stores.

Glyph cells of the rows and columns lie inside the picture, and the cursor stays on them.
So no store or read leaves the buffer, and no glyph reaches beyond the width; for a font
that has all ASCII glyphs no slice is indexed outside its range.
-/

import Mathlib.Algebra.Group.Nat.Defs
import CustomKernel.Ui.Terminal

set_option autoImplicit false

namespace CustomKernel.Ui

def InBounds (display : Display) : Access → Prop
  | .pixel x y => x < display.width ∧ y * display.pitch + x < display.height * display.pitch
  | .write index => index < display.height * display.pitch
  | .read index => index < display.height * display.pitch

/-- At least one glyph fits, and the lines of the buffer are as long as those of the
picture. -/
structure Display.Fits (display : Display) : Prop where
  glyphW : 0 < display.glyphW
  glyphH : 0 < display.glyphH
  cols : display.cols = display.width / display.glyphW
  rows : display.rows = display.height / display.glyphH
  wide : display.glyphW ≤ display.width
  tall : display.glyphH ≤ display.height
  pitch : display.width ≤ display.pitch

namespace Display.Fits

variable {display : Display}

theorem cols_pos (fits : display.Fits) : 0 < display.cols := by
  rw [fits.cols]
  exact Nat.div_pos fits.wide fits.glyphW

theorem rows_pos (fits : display.Fits) : 0 < display.rows := by
  rw [fits.rows]
  exact Nat.div_pos fits.tall fits.glyphH

theorem cell_inside {index count unit offset length : Nat} (quotient : count = length / unit)
    (cell : index < count) (inside : offset < unit) : index * unit + offset < length := by
  have multiple : (index + 1) * unit ≤ count * unit := Nat.mul_le_mul_right unit cell
  have total : count * unit ≤ length := by
    rw [quotient]
    exact Nat.div_mul_le_self length unit
  rw [Nat.succ_mul] at multiple
  omega

theorem column_inside (fits : display.Fits) {col gx : Nat} (cell : col < display.cols)
    (inside : gx < display.glyphW) : col * display.glyphW + gx < display.width :=
  cell_inside fits.cols cell inside

theorem line_inside (fits : display.Fits) {row gy : Nat} (cell : row < display.rows)
    (inside : gy < display.glyphH) : row * display.glyphH + gy < display.height :=
  cell_inside fits.rows cell inside

theorem bands_inside (fits : display.Fits) :
    display.rows * (display.glyphH * display.pitch) ≤ display.height * display.pitch := by
  rw [← Nat.mul_assoc]
  apply Nat.mul_le_mul_right
  rw [fits.rows]
  exact Nat.div_mul_le_self _ _

end Display.Fits

/-! ### What the drawing operations leave alone -/

structure Controls where
  display : Display
  col : Nat
  row : Nat
  fg : Color
  bg : Color
  scrolls : Nat

namespace Terminal

def controls (t : Terminal) : Controls :=
  { display := t.toDisplay, col := t.col, row := t.row, fg := t.fg, bg := t.bg,
    scrolls := t.scrolls }

/-- The terminal has these controls, and its accesses are in bounds. -/
structure Keeps (controls : Controls) (t : Terminal) : Prop where
  same : t.controls = controls
  bounded : ∀ access, access ∈ t.accesses → InBounds controls.display access

theorem Keeps.glyphW {controls : Controls} {t : Terminal} (keeps : Keeps controls t) :
    t.glyphW = controls.display.glyphW :=
  congrArg (fun kept => kept.display.glyphW) keeps.same

theorem Keeps.putPixel {controls : Controls} {t : Terminal} (keeps : Keeps controls t)
    {x y : Nat} (color : Color) (column : x < controls.display.width)
    (line : y < controls.display.height)
    (pitch : controls.display.width ≤ controls.display.pitch) :
    Keeps controls (t.putPixel x y color) where
  same := keeps.same
  bounded := by
    intro access member
    rcases List.mem_cons.mp member with here | earlier
    · rw [here]
      refine ⟨column, ?_⟩
      rw [ScanLines.place_lt_iff (by omega)]
      exact line
    · exact keeps.bounded access earlier

theorem Keeps.write {controls : Controls} {t : Terminal} (keeps : Keeps controls t)
    {index : Nat} (color : Color)
    (inside : index < controls.display.height * controls.display.pitch) :
    Keeps controls (t.write index color) where
  same := keeps.same
  bounded := by
    intro access member
    rcases List.mem_cons.mp member with here | earlier
    · rw [here]
      exact inside
    · exact keeps.bounded access earlier

theorem Keeps.foldl {controls : Controls} {t : Terminal} {step : Terminal → Nat → Terminal}
    {count : Nat} (keeps : Keeps controls t)
    (each : ∀ state i, i < count → Keeps controls state → Keeps controls (step state i)) :
    Keeps controls ((List.range count).foldl step t) := by
  induction count with
  | zero => exact keeps
  | succ count ih =>
      rw [List.range_succ, List.foldl_append]
      apply each _ count (Nat.lt_succ_self count)
      exact ih (fun state i below => each state i (Nat.lt_succ_of_lt below))

theorem Keeps.fill {controls : Controls} {t : Terminal} (keeps : Keeps controls t)
    {first count : Nat} (color : Color)
    (inside : first + count ≤ controls.display.height * controls.display.pitch) :
    Keeps controls (t.fill first count color) := by
  apply keeps.foldl
  intro state i below kept
  exact kept.write color (by omega)

theorem Keeps.copy {controls : Controls} {t : Terminal} (keeps : Keeps controls t)
    {source target count : Nat}
    (sourceInside : source + count ≤ controls.display.height * controls.display.pitch)
    (targetInside : target + count ≤ controls.display.height * controls.display.pitch) :
    Keeps controls (t.copy source target count) where
  same := keeps.same
  bounded := by
    intro access member
    rcases List.mem_append.mp member with read | later
    · obtain ⟨i, below, same⟩ := List.mem_map.mp read
      rw [List.mem_range] at below
      rw [← same]
      exact Nat.lt_of_lt_of_le (Nat.add_lt_add_left below source) sourceInside
    · rcases List.mem_append.mp later with written | earlier
      · obtain ⟨i, below, same⟩ := List.mem_map.mp written
        rw [List.mem_range] at below
        rw [← same]
        exact Nat.lt_of_lt_of_le (Nat.add_lt_add_left below target) targetInside
      · exact keeps.bounded access earlier

/-! ### The operations -/

section

variable {font : FontBytes} {t : Terminal}

def Bounded (t : Terminal) : Prop :=
  ∀ access, access ∈ t.accesses → InBounds t.toDisplay access

theorem keeps_controls (bounded : t.Bounded) : Keeps t.controls t := ⟨rfl, bounded⟩

/-- A glyph is drawn inside the picture, also where the font's slice ends too early. -/
theorem drawGlyph_keeps {col row : Nat} (c : BitVec 8) (fits : t.Fits) (bounded : t.Bounded)
    (column : col < t.cols) (line : row < t.rows) :
    Keeps t.controls (KeptState.left (drawGlyph font t col row c)) := by
  unfold drawGlyph
  split
  · exact keeps_controls bounded
  · apply KeptState.left_foldlM _ (keeps_controls bounded)
    intro outer gy inLines outerKept
    rw [List.mem_range] at inLines
    apply KeptState.left_foldlM _ outerKept
    intro inner gx inColumns innerKept
    rw [List.mem_range, outerKept.glyphW] at inColumns
    dsimp only
    split
    · exact innerKept
    · exact innerKept.putPixel _ (fits.column_inside column inColumns)
        (fits.line_inside line inLines) fits.pitch

theorem eraseGlyph_keeps {col row : Nat} (fits : t.Fits) (bounded : t.Bounded)
    (column : col < t.cols) (line : row < t.rows) :
    Keeps t.controls (t.eraseGlyph col row) := by
  apply (keeps_controls bounded).foldl
  intro outer gy inLines outerKept
  apply outerKept.foldl
  intro inner gx inColumns innerKept
  rw [outerKept.glyphW] at inColumns
  exact innerKept.putPixel _ (fits.column_inside column inColumns)
    (fits.line_inside line inLines) fits.pitch

theorem scroll_keeps (fits : t.Fits) (bounded : t.Bounded) :
    Keeps { t.controls with scrolls := t.scrolls + 1 } t.scroll := by
  have bands := fits.bands_inside
  have rows := fits.rows_pos
  have split : (t.rows - 1) * (t.glyphH * t.pitch) + t.glyphH * t.pitch =
      t.rows * (t.glyphH * t.pitch) := by
    rw [← Nat.succ_mul, Nat.succ_eq_add_one, Nat.sub_add_cancel rows]
  have filled : Keeps t.controls ((t.copy (t.glyphH * t.pitch) 0
      ((t.rows - 1) * (t.glyphH * t.pitch))).fill ((t.rows - 1) * (t.glyphH * t.pitch))
        (t.glyphH * t.pitch) t.bg) := by
    apply Keeps.fill
    · apply (keeps_controls bounded).copy
      · dsimp only [controls]
        omega
      · dsimp only [controls]
        omega
    · dsimp only [controls]
      omega
  exact ⟨congrArg (fun kept => { kept with scrolls := t.scrolls + 1 }) filled.same, filled.bounded⟩

theorem clear_keeps (bounded : t.Bounded) :
    Keeps { t.controls with col := 0, row := 0 } t.clear := by
  apply Keeps.fill
  · exact ⟨rfl, bounded⟩
  · dsimp only [controls]
    omega

/-- Between two calls: the cursor is on a cell, and no access was out of bounds. -/
structure Ready (t : Terminal) : Prop where
  fits : t.Fits
  col : t.col < t.cols
  row : t.row < t.rows
  bounded : t.Bounded

def On (display : Display) (t : Terminal) : Prop := t.toDisplay = display ∧ t.Ready

theorem Keeps.bounded_of {controls : Controls} {t : Terminal} (keeps : Keeps controls t) :
    t.Bounded := by
  have display := congrArg Controls.display keeps.same
  intro access member
  have inside := keeps.bounded access member
  rw [← display] at inside
  exact inside

theorem Keeps.on {controls : Controls} {t : Terminal} (keeps : Keeps controls t)
    (fits : controls.display.Fits) (col : controls.col < controls.display.cols)
    (row : controls.row < controls.display.rows) : On controls.display t := by
  have bounded := keeps.bounded_of
  have same := keeps.same
  subst same
  exact ⟨rfl, fits, col, row, bounded⟩

/-- Wherever the cursor has moved, the end of `putc` brings it back. -/
theorem settle_on (fits : t.Fits) (bounded : t.Bounded) : On t.toDisplay t.settle := by
  have cols := fits.cols_pos
  have rows := fits.rows_pos
  unfold settle
  by_cases last : t.cols ≤ t.col
  · simp only [if_pos last]
    by_cases bottom : t.rows ≤ t.row + 1
    · rw [if_pos bottom]
      have kept := @scroll_keeps { t with col := 0, row := t.row + 1 } fits bounded
      have moved : Keeps { t.controls with
            col := 0, row := t.rows - 1, scrolls := t.scrolls + 1 }
          { scroll { t with col := 0, row := t.row + 1 } with row := t.rows - 1 } :=
        ⟨congrArg (fun kept : Controls => { kept with row := t.rows - 1 }) kept.same, kept.bounded⟩
      exact moved.on fits cols (Nat.sub_lt rows Nat.one_pos)
    · rw [if_neg bottom]
      exact ⟨rfl, fits, cols, Nat.lt_of_not_le bottom, bounded⟩
  · simp only [if_neg last]
    by_cases bottom : t.rows ≤ t.row
    · rw [if_pos bottom]
      have kept := scroll_keeps fits bounded
      have moved : Keeps { t.controls with row := t.rows - 1, scrolls := t.scrolls + 1 }
          { t.scroll with row := t.rows - 1 } :=
        ⟨congrArg (fun kept : Controls => { kept with row := t.rows - 1 }) kept.same, kept.bounded⟩
      exact moved.on fits (Nat.lt_of_not_le last) (Nat.sub_lt rows Nat.one_pos)
    · rw [if_neg bottom]
      exact ⟨rfl, fits, Nat.lt_of_not_le last, Nat.lt_of_not_le bottom, bounded⟩

theorem putc_on {display : Display} (c : Char) (on : On display t) :
    On display (KeptState.left (putc font t c)) := by
  rcases on with ⟨rfl, ready⟩
  unfold putc
  split
  · exact @settle_on { t with col := 0, row := t.row + 1 } ready.fits ready.bounded
  · split
    · exact @settle_on { t with col := 0 } ready.fits ready.bounded
    · have kept := @drawGlyph_keeps font t t.col t.row (shown c) ready.fits ready.bounded
        ready.col ready.row
      apply KeptState.left_bind (kept.on ready.fits ready.col ready.row)
      intro drawn _ drawnOn
      rcases drawnOn with ⟨display, drawnReady⟩
      rw [← display]
      exact @settle_on { drawn with col := drawn.col + 1 } drawnReady.fits drawnReady.bounded

theorem print_on {display : Display} (s : List Char) (on : On display t) :
    On display (KeptState.left (print font t s)) :=
  KeptState.left_foldlM (fun _ c _ here => putc_on c here) on

theorem backspace_on {display : Display} (on : On display t) : On display t.backspace := by
  rcases on with ⟨rfl, ready⟩
  have col := ready.col
  have row := ready.row
  unfold backspace
  split
  · have left : t.col - 1 < t.cols := by omega
    exact (@eraseGlyph_keeps { t with col := t.col - 1 } (t.col - 1) t.row ready.fits
      ready.bounded left row).on ready.fits left row
  · split
    · have above : t.row - 1 < t.rows := by omega
      have last : t.cols - 1 < t.cols := by omega
      exact (@eraseGlyph_keeps { t with row := t.row - 1, col := t.cols - 1 } (t.cols - 1)
        (t.row - 1) ready.fits ready.bounded last above).on ready.fits last above
    · exact ⟨rfl, ready⟩

theorem call_on {display : Display} (call : TerminalCall) (on : On display t) :
    On display (KeptState.left (t.call font call)) := by
  cases call with
  | putc c => exact putc_on c on
  | print s => exact print_on s on
  | backspace => exact backspace_on on
  | clear =>
      rcases on with ⟨rfl, ready⟩
      exact (clear_keeps ready.bounded).on ready.fits ready.fits.cols_pos ready.fits.rows_pos
  | setColor fg bg => exact ⟨on.1, on.2.fits, on.2.col, on.2.row, on.2.bounded⟩
  | printHex64 v =>
      apply KeptState.left_bind (print_on ['0', 'x'] on)
      intro prefixed _ here
      exact print_on _ here
  | printUsize v =>
      dsimp only [call, printUsize]
      split
      · exact putc_on '0' on
      · split
        · exact on
        · exact print_on _ on

theorem run_on {display : Display} (calls : List TerminalCall) (on : On display t) :
    On display (KeptState.left (t.run font calls)) :=
  KeptState.left_foldlM (fun _ call _ here => call_on call here) on

end

end Terminal

/-! ### Fonts that have every glyph -/

/-- The font has the 128 glyphs of ASCII, each with a whole number of bytes a line. -/
structure Display.Covered (display : Display) (font : FontBytes) : Prop where
  glyphs : display.headerSize + 128 * display.bytesPerGlyph ≤ font.length
  bytes : display.glyphH * ((display.glyphW + 7) / 8) ≤ display.bytesPerGlyph

/-- Whether the pixel of a glyph is lit: lines of whole bytes, highest bit first. -/
def Display.lit (display : Display) (font : FontBytes) (c : BitVec 8) (gx gy : Nat) : Bool :=
  (font.getD (display.headerSize + c.toNat * display.bytesPerGlyph +
    (gy * ((display.glyphW + 7) / 8) + gx / 8)) 0#8).getLsbD (7 - gx % 8)

theorem shifted_bit (byte : BitVec 8) (bit : Nat) :
    (byte >>> bit) &&& 1#8 ≠ 0#8 ↔ byte.getLsbD bit = true := by
  rw [BitVec.and_one_eq_setWidth_ofBool_getLsbD, BitVec.getLsbD_ushiftRight, Nat.add_zero]
  cases byte.getLsbD bit with
  | false => simp
  | true => simp

theorem getGlyph_covered {font : FontBytes} {display : Display} (covered : display.Covered font)
    {c : BitVec 8} (ascii : c.toNat < 128) :
    ∃ bits, getGlyph font c display.headerSize display.bytesPerGlyph = some bits ∧
      ∀ i, i < display.bytesPerGlyph → bits[i]? =
        some (font.getD (display.headerSize + c.toNat * display.bytesPerGlyph + i) 0#8) := by
  have glyphs := covered.glyphs
  have multiple : (c.toNat + 1) * display.bytesPerGlyph ≤ 128 * display.bytesPerGlyph :=
    Nat.mul_le_mul_right _ ascii
  rw [Nat.succ_mul] at multiple
  refine ⟨_, if_pos (by omega), ?_⟩
  intro i below
  have inside : display.headerSize + c.toNat * display.bytesPerGlyph + i < font.length := by omega
  rw [List.getElem?_take_of_lt below, List.getElem?_drop, List.getD_eq_getElem?_getD,
    List.getElem?_eq_getElem inside]
  rfl

namespace Terminal

/-- The stores of a glyph or of a blank, without the font. -/
def paint (t : Terminal) (col row : Nat) (color : Nat → Nat → Color) : Terminal :=
  (List.range t.glyphH).foldl
    (fun current gy => (List.range current.glyphW).foldl
      (fun inner gx =>
        inner.putPixel (col * t.glyphW + gx) (row * t.glyphH + gy) (color gx gy)) current) t

theorem eraseGlyph_eq (t : Terminal) (col row : Nat) :
    t.eraseGlyph col row = t.paint col row (fun _ _ => t.bg) := rfl

theorem foldl_controls {controls : Controls} {t : Terminal} {step : Terminal → Nat → Terminal}
    (each : ∀ state i, state.controls = controls → (step state i).controls = controls)
    (same : t.controls = controls) (items : List Nat) :
    (items.foldl step t).controls = controls := by
  induction items generalizing t with
  | nil => exact same
  | cons item rest ih => exact ih (each t item same)

theorem paint_controls (t : Terminal) (col row : Nat) (color : Nat → Nat → Color) :
    (t.paint col row color).controls = t.controls := by
  apply foldl_controls _ rfl
  intro outer gy outerSame
  apply foldl_controls _ outerSame
  intro inner gx innerSame
  exact innerSame

theorem drawGlyph_eq {font : FontBytes} {t : Terminal} (covered : t.Covered font)
    {c : BitVec 8} (ascii : c.toNat < 128) (col row : Nat) :
    drawGlyph font t col row c =
      .ok (t.paint col row (fun gx gy => if t.lit font c gx gy then t.fg else t.bg)) := by
  obtain ⟨bits, slice, bytes⟩ := getGlyph_covered covered ascii
  unfold drawGlyph
  rw [slice]
  apply KeptState.foldlM_eq_foldl (fun state => state.controls = t.controls) _ rfl
  intro outer gy inLines outerSame
  rw [List.mem_range] at inLines
  have width : outer.glyphW = t.glyphW :=
    congrArg (fun kept : Controls => kept.display.glyphW) outerSame
  constructor
  · apply KeptState.foldlM_eq_foldl (fun _ => True) _ trivial
    intro inner gx inColumns _
    rw [List.mem_range, width] at inColumns
    have index : gy * ((t.glyphW + 7) / 8) + gx / 8 < t.bytesPerGlyph := by
      have line : (gy + 1) * ((t.glyphW + 7) / 8) ≤ t.glyphH * ((t.glyphW + 7) / 8) :=
        Nat.mul_le_mul_right _ inLines
      have total := covered.bytes
      rw [Nat.succ_mul] at line
      omega
    refine ⟨?_, trivial⟩
    rw [bytes _ index]
    dsimp only
    simp only [shifted_bit]
    rfl
  · apply foldl_controls _ outerSame
    intro inner gx innerSame
    exact innerSame

theorem shown_ascii (c : Char) : (shown c).toNat < 128 := by
  unfold shown
  split
  · rename_i ascii
    rw [BitVec.toNat_ofNat]
    exact Nat.lt_of_le_of_lt (Nat.mod_le _ _) ascii.1
  · decide

section

variable {font : FontBytes} {display : Display} {t : Terminal}

def GoesOn (display : Display) (result : Except Terminal Terminal) : Prop :=
  ∃ next, result = .ok next ∧ On display next

theorem putc_goes_on (covered : display.Covered font) (on : On display t) (c : Char) :
    GoesOn display (putc font t c) := by
  have kept := @putc_on font t display c on
  cases result : putc font t c with
  | ok next =>
      rw [result] at kept
      exact ⟨next, rfl, kept⟩
  | error stopped =>
      rcases on with ⟨rfl, _⟩
      unfold putc at result
      rw [drawGlyph_eq covered (shown_ascii c)] at result
      split at result
      · cases result
      · split at result
        · cases result
        · cases result

theorem print_goes_on (covered : display.Covered font) (on : On display t) (s : List Char) :
    GoesOn display (print font t s) :=
  KeptState.foldlM_goes_on (On display) (fun _ c _ here => putc_goes_on covered here c) on

theorem usizeDigits_some {room v : Nat} (small : v < 10 ^ room) (buf : List (BitVec 8)) :
    ∃ digits, usizeDigits room v buf = some digits := by
  induction room generalizing v buf with
  | zero =>
      have zero : v = 0 := by omega
      exact ⟨buf, by rw [usizeDigits, if_pos zero]⟩
  | succ room ih =>
      by_cases zero : v = 0
      · exact ⟨buf, by rw [usizeDigits, if_pos zero]⟩
      · have smaller : v / 10 < 10 ^ room := by
          rw [Nat.pow_succ] at small
          omega
        rw [usizeDigits, if_neg zero]
        exact ih smaller _

theorem call_goes_on (covered : display.Covered font) (on : On display t) (call : TerminalCall) :
    GoesOn display (t.call font call) := by
  have kept := @call_on font t display call on
  cases call with
  | putc c => exact putc_goes_on covered on c
  | print s => exact print_goes_on covered on s
  | backspace => exact ⟨_, rfl, kept⟩
  | clear => exact ⟨_, rfl, kept⟩
  | setColor fg bg => exact ⟨_, rfl, kept⟩
  | printHex64 v =>
      obtain ⟨prefixed, result, here⟩ := print_goes_on covered on ['0', 'x']
      dsimp only [call, printHex64]
      rw [result]
      exact print_goes_on covered here _
  | printUsize v =>
      have small : v.toNat < 10 ^ 20 := Nat.lt_trans v.isLt (by decide)
      obtain ⟨digits, written⟩ := usizeDigits_some small []
      dsimp only [call, printUsize]
      split
      · exact putc_goes_on covered on '0'
      · rw [written]
        exact print_goes_on covered on _

end

/-! ### Runs -/

theorem new_some {font : FontBytes} {framebuffers : Option (List Framebuffer)}
    {pixels : Nat → Color} {t : Terminal} (opened : new font framebuffers pixels = some t) :
    ∃ base : Terminal, t = base.clear ∧ base.accesses = [] ∧ 0 < base.glyphW ∧
      0 < base.glyphH ∧ base.cols = base.width / base.glyphW ∧
      base.rows = base.height / base.glyphH ∧ base.fg = COLOR_FG ∧ base.bg = COLOR_BG ∧
      base.scrolls = 0 := by
  obtain ⟨fbs, _, opened⟩ := Option.bind_eq_some_iff.mp opened
  obtain ⟨fb, _, opened⟩ := Option.bind_eq_some_iff.mp opened
  obtain ⟨header, _, opened⟩ := Option.bind_eq_some_iff.mp opened
  split at opened
  · cases opened
  · rename_i extent
    have same := (Option.some.inj opened).symm
    exact ⟨_, same, rfl, by dsimp only; omega, by dsimp only; omega, rfl, rfl, rfl, rfl, rfl⟩

theorem clear_display (t : Terminal) : t.clear.toDisplay = t.toDisplay := by
  have same : t.clear.controls = { t.controls with col := 0, row := 0 } := by
    apply foldl_controls _ rfl
    intro state i here
    exact here
  exact congrArg Controls.display same

theorem new_on {font : FontBytes} {framebuffers : Option (List Framebuffer)}
    {pixels : Nat → Color} {t : Terminal} (opened : new font framebuffers pixels = some t)
    (wide : t.glyphW ≤ t.width) (tall : t.glyphH ≤ t.height) (pitch : t.width ≤ t.pitch) :
    On t.toDisplay t := by
  obtain ⟨base, same, empty, glyphW, glyphH, cols, rows, _⟩ := new_some opened
  subst same
  rw [clear_display] at wide tall pitch ⊢
  have fits : base.Fits := ⟨glyphW, glyphH, cols, rows, wide, tall, pitch⟩
  have bounded : base.Bounded := by
    intro access member
    rw [empty] at member
    cases member
  exact (clear_keeps bounded).on fits fits.cols_pos fits.rows_pos

/-- Whatever is called after `Terminal::new`, every access is in bounds, also those of a
call that panics; between calls the cursor is on a cell; and no call panics if the font
has the glyphs of ASCII. -/
theorem terminal_accesses_in_bounds {font : FontBytes}
    {framebuffers : Option (List Framebuffer)} {pixels : Nat → Color} {t : Terminal}
    (opened : new font framebuffers pixels = some t) (wide : t.glyphW ≤ t.width)
    (tall : t.glyphH ≤ t.height) (pitch : t.width ≤ t.pitch) (calls : List TerminalCall) :
    (∀ access, access ∈ (KeptState.left (t.run font calls)).accesses →
      InBounds t.toDisplay access) ∧
    (∀ final, t.run font calls = .ok final → final.col < final.cols ∧ final.row < final.rows) ∧
    (t.Covered font → ∃ final, t.run font calls = .ok final) := by
  have on := new_on opened wide tall pitch
  have reached := @run_on font t t.toDisplay calls on
  refine ⟨?_, ?_, ?_⟩
  · intro access member
    have inside := reached.2.bounded access member
    rw [reached.1] at inside
    exact inside
  · intro final ran
    rw [ran] at reached
    exact ⟨reached.2.col, reached.2.row⟩
  · intro covered
    obtain ⟨final, ran, _⟩ := KeptState.foldlM_goes_on (On t.toDisplay)
      (fun _ call _ here => call_goes_on covered here call) on
    exact ⟨final, ran⟩

def sampleFont : FontBytes :=
  List.replicate 8 0#8 ++ ([32#8, 0#8, 0#8, 0#8] ++ (List.replicate 8 0#8 ++
    ([4#8, 0#8, 0#8, 0#8] ++ ([2#8, 0#8, 0#8, 0#8] ++ ([9#8, 0#8, 0#8, 0#8] ++
      List.replicate 512 0x81#8)))))

def sampleFramebuffers : Option (List Framebuffer) :=
  some [{ width := 20, height := 5, pitch := 88 }]

def sampleDisplay : Display :=
  { width := 20, height := 5, pitch := 22, cols := 2, rows := 2, glyphH := 2, glyphW := 9,
    bytesPerGlyph := 4, headerSize := 32 }

theorem sample_covered : sampleDisplay.Covered sampleFont where
  glyphs := by
    simp only [sampleFont, List.length_append, List.length_replicate, List.length_cons,
      List.length_nil]
    decide
  bytes := by decide

theorem sample_opens :
    ∃ t, new sampleFont sampleFramebuffers (fun _ => 0#32) = some t ∧
      t.toDisplay = sampleDisplay := by
  refine ⟨_, rfl, ?_⟩
  rw [clear_display]
  rfl

theorem sample_in_bounds :
    ∃ t, new sampleFont sampleFramebuffers (fun _ => 0#32) = some t ∧
      ∃ final, t.run sampleFont [.print ['a', 'b', '\n'], .backspace, .printUsize 10#64] =
        .ok final ∧ final.col < final.cols ∧ final.row < final.rows := by
  obtain ⟨t, opened, display⟩ := sample_opens
  have bounds := terminal_accesses_in_bounds opened (by rw [display]; decide)
    (by rw [display]; decide) (by rw [display]; decide)
    [.print ['a', 'b', '\n'], .backspace, .printUsize 10#64]
  obtain ⟨final, ran⟩ := bounds.2.2 (by rw [display]; exact sample_covered)
  exact ⟨t, opened, final, ran, bounds.2.1 final ran⟩

end Terminal

end CustomKernel.Ui
