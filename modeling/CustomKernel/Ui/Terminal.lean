/-
The text terminal on the framebuffer.

Characters are drawn bit by bit from a PSF2 font into a linear buffer of pixels.  All
stores go through unchecked pointers, so every access is recorded; the font's slices are
checked, and an index outside them ends the call in the state it has reached.
-/

import CustomKernel.Foundation.KeptState
import CustomKernel.Foundation.ScanLines

set_option autoImplicit false

namespace CustomKernel.Ui

abbrev Color := BitVec 32

def COLOR_BG : Color := 0x001E1E2E#32

def COLOR_FG : Color := 0x00CDD6F4#32

/-! ### The font -/

/-- `FONT_BYTES`, the file that the build includes. -/
abbrev FontBytes := List (BitVec 8)

/-- `u32::from_le_bytes` of four bytes of the file. -/
def u32At (bytes : FontBytes) (i : Nat) : Option Nat := do
  let first ← bytes[i]?
  let second ← bytes[i + 1]?
  let third ← bytes[i + 2]?
  let fourth ← bytes[i + 3]?
  pure (first.toNat + 256 * (second.toNat + 256 * (third.toNat + 256 * fourth.toNat)))

structure Psf2Header where
  headerSize : Nat
  bytesPerGlyph : Nat
  height : Nat
  width : Nat

def psf2Header (font : FontBytes) : Option Psf2Header := do
  let headerSize ← u32At font 8
  let bytesPerGlyph ← u32At font 20
  let height ← u32At font 24
  let width ← u32At font 28
  pure
    { headerSize := headerSize
      bytesPerGlyph := bytesPerGlyph
      height := height
      width := width }

/-- The slice of a glyph, if it lies in the file. -/
def getGlyph (font : FontBytes) (c : BitVec 8) (headerSize bytesPerGlyph : Nat) :
    Option FontBytes :=
  let offset := headerSize + c.toNat * bytesPerGlyph
  if offset + bytesPerGlyph ≤ font.length then some ((font.drop offset).take bytesPerGlyph)
  else none

/-! ### The terminal -/

/-- What the boot loader reports; its pitch is in bytes. -/
structure Framebuffer where
  width : Nat
  height : Nat
  pitch : Nat

structure Display where
  width : Nat
  height : Nat
  pitch : Nat
  cols : Nat
  rows : Nat
  glyphH : Nat
  glyphW : Nat
  bytesPerGlyph : Nat
  headerSize : Nat

inductive Access where
  | pixel (x y : Nat)
  | write (index : Nat)
  | read (index : Nat)

/-- The terminal with the pixels behind its pointer, by index.  The accesses to them,
latest first, and the number of scrolls are for the record only. -/
structure Terminal extends Display where
  col : Nat
  row : Nat
  fg : Color
  bg : Color
  pixels : Nat → Color
  accesses : List Access
  scrolls : Nat

namespace Terminal

/-- The index of a pixel is below the size of a buffer that is mapped, so it does not
wrap. -/
def putPixel (t : Terminal) (x y : Nat) (color : Color) : Terminal :=
  { t with
    pixels := Function.update t.pixels (y * t.pitch + x) color
    accesses := .pixel x y :: t.accesses }

def write (t : Terminal) (index : Nat) (color : Color) : Terminal :=
  { t with
    pixels := Function.update t.pixels index color
    accesses := .write index :: t.accesses }

def fill (t : Terminal) (first count : Nat) (color : Color) : Terminal :=
  (List.range count).foldl (fun t i => t.write (first + i) color) t

/-- `core::ptr::copy`: the source is read as it was before. -/
def copy (t : Terminal) (source target count : Nat) : Terminal :=
  { t with
    pixels := ScanLines.overlay t.pixels target count (fun i => t.pixels (source + i))
    accesses := (List.range count).map (fun i => Access.read (source + i)) ++
      ((List.range count).map (fun i => Access.write (target + i)) ++ t.accesses) }

def drawGlyph (font : FontBytes) (t : Terminal) (col row : Nat) (c : BitVec 8) :
    Except Terminal Terminal :=
  match getGlyph font c t.headerSize t.bytesPerGlyph with
  | none => .error t
  | some bits =>
      let px := col * t.glyphW
      let py := row * t.glyphH
      let fg := t.fg
      let bg := t.bg
      let bytesPerRow := (t.glyphW + 7) / 8
      (List.range t.glyphH).foldlM
        (fun t gy =>
          (List.range t.glyphW).foldlM
            (fun t gx =>
              match bits[gy * bytesPerRow + gx / 8]? with
              | none => .error t
              | some byte =>
                  let bit := 7 - gx % 8
                  let lit := (byte >>> bit) &&& 1#8 ≠ 0#8
                  .ok (t.putPixel (px + gx) (py + gy) (if lit then fg else bg)))
            t)
        t

def eraseGlyph (t : Terminal) (col row : Nat) : Terminal :=
  let px := col * t.glyphW
  let py := row * t.glyphH
  let bg := t.bg
  (List.range t.glyphH).foldl
    (fun t gy => (List.range t.glyphW).foldl (fun t gx => t.putPixel (px + gx) (py + gy) bg) t) t

def scroll (t : Terminal) : Terminal :=
  let rowLen := t.glyphH * t.pitch
  let copied := t.copy rowLen 0 ((t.rows - 1) * rowLen)
  { copied.fill ((t.rows - 1) * rowLen) rowLen t.bg with scrolls := t.scrolls + 1 }

def clear (t : Terminal) : Terminal :=
  { t with col := 0, row := 0 }.fill 0 (t.height * t.pitch) t.bg

/-- `Terminal::new`; a font without a header, or glyphs of no extent, make it panic. -/
def new (font : FontBytes) (framebuffers : Option (List Framebuffer)) (pixels : Nat → Color) :
    Option Terminal := do
  let fbs ← framebuffers
  let fb ← fbs.head?
  let header ← psf2Header font
  if header.width = 0 ∨ header.height = 0 then none
  else
    pure (clear
      { width := fb.width
        height := fb.height
        pitch := fb.pitch / 4
        cols := fb.width / header.width
        rows := fb.height / header.height
        col := 0
        row := 0
        fg := COLOR_FG
        bg := COLOR_BG
        glyphH := header.height
        glyphW := header.width
        bytesPerGlyph := header.bytesPerGlyph
        headerSize := header.headerSize
        pixels := pixels
        accesses := []
        scrolls := 0 })

def backspace (t : Terminal) : Terminal :=
  if 0 < t.col then { t with col := t.col - 1 }.eraseGlyph (t.col - 1) t.row
  else if 0 < t.row then
    { t with row := t.row - 1, col := t.cols - 1 }.eraseGlyph (t.cols - 1) (t.row - 1)
  else t

def shown (c : Char) : BitVec 8 :=
  if c.toNat < 128 ∧ 32 ≤ c.toNat then BitVec.ofNat 8 c.toNat else 63#8

/-- The end of `putc`: wrap behind the last column, scroll behind the last row. -/
def settle (t : Terminal) : Terminal :=
  let wrapped := if t.cols ≤ t.col then { t with col := 0, row := t.row + 1 } else t
  if wrapped.rows ≤ wrapped.row then { wrapped.scroll with row := wrapped.rows - 1 } else wrapped

def putc (font : FontBytes) (t : Terminal) (c : Char) : Except Terminal Terminal :=
  if c = '\n' then .ok { t with col := 0, row := t.row + 1 }.settle
  else if c = '\r' then .ok { t with col := 0 }.settle
  else do
    let drawn ← drawGlyph font t t.col t.row (shown c)
    pure { drawn with col := drawn.col + 1 }.settle

def print (font : FontBytes) (t : Terminal) (s : List Char) : Except Terminal Terminal :=
  s.foldlM (putc font) t

def setColor (t : Terminal) (fg bg : Color) : Terminal := { t with fg := fg, bg := bg }

/-! ### Numbers -/

def charOf (byte : BitVec 8) : Char := Char.ofNat byte.toNat

/-- The last `n` cells of the buffer of `print_hex64`, in front of those written. -/
def hexDigits : Nat → BitVec 64 → List (BitVec 8) → List (BitVec 8)
  | 0, _, buf => buf
  | n + 1, v, buf =>
      let nib := (v &&& 0xf#64).setWidth 8
      let digit := if nib < 10#8 then 48#8 + nib else 97#8 + nib - 10#8
      hexDigits n (v >>> 4) (digit :: buf)

def printHex64 (font : FontBytes) (t : Terminal) (v : BitVec 64) : Except Terminal Terminal := do
  let prefixed ← print font t ['0', 'x']
  print font prefixed ((hexDigits 16 v []).map charOf)

/-- The digits of `print_usize` in a buffer of which `room` cells are left. -/
def usizeDigits : Nat → Nat → List (BitVec 8) → Option (List (BitVec 8))
  | room, v, buf =>
      if v = 0 then some buf
      else
        match room with
        | 0 => none
        | room + 1 => usizeDigits room (v / 10) (BitVec.ofNat 8 (48 + v % 10) :: buf)

def printUsize (font : FontBytes) (t : Terminal) (v : BitVec 64) : Except Terminal Terminal :=
  if v.toNat = 0 then putc font t '0'
  else
    match usizeDigits 20 v.toNat [] with
    | none => .error t
    | some buf => print font t (buf.map charOf)

end Terminal

/-! ### Calls -/

inductive TerminalCall where
  | putc (c : Char)
  | print (s : List Char)
  | backspace
  | clear
  | setColor (fg bg : Color)
  | printHex64 (v : BitVec 64)
  | printUsize (v : BitVec 64)

def Terminal.call (font : FontBytes) (t : Terminal) : TerminalCall → Except Terminal Terminal
  | .putc c => t.putc font c
  | .print s => t.print font s
  | .backspace => .ok t.backspace
  | .clear => .ok t.clear
  | .setColor fg bg => .ok (t.setColor fg bg)
  | .printHex64 v => t.printHex64 font v
  | .printUsize v => t.printUsize font v

/-- The calls of a run in order, until one panics. -/
def Terminal.run (font : FontBytes) (t : Terminal) (calls : List TerminalCall) :
    Except Terminal Terminal :=
  calls.foldlM (Terminal.call font) t

end CustomKernel.Ui
