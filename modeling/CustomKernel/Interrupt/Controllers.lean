/-
The pair of interrupt controllers.

`remap` programs the two 8259: their lines become the vectors from 32 on, and only the timer
and the keyboard are let through.  The lines of the second one arrive on line 2 of the first.
-/

import CustomKernel.Interrupt.Handlers

set_option autoImplicit false

namespace CustomKernel.Interrupt

/-! ### One controller -/

/-- A word of the initialization that a controller waits for. -/
inductive InitWord where
  | base
  | cascade
  | mode
  deriving DecidableEq

/-- An 8259, with edge-triggered inputs. -/
structure Controller where
  expects : List InitWord
  base : BitVec 8
  cascade : BitVec 8
  mode : BitVec 8
  mask : BitVec 8
  requests : BitVec 8
  inService : BitVec 8
  /-- Which register the command port shows. -/
  readsInService : Bool
  deriving DecidableEq

def lineBit (line : Nat) : BitVec 8 := 1#8 <<< line

namespace Controller

/-- A write to the command port: the first word of the initialization, the choice of a register,
or the end of the interrupt with the lowest line in service. -/
def command (pic : Controller) (value : BitVec 8) : Controller :=
  if value.getLsbD 4 then
    { pic with
      expects := .base :: (if value.getLsbD 1 then [] else [.cascade]) ++
        if value.getLsbD 0 then [.mode] else []
      mode := 0
      mask := 0
      requests := 0
      inService := 0
      readsInService := false }
  else if value.getLsbD 3 then
    if value.getLsbD 1 then { pic with readsInService := value.getLsbD 0 } else pic
  else if value = PIC_EOI then { pic with inService := pic.inService &&& (pic.inService - 1) }
  else pic

def data (pic : Controller) (value : BitVec 8) : Controller :=
  match pic.expects with
  | .base :: rest => { pic with expects := rest, base := value &&& 0xf8 }
  | .cascade :: rest => { pic with expects := rest, cascade := value }
  | .mode :: rest => { pic with expects := rest, mode := value }
  | [] => { pic with mask := value }

def status (pic : Controller) : BitVec 8 :=
  if pic.readsInService then pic.inService else pic.requests

/-- The line for which the controller interrupts: the lowest that is requested and open, if no
lower line and not the line itself is in service. -/
def granted (pic : Controller) (requests : BitVec 8) : Option (Fin 8) :=
  if pic.expects = [] ∧ pic.mode.getLsbD 0 then
    Fin.find? fun line => requests.getLsbD line.val && !pic.mask.getLsbD line.val &&
      (List.range (line.val + 1)).all fun lower => !pic.inService.getLsbD lower
  else none

def acknowledge (pic : Controller) (line : Fin 8) : Controller :=
  { pic with
    requests := pic.requests &&& ~~~(lineBit line.val)
    inService := if pic.mode.getLsbD 1 then pic.inService else pic.inService ||| lineBit line.val }

def request (pic : Controller) (line : Nat) : Controller :=
  { pic with requests := pic.requests ||| lineBit line }

end Controller

/-! ### The pair -/

structure Controllers where
  pic1 : Controller
  pic2 : Controller
  deriving DecidableEq

namespace Controllers

def outb (pics : Controllers) (port : Nat) (value : BitVec 8) : Controllers :=
  if port = PIC1_CMD then { pics with pic1 := pics.pic1.command value }
  else if port = PIC1_DATA then { pics with pic1 := pics.pic1.data value }
  else if port = PIC2_CMD then { pics with pic2 := pics.pic2.command value }
  else if port = PIC2_DATA then { pics with pic2 := pics.pic2.data value }
  else pics

def inb (pics : Controllers) (port : Nat) : BitVec 8 :=
  if port = PIC1_CMD then pics.pic1.status
  else if port = PIC1_DATA then pics.pic1.mask
  else if port = PIC2_CMD then pics.pic2.status
  else if port = PIC2_DATA then pics.pic2.mask
  else 0xff

def ICW1_INIT : BitVec 8 := 0x10
def ICW1_ICW4 : BitVec 8 := 0x01
def ICW4_8086 : BitVec 8 := 0x01

/-- The writes of `remap`; the masks that it reads first are dropped. -/
def remapWrites : List (Nat × BitVec 8) :=
  [(PIC1_CMD, ICW1_INIT ||| ICW1_ICW4), (PIC2_CMD, ICW1_INIT ||| ICW1_ICW4),
    (PIC1_DATA, 32), (PIC2_DATA, 40),
    (PIC1_DATA, 0b00000100), (PIC2_DATA, 2),
    (PIC1_DATA, ICW4_8086), (PIC2_DATA, ICW4_8086),
    (PIC1_DATA, 0b11111100), (PIC2_DATA, 0b11111111)]

def remap (pics : Controllers) : Controllers :=
  remapWrites.foldl (fun pics write => pics.outb write.1 write.2) pics

/-- `set_mark`, which closes a line. -/
def setMark (pics : Controllers) (irq : Fin IRQ_COUNT) : Controllers :=
  let port := if irq.val < 8 then PIC1_DATA else PIC2_DATA
  let line := if irq.val < 8 then irq.val else irq.val - 8
  pics.outb port (pics.inb port ||| lineBit line)

def readIrr (pics : Controllers) : BitVec 8 × Controllers :=
  let pics := pics.outb PIC1_CMD 0x0a
  (pics.inb PIC1_CMD, pics)

def readIsr (pics : Controllers) : BitVec 8 × Controllers :=
  let pics := pics.outb PIC1_CMD 0x0b
  (pics.inb PIC1_CMD, pics)

def raise (pics : Controllers) (irq : Fin IRQ_COUNT) : Controllers :=
  if irq.val < 8 then { pics with pic1 := pics.pic1.request irq.val }
  else { pics with pic2 := pics.pic2.request (irq.val - 8) }

/-- The processor asks for a vector.  The second controller is wired to line 2 of the first,
and answers if it has that number. -/
def acknowledge (pics : Controllers) : Option (Nat × Controllers) :=
  let second := pics.pic2.granted pics.pic2.requests
  match pics.pic1.granted (pics.pic1.requests ||| if second.isSome then lineBit 2 else 0) with
  | none => none
  | some line =>
      let pic1 := pics.pic1.acknowledge line
      if pics.pic1.cascade.getLsbD line.val then
        match second with
        | none => none
        | some inner =>
            if pics.pic2.cascade.toNat = line.val then
              some (pics.pic2.base.toNat + inner.val,
                { pic1 := pic1, pic2 := pics.pic2.acknowledge inner })
            else none
      else some (pics.pic1.base.toNat + line.val, { pics with pic1 := pic1 })

def waiting (pics : Controllers) (irq : Fin IRQ_COUNT) : Bool :=
  if irq.val < 8 then pics.pic1.requests.getLsbD irq.val
  else pics.pic2.requests.getLsbD (irq.val - 8)

end Controllers

/-! ### Bits of the controllers -/

theorem getLsbD_lineBit {line other : Nat} (inside : other < 8) :
    (lineBit line).getLsbD other = decide (other = line) := by
  rw [lineBit, BitVec.getLsbD_shiftLeft, BitVec.getLsbD_one]
  by_cases same : other = line
  · simp [same ▸ inside, same]
  · by_cases below : other < line
    · simp [below, same]
    · have above : other - line ≠ 0 := by omega
      simp [above, same]

namespace Controllers

variable {pics : Controllers}

theorem waiting_raise (irq other : Fin IRQ_COUNT) :
    (pics.raise irq).waiting other = Function.update pics.waiting irq true other := by
  have small := irq.isLt
  have otherSmall := other.isLt
  unfold IRQ_COUNT at small otherSmall
  simp only [Function.update_apply, Fin.ext_iff]
  unfold raise waiting Controller.request
  by_cases first : irq.val < 8
  · rw [if_pos first]
    by_cases otherFirst : other.val < 8
    · rw [if_pos otherFirst, if_pos otherFirst, BitVec.getLsbD_or, getLsbD_lineBit otherFirst]
      by_cases same : other.val = irq.val <;> simp [same]
    · rw [if_neg otherFirst, if_neg otherFirst, if_neg (by omega)]
  · rw [if_neg first]
    by_cases otherFirst : other.val < 8
    · rw [if_pos otherFirst, if_pos otherFirst, if_neg (by omega)]
    · rw [if_neg otherFirst, if_neg otherFirst, BitVec.getLsbD_or,
        getLsbD_lineBit (by omega)]
      by_cases same : other.val = irq.val
      · simp [same]
      · have different : other.val - 8 ≠ irq.val - 8 := by omega
        simp [same, different]

theorem remap_eq (pics : Controllers) :
    pics.remap =
      { pic1 :=
          { expects := []
            base := 32
            cascade := 4
            mode := 1
            mask := 0xfc
            requests := 0
            inService := 0
            readsInService := false }
        pic2 :=
          { expects := []
            base := 40
            cascade := 2
            mode := 1
            mask := 0xff
            requests := 0
            inService := 0
            readsInService := false } } := rfl

theorem setMark_first {irq : Fin IRQ_COUNT} (first : irq.val < 8)
    (ready : pics.pic1.expects = []) :
    pics.setMark irq =
      { pics with pic1 := { pics.pic1 with mask := pics.pic1.mask ||| lineBit irq.val } } := by
  unfold setMark
  dsimp only
  rw [if_pos first, if_pos first]
  change { pics with pic1 := pics.pic1.data (pics.pic1.mask ||| lineBit irq.val) } = _
  rw [Controller.data, ready]

theorem setMark_second {irq : Fin IRQ_COUNT} (second : ¬ irq.val < 8)
    (ready : pics.pic2.expects = []) :
    pics.setMark irq =
      { pics with pic2 := { pics.pic2 with mask := pics.pic2.mask ||| lineBit (irq.val - 8) } } := by
  unfold setMark
  dsimp only
  rw [if_neg second, if_neg second]
  change { pics with pic2 := pics.pic2.data (pics.pic2.mask ||| lineBit (irq.val - 8)) } = _
  rw [Controller.data, ready]

theorem readIrr_eq (pics : Controllers) :
    pics.readIrr =
      (pics.pic1.requests, { pics with pic1 := { pics.pic1 with readsInService := false } }) := rfl

theorem readIsr_eq (pics : Controllers) :
    pics.readIsr =
      (pics.pic1.inService, { pics with pic1 := { pics.pic1 with readsInService := true } }) := rfl

theorem eoi_eq (pics : Controllers) :
    pics.outb PIC1_CMD PIC_EOI =
      { pics with
        pic1 :=
          { pics.pic1 with
            inService := pics.pic1.inService &&& (pics.pic1.inService - 1) } } := rfl

end Controllers

end CustomKernel.Interrupt
