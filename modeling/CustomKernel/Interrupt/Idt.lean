/-
The interrupt descriptor table.

`init_idt` cuts the address of each stub into three fields of a packed entry; the processor
puts them together again when it takes a vector.  From the vector the stub leaves in the frame
`common_handler` finds the handler that a driver has registered, and acknowledges the line.
-/

import CustomKernel.Foundation.LabelledRun
import CustomKernel.Interrupt.Stubs

set_option autoImplicit false

namespace CustomKernel.Interrupt

open ByteStore WordStack

def KERNEL_CS : Nat := 0x28

def GATE_INTERRUPT : Nat := 0x8e

/-- The attributes of the gate for system calls. -/
def GATE_SYSCALL : Nat := 0xee

/-! ### The table -/

/-- `IdtEntry::set` on the packed entry at an address, in the order of its stores. -/
def setEntry (memory : Store) (entry : Nat) (handler : Word) (selector typeAttr : Nat) : Store :=
  let memory := writeLE memory entry 2 (handler &&& 0xffff).toNat
  let memory := writeLE memory (entry + 6) 2 ((handler >>> 16) &&& 0xffff).toNat
  let memory := writeLE memory (entry + 8) 4 ((handler >>> 32) &&& 0xffffffff).toNat
  let memory := writeLE memory (entry + 2) 2 selector
  let memory := writeLE memory (entry + 4) 1 0
  let memory := writeLE memory (entry + 5) 1 typeAttr
  writeLE memory (entry + 12) 4 0

def entryOf (table vector : Nat) : Nat := table + 16 * vector

def installStubs (memory : Store) (table : Nat) (stub : Nat → Word) : Nat → Store
  | 0 => memory
  | n + 1 =>
      setEntry (installStubs memory table stub n) (entryOf table n) (stub n) KERNEL_CS
        GATE_INTERRUPT

/-- The stores of `init_idt`; `stub` gives the addresses of the stubs. -/
def initIdt (memory : Store) (table : Nat) (stub : Nat → Word) : Store :=
  setEntry (installStubs memory table stub 48) (entryOf table 128) (stub 128) KERNEL_CS
    GATE_SYSCALL

structure Idtr where
  limit : Nat
  base : Nat

def idtrOf (table : Nat) : Idtr :=
  { limit := 256 * 16 - 1
    base := table }

/-! ### The processor -/

structure Gate where
  offset : Word
  selector : Nat
  ist : Nat
  gateType : Nat
  dpl : Nat
  present : Bool
  deriving DecidableEq

/-- The descriptor that the processor finds for a vector, unless the table is too short. -/
def gateAt (memory : Store) (idtr : Idtr) (vector : Nat) : Option Gate :=
  if 16 * vector + 15 ≤ idtr.limit then
    let entry := idtr.base + 16 * vector
    let attributes := readLE memory (entry + 5) 1
    some
      { offset := BitVec.ofNat 64 (readLE memory entry 2 + 2 ^ 16 * readLE memory (entry + 6) 2 +
          2 ^ 32 * readLE memory (entry + 8) 4)
        selector := readLE memory (entry + 2) 2
        ist := readLE memory (entry + 4) 1 % 8
        gateType := attributes % 16
        dpl := attributes / 32 % 4
        present := attributes / 128 = 1 }
  else none

/-- Who asks for the interrupt: a device or a fault, or an instruction `int n`. -/
inductive Origin where
  | processor
  | instruction (cpl : Nat)

/-- The gate through which the processor enters the kernel; `none` is a fault. -/
def entered (memory : Store) (idtr : Idtr) (vector : Nat) (origin : Origin) : Option Gate :=
  match gateAt memory idtr vector with
  | none => none
  | some gate =>
      match origin with
      | .processor => if gate.present then some gate else none
      | .instruction cpl => if cpl ≤ gate.dpl ∧ gate.present then some gate else none

def stubGate (stub : Word) (dpl : Nat) : Gate :=
  { offset := stub
    selector := KERNEL_CS
    ist := 0
    gateType := 0xe
    dpl := dpl
    present := true }

/-! ### One entry -/

theorem setEntry_outside (memory : Store) {entry address : Nat} (handler : Word)
    (selector typeAttr : Nat) (outside : address < entry ∨ entry + 16 ≤ address) :
    setEntry memory entry handler selector typeAttr address = memory address := by
  unfold setEntry
  rw [writeLE_outside _ (by omega), writeLE_outside _ (by omega), writeLE_outside _ (by omega),
    writeLE_outside _ (by omega), writeLE_outside _ (by omega), writeLE_outside _ (by omega),
    writeLE_outside _ (by omega)]

theorem fields_offset (handler : Word) :
    BitVec.ofNat 64 ((handler &&& 0xffff).toNat + 2 ^ 16 * ((handler >>> 16) &&& 0xffff).toNat +
      2 ^ 32 * ((handler >>> 32) &&& 0xffffffff).toNat) = handler := by
  have low : (0xffff : Word).toNat = 2 ^ 16 - 1 := rfl
  have high : (0xffffffff : Word).toNat = 2 ^ 32 - 1 := rfl
  have small := handler.isLt
  apply BitVec.eq_of_toNat_eq
  rw [BitVec.toNat_ofNat, BitVec.toNat_and, BitVec.toNat_and, BitVec.toNat_and, low, high,
    Nat.and_two_pow_sub_one_eq_mod, Nat.and_two_pow_sub_one_eq_mod,
    Nat.and_two_pow_sub_one_eq_mod, BitVec.toNat_ushiftRight, BitVec.toNat_ushiftRight,
    Nat.shiftRight_eq_div_pow, Nat.shiftRight_eq_div_pow]
  omega

theorem setEntry_fields (memory : Store) (entry : Nat) (handler : Word) {selector typeAttr : Nat}
    (selectorFits : selector < 2 ^ 16) (attributesFit : typeAttr < 2 ^ 8) :
    let after := setEntry memory entry handler selector typeAttr
    readLE after entry 2 = (handler &&& 0xffff).toNat ∧
    readLE after (entry + 6) 2 = ((handler >>> 16) &&& 0xffff).toNat ∧
    readLE after (entry + 8) 4 = ((handler >>> 32) &&& 0xffffffff).toNat ∧
    readLE after (entry + 2) 2 = selector ∧ readLE after (entry + 4) 1 = 0 ∧
    readLE after (entry + 5) 1 = typeAttr := by
  have field (mask value : Word) (bound : Nat) (fits : mask.toNat < bound) :
      (value &&& mask).toNat < bound := by
    rw [BitVec.toNat_and]
    exact Nat.lt_of_le_of_lt Nat.and_le_right fits
  have low (value : Word) : (value &&& 0xffff).toNat < 256 ^ 2 := field _ _ _ (by decide)
  have high (value : Word) : (value &&& 0xffffffff).toNat < 256 ^ 4 := field _ _ _ (by decide)
  intro after
  simp only [after, setEntry]
  refine ⟨?_, ?_, ?_, ?_, ?_, ?_⟩
  · rw [readLE_writeLE_disjoint _ (by omega), readLE_writeLE_disjoint _ (by omega),
      readLE_writeLE_disjoint _ (by omega), readLE_writeLE_disjoint _ (by omega),
      readLE_writeLE_disjoint _ (by omega), readLE_writeLE_disjoint _ (by omega),
      readLE_writeLE_same _ (low _)]
  · rw [readLE_writeLE_disjoint _ (by omega), readLE_writeLE_disjoint _ (by omega),
      readLE_writeLE_disjoint _ (by omega), readLE_writeLE_disjoint _ (by omega),
      readLE_writeLE_disjoint _ (by omega), readLE_writeLE_same _ (low _)]
  · rw [readLE_writeLE_disjoint _ (by omega), readLE_writeLE_disjoint _ (by omega),
      readLE_writeLE_disjoint _ (by omega), readLE_writeLE_disjoint _ (by omega),
      readLE_writeLE_same _ (high _)]
  · rw [readLE_writeLE_disjoint _ (by omega), readLE_writeLE_disjoint _ (by omega),
      readLE_writeLE_disjoint _ (by omega), readLE_writeLE_same _ (by omega)]
  · rw [readLE_writeLE_disjoint _ (by omega), readLE_writeLE_disjoint _ (by omega),
      readLE_writeLE_same _ (by decide)]
  · rw [readLE_writeLE_disjoint _ (by omega), readLE_writeLE_same _ (by omega)]

theorem limit_fits (table : Nat) {vector : Nat} (inside : vector < 256) :
    16 * vector + 15 ≤ (idtrOf table).limit := by
  change 16 * vector + 15 ≤ 256 * 16 - 1
  omega

theorem gateAt_setEntry (memory : Store) (table : Nat) {vector dpl typeAttr : Nat}
    (handler : Word) (inside : vector < 256) (small : dpl < 4)
    (interrupt : typeAttr = 0x8e + 32 * dpl) :
    gateAt (setEntry memory (entryOf table vector) handler KERNEL_CS typeAttr)
      (idtrOf table) vector = some (stubGate handler dpl) := by
  subst interrupt
  obtain ⟨low, mid, high, selector, ist, attributes⟩ := setEntry_fields memory
    (entryOf table vector) handler (by decide : KERNEL_CS < 2 ^ 16)
    (by omega : 0x8e + 32 * dpl < 2 ^ 8)
  have fits := limit_fits table inside
  have type : (0x8e + 32 * dpl) % 16 = 0xe := by omega
  have level : (0x8e + 32 * dpl) / 32 % 4 = dpl := by omega
  have present : (0x8e + 32 * dpl) / 128 = 1 := by omega
  rw [gateAt, if_pos fits]
  dsimp only [idtrOf]
  rw [← entryOf, low, mid, high, selector, ist, attributes, fields_offset, type, level, present]
  rfl

theorem gateAt_congr {left right : Store} {table vector : Nat}
    (same : ∀ address, entryOf table vector ≤ address → address < entryOf table vector + 16 →
      left address = right address) :
    gateAt left (idtrOf table) vector = gateAt right (idtrOf table) vector := by
  have field (offset width : Nat) (inside : offset + width ≤ 16) :
      readLE left (entryOf table vector + offset) width =
        readLE right (entryOf table vector + offset) width :=
    readLE_congr fun address lower upper => same address (by omega) (by omega)
  have low := field 0 2 (by decide)
  rw [Nat.add_zero] at low
  unfold gateAt
  dsimp only [idtrOf]
  rw [← entryOf, low, field 6 2 (by decide), field 8 4 (by decide), field 2 2 (by decide),
    field 4 1 (by decide), field 5 1 (by decide)]

theorem gateAt_other {memory : Store} {table vector other : Nat} {handler : Word}
    {selector typeAttr : Nat} (different : vector ≠ other) :
    gateAt (setEntry memory (entryOf table other) handler selector typeAttr) (idtrOf table) vector =
      gateAt memory (idtrOf table) vector := by
  apply gateAt_congr
  intro address lower upper
  apply setEntry_outside
  unfold entryOf at lower upper ⊢
  omega

theorem gateAt_installStubs (memory : Store) (table : Nat) (stub : Nat → Word) {n vector : Nat}
    (inside : n ≤ 256) :
    gateAt (installStubs memory table stub n) (idtrOf table) vector =
      if vector < n then some (stubGate (stub vector) 0)
      else gateAt memory (idtrOf table) vector := by
  induction n with
  | zero => rfl
  | succ n ih =>
      rw [installStubs]
      by_cases last : vector = n
      · subst last
        rw [if_pos (Nat.lt_succ_self _)]
        exact gateAt_setEntry _ table (stub vector) (by omega) (by decide : 0 < 4) rfl
      · rw [gateAt_other last, ih (by omega)]
        by_cases before : vector < n
        · rw [if_pos before, if_pos (Nat.lt_succ_of_lt before)]
        · rw [if_neg before, if_neg (by omega)]

def levelOf (vector : Nat) : Nat := if vector = 128 then 3 else 0

theorem gateAt_initIdt (memory : Store) (table : Nat) (stub : Nat → Word) {vector : Nat}
    (inside : vector < 256) :
    gateAt (initIdt memory table stub) (idtrOf table) vector =
      if Installed vector then some (stubGate (stub vector) (levelOf vector))
      else gateAt memory (idtrOf table) vector := by
  by_cases syscall : vector = 128
  · subst syscall
    rw [if_pos (show Installed 128 from Or.inr rfl)]
    exact gateAt_setEntry _ table (stub 128) inside (by decide : 3 < 4) rfl
  · rw [initIdt, gateAt_other syscall, gateAt_installStubs _ _ _ (by decide), levelOf,
      if_neg syscall]
    by_cases stubbed : vector < 48
    · rw [if_pos stubbed, if_pos (show Installed vector from Or.inl stubbed)]
    · have missing : ¬ Installed vector := by
        rintro (below | same)
        · exact stubbed below
        · exact syscall same
      rw [if_neg stubbed, if_neg missing]

theorem readLE_zero {memory : Store} {address count : Nat}
    (zero : ∀ byte, address ≤ byte → byte < address + count → memory byte = 0) :
    readLE memory address count = 0 := by
  induction count generalizing address with
  | zero => rfl
  | succ count ih =>
      rw [readLE, zero address (Nat.le_refl _) (by omega),
        ih fun byte lower upper => zero byte (by omega) (by omega)]
      rfl

theorem gateAt_zeroed {memory : Store} {table vector : Nat} (inside : vector < 256)
    (zero : ∀ address, table ≤ address → address < table + 4096 → memory address = 0) :
    ∃ gate, gateAt memory (idtrOf table) vector = some gate ∧ gate.present = false := by
  have fits := limit_fits table inside
  have attributes : readLE memory ((idtrOf table).base + 16 * vector + 5) 1 = 0 := by
    have base : (idtrOf table).base = table := rfl
    rw [base]
    apply readLE_zero
    intro byte lower upper
    exact zero byte (by omega) (by omega)
  refine ⟨_, if_pos fits, decide_eq_false ?_⟩
  rw [attributes]
  decide

/-- Devices and faults may use every gate, instructions only those of their level. -/
def Origin.Allowed (vector : Nat) : Origin → Prop
  | .processor => True
  | .instruction cpl => cpl ≤ levelOf vector

instance (vector : Nat) (origin : Origin) : Decidable (origin.Allowed vector) :=
  match origin with
  | .processor => isTrue trivial
  | .instruction cpl => inferInstanceAs (Decidable (cpl ≤ levelOf vector))

/-- Whatever the addresses of the stubs: a vector with a stub enters that stub, from outside
the kernel by an instruction only the system call, and every other vector faults. -/
theorem entered_initIdt {memory : Store} {table : Nat} (stub : Nat → Word) {vector : Nat}
    (zero : ∀ address, table ≤ address → address < table + 4096 → memory address = 0)
    (inside : vector < 256) (origin : Origin) :
    entered (initIdt memory table stub) (idtrOf table) vector origin =
      if Installed vector ∧ origin.Allowed vector then
        some (stubGate (stub vector) (levelOf vector))
      else none := by
  rw [entered, gateAt_initIdt memory table stub inside]
  by_cases installed : Installed vector
  · rw [if_pos installed]
    cases origin with
    | processor => simp [installed, stubGate, Origin.Allowed]
    | instruction cpl => simp [installed, stubGate, Origin.Allowed]
  · obtain ⟨gate, found, absent⟩ := gateAt_zeroed inside zero
    rw [if_neg installed, if_neg (fun both => installed both.1), found]
    cases origin with
    | processor => simp [absent]
    | instruction cpl => simp [absent]

theorem initIdt_outside (memory : Store) {table address : Nat} (stub : Nat → Word)
    (outside : address < table ∨ table + 4096 ≤ address) :
    initIdt memory table stub address = memory address := by
  have loop (n : Nat) (small : n ≤ 256) :
      installStubs memory table stub n address = memory address := by
    induction n with
    | zero => rfl
    | succ n ih =>
        have entry : address < entryOf table n ∨ entryOf table n + 16 ≤ address := by
          unfold entryOf
          omega
        rw [installStubs, setEntry_outside _ _ _ _ entry]
        exact ih (by omega)
  have last : address < entryOf table 128 ∨ entryOf table 128 + 16 ≤ address := by
    unfold entryOf
    omega
  rw [initIdt, setEntry_outside _ _ _ _ last]
  exact loop 48 (by decide)

end CustomKernel.Interrupt
