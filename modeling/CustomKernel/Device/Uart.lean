/-
The UART behind the serial port.

A byte goes from the port to the transmitter through a short queue, and the status register
tells only whether the queue is empty.  A printer that has seen it empty may be interrupted
before it writes, so that several printers write after one look each.  Every other write to
the device is one of `init`.
-/

import CustomKernel.Device.Serial
import CustomKernel.Foundation.LabelledRun
import Mathlib.Data.Fintype.Card

set_option autoImplicit false

namespace CustomKernel.Device

open LabelledRun

def COM1 : Nat := 0x3f8

/-- The registers, the bytes that wait in the queue, and those that have left it. -/
structure Uart where
  /-- The places of the queue when it is enabled. -/
  fifoSize : Nat
  ier : Byte
  fcr : Byte
  lcr : Byte
  mcr : Byte
  dll : Byte
  dlm : Byte
  fifo : List Byte
  wire : List Byte

namespace Uart

/-- Whether the first two ports are the divisor. -/
def dlab (uart : Uart) : Bool := uart.lcr.getLsbD 7

def capacity (uart : Uart) : Nat := if uart.fcr.getLsbD 0 then uart.fifoSize else 1

/-- A byte for which the queue has no place is lost. -/
def queue (uart : Uart) (value : Byte) : Uart :=
  if uart.fifo.length < uart.capacity then { uart with fifo := uart.fifo ++ [value] } else uart

/-- Enabling or disabling the queue empties it, and so does a bit of its own. -/
def fifoControl (uart : Uart) (value : Byte) : Uart :=
  { uart with
    fcr := value
    fifo := if value.getLsbD 2 || value.getLsbD 0 != uart.fcr.getLsbD 0 then [] else uart.fifo }

def outb (uart : Uart) (port : Nat) (value : Byte) : Uart :=
  if port = COM1 then if uart.dlab then { uart with dll := value } else uart.queue value
  else if port = COM1 + 1 then
    if uart.dlab then { uart with dlm := value } else { uart with ier := value }
  else if port = COM1 + 2 then uart.fifoControl value
  else if port = COM1 + 3 then { uart with lcr := value }
  else if port = COM1 + 4 then { uart with mcr := value }
  else uart

/-- A read of `COM1 + 5`; all bits but one are about other things. -/
def lineStatus (uart : Uart) (others : Byte) : Byte :=
  others &&& 0xdf#8 ||| if uart.fifo = [] then 0x20#8 else 0#8

def initWrites : List (Nat × Byte) :=
  [(COM1 + 1, 0x00), (COM1 + 3, 0x80), (COM1 + 0, 0x03), (COM1 + 1, 0x00), (COM1 + 3, 0x03),
    (COM1 + 2, 0xc7), (COM1 + 4, 0x0b)]

def init (uart : Uart) : Uart :=
  initWrites.foldl (fun uart write => uart.outb write.1 write.2) uart

theorem outb_ier (uart : Uart) (value : Byte) :
    uart.outb (COM1 + 1) value =
      if uart.dlab then { uart with dlm := value } else { uart with ier := value } := rfl

theorem outb_lcr (uart : Uart) (value : Byte) :
    uart.outb (COM1 + 3) value = { uart with lcr := value } := rfl

theorem outb_divisor {uart : Uart} (divisor : uart.dlab = true) (low high : Byte) :
    (uart.outb (COM1 + 0) low).outb (COM1 + 1) high = { uart with dll := low, dlm := high } := by
  have first : uart.outb (COM1 + 0) low = { uart with dll := low } := if_pos divisor
  rw [first, outb_ier]
  exact if_pos divisor

/-- Nothing is sent, although one of the writes goes to the port for bytes. -/
theorem init_eq (uart : Uart) :
    uart.init =
      { uart with
        ier := if uart.dlab then uart.ier else 0
        fcr := 0xc7
        lcr := 0x03
        mcr := 0x0b
        dll := 0x03
        dlm := 0
        fifo := [] } := by
  have opened : (uart.outb (COM1 + 1) 0x00).outb (COM1 + 3) 0x80 =
      { uart with
        ier := if uart.dlab then uart.ier else 0
        dlm := if uart.dlab then 0 else uart.dlm
        lcr := 0x80 } := by
    rw [outb_ier, outb_lcr]
    cases uart.dlab with
    | true => rfl
    | false => rfl
  have divisor (uart : Uart) (set : uart.lcr = 0x80#8) : uart.dlab = true := by
    rw [dlab, set]
    decide
  simp only [init, initWrites, List.foldl_cons, List.foldl_nil]
  rw [opened, outb_divisor (divisor _ rfl)]
  rfl

theorem init_dlab (uart : Uart) : uart.init.dlab = false := by
  have lcr : uart.init.lcr = 0x03#8 := congrArg Uart.lcr uart.init_eq
  rw [dlab, lcr]
  decide

theorem init_capacity (uart : Uart) : uart.init.capacity = uart.fifoSize := by
  have fcr : uart.init.fcr = 0xc7#8 := congrArg Uart.fcr uart.init_eq
  have size : uart.init.fifoSize = uart.fifoSize := by rw [init_eq]
  rw [capacity, fcr, size]
  exact if_pos (by decide)

theorem init_fifo (uart : Uart) : uart.init.fifo = [] := congrArg Uart.fifo uart.init_eq

theorem init_wire (uart : Uart) : uart.init.wire = uart.wire := by rw [init_eq]

theorem queue_kept {uart : Uart} {size : Nat} {wire : List Byte} (value : Byte)
    (bytes : uart.dlab = false) (capacity : uart.capacity = size) (sent : uart.wire = wire)
    (fifo : uart.fifo.length ≤ size) :
    (uart.queue value).dlab = false ∧ (uart.queue value).capacity = size ∧
      (uart.queue value).wire = wire ∧ (uart.queue value).fifo.length ≤ size := by
  unfold queue
  split
  case isTrue place =>
    refine ⟨bytes, capacity, sent, ?_⟩
    dsimp only
    rw [List.length_append, List.length_singleton]
    omega
  case isFalse => exact ⟨bytes, capacity, sent, fifo⟩

theorem lineStatus_ready (uart : Uart) (others : Byte) :
    uart.lineStatus others &&& 0x20#8 = 0#8 ↔ uart.fifo ≠ [] := by
  have masked : others &&& 0xdf#8 &&& 0x20#8 = 0#8 := by
    rw [BitVec.and_assoc]
    exact BitVec.and_zero
  rw [lineStatus, BitVec.and_or_distrib_right, masked, BitVec.zero_or]
  by_cases empty : uart.fifo = []
  · simp [empty]
  · simp [empty]

end Uart

/-! ### Printers -/

inductive SerialCall where
  | putc (c : Byte)
  | print (s : List Byte)
  | printHex64 (v : Nat)
  | printUsize (v : Nat)

def SerialCall.run (serial : Serial) : SerialCall → Option Serial
  | .putc c => some (serial.putc c)
  | .print s => some (serial.print s)
  | .printHex64 v => some (serial.printHex64 v)
  | .printUsize v => serial.printUsize v

theorem Serial.print_extends (serial : Serial) (s : List Byte) :
    serial.sent <+: (serial.print s).sent := by
  rw [serial.sent_print]
  exact List.prefix_append ..

theorem SerialCall.run_extends {serial after : Serial} {call : SerialCall}
    (ran : call.run serial = some after) : serial.sent <+: after.sent := by
  have all (serial : Serial) (bytes : List Byte) : serial.sent <+: (serial.putAll bytes).sent := by
    rw [Serial.sent_putAll]
    exact List.prefix_append ..
  cases call with
  | putc c =>
      rw [← Option.some.inj ran]
      exact List.prefix_append ..
  | print s =>
      rw [← Option.some.inj ran]
      exact serial.print_extends s
  | printHex64 v =>
      rw [← Option.some.inj ran]
      exact (serial.print_extends _).trans (all _ _)
  | printUsize v =>
      rw [SerialCall.run, Serial.printUsize] at ran
      by_cases zero : v = 0
      · rw [if_pos zero] at ran
        rw [← Option.some.inj ran]
        exact List.prefix_append ..
      · rw [if_neg zero] at ran
        obtain ⟨digits, _, rfl⟩ := Option.map_eq_some_iff.mp ran
        exact all serial digits

/-! ### Several printers at one port -/

/-- The device, and for each printer what it has printed in full, what of that is still to be
written, and whether it has left `wait_ready` for the next byte. -/
structure Port (Printer : Type) where
  uart : Uart
  asked : Printer → Serial
  remaining : Printer → List Byte
  ready : Printer → Bool

inductive PortEvent (Printer : Type) where
  | call (printer : Printer) (call : SerialCall)
  /-- One turn of the loop of `wait_ready`, with the other bits of the status. -/
  | waitReady (printer : Printer) (others : Byte)
  /-- The write behind the loop. -/
  | outb (printer : Printer)
  /-- The device sends a byte. -/
  | transmit

namespace Port

variable {Printer : Type}

def start (uart : Uart) : Port Printer :=
  { uart := uart.init
    asked := fun _ => { sent := [] }
    remaining := fun _ => []
    ready := fun _ => false }

variable [DecidableEq Printer]

def call (port : Port Printer) (printer : Printer) (call : SerialCall) : Option (Port Printer) :=
  if port.remaining printer = [] then
    (call.run (port.asked printer)).map fun serial =>
      { port with
        asked := Function.update port.asked printer serial
        remaining := Function.update port.remaining printer
          (serial.sent.drop (port.asked printer).sent.length) }
  else none

def waitReady (port : Port Printer) (printer : Printer) (others : Byte) :
    Option (Port Printer) :=
  if port.remaining printer = [] ∨ port.ready printer = true then none
  else if port.uart.lineStatus others &&& 0x20#8 = 0#8 then some port
  else some { port with ready := Function.update port.ready printer true }

def outb (port : Port Printer) (printer : Printer) : Option (Port Printer) :=
  match port.ready printer, port.remaining printer with
  | true, byte :: rest =>
      some
        { port with
          uart := port.uart.outb COM1 byte
          remaining := Function.update port.remaining printer rest
          ready := Function.update port.ready printer false }
  | _, _ => none

def transmit (port : Port Printer) : Option (Port Printer) :=
  match port.uart.fifo with
  | [] => none
  | byte :: rest =>
      some { port with uart := { port.uart with fifo := rest, wire := port.uart.wire ++ [byte] } }

def step (port : Port Printer) : PortEvent Printer → Option (Port Printer)
  | .call printer call => port.call printer call
  | .waitReady printer others => port.waitReady printer others
  | .outb printer => port.outb printer
  | .transmit => port.transmit

/-! ### Looking together -/

def waitingTogether (uart : Uart) (printers : Finset Printer) : Port Printer :=
  { uart := uart.init
    asked := fun printer => { sent := if printer ∈ printers then [0#8] else [] }
    remaining := fun printer => if printer ∈ printers then [0#8] else []
    ready := fun printer => decide (printer ∈ printers) }

def Reaches (port reached : Port Printer) : Prop := ∃ events, exec step port events = some reached

theorem Reaches.snoc {port next reached : Port Printer} (run : Reaches port reached)
    {event : PortEvent Printer} (stepped : reached.step event = some next) : Reaches port next := by
  obtain ⟨events, ran⟩ := run
  exact ⟨events ++ [event], exec_append_eq_some.mpr
    ⟨reached, ran, exec_cons_eq_some.mpr ⟨next, stepped, rfl⟩⟩⟩

theorem waitingTogether_empty (uart : Uart) :
    (waitingTogether uart ∅ : Port Printer) = start uart := by
  simp [waitingTogether, start]

theorem reaches_waitingTogether (uart : Uart) (printers : Finset Printer) :
    Reaches (start uart) (waitingTogether uart printers) := by
  induction printers using Finset.induction_on with
  | empty => exact ⟨[], congrArg some (waitingTogether_empty uart).symm⟩
  | insert printer printers absent run =>
      let asking : Port Printer :=
        { waitingTogether uart printers with
          asked := Function.update (waitingTogether uart printers).asked printer { sent := [0#8] }
          remaining := Function.update (waitingTogether uart printers).remaining printer [0#8] }
      have asked : (waitingTogether uart printers).step (.call printer (.putc 0#8)) =
          some asking := by
        simp [step, call, waitingTogether, absent, SerialCall.run, Serial.putc, asking]
      have empty : (waitingTogether uart printers).uart.fifo = [] := uart.init_fifo
      have free : ¬ asking.uart.lineStatus 0#8 &&& 0x20#8 = 0#8 :=
        fun busy => (asking.uart.lineStatus_ready 0#8).mp busy empty
      have looked : asking.step (.waitReady printer 0#8) =
          some (waitingTogether uart (insert printer printers)) := by
        have turn : ¬ (asking.remaining printer = [] ∨ asking.ready printer = true) := by
          simp [asking, waitingTogether, absent]
        rw [step, waitReady, if_neg turn, if_neg free]
        simp only [asking, waitingTogether, Option.some.injEq, Port.mk.injEq, true_and,
          Function.update_eq_iff]
        refine ⟨⟨by simp, ?_⟩, ⟨by simp, ?_⟩, ⟨by simp, ?_⟩⟩
        all_goals
          intro other different
          simp [different]
      exact (run.snoc asked).snoc looked

/-! ### Nothing lost -/

def bytesOf (printer : Printer) (arrived : List (Printer × Byte)) : List Byte :=
  (arrived.filter fun entry => entry.1 = printer).map Prod.snd

theorem bytesOf_append (printer : Printer) (first second : List (Printer × Byte)) :
    bytesOf printer (first ++ second) = bytesOf printer first ++ bytesOf printer second := by
  rw [bytesOf, List.filter_append, List.map_append]
  rfl

theorem bytesOf_own (printer : Printer) (byte : Byte) :
    bytesOf printer [(printer, byte)] = [byte] := by
  simp [bytesOf]

theorem bytesOf_other {printer other : Printer} (different : other ≠ printer) (byte : Byte) :
    bytesOf other [(printer, byte)] = [] := by
  simp [bytesOf, different.symm]

/-- What has arrived behind the earlier bytes is, for each printer, a beginning of what it has
printed, and the rest is still to be written. -/
def Intact (before : List Byte) (port : Port Printer) : Prop :=
  ∃ arrived : List (Printer × Byte),
    port.uart.wire ++ port.uart.fifo = before ++ arrived.map Prod.snd ∧
      ∀ printer, bytesOf printer arrived ++ port.remaining printer = (port.asked printer).sent

variable [Fintype Printer] {port next : Port Printer} {printer : Printer} {before : List Byte}
  {size : Nat}

def looked (port : Port Printer) : Finset Printer :=
  Finset.univ.filter fun printer => port.ready printer = true

structure Invariant (before : List Byte) (size : Nat) (port : Port Printer) : Prop where
  bytes : port.uart.dlab = false
  capacity : port.uart.capacity = size
  room : port.uart.fifo.length + port.looked.card ≤ Fintype.card Printer
  intact : port.Intact before

theorem call_kept {call : SerialCall} (invariant : port.Invariant before size)
    (stepped : port.call printer call = some next) : next.Invariant before size := by
  unfold Port.call at stepped
  split at stepped
  case isFalse => cases stepped
  case isTrue idle =>
    obtain ⟨serial, ran, rfl⟩ := Option.map_eq_some_iff.mp stepped
    obtain ⟨arrived, order, each⟩ := invariant.intact
    refine ⟨invariant.bytes, invariant.capacity, invariant.room, arrived, order, ?_⟩
    intro other
    by_cases same : other = printer
    · subst same
      dsimp only
      rw [Function.update_self, Function.update_self]
      have whole := each other
      rw [idle, List.append_nil] at whole
      rw [whole]
      exact List.prefix_iff_eq_append.mp (SerialCall.run_extends ran)
    · dsimp only
      rw [Function.update_of_ne same, Function.update_of_ne same]
      exact each other

theorem waitReady_kept {others : Byte} (invariant : port.Invariant before size)
    (stepped : port.waitReady printer others = some next) : next.Invariant before size := by
  unfold waitReady at stepped
  split at stepped
  case isTrue => cases stepped
  case isFalse =>
    split at stepped
    case isTrue =>
      cases stepped
      exact invariant
    case isFalse seen =>
      cases stepped
      have empty : port.uart.fifo = [] := by
        by_contra filled
        exact seen ((port.uart.lineStatus_ready others).mpr filled)
      refine { invariant with room := ?_ }
      dsimp only
      rw [empty, List.length_nil, Nat.zero_add]
      exact Finset.card_le_univ _

theorem outb_kept (enough : Fintype.card Printer ≤ size) (invariant : port.Invariant before size)
    (stepped : port.outb printer = some next) : next.Invariant before size := by
  unfold outb at stepped
  split at stepped
  case h_2 => cases stepped
  case h_1 byte rest ready remaining =>
    cases stepped
    have member : printer ∈ port.looked := by
      simp [looked, ready]
    have fewer : (port.looked.erase printer).card + 1 = port.looked.card :=
      Finset.card_erase_add_one member
    have looks : Finset.univ.filter (fun other =>
        Function.update port.ready printer false other = true) = port.looked.erase printer := by
      ext other
      by_cases same : other = printer
      · simp [same]
      · simp [looked, same]
    have room := invariant.room
    have place : port.uart.fifo.length < port.uart.capacity := by
      rw [invariant.capacity]
      omega
    have written : port.uart.outb COM1 byte =
        { port.uart with fifo := port.uart.fifo ++ [byte] } := by
      rw [Uart.outb, if_pos rfl, invariant.bytes, if_neg Bool.false_ne_true, Uart.queue,
        if_pos place]
    obtain ⟨arrived, order, each⟩ := invariant.intact
    refine ⟨?_, ?_, ?_, arrived ++ [(printer, byte)], ?_, ?_⟩
    · rw [written]
      exact invariant.bytes
    · rw [written]
      exact invariant.capacity
    · rw [written, looked, looks]
      dsimp only
      rw [List.length_append, List.length_singleton]
      omega
    · rw [written]
      dsimp only
      rw [← List.append_assoc, order, List.map_append, List.append_assoc]
      rfl
    · intro other
      dsimp only
      rw [bytesOf_append]
      by_cases same : other = printer
      · subst same
        have whole := each other
        rw [remaining] at whole
        rw [Function.update_self, bytesOf_own, List.append_assoc]
        exact whole
      · rw [Function.update_of_ne same, bytesOf_other same, List.append_nil]
        exact each other

theorem transmit_kept (invariant : port.Invariant before size)
    (stepped : port.transmit = some next) : next.Invariant before size := by
  unfold transmit at stepped
  split at stepped
  case h_1 => cases stepped
  case h_2 byte rest filled =>
    cases stepped
    obtain ⟨arrived, order, each⟩ := invariant.intact
    have room := invariant.room
    rw [filled, List.length_cons] at room
    rw [filled] at order
    refine ⟨invariant.bytes, invariant.capacity, ?_, arrived, ?_, each⟩
    · change rest.length + port.looked.card ≤ Fintype.card Printer
      omega
    · dsimp only
      rw [List.append_assoc]
      exact order

theorem step_kept (enough : Fintype.card Printer ≤ size) (port : Port Printer)
    (event : PortEvent Printer) (next : Port Printer) (invariant : port.Invariant before size)
    (stepped : port.step event = some next) : next.Invariant before size := by
  cases event with
  | call printer call => exact call_kept invariant stepped
  | waitReady printer others => exact waitReady_kept invariant stepped
  | outb printer => exact outb_kept enough invariant stepped
  | transmit => exact transmit_kept invariant stepped

theorem start_kept (uart : Uart) :
    (start uart : Port Printer).Invariant uart.wire uart.fifoSize where
  bytes := uart.init_dlab
  capacity := uart.init_capacity
  room := by
    change uart.init.fifo.length + _ ≤ _
    rw [uart.init_fifo, List.length_nil, Nat.zero_add]
    exact Finset.card_le_univ _
  intact := by
    refine ⟨[], ?_, fun _ => rfl⟩
    change uart.init.wire ++ uart.init.fifo = _
    rw [uart.init_fifo, uart.init_wire]
    rfl

/-! ### More printers than places -/

structure Written (uart : Uart) (printers : Finset Printer) (port : Port Printer) : Prop where
  asked : ∀ printer, (port.asked printer).sent = [0#8]
  remaining : ∀ printer, port.remaining printer = if printer ∈ printers then [] else [0#8]
  ready : ∀ printer, port.ready printer = decide (printer ∉ printers)
  bytes : port.uart.dlab = false
  capacity : port.uart.capacity = uart.fifoSize
  wire : port.uart.wire = uart.wire
  fifo : port.uart.fifo.length ≤ uart.fifoSize

theorem reaches_written (uart : Uart) (printers : Finset Printer) :
    ∃ port : Port Printer, Reaches (start uart) port ∧ Written uart printers port := by
  induction printers using Finset.induction_on with
  | empty =>
      refine ⟨waitingTogether uart Finset.univ, reaches_waitingTogether uart _, ?_⟩
      exact
        { asked := fun _ => by simp [waitingTogether]
          remaining := fun _ => by simp [waitingTogether]
          ready := fun _ => by simp [waitingTogether]
          bytes := uart.init_dlab
          capacity := uart.init_capacity
          wire := uart.init_wire
          fifo := by
            change uart.init.fifo.length ≤ uart.fifoSize
            rw [uart.init_fifo]
            exact Nat.zero_le _ }
  | insert printer printers absent ih =>
      obtain ⟨port, run, written⟩ := ih
      have looked : port.ready printer = true := by
        rw [written.ready]
        exact decide_eq_true absent
      have left : port.remaining printer = [0#8] := by
        rw [written.remaining, if_neg absent]
      have stepped : port.step (.outb printer) = some
          { port with
            uart := port.uart.queue 0#8
            remaining := Function.update port.remaining printer []
            ready := Function.update port.ready printer false } := by
        have plain : port.uart.outb COM1 0#8 = port.uart.queue 0#8 := by
          rw [Uart.outb, if_pos rfl, written.bytes, if_neg Bool.false_ne_true]
        simp only [step, outb, looked, left, plain]
      obtain ⟨bytes, capacity, wire, fifo⟩ := Uart.queue_kept 0#8 written.bytes written.capacity
        written.wire written.fifo
      refine ⟨_, run.snoc stepped, written.asked, ?_, ?_, bytes, capacity, wire, fifo⟩
      · intro other
        by_cases same : other = printer
        · simp [same]
        · simp [same, written.remaining]
      · intro other
        by_cases same : other = printer
        · simp [same]
        · simp [same, written.ready]

/-- However the printers interrupt each other and however slowly the device sends, it sends
the bytes of each printer in order and loses none, just if its queue has a place for each. -/
theorem serial_output_intact_iff (uart : Uart) :
    (∀ events port, exec step (start uart : Port Printer) events = some port →
      port.Intact uart.wire) ↔ Fintype.card Printer ≤ uart.fifoSize := by
  constructor
  · intro always
    obtain ⟨port, ⟨events, run⟩, written⟩ := @reaches_written Printer _ _ uart Finset.univ
    obtain ⟨arrived, order, each⟩ := always events port run
    have lengths := congrArg List.length order
    rw [List.length_append, List.length_append, List.length_map, written.wire] at lengths
    have everyone : Finset.univ ⊆ (arrived.map Prod.fst).toFinset := by
      intro printer _
      have own := each printer
      rw [written.remaining, if_pos (Finset.mem_univ _), List.append_nil, written.asked] at own
      have member : (0#8 : Byte) ∈ bytesOf printer arrived := by
        rw [own]
        exact List.mem_singleton_self _
      obtain ⟨entry, inside, _⟩ := List.mem_map.mp member
      obtain ⟨there, same⟩ := List.mem_filter.mp inside
      rw [List.mem_toFinset, ← of_decide_eq_true same]
      exact List.mem_map_of_mem there
    have few := Finset.card_le_card everyone
    have bound := List.toFinset_card_le (arrived.map Prod.fst)
    rw [List.length_map] at bound
    have room := written.fifo
    rw [Finset.card_univ] at few
    omega
  · intro enough events port run
    exact (exec_invariant (step_kept enough) (start_kept uart) run).intact

end Port

end CustomKernel.Device
