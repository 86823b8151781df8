/-
From a device to its handler.

A vector from the controllers leads through the descriptor table and a stub to
`common_handler`, which calls the handler registered for the line and ends the interrupt.
Together they serve the waiting lines one after the other, the lowest first.
-/

import CustomKernel.Interrupt.Controllers
import CustomKernel.Interrupt.Syscall

set_option autoImplicit false

namespace CustomKernel.Interrupt

open ByteStore WordStack LabelledRun

/-! ### The run -/

def stubAt (stub : Nat → Word) (address : Word) : Option (Fin 256) :=
  Fin.find? fun number => decide (Installed number.val) && decide (stub number.val = address)

/-- The processor takes a vector of a device: the gate, the words it pushes and the stub, up to
the frame that `common_handler` gets. -/
def enterKernel (table : Nat) (stub : Nat → Word) (processor : Processor) (vector : Nat) :
    Option InterruptFrame :=
  (entered processor.memory (idtrOf table) vector .processor).bind fun gate =>
    (stubAt stub gate.offset).map fun number =>
      let called := (processor.deliver processor.frameBase vector 0).executeAll
        (makeStub number.val ++ commonStubEntry)
      readFrame called.memory (called.registers .rdi)

/-- The controllers and the kernel's side of the interrupts. -/
structure Irqs (Handler : Type) where
  pics : Controllers
  handles : IrqHandles Handler
  /-- What `common_handler` has still to do; the gate keeps further interrupts off. -/
  doing : Option (List (Effect Handler))
  /-- What it did, other than writing to ports. -/
  done : List (Effect Handler)

inductive IrqEvent (Handler : Type) where
  | raise (irq : Fin IRQ_COUNT)
  /-- The processor takes an interrupt in some state, with some value in `cr2`. -/
  | accept (processor : Processor) (cr2 : Word)
  /-- The next effect of `common_handler`, or its return. -/
  | advance
  | register (irq : BitVec 8) (handler : Handler)
  | setMark (irq : Fin IRQ_COUNT)
  | readIrr
  | readIsr

section Run

variable {Handler : Type}

def Irqs.start (pics : Controllers) : Irqs Handler :=
  { pics := pics.remap
    handles := fun _ => none
    doing := none
    done := [] }

def Irqs.accept (table : Nat) (stub : Nat → Word) (irqs : Irqs Handler) (processor : Processor)
    (cr2 : Word) : Option (Irqs Handler) :=
  if irqs.doing.isNone ∧ processor.rflags.getLsbD 9 then
    match irqs.pics.acknowledge with
    | none => none
    | some (vector, pics) =>
        (enterKernel table stub processor vector).map fun frame =>
          { irqs with
            pics := pics
            doing := some (commonHandler irqs.handles { cr2 := cr2, frame := frame }) }
  else none

def Irqs.advance (irqs : Irqs Handler) : Option (Irqs Handler) :=
  match irqs.doing with
  | none => none
  | some [] => some { irqs with doing := none }
  | some (.haltForever :: _) => none
  | some (.outb port value :: rest) =>
      some { irqs with pics := irqs.pics.outb port value, doing := some rest }
  | some (effect :: rest) =>
      some { irqs with doing := some rest, done := irqs.done ++ [effect] }

def irqStep (table : Nat) (stub : Nat → Word) (irqs : Irqs Handler) :
    IrqEvent Handler → Option (Irqs Handler)
  | .raise irq => some { irqs with pics := irqs.pics.raise irq }
  | .accept processor cr2 => irqs.accept table stub processor cr2
  | .advance => irqs.advance
  | .register irq handler =>
      (registerIrqHandler irqs.handles irq handler).map fun handles =>
        { irqs with handles := handles }
  | .setMark irq => some { irqs with pics := irqs.pics.setMark irq }
  | .readIrr => some { irqs with pics := irqs.pics.readIrr.2 }
  | .readIsr => some { irqs with pics := irqs.pics.readIsr.2 }

/-- What the pair and the kernel are for: lines that wait, of which the lowest open one is
served by the handler registered for it at that moment. -/
structure Lines (Handler : Type) where
  waiting : Fin IRQ_COUNT → Bool
  opened : Fin IRQ_COUNT → Bool
  handles : IrqHandles Handler
  served : List (Effect Handler)

namespace Lines

def start : Lines Handler :=
  { waiting := fun _ => false
    opened := fun irq => irq.val < 2
    handles := fun _ => none
    served := [] }

def next (lines : Lines Handler) : Option (Fin IRQ_COUNT) :=
  Fin.find? fun irq => lines.waiting irq && lines.opened irq

def serve (lines : Lines Handler) (irq : Fin IRQ_COUNT) : Lines Handler :=
  { lines with
    waiting := Function.update lines.waiting irq false
    served := lines.served ++ [callHandle (lines.handles irq)] }

def after (lines : Lines Handler) : IrqEvent Handler → Lines Handler
  | .raise irq => { lines with waiting := Function.update lines.waiting irq true }
  | .accept _ _ => (lines.next.map lines.serve).getD lines
  | .register irq handler =>
      { lines with
        handles := fun line => if line.val = irq.toNat then some handler else lines.handles line }
  | .setMark irq => { lines with opened := Function.update lines.opened irq false }
  | _ => lines

end Lines

end Run

/-! ### Into the kernel -/

theorem frame_atHandlerCall (processor : Processor) (base : Word) (vector : Nat)
    (errorCode : Word) :
    let called := processor.atHandlerCall base vector errorCode
    readFrame called.memory (called.registers .rdi) =
      processor.interruptFrame vector errorCode := by
  intro called
  have calledEq : called = _ := processor.atHandlerCall_eq base vector errorCode
  clear_value called
  have length : (processor.interruptFrame vector errorCode).words.reverse.length = 22 := rfl
  have empty : Stacked processor.memory base [] := trivial
  obtain ⟨_, stacked⟩ := stacked_pushAll (processor.interruptFrame vector errorCode).words.reverse
    empty (by rw [length]; decide)
  rw [List.reverse_reverse, List.append_nil] at stacked
  have pointer := congrFun (congrArg Processor.registers calledEq) .rdi
  dsimp only at pointer
  rw [Function.update_self] at pointer
  rw [pointer, congrArg Processor.memory calledEq]
  exact stacked_iff_readFrame.mp stacked

def Distinct (stub : Nat → Word) : Prop :=
  ∀ left right, Installed left → Installed right → stub left = stub right → left = right

theorem stubAt_eq {stub : Nat → Word} (distinct : Distinct stub) {vector : Nat}
    (installed : Installed vector) (inside : vector < 256) :
    stubAt stub (stub vector) = some ⟨vector, inside⟩ := by
  apply Fin.find?_eq_some_iff.mpr
  constructor
  · simp [installed]
  · intro other before
    apply Bool.eq_false_iff.mpr
    intro found
    simp only [Bool.and_eq_true, decide_eq_true_eq] at found
    have same := distinct other.val vector found.1 installed found.2
    exact absurd (Fin.lt_def.mp before) (by simp [same])

def Intact (table : Nat) (boot : Store) (stub : Nat → Word) (memory : Store) : Prop :=
  ∀ address, table ≤ address → address < table + 4096 →
    memory address = initIdt boot table stub address

theorem enterKernel_eq {table : Nat} {boot : Store} {stub : Nat → Word} (distinct : Distinct stub)
    {processor : Processor} (intact : Intact table boot stub processor.memory) {vector : Nat}
    (installed : Installed vector) (inside : vector < 256) :
    enterKernel table stub processor vector = some (processor.interruptFrame vector 0) := by
  have gate : gateAt processor.memory (idtrOf table) vector =
      some (stubGate (stub vector) (levelOf vector)) := by
    rw [gateAt_congr fun address lower upper => intact address (by unfold entryOf at lower; omega)
      (by unfold entryOf at upper; omega), gateAt_initIdt boot table stub inside,
      if_pos installed]
  have taken : entered processor.memory (idtrOf table) vector .processor =
      some (stubGate (stub vector) (levelOf vector)) := by
    rw [entered, gate]
    rfl
  have frame := frame_atHandlerCall processor processor.frameBase vector 0
  rw [enterKernel, taken, Option.bind_some]
  change (stubAt stub (stub vector)).map _ = _
  rw [stubAt_eq distinct installed inside]
  exact congrArg some frame

/-! ### The lines that the controllers stand for -/

section Tracking

variable {Handler : Type}

def Effect.serves : Effect Handler → Bool
  | .outb _ _ => false
  | _ => true

def Irqs.left (irqs : Irqs Handler) : List (Effect Handler) :=
  (irqs.doing.getD []).filter Effect.serves

def ending : List (Effect Handler) := [.outb PIC1_CMD PIC_EOI]

/-- How far the handler is, and what the first controller has in service. -/
def Phase (inService : BitVec 8) : Option (List (Effect Handler)) → Prop
  | none => inService = 0
  | some effects =>
      inService = 0 ∧ effects = [] ∨
        (∃ line : Fin 8, inService = lineBit line.val) ∧
          (effects = ending ∨ ∃ handle, effects = callHandle handle :: ending)

structure Tracks (irqs : Irqs Handler) (lines : Lines Handler) : Prop where
  pic1 : irqs.pics.pic1.expects = [] ∧ irqs.pics.pic1.base = 32 ∧ irqs.pics.pic1.cascade = 4 ∧
    irqs.pics.pic1.mode = 1
  pic2 : irqs.pics.pic2.expects = []
  closed : ∀ line, line < 8 → irqs.pics.pic2.mask.getLsbD line = true
  opened : ∀ irq, lines.opened irq =
    (decide (irq.val < 8) && !irqs.pics.pic1.mask.getLsbD irq.val)
  few : ∀ irq, lines.opened irq = true → irq.val < 2
  waiting : ∀ irq, irqs.pics.waiting irq = lines.waiting irq
  handles : irqs.handles = lines.handles
  served : irqs.done ++ irqs.left = lines.served
  phase : Phase irqs.pics.pic1.inService irqs.doing

variable {irqs : Irqs Handler} {lines : Lines Handler}

theorem start_tracks (pics : Controllers) :
    Tracks (Irqs.start pics : Irqs Handler) Lines.start where
  pic1 := ⟨rfl, rfl, rfl, rfl⟩
  pic2 := rfl
  closed line inside := by
    change (Controllers.remap pics).pic2.mask.getLsbD line = true
    rw [Controllers.remap_eq]
    interval_cases line <;> rfl
  opened irq := by
    change decide (irq.val < 2) =
      (decide (irq.val < 8) && !(Controllers.remap pics).pic1.mask.getLsbD irq.val)
    rw [Controllers.remap_eq]
    revert irq
    decide
  few irq opened := of_decide_eq_true opened
  waiting irq := by
    change Controllers.waiting pics.remap irq = false
    rw [Controllers.remap_eq, Controllers.waiting]
    split <;> exact BitVec.getLsbD_zero
  handles := rfl
  served := rfl
  phase := rfl

def firstLine (line : Fin 8) : Fin IRQ_COUNT :=
  ⟨line.val, Nat.lt_of_lt_of_le line.isLt (by decide)⟩

theorem granted_eq (tracks : Tracks irqs lines) (idle : irqs.pics.pic1.inService = 0) :
    irqs.pics.pic1.granted irqs.pics.pic1.requests =
      Fin.find? fun line => lines.waiting (firstLine line) && lines.opened (firstLine line) := by
  have ready : irqs.pics.pic1.expects = [] ∧ irqs.pics.pic1.mode.getLsbD 0 := by
    refine ⟨tracks.pic1.1, ?_⟩
    rw [tracks.pic1.2.2.2]
    rfl
  have noneInService (lower : Nat) : irqs.pics.pic1.inService.getLsbD lower = false := by
    rw [idle]
    exact BitVec.getLsbD_zero
  rw [Controller.granted, if_pos ready]
  congr 1
  funext line
  rw [tracks.opened, ← tracks.waiting, Controllers.waiting]
  simp [noneInService, firstLine]

theorem silent_second (tracks : Tracks irqs lines) (requests : BitVec 8) :
    irqs.pics.pic2.granted requests = none := by
  rw [Controller.granted]
  split
  · apply Fin.find?_eq_none_iff.mpr
    intro line
    simp [tracks.closed line.val line.isLt]
  · rfl

theorem acknowledge_eq (tracks : Tracks irqs lines) (idle : irqs.pics.pic1.inService = 0) :
    irqs.pics.acknowledge = lines.next.map fun irq =>
      (32 + irq.val,
        { irqs.pics with
          pic1 :=
            { irqs.pics.pic1 with
              requests := irqs.pics.pic1.requests &&& ~~~(lineBit irq.val)
              inService := lineBit irq.val } }) := by
  have granted := granted_eq tracks idle
  rw [Controllers.acknowledge, silent_second tracks]
  dsimp only
  rw [Option.isSome_none, if_neg Bool.false_ne_true, show irqs.pics.pic1.requests ||| 0 =
    irqs.pics.pic1.requests from BitVec.or_zero]
  cases next : lines.next with
  | none =>
      have nothing := Fin.find?_eq_none_iff.mp next
      have found : irqs.pics.pic1.granted irqs.pics.pic1.requests = none := by
        rw [granted]
        exact Fin.find?_eq_none_iff.mpr fun line => nothing (firstLine line)
      rw [found]
      rfl
  | some irq =>
      obtain ⟨here, lowest⟩ := Fin.find?_eq_some_iff.mp next
      have small := tracks.few irq (Bool.and_eq_true_iff.mp here).2
      have found : irqs.pics.pic1.granted irqs.pics.pic1.requests = some ⟨irq.val, by omega⟩ := by
        rw [granted]
        exact Fin.find?_eq_some_iff.mpr ⟨here, fun lower before => lowest (firstLine lower) before⟩
      obtain ⟨_, base, cascade, mode⟩ := tracks.pic1
      have direct : ¬ irqs.pics.pic1.cascade.getLsbD irq.val = true := by
        have lines : irq.val = 0 ∨ irq.val = 1 := by omega
        rw [cascade]
        rcases lines with zero | one
        · rw [zero]
          decide
        · rw [one]
          decide
      have vector : irqs.pics.pic1.base.toNat = 32 := congrArg BitVec.toNat base
      have manual : ¬ irqs.pics.pic1.mode.getLsbD 1 = true := by
        rw [mode]
        decide
      rw [found]
      dsimp only
      rw [if_neg direct, vector, Controller.acknowledge, if_neg manual, idle]
      simp only [BitVec.ofNat_eq_ofNat, BitVec.zero_or, Option.map_some]

theorem raise_tracks (tracks : Tracks irqs lines) (irq : Fin IRQ_COUNT) :
    Tracks { irqs with pics := irqs.pics.raise irq } (lines.after (.raise irq)) := by
  have settings : (irqs.pics.raise irq).pic1 =
        { irqs.pics.pic1 with requests := (irqs.pics.raise irq).pic1.requests } ∧
      (irqs.pics.raise irq).pic2 =
        { irqs.pics.pic2 with requests := (irqs.pics.raise irq).pic2.requests } := by
    unfold Controllers.raise
    split <;> exact ⟨rfl, rfl⟩
  constructor
  case pic1 =>
    rw [settings.1]
    exact tracks.pic1
  case pic2 =>
    rw [settings.2]
    exact tracks.pic2
  case closed =>
    rw [settings.2]
    exact tracks.closed
  case opened =>
    rw [settings.1]
    exact tracks.opened
  case few => exact tracks.few
  case waiting =>
    intro other
    have same : irqs.pics.waiting = lines.waiting := funext tracks.waiting
    change (irqs.pics.raise irq).waiting other = Function.update lines.waiting irq true other
    rw [Controllers.waiting_raise, same]
  case handles => exact tracks.handles
  case served => exact tracks.served
  case phase =>
    rw [settings.1]
    exact tracks.phase

theorem setMark_tracks (tracks : Tracks irqs lines) (irq : Fin IRQ_COUNT) :
    Tracks { irqs with pics := irqs.pics.setMark irq } (lines.after (.setMark irq)) := by
  have few (other : Fin IRQ_COUNT) :
      Function.update lines.opened irq false other = true → other.val < 2 := by
    intro opened
    by_cases same : other = irq
    · rw [same, Function.update_self] at opened
      cases opened
    · rw [Function.update_of_ne same] at opened
      exact tracks.few other opened
  by_cases first : irq.val < 8
  · rw [Controllers.setMark_first first tracks.pic1.1]
    refine { tracks with opened := ?_, few := few }
    intro other
    change Function.update lines.opened irq false other = (decide (other.val < 8) &&
      !(irqs.pics.pic1.mask ||| lineBit irq.val).getLsbD other.val)
    by_cases same : other = irq
    · rw [same, Function.update_self, BitVec.getLsbD_or, getLsbD_lineBit first]
      simp
    · have different : other.val ≠ irq.val := fun equal => same (Fin.ext equal)
      rw [Function.update_of_ne same, tracks.opened, BitVec.getLsbD_or]
      by_cases otherFirst : other.val < 8
      · rw [getLsbD_lineBit otherFirst]
        simp [different]
      · simp [otherFirst]
  · rw [Controllers.setMark_second first tracks.pic2]
    refine { tracks with closed := ?_, opened := ?_, few := few }
    · intro line inside
      change (irqs.pics.pic2.mask ||| lineBit (irq.val - 8)).getLsbD line = true
      rw [BitVec.getLsbD_or, tracks.closed line inside, Bool.true_or]
    · intro other
      change Function.update lines.opened irq false other = _
      by_cases same : other = irq
      · rw [same, Function.update_self]
        simp [first]
      · rw [Function.update_of_ne same]
        exact tracks.opened other

theorem register_tracks (tracks : Tracks irqs lines) {irq : BitVec 8} {handler : Handler}
    {handles : IrqHandles Handler}
    (registered : registerIrqHandler irqs.handles irq handler = some handles) :
    Tracks { irqs with handles := handles } (lines.after (.register irq handler)) := by
  refine { tracks with handles := ?_ }
  unfold registerIrqHandler at registered
  split at registered
  · rename_i inside
    cases registered
    funext line
    change Function.update irqs.handles ⟨irq.toNat, inside⟩ (some handler) line =
      if line.val = irq.toNat then some handler else lines.handles line
    rw [tracks.handles]
    simp only [Function.update_apply, Fin.ext_iff]
  · cases registered

theorem handler_effects {irq : Fin IRQ_COUNT} (first : irq.val < 8) {fault : Fault}
    (vector : fault.frame.vector = BitVec.ofNat 64 (32 + irq.val))
    (handles : IrqHandles Handler) :
    commonHandler handles fault = callHandle (handles irq) :: ending := by
  have below : ¬ 8 ≤ (BitVec.ofNat 8 irq.val).toNat := by
    rw [BitVec.toNat_ofNat]
    omega
  rw [commonHandler_line handles vector, sendEoi, if_neg below]
  rfl

theorem left_calling (handle : Option Handler) :
    (callHandle handle :: ending).filter Effect.serves = [callHandle handle] := by
  cases handle with
  | none => rfl
  | some handler => rfl

theorem accept_tracks (tracks : Tracks irqs lines) {table : Nat} {boot : Store}
    {stub : Nat → Word} (distinct : Distinct stub) {processor : Processor} {cr2 : Word}
    (intact : Intact table boot stub processor.memory) {next : Irqs Handler}
    (accepted : irqs.accept table stub processor cr2 = some next) :
    Tracks next (lines.after (.accept processor cr2)) := by
  unfold Irqs.accept at accepted
  split at accepted
  case isFalse => cases accepted
  case isTrue ready =>
    have idle : irqs.doing = none := Option.isNone_iff_eq_none.mp ready.1
    have ended : irqs.pics.pic1.inService = 0 := by
      have phase := tracks.phase
      rw [idle] at phase
      exact phase
    rw [acknowledge_eq tracks ended] at accepted
    cases found : lines.next with
    | none =>
        rw [found] at accepted
        cases accepted
    | some irq =>
        have after : lines.after (.accept processor cr2) = lines.serve irq := by
          rw [Lines.after, found]
          rfl
        have opened := (Bool.and_eq_true_iff.mp (Fin.find?_eq_some_iff.mp found).1).2
        have small := tracks.few irq opened
        have installed : Installed (32 + irq.val) := Or.inl (by omega)
        have effects : commonHandler irqs.handles
            { cr2 := cr2, frame := processor.interruptFrame (32 + irq.val) 0 } =
              callHandle (irqs.handles irq) :: ending :=
          handler_effects (by omega) rfl irqs.handles
        rw [found, Option.map_some] at accepted
        dsimp only at accepted
        rw [enterKernel_eq distinct intact installed (by omega), Option.map_some,
          effects] at accepted
        cases accepted
        rw [after]
        refine { tracks with waiting := ?_, served := ?_, phase := ?_ }
        · intro other
          change Controllers.waiting _ other = Function.update lines.waiting irq false other
          have before := tracks.waiting other
          simp only [Function.update_apply, Fin.ext_iff]
          unfold Controllers.waiting at before ⊢
          by_cases otherFirst : other.val < 8
          · rw [if_pos otherFirst] at before ⊢
            rw [BitVec.getLsbD_and, before, BitVec.getLsbD_not, getLsbD_lineBit otherFirst]
            by_cases same : other.val = irq.val <;> simp [same, otherFirst]
          · rw [if_neg otherFirst] at before ⊢
            rw [before, if_neg (by omega)]
        · have done : irqs.done = lines.served := by
            rw [← tracks.served, Irqs.left, idle]
            exact (List.append_nil _).symm
          change irqs.done ++ (callHandle (irqs.handles irq) :: ending).filter Effect.serves =
            lines.served ++ [callHandle (lines.handles irq)]
          rw [left_calling, done, tracks.handles]
        · exact Or.inr ⟨⟨⟨irq.val, by omega⟩, rfl⟩, Or.inr ⟨_, rfl⟩⟩

theorem ended_line (line : Fin 8) : lineBit line.val &&& (lineBit line.val - 1) = 0 := by
  revert line
  decide

theorem advance_tracks (tracks : Tracks irqs lines) {effects : List (Effect Handler)}
    (busy : irqs.doing = some effects) :
    ∃ next, irqs.advance = some next ∧ Tracks next lines ∧
      next.doing = if effects = [] then none else some effects.tail := by
  have phase := tracks.phase
  have served := tracks.served
  rw [Irqs.left, busy] at served
  rw [busy] at phase
  rcases phase with ⟨ended, rfl⟩ | ⟨⟨line, inService⟩, rfl | ⟨handle, rfl⟩⟩
  · refine ⟨{ irqs with doing := none }, by rw [Irqs.advance, busy], ?_, rfl⟩
    exact { tracks with served := served, phase := ended }
  · refine ⟨{ irqs with pics := irqs.pics.outb PIC1_CMD PIC_EOI, doing := some [] },
      by rw [Irqs.advance, busy]; rfl, ?_, rfl⟩
    rw [Controllers.eoi_eq, inService, ended_line line]
    exact { tracks with served := served, phase := Or.inl ⟨rfl, rfl⟩ }
  · refine ⟨{ irqs with doing := some ending, done := irqs.done ++ [callHandle handle] }, ?_, ?_,
      rfl⟩
    · rw [Irqs.advance, busy]
      cases handle with
      | none => rfl
      | some handler => rfl
    · refine { tracks with served := ?_, phase := Or.inr ⟨⟨line, inService⟩, Or.inl rfl⟩ }
      change irqs.done ++ (callHandle handle :: ending).filter Effect.serves = lines.served at served
      rw [left_calling] at served
      exact (List.append_nil _).trans served

/-- The processor that takes an interrupt still has the descriptor table. -/
def IrqEvent.Proper (table : Nat) (boot : Store) (stub : Nat → Word) : IrqEvent Handler → Prop
  | .accept processor _ => Intact table boot stub processor.memory
  | _ => True

theorem irqStep_tracks (tracks : Tracks irqs lines) {table : Nat} {boot : Store}
    {stub : Nat → Word} (distinct : Distinct stub) {event : IrqEvent Handler}
    (proper : event.Proper table boot stub) {next : Irqs Handler}
    (stepped : irqStep table stub irqs event = some next) : Tracks next (lines.after event) := by
  cases event with
  | raise irq =>
      cases stepped
      exact raise_tracks tracks irq
  | accept processor cr2 => exact accept_tracks tracks distinct proper stepped
  | advance =>
      cases busy : irqs.doing with
      | none =>
          change irqs.advance = some next at stepped
          rw [Irqs.advance, busy] at stepped
          cases stepped
      | some effects =>
          obtain ⟨reached, advanced, after, _⟩ := advance_tracks tracks busy
          cases advanced.symm.trans stepped
          exact after
  | register irq handler =>
      obtain ⟨handles, registered, rfl⟩ := Option.map_eq_some_iff.mp stepped
      exact register_tracks tracks registered
  | setMark irq =>
      cases stepped
      exact setMark_tracks tracks irq
  | readIrr =>
      cases stepped
      exact { tracks with }
  | readIsr =>
      cases stepped
      exact { tracks with }

theorem run_tracks {table : Nat} {boot : Store} {stub : Nat → Word} (distinct : Distinct stub)
    {events : List (IrqEvent Handler)} (tracks : Tracks irqs lines)
    (proper : ∀ event ∈ events, event.Proper table boot stub) {reached : Irqs Handler}
    (run : exec (irqStep table stub) irqs events = some reached) :
    Tracks reached (events.foldl Lines.after lines) := by
  induction events generalizing irqs lines with
  | nil =>
      cases run
      exact tracks
  | cons event rest ih =>
      obtain ⟨next, stepped, remaining⟩ := exec_cons_eq_some.mp run
      have after := irqStep_tracks tracks distinct (proper event (List.mem_cons_self ..)) stepped
      exact ih after (fun later member => proper later (List.mem_cons_of_mem _ member)) remaining

theorem accept_isSome_iff (tracks : Tracks irqs lines) {table : Nat} {boot : Store}
    {stub : Nat → Word} (distinct : Distinct stub) (idle : irqs.doing = none)
    {processor : Processor} (cr2 : Word) (intact : Intact table boot stub processor.memory)
    (enabled : processor.rflags.getLsbD 9 = true) :
    (irqs.accept table stub processor cr2).isSome ↔
      ∃ irq, lines.waiting irq = true ∧ lines.opened irq = true := by
  have ended : irqs.pics.pic1.inService = 0 := by
    have phase := tracks.phase
    rw [idle] at phase
    exact phase
  have ready : irqs.doing.isNone ∧ processor.rflags.getLsbD 9 := ⟨by rw [idle]; rfl, enabled⟩
  rw [Irqs.accept, if_pos ready, acknowledge_eq tracks ended]
  cases found : lines.next with
  | none =>
      have nothing := Fin.find?_eq_none_iff.mp found
      constructor
      · intro some
        cases some
      · rintro ⟨irq, waits, opened⟩
        have absent := nothing irq
        rw [waits, opened] at absent
        cases absent
  | some irq =>
      have here := Bool.and_eq_true_iff.mp (Fin.find?_eq_some_iff.mp found).1
      have small := tracks.few irq here.2
      rw [Option.map_some]
      dsimp only
      rw [enterKernel_eq distinct intact (Or.inl (by omega)) (by omega)]
      exact ⟨fun _ => ⟨irq, here.1, here.2⟩, fun _ => rfl⟩

theorem handler_ends (tracks : Tracks irqs lines) {table : Nat} {stub : Nat → Word}
    {effects : List (Effect Handler)} (busy : irqs.doing = some effects) :
    ∃ final, exec (irqStep table stub) irqs (List.replicate (effects.length + 1) .advance) =
        some final ∧ final.doing = none ∧ final.done = lines.served := by
  induction effects generalizing irqs with
  | nil =>
      obtain ⟨next, advanced, after, ended⟩ := advance_tracks tracks busy
      have served := after.served
      rw [if_pos rfl] at ended
      rw [Irqs.left, ended] at served
      exact ⟨next, exec_cons_eq_some.mpr ⟨next, advanced, rfl⟩, ended,
        (List.append_nil _).symm.trans served⟩
  | cons effect rest ih =>
      obtain ⟨next, advanced, after, remaining⟩ := advance_tracks tracks busy
      rw [if_neg (List.cons_ne_nil _ _)] at remaining
      obtain ⟨final, run, ended⟩ := ih after remaining
      exact ⟨final, exec_cons_eq_some.mpr ⟨next, advanced, run⟩, ended⟩

end Tracking

/-! ### The interrupt path -/

/-- Whatever the controllers did before `remap`, and in whatever order devices raise lines, the
processor takes interrupts and handlers run, are registered or close lines: the requests in the
controllers are the lines that wait, of which only those of the timer and the keyboard are ever
open; what was called, with what the running handler has still to call, are the handlers
registered for the lines served, each at its turn.  A running handler ends; and while none runs
no line is in service, so that the processor finds an interrupt exactly if an open line waits. -/
theorem devices_reach_their_handlers {Handler : Type} {table : Nat} {boot : Store}
    {stub : Nat → Word} {pics : Controllers} {events : List (IrqEvent Handler)}
    {reached : Irqs Handler} (distinct : Distinct stub)
    (proper : ∀ event ∈ events, event.Proper table boot stub)
    (run : exec (irqStep table stub) (Irqs.start pics) events = some reached) :
    let lines := events.foldl Lines.after (Lines.start : Lines Handler)
    (∀ irq, reached.pics.waiting irq = lines.waiting irq) ∧
    (∀ irq, lines.opened irq = true → irq.val < 2) ∧
    reached.done ++ reached.left = lines.served ∧
    (∀ effects, reached.doing = some effects →
      ∃ final, exec (irqStep table stub) reached
          (List.replicate (effects.length + 1) .advance) = some final ∧
        final.doing = none ∧ final.done = lines.served) ∧
    (reached.doing = none → reached.pics.readIsr.1 = 0 ∧
      ∀ (processor : Processor) (cr2 : Word), Intact table boot stub processor.memory →
        processor.rflags.getLsbD 9 = true →
          ((reached.accept table stub processor cr2).isSome ↔
            ∃ irq, lines.waiting irq = true ∧ lines.opened irq = true)) := by
  intro lines
  have tracks : Tracks reached lines := run_tracks distinct (start_tracks pics) proper run
  refine ⟨tracks.waiting, tracks.few, tracks.served, ?_, ?_⟩
  · intro effects busy
    exact handler_ends tracks busy
  · intro idle
    have phase := tracks.phase
    rw [idle] at phase
    exact ⟨phase, fun processor cr2 intact enabled =>
      accept_isSome_iff tracks distinct idle cr2 intact enabled⟩

def sampleStub (vector : Nat) : Word := BitVec.ofNat 64 (0x100000 + 32 * vector)

def sampleTable : Nat := 0x40000

def blankMemory : Store := fun _ => 0

def sampleInterrupted : Processor :=
  { sampleProgram with memory := initIdt blankMemory sampleTable sampleStub }

def sampleController : Controller :=
  { expects := []
    base := 8
    cascade := 0
    mode := 0
    mask := 0
    requests := 0xff
    inService := 1
    readsInService := false }

def timerLine : Fin IRQ_COUNT := ⟨0, by decide⟩

def keyboardLine : Fin IRQ_COUNT := ⟨1, by decide⟩

/-- The keyboard and the timer are raised together, and the timer once more while its handler
runs. -/
def sampleIrqs : List (IrqEvent Nat) :=
  [.register 0 70, .register 1 71, .raise keyboardLine, .raise timerLine,
    .accept sampleInterrupted 0, .advance, .raise timerLine, .advance, .advance,
    .accept sampleInterrupted 0, .advance, .advance, .advance, .accept sampleInterrupted 0]

def Effect.called : Effect Nat → Option Nat
  | .call handler => some handler
  | _ => none

/-- The timer is served twice before the keyboard. -/
theorem sampleIrqs_served :
    ∃ reached, exec (irqStep sampleTable sampleStub)
        (Irqs.start ⟨sampleController, sampleController⟩) sampleIrqs = some reached ∧
      (reached.done ++ reached.left).map Effect.called = [some 70, some 70, some 71] := by
  have distinct : Distinct sampleStub := by
    intro left right leftInstalled rightInstalled same
    have words := congrArg BitVec.toNat same
    unfold sampleStub at words
    unfold Installed at leftInstalled rightInstalled
    rw [BitVec.toNat_ofNat, BitVec.toNat_ofNat] at words
    omega
  have intact : Intact sampleTable blankMemory sampleStub sampleInterrupted.memory :=
    fun _ _ _ => rfl
  have proper : ∀ event ∈ sampleIrqs, event.Proper sampleTable blankMemory sampleStub := by
    simp [sampleIrqs, IrqEvent.Proper, intact]
  have runs : (exec (irqStep sampleTable sampleStub)
      (Irqs.start ⟨sampleController, sampleController⟩) sampleIrqs).isSome = true := by
    decide +kernel
  obtain ⟨reached, run⟩ := Option.isSome_iff_exists.mp runs
  refine ⟨reached, run, ?_⟩
  rw [(devices_reach_their_handlers distinct proper run).2.2.1]
  decide +kernel

end CustomKernel.Interrupt
