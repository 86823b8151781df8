/-
Setting up the keyboard controller.

`init` reads the configuration byte of the controller, changes two bits of it and writes it
back.  It takes the first byte that the controller has for it, and that need not be the
configuration: a byte may have been left there, and a device may send one before the answer.
-/

import CustomKernel.Device.Keyboard
import CustomKernel.Foundation.LabelledRun

set_option autoImplicit false

namespace CustomKernel.Device

open LabelledRun

/-! ### The controller -/

/-- A write to port `0x64` or to port `0x60`. -/
inductive PortWrite where
  | command (value : Byte)
  | data (value : Byte)
  deriving DecidableEq

/-- The configuration, the buffers for one byte each way, and whether the next data byte is
a configuration. -/
structure Ps2Controller where
  config : Byte
  output : Byte
  outputFull : Bool
  input : Option PortWrite
  expecting : Bool
  deriving DecidableEq

namespace Ps2Controller

/-- A read of port `0x64`; all bits but two are about other things. -/
def status (controller : Ps2Controller) (others : Byte) : Byte :=
  others &&& 0xfc#8 ||| (if controller.outputFull then 0x01#8 else 0#8) |||
    if controller.input.isSome then 0x02#8 else 0#8

def write (controller : Ps2Controller) (value : PortWrite) : Ps2Controller :=
  { controller with input := some value }

/-- The controller takes the byte from its input buffer; an answer needs an empty output
buffer. -/
def serve (controller : Ps2Controller) : Option Ps2Controller :=
  match controller.input with
  | none => none
  | some (.command value) =>
      if value = 0x20#8 then
        if controller.outputFull then none
        else
          some
            { controller with output := controller.config, outputFull := true, input := none }
      else some { controller with expecting := decide (value = 0x60#8), input := none }
  | some (.data value) =>
      some
        { controller with
          config := if controller.expecting then value else controller.config
          input := none
          expecting := false }

def stopped (config : Byte) (second : Bool) : Bool := config.getLsbD (if second then 5 else 4)

def receive (controller : Ps2Controller) (second : Bool) (value : Byte) : Option Ps2Controller :=
  if controller.outputFull || stopped controller.config second then none
  else some { controller with output := value, outputFull := true }

theorem status_output (controller : Ps2Controller) (others : Byte) :
    controller.status others &&& 0x01#8 ≠ 0#8 ↔ controller.outputFull = true := by
  have masked : others &&& 0xfc#8 &&& 0x01#8 = 0#8 := by
    rw [BitVec.and_assoc]
    exact BitVec.and_zero
  rw [status, BitVec.and_or_distrib_right, BitVec.and_or_distrib_right, masked]
  cases controller.outputFull <;> cases controller.input.isSome <;> decide

theorem status_input (controller : Ps2Controller) (others : Byte) :
    controller.status others &&& 0x02#8 = 0#8 ↔ controller.input = none := by
  have masked : others &&& 0xfc#8 &&& 0x02#8 = 0#8 := by
    rw [BitVec.and_assoc]
    exact BitVec.and_zero
  rw [status, BitVec.and_or_distrib_right, BitVec.and_or_distrib_right, masked]
  cases controller.outputFull <;> cases controller.input <;> simp

end Ps2Controller

/-! ### Init -/

/-- Where `init` is: before one of its port accesses, in one of its loops with what is left
of the timeout, or behind the last write. -/
inductive InitPhase where
  | askConfig
  | waitRead (timeout : Nat)
  | readConfig
  | waitCommand (ccb : Byte) (timeout : Nat)
  | sendCommand (ccb : Byte)
  | waitData (ccb : Byte) (timeout : Nat)
  | sendData (ccb : Byte)
  | registered
  deriving DecidableEq

def WAIT_TIMEOUT : Nat := 100000

/-- `ccb |= 0x01; ccb &= !0x10` -/
def adjusted (ccb : Byte) : Byte := (ccb ||| 0x01#8) &&& ~~~0x10#8

structure KeyboardInit where
  controller : Ps2Controller
  phase : InitPhase
  deriving DecidableEq

inductive SetupEvent where
  /-- The next access of `init`, with the other bits of the status. -/
  | access (others : Byte)
  | serve
  | receive (second : Bool) (value : Byte)

namespace KeyboardInit

def access (state : KeyboardInit) (others : Byte) : Option KeyboardInit :=
  let controller := state.controller
  match state.phase with
  | .askConfig =>
      some { controller := controller.write (.command 0x20#8), phase := .waitRead WAIT_TIMEOUT }
  | .waitRead 0 => some { state with phase := .readConfig }
  | .waitRead (timeout + 1) =>
      if controller.status others &&& 0x01#8 ≠ 0#8 then some { state with phase := .readConfig }
      else some { state with phase := .waitRead timeout }
  | .readConfig =>
      some
        { controller := { controller with outputFull := false }
          phase := .waitCommand (adjusted controller.output) WAIT_TIMEOUT }
  | .waitCommand ccb 0 => some { state with phase := .sendCommand ccb }
  | .waitCommand ccb (timeout + 1) =>
      if controller.status others &&& 0x02#8 = 0#8 then
        some { state with phase := .sendCommand ccb }
      else some { state with phase := .waitCommand ccb timeout }
  | .sendCommand ccb =>
      some
        { controller := controller.write (.command 0x60#8)
          phase := .waitData ccb WAIT_TIMEOUT }
  | .waitData ccb 0 => some { state with phase := .sendData ccb }
  | .waitData ccb (timeout + 1) =>
      if controller.status others &&& 0x02#8 = 0#8 then some { state with phase := .sendData ccb }
      else some { state with phase := .waitData ccb timeout }
  | .sendData ccb =>
      some { controller := controller.write (.data ccb), phase := .registered }
  | .registered => none

def step (state : KeyboardInit) : SetupEvent → Option KeyboardInit
  | .access others => state.access others
  | .serve => state.controller.serve.map fun controller => { state with controller := controller }
  | .receive second value =>
      (state.controller.receive second value).map fun controller =>
        { state with controller := controller }

def InTime (state : KeyboardInit) (_ : SetupEvent) : Prop :=
  match state.phase with
  | .waitRead 0 => False
  | .waitCommand _ 0 => False
  | .waitData _ 0 => False
  | _ => True

def Finished (state : KeyboardInit) : Prop :=
  state.phase = .registered ∧ state.controller.input = none

/-! ### What can be read -/

def MayRead (start : Ps2Controller) (value : Byte) : Prop :=
  if start.outputFull then value = start.output
  else value = start.config ∨ ∃ second, Ps2Controller.stopped start.config second = false

def MayWrite (start : Ps2Controller) (ccb : Byte) : Prop :=
  ∃ value, MayRead start value ∧ ccb = adjusted value

/-- Before the read: what is in the output buffer can be read, and what was there is there. -/
structure Offers (start controller : Ps2Controller) : Prop where
  readable : controller.outputFull = true → MayRead start controller.output
  left : start.outputFull = true → controller.outputFull = true

def Asked (controller : Ps2Controller) : Prop := controller.input = some (.command 0x20#8)

def Quiet (controller : Ps2Controller) : Prop := controller.input = none

def PhaseHolds (start controller : Ps2Controller) : InitPhase → Prop
  | .askConfig => Offers start controller ∧ Quiet controller
  | .waitRead _ => Offers start controller ∧
      (Asked controller ∨ Quiet controller ∧ controller.outputFull = true)
  | .readConfig => controller.outputFull = true ∧ MayRead start controller.output ∧
      (Asked controller ∨ Quiet controller)
  | .waitCommand ccb _ => MayWrite start ccb ∧ (Asked controller ∨ Quiet controller)
  | .sendCommand ccb => MayWrite start ccb ∧ Quiet controller
  | .waitData ccb _ => MayWrite start ccb ∧
      (controller.input = some (.command 0x60#8) ∨ Quiet controller ∧ controller.expecting = true)
  | .sendData ccb => MayWrite start ccb ∧ Quiet controller ∧ controller.expecting = true
  | .registered => ∃ ccb, MayWrite start ccb ∧
      (controller.input = some (.data ccb) ∧ controller.expecting = true ∨
        Quiet controller ∧ controller.config = ccb)

structure Holds (start : Ps2Controller) (state : KeyboardInit) : Prop where
  config : state.phase ≠ .registered → state.controller.config = start.config
  phase : PhaseHolds start state.controller state.phase

variable {start controller after : Ps2Controller} {phase : InitPhase}

theorem Quiet.serve (quiet : Quiet controller) : controller.serve ≠ some after := by
  unfold Ps2Controller.serve
  rw [show controller.input = none from quiet]
  simp

theorem Asked.serve (asked : Asked controller) (served : controller.serve = some after) :
    controller.outputFull = false ∧
      after =
        { controller with output := controller.config, outputFull := true, input := none } := by
  unfold Ps2Controller.serve at served
  rw [show controller.input = some (.command 0x20#8) from asked] at served
  dsimp only at served
  rw [if_pos rfl] at served
  split at served
  case isTrue => cases served
  case isFalse empty =>
    cases served
    exact ⟨Bool.eq_false_of_not_eq_true empty, rfl⟩

theorem Offers.mayRead {value : Byte} (offers : Offers start controller)
    (empty : controller.outputFull = false)
    (source : value = start.config ∨ ∃ second, Ps2Controller.stopped start.config second = false) :
    MayRead start value := by
  have nothing : ¬ start.outputFull = true := by
    intro left
    rw [offers.left left] at empty
    cases empty
  rw [MayRead, if_neg nothing]
  exact source

theorem receive_holds {second : Bool} {value : Byte} (holds : Holds start ⟨controller, phase⟩)
    (received : controller.receive second value = some after) : Holds start ⟨after, phase⟩ := by
  unfold Ps2Controller.receive at received
  split at received
  case isTrue => cases received
  case isFalse room =>
    cases received
    obtain ⟨empty, runs⟩ : controller.outputFull = false ∧
        Ps2Controller.stopped controller.config second = false := by
      simpa using room
    have offered (offers : Offers start controller)
        (config : controller.config = start.config) :
        Offers start { controller with output := value, outputFull := true } :=
      ⟨fun _ => offers.mayRead empty (Or.inr ⟨second, config ▸ runs⟩), fun _ => rfl⟩
    refine ⟨holds.config, ?_⟩
    have config := holds.config
    have inside : PhaseHolds start controller phase := holds.phase
    cases phase with
    | askConfig => exact ⟨offered inside.1 (config (by simp)), inside.2⟩
    | waitRead timeout =>
        exact ⟨offered inside.1 (config (by simp)), inside.2.imp id fun both => ⟨both.1, rfl⟩⟩
    | readConfig =>
        rw [show controller.outputFull = true from inside.1] at empty
        cases empty
    | waitCommand ccb timeout => exact inside
    | sendCommand ccb => exact inside
    | waitData ccb timeout => exact inside
    | sendData ccb => exact inside
    | registered => exact inside

theorem serve_holds (holds : Holds start ⟨controller, phase⟩)
    (served : controller.serve = some after) : Holds start ⟨after, phase⟩ := by
  have config := holds.config
  have inside : PhaseHolds start controller phase := holds.phase
  cases phase with
  | askConfig => exact absurd served inside.2.serve
  | waitRead timeout =>
      obtain ⟨offers, asked | ⟨quiet, _⟩⟩ := inside
      · obtain ⟨empty, rfl⟩ := asked.serve served
        have same := config (by simp)
        have answer : MayRead start controller.config := offers.mayRead empty (Or.inl same)
        exact ⟨config, ⟨fun _ => answer, fun _ => rfl⟩, Or.inr ⟨rfl, rfl⟩⟩
      · exact absurd served quiet.serve
  | readConfig =>
      obtain ⟨full, _, asked | quiet⟩ := inside
      · rw [(asked.serve served).1] at full
        cases full
      · exact absurd served quiet.serve
  | waitCommand ccb timeout =>
      obtain ⟨write, asked | quiet⟩ := inside
      · obtain ⟨_, rfl⟩ := asked.serve served
        exact ⟨config, write, Or.inr rfl⟩
      · exact absurd served quiet.serve
  | sendCommand ccb => exact absurd served inside.2.serve
  | waitData ccb timeout =>
      obtain ⟨write, command | ⟨quiet, _⟩⟩ := inside
      · unfold Ps2Controller.serve at served
        rw [show controller.input = some (.command 0x60#8) from command] at served
        cases served
        exact ⟨config, write, Or.inr ⟨rfl, rfl⟩⟩
      · exact absurd served quiet.serve
  | sendData ccb => exact absurd served inside.2.1.serve
  | registered =>
      obtain ⟨ccb, write, ⟨data, expecting⟩ | ⟨quiet, _⟩⟩ := inside
      · unfold Ps2Controller.serve at served
        rw [show controller.input = some (.data ccb) from data] at served
        cases served
        exact ⟨fun other => absurd rfl other, ccb, write, Or.inr ⟨rfl, if_pos expecting⟩⟩
      · exact absurd served quiet.serve

theorem access_holds {next : KeyboardInit} {others : Byte}
    (holds : Holds start ⟨controller, phase⟩) (inTime : InTime ⟨controller, phase⟩ (.access others))
    (accessed : access ⟨controller, phase⟩ others = some next) : Holds start next := by
  have config := holds.config
  have inside : PhaseHolds start controller phase := holds.phase
  cases phase with
  | askConfig =>
      cases accessed
      exact ⟨fun _ => config (by simp), ⟨inside.1.readable, inside.1.left⟩, Or.inl rfl⟩
  | waitRead timeout =>
      cases timeout with
      | zero => exact absurd inTime id
      | succ timeout =>
          simp only [access] at accessed
          split at accessed
          case isTrue full =>
            cases accessed
            have full := (controller.status_output others).mp full
            exact ⟨fun _ => config (by simp), full, inside.1.readable full,
              inside.2.imp id And.left⟩
          case isFalse =>
            cases accessed
            exact ⟨fun _ => config (by simp), inside⟩
  | readConfig =>
      cases accessed
      exact ⟨fun _ => config (by simp), ⟨_, inside.2.1, rfl⟩, inside.2.2⟩
  | waitCommand ccb timeout =>
      cases timeout with
      | zero => exact absurd inTime id
      | succ timeout =>
          simp only [access] at accessed
          split at accessed
          case isTrue empty =>
            cases accessed
            exact ⟨fun _ => config (by simp), inside.1, (controller.status_input others).mp empty⟩
          case isFalse =>
            cases accessed
            exact ⟨fun _ => config (by simp), inside⟩
  | sendCommand ccb =>
      cases accessed
      exact ⟨fun _ => config (by simp), inside.1, Or.inl rfl⟩
  | waitData ccb timeout =>
      cases timeout with
      | zero => exact absurd inTime id
      | succ timeout =>
          simp only [access] at accessed
          split at accessed
          case isTrue empty =>
            cases accessed
            have quiet := (controller.status_input others).mp empty
            refine ⟨fun _ => config (by simp), inside.1, quiet, ?_⟩
            rcases inside.2 with command | both
            · rw [show controller.input = some (.command 0x60#8) from command] at quiet
              cases quiet
            · exact both.2
          case isFalse =>
            cases accessed
            exact ⟨fun _ => config (by simp), inside⟩
  | sendData ccb =>
      cases accessed
      exact ⟨fun other => absurd rfl other, ccb, inside.1, Or.inl ⟨rfl, inside.2.2⟩⟩
  | registered => cases accessed

theorem step_holds (state : KeyboardInit) (event : SetupEvent) (next : KeyboardInit)
    (holds : Holds start state) (inTime : InTime state event)
    (stepped : state.step event = some next) : Holds start next := by
  cases event with
  | access others => exact access_holds holds inTime stepped
  | serve =>
      obtain ⟨after, served, rfl⟩ := Option.map_eq_some_iff.mp stepped
      exact serve_holds holds served
  | receive second value =>
      obtain ⟨after, received, rfl⟩ := Option.map_eq_some_iff.mp stepped
      exact receive_holds holds received

/-! ### The configuration -/

def Completes (state : KeyboardInit) (config : Byte) : Prop :=
  ∃ events final, Guarded step InTime state events ∧ exec step state events = some final ∧
    final.Finished ∧ final.controller.config = config

theorem Completes.before {state next : KeyboardInit} {event : SetupEvent} {config : Byte}
    (later : Completes next config) (inTime : InTime state event)
    (stepped : state.step event = some next) : Completes state config := by
  obtain ⟨events, final, guarded, run, finished, written⟩ := later
  exact ⟨event :: events, final, guarded.cons stepped inTime,
    exec_cons_eq_some.mpr ⟨next, stepped, run⟩, finished, written⟩

theorem completes_with_left (config output : Byte) :
    Completes ⟨⟨config, output, true, none, false⟩, .askConfig⟩ (adjusted output) := by
  have written : Completes ⟨⟨config, config, true, some (.data (adjusted output)), true⟩,
      .registered⟩ (adjusted output) :=
    ⟨[.serve], _, ⟨trivial, fun _ _ => trivial⟩, rfl, ⟨rfl, rfl⟩, rfl⟩
  have sending : Completes ⟨⟨config, config, true, some (.command 0x60#8), false⟩,
      .waitData (adjusted output) WAIT_TIMEOUT⟩ (adjusted output) := by
    have told : Completes ⟨⟨config, config, true, none, true⟩, .sendData (adjusted output)⟩
        (adjusted output) := @Completes.before _ _ (.access 0) _ written trivial rfl
    have waiting : Completes ⟨⟨config, config, true, none, true⟩,
        .waitData (adjusted output) WAIT_TIMEOUT⟩ (adjusted output) :=
      @Completes.before _ _ (.access 0) _ told trivial
        (if_pos ((Ps2Controller.status_input _ 0).mpr rfl))
    exact @Completes.before _ _ .serve _ waiting trivial rfl
  have reading : Completes ⟨⟨config, output, false, some (.command 0x20#8), false⟩,
      .waitCommand (adjusted output) WAIT_TIMEOUT⟩ (adjusted output) := by
    have asking : Completes ⟨⟨config, config, true, none, false⟩, .sendCommand (adjusted output)⟩
        (adjusted output) := @Completes.before _ _ (.access 0) _ sending trivial rfl
    have waiting : Completes ⟨⟨config, config, true, none, false⟩,
        .waitCommand (adjusted output) WAIT_TIMEOUT⟩ (adjusted output) :=
      @Completes.before _ _ (.access 0) _ asking trivial
        (if_pos ((Ps2Controller.status_input _ 0).mpr rfl))
    exact @Completes.before _ _ .serve _ waiting trivial rfl
  have seen : Completes ⟨⟨config, output, true, some (.command 0x20#8), false⟩, .readConfig⟩
      (adjusted output) := @Completes.before _ _ (.access 0) _ reading trivial rfl
  have looking : Completes ⟨⟨config, output, true, some (.command 0x20#8), false⟩,
      .waitRead WAIT_TIMEOUT⟩ (adjusted output) :=
    @Completes.before _ _ (.access 0) _ seen trivial
      (if_pos ((Ps2Controller.status_output _ 0).mpr rfl))
  exact @Completes.before _ _ (.access 0) _ looking trivial rfl

theorem adjusted_other (config : Byte) : adjusted (config ^^^ 0x02#8) ≠ adjusted config := by
  revert config
  decide

theorem start_holds {start : Ps2Controller} (quiet : Quiet start) :
    Holds start ⟨start, .askConfig⟩ where
  config _ := rfl
  phase := by
    refine ⟨⟨?_, id⟩, quiet⟩
    intro full
    rw [MayRead, if_pos full]

def Idle (controller : Ps2Controller) : Prop :=
  controller.input = none ∧ controller.expecting = false

/-- However the controller and the devices behave, `init` changes just its two bits of the
configuration, if and only if what it reads is bound to be the configuration: a byte that was left
says the same, or none was left and the clocks of both devices are stopped. -/
theorem init_adjusts_config_iff {start : Ps2Controller} (idle : Idle start) :
    (∀ events state, Guarded step InTime ⟨start, .askConfig⟩ events →
      exec step ⟨start, .askConfig⟩ events = some state → state.Finished →
        state.controller.config = adjusted start.config) ↔
      if start.outputFull then adjusted start.output = adjusted start.config
      else ∀ second, Ps2Controller.stopped start.config second = true := by
  constructor
  · intro always
    obtain ⟨config, output, full, input, expecting⟩ := start
    obtain ⟨rfl, rfl⟩ := idle
    cases full with
    | true =>
        rw [if_pos rfl]
        obtain ⟨events, state, inTime, run, finished, written⟩ :=
          completes_with_left config output
        exact written.symm.trans (always events state inTime run finished)
    | false =>
        rw [if_neg Bool.false_ne_true]
        intro second
        by_contra runs
        have running := Bool.eq_false_of_not_eq_true runs
        obtain ⟨events, state, inTime, run, finished, written⟩ :=
          completes_with_left config (config ^^^ 0x02#8)
        have received : step ⟨⟨config, output, false, none, false⟩, .askConfig⟩
            (.receive second (config ^^^ 0x02#8)) =
              some ⟨⟨config, config ^^^ 0x02#8, true, none, false⟩, .askConfig⟩ := by
          simp [step, Ps2Controller.receive, running]
        have wrong := always (.receive second (config ^^^ 0x02#8) :: events) state
          (inTime.cons received trivial)
          (exec_cons_eq_some.mpr ⟨_, received, run⟩) finished
        exact adjusted_other config (written.symm.trans wrong)
  · intro bound events state inTime run finished
    have holds := exec_invariant_of_guarded step_holds (start_holds idle.1) inTime run
    obtain ⟨controller, phase⟩ := state
    obtain ⟨rfl, quiet⟩ := finished
    obtain ⟨ccb, ⟨value, readable, rfl⟩, ⟨data, _⟩ | ⟨_, written⟩⟩ := holds.phase
    · rw [show controller.input = none from quiet] at data
      cases data
    · rw [show controller.config = adjusted value from written]
      unfold MayRead at readable
      split at readable
      case isTrue full =>
        rw [if_pos full] at bound
        rw [readable]
        exact bound
      case isFalse empty =>
        rw [if_neg empty] at bound
        rcases readable with same | ⟨second, runs⟩
        · rw [same]
        · rw [bound second] at runs
          cases runs

/-- A key that was pressed before, in the place of the configuration. -/
theorem left_key_is_taken :
    ¬ ∀ events state, Guarded step InTime ⟨⟨0x61#8, 0x1c#8, true, none, false⟩, .askConfig⟩ events →
      exec step ⟨⟨0x61#8, 0x1c#8, true, none, false⟩, .askConfig⟩ events = some state →
        state.Finished → state.controller.config = adjusted 0x61#8 := by
  have idle : Idle ⟨0x61#8, 0x1c#8, true, none, false⟩ := ⟨rfl, rfl⟩
  intro always
  exact absurd ((init_adjusts_config_iff idle).mp always) (by decide)

end KeyboardInit

end CustomKernel.Device
