/-
The text of the task dump.

`dump_tasks` writes a line for each used slot.  A name is written byte by byte, line ends
included, and so could look like the end of its line; but it has at most sixteen bytes, fewer
than any line has in front of its name.  So the bytes on the port determine the table.
-/

import CustomKernel.Device.Serial
import CustomKernel.Foundation.Readback
import CustomKernel.Multitask.Creation
import CustomKernel.Shell.CommandLine

set_option autoImplicit false

namespace CustomKernel.Multitask

open Device Readback
open SimpleShell (ascii)
open Serial (printed printed_plain)

/-! ### Numbers of reachable tables -/

structure Kernel.Fits (kernel : Kernel) : Prop where
  pid : ∀ slot, (kernel.tasks slot).pid < 2 ^ 32
  ticksRun : ∀ slot, (kernel.tasks slot).ticksRun < 2 ^ 64
  nextPid : kernel.nextPid < 2 ^ 32

namespace Kernel.Fits

variable {kernel after : Kernel}

theorem of_tasks (fits : kernel.Fits)
    (same : ∀ slot, (after.tasks slot).pid = (kernel.tasks slot).pid ∧
      (after.tasks slot).ticksRun = (kernel.tasks slot).ticksRun)
    (nextPid : after.nextPid = kernel.nextPid) : after.Fits where
  pid slot := (same slot).1 ▸ fits.pid slot
  ticksRun slot := (same slot).2 ▸ fits.ticksRun slot
  nextPid := nextPid ▸ fits.nextPid

theorem setTask (fits : kernel.Fits) (slot : Slot) {task : Task} (pid : task.pid < 2 ^ 32)
    (ticksRun : task.ticksRun < 2 ^ 64) : (kernel.setTask slot task).Fits where
  pid other := by
    by_cases same : other = slot
    · simpa [Kernel.setTask, same] using pid
    · simpa [Kernel.setTask, same] using fits.pid other
  ticksRun other := by
    by_cases same : other = slot
    · simpa [Kernel.setTask, same] using ticksRun
    · simpa [Kernel.setTask, same] using fits.ticksRun other
  nextPid := fits.nextPid

theorem update (fits : kernel.Fits) (slot : Slot) {task : Task}
    (same : task.pid = (kernel.tasks slot).pid ∧ task.ticksRun = (kernel.tasks slot).ticksRun) :
    (kernel.setTask slot task).Fits :=
  fits.setTask slot (same.1 ▸ fits.pid slot) (same.2 ▸ fits.ticksRun slot)

theorem schedule (fits : kernel.Fits) (context : SavedContext) :
    (Multitask.schedule context kernel).2.Fits := by
  rcases schedule_cases context kernel with ⟨scheduled, _⟩ | ⟨scheduled, _, _⟩ |
    ⟨next, _, _, scheduled, _⟩
  · rw [scheduled]
    exact fits.update _ ⟨rfl, rfl⟩
  · rw [scheduled]
    exact fits.update _ ⟨rfl, rfl⟩
  · rw [scheduled]
    refine fits.of_tasks (fun slot => ?_) rfl
    by_cases chosen : slot = next
    · simp [switchTo, chosen]
    · by_cases caller : slot = kernel.current
      · subst caller
        simp [switchTo, leave, chosen]
      · simp [switchTo, chosen, caller]

theorem counted (fits : kernel.Fits) (slot : Slot) :
    (kernel.setTask slot { kernel.tasks slot with
      ticksRun := Word64.add (kernel.tasks slot).ticksRun 1 }).Fits :=
  fits.setTask slot (fits.pid slot) (Nat.mod_lt _ (Nat.two_pow_pos 64))

theorem prepareTick (fits : kernel.Fits) (currentTick : Nat) :
    (Multitask.prepareTick kernel currentTick).kernel.Fits := by
  have woken : (wakeSleepingTasks { kernel with tickCount := currentTick } currentTick).Fits := by
    refine fits.of_tasks (fun slot => ?_) rfl
    unfold wakeSleepingTasks wakeSleeper
    dsimp only
    split
    · exact ⟨rfl, rfl⟩
    · exact ⟨rfl, rfl⟩
  have ran := woken.counted kernel.current
  unfold Multitask.prepareTick
  dsimp only
  split
  · exact ran.of_tasks (fun _ => ⟨rfl, rfl⟩) rfl
  · exact ran.of_tasks (fun _ => ⟨rfl, rfl⟩) rfl

theorem exit (fits : kernel.Fits) {code : Int}
    (result : terminate (wakeWaiters kernel (kernel.tasks kernel.current).pid code)
      kernel.current code = .ok after) : after.Fits := by
  have woken : (wakeWaiters kernel (kernel.tasks kernel.current).pid code).Fits := by
    refine fits.of_tasks (fun slot => ?_) rfl
    unfold wakeWaiters wakeWaiter
    dsimp only
    split
    · exact ⟨rfl, rfl⟩
    · exact ⟨rfl, rfl⟩
  obtain ⟨pmm, _, rfl⟩ := terminate_some result
  generalize wakeWaiters kernel (kernel.tasks kernel.current).pid code = before at woken
  have ended : (before.setTask kernel.current { before.tasks kernel.current with
      state := .terminated, exitCode := code }).Fits := woken.update _ ⟨rfl, rfl⟩
  exact ended.of_tasks (fun _ => ⟨rfl, rfl⟩) rfl

theorem prepareWaitFor (fits : kernel.Fits) (pid : Nat) :
    (Multitask.prepareWaitFor kernel pid).kernel.Fits := by
  unfold Multitask.prepareWaitFor
  split
  · exact fits
  · split
    · exact fits.update _ ⟨rfl, rfl⟩
    · exact fits.update _ ⟨rfl, rfl⟩

theorem newKernelTask (fits : kernel.Fits) {entry : Nat} {returned : Option Nat}
    (result : Multitask.newKernelTask kernel entry = .ok (returned, after)) : after.Fits := by
  rcases newKernelTask_cases result with ⟨_, _, rfl⟩ | ⟨pmm, _, _, rfl⟩ |
    ⟨chosen, phys0, phys1, pmm, _, _, _, rfl⟩
  · exact fits
  · exact fits.of_tasks (fun _ => ⟨rfl, rfl⟩) rfl
  · have made : (kernel.setTask chosen (createdTask kernel entry phys0 phys1)).Fits :=
      fits.setTask chosen fits.nextPid (Nat.two_pow_pos 64)
    exact ⟨made.pid, made.ticksRun, Nat.mod_lt _ (Nat.two_pow_pos 32)⟩

theorem prepare (fits : kernel.Fits) {call : KernelCall} {prepared : Prepared}
    (result : Multitask.prepare kernel call = .ok prepared) : prepared.kernel.Fits := by
  cases call with
  | tick currentTick =>
      cases result
      exact fits.prepareTick currentTick
  | yieldCpu =>
      cases result
      exact fits.update _ ⟨rfl, rfl⟩
  | sleepMs ms =>
      cases result
      exact fits.update _ ⟨rfl, rfl⟩
  | exit code =>
      obtain ⟨ended, terminated, rfl⟩ := prepare_exit result
      exact fits.exit terminated
  | waitFor pid =>
      cases result
      exact fits.prepareWaitFor pid
  | newKernelTask entry =>
      obtain ⟨returned, after, created, rfl⟩ := prepare_newKernelTask result
      exact fits.newKernelTask created

theorem finish {prepared : Prepared} {performed : Performed} (fits : prepared.kernel.Fits)
    (finished : Multitask.finish prepared = .ok performed) : performed.kernel.Fits := by
  unfold Multitask.finish at finished
  split at finished
  · cases finished
    exact fits
  · split at finished
    · cases finished
    · cases finished
    · cases finished
      exact fits.schedule _

end Kernel.Fits

/-- A table with whatever names that calls lead to from boot. -/
def NamedKernel.Reached (named : NamedKernel) : Prop :=
  ∃ pmm hhdmOffset calls,
    LabelledRun.exec kernelStep (booted pmm hhdmOffset) calls = some named.kernel

theorem NamedKernel.Reached.fits {named : NamedKernel} (reached : named.Reached) :
    named.kernel.Fits := by
  obtain ⟨pmm, hhdmOffset, calls, run⟩ := reached
  have zeroed : (Kernel.zeroed pmm hhdmOffset).Fits :=
    ⟨fun _ => Nat.two_pow_pos 32, fun _ => Nat.two_pow_pos 64, Nat.one_lt_two_pow (by decide)⟩
  have idle : ((Kernel.zeroed pmm hhdmOffset).setTask 0
      { (Kernel.zeroed pmm hhdmOffset).tasks 0 with state := .running, pid := 0 }).Fits :=
    zeroed.setTask 0 (Nat.two_pow_pos 32) (Nat.two_pow_pos 64)
  have start : (booted pmm hhdmOffset).Fits := idle.of_tasks (fun _ => ⟨rfl, rfl⟩) rfl
  refine LabelledRun.exec_invariant (fun kernel call next fits stepped => ?_) start run
  obtain ⟨performed, result, rfl⟩ := perform_of_kernelStep stepped
  obtain ⟨prepared, prepares, finished⟩ := perform_halves result
  exact (fits.prepare prepares).finish finished

/-! ### Writing -/

def stateWord : TaskState → List Byte
  | .empty => ascii "empty"
  | .created => ascii "created"
  | .ready => ascii "ready"
  | .running => ascii "running"
  | .blocked => ascii "blocked"
  | .terminated => ascii "terminated"

def nameBytes (name : TaskName) : List Byte :=
  (List.ofFn name).take ((List.ofFn name).findIdx (fun byte => byte = 0))

def dumpTask (named : NamedKernel) (slot : Slot) (serial : Serial) : Option Serial := do
  let task := named.kernel.tasks slot
  let serial ← (serial.print (ascii " [")).printUsize slot.val
  let serial ← (serial.print (ascii "] pid=")).printUsize task.pid
  let serial := (serial.print (ascii " state=")).print (stateWord task.state)
  let serial ← (serial.print (ascii " ticks=")).printUsize task.ticksRun
  let serial := (serial.print (ascii " name=")).putAll (nameBytes (named.names slot))
  return serial.print (ascii "\n")

def dumpTasks (named : NamedKernel) (serial : Serial) : Option Serial := do
  let serial := serial.print (ascii "\n--- Task Table ---\n")
  let serial ← (List.finRange MAX_TASKS).foldlM (fun serial slot =>
    if (named.kernel.tasks slot).state = .empty then some serial
    else dumpTask named slot serial) serial
  return serial.print (ascii "----------------------\n")

theorem length_nameBytes (name : TaskName) : (nameBytes name).length ≤ 16 := by
  have cells : (List.ofFn name).length = 16 := List.length_ofFn ..
  unfold nameBytes
  rw [List.length_take, cells]
  exact Nat.min_le_right _ _

structure TaskLine where
  slot : Slot
  pid : Nat
  state : TaskState
  ticksRun : Nat
  name : List Byte
  short : name.length ≤ 16

def lineOf (named : NamedKernel) (slot : Slot) : Option TaskLine :=
  let task := named.kernel.tasks slot
  if task.state = .empty then none
  else some
    { slot := slot
      pid := task.pid
      state := task.state
      ticksRun := task.ticksRun
      name := nameBytes (named.names slot)
      short := length_nameBytes _ }

def usizeBytes (v : Nat) : List Byte := (Numeral.numeral 10 v).map Numeral.decimalSymbol

def lineHead (line : TaskLine) : List Byte :=
  ascii " [" ++ (usizeBytes line.slot.val ++ (ascii "] pid=" ++ (usizeBytes line.pid ++
    (ascii " state=" ++ (stateWord line.state ++ (ascii " ticks=" ++
      (usizeBytes line.ticksRun ++ ascii " name=")))))))

def lineText (line : TaskLine) : List Byte := lineHead line ++ (line.name ++ [13#8, 10#8])

def tableHead : List Byte := [13#8, 10#8] ++ (ascii "--- Task Table ---" ++ [13#8, 10#8])

def tableEnd : List Byte := ascii "----------------------" ++ [13#8, 10#8]

def tableText (lines : List TaskLine) : List Byte :=
  tableHead ++ (lines.flatMap lineText ++ tableEnd)

def tableLines (named : NamedKernel) : List TaskLine :=
  (List.finRange MAX_TASKS).filterMap (lineOf named)

section Writing

variable (serial : Serial)

theorem print_eq (s : List Byte) : serial.print s = { sent := serial.sent ++ printed s } :=
  congrArg Serial.mk (serial.sent_print s)

theorem putAll_eq (bytes : List Byte) :
    serial.putAll bytes = { sent := serial.sent ++ bytes } :=
  congrArg Serial.mk (serial.sent_putAll bytes)

theorem printUsize_bytes {v : Nat} (word : v < 2 ^ 64) :
    serial.printUsize v = some { sent := serial.sent ++ usizeBytes v } := by
  obtain ⟨after, ran, sent⟩ := Option.map_eq_some_iff.mp (serial.printUsize_eq word)
  rw [ran]
  exact congrArg (fun sent => some (Serial.mk sent)) sent

theorem printed_stateWord (state : TaskState) : printed (stateWord state) = stateWord state := by
  cases state <;> exact printed_plain (by decide)

theorem dumpTask_eq {named : NamedKernel} (fits : named.kernel.Fits) (slot : Slot) {line : TaskLine}
    (shown : lineOf named slot = some line) :
    dumpTask named slot serial = some { sent := serial.sent ++ lineText line } := by
  unfold lineOf at shown
  dsimp only at shown
  split at shown
  case isTrue => cases shown
  case isFalse =>
    cases shown
    have index : slot.val < 2 ^ 64 := Nat.lt_trans slot.isLt (by decide)
    have pid := fits.pid slot
    have words : printed (ascii " [") = ascii " [" ∧ printed (ascii "] pid=") = ascii "] pid=" ∧
        printed (ascii " state=") = ascii " state=" ∧ printed (ascii " ticks=") = ascii " ticks=" ∧
        printed (ascii " name=") = ascii " name=" ∧ printed (ascii "\n") = [13#8, 10#8] := by
      decide
    obtain ⟨opening, pidWord, stateIs, ticksWord, nameWord, ending⟩ := words
    simp only [dumpTask, print_eq, putAll_eq, printUsize_bytes _ index,
      printUsize_bytes _ (show (named.kernel.tasks slot).pid < 2 ^ 64 by omega),
      printUsize_bytes _ (fits.ticksRun slot), opening, pidWord, stateIs, ticksWord, nameWord,
      ending, printed_stateWord, Option.bind_eq_bind, Option.bind_some, lineText, lineHead,
      List.append_assoc]
    rfl

theorem lineOf_empty {named : NamedKernel} {slot : Slot}
    (empty : (named.kernel.tasks slot).state = .empty) : lineOf named slot = none := if_pos empty

theorem lineOf_used {named : NamedKernel} {slot : Slot}
    (used : (named.kernel.tasks slot).state ≠ .empty) :
    lineOf named slot = some
      { slot := slot
        pid := (named.kernel.tasks slot).pid
        state := (named.kernel.tasks slot).state
        ticksRun := (named.kernel.tasks slot).ticksRun
        name := nameBytes (named.names slot)
        short := length_nameBytes _ } := if_neg used

theorem dumpSlots_eq {named : NamedKernel} (fits : named.kernel.Fits) (slots : List Slot) :
    slots.foldlM (fun serial slot =>
        if (named.kernel.tasks slot).state = .empty then some serial
        else dumpTask named slot serial) serial =
      some { sent := serial.sent ++ (slots.filterMap (lineOf named)).flatMap lineText } := by
  induction slots generalizing serial with
  | nil =>
      change some serial = some { sent := serial.sent ++ [] }
      rw [List.append_nil]
  | cons slot rest ih =>
      rw [List.foldlM_cons]
      by_cases empty : (named.kernel.tasks slot).state = .empty
      · rw [if_pos empty, List.filterMap_cons_none (lineOf_empty empty)]
        exact ih serial
      · have shown := lineOf_used empty
        rw [if_neg empty, List.filterMap_cons_some shown, dumpTask_eq serial fits slot shown,
          List.flatMap_cons, ← List.append_assoc]
        exact ih _

theorem dumpTasks_eq {named : NamedKernel} (fits : named.kernel.Fits) :
    dumpTasks named serial = some { sent := serial.sent ++ tableText (tableLines named) } := by
  have heading : printed (ascii "\n--- Task Table ---\n") = tableHead := by decide
  have ending : printed (ascii "----------------------\n") = tableEnd := by decide
  simp only [dumpTasks, print_eq, dumpSlots_eq _ fits, Option.bind_eq_bind, Option.bind_some,
    heading, ending, tableText, tableLines, List.append_assoc]
  rfl

end Writing

/-! ### Reading -/

theorem reads_usizeBytes : Reads usizeBytes id (Readback.Stops Numeral.IsDecimal) := by
  have digits (v : Nat) := Numeral.decimal_symbols v
  intro left right leftRest rightRest leftStops rightStops same
  obtain ⟨texts, rests⟩ := reads_run (fun v => (digits v).ascii) left right leftRest rightRest
    leftStops rightStops same
  refine ⟨?_, rests⟩
  have value := congrArg Numeral.decimalValue texts
  exact (digits left).value.symm.trans (value.trans (digits right).value)

theorem stateWord_inj {left right : TaskState} (same : stateWord left = stateWord right) :
    left = right := by
  cases left <;> cases right <;> first | rfl | exact absurd same (by decide)

theorem reads_stateWord : Reads stateWord id (Readback.Stops fun byte => byte ≠ 32#8) := by
  have plain (state : TaskState) (byte : Byte) (member : byte ∈ stateWord state) :
      byte ≠ 32#8 := by
    rintro rfl
    revert member
    cases state <;> decide
  intro left right leftRest rightRest leftStops rightStops same
  obtain ⟨texts, rests⟩ := reads_run plain left right leftRest rightRest leftStops rightStops same
  exact ⟨stateWord_inj texts, rests⟩

/-- No carriage return is so near that a name could reach it. -/
def FarEnd (rest : List Byte) : Prop := ∀ index, index + 1 < 16 → rest[index]? ≠ some 13#8

theorem farEnd_append {first : List Byte} (long : 15 ≤ first.length) (clear : 13#8 ∉ first)
    (rest : List Byte) : FarEnd (first ++ rest) := by
  intro index near found
  rw [List.getElem?_append_left (by omega)] at found
  exact clear (List.mem_of_getElem? found)

theorem lineHead_long (line : TaskLine) : 15 ≤ (lineHead line).length := by
  have words : (ascii " [").length = 2 ∧ (ascii "] pid=").length = 6 ∧
      (ascii " state=").length = 7 := by decide
  simp only [lineHead, List.length_append]
  omega

theorem lineHead_clear (line : TaskLine) : 13#8 ∉ lineHead line := by
  have words : 13#8 ∉ ascii " [" ∧ 13#8 ∉ ascii "] pid=" ∧ 13#8 ∉ ascii " state=" ∧
      13#8 ∉ ascii " ticks=" ∧ 13#8 ∉ ascii " name=" := by decide
  have number (v : Nat) : 13#8 ∉ usizeBytes v := by
    intro member
    exact absurd ((Numeral.decimal_symbols v).ascii _ member) (by decide)
  have state : 13#8 ∉ stateWord line.state := by
    cases line.state <;> decide
  simp only [lineHead, List.mem_append, not_or]
  exact ⟨words.1, number _, words.2.1, number _, words.2.2.1, state, words.2.2.2.1, number _,
    words.2.2.2.2⟩

theorem reads_lineHead :
    Reads lineHead (fun line => (line.slot.val, line.pid, line.state, line.ticksRun))
      (fun _ => True) := by
  have word (word : String) : Reads (fun _ : TaskLine => ascii word) (fun _ => ())
      (fun _ => True) := reads_word _ _
  have number (part : TaskLine → Nat) : Reads (fun line => usizeBytes (part line)) part
      (Readback.Stops Numeral.IsDecimal) := reads_usizeBytes.of_part part
  have state : Reads (fun line : TaskLine => stateWord line.state) (fun line => line.state)
      (Readback.Stops fun byte => byte ≠ 32#8) := reads_stateWord.of_part TaskLine.state
  have ticks := (number TaskLine.ticksRun).append (word " name=") fun _ rest _ =>
    @stops_append _ _ _ 32#8 (by decide) (by decide) rest
  have states := state.append ((word " ticks=").append ticks fun _ _ _ => trivial)
    fun _ rest _ => by
      rw [List.append_assoc]
      exact @stops_append _ _ _ 32#8 (by decide) (by decide) _
  have pids := (number TaskLine.pid).append ((word " state=").append states fun _ _ _ => trivial)
    fun _ rest _ => by
      rw [List.append_assoc]
      exact @stops_append _ _ _ 32#8 (by decide) (by decide) _
  have slots := (number fun line => line.slot.val).append
    ((word "] pid=").append pids fun _ _ _ => trivial) fun _ rest _ => by
      rw [List.append_assoc]
      exact @stops_append _ _ _ 93#8 (by decide) (by decide) _
  have whole := (word " [").append slots fun _ _ _ => trivial
  exact whole.map fun seen =>
    (seen.2.1, seen.2.2.2.1, seen.2.2.2.2.2.1, seen.2.2.2.2.2.2.2.1)

/-- A line can be read back, whatever its name contains. -/
theorem reads_lineText : Reads lineText id FarEnd := by
  have name : Reads (fun line : TaskLine => line.name ++ [13#8, 10#8]) TaskLine.name FarEnd :=
    reads_short (by decide) TaskLine.short
  have whole := reads_lineHead.append name fun _ _ _ => trivial
  intro left right leftRest rightRest leftFar rightFar same
  obtain ⟨seen, rests⟩ := whole left right leftRest rightRest leftFar rightFar same
  refine ⟨?_, rests⟩
  simp only [Prod.mk.injEq] at seen
  obtain ⟨⟨slot, pid, state, ticksRun⟩, name⟩ := seen
  cases left
  cases right
  simp only [id, TaskLine.mk.injEq]
  exact ⟨Fin.ext slot, pid, state, ticksRun, name⟩

theorem tableText_inj {left right : List TaskLine} (same : tableText left = tableText right) :
    left = right := by
  have farLine (line : TaskLine) (rest : List Byte) : FarEnd (lineText line ++ rest) := by
    rw [lineText, List.append_assoc]
    exact farEnd_append (lineHead_long line) (lineHead_clear line) _
  have farEnd (rest : List Byte) : FarEnd (tableEnd ++ rest) := by
    rw [tableEnd, List.append_assoc]
    exact farEnd_append (by decide) (by decide) _
  have reads : Reads (fun lines : List TaskLine => lines.flatMap lineText ++ tableEnd)
      (fun lines => lines.map id) (fun _ => True) := by
    refine reads_lineText.list ?_ farLine farEnd
    intro line rest other same
    have first := congrArg List.head? same
    cases first
  have lines := reads.determines trivial (List.append_cancel_left same)
  rw [List.map_id, List.map_id] at lines
  exact lines

/-! ### The table -/

theorem mem_tableLines {named : NamedKernel} {slot : Slot} {line : TaskLine} :
    lineOf named slot = some line ↔ line ∈ tableLines named ∧ line.slot = slot := by
  have own {slot : Slot} (shown : lineOf named slot = some line) : line.slot = slot := by
    unfold lineOf at shown
    dsimp only at shown
    split at shown
    · cases shown
    · cases shown
      rfl
  unfold tableLines
  rw [List.mem_filterMap]
  constructor
  · intro shown
    exact ⟨⟨slot, List.mem_finRange slot, shown⟩, own shown⟩
  · rintro ⟨⟨other, _, shown⟩, rfl⟩
    rw [own shown]
    exact shown

/-- A dump never fails, and the dumps of two tables are the same bytes if and only if the
tables have the same tasks in the same slots, with the same pid, state, ticks and name. -/
theorem task_dump_shows_table {left right : NamedKernel} (leftReached : left.Reached)
    (rightReached : right.Reached) (serial : Serial) :
    ∃ leftAfter rightAfter, dumpTasks left serial = some leftAfter ∧
      dumpTasks right serial = some rightAfter ∧
      (leftAfter.sent = rightAfter.sent ↔ ∀ slot, lineOf left slot = lineOf right slot) := by
  refine ⟨_, _, dumpTasks_eq serial leftReached.fits, dumpTasks_eq serial rightReached.fits, ?_⟩
  constructor
  · intro same slot
    have lines := tableText_inj (List.append_cancel_left same)
    apply Option.ext
    intro line
    rw [mem_tableLines, mem_tableLines, lines]
  · intro same
    have lines : tableLines left = tableLines right :=
      congrArg (fun lineOf => (List.finRange MAX_TASKS).filterMap lineOf) (funext same)
    rw [lines]

def sampleTask : Kernel :=
  (LabelledRun.exec kernelStep sampleKernel [.newKernelTask 0x1000]).get (by decide +kernel)

def sampleNamed (name : List Byte) : NamedKernel :=
  { kernel := sampleTask, names := fun _ => copyName (fun _ => 0) name }

/-- A name that ends like a line. -/
theorem sampleNamed_dumps :
    ∃ leftAfter rightAfter, dumpTasks (sampleNamed (ascii "a")) { sent := [] } = some leftAfter ∧
      dumpTasks (sampleNamed (ascii "a\r\n")) { sent := [] } = some rightAfter ∧
      leftAfter.sent ≠ rightAfter.sent := by
  have run : LabelledRun.exec kernelStep sampleKernel [.newKernelTask 0x1000] =
      some sampleTask := (Option.some_get _).symm
  have reached (name : List Byte) : (sampleNamed name).Reached :=
    ⟨samplePmm, 0xffff800000000000, [.newKernelTask 0x1000], run⟩
  obtain ⟨leftAfter, rightAfter, left, right, shows⟩ :=
    task_dump_shows_table (reached (ascii "a")) (reached (ascii "a\r\n")) { sent := [] }
  refine ⟨leftAfter, rightAfter, left, right, ?_⟩
  intro same
  have names := congrArg (Option.map TaskLine.name) (shows.mp same 1)
  exact absurd names (by decide +kernel)

end CustomKernel.Multitask
