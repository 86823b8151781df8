/-
The key ring under interrupts.

The consumer takes a byte in three steps: it compares the indices, reads the byte at
`tail` and stores the next `tail`.  The keyboard interrupt may push between any two of
them, and between the steps of the read loop around them.  A push moves only `head` and
writes only the unused cell, so the consumer's view stays right: the bytes popped and
the bytes stored are together the bytes accepted, in order.
-/

import CustomKernel.Device.Keyboard
import CustomKernel.Foundation.LabelledRun

set_option autoImplicit false

namespace CustomKernel.Device

/-! ### The steps of the consumer -/

/-- The next step of a `pop`. -/
inductive PopStage where
  | compare
  | read
  | store (byte : Byte)
  deriving DecidableEq

inductive PopOutcome where
  | running (stage : PopStage)
  | returned (byte : Option Byte)
  deriving DecidableEq

def popStep (buffer : KeyBuffer) : PopStage → PopOutcome × KeyBuffer
  | .compare =>
      if buffer.head = buffer.tail then (.returned none, buffer) else (.running .read, buffer)
  | .read => (.running (.store (buffer.buf buffer.tail)), buffer)
  | .store byte => (.returned (some byte), buffer.advanceTail)

/-- The next step of the loop in `sys_read`: the test `count < len`, a step of `pop`, or
the store of the byte and the increment of `count`. -/
inductive ReadStage where
  | test
  | popping (stage : PopStage)
  | storing (byte : Byte)
  deriving DecidableEq

inductive Consumer where
  | idle
  | popping (stage : PopStage)
  | reading (buf len count : Nat) (stage : ReadStage)
  deriving DecidableEq

def Consumer.popStage : Consumer → Option PopStage
  | .popping stage => some stage
  | .reading _ _ _ (.popping stage) => some stage
  | _ => none

/-- The ring, the memory of the reader, where the consumer stands, the result of the last
finished `sys_read`, and the histories of accepted and popped bytes. -/
structure Console where
  buffer : KeyBuffer
  memory : ByteStore.Store
  consumer : Consumer
  result : Nat
  accepted : List Byte
  popped : List Byte

inductive ConsoleCall where
  | push (byte : Byte)
  | pop
  | read (buf len : Nat)
  | advance
  deriving DecidableEq

def ConsoleCall.inside : ConsoleCall → Bool
  | .push _ => true
  | .advance => true
  | _ => false

namespace Console

def start (memory : ByteStore.Store) : Console :=
  { buffer := KeyBuffer.new
    memory := memory
    consumer := .idle
    result := 0
    accepted := []
    popped := [] }

def push (console : Console) (byte : Byte) : Console :=
  { console with
    buffer := console.buffer.push byte
    accepted := if console.buffer.accepts then console.accepted ++ [byte]
      else console.accepted }

def finishRead (console : Console) (result : Nat) : Console :=
  { console with
    consumer := .idle
    result := result }

def storeByte (console : Console) (buf len count : Nat) (byte : Byte) : Console :=
  { console with
    memory := Function.update console.memory (Word64.add buf count) byte
    consumer := .reading buf len (count + 1) .test }

def advance (console : Console) : Option Console :=
  match console.consumer with
  | .idle => none
  | .popping stage =>
      match popStep console.buffer stage with
      | (.running stage, buffer) =>
          some { console with buffer := buffer, consumer := .popping stage }
      | (.returned byte, buffer) =>
          some { console with
            buffer := buffer
            consumer := .idle
            popped := console.popped ++ byte.toList }
  | .reading buf len count .test =>
      if count < len then
        some { console with consumer := .reading buf len count (.popping .compare) }
      else some (console.finishRead count)
  | .reading buf len count (.popping stage) =>
      match popStep console.buffer stage with
      | (.running stage, buffer) =>
          some { console with buffer := buffer, consumer := .reading buf len count (.popping stage) }
      | (.returned none, buffer) => some ({ console with buffer := buffer }.finishRead count)
      | (.returned (some byte), buffer) =>
          some { console with
            buffer := buffer
            consumer := .reading buf len count (.storing byte)
            popped := console.popped ++ [byte] }
  | .reading buf len count (.storing byte) => some (console.storeByte buf len count byte)

/-- There is one consumer, and the arguments of its calls are words. -/
def step (console : Console) : ConsoleCall → Option Console
  | .push byte => some (console.push byte)
  | .pop =>
      if console.consumer = .idle then some { console with consumer := .popping .compare }
      else none
  | .read buf len =>
      if console.consumer = .idle ∧ buf < Word64.modulus ∧ len < Word64.modulus then
        if buf = 0 ∨ len = 0 then some (console.finishRead ERROR_RESULT)
        else some { console with consumer := .reading buf len 0 .test }
      else none
  | .advance => console.advance

/-! ### The queue -/

/-- What the consumer knows of the stored bytes at each step. -/
def Staged (contents : List Byte) : PopStage → Prop
  | .compare => True
  | .read => contents ≠ []
  | .store byte => ∃ rest, contents = byte :: rest

theorem Staged.append {contents : List Byte} {stage : PopStage} (staged : Staged contents stage)
    (more : List Byte) : Staged (contents ++ more) stage := by
  cases stage with
  | compare => trivial
  | read =>
      intro empty
      exact staged (List.append_eq_nil_iff.mp empty).1
  | store byte =>
      obtain ⟨rest, same⟩ := staged
      rw [same]
      exact ⟨rest ++ more, rfl⟩

structure Invariant (console : Console) : Prop where
  queue : console.popped ++ console.buffer.contents = console.accepted
  staged : ∀ stage, console.consumer.popStage = some stage →
    Staged console.buffer.contents stage

variable {console next : Console}

theorem Invariant.push (invariant : console.Invariant) (byte : Byte) :
    (console.push byte).Invariant := by
  have contents := console.buffer.push_contents byte
  constructor
  case queue =>
    change console.popped ++ (console.buffer.push byte).contents = ite _ _ _
    rw [contents]
    by_cases room : console.buffer.accepts = true
    · rw [if_pos room, if_pos room, ← List.append_assoc, invariant.queue]
    · rw [if_neg room, if_neg room]
      exact invariant.queue
  case staged =>
    intro stage here
    change Staged (console.buffer.push byte).contents stage
    have before := invariant.staged stage here
    rw [contents]
    by_cases room : console.buffer.accepts = true
    · rw [if_pos room]
      exact before.append [byte]
    · rw [if_neg room]
      exact before

/-- A step of `pop` goes on and knows more, finds the ring empty at its comparison, or
returns the byte that was the oldest one stored. -/
theorem popStep_cases {buffer : KeyBuffer} {stage : PopStage}
    (staged : Staged buffer.contents stage) :
    (∃ later, popStep buffer stage = (.running later, buffer) ∧ Staged buffer.contents later) ∨
    (popStep buffer stage = (.returned none, buffer) ∧ stage = .compare ∧
      buffer.contents = []) ∨
    ∃ byte after, popStep buffer stage = (.returned (some byte), after) ∧
      buffer.contents = byte :: after.contents := by
  cases stage with
  | compare =>
      by_cases empty : buffer.head = buffer.tail
      · exact Or.inr (Or.inl ⟨if_pos empty, rfl, buffer.contents_eq_nil.mpr empty⟩)
      · exact Or.inl ⟨.read, if_neg empty, fun none => empty (buffer.contents_eq_nil.mp none)⟩
  | read =>
      have filled : buffer.head ≠ buffer.tail := fun same =>
        staged (buffer.contents_eq_nil.mpr same)
      exact Or.inl ⟨_, rfl, _, buffer.contents_cons filled⟩
  | store byte =>
      obtain ⟨rest, same⟩ := staged
      have filled : buffer.head ≠ buffer.tail := by
        intro empty
        rw [buffer.contents_eq_nil.mpr empty] at same
        cases same
      have split := buffer.contents_cons filled
      refine Or.inr (Or.inr ⟨byte, buffer.advanceTail, rfl, ?_⟩)
      rw [same] at split
      rw [same, (List.cons.inj split).2]

theorem Invariant.moved (invariant : console.Invariant) (buffer : next.buffer = console.buffer)
    (accepted : next.accepted = console.accepted) (popped : next.popped = console.popped)
    (staged : ∀ stage, next.consumer.popStage = some stage →
      Staged console.buffer.contents stage) : next.Invariant := by
  constructor
  case queue =>
    rw [buffer, accepted, popped]
    exact invariant.queue
  case staged =>
    rw [buffer]
    exact staged

theorem Invariant.took {byte : Byte} (invariant : console.Invariant)
    (contents : console.buffer.contents = byte :: next.buffer.contents)
    (accepted : next.accepted = console.accepted)
    (popped : next.popped = console.popped ++ [byte])
    (between : next.consumer.popStage = none) : next.Invariant := by
  constructor
  case queue =>
    rw [popped, accepted, List.append_assoc, ← invariant.queue, contents]
    rfl
  case staged =>
    intro stage here
    rw [between] at here
    cases here

theorem Invariant.advance (invariant : console.Invariant)
    (stepped : console.advance = some next) : next.Invariant := by
  unfold Console.advance at stepped
  cases position : console.consumer with
  | idle =>
      rw [position] at stepped
      cases stepped
  | popping stage =>
      rw [position] at stepped
      dsimp only at stepped
      rcases popStep_cases (invariant.staged stage (by rw [position]; rfl)) with
        ⟨later, result, more⟩ | ⟨result, _, _⟩ | ⟨byte, after, result, front⟩
      · rw [result] at stepped
        cases stepped
        refine invariant.moved rfl rfl rfl ?_
        intro stage here
        cases here
        exact more
      · rw [result] at stepped
        cases stepped
        exact invariant.moved rfl rfl (List.append_nil _) (by simp [Consumer.popStage])
      · rw [result] at stepped
        cases stepped
        exact invariant.took front rfl rfl rfl
  | reading buf len count stage =>
      rw [position] at stepped
      cases stage with
      | test =>
          dsimp only at stepped
          split at stepped <;> cases stepped
          · refine invariant.moved rfl rfl rfl ?_
            intro stage here
            cases here
            trivial
          · exact invariant.moved rfl rfl rfl (by simp [finishRead, Consumer.popStage])
      | popping stage =>
          dsimp only at stepped
          rcases popStep_cases (invariant.staged stage (by rw [position]; rfl)) with
            ⟨later, result, more⟩ | ⟨result, _, _⟩ | ⟨byte, after, result, front⟩
          · rw [result] at stepped
            cases stepped
            refine invariant.moved rfl rfl rfl ?_
            intro stage here
            cases here
            exact more
          · rw [result] at stepped
            cases stepped
            exact invariant.moved rfl rfl rfl (by simp [finishRead, Consumer.popStage])
          · rw [result] at stepped
            cases stepped
            exact invariant.took front rfl rfl rfl
      | storing byte =>
          cases stepped
          exact invariant.moved rfl rfl rfl (by simp [storeByte, Consumer.popStage])

theorem Invariant.step {call : ConsoleCall} (invariant : console.Invariant)
    (stepped : console.step call = some next) : next.Invariant := by
  cases call with
  | push byte =>
      cases stepped
      exact invariant.push byte
  | pop =>
      unfold Console.step at stepped
      dsimp only at stepped
      split at stepped
      · cases stepped
        refine invariant.moved rfl rfl rfl ?_
        intro stage here
        cases here
        trivial
      · cases stepped
  | read buf len =>
      unfold Console.step at stepped
      dsimp only at stepped
      split at stepped
      · split at stepped <;> cases stepped <;>
          exact invariant.moved rfl rfl rfl (by simp [finishRead, Consumer.popStage])
      · cases stepped
  | advance => exact invariant.advance stepped

theorem start_invariant (memory : ByteStore.Store) : (start memory).Invariant := by
  constructor
  case queue => exact (List.nil_append _).trans (KeyBuffer.new.contents_eq_nil.mpr rfl)
  case staged =>
    intro stage here
    cases here

/-! ### A read from its call to its return -/

structure Stored (memory : ByteStore.Store) (buf : Nat) (bytes : List Byte)
    (after : ByteStore.Store) : Prop where
  values : ∀ index (inside : index < bytes.length), after (Word64.add buf index) = bytes[index]
  others : ∀ address, (∀ index, index < bytes.length → address ≠ Word64.add buf index) →
    after address = memory address

theorem Stored.nil (memory : ByteStore.Store) (buf : Nat) : Stored memory buf [] memory where
  values index inside := absurd inside (Nat.not_lt_zero index)
  others _ _ := rfl

theorem add_injective {buf left right : Nat} (leftSmall : left < Word64.modulus)
    (rightSmall : right < Word64.modulus) (same : Word64.add buf left = Word64.add buf right) :
    left = right := by
  unfold Word64.add at same
  unfold Word64.modulus at *
  omega

theorem Stored.snoc {memory after : ByteStore.Store} {buf : Nat} {bytes : List Byte}
    (stored : Stored memory buf bytes after) (small : bytes.length < Word64.modulus)
    (byte : Byte) :
    Stored memory buf (bytes ++ [byte])
      (Function.update after (Word64.add buf bytes.length) byte) where
  values index inside := by
    rw [List.length_append, List.length_singleton] at inside
    by_cases last : index = bytes.length
    · subst last
      rw [Function.update_self, List.getElem_append_right (Nat.le_refl _)]
      simp
    · have before : index < bytes.length := by omega
      have different : Word64.add buf index ≠ Word64.add buf bytes.length := by
        intro same
        exact last (add_injective (Nat.lt_trans before small) small same)
      rw [Function.update_of_ne different, List.getElem_append_left before]
      exact stored.values index before
  others address outside := by
    rw [List.length_append, List.length_singleton] at outside
    rw [Function.update_of_ne (outside bytes.length (Nat.lt_succ_self _))]
    exact stored.others address fun index inside => outside index (Nat.lt_succ_of_lt inside)

/-- The bytes that a read has popped so far, by the step it is about to take. -/
def Progress (len count : Nat) (written popped : List Byte) : ReadStage → Prop
  | .test => popped = written ∧ count ≤ len
  | .popping _ => popped = written ∧ count < len
  | .storing byte => popped = written ++ [byte] ∧ count < len

def Reading (before : Console) (buf len : Nat) (now : Console) : Prop :=
  ∃ count stage written bytes, now.consumer = .reading buf len count stage ∧
    now.popped = before.popped ++ bytes ∧ written.length = count ∧
    Progress len count written bytes stage ∧ Stored before.memory buf written now.memory

def ReadDone (before last now : Console) (buf len : Nat) : Prop :=
  ∃ bytes, now.popped = before.popped ++ bytes ∧ bytes.length ≤ len ∧
    now.result = bytes.length ∧ Stored before.memory buf bytes now.memory ∧
    (bytes.length < len → last.buffer.contents = [])

variable {before : Console} {buf len : Nat}

theorem Reading.push (reading : Reading before buf len console) (byte : Byte) :
    Reading before buf len (console.push byte) :=
  reading

theorem Reading.advance (reading : Reading before buf len console)
    (invariant : console.Invariant) (small : len < Word64.modulus)
    (stepped : console.advance = some next) :
    Reading before buf len next ∨ next.consumer = .idle ∧ ReadDone before console next buf len := by
  obtain ⟨count, stage, written, bytes, position, popped, length, progress, stored⟩ := reading
  unfold Console.advance at stepped
  rw [position] at stepped
  cases stage with
  | test =>
      obtain ⟨rfl, atMost⟩ := progress
      dsimp only at stepped
      by_cases more : count < len
      · rw [if_pos more] at stepped
        cases stepped
        exact Or.inl ⟨count, _, bytes, bytes, rfl, popped, length, ⟨rfl, more⟩, stored⟩
      · rw [if_neg more] at stepped
        cases stepped
        refine Or.inr ⟨rfl, bytes, popped, by omega, length.symm, stored, ?_⟩
        intro short
        omega
  | popping inner =>
      obtain ⟨rfl, more⟩ := progress
      dsimp only at stepped
      rcases popStep_cases (invariant.staged inner (by rw [position]; rfl)) with
        ⟨later, result, _⟩ | ⟨result, _, empty⟩ | ⟨byte, after, result, _⟩
      · rw [result] at stepped
        cases stepped
        exact Or.inl ⟨count, _, bytes, bytes, rfl, popped, length, ⟨rfl, more⟩, stored⟩
      · rw [result] at stepped
        cases stepped
        exact Or.inr ⟨rfl, bytes, popped, by omega, length.symm, stored, fun _ => empty⟩
      · rw [result] at stepped
        cases stepped
        refine Or.inl ⟨count, _, bytes, bytes ++ [byte], rfl, ?_, length, ⟨rfl, more⟩, stored⟩
        rw [← List.append_assoc, ← popped]
  | storing byte =>
      obtain ⟨rfl, more⟩ := progress
      cases stepped
      refine Or.inl ⟨count + 1, .test, written ++ [byte], written ++ [byte], rfl, popped, ?_,
        ⟨rfl, more⟩, ?_⟩
      · rw [List.length_append, length]
        rfl
      · have next := stored.snoc (by omega) byte
        rwa [length] at next

theorem exec_invariant {calls : List ConsoleCall} (invariant : console.Invariant)
    (run : LabelledRun.exec step console calls = some next) : next.Invariant :=
  LabelledRun.exec_invariant (fun _ _ _ invariant stepped => invariant.step stepped) invariant run

theorem idle_stays {calls : List ConsoleCall} (idle : console.consumer = .idle)
    (inside : ∀ call, call ∈ calls → call.inside = true)
    (run : LabelledRun.exec step console calls = some next) : next.advance = none := by
  have stuck {state : Console} (waits : state.consumer = .idle) : state.advance = none := by
    unfold Console.advance
    rw [waits]
  induction calls generalizing console with
  | nil =>
      cases run
      exact stuck idle
  | cons call rest ih =>
      obtain ⟨middle, stepped, continued⟩ := LabelledRun.exec_cons_eq_some.mp run
      have here := inside call (List.mem_cons_self ..)
      cases call with
      | push byte =>
          cases stepped
          exact ih (show (console.push byte).consumer = .idle from idle)
            (fun other member => inside other (List.mem_cons_of_mem _ member)) continued
      | advance =>
          have none : console.advance = some middle := stepped
          rw [stuck idle] at none
          cases none
      | pop => cases here
      | read _ _ => cases here

/-- Inside a call the read goes on until the consumer is idle. -/
theorem Reading.exec {calls : List ConsoleCall} (reading : Reading before buf len console)
    (invariant : console.Invariant) (small : len < Word64.modulus)
    (inside : ∀ call, call ∈ calls → call.inside = true)
    (run : LabelledRun.exec step console calls = some next) :
    Reading before buf len next ∨ next.advance = none := by
  induction calls generalizing console with
  | nil =>
      cases run
      exact Or.inl reading
  | cons call rest ih =>
      obtain ⟨middle, stepped, continued⟩ := LabelledRun.exec_cons_eq_some.mp run
      have restInside (other : ConsoleCall) (member : other ∈ rest) : other.inside = true :=
        inside other (List.mem_cons_of_mem _ member)
      have after := invariant.step stepped
      cases call with
      | push byte =>
          cases stepped
          exact ih (reading.push byte) after restInside continued
      | advance =>
          rcases reading.advance invariant small stepped with still | ⟨idle, _⟩
          · exact ih still after restInside continued
          · exact Or.inr (idle_stays idle restInside continued)
      | pop => exact absurd (inside _ (List.mem_cons_self ..)) (by simp [ConsoleCall.inside])
      | read _ _ => exact absurd (inside _ (List.mem_cons_self ..)) (by simp [ConsoleCall.inside])

theorem read_starts (stepped : console.step (.read buf len) = some next) :
    len < Word64.modulus ∧
      (buf = 0 ∨ len = 0 → next = console.finishRead ERROR_RESULT) ∧
      (¬ (buf = 0 ∨ len = 0) → Reading console buf len next) := by
  unfold Console.step at stepped
  dsimp only at stepped
  by_cases allowed : console.consumer = .idle ∧ buf < Word64.modulus ∧ len < Word64.modulus
  · rw [if_pos allowed] at stepped
    refine ⟨allowed.2.2, ?_, ?_⟩
    · intro refused
      rw [if_pos refused] at stepped
      exact (Option.some.inj stepped).symm
    · intro valid
      rw [if_neg valid] at stepped
      cases stepped
      exact ⟨0, .test, [], [], rfl, (List.append_nil _).symm, rfl, ⟨rfl, Nat.zero_le len⟩,
        Stored.nil console.memory buf⟩
  · rw [if_neg allowed] at stepped
    cases stepped

/-- Whatever interrupts the consumer and wherever: popped and stored bytes are the accepted
ones in order, a push is dropped by a ring of 255 bytes only, `pop` finds nothing only in an
empty ring, and a read returns the number of bytes it has removed and stored. -/
theorem key_buffer_is_lossless_fifo {memory : ByteStore.Store} {calls : List ConsoleCall}
    (run : LabelledRun.exec step (start memory) calls = some console) :
    console.popped <+: console.accepted ∧
    console.popped ++ console.buffer.contents = console.accepted ∧
    (∀ byte, (console.push byte).accepted = console.accepted ++ [byte] ∨
      (console.push byte).accepted = console.accepted ∧
        (console.push byte).buffer = console.buffer ∧ console.buffer.contents.length = 255) ∧
    (∀ stage after, console.consumer.popStage = some stage →
      popStep console.buffer stage = (.returned none, after) →
        stage = .compare ∧ console.popped = console.accepted) ∧
    (∀ buf len inner last next, (∀ call, call ∈ inner → call.inside = true) →
      LabelledRun.exec step console (.read buf len :: inner) = some last →
      last.advance = some next → next.consumer = .idle → ReadDone console last next buf len) ∧
    (∀ buf len next, buf = 0 ∨ len = 0 → console.step (.read buf len) = some next →
      next = console.finishRead ERROR_RESULT) := by
  have invariant := exec_invariant (start_invariant memory) run
  have queue := invariant.queue
  refine ⟨⟨_, queue⟩, queue, ?_, ?_, ?_, ?_⟩
  · intro byte
    unfold push
    by_cases room : console.buffer.accepts = true
    · exact Or.inl (if_pos room)
    · have full := Bool.eq_false_of_not_eq_true room
      exact Or.inr ⟨if_neg room, console.buffer.push_of_full full,
        console.buffer.accepts_eq_false.mp full⟩
  · intro stage after here result
    rcases popStep_cases (invariant.staged stage here) with
      ⟨_, other, _⟩ | ⟨_, compares, empty⟩ | ⟨_, _, other, _⟩
    · rw [other] at result
      cases result
    · rw [empty, List.append_nil] at queue
      exact ⟨compares, queue⟩
    · rw [other] at result
      cases result
  · intro buf len inner last next inside ran stepped idle
    obtain ⟨first, called, continued⟩ := LabelledRun.exec_cons_eq_some.mp ran
    obtain ⟨small, refused, started⟩ := read_starts called
    have underWay : Reading console buf len last := by
      by_cases invalid : buf = 0 ∨ len = 0
      · have ended := idle_stays (by rw [refused invalid]; rfl) inside continued
        rw [ended] at stepped
        cases stepped
      · rcases (started invalid).exec (invariant.step called) small inside continued with
          still | ended
        · exact still
        · rw [ended] at stepped
          cases stepped
    have lastInvariant := exec_invariant (invariant.step called) continued
    rcases underWay.advance lastInvariant small stepped with still | ⟨_, done⟩
    · obtain ⟨count, stage, _, _, position, _⟩ := still
      rw [idle] at position
      cases position
    · exact done
  · intro buf len next invalid stepped
    exact (read_starts stepped).2.1 invalid

/-- Two pushes hit inside a read of three bytes, one between its first reading of the ring
and the store of `tail`. -/
def sampleReading : List ConsoleCall :=
  [.push 0x61#8, .read 0x1000 3, .advance, .advance, .push 0x62#8, .advance, .advance, .advance,
    .advance]

theorem sampleReading_lossless :
    ∃ console, LabelledRun.exec step (start fun _ => 0#8) sampleReading = some console ∧
      console.consumer = .reading 0x1000 3 1 (.popping .compare) ∧
      console.popped <+: console.accepted ∧ console.accepted = [0x61#8, 0x62#8] :=
  ⟨_, rfl, rfl,
    (@key_buffer_is_lossless_fifo _ (fun _ => 0#8) sampleReading rfl).1, rfl⟩

/-- A read of no bytes returns `u64::MAX`, not the number of bytes it has stored. -/
theorem empty_read_is_refused :
    ∃ next, LabelledRun.exec step (start fun _ => 0#8) [.push 0x61#8, .read 0x1000 0] =
        some next ∧ next.consumer = .idle ∧ next.popped = [] ∧
      next.buffer.contents = [0x61#8] ∧ next.result = 2 ^ 64 - 1 ∧
      ∀ bytes : List Byte, bytes.length ≤ 0 → next.result ≠ bytes.length := by
  refine ⟨_, rfl, rfl, rfl, rfl, rfl, ?_⟩
  intro bytes short same
  have max : bytes.length = 2 ^ 64 - 1 := same.symm
  omega

/-! ### Without interrupts -/

theorem pop_uninterrupted (idle : console.consumer = .idle) :
    ∃ count, LabelledRun.exec step console (.pop :: List.replicate count .advance) =
      some { console with
        buffer := console.buffer.pop.2
        popped := console.popped ++ console.buffer.pop.1.toList } := by
  have called : console.step .pop = some { console with consumer := .popping .compare } :=
    if_pos idle
  by_cases empty : console.buffer.head = console.buffer.tail
  · refine ⟨1, LabelledRun.exec_cons_eq_some.mpr ⟨_, called, ?_⟩⟩
    unfold KeyBuffer.pop
    rw [if_pos empty]
    simp [LabelledRun.exec, step, advance, popStep, empty, idle]
  · refine ⟨3, LabelledRun.exec_cons_eq_some.mpr ⟨_, called, ?_⟩⟩
    unfold KeyBuffer.pop
    rw [if_neg empty]
    simp [LabelledRun.exec, List.replicate, step, advance, popStep, empty, idle]

theorem round_uninterrupted {count : Nat} (position : console.consumer = .reading buf len count .test)
    (more : count < len) (filled : console.buffer.head ≠ console.buffer.tail) :
    LabelledRun.exec step console (List.replicate 5 .advance) =
      some { console with
        buffer := console.buffer.advanceTail
        memory := Function.update console.memory (Word64.add buf count)
          (console.buffer.buf console.buffer.tail)
        consumer := .reading buf len (count + 1) .test
        popped := console.popped ++ [console.buffer.buf console.buffer.tail] } := by
  simp [LabelledRun.exec, List.replicate, step, advance, popStep, storeByte, position, more, filled]

theorem readLoop_uninterrupted {count wanted : Nat}
    (position : console.consumer = .reading buf len count .test) (left : count + wanted = len) :
    ∃ steps last, LabelledRun.exec step console (List.replicate steps .advance) = some last ∧
      last.consumer = .idle ∧ (last.result, last.memory, last.buffer) =
        readLoop console.memory console.buffer buf count wanted := by
  induction wanted generalizing console count with
  | zero =>
      have enough : ¬ count < len := by omega
      refine ⟨1, console.finishRead count, ?_, rfl, rfl⟩
      simp [LabelledRun.exec, step, advance, position, enough]
  | succ wanted ih =>
      have more : count < len := by omega
      unfold readLoop KeyBuffer.pop
      by_cases empty : console.buffer.head = console.buffer.tail
      · refine ⟨2, console.finishRead count, ?_, rfl, ?_⟩
        · simp [LabelledRun.exec, List.replicate, step, advance, popStep, finishRead, position,
            more, empty]
        · rw [if_pos empty]
          rfl
      · have round := round_uninterrupted position more empty
        obtain ⟨steps, last, ran, idle, result⟩ :=
          @ih { console with
            buffer := console.buffer.advanceTail
            memory := Function.update console.memory (Word64.add buf count)
              (console.buffer.buf console.buffer.tail)
            consumer := .reading buf len (count + 1) .test
            popped := console.popped ++ [console.buffer.buf console.buffer.tail] }
            (count + 1) rfl (by omega)
        refine ⟨5 + steps, last, ?_, idle, ?_⟩
        · rw [List.replicate_add]
          exact LabelledRun.exec_append_eq_some.mpr ⟨_, round, ran⟩
        · rw [if_neg empty]
          exact result

theorem sysRead_uninterrupted (idle : console.consumer = .idle) (bufWord : buf < Word64.modulus)
    (lenWord : len < Word64.modulus) :
    ∃ steps last,
      LabelledRun.exec step console (.read buf len :: List.replicate steps .advance) = some last ∧
      last.consumer = .idle ∧ (last.result, last.memory, last.buffer) =
        sysRead console.memory console.buffer buf len := by
  have allowed : console.consumer = .idle ∧ buf < Word64.modulus ∧ len < Word64.modulus :=
    ⟨idle, bufWord, lenWord⟩
  unfold sysRead
  by_cases invalid : buf = 0 ∨ len = 0
  · have called : console.step (.read buf len) = some (console.finishRead ERROR_RESULT) := by
      unfold step
      dsimp only
      rw [if_pos allowed, if_pos invalid]
    refine ⟨0, _, LabelledRun.exec_cons_eq_some.mpr ⟨_, called, rfl⟩, rfl, ?_⟩
    rw [if_pos invalid]
    rfl
  · have called : console.step (.read buf len) =
        some { console with consumer := .reading buf len 0 .test } := by
      unfold step
      dsimp only
      rw [if_pos allowed, if_neg invalid]
    obtain ⟨steps, last, ran, ends, result⟩ :=
      @readLoop_uninterrupted { console with consumer := .reading buf len 0 .test } buf len 0 len
        rfl (Nat.zero_add len)
    refine ⟨steps, last, LabelledRun.exec_cons_eq_some.mpr ⟨_, called, ran⟩, ends, ?_⟩
    rw [if_neg invalid]
    exact result

end Console

end CustomKernel.Device
