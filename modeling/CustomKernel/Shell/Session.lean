/-
The loop of the shell under keyboard interrupts.

`run_shell` takes a key out of the ring in steps between which an interrupt may push, hands
it to the line editor, and yields once the ring is empty.  Whatever arrives when, the lines
that it executes and the line that it edits are those of the keys in the order in which
they were typed.
-/

import CustomKernel.Device.KeyQueue
import CustomKernel.Device.ShiftTracking
import CustomKernel.Shell.CommandLine
import CustomKernel.Shell.LineEditor

set_option autoImplicit false

namespace CustomKernel.SimpleShell

open Ui
open Device (Byte KeyBuffer PopStage Typing popStep)
open Device.Console (Staged popStep_cases)

/-! ### The loop -/

/-- The next step of the loop in `run_shell`. -/
inductive ShellStage where
  | popping (stage : PopStage)
  | handling (key : Byte)
  | yielding
  deriving DecidableEq

/-- The keyboard, the shell and its terminal.  The keys handled so far and the lines that
were executed are for the record only. -/
structure Session where
  typing : Typing
  stage : ShellStage
  shell : Shell
  term : Terminal
  handled : List Byte
  executed : List (List Byte)

/-- An interrupt, or a step of the shell; what its command does elsewhere may differ each
time. -/
inductive SessionEvent where
  | irq (scancode : Byte)
  | shell (system : System)

namespace Session

def start (shell : Shell) (term : Terminal) : Session :=
  { typing := Typing.start
    stage := .popping .compare
    shell := shell
    term := term
    handled := []
    executed := [] }

def take (session : Session) (byte : Byte) (buffer : KeyBuffer) : Session :=
  { session with
    typing := { session.typing with
      keyboard := { session.typing.keyboard with buffer := buffer }
      popped := session.typing.popped ++ [byte] }
    stage := .handling byte }

def handle (session : Session) (key : Byte) (shell : Shell) (term : Terminal) : Session :=
  { session with
    stage := .popping .compare
    shell := shell
    term := term
    handled := session.handled ++ [key]
    executed := if key = 10#8 then session.executed ++ [session.shell.line]
      else session.executed }

/-- One step of the shell; a panic in a command ends the run. -/
def advance (font : FontBytes) (system : System) (session : Session) : Option Session :=
  match session.stage with
  | .popping stage =>
      match popStep session.typing.keyboard.buffer stage with
      | (.running later, _) => some { session with stage := .popping later }
      | (.returned none, _) => some { session with stage := .yielding }
      | (.returned (some byte), buffer) => some (session.take byte buffer)
  | .handling key =>
      match session.shell.handleKey font (execute font system) session.term key with
      | .error _ => none
      | .ok (shell, term) => some (session.handle key shell term)
  | .yielding => some { session with stage := .popping .compare }

def step (font : FontBytes) (session : Session) : SessionEvent → Option Session
  | .irq scancode =>
      (session.typing.step (.irq scancode)).map fun typing => { session with typing := typing }
  | .shell system => session.advance font system

def inHand (session : Session) : List Byte :=
  match session.stage with
  | .handling key => [key]
  | _ => []

/-- A code that the shift flag translates as the keys held say. -/
def Undisturbed (session : Session) (event : SessionEvent) : Prop :=
  ∀ scancode, event = .irq scancode → session.typing.Undisturbed (.irq scancode)

end Session

/-! ### The lines of a stream of keys -/

def typeKey (lines : List (List Byte) × List Byte) (key : Byte) : List (List Byte) × List Byte :=
  if key = 10#8 then (lines.1 ++ [lines.2], []) else (lines.1, referenceEdit lines.2 key)

def typedLines (keys : List Byte) : List (List Byte) × List Byte := keys.foldl typeKey ([], [])

theorem typedLines_snoc (keys : List Byte) (key : Byte) :
    typedLines (keys ++ [key]) = typeKey (typedLines keys) key := by
  unfold typedLines
  rw [List.foldl_append]
  rfl

theorem Shell.handleKey_line {font : FontBytes}
    {run : Shell → Terminal → Except Terminal Terminal} {shell after : Shell}
    {term shown : Terminal} {key : Byte} (bounded : shell.len ≤ CMD_BUF_SIZE - 1)
    (handled : shell.handleKey font run term key = .ok (after, shown)) :
    after.len ≤ CMD_BUF_SIZE - 1 ∧
      after.line = if key = 10#8 then [] else referenceEdit shell.line key := by
  have buffer : CMD_BUF_SIZE = 256 := rfl
  have length : shell.line.length = shell.len := Shell.line_length (by omega)
  unfold Shell.handleKey at handled
  by_cases newline : key = 10#8
  · rw [if_pos newline] at handled
    rw [if_pos newline]
    cases ended : term.putc font '\n' with
    | error reached =>
        rw [ended] at handled
        cases handled
    | ok reached =>
        rw [ended] at handled
        cases executed : run shell reached with
        | error last =>
            simp only [bind, Except.bind, executed] at handled
            cases handled
        | ok last =>
            simp only [bind, Except.bind, executed] at handled
            cases prompted : Shell.showPrompt font { shell with len := 0 } last with
            | error broken =>
                rw [prompted] at handled
                cases handled
            | ok fresh =>
                rw [prompted] at handled
                cases handled
                exact ⟨Nat.zero_le _, rfl⟩
  · rw [if_neg newline] at handled
    rw [if_neg newline]
    unfold referenceEdit
    by_cases back : key = 8#8
    · rw [if_pos back] at handled
      rw [if_pos back]
      by_cases some_ : 0 < shell.len
      · rw [if_pos some_] at handled
        cases handled
        refine ⟨Nat.le_trans (Nat.sub_le _ _) bounded, ?_⟩
        unfold Shell.line
        rw [List.dropLast_take (by rw [shell.size]; omega)]
      · rw [if_neg some_] at handled
        cases handled
        have empty : shell.line = [] := List.eq_nil_of_length_eq_zero (by omega)
        rw [empty]
        exact ⟨bounded, rfl⟩
    · rw [if_neg back] at handled
      rw [if_neg back, length]
      by_cases printable : 32 ≤ key.toNat ∧ key.toNat < 127
      · rw [if_pos printable] at handled
        by_cases short : shell.len < CMD_BUF_SIZE - 1
        · rw [if_pos short] at handled
          rw [if_pos ⟨printable.1, printable.2, short⟩]
          cases drawn : term.putc font (Terminal.charOf key) with
          | error reached =>
              rw [drawn] at handled
              cases handled
          | ok reached =>
              rw [drawn] at handled
              cases handled
              have grown : (shell.push key).len = shell.len + 1 := rfl
              exact ⟨by omega, Shell.push_line key (by omega)⟩
        · rw [if_neg short] at handled
          cases handled
          rw [if_neg (fun all => short all.2.2)]
          exact ⟨bounded, rfl⟩
      · rw [if_neg printable] at handled
        cases handled
        rw [if_neg (fun all => printable ⟨all.1, all.2.1⟩)]
        exact ⟨bounded, rfl⟩

/-! ### The invariant -/

/-- The store of a `pop` that was interrupted has the effect of the whole function. -/
theorem pop_of_popStep {buffer after : KeyBuffer} {stage : PopStage} {byte : Byte}
    (staged : Staged buffer.contents stage)
    (result : popStep buffer stage = (.returned (some byte), after)) :
    buffer.pop = (some byte, after) ∧ buffer.contents = byte :: after.contents := by
  cases stage with
  | compare =>
      by_cases empty : buffer.head = buffer.tail
      · rw [popStep, if_pos empty] at result
        cases result
      · rw [popStep, if_neg empty] at result
        cases result
  | read => cases result
  | store held =>
      cases result
      obtain ⟨rest, same⟩ := staged
      have filled : buffer.head ≠ buffer.tail := by
        intro empty
        rw [buffer.contents_eq_nil.mpr empty] at same
        cases same
      have split := buffer.contents_cons filled
      have first := (List.cons.inj (same.symm.trans split)).1
      rw [KeyBuffer.pop, if_neg filled, first]
      exact ⟨rfl, split⟩

namespace Session

structure Invariant (session : Session) : Prop where
  typing : session.typing.Invariant
  staged : ∀ stage, session.stage = .popping stage →
    Staged session.typing.keyboard.buffer.contents stage
  taken : session.typing.popped = session.handled ++ session.inHand
  bounded : session.shell.len ≤ CMD_BUF_SIZE - 1
  lines : typedLines session.handled = (session.executed, session.shell.line)

theorem start_invariant {shell : Shell} (empty : shell.len = 0) (term : Terminal) :
    (start shell term).Invariant where
  typing := Typing.start_invariant
  staged := by
    intro stage here
    cases here
    trivial
  taken := rfl
  bounded := by
    change shell.len ≤ _
    rw [empty]
    exact Nat.zero_le _
  lines := by
    have line : shell.line = [] := by
      rw [Shell.line, empty]
      rfl
    exact congrArg (Prod.mk []) line.symm

variable {font : FontBytes} {session next : Session} {event : SessionEvent}

theorem step_cases (invariant : session.Invariant) (stepped : session.step font event = some next) :
    (∃ scancode typing, event = .irq scancode ∧
      session.typing.step (.irq scancode) = some typing ∧
      next = { session with typing := typing }) ∨
    (∃ system stage, event = .shell system ∧ session.inHand = [] ∧
      next = { session with stage := stage } ∧ next.inHand = [] ∧
      ∀ pop, stage = .popping pop → Staged session.typing.keyboard.buffer.contents pop) ∨
    (∃ system byte, event = .shell system ∧ session.inHand = [] ∧
      next = { session with typing := session.typing.pop, stage := .handling byte } ∧
      session.typing.pop.popped = session.typing.popped ++ [byte]) ∨
    ∃ system key shell term, event = .shell system ∧ session.stage = .handling key ∧
      session.shell.handleKey font (execute font system) session.term key = .ok (shell, term) ∧
      next = session.handle key shell term := by
  cases event with
  | irq scancode =>
      obtain ⟨typing, moved, same⟩ := Option.map_eq_some_iff.mp stepped
      exact Or.inl ⟨scancode, typing, rfl, moved, same.symm⟩
  | shell system =>
      refine Or.inr ?_
      change session.advance font system = some next at stepped
      unfold advance at stepped
      cases position : session.stage with
      | popping stage =>
          have staged := invariant.staged stage position
          have empty : session.inHand = [] := by rw [inHand, position]
          rw [position] at stepped
          dsimp only at stepped
          rcases popStep_cases staged with
            ⟨later, result, more⟩ | ⟨result, _, _⟩ | ⟨byte, after, result, _⟩
          · rw [result] at stepped
            cases stepped
            refine Or.inl ⟨system, .popping later, rfl, empty, rfl, rfl, ?_⟩
            intro pop same
            cases same
            exact more
          · rw [result] at stepped
            cases stepped
            refine Or.inl ⟨system, .yielding, rfl, empty, rfl, rfl, ?_⟩
            intro pop same
            cases same
          · have whole := (pop_of_popStep staged result).1
            rw [result] at stepped
            cases stepped
            refine Or.inr (Or.inl ⟨system, byte, rfl, empty, ?_, ?_⟩)
            · rw [take, Typing.pop, whole]
              rfl
            · rw [Typing.pop, whole]
              rfl
      | handling key =>
          rw [position] at stepped
          dsimp only at stepped
          cases handled : session.shell.handleKey font (execute font system) session.term key with
          | error reached =>
              rw [handled] at stepped
              cases stepped
          | ok result =>
              rw [handled] at stepped
              cases stepped
              exact Or.inr (Or.inr ⟨system, key, result.1, result.2, rfl, rfl, handled, rfl⟩)
      | yielding =>
          rw [position] at stepped
          cases stepped
          refine Or.inl ⟨system, .popping .compare, rfl, by rw [inHand, position], rfl, rfl, ?_⟩
          intro pop same
          cases same
          trivial

theorem staged_of_irq {typing : Typing} {scancode : Byte} {stage : PopStage}
    (staged : Staged session.typing.keyboard.buffer.contents stage)
    (moved : session.typing.step (.irq scancode) = some typing) :
    Staged typing.keyboard.buffer.contents stage := by
  obtain ⟨keys, _, same⟩ := Option.map_eq_some_iff.mp moved
  subst same
  change Staged (session.typing.keyboard.handleIrq scancode).buffer.contents stage
  rcases session.typing.keyboard.handleIrq_buffer scancode with kept | ⟨byte, pushed⟩
  · rw [kept]
    exact staged
  · rw [pushed, KeyBuffer.push_contents]
    by_cases room : session.typing.keyboard.buffer.accepts = true
    · rw [if_pos room]
      exact staged.append [byte]
    · rw [if_neg room]
      exact staged

theorem popped_of_irq {typing : Typing} {scancode : Byte}
    (moved : session.typing.step (.irq scancode) = some typing) :
    typing.popped = session.typing.popped := by
  obtain ⟨keys, _, same⟩ := Option.map_eq_some_iff.mp moved
  subst same
  rfl

theorem Invariant.step (invariant : session.Invariant)
    (stepped : session.step font event = some next) : next.Invariant := by
  rcases step_cases invariant stepped with
    ⟨scancode, typing, _, moved, rfl⟩ | ⟨_, stage, _, empty, rfl, later, staged⟩ |
    ⟨_, byte, _, empty, rfl, popped⟩ | ⟨system, key, shell, term, _, position, handled, rfl⟩
  · constructor
    case typing => exact invariant.typing.step moved
    case staged => exact fun stage here => staged_of_irq (invariant.staged stage here) moved
    case taken => exact (popped_of_irq moved).trans invariant.taken
    case bounded => exact invariant.bounded
    case lines => exact invariant.lines
  · constructor
    case typing => exact invariant.typing
    case staged => exact staged
    case taken =>
      rw [later, ← empty]
      exact invariant.taken
    case bounded => exact invariant.bounded
    case lines => exact invariant.lines
  · constructor
    case typing => exact invariant.typing.step (show session.typing.step .pop = _ from rfl)
    case staged =>
      intro stage here
      cases here
    case taken =>
      have taken := invariant.taken
      rw [empty, List.append_nil] at taken
      rw [popped, taken]
      rfl
    case bounded => exact invariant.bounded
    case lines => exact invariant.lines
  · obtain ⟨bounded, line⟩ := Shell.handleKey_line invariant.bounded handled
    constructor
    case typing => exact invariant.typing
    case staged =>
      intro stage here
      cases here
      trivial
    case taken =>
      have taken := invariant.taken
      rw [inHand, position] at taken
      exact taken.trans (List.append_nil _).symm
    case bounded => exact bounded
    case lines =>
      unfold handle
      dsimp only
      rw [typedLines_snoc, invariant.lines, typeKey, line]
      by_cases newline : key = 10#8
      · rw [if_pos newline, if_pos newline, if_pos newline]
      · rw [if_neg newline, if_neg newline, if_neg newline]

theorem exec_sessionInvariant {events : List SessionEvent} {final : Session}
    (invariant : session.Invariant)
    (run : LabelledRun.exec (step font) session events = some final) : final.Invariant :=
  LabelledRun.exec_invariant (fun _ _ _ holds stepped => holds.step stepped) invariant run

/-! ### From the scancodes to the lines -/

theorem Invariant.step_pushed (invariant : session.Invariant)
    (stepped : session.step font event = some next) :
    next.typing.pushed = next.typing.translation ↔
      session.typing.pushed = session.typing.translation ∧ session.Undisturbed event := by
  rcases step_cases invariant stepped with
    ⟨scancode, typing, rfl, moved, rfl⟩ | ⟨_, stage, rfl, _, rfl, _⟩ |
    ⟨_, byte, rfl, _, rfl, _⟩ | ⟨system, key, shell, term, rfl, _, _, rfl⟩
  · have condition : session.Undisturbed (.irq scancode) ↔
        session.typing.Undisturbed (.irq scancode) := by
      constructor
      · exact fun undisturbed => undisturbed scancode rfl
      · rintro undisturbed other ⟨⟩
        exact undisturbed
    rw [condition]
    exact invariant.typing.step_pushed moved
  · exact (and_iff_left fun _ impossible => SessionEvent.noConfusion impossible).symm
  · dsimp only
    rw [Typing.pop_pushed]
    exact (and_iff_left fun _ impossible => SessionEvent.noConfusion impossible).symm
  · exact (and_iff_left fun _ impossible => SessionEvent.noConfusion impossible).symm

theorem Invariant.pushed (invariant : session.Invariant) :
    session.handled ++ (session.inHand ++ session.typing.keyboard.buffer.contents) =
      session.typing.pushed := by
  rw [← List.append_assoc, ← invariant.taken]
  rfl

end Session

/-! ### Commands that return -/

def Visible (font : FontBytes) (display : Display) (term : Terminal) : Prop :=
  Terminal.On display term ∧ ∃ grid, Terminal.Shows font display term grid

/-- A call that returns and leaves the terminal visible. -/
def Drawn (font : FontBytes) (display : Display) (result : Except Terminal Terminal) : Prop :=
  ∃ next, result = .ok next ∧ Visible font display next

/-- What the commands do elsewhere in the kernel returns, and draws by calls of the terminal. -/
structure System.Returns (system : System) (font : FontBytes) (display : Display) : Prop where
  builtin : ∀ command term, Visible font display term →
    Drawn font display (system.builtin command term)
  sleepMs : ∀ ms term, Visible font display term → Drawn font display (system.sleepMs ms term)
  sysWrite : ∀ text term, Visible font display term →
    Drawn font display (system.sysWrite text term)

section

variable {font : FontBytes} {display : Display} {term : Terminal}

theorem Drawn.bind {first : Except Terminal Terminal} {next : Terminal → Except Terminal Terminal}
    (before : Drawn font display first)
    (after : ∀ state, Visible font display state → Drawn font display (next state)) :
    Drawn font display (first >>= next) := by
  rcases before with ⟨state, same, visible⟩
  rw [same]
  exact after state visible

theorem Visible.call (visible : Visible font display term) (covered : display.Covered font)
    (call : TerminalCall) : Drawn font display (term.call font call) := by
  rcases visible with ⟨on, grid, shows⟩
  rcases shows.call on covered call with ⟨next, result, nextOn, nextShows⟩
  exact ⟨next, result, nextOn, _, nextShows⟩

theorem Visible.print (visible : Visible font display term) (covered : display.Covered font)
    (s : List Char) : Drawn font display (term.print font s) :=
  visible.call covered (.print s)

theorem Visible.printBytes (visible : Visible font display term) (covered : display.Covered font)
    (bytes : List Byte) : Drawn font display (term.printBytes font bytes) :=
  visible.print covered _

theorem runCommand_draws {system : System} (returns : system.Returns font display)
    (covered : display.Covered font) (visible : Visible font display term) (command : Command) :
    Drawn font display (runCommand font system term command) := by
  cases command with
  | builtin command => exact returns.builtin command term visible
  | cls => exact visible.call covered .clear
  | echo text =>
      refine Drawn.bind (visible.printBytes covered text) ?_
      intro shown shownVisible
      exact shownVisible.call covered (.putc '\n')
  | color fg bg =>
      cases fg with
      | none => exact visible.print covered _
      | some fg =>
          cases bg with
          | none => exact visible.print covered _
          | some bg =>
              have colored := visible.call covered
                (.setColor (BitVec.ofNat 32 fg) (BitVec.ofNat 32 bg))
              rcases colored with ⟨_, ⟨⟩, still⟩
              exact still.print covered _
  | sleep secs =>
      refine Drawn.bind (visible.print covered _) fun opened openedVisible => ?_
      rw [SimpleShell.printUsize_eq]
      refine Drawn.bind (openedVisible.printBytes covered _) fun counted countedVisible => ?_
      refine Drawn.bind (countedVisible.print covered _) fun closed closedVisible => ?_
      refine Drawn.bind (returns.sleepMs _ closed closedVisible) fun slept sleptVisible => ?_
      exact sleptVisible.print covered _
  | synwrite text =>
      refine Drawn.bind (visible.print covered _) fun opened openedVisible => ?_
      refine Drawn.bind (returns.sysWrite text opened openedVisible) fun written writtenVisible => ?_
      exact writtenVisible.call covered (.putc '\n')
  | unknown verb =>
      refine Drawn.bind (visible.print covered _) fun opened openedVisible => ?_
      refine Drawn.bind (openedVisible.printBytes covered _) fun shown shownVisible => ?_
      exact shownVisible.print covered _

theorem execute_draws {system : System} (returns : system.Returns font display)
    (covered : display.Covered font) (visible : Visible font display term) (shell : Shell) :
    Drawn font display (execute font system shell term) := by
  unfold execute
  cases split : words shell.line with
  | nil =>
      rw [parseLine_blank split]
      exact ⟨term, rfl, visible⟩
  | cons verb arguments =>
      rcases parseLine_words split with ⟨text, _, parsed⟩
      rw [parsed]
      exact runCommand_draws returns covered visible _

end

/-! ### The prompt and the line on the screen -/

def Displayed (font : FontBytes) (display : Display) (shell : Shell) (term : Terminal) : Prop :=
  ∃ first typed fg bg, Agrees font display shell term first typed shell.line fg bg

section

variable {font : FontBytes} {display : Display} {shell : Shell} {term : Terminal}

theorem Visible.prompt (visible : Visible font display term) (covered : display.Covered font)
    (room : PROMPT.length + CMD_BUF_SIZE - 1 ≤ (display.rows - 1) * display.cols)
    (empty : shell.len = 0) :
    ∃ prompted, shell.showPrompt font term = .ok prompted ∧
      Displayed font display shell prompted := by
  rcases visible with ⟨on, grid, shows⟩
  rcases Shell.showPrompt_agrees empty on covered room shows with ⟨prompted, typed, printed, agrees⟩
  refine ⟨prompted, printed, origin grid grid.cursor, typed, term.fg, term.bg, ?_⟩
  rw [agrees.held]
  exact agrees

theorem Displayed.key {system : System} (displayed : Displayed font display shell term)
    (returns : system.Returns font display) (covered : display.Covered font)
    (room : PROMPT.length + CMD_BUF_SIZE - 1 ≤ (display.rows - 1) * display.cols) (key : Byte) :
    ∃ after shown, shell.handleKey font (execute font system) term key = .ok (after, shown) ∧
      Displayed font display after shown := by
  rcases displayed with ⟨first, typed, fg, bg, agrees⟩
  by_cases newline : key = 10#8
  · rcases agrees.shown with ⟨grid, _, shows, _, _⟩
    have visible : Visible font display term := ⟨agrees.on, grid, shows⟩
    rcases visible.call covered (.putc '\n') with ⟨ended, result, endedVisible⟩
    rcases execute_draws returns covered endedVisible shell with ⟨executed, ran, executedVisible⟩
    have prompts := @Visible.prompt font display { shell with len := 0 } executed executedVisible
      covered room rfl
    rcases prompts with ⟨prompted, printed, shown⟩
    refine ⟨{ shell with len := 0 }, prompted, ?_, shown⟩
    have newlineResult : term.putc font '\n' = .ok ended := result
    rw [Shell.handleKey, if_pos newline]
    simp only [bind, Except.bind, newlineResult, ran, printed]
    rfl
  · rcases agrees.key covered room (execute font system) newline with
      ⟨after, shown, later, handled, kept, _⟩
    refine ⟨after, shown, handled, first, later, fg, bg, ?_⟩
    rw [kept.held]
    exact kept

end

namespace Session

variable {font : FontBytes} {display : Display} {session next : Session} {system : System}

def Settled (session : Session) : Prop :=
  session.stage = .yielding ∧ session.typing.keyboard.buffer.contents = []

/-- The steps of the shell until every key stored by now is handled: four for each key, and
one that finds the ring empty. -/
def waiting (session : Session) : Nat :=
  let keys := session.typing.keyboard.buffer.contents.length
  match session.stage with
  | .popping .compare => 4 * keys + 1
  | .popping .read => 4 * keys
  | .popping (.store _) => 4 * keys - 1
  | .handling _ => 4 * keys + 2
  | .yielding => if keys = 0 then 0 else 4 * keys + 2

theorem waiting_le (session : Session) :
    session.waiting ≤ 4 * session.typing.keyboard.buffer.contents.length + 2 := by
  unfold waiting
  dsimp only
  split
  · omega
  · omega
  · omega
  · omega
  · split <;> omega

theorem Invariant.settled (invariant : session.Invariant) (done : session.waiting = 0) :
    session.Settled := by
  unfold waiting at done
  dsimp only at done
  split at done
  · omega
  · rename_i position
    have staged := invariant.staged _ position
    exact absurd (List.eq_nil_of_length_eq_zero (by omega)) staged
  · rename_i held position
    obtain ⟨rest, same⟩ := invariant.staged _ position
    rw [same, List.length_cons] at done
    omega
  · omega
  · rename_i position
    split at done
    · rename_i empty
      exact ⟨position, List.eq_nil_of_length_eq_zero empty⟩
    · omega

/-- With a command that returns the shell always has a step, which brings it closer to the
end of the ring. -/
theorem Invariant.proceeds (invariant : session.Invariant)
    (displayed : Displayed font display session.shell session.term)
    (returns : system.Returns font display) (covered : display.Covered font)
    (room : PROMPT.length + CMD_BUF_SIZE - 1 ≤ (display.rows - 1) * display.cols) :
    ∃ next, session.step font (.shell system) = some next ∧
      Displayed font display next.shell next.term ∧
      next.typing.pushed = session.typing.pushed ∧
      (0 < session.waiting → session.waiting = next.waiting + 1) := by
  cases position : session.stage with
  | popping stage =>
      have staged := invariant.staged stage position
      cases stage with
      | compare =>
          by_cases empty : session.typing.keyboard.buffer.head = session.typing.keyboard.buffer.tail
          · have none := session.typing.keyboard.buffer.contents_eq_nil.mpr empty
            refine ⟨{ session with stage := .yielding }, ?_, displayed, rfl, fun _ => ?_⟩
            · simp only [Session.step, advance, position, popStep, if_pos empty]
            · simp only [waiting, position, none, List.length_nil]
              rfl
          · refine ⟨{ session with stage := .popping .read }, ?_, displayed, rfl, fun _ => ?_⟩
            · simp only [Session.step, advance, position, popStep, if_neg empty]
            · simp only [waiting, position]
      | read =>
          refine ⟨{ session with
            stage := .popping (.store (session.typing.keyboard.buffer.buf
              session.typing.keyboard.buffer.tail)) }, ?_, displayed, rfl, fun positive => ?_⟩
          · simp only [Session.step, advance, position, popStep]
          · simp only [waiting, position] at positive ⊢
            omega
      | store byte =>
          have whole := pop_of_popStep staged rfl
          refine ⟨session.take byte session.typing.keyboard.buffer.advanceTail, ?_, displayed, ?_,
            fun _ => ?_⟩
          · simp only [Session.step, advance, position, popStep]
          · have popped : (session.take byte session.typing.keyboard.buffer.advanceTail).typing =
                session.typing.pop := by
              rw [take, Typing.pop, whole.1]
              rfl
            rw [popped, Typing.pop_pushed]
          · have length := congrArg List.length whole.2
            rw [List.length_cons] at length
            simp only [waiting, position, take]
            omega
  | handling key =>
      rcases displayed.key returns covered room key with ⟨after, shown, handled, kept⟩
      refine ⟨session.handle key after shown, ?_, kept, rfl, fun _ => ?_⟩
      · simp only [Session.step, advance, position, handled]
      · simp only [waiting, position, handle]
  | yielding =>
      refine ⟨{ session with stage := .popping .compare }, ?_, displayed, rfl, fun positive => ?_⟩
      · simp only [Session.step, advance, position]
      · simp only [waiting, position] at positive ⊢
        split at positive
        · exact absurd positive (Nat.lt_irrefl 0)
        · rename_i some_
          rw [if_neg some_]

/-- By induction on the steps that are left. -/
theorem Invariant.catchesUp {systems : List System} (invariant : session.Invariant)
    (displayed : Displayed font display session.shell session.term)
    (returns : ∀ system, system ∈ systems → system.Returns font display)
    (covered : display.Covered font)
    (room : PROMPT.length + CMD_BUF_SIZE - 1 ≤ (display.rows - 1) * display.cols)
    (enough : session.waiting ≤ systems.length) :
    ∃ before after final, systems = before ++ after ∧
      LabelledRun.exec (Session.step font) session (before.map .shell) = some final ∧
        final.Settled ∧
      final.typing.pushed = session.typing.pushed ∧
      Displayed font display final.shell final.term := by
  induction systems generalizing session with
  | nil =>
      have settled := invariant.settled (Nat.le_zero.mp enough)
      exact ⟨[], [], session, rfl, rfl, settled, rfl, displayed⟩
  | cons system rest ih =>
      by_cases done : session.waiting = 0
      · exact ⟨[], system :: rest, session, rfl, rfl, invariant.settled done, rfl, displayed⟩
      · rcases invariant.proceeds displayed (returns system (List.mem_cons_self ..)) covered room with
          ⟨next, stepped, kept, same, closer⟩
        have shorter := closer (Nat.pos_of_ne_zero done)
        rw [List.length_cons] at enough
        rcases ih (invariant.step stepped) kept
          (fun other member => returns other (List.mem_cons_of_mem _ member)) (by omega) with
          ⟨before, after, final, split, ran, settled, pushed, shown⟩
        refine ⟨system :: before, after, final, ?_, ?_, settled, pushed.trans same, shown⟩
        · rw [split]
          rfl
        · exact LabelledRun.exec_cons_eq_some.mpr ⟨next, stepped, ran⟩

theorem Invariant.step_displayed {event : SessionEvent} (invariant : session.Invariant)
    (displayed : Displayed font display session.shell session.term)
    (returns : ∀ system, event = .shell system → system.Returns font display)
    (covered : display.Covered font)
    (room : PROMPT.length + CMD_BUF_SIZE - 1 ≤ (display.rows - 1) * display.cols)
    (stepped : session.step font event = some next) :
    Displayed font display next.shell next.term := by
  cases event with
  | irq scancode =>
      obtain ⟨typing, _, same⟩ := Option.map_eq_some_iff.mp stepped
      subst same
      exact displayed
  | shell system =>
      rcases invariant.proceeds displayed (returns system rfl) covered room with
        ⟨other, same, kept, _⟩
      rw [stepped] at same
      cases same
      exact kept

theorem exec_displayed {events : List SessionEvent} (invariant : session.Invariant)
    (displayed : Displayed font display session.shell session.term)
    (returns : ∀ event, event ∈ events →
      ∀ system, event = .shell system → system.Returns font display)
    (covered : display.Covered font)
    (room : PROMPT.length + CMD_BUF_SIZE - 1 ≤ (display.rows - 1) * display.cols)
    (run : LabelledRun.exec (step font) session events = some next) :
    next.Invariant ∧ Displayed font display next.shell next.term := by
  have preserved (state : Session) (event : SessionEvent) (after : Session)
      (holds : state.Invariant ∧ Displayed font display state.shell state.term)
      (each : ∀ system, event = .shell system → system.Returns font display)
      (stepped : state.step font event = some after) :
      after.Invariant ∧ Displayed font display after.shell after.term :=
    ⟨holds.1.step stepped, holds.1.step_displayed holds.2 each covered room stepped⟩
  exact LabelledRun.exec_invariant_of_labels preserved ⟨invariant, displayed⟩ returns run

end Session

/-! ### The task -/

def BANNER : List Char := "Kernel shell ready. Type 'help' for commands.\n\n".toList

def greet (font : FontBytes) (term : Terminal) : Except Terminal Terminal := do
  let greeted ← term.print font BANNER
  Shell.new.showPrompt font greeted

theorem greet_displayed {font : FontBytes} {display : Display} {term : Terminal}
    (visible : Visible font display term) (covered : display.Covered font)
    (room : PROMPT.length + CMD_BUF_SIZE - 1 ≤ (display.rows - 1) * display.cols) :
    ∃ greeted, greet font term = .ok greeted ∧ Displayed font display Shell.new greeted := by
  rcases visible.print covered BANNER with ⟨opened, printed, still⟩
  rcases still.prompt covered room (rfl : Shell.new.len = 0) with ⟨greeted, prompted, displayed⟩
  refine ⟨greeted, ?_, displayed⟩
  rw [greet, printed]
  exact prompted

/-- With commands that return, on a screen with room for a full line: whenever keys and
steps of the shell have come in any order, the line that is edited lies behind a prompt on
the screen, and once the shell runs on without keys it finds the ring empty after at most
four steps a key and two more.  It has then executed the lines of all keys pushed. -/
theorem shell_catches_up {font : FontBytes} {framebuffers : Option (List Framebuffer)}
    {pixels : Nat → Color} {opened : Terminal}
    (fresh : Terminal.new font framebuffers pixels = some opened)
    (wide : opened.glyphW ≤ opened.width) (tall : opened.glyphH ≤ opened.height)
    (pitch : opened.width ≤ opened.pitch) (covered : opened.Covered font)
    (room : PROMPT.length + CMD_BUF_SIZE - 1 ≤ (opened.rows - 1) * opened.cols) :
    ∃ greeted, greet font opened = .ok greeted ∧ ∀ events session,
      (∀ system, .shell system ∈ events → system.Returns font opened.toDisplay) →
      LabelledRun.exec (Session.step font) (Session.start Shell.new greeted) events =
        some session →
      Displayed font opened.toDisplay session.shell session.term ∧
      ∀ systems : List System,
        (∀ system, system ∈ systems → system.Returns font opened.toDisplay) →
        4 * session.typing.keyboard.buffer.contents.length + 2 ≤ systems.length →
        ∃ before after final, systems = before ++ after ∧
          LabelledRun.exec (Session.step font) session (before.map .shell) = some final ∧
          final.stage = .yielding ∧ final.typing.keyboard.buffer.contents = [] ∧
          (final.executed, final.shell.line) = typedLines session.typing.pushed ∧
          Displayed font opened.toDisplay final.shell final.term := by
  have visible : Visible font opened.toDisplay opened :=
    ⟨Terminal.new_on fresh wide tall pitch, _, Terminal.new_shows fresh wide tall pitch⟩
  rcases greet_displayed visible covered room with ⟨greeted, printed, displayed⟩
  refine ⟨greeted, printed, ?_⟩
  intro events session returns run
  have both := Session.exec_displayed (Session.start_invariant rfl greeted) displayed
    (fun event member system same => returns system (same ▸ member)) covered room run
  refine ⟨both.2, ?_⟩
  intro systems allReturn enough
  rcases both.1.catchesUp both.2 allReturn covered room
      (Nat.le_trans session.waiting_le enough) with
    ⟨before, after, final, split, ran, settled, pushed, shown⟩
  have invariant := Session.exec_sessionInvariant both.1 ran
  have handled := invariant.pushed
  rw [Session.inHand, settled.1, settled.2] at handled
  refine ⟨before, after, final, split, ran, settled.1, settled.2, ?_, shown⟩
  rw [← invariant.lines, ← pushed, ← handled]
  exact congrArg typedLines (List.append_nil _).symm

def silentSystem : System where
  builtin _ term := .ok term
  sleepMs _ term := .ok term
  sysWrite _ term := .ok term

theorem silentSystem_returns (font : FontBytes) (display : Display) :
    silentSystem.Returns font display where
  builtin _ term visible := ⟨term, rfl, visible⟩
  sleepMs _ term visible := ⟨term, rfl, visible⟩
  sysWrite _ term visible := ⟨term, rfl, visible⟩

def sampleCodes : List SessionEvent := [.irq 0x23#8, .irq 0x1c#8]

def sampleTyping : Typing :=
  (Typing.start.irq Device.ShiftKeys.released 0x23#8).irq Device.ShiftKeys.released 0x1c#8

theorem sampleTyping_pushed : sampleTyping.pushed = [104#8, 10#8] := rfl

theorem sampleCodes_run (font : FontBytes) (greeted : Terminal) :
    LabelledRun.exec (Session.step font) (Session.start Shell.new greeted) sampleCodes =
      some { Session.start Shell.new greeted with typing := sampleTyping } := rfl

theorem sampleCodes_caught_up :
    ∃ (opened greeted : Terminal) (before : List System) (final : Session),
      Terminal.new Terminal.sampleFont sampleScreen (fun _ => 0#32) = some opened ∧
      greet Terminal.sampleFont opened = .ok greeted ∧
      LabelledRun.exec (Session.step Terminal.sampleFont) (Session.start Shell.new greeted)
        (sampleCodes ++ before.map .shell) = some final ∧
      final.executed = [[104#8]] ∧ final.shell.line = [] := by
  obtain ⟨opened, fresh, display⟩ := sampleScreen_opens
  have covered : opened.Covered Terminal.sampleFont := by
    rw [display]
    exact ⟨Terminal.sample_covered.glyphs, by decide⟩
  obtain ⟨greeted, printed, reached⟩ :=
    shell_catches_up fresh (by rw [display]; decide) (by rw [display]; decide)
      (by rw [display]; decide) covered (by rw [display]; decide)
  have codes : ∀ system, .shell system ∈ sampleCodes →
      system.Returns Terminal.sampleFont opened.toDisplay := by
    intro system member
    simp [sampleCodes] at member
  obtain ⟨_, later⟩ := reached sampleCodes _ codes (sampleCodes_run _ greeted)
  obtain ⟨before, _, final, _, ran, _, _, lines, _⟩ := later (List.replicate 10 silentSystem)
    (fun system member => List.eq_of_mem_replicate member ▸ silentSystem_returns _ _)
    (show 4 * sampleTyping.keyboard.buffer.contents.length + 2 ≤ 10 by decide)
  have typed : (final.executed, final.shell.line) = typedLines [104#8, 10#8] :=
    lines.trans (congrArg typedLines sampleTyping_pushed)
  exact ⟨opened, greeted, before, final, fresh, printed,
    LabelledRun.exec_append_eq_some.mpr ⟨_, sampleCodes_run _ greeted, ran⟩,
    congrArg Prod.fst typed, congrArg Prod.snd typed⟩

/-- Whatever interrupts the shell and wherever: the lines it has executed and the one it
edits are those of the keys it has handled, which are followed by the one in hand and those
in the ring; and all of these are the translation of the codes by the shift keys held just
when every code was undisturbed. -/
theorem shell_executes_typed_lines {font : FontBytes} {session : Session} {shell : Shell}
    (empty : shell.len = 0) {term : Terminal} {events : List SessionEvent}
    (run : LabelledRun.exec (Session.step font) (Session.start shell term) events = some session) :
    (session.executed, session.shell.line) = typedLines session.handled ∧
      session.shell.len ≤ CMD_BUF_SIZE - 1 ∧
      session.handled ++ session.inHand = session.typing.popped ∧
      (session.handled ++ (session.inHand ++ session.typing.keyboard.buffer.contents) =
          session.typing.translation ↔
        LabelledRun.Guarded (Session.step font) Session.Undisturbed (Session.start shell term)
          events) := by
  have invariant := Session.exec_sessionInvariant (Session.start_invariant empty term) run
  have exact := LabelledRun.exec_iff_guarded
    (fun _ _ _ holds stepped => Session.Invariant.step holds stepped)
    (fun _ _ _ holds stepped => Session.Invariant.step_pushed holds stepped)
    (Session.start_invariant empty term) run
  have initial : Typing.start.pushed = Typing.start.translation := rfl
  refine ⟨invariant.lines.symm, invariant.bounded, invariant.taken.symm, ?_⟩
  rw [invariant.pushed, exact]
  exact and_iff_right initial

theorem sampleCodes_executed :
    ∃ (greeted : Terminal) (events : List SessionEvent) (session : Session),
      LabelledRun.exec (Session.step Terminal.sampleFont) (Session.start Shell.new greeted) events =
        some session ∧
      (session.executed, session.shell.line) = typedLines [104#8, 10#8] := by
  obtain ⟨opened, fresh, display⟩ := sampleScreen_opens
  have covered : opened.Covered Terminal.sampleFont := by
    rw [display]
    exact ⟨Terminal.sample_covered.glyphs, by decide⟩
  have room : PROMPT.length + CMD_BUF_SIZE - 1 ≤ (opened.rows - 1) * opened.cols := by
    rw [display]
    decide
  have visible : Visible Terminal.sampleFont opened.toDisplay opened :=
    ⟨Terminal.new_on fresh (by rw [display]; decide) (by rw [display]; decide)
        (by rw [display]; decide), _,
      Terminal.new_shows fresh (by rw [display]; decide) (by rw [display]; decide)
        (by rw [display]; decide)⟩
  obtain ⟨greeted, _, displayed⟩ := greet_displayed visible covered room
  have typed := Session.exec_sessionInvariant (Session.start_invariant rfl greeted)
    (sampleCodes_run Terminal.sampleFont greeted)
  obtain ⟨before, _, final, _, ran, settled, pushed, _⟩ :=
    typed.catchesUp displayed
      (fun system (member : system ∈ List.replicate 10 silentSystem) =>
        List.eq_of_mem_replicate member ▸ silentSystem_returns _ _)
      covered room
      (show 4 * sampleTyping.keyboard.buffer.contents.length + 1 ≤ 10 by decide)
  have run := LabelledRun.exec_append_eq_some.mpr ⟨_, sampleCodes_run _ greeted, ran⟩
  obtain ⟨lines, _⟩ := shell_executes_typed_lines rfl run
  have handled := (Session.exec_sessionInvariant typed ran).pushed
  rw [Session.inHand, settled.1, settled.2, List.append_nil, List.append_nil, pushed] at handled
  exact ⟨greeted, _, final, run,
    lines.trans (congrArg typedLines (handled.trans sampleTyping_pushed))⟩

end CustomKernel.SimpleShell
