/-
The line buffer of the shell.

Keys are edited into a buffer of fixed size and shown on the terminal as they come.  The
commands that a newline executes are a parameter.
-/

import CustomKernel.Ui.Terminal

set_option autoImplicit false

namespace CustomKernel.SimpleShell

open Ui

def CMD_BUF_SIZE : Nat := 256

def PROMPT : List Char := ['k', 'e', 'r', 'n', 'e', 'l', '>', ' ']

structure Shell where
  buf : List (BitVec 8)
  len : Nat
  size : buf.length = CMD_BUF_SIZE

namespace Shell

def new : Shell where
  buf := List.replicate CMD_BUF_SIZE 0#8
  len := 0
  size := List.length_replicate ..

def line (shell : Shell) : List (BitVec 8) := shell.buf.take shell.len

/-- `self.buf[self.len] = key` with the increment; the caller has checked the length. -/
def push (shell : Shell) (key : BitVec 8) : Shell where
  buf := shell.buf.set shell.len key
  len := shell.len + 1
  size := by
    rw [List.length_set]
    exact shell.size

def showPrompt (font : FontBytes) (_shell : Shell) (term : Terminal) : Except Terminal Terminal :=
  term.print font PROMPT

def handleKey (font : FontBytes) (execute : Shell → Terminal → Except Terminal Terminal)
    (shell : Shell) (term : Terminal) (key : BitVec 8) : Except Terminal (Shell × Terminal) :=
  if key = 10#8 then do
    let ended ← term.putc font '\n'
    let executed ← execute shell ended
    let emptied : Shell := { shell with len := 0 }
    let prompted ← emptied.showPrompt font executed
    pure (emptied, prompted)
  else if key = 8#8 then
    if 0 < shell.len then .ok ({ shell with len := shell.len - 1 }, term.backspace)
    else .ok (shell, term)
  else if 32 ≤ key.toNat ∧ key.toNat < 127 then
    if shell.len < CMD_BUF_SIZE - 1 then do
      let shown ← term.putc font (Terminal.charOf key)
      pure (shell.push key, shown)
    else .ok (shell, term)
  else .ok (shell, term)

def handleKeys (font : FontBytes) (execute : Shell → Terminal → Except Terminal Terminal)
    (shell : Shell) (term : Terminal) (keys : List (BitVec 8)) :
    Except Terminal (Shell × Terminal) :=
  keys.foldlM (fun state key => state.1.handleKey font execute state.2 key) (shell, term)

end Shell

end CustomKernel.SimpleShell
