/-
The text of the heap dump.

Every line of the dump shows a number, an address, a size and a status.  Whatever the numbers,
the lines can be read back from the whole text, so that the dumps of two heaps are different
on the screen if their blocks are.
-/

import CustomKernel.Memory.UsedBlocks
import CustomKernel.Ui.PrintedText

set_option autoImplicit false

namespace CustomKernel.Memory

open Ui Readback

/-! ### Printing -/

def statusText (used : Bool) : List Char := (if used then "USED" else "free").toList

/-- The calls for one block, with its number. -/
def printDumpLine (font : FontBytes) (t : Terminal) (entry : DumpLine × Nat) :
    Except Terminal Terminal := do
  let t ← t.print font "[".toList
  let t ← t.printUsize font (BitVec.ofNat 64 entry.2)
  let t ← t.print font " ] addr=".toList
  let t ← t.printHexUsize font (BitVec.ofNat 64 entry.1.addr)
  let t ← t.print font " size=".toList
  let t ← t.printUsize font (BitVec.ofNat 64 entry.1.size)
  let t ← t.print font " ".toList
  let t ← t.print font (statusText entry.1.used)
  t.print font "\n".toList

/-- The output of `kmalloc_dump` for the blocks that its walk finds; what it prints does not
depend on the terminal, and the walk not on what was printed. -/
def printDump (font : FontBytes) (t : Terminal) (lines : List DumpLine) :
    Except Terminal Terminal := do
  let t ← t.print font "\n---- Heap Dump ----\n".toList
  let t ← lines.zipIdx.foldlM (printDumpLine font) t
  t.print font "----- end -----\n".toList

def dumpLineText (entry : DumpLine × Nat) : List Char :=
  "[".toList ++ (usizeText (BitVec.ofNat 64 entry.2) ++
    (" ] addr=".toList ++ (hexText (BitVec.ofNat 64 entry.1.addr) ++
      (" size=".toList ++ (usizeText (BitVec.ofNat 64 entry.1.size) ++
        (" ".toList ++ (statusText entry.1.used ++ "\n".toList)))))))

def dumpText (lines : List DumpLine) : List Char :=
  "\n---- Heap Dump ----\n".toList ++
    (lines.zipIdx.flatMap dumpLineText ++ "----- end -----\n".toList)

section Printing

variable (font : FontBytes) (t : Terminal)

theorem print_then (first second : List Char) :
    (t.print font first >>= fun reached => reached.print font second) =
      t.print font (first ++ second) := (t.print_append font first second).symm

theorem printUsize_text (v : BitVec 64) : t.printUsize font v = t.print font (usizeText v) := by
  have printed : TerminalCall.printUsize v |> prints := rfl
  exact call_prints font t printed

theorem printHexUsize_text (v : BitVec 64) : t.printHexUsize font v = t.print font (hexText v) := by
  rw [Terminal.printHexUsize_eq, hexText_eq]
  rfl

theorem printDumpLine_eq (entry : DumpLine × Nat) :
    printDumpLine font t entry = t.print font (dumpLineText entry) := by
  simp only [printDumpLine, printUsize_text, printHexUsize_text, print_then]
  rw [dumpLineText]

theorem printDumpLines_eq (entries : List (DumpLine × Nat)) :
    entries.foldlM (printDumpLine font) t = t.print font (entries.flatMap dumpLineText) := by
  induction entries generalizing t with
  | nil => rfl
  | cons entry rest ih =>
      rw [List.foldlM_cons, List.flatMap_cons, ← print_then, printDumpLine_eq]
      congr 1
      funext reached
      exact ih reached

theorem printDump_eq (lines : List DumpLine) :
    printDump font t lines = t.print font (dumpText lines) := by
  unfold dumpText printDump
  rw [← print_then]
  congr 1
  funext opened
  rw [← print_then, printDumpLines_eq]

end Printing

/-! ### Reading -/

structure DumpSeen where
  idx : BitVec 64
  addr : BitVec 64
  size : BitVec 64
  used : Bool

def seenOf (entry : DumpLine × Nat) : DumpSeen :=
  { idx := BitVec.ofNat 64 entry.2
    addr := BitVec.ofNat 64 entry.1.addr
    size := BitVec.ofNat 64 entry.1.size
    used := entry.1.used }

theorem reads_status (behind : List Char → Prop) : Reads statusText id behind := by
  intro left right leftRest rightRest _ _ same
  have width (used : Bool) : (statusText used).length = 4 := by
    cases used <;> rfl
  obtain ⟨texts, rests⟩ := List.append_inj same ((width left).trans (width right).symm)
  refine ⟨?_, rests⟩
  cases left <;> cases right <;> first | rfl | exact absurd texts (by decide)

theorem stops_digit {c : Char} {rest : List Char} (other : ¬ IsDigit c) :
    Stops IsDigit (c :: rest) := by
  intro symbol head
  cases head
  exact other

theorem reads_dumpLine : Reads dumpLineText seenOf (fun _ => True) := by
  have idx : Reads (fun entry : DumpLine × Nat => usizeText (BitVec.ofNat 64 entry.2))
      (fun entry => BitVec.ofNat 64 entry.2) (Stops IsDigit) :=
    reads_usizeText.of_part fun entry : DumpLine × Nat => BitVec.ofNat 64 entry.2
  have addr : Reads (fun entry : DumpLine × Nat => hexText (BitVec.ofNat 64 entry.1.addr))
      (fun entry => BitVec.ofNat 64 entry.1.addr) (fun _ => True) :=
    (reads_hexText _).of_part fun entry : DumpLine × Nat => BitVec.ofNat 64 entry.1.addr
  have size : Reads (fun entry : DumpLine × Nat => usizeText (BitVec.ofNat 64 entry.1.size))
      (fun entry => BitVec.ofNat 64 entry.1.size) (Stops IsDigit) :=
    reads_usizeText.of_part fun entry : DumpLine × Nat => BitVec.ofNat 64 entry.1.size
  have status : Reads (fun entry : DumpLine × Nat => statusText entry.1.used)
      (fun entry => entry.1.used) (fun _ => True) :=
    (reads_status _).of_part fun entry : DumpLine × Nat => entry.1.used
  have word (text : List Char) : Reads (fun _ : DumpLine × Nat => text) (fun _ => ())
      (fun _ => True) := reads_word text _
  have space (text : List Char) : Stops IsDigit (' ' :: text) := stops_digit (by unfold IsDigit; decide)
  have ending := (word " ".toList).append (status.append (word "\n".toList) fun _ _ _ => trivial)
    fun _ _ _ => trivial
  have sized := (word " size=".toList).append (size.append ending fun _ _ _ => space _)
    fun _ _ _ => trivial
  have placed := (word " ] addr=".toList).append (addr.append sized fun _ _ _ => trivial)
    fun _ _ _ => trivial
  have whole := (word "[".toList).append (idx.append placed fun _ _ _ => space _)
    fun _ _ _ => trivial
  exact whole.map fun seen =>
    DumpSeen.mk seen.2.1 seen.2.2.2.1 seen.2.2.2.2.2.1 seen.2.2.2.2.2.2.2.1

theorem reads_dump :
    Reads (fun entries : List (DumpLine × Nat) => entries.flatMap dumpLineText ++
      "----- end -----\n".toList) (fun entries => entries.map seenOf) (fun _ => True) := by
  apply reads_dumpLine.list
  · intro entry rest other same
    have first := congrArg List.head? same
    cases first
  · exact fun _ _ => trivial
  · exact fun _ => trivial

def DumpSeen.line (seen : DumpSeen) : DumpLine :=
  { addr := seen.addr.toNat
    size := seen.size.toNat
    used := seen.used }

def DumpLine.Fits (line : DumpLine) : Prop := line.addr < 2 ^ 64 ∧ line.size < 2 ^ 64

theorem line_seenOf {entry : DumpLine × Nat} (fits : entry.1.Fits) :
    (seenOf entry).line = entry.1 := by
  unfold DumpSeen.line seenOf
  rw [BitVec.toNat_ofNat, BitVec.toNat_ofNat, Nat.mod_eq_of_lt fits.1, Nat.mod_eq_of_lt fits.2]

theorem lines_seen {lines : List DumpLine} (fits : ∀ line ∈ lines, line.Fits) :
    (lines.zipIdx.map seenOf).map DumpSeen.line = lines := by
  have each : ∀ entry ∈ lines.zipIdx, (DumpSeen.line ∘ seenOf) entry = entry.1 := by
    intro entry member
    exact line_seenOf (fits entry.1 (List.fst_mem_of_mem_zipIdx member))
  rw [List.map_map, List.map_congr_left each]
  exact List.zipIdx_map_fst 0 lines

theorem dumpText_inj {left right : List DumpLine} (leftFits : ∀ line ∈ left, line.Fits)
    (rightFits : ∀ line ∈ right, line.Fits) (same : dumpText left = dumpText right) :
    left = right := by
  have seen : left.zipIdx.map seenOf = right.zipIdx.map seenOf :=
    reads_dump.determines trivial (List.append_cancel_left same)
  rw [← lines_seen leftFits, ← lines_seen rightFits, seen]

/-! ### The dumps of reachable heaps -/

theorem Laid.dump_fits {heap : Heap} {blocks : List Block} (laid : Laid heap blocks) :
    ∀ line ∈ dumpOf HEAP_START blocks, line.Fits := by
  intro line member
  obtain ⟨⟨addr, block⟩, placed, rfl⟩ := List.mem_map.mp member
  have bounds := Tiling.placed_bounds placed
  have fits := laid.fits
  change blocksEnd HEAP_START blocks < 2 ^ 64 at fits
  change addr < 2 ^ 64 ∧ block.size < 2 ^ 64
  have width : block.size ≤ Block.width block := Nat.le_add_left _ _
  change HEAP_START ≤ addr ∧ addr + Block.width block ≤ blocksEnd HEAP_START blocks at bounds
  omega

theorem blocks_dumpOf (addr : Nat) (blocks : List Block) :
    (dumpOf addr blocks).map (fun line => { size := line.size, used := line.used }) = blocks := by
  induction blocks generalizing addr with
  | nil => rfl
  | cons block rest ih => exact congrArg (block :: ·) (ih (addr + block.width))

def Reachable (run : HeapRun) : Prop :=
  ∃ before heap n calls, kmallocInit before HEAP_START n = .ok heap ∧
    (n + 4095) / PAGE_SIZE * PAGE_SIZE ≤ HEAP_MAX_SIZE ∧
    LabelledRun.exec heapStep { heap := heap, live := [] } calls = some run

theorem Reachable.exact {run : HeapRun} (reachable : Reachable run) :
    ∃ blocks, run.Invariant blocks ∧ run.Exact blocks := by
  obtain ⟨before, heap, n, calls, started, rounded, reached⟩ := reachable
  obtain ⟨first, initial⟩ := kmallocInit_laid rounded started
  have nobody : HeapRun.Exact { heap := heap, live := [] } [{ size := first, used := false }] :=
    List.Perm.nil
  exact exec_exact ⟨initial, by simp, List.Pairwise.nil⟩ nobody reached

/-- The dump of any two reachable heaps, whatever led to them and on whatever terminal, is drawn
as one text; and heaps that print the same text consist of the same blocks, end at the same
address and have the same live pointers. -/
theorem dump_text_shows_allocations {left right : HeapRun} (leftReachable : Reachable left)
    (rightReachable : Reachable right) :
    ∃ leftLines rightLines, kmallocDump left.heap = .ok leftLines ∧
      kmallocDump right.heap = .ok rightLines ∧
      (∀ (font : FontBytes) (t : Terminal),
        printDump font t leftLines = t.print font (dumpText leftLines)) ∧
      (dumpText leftLines = dumpText rightLines →
        leftLines = rightLines ∧ left.heap.heapEnd = right.heap.heapEnd ∧
          (left.live.map Prod.fst).Perm (right.live.map Prod.fst)) := by
  obtain ⟨leftBlocks, leftInvariant, leftExact⟩ := leftReachable.exact
  obtain ⟨rightBlocks, rightInvariant, rightExact⟩ := rightReachable.exact
  have leftLaid := leftInvariant.laid
  have rightLaid := rightInvariant.laid
  refine ⟨_, _, leftLaid.kmallocDump, rightLaid.kmallocDump,
    fun font t => printDump_eq font t _, ?_⟩
  intro same
  have lines := dumpText_inj leftLaid.dump_fits rightLaid.dump_fits same
  have blocks : leftBlocks = rightBlocks := by
    rw [← blocks_dumpOf HEAP_START leftBlocks, lines, blocks_dumpOf]
  refine ⟨lines, ?_, ?_⟩
  · rw [← leftLaid.reaches, ← rightLaid.reaches, blocks]
  · unfold HeapRun.Exact at leftExact rightExact
    rw [blocks] at leftExact
    exact leftExact.symm.trans rightExact

/-- The dump of the sample run, and the live pointers behind it. -/
theorem freshHeap_dump_text :
    ∃ heap final lines, kmallocInit freshHeap HEAP_START 4096 = .ok heap ∧
      LabelledRun.exec heapStep { heap := heap, live := [] } freshHeapCalls = some final ∧
      kmallocDump final.heap = .ok lines ∧
      ∀ font t, printDump font t lines = t.print font (dumpText lines) := by
  obtain ⟨heap, final, started, reached⟩ := freshHeap_runs
  have reachable : Reachable final :=
    ⟨freshHeap, heap, 4096, freshHeapCalls, started, by decide, reached⟩
  obtain ⟨lines, _, dumped, _, drawn, _⟩ := dump_text_shows_allocations reachable reachable
  exact ⟨heap, final, lines, started, reached, dumped, drawn⟩

end CustomKernel.Memory
