/-
The used blocks are the live allocations.

An allocation puts one used block into the list and a release takes the block of its
pointer out; growing, splitting and merging touch free blocks only.  So in every run the
used blocks and the live pointers correspond one to one: nothing leaks, and the lines of
the dump that say USED are the pointers that clients hold.
-/

import CustomKernel.Memory.HeapIsolation
import Mathlib.Data.List.Perm.Basic

set_option autoImplicit false

namespace CustomKernel.Memory

def usedBlocks (addr : Nat) (blocks : List Block) : List (Nat × Block) :=
  (placedBlocks addr blocks).filter (fun placed => placed.2.used)

def usedPointers (blocks : List Block) : List Nat :=
  (usedBlocks HEAP_START blocks).map (fun placed => placed.1 + HEADER_SIZE)

theorem usedBlocks_append (addr : Nat) (before behind : List Block) :
    usedBlocks addr (before ++ behind) =
      usedBlocks addr before ++ usedBlocks (blocksEnd addr before) behind := by
  simp only [usedBlocks, placedBlocks, Tiling.placed_append, List.filter_append]

theorem usedBlocks_cons (addr : Nat) (block : Block) (rest : List Block) :
    usedBlocks addr (block :: rest) =
      if block.used then (addr, block) :: usedBlocks (addr + block.width) rest
      else usedBlocks (addr + block.width) rest := by
  simp only [usedBlocks, placedBlocks, Tiling.placed, List.filter_cons]

theorem usedBlocks_free {addr : Nat} {block : Block} {rest : List Block}
    (free : block.used = false) :
    usedBlocks addr (block :: rest) = usedBlocks (addr + block.width) rest := by
  rw [usedBlocks_cons, free]
  rfl

theorem usedBlocks_taken (addr needed : Nat) (block : Block) :
    ∃ head, head.used = true ∧ usedBlocks addr (block.taken needed) = [(addr, head)] := by
  unfold Block.taken
  split
  · refine ⟨{ size := needed, used := true }, rfl, ?_⟩
    rw [usedBlocks_cons, if_pos rfl, usedBlocks_free rfl]
    rfl
  · exact ⟨_, rfl, rfl⟩

theorem usedBlocks_mergeFree {addr : Nat} {block : Block} {behind : List Block}
    (free : block.used = false) :
    usedBlocks addr (mergeFree block behind) = usedBlocks (addr + block.width) behind := by
  cases behind with
  | nil => exact usedBlocks_free free
  | cons next rest =>
      cases usage : next.used with
      | true =>
          simp only [mergeFree, usage, if_true]
          exact usedBlocks_free free
      | false =>
          have widths : addr + Block.width { block with size := block.size + next.width } =
              addr + block.width + next.width := by
            simp only [Block.width]
            omega
          simp only [mergeFree, usage, Bool.false_eq_true, if_false]
          rw [@usedBlocks_free _ { block with size := block.size + next.width } _ free,
            usedBlocks_free usage, widths]

/-! ### The two calls -/

theorem Granted.usedBlocks {blocks before behind : List Block} {block : Block} {size ptr : Nat}
    {after : Heap} (granted : Granted blocks before behind block size ptr after) :
    ∃ head, head.used = true ∧
      usedBlocks HEAP_START blocks = usedBlocks HEAP_START before ++
        usedBlocks (blocksEnd HEAP_START before + block.width) behind ∧
      usedBlocks HEAP_START (before ++ (block.taken (alignUp size) ++ behind)) =
        usedBlocks HEAP_START before ++ (blocksEnd HEAP_START before, head) ::
          usedBlocks (blocksEnd HEAP_START before + block.width) behind := by
  obtain ⟨head, used, taken⟩ :=
    usedBlocks_taken (blocksEnd HEAP_START before) (alignUp size) block
  refine ⟨head, used, ?_, ?_⟩
  · have source : Memory.usedBlocks HEAP_START (before ++ ([block] ++ behind)) =
        Memory.usedBlocks HEAP_START blocks := by
      rcases granted.source with same | ⟨added, grown⟩
      · rw [same]
      · rw [grown, usedBlocks_append, usedBlocks_free rfl]
        exact List.append_nil _
    rw [← source, usedBlocks_append, List.singleton_append, usedBlocks_free granted.free]
  · have extent : blocksEnd (blocksEnd HEAP_START before) (block.taken (alignUp size)) =
        blocksEnd HEAP_START before + block.width := Block.taken_extent _
    rw [usedBlocks_append, usedBlocks_append, taken, extent]
    rfl

theorem usedBlocks_release {before behind : List Block} {block : Block} (used : block.used = true) :
    usedBlocks HEAP_START (before ++ ([block] ++ behind)) =
        usedBlocks HEAP_START before ++ (blocksEnd HEAP_START before, block) ::
          usedBlocks (blocksEnd HEAP_START before + block.width) behind ∧
      usedBlocks HEAP_START (before ++ mergeFree { block with used := false } behind) =
        usedBlocks HEAP_START before ++
          usedBlocks (blocksEnd HEAP_START before + block.width) behind := by
  constructor
  · rw [usedBlocks_append, List.singleton_append, usedBlocks_cons, if_pos used]
  · rw [usedBlocks_append, usedBlocks_mergeFree rfl]
    rfl

/-! ### Runs -/

def HeapRun.Exact (run : HeapRun) (blocks : List Block) : Prop :=
  (usedPointers blocks).Perm (run.live.map Prod.fst)

theorem HeapRun.Exact.kmalloc {run : HeapRun} {blocks before behind : List Block}
    {block : Block} {size requested ptr : Nat} {after : Heap} (exact_ : run.Exact blocks)
    (granted : Granted blocks before behind block size ptr after) :
    HeapRun.Exact { heap := after, live := (ptr, requested) :: run.live }
      (before ++ (block.taken (alignUp size) ++ behind)) := by
  obtain ⟨head, _, old, new⟩ := granted.usedBlocks
  unfold HeapRun.Exact usedPointers at exact_ ⊢
  rw [old, List.map_append] at exact_
  rw [new, List.map_append, List.map_cons, List.map_cons, ← granted.ptrEq]
  exact List.perm_middle.trans (exact_.cons ptr)

theorem perm_release {left right live : List Nat} {ptr : Nat} (once : live.Nodup)
    (perm : (left ++ ptr :: right).Perm live) :
    (left ++ right).Perm (live.filter (fun other => other ≠ ptr)) := by
  have nodup := perm.nodup_iff.mpr once
  have absent : ptr ∉ left := by
    intro member
    exact (List.nodup_append.mp nodup).2.2 ptr member ptr (List.mem_cons_self ..) rfl
  have erased := perm.erase ptr
  rw [List.erase_append_right _ absent, List.erase_cons_head, once.erase_eq_filter] at erased
  refine erased.trans (List.Perm.of_eq ?_)
  apply List.filter_congr
  intro other _
  by_cases same : other = ptr <;> simp [same]

theorem HeapRun.Exact.kfree {run : HeapRun} {before behind : List Block} {block : Block}
    {ptr : Nat} {released : Heap} (exact_ : run.Exact (before ++ ([block] ++ behind)))
    (distinct : run.live.Pairwise (fun left right => left.1 ≠ right.1))
    (used : block.used = true) (ptrEq : ptr = blocksEnd HEAP_START before + HEADER_SIZE) :
    HeapRun.Exact
      { heap := released, live := run.live.filter (fun entry => entry.1 ≠ ptr) }
      (before ++ mergeFree { block with used := false } behind) := by
  obtain ⟨old, new⟩ := @usedBlocks_release before behind block used
  unfold HeapRun.Exact usedPointers at exact_ ⊢
  have once : (run.live.map Prod.fst).Nodup := List.pairwise_map.mpr distinct
  rw [old, List.map_append, List.map_cons, ← ptrEq] at exact_
  have kept := perm_release once exact_
  rw [List.filter_map] at kept
  rw [new, List.map_append]
  exact kept

theorem heapStep_exact {run next : HeapRun} {blocks : List Block} {call : HeapCall}
    (invariant : run.Invariant blocks) (exact_ : run.Exact blocks)
    (stepped : heapStep run call = some next) :
    ∃ remaining, next.Invariant remaining ∧ next.Exact remaining := by
  cases call with
  | kmalloc size =>
      simp only [heapStep] at stepped
      split at stepped
      · rename_i allowed
        rcases kmalloc_cases invariant.laid allowed.1 allowed.2 with
          ⟨ptr, after, before, block, behind, result, granted⟩ | ⟨panic, result, _⟩
        · rw [result] at stepped
          cases stepped
          exact ⟨_, invariant.kmalloc allowed.2 granted, exact_.kmalloc granted⟩
        · rw [result] at stepped
          cases stepped
      · cases stepped
  | kfree ptr =>
      simp only [heapStep] at stepped
      split at stepped
      · rename_i live
        obtain ⟨⟨pointer, size⟩, member, same⟩ := live
        simp only at same
        subst same
        obtain ⟨before, block, behind, released, split, address, used, result, kept⟩ :=
          invariant.release member
        rw [result] at stepped
        cases stepped
        rw [split] at exact_
        exact ⟨_, kept, exact_.kfree invariant.distinct used address⟩
      · cases stepped
  | store address value =>
      simp only [heapStep] at stepped
      split at stepped
      · rename_i inside
        cases stepped
        exact ⟨blocks, invariant.store inside, exact_⟩
      · cases stepped

theorem exec_exact {run final : HeapRun} {blocks : List Block} {calls : List HeapCall}
    (invariant : run.Invariant blocks) (exact_ : run.Exact blocks)
    (reached : LabelledRun.exec heapStep run calls = some final) :
    ∃ remaining, final.Invariant remaining ∧ final.Exact remaining := by
  apply @LabelledRun.exec_invariant _ _ heapStep
    (fun run => ∃ blocks, run.Invariant blocks ∧ run.Exact blocks)
    _ run final calls ⟨blocks, invariant, exact_⟩ reached
  intro state call next here stepped
  obtain ⟨blocks, invariant, exact_⟩ := here
  exact heapStep_exact invariant exact_ stepped

/-! ### What the dump shows -/

def LinesTile (stop : Nat) : Nat → List DumpLine → Prop
  | addr, [] => addr = stop
  | addr, line :: rest => line.addr = addr ∧ LinesTile stop (addr + HEADER_SIZE + line.size) rest

theorem dumpOf_tile (addr : Nat) (blocks : List Block) :
    LinesTile (blocksEnd addr blocks) addr (dumpOf addr blocks) := by
  induction blocks generalizing addr with
  | nil => rfl
  | cons block rest ih =>
      refine ⟨rfl, ?_⟩
      rw [Nat.add_assoc]
      exact ih (addr + block.width)

theorem dumpOf_used (addr : Nat) (blocks : List Block) :
    ((dumpOf addr blocks).filter (fun line => line.used)).map
        (fun line => line.addr + HEADER_SIZE) =
      (usedBlocks addr blocks).map (fun placed => placed.1 + HEADER_SIZE) := by
  unfold dumpOf usedBlocks
  rw [List.filter_map, List.map_map]
  rfl

/-- In every reachable state the dump tiles the window, its used lines are the live
pointers, each exactly once, and the line of a pointer shows at least the size that was
asked for. -/
theorem dump_shows_live_allocations {before heap : Heap} {n : Nat} {calls : List HeapCall}
    {final : HeapRun} (started : kmallocInit before HEAP_START n = .ok heap)
    (rounded : (n + 4095) / PAGE_SIZE * PAGE_SIZE ≤ HEAP_MAX_SIZE)
    (reached : LabelledRun.exec heapStep { heap := heap, live := [] } calls = some final) :
    ∃ lines, kmallocDump final.heap = .ok lines ∧
      LinesTile final.heap.heapEnd HEAP_START lines ∧
      ((lines.filter (fun line => line.used)).map (fun line => line.addr + HEADER_SIZE)).Perm
        (final.live.map Prod.fst) ∧
      ∀ ptr size, (ptr, size) ∈ final.live →
        ∃ line ∈ lines, line.used = true ∧ line.addr + HEADER_SIZE = ptr ∧ size ≤ line.size := by
  obtain ⟨first, initial⟩ := kmallocInit_laid rounded started
  have nobody : HeapRun.Exact { heap := heap, live := [] } [{ size := first, used := false }] :=
    List.Perm.nil
  obtain ⟨blocks, invariant, exact_⟩ :=
    exec_exact ⟨initial, by simp, List.Pairwise.nil⟩ nobody reached
  have laid := invariant.laid
  refine ⟨dumpOf HEAP_START blocks, laid.kmallocDump, ?_, ?_, ?_⟩
  · rw [← laid.reaches]
    exact dumpOf_tile _ _
  · rw [dumpOf_used]
    exact exact_
  · intro ptr size live
    obtain ⟨hdr, block, placed, ptrEq, used, large⟩ := invariant.owned _ live
    exact ⟨_, List.mem_map.mpr ⟨_, placed, rfl⟩, used, ptrEq.symm, large⟩

/-- The dump of the sample run. -/
theorem freshHeap_dump :
    ∃ heap final lines, kmallocInit freshHeap HEAP_START 4096 = .ok heap ∧
      LabelledRun.exec heapStep { heap := heap, live := [] } freshHeapCalls = some final ∧
      kmallocDump final.heap = .ok lines ∧
      ((lines.filter (fun line => line.used)).map (fun line => line.addr + HEADER_SIZE)).Perm
        (final.live.map Prod.fst) := by
  obtain ⟨heap, final, started, reached⟩ := freshHeap_runs
  obtain ⟨lines, dumped, _, live, _⟩ := dump_shows_live_allocations started (by decide) reached
  exact ⟨heap, final, lines, started, reached, dumped, live⟩

end CustomKernel.Memory
