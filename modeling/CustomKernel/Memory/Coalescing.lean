/-
Free neighbours in the block list.

A release merges the freed block with the block after it, never with the one before.  So
a list without free neighbours stays so exactly as long as no freed block follows a free
one.  Releases in the reverse order of the allocations are of that kind: each finds the
remainder that its own allocation split off, and the list comes back as it was.
-/

import CustomKernel.Memory.FirstFit
import CustomKernel.Memory.HeapIsolation
import Mathlib.Data.List.Chain

set_option autoImplicit false

namespace CustomKernel.Memory

def Coalesced (blocks : List Block) : Prop :=
  blocks.IsChain (fun left right => left.used = true ∨ right.used = true)

/-- The neighbours at a place where one list is put before another. -/
def Joined (before behind : List Block) : Prop :=
  ∀ left, left ∈ before.getLast? → ∀ right, right ∈ behind.head? →
    left.used = true ∨ right.used = true

theorem coalesced_append {before behind : List Block} :
    Coalesced (before ++ behind) ↔ Coalesced before ∧ Coalesced behind ∧ Joined before behind :=
  List.isChain_append

theorem coalesced_cons {block : Block} {rest : List Block} :
    Coalesced (block :: rest) ↔
      (∀ right, right ∈ rest.head? → block.used = true ∨ right.used = true) ∧ Coalesced rest :=
  List.isChain_cons

theorem joined_of_used {before rest : List Block} {block : Block} (used : block.used = true) :
    Joined before (block :: rest) := by
  intro left _ right member
  cases member
  exact Or.inr used

/-! ### The two edits of the list -/

theorem Coalesced.taken {before behind : List Block} {block : Block} {needed : Nat}
    (coalesced : Coalesced (before ++ ([block] ++ behind))) (free : block.used = false) :
    Coalesced (before ++ (block.taken needed ++ behind)) := by
  rcases coalesced_append.mp coalesced with ⟨early, late, _⟩
  rcases coalesced_append.mp late with ⟨_, rest, next⟩
  unfold Block.taken
  split
  · rw [coalesced_append]
    refine ⟨early, ?_, joined_of_used rfl⟩
    rw [List.cons_append, List.singleton_append, coalesced_cons, coalesced_cons]
    constructor
    · intro right _
      exact Or.inl rfl
    · constructor
      · intro right member
        rcases next block rfl right member with used | used
        · rw [free] at used
          cases used
        · exact Or.inr used
      · exact rest
  · rw [coalesced_append]
    refine ⟨early, ?_, joined_of_used rfl⟩
    rw [List.singleton_append, coalesced_cons]
    exact ⟨fun right _ => Or.inl rfl, rest⟩

theorem head_mergeFree (block : Block) (behind : List Block) :
    ∃ size rest, mergeFree block behind = { size := size, used := block.used } :: rest ∧
      block.size ≤ size := by
  cases behind with
  | nil => exact ⟨block.size, [], rfl, Nat.le_refl _⟩
  | cons next rest =>
      cases usage : next.used with
      | true => exact ⟨block.size, next :: rest, by simp [mergeFree, usage], Nat.le_refl _⟩
      | false =>
          exact ⟨block.size + next.width, rest, by simp [mergeFree, usage], Nat.le_add_right _ _⟩

theorem Coalesced.mergeFree {behind : List Block} {block : Block} (rest : Coalesced behind) :
    Coalesced (Memory.mergeFree block behind) := by
  cases behind with
  | nil => exact List.isChain_singleton block
  | cons next later =>
      cases usage : next.used with
      | true =>
          simp only [Memory.mergeFree, usage, if_true]
          rw [coalesced_cons]
          constructor
          · intro right member
            cases member
            exact Or.inr usage
          · exact rest
      | false =>
          simp only [Memory.mergeFree, usage, Bool.false_eq_true, if_false]
          rw [coalesced_cons] at rest ⊢
          constructor
          · intro right member
            rcases rest.1 right member with used | used
            · rw [usage] at used
              cases used
            · exact Or.inr used
          · exact rest.2

theorem Coalesced.release_iff {before behind : List Block} {block : Block}
    (coalesced : Coalesced (before ++ ([block] ++ behind))) :
    Coalesced (before ++ Memory.mergeFree { block with used := false } behind) ↔
      ∀ left, left ∈ before.getLast? → left.used = true := by
  rcases coalesced_append.mp coalesced with ⟨early, late, _⟩
  have rest := (coalesced_append.mp late).2.1
  have merged := @Coalesced.mergeFree behind { block with used := false } rest
  rw [coalesced_append]
  rcases head_mergeFree { block with used := false } behind with ⟨size, tail, merge, _⟩
  rw [merge] at merged ⊢
  constructor
  · intro all left member
    rcases all.2.2 left member _ rfl with used | used
    · exact used
    · cases used
  · intro used
    refine ⟨early, merged, ?_⟩
    intro left member right _
    exact Or.inl (used left member)

theorem mergeFree_taken {behind : List Block} {block : Block} {needed : Nat}
    (coalesced : Coalesced ([block] ++ behind)) (free : block.used = false) :
    ∃ taken rest, block.taken needed = [taken] ++ rest ∧ taken.used = true ∧
      mergeFree { taken with used := false } (rest ++ behind) = block :: behind := by
  have restored : { size := block.size, used := false } = block := by
    cases block with
    | mk size used =>
        simp only at free
        rw [free]
  unfold Block.taken
  split
  · rename_i splits
    refine ⟨_, _, rfl, rfl, ?_⟩
    have whole : needed + Block.width
        { size := block.size - needed - HEADER_SIZE, used := false } = block.size := by
      simp only [Block.width]
      omega
    simp only [mergeFree, List.singleton_append, Bool.false_eq_true, if_false, whole]
    rw [restored]
  · refine ⟨_, [], rfl, rfl, ?_⟩
    rw [List.nil_append, restored]
    cases behind with
    | nil => rfl
    | cons next later =>
        have used : next.used = true := by
          rcases (coalesced_append.mp coalesced).2.2 block rfl next rfl with used | used
          · rw [free] at used
            cases used
          · exact used
        simp only [mergeFree, used, if_true]

/-! ### Runs without a growth -/

inductive AllocCall where
  | kmalloc (size : Nat)
  | kfree (ptr : Nat)

/-- The search of this call ends at a block, so the heap is not grown. -/
def Served (heap : Heap) (size : Nat) : Prop :=
  ∃ cur, findBlock heap.mem (alignUp size) LIST_STEPS heap.heapHead = .ok (some cur)

def findsBlock (heap : Heap) (size : Nat) : Bool :=
  match findBlock heap.mem (alignUp size) LIST_STEPS heap.heapHead with
  | .ok (some _) => true
  | _ => false

theorem findsBlock_iff (heap : Heap) (size : Nat) : findsBlock heap size = true ↔ Served heap size := by
  unfold findsBlock Served
  split
  · rename_i cur found
    exact ⟨fun _ => ⟨cur, found⟩, fun _ => rfl⟩
  · rename_i other
    constructor
    · intro impossible
      cases impossible
    · intro served
      rcases served with ⟨cur, found⟩
      exact absurd found (other cur)

/-- An allocation of any size that is served without a growth, or the release of a live
pointer.  The bytes recorded for a pointer are those its block was cut to. -/
def servedStep (run : HeapRun) : AllocCall → Option HeapRun
  | .kmalloc size =>
      if findsBlock run.heap size then
        match kmalloc run.heap size with
        | .error _ => none
        | .ok (ptr, heap) => some { heap := heap, live := (ptr, alignUp size) :: run.live }
      else none
  | .kfree ptr => heapStep run (.kfree ptr)

theorem servedStep_kmalloc {run next : HeapRun} {blocks : List Block} {size : Nat}
    (invariant : run.Invariant blocks) (stepped : servedStep run (.kmalloc size) = some next) :
    ∃ before block behind ptr, FirstFit (alignUp size) blocks before block behind ∧
      ptr = blocksEnd HEAP_START before + HEADER_SIZE ∧
      next.live = (ptr, alignUp size) :: run.live ∧ next.heap.vmm = run.heap.vmm ∧
      next.Invariant (before ++ (block.taken (alignUp size) ++ behind)) := by
  have laid := invariant.laid
  simp only [servedStep] at stepped
  split at stepped
  · rename_i finds
    rcases (findsBlock_iff _ _).mp finds with ⟨cur, found⟩
    have positive : 0 < size := by
      apply Nat.pos_of_ne_zero
      intro zero
      rw [kmalloc, kmallocWithin, if_neg (by simp [laid.inited]), if_pos zero] at stepped
      cases stepped
    have fits : SomeFit (alignUp size) blocks := by
      apply Classical.byContradiction
      intro absent
      rw [laid.findBlock_absent (unfit_of_not_someFit absent)] at found
      cases found
    rcases fits.first with ⟨before, block, behind, first⟩
    rcases laid.kmalloc_first positive first with ⟨after, taken, afterLaid, vmm⟩
    rw [kmalloc, taken] at stepped
    cases stepped
    have granted : Granted blocks before behind block size
        (blocksEnd HEAP_START before + HEADER_SIZE) after :=
      { source := Or.inl first.split.symm
        free := first.free
        large := first.large
        ptrEq := rfl
        laid := afterLaid }
    rcases taken_head first.large with ⟨head, rest, takenEq, used, least, _⟩
    exact ⟨before, block, behind, _, first, rfl, rfl, vmm,
      invariant.grant granted takenEq used least⟩
  · cases stepped

theorem heapStep_kfree {run next : HeapRun} {blocks : List Block} {ptr : Nat}
    (invariant : run.Invariant blocks) (stepped : heapStep run (.kfree ptr) = some next) :
    ∃ before block behind, blocks = before ++ ([block] ++ behind) ∧
      ptr = blocksEnd HEAP_START before + HEADER_SIZE ∧ block.used = true ∧
      next.live = run.live.filter (fun entry => entry.1 ≠ ptr) ∧
      next.Invariant (before ++ mergeFree { block with used := false } behind) := by
  simp only [heapStep] at stepped
  split at stepped
  · rename_i live
    rcases live with ⟨⟨pointer, size⟩, member, same⟩
    simp only at same
    subst same
    obtain ⟨before, block, behind, released, split, address, used, result, kept⟩ :=
      invariant.release member
    rw [result] at stepped
    cases stepped
    exact ⟨before, block, behind, split, address, used, rfl, kept⟩
  · cases stepped

theorem servedStep_invariant {run next : HeapRun} {blocks : List Block} {call : AllocCall}
    (invariant : run.Invariant blocks) (stepped : servedStep run call = some next) :
    ∃ remaining, next.Invariant remaining := by
  cases call with
  | kmalloc size =>
      obtain ⟨_, _, _, _, _, _, _, _, kept⟩ := servedStep_kmalloc invariant stepped
      exact ⟨_, kept⟩
  | kfree ptr =>
      obtain ⟨_, _, _, _, _, _, _, kept⟩ := heapStep_kfree invariant stepped
      exact ⟨_, kept⟩

theorem exec_servedInvariant {run final : HeapRun} {blocks : List Block} {calls : List AllocCall}
    (invariant : run.Invariant blocks)
    (reached : LabelledRun.exec servedStep run calls = some final) :
    ∃ remaining, final.Invariant remaining := by
  apply @LabelledRun.exec_invariant _ _ servedStep (fun run => ∃ blocks, run.Invariant blocks)
    _ run final calls ⟨blocks, invariant⟩ reached
  intro state call next here stepped
  obtain ⟨blocks, invariant⟩ := here
  exact servedStep_invariant invariant stepped

theorem servedStep_kfree {run : HeapRun} {before behind : List Block} {block : Block}
    {ptr granted : Nat} (invariant : run.Invariant (before ++ ([block] ++ behind)))
    (live : (ptr, granted) ∈ run.live) (address : ptr = blocksEnd HEAP_START before + HEADER_SIZE) :
    block.used = true ∧ ∃ next, servedStep run (.kfree ptr) = some next ∧
      next.live = run.live.filter (fun entry => entry.1 ≠ ptr) ∧
      next.Invariant (before ++ mergeFree { block with used := false } behind) := by
  obtain ⟨other, found, after, released, split, place, used, result, kept⟩ :=
    invariant.release live
  have sameEnd : blocksEnd HEAP_START before = blocksEnd HEAP_START other := by omega
  rcases Tiling.split_unique Block.width_pos split sameEnd with ⟨rfl, rfl, rfl⟩
  have found : ∃ entry ∈ run.live, entry.1 = ptr := ⟨_, live, rfl⟩
  refine ⟨used, { heap := released, live := run.live.filter (fun entry => entry.1 ≠ ptr) }, ?_,
    rfl, kept⟩
  simp only [servedStep, heapStep, if_pos found, result]

/-! ### Releases in reverse order -/

theorem filter_released {live : List (Nat × Nat)} {ptr granted : Nat}
    (distinct : ((ptr, granted) :: live).Pairwise (fun left right => left.1 ≠ right.1)) :
    ((ptr, granted) :: live).filter (fun entry => entry.1 ≠ ptr) = live := by
  rw [List.pairwise_cons] at distinct
  have kept : live.filter (fun entry => entry.1 ≠ ptr) = live := by
    rw [List.filter_eq_self]
    intro entry member
    simpa using Ne.symm (distinct.1 entry member)
  simpa using kept

/-- The induction is on the sizes; the list after the first allocation is coalesced, so
the rest is undone first, and then the first release finds its block as it left it. -/
theorem released_in_reverse {run full : HeapRun} {blocks : List Block} {sizes : List Nat}
    (invariant : run.Invariant blocks) (coalesced : Coalesced blocks)
    (reached : LabelledRun.exec servedStep run (sizes.map AllocCall.kmalloc) = some full) :
    ∃ added restored, full.live = added ++ run.live ∧ added.length = sizes.length ∧
      LabelledRun.exec servedStep full
        (added.map (fun entry => AllocCall.kfree entry.1)) = some restored ∧
      restored.live = run.live ∧ restored.Invariant blocks := by
  induction sizes generalizing run blocks with
  | nil =>
      cases reached
      exact ⟨[], full, rfl, rfl, rfl, rfl, invariant⟩
  | cons size rest ih =>
      obtain ⟨next, stepped, continued⟩ := LabelledRun.exec_cons_eq_some.mp reached
      obtain ⟨before, block, behind, ptr, first, address, live, _, kept⟩ :=
        servedStep_kmalloc invariant stepped
      have split := first.split
      subst split
      obtain ⟨added, middle, fullLive, count, undone, middleLive, middleKept⟩ :=
        ih kept (coalesced.taken first.free) continued
      have late := (coalesced_append.mp coalesced).2.1
      obtain ⟨taken, remainder, takenEq, _, restores⟩ :=
        @mergeFree_taken behind block (alignUp size) late first.free
      rw [takenEq, List.append_assoc] at middleKept
      rw [live] at fullLive middleLive
      have member : (ptr, alignUp size) ∈ middle.live := by
        rw [middleLive]
        exact List.mem_cons_self ..
      obtain ⟨_, restored, freed, restoredLive, restoredKept⟩ :=
        servedStep_kfree middleKept member address
      rw [restores] at restoredKept
      have distinct := middleKept.distinct
      rw [middleLive] at distinct restoredLive
      rw [filter_released distinct] at restoredLive
      refine ⟨added ++ [(ptr, alignUp size)], restored, ?_, ?_, ?_, restoredLive, restoredKept⟩
      · rw [fullLive, List.append_assoc]
        rfl
      · rw [List.length_append, count]
        rfl
      · rw [List.map_append, LabelledRun.exec_append_eq_some]
        exact ⟨middle, undone, LabelledRun.exec_cons_eq_some.mpr ⟨restored, freed, rfl⟩⟩

/-- Allocations that are served one after another without a growth, undone in reverse
order, leave the block list as it was. -/
theorem kfree_in_reverse_restores {heap : Heap} {blocks : List Block} {sizes : List Nat}
    {full : HeapRun} (laid : Laid heap blocks) (coalesced : Coalesced blocks)
    (served : LabelledRun.exec servedStep { heap := heap, live := [] }
      (sizes.map AllocCall.kmalloc) = some full) :
    full.live.length = sizes.length ∧
    ∃ restored, LabelledRun.exec servedStep full
        (full.live.map (fun entry => AllocCall.kfree entry.1)) = some restored ∧
      Laid restored.heap blocks ∧ kmallocDump restored.heap = kmallocDump heap ∧
      ∀ hdr, hdr ∈ headersOf HEAP_START blocks →
        readMagic restored.heap.mem hdr = readMagic heap.mem hdr := by
  obtain ⟨added, restored, live, count, undone, _, kept⟩ :=
    released_in_reverse ⟨laid, by simp, List.Pairwise.nil⟩ coalesced served
  rw [List.append_nil] at live
  rw [live]
  refine ⟨count, restored, undone, kept.laid, ?_, ?_⟩
  · rw [kept.laid.kmallocDump, laid.kmallocDump]
  · intro hdr member
    obtain ⟨⟨found, block⟩, placed, same⟩ := List.mem_map.mp member
    simp only at same
    subst same
    obtain ⟨_, header⟩ := laid.chain.header placed
    obtain ⟨_, restoredHeader⟩ := kept.laid.chain.header placed
    rw [header.magic, restoredHeader.magic]

/-- Three allocations in a heap of one page, undone in reverse. -/
theorem freshHeap_restored :
    ∃ heap full restored, kmallocInit freshHeap HEAP_START 4096 = .ok heap ∧
      LabelledRun.exec servedStep { heap := heap, live := [] }
        ([100, 40, 2000].map AllocCall.kmalloc) = some full ∧
      LabelledRun.exec servedStep full
        (full.live.map (fun entry => AllocCall.kfree entry.1)) = some restored ∧
      Laid restored.heap [{ size := 4072, used := false }] := by
  obtain ⟨heap, full, started, served⟩ := @freshHeap_reaches _ (fun heap =>
    LabelledRun.exec servedStep { heap := heap, live := [] }
      ([100, 40, 2000].map AllocCall.kmalloc)) (by decide +kernel)
  have laid : Laid heap [{ size := 4072, used := false }] :=
    kmallocInit_first (by decide) started
  obtain ⟨_, restored, undone, restoredLaid, _⟩ :=
    @kfree_in_reverse_restores heap _ [100, 40, 2000] full laid (List.isChain_singleton _)
      served
  exact ⟨heap, full, restored, started, served, undone, restoredLaid⟩

/-! ### Releases in any order -/

/-- The block listed right before the one being released is not free. -/
def FollowsUsed (run : HeapRun) (call : AllocCall) : Prop :=
  ∀ ptr, call = .kfree ptr → ∀ before block behind,
    Laid run.heap (before ++ ([block] ++ behind)) →
      ptr = blocksEnd HEAP_START before + HEADER_SIZE →
        ∀ left, left ∈ before.getLast? → left.used = true

theorem servedStep_coalesced {run next : HeapRun} {blocks : List Block} {call : AllocCall}
    (invariant : run.Invariant blocks) (coalesced : Coalesced blocks)
    (stepped : servedStep run call = some next) :
    ∃ remaining, next.Invariant remaining ∧ (Coalesced remaining ↔ FollowsUsed run call) := by
  cases call with
  | kmalloc size =>
      obtain ⟨before, block, behind, _, first, _, _, _, kept⟩ :=
        servedStep_kmalloc invariant stepped
      refine ⟨_, kept, ?_⟩
      have split := first.split
      subst split
      constructor
      · intro _ ptr impossible
        cases impossible
      · intro _
        exact coalesced.taken first.free
  | kfree ptr =>
      obtain ⟨before, block, behind, split, address, _, _, kept⟩ :=
        heapStep_kfree invariant stepped
      refine ⟨_, kept, ?_⟩
      subst split
      rw [coalesced.release_iff]
      constructor
      · intro used pointer same other found after otherLaid place left member
        cases same
        have lists := invariant.laid.unique otherLaid
        have sameEnd : blocksEnd HEAP_START before = blocksEnd HEAP_START other := by omega
        rcases Tiling.split_unique Block.width_pos lists sameEnd with ⟨rfl, _, _⟩
        exact used left member
      · intro follows
        exact follows ptr rfl before block behind invariant.laid address

def FullyCoalesced (run : HeapRun) : Prop :=
  ∃ blocks, run.Invariant blocks ∧ Coalesced blocks

theorem fullyCoalesced_step {run next : HeapRun} {call : AllocCall}
    (coalesced : FullyCoalesced run) (stepped : servedStep run call = some next) :
    FullyCoalesced next ↔ FollowsUsed run call := by
  rcases coalesced with ⟨blocks, invariant, holds⟩
  obtain ⟨remaining, kept, exactly⟩ := servedStep_coalesced invariant holds stepped
  rw [← exactly]
  constructor
  · intro after
    rcases after with ⟨other, otherKept, otherHolds⟩
    rw [kept.laid.unique otherKept.laid]
    exact otherHolds
  · intro here
    exact ⟨remaining, kept, here⟩

/-- The run lemma: every state passed is coalesced just if every release is of a block
that follows no free one. -/
theorem fullyCoalesced_iff_guarded {run final : HeapRun} {calls : List AllocCall}
    (coalesced : FullyCoalesced run)
    (reached : LabelledRun.exec servedStep run calls = some final) :
    (∀ first second middle, calls = first ++ second →
      LabelledRun.exec servedStep run first = some middle → FullyCoalesced middle) ↔
      LabelledRun.Guarded servedStep FollowsUsed run calls := by
  apply LabelledRun.passed_iff_guarded _ (fun _ holds => holds) _ coalesced reached
  · intro state call next holds follows stepped
    exact (fullyCoalesced_step holds stepped).mpr follows
  · intro state call next holds stepped after
    exact (fullyCoalesced_step holds stepped).mp after

/-- Two live neighbours released from right to left leave one hole for both; released
from left to right they stay two free blocks. -/
theorem release_neighbours {run : HeapRun} {before behind : List Block} {left right : Block}
    {leftPtr rightPtr leftGranted rightGranted : Nat}
    (invariant : run.Invariant (before ++ ([left] ++ ([right] ++ behind))))
    (leftLive : (leftPtr, leftGranted) ∈ run.live)
    (rightLive : (rightPtr, rightGranted) ∈ run.live)
    (leftAddress : leftPtr = blocksEnd HEAP_START before + HEADER_SIZE)
    (rightAddress : rightPtr = blocksEnd HEAP_START (before ++ [left]) + HEADER_SIZE) :
    (∃ freed hole rest,
      LabelledRun.exec servedStep run [.kfree rightPtr, .kfree leftPtr] = some freed ∧
      freed.Invariant (before ++ ([hole] ++ rest)) ∧ hole.used = false ∧
      left.size + HEADER_SIZE + right.size ≤ hole.size) ∧
    ∃ freed, LabelledRun.exec servedStep run [.kfree leftPtr, .kfree rightPtr] = some freed ∧
      freed.Invariant (before ++ ([{ left with used := false }] ++
        mergeFree { right with used := false } behind)) := by
  have leftEnd : blocksEnd HEAP_START (before ++ [left]) =
      blocksEnd HEAP_START before + left.width := by simp
  have different : leftPtr ≠ rightPtr := by
    have positive := left.width_pos
    rw [leftEnd] at rightAddress
    omega
  have rightPlace : run.Invariant ((before ++ [left]) ++ ([right] ++ behind)) := by
    rw [List.append_assoc]
    exact invariant
  constructor
  · obtain ⟨_, once, freedRight, onceLive, onceKept⟩ :=
      servedStep_kfree rightPlace rightLive rightAddress
    have stillLive : (leftPtr, leftGranted) ∈ once.live := by
      rw [onceLive, List.mem_filter]
      exact ⟨leftLive, by simpa using different⟩
    rw [List.append_assoc] at onceKept
    obtain ⟨_, twice, freedLeft, _, twiceKept⟩ := servedStep_kfree onceKept stillLive leftAddress
    obtain ⟨size, rest, merged, enough⟩ := head_mergeFree { right with used := false } behind
    rw [merged] at twiceKept
    refine ⟨twice, _, rest, ?_, twiceKept, rfl, ?_⟩
    · exact LabelledRun.exec_cons_eq_some.mpr
        ⟨once, freedRight, LabelledRun.exec_cons_eq_some.mpr ⟨twice, freedLeft, rfl⟩⟩
    · simp only [Block.width] at enough ⊢
      omega
  · obtain ⟨_, once, freedLeft, onceLive, onceKept⟩ :=
      servedStep_kfree invariant leftLive leftAddress
    have stillLive : (rightPtr, rightGranted) ∈ once.live := by
      rw [onceLive, List.mem_filter]
      exact ⟨rightLive, by simpa using different.symm⟩
    have rightUsed := (servedStep_kfree rightPlace rightLive rightAddress).1
    simp only [List.singleton_append, mergeFree, rightUsed, if_true] at onceKept
    have apart : once.Invariant
        ((before ++ [{ left with used := false }]) ++ ([right] ++ behind)) := by
      rw [List.append_assoc]
      exact onceKept
    obtain ⟨_, twice, freedRight, _, twiceKept⟩ :=
      servedStep_kfree apart stillLive (by
        rw [rightAddress]
        simp only [blocksEnd, Tiling.stop_append, Tiling.stop_cons, Tiling.stop_nil, Block.width])
    rw [List.append_assoc] at twiceKept
    refine ⟨twice, ?_, twiceKept⟩
    exact LabelledRun.exec_cons_eq_some.mpr
      ⟨once, freedLeft, LabelledRun.exec_cons_eq_some.mpr ⟨twice, freedRight, rfl⟩⟩

/-- From `kmalloc_init` on, no state passed has two free neighbours just if every release
is of a block that does not follow a free one.  In particular two live neighbours leave a
hole for the sum of their sizes when the right one is released first; when the left one
is released first they stay two free blocks. -/
theorem coalesced_iff_follows_used {before heap : Heap} {n : Nat} {calls : List AllocCall}
    {final : HeapRun} (started : kmallocInit before HEAP_START n = .ok heap)
    (rounded : (n + 4095) / PAGE_SIZE * PAGE_SIZE ≤ HEAP_MAX_SIZE)
    (reached : LabelledRun.exec servedStep { heap := heap, live := [] } calls = some final) :
    ((∀ first second middle, calls = first ++ second →
      LabelledRun.exec servedStep { heap := heap, live := [] } first = some middle →
        ∃ blocks, Laid middle.heap blocks ∧ Coalesced blocks) ↔
      LabelledRun.Guarded servedStep FollowsUsed { heap := heap, live := [] } calls) ∧
    ∀ early left right behind leftPtr rightPtr leftGranted rightGranted,
      Laid final.heap (early ++ ([left] ++ ([right] ++ behind))) →
      (leftPtr, leftGranted) ∈ final.live → (rightPtr, rightGranted) ∈ final.live →
      leftPtr = blocksEnd HEAP_START early + HEADER_SIZE →
      rightPtr = blocksEnd HEAP_START (early ++ [left]) + HEADER_SIZE →
      (∃ freed hole rest,
        LabelledRun.exec servedStep final [.kfree rightPtr, .kfree leftPtr] = some freed ∧
        Laid freed.heap (early ++ ([hole] ++ rest)) ∧ hole.used = false ∧
        alignUp (left.size + right.size) ≤ hole.size ∧
        Served freed.heap (left.size + right.size)) ∧
      ∃ freed,
        LabelledRun.exec servedStep final [.kfree leftPtr, .kfree rightPtr] = some freed ∧
        Laid freed.heap (early ++ ([{ left with used := false }] ++
          mergeFree { right with used := false } behind)) := by
  obtain ⟨size, initial⟩ := kmallocInit_laid rounded started
  have invariant : HeapRun.Invariant { heap := heap, live := [] }
      [{ size := size, used := false }] := ⟨initial, by simp, List.Pairwise.nil⟩
  have coalesced : FullyCoalesced { heap := heap, live := [] } :=
    ⟨_, invariant, List.isChain_singleton _⟩
  constructor
  · rw [← fullyCoalesced_iff_guarded coalesced reached]
    constructor
    · intro passed first second middle split ran
      rcases passed first second middle split ran with ⟨blocks, laid, holds⟩
      rcases exec_servedInvariant invariant ran with ⟨other, kept⟩
      have same := laid.unique kept.laid
      subst same
      exact ⟨blocks, kept, holds⟩
    · intro passed first second middle split ran
      rcases passed first second middle split ran with ⟨blocks, kept, holds⟩
      exact ⟨blocks, kept.laid, holds⟩
  · intro early left right behind leftPtr rightPtr leftGranted rightGranted laid leftLive
      rightLive leftAddress rightAddress
    rcases exec_servedInvariant invariant reached with ⟨other, kept⟩
    have same := kept.laid.unique laid
    subst same
    obtain ⟨⟨freed, hole, rest, ran, holed, free, enough⟩, apart⟩ :=
      release_neighbours kept leftLive rightLive leftAddress rightAddress
    constructor
    · have member : hole ∈ early ++ ([hole] ++ rest) := by simp
      have bound := holed.laid.size_le member
      have fits : alignUp (left.size + right.size) ≤ hole.size := by
        have words : Word64.modulus = 2 ^ 64 := rfl
        have header : HEADER_SIZE = 24 := rfl
        have largest : HEAP_MAX_SIZE = 67108864 := rfl
        have rounded := le_alignUp
          (by unfold ALIGN; omega : left.size + right.size + ALIGN < Word64.modulus)
        omega
      refine ⟨freed, hole, rest, ran, holed.laid, free, fits, ?_⟩
      have some_ : SomeFit (alignUp (left.size + right.size)) (early ++ ([hole] ++ rest)) :=
        ⟨hole, member, free, fits⟩
      rcases some_.first with ⟨before, block, after, first⟩
      exact ⟨_, holed.laid.findBlock_first first⟩
    · rcases apart with ⟨freed, ran, kept⟩
      exact ⟨freed, ran, kept.laid⟩

def usedFlags (heap : Heap) : Option (List Bool) :=
  (kmallocDump heap).toOption.map (fun lines => lines.map DumpLine.used)

theorem Laid.usedFlags {heap : Heap} {blocks : List Block} (laid : Laid heap blocks) :
    usedFlags heap = some (blocks.map Block.used) := by
  have flags (addr : Nat) (list : List Block) :
      (dumpOf addr list).map DumpLine.used = list.map Block.used := by
    induction list generalizing addr with
    | nil => rfl
    | cons block rest ih => exact congrArg (List.cons block.used) (ih (addr + block.width))
  rw [Memory.usedFlags, laid.kmallocDump]
  exact congrArg some (flags HEAP_START blocks)

/-- The release is of the first block, or while every block is used. -/
def releasesBehindUsed (run : HeapRun) : AllocCall → Bool
  | .kmalloc _ => true
  | .kfree ptr =>
      ptr == HEAP_START + HEADER_SIZE || (usedFlags run.heap).any (fun flags => flags.all id)

theorem followsUsed_of_releasesBehindUsed {run : HeapRun} {call : AllocCall}
    (releases : releasesBehindUsed run call = true) : FollowsUsed run call := by
  rintro ptr rfl before block behind laid address left last
  have member : left ∈ before := List.mem_of_getLast? last
  simp only [releasesBehindUsed, Bool.or_eq_true, beq_iff_eq] at releases
  rcases releases with first | used
  · -- nothing lies before the first block
    obtain ⟨early, late, rfl⟩ := List.append_of_mem member
    rw [address] at first
    simp only [blocksEnd, Tiling.stop_append, Tiling.stop_cons] at first
    have start : HEAP_START ≤ Tiling.stop Block.width HEAP_START early :=
      Tiling.base_le_stop _ _
    have stop : Tiling.stop Block.width HEAP_START early + left.width ≤
        Tiling.stop Block.width (Tiling.stop Block.width HEAP_START early + left.width) late :=
      Tiling.base_le_stop _ _
    have positive := left.width_pos
    omega
  · rw [laid.usedFlags] at used
    simp only [Option.any_some, List.all_map, List.all_eq_true] at used
    exact used left (List.mem_append_left _ member)

/-- Two neighbours are released from right to left, and 2048 bytes fit in their hole. -/
theorem freshHeap_coalesced :
    ∃ heap final, kmallocInit freshHeap HEAP_START 4096 = .ok heap ∧
      LabelledRun.exec servedStep { heap := heap, live := [] }
        [.kmalloc 1024, .kmalloc 1024, .kmalloc 1968, .kfree 0xffff800100000430,
          .kfree 0xffff800100000018] = some final ∧
      (∃ blocks, Laid final.heap blocks ∧ Coalesced blocks) ∧
      Served final.heap (1024 + 1024) := by
  let calls : List AllocCall :=
    [.kmalloc 1024, .kmalloc 1024, .kmalloc 1968, .kfree 0xffff800100000430,
      .kfree 0xffff800100000018]
  obtain ⟨heap, started, computed⟩ := @freshHeap_computes _ (fun heap =>
      (LabelledRun.exec servedStep { heap := heap, live := [] } calls).map (fun final =>
        (decide (LabelledRun.Guarded servedStep
          (fun run call => releasesBehindUsed run call = true) { heap := heap, live := [] } calls),
          findsBlock final.heap (1024 + 1024))))
      (true, true) (by decide +kernel)
  obtain ⟨final, reached, observed⟩ := Option.map_eq_some_iff.mp computed
  rw [Prod.mk.injEq, decide_eq_true_eq] at observed
  have guarded : LabelledRun.Guarded servedStep FollowsUsed { heap := heap, live := [] } calls :=
    observed.1.mono fun _ _ => followsUsed_of_releasesBehindUsed
  exact ⟨heap, final, started, reached,
    ((coalesced_iff_follows_used started (by decide) reached).1.mpr guarded)
      calls [] final rfl reached, (findsBlock_iff final.heap (1024 + 1024)).mp observed.2⟩

/-- Two neighbours of 1024 bytes and a third block for the rest of the page; the first
neighbour is released before the second. -/
def freshHeapNeighbours : List AllocCall :=
  [.kmalloc 1024, .kmalloc 1024, .kmalloc 1968, .kfree 0xffff800100000018,
    .kfree 0xffff800100000430]

theorem not_coalesced_of_flags {blocks : List Block} {rest : List Bool}
    (flags : blocks.map Block.used = false :: false :: rest) : ¬ Coalesced blocks := by
  intro coalesced
  cases blocks with
  | nil => cases flags
  | cons first others =>
      cases others with
      | nil => simp at flags
      | cons second later =>
          simp only [List.map_cons, List.cons.injEq] at flags
          rcases (coalesced_cons.mp coalesced).1 second rfl with used | used
          · rw [flags.1] at used
            cases used
          · rw [flags.2.1] at used
            cases used

/-- Released from left to right the neighbours stay apart, and 2048 bytes do not fit. -/
theorem freshHeap_neighbours_apart :
    ∃ heap final, kmallocInit freshHeap HEAP_START 4096 = .ok heap ∧
      LabelledRun.exec servedStep { heap := heap, live := [] } freshHeapNeighbours = some final ∧
      (¬ ∃ blocks, Laid final.heap blocks ∧ Coalesced blocks) ∧
      ¬ Served final.heap (1024 + 1024) := by
  obtain ⟨heap, started, computed⟩ := @freshHeap_computes _ (fun heap =>
      (LabelledRun.exec servedStep { heap := heap, live := [] } freshHeapNeighbours).map
        (fun final => (usedFlags final.heap, findsBlock final.heap (1024 + 1024))))
      (some [false, false, true], false) (by decide +kernel)
  obtain ⟨final, reached, observed⟩ := Option.map_eq_some_iff.mp computed
  rw [Prod.mk.injEq] at observed
  refine ⟨heap, final, started, reached, ?_, ?_⟩
  · intro coalesced
    rcases coalesced with ⟨blocks, laid, holds⟩
    have flags := laid.usedFlags.symm.trans observed.1
    exact not_coalesced_of_flags (Option.some.inj flags) holds
  · intro served
    have found := (findsBlock_iff final.heap (1024 + 1024)).mpr served
    exact Bool.false_ne_true (observed.2.symm.trans found)

end CustomKernel.Memory
