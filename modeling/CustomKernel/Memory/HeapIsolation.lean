/-
Client data and allocator metadata share one memory.

The allocator writes headers into free blocks and behind the window only, so no call
changes a byte of an allocated payload.  In the other direction every decision of the
allocator is a function of the block list, which a client's stores do not change: a run
and the same run without its stores go through the same block lists.
-/

import CustomKernel.Memory.BlockHeap

set_option autoImplicit false

namespace CustomKernel.Memory

/-! ### The allocator's writes -/

/-- Outside the headers of the list the two memories agree. -/
def WritesHeaders (blocks : List Block) (mem other : ByteStore.Store) : Prop :=
  ∀ byte, (∀ hdr, hdr ∈ headersOf HEAP_START blocks → byte < hdr ∨ hdr + HEADER_SIZE ≤ byte) →
    other byte = mem byte

theorem headersOf_append (addr : Nat) (before behind : List Block) :
    headersOf addr (before ++ behind) =
      headersOf addr before ++ headersOf (blocksEnd addr before) behind := by
  simp only [headersOf, placedBlocks, Tiling.placed_append, List.map_append]

theorem header_behind (addr : Nat) (before : List Block) (block : Block) (behind : List Block) :
    blocksEnd addr before ∈ headersOf addr (before ++ (block :: behind)) := by
  rw [headersOf_append, List.mem_append]
  exact Or.inr (List.mem_cons_self ..)

theorem header_taken {needed hdr : Nat} {before behind : List Block} {block : Block}
    (member : hdr ∈ headersOf HEAP_START (before ++ ([block] ++ behind))) :
    hdr ∈ headersOf HEAP_START (before ++ (block.taken needed ++ behind)) := by
  rw [headersOf_append, headersOf_append, List.mem_append, List.mem_append] at member ⊢
  rcases member with early | here | late
  · exact Or.inl early
  · right
    left
    rw [List.mem_singleton.mp here]
    unfold Block.taken
    split
    · exact List.mem_cons_self ..
    · exact List.mem_cons_self ..
  · right
    right
    rw [Block.taken_extent]
    exact late

theorem Laid.takeBlock_writes {heap : Heap} {before behind : List Block} {block : Block}
    {needed : Nat} (laid : Laid heap (before ++ ([block] ++ behind))) (large : needed ≤ block.size) :
    WritesHeaders (before ++ (block.taken needed ++ behind)) heap.mem
      (takeBlock heap.mem needed (blocksEnd HEAP_START before)) := by
  intro byte apart
  have placed : (blocksEnd HEAP_START before, block) ∈
      placedBlocks HEAP_START (before ++ ([block] ++ behind)) := by
    simp [Tiling.placed]
  have bounds := Tiling.placed_bounds placed
  have header := (chain_split.mp laid.chain).2.1.1
  have high : ALIGN ≤ blocksEnd HEAP_START before := Nat.le_trans (by decide) bounds.1
  have first := apart _ (header_taken (header_behind HEAP_START before block behind))
  rw [takeBlock_eq header large high (Nat.lt_of_le_of_lt bounds.2 laid.fits),
    writeMagic_outside first, writeUsed_outside first]
  by_cases splits : needed + HEADER_SIZE + ALIGN < block.size
  · have second : blocksEnd HEAP_START before + HEADER_SIZE + needed ∈
        headersOf HEAP_START (before ++ (block.taken needed ++ behind)) := by
      have place : blocksEnd HEAP_START before + Block.width { size := needed, used := true } =
          blocksEnd HEAP_START before + HEADER_SIZE + needed := by
        simp only [Block.width]
        omega
      rw [headersOf_append, List.mem_append, Block.taken, if_pos splits, ← place]
      exact Or.inr (List.mem_cons_of_mem _ (List.mem_cons_self ..))
    rw [if_pos splits, writeSize_outside first, writeNext_outside first,
      writeHeader_outside (apart _ second)]
  · rw [if_neg splits]

theorem Laid.expandHeap_writes {heap grown : Heap} {blocks : List Block} {needed : Nat}
    (laid : Laid heap blocks)
    (expanded : expandHeap heap needed = .ok grown) (added : Block) :
    WritesHeaders (blocks ++ [added]) heap.mem grown.mem := by
  obtain ⟨before, last, split⟩ := (List.eq_nil_or_concat blocks).resolve_left laid.nonempty
  rw [List.concat_eq_append] at split
  intro byte apart
  have new := apart _ (header_behind HEAP_START blocks added [])
  rw [laid.reaches] at new
  have linked : byte < blocksEnd HEAP_START before ∨
      blocksEnd HEAP_START before + HEADER_SIZE ≤ byte := by
    apply apart
    rw [split, List.append_assoc]
    exact header_behind HEAP_START before last _
  subst split
  simp only [expandHeap] at expanded
  split at expanded
  · cases expanded
  · obtain ⟨vmm, _, expanded⟩ := bind_eq_ok.mp expanded
    obtain ⟨cur, search, result⟩ := bind_eq_ok.mp expanded
    rw [laid.lastBlock_eq] at search
    cases search
    cases result
    dsimp only
    rw [writeNext_outside linked, writeHeader_outside new]

def PayloadsKept (blocks : List Block) (mem other : ByteStore.Store) : Prop :=
  ∀ ptr size, Owned blocks ptr size → ∀ byte, ptr ≤ byte → byte < ptr + size →
    other byte = mem byte

theorem WritesHeaders.keeps {blocks : List Block} {mem other : ByteStore.Store}
    (writes : WritesHeaders blocks mem other) : PayloadsKept blocks mem other := by
  intro ptr size owned byte lower upper
  apply writes byte
  intro hdr member
  have apart := owned.apart_header member
  omega

theorem Laid.takeBlock_kept {heap : Heap} {before behind : List Block} {block : Block}
    {needed : Nat} (laid : Laid heap (before ++ ([block] ++ behind))) (free : block.used = false)
    (large : needed ≤ block.size) :
    PayloadsKept (before ++ ([block] ++ behind)) heap.mem
      (takeBlock heap.mem needed (blocksEnd HEAP_START before)) := by
  intro ptr size owned
  apply (laid.takeBlock_writes large).keeps ptr size
  apply owned.replace _ (Block.taken_extent _)
  intro hdr only placed used
  cases List.mem_singleton.mp placed
  rw [free] at used
  cases used

theorem Laid.expandHeap_kept {heap grown : Heap} {blocks : List Block} {needed : Nat}
    (laid : Laid heap blocks) (expanded : expandHeap heap needed = .ok grown) :
    PayloadsKept blocks heap.mem grown.mem := by
  intro ptr size owned
  exact (laid.expandHeap_writes expanded { size := 0, used := false }).keeps ptr size owned.append

theorem kmallocWithin_kept {heap after : Heap} {blocks : List Block} {calls size ptr : Nat}
    (laid : Laid heap blocks) (positive : 0 < size) (small : size < 2 ^ 63)
    (allocated : kmallocWithin calls heap size = .ok (ptr, after)) :
    PayloadsKept blocks heap.mem after.mem := by
  induction calls generalizing heap blocks with
  | zero => cases allocated
  | succ calls ih =>
      have words : Word64.modulus = 2 ^ 64 := rfl
      have rounded := le_alignUp (by unfold ALIGN; omega : size + ALIGN < Word64.modulus)
      have search := @findBlock_spec _ _ (alignUp size) _ _ laid.chain (by decide) laid.length_lt
      rw [laid.linkTo_head] at search
      rcases search with ⟨absent, _⟩ | ⟨before, block, behind, split, free, large, _, found⟩
      · rw [kmallocWithin_none laid.inited positive absent] at allocated
        obtain ⟨grown, expanded, continued⟩ := bind_eq_ok.mp allocated
        obtain ⟨added, _, grownLaid⟩ := expandHeap_laid laid (by omega) expanded
        intro pointer length owned byte lower upper
        have later := ih grownLaid continued pointer length owned.append byte lower upper
        exact later.trans (laid.expandHeap_kept expanded pointer length owned byte lower upper)
      · subst split
        have result := (@kmallocWithin_found _ _ _ _ _ calls laid positive large found).1
        rw [result] at allocated
        cases allocated
        exact laid.takeBlock_kept free large

theorem coalesce_outside {mem : ByteStore.Store} {cur byte : Nat}
    (outside : byte < cur ∨ cur + HEADER_SIZE ≤ byte) : coalesce mem cur byte = mem byte := by
  simp only [coalesce]
  split
  · rfl
  · split
    · rfl
    · rw [writeNext_outside outside, writeSize_outside outside]

theorem kfree_outside {heap released : Heap} {ptr byte : Nat} (freed : kfree heap ptr = .ok released)
    (outside : byte < Word64.sub ptr HEADER_SIZE ∨ Word64.sub ptr HEADER_SIZE + HEADER_SIZE ≤ byte) :
    released.mem byte = heap.mem byte := by
  simp only [kfree] at freed
  split at freed
  · cases freed
    rfl
  · split at freed
    · cases freed
    · split at freed
      · cases freed
      · split at freed
        · cases freed
        · cases freed
          dsimp only
          rw [coalesce_outside outside, writeMagic_outside outside, writeUsed_outside outside]

theorem Owned.header {heap : Heap} {blocks : List Block} {ptr size : Nat} (laid : Laid heap blocks)
    (owned : Owned blocks ptr size) :
    Word64.sub ptr HEADER_SIZE ∈ headersOf HEAP_START blocks := by
  have inside := owned.inside.2
  have fits := laid.fits
  obtain ⟨hdr, block, placed, ptrEq, _, _⟩ := owned
  have back : Word64.sub ptr HEADER_SIZE = hdr := by
    rw [Word64.sub_eq (by omega) (by omega)]
    omega
  rw [back]
  exact List.mem_map.mpr ⟨_, placed, rfl⟩

theorem Laid.kfree_kept {heap released : Heap} {blocks : List Block} {ptr size : Nat}
    (laid : Laid heap blocks) (owned : Owned blocks ptr size)
    (freed : kfree heap ptr = .ok released) : PayloadsKept blocks heap.mem released.mem := by
  intro pointer length other byte lower upper
  have apart := other.apart_header (owned.header laid)
  exact kfree_outside freed (by omega)

/-! ### The bytes determine the list -/

theorem HeaderAt.block_eq {mem : ByteStore.Store} {hdr leftNext rightNext : Nat}
    {left right : Block} (leftHeader : HeaderAt mem hdr left leftNext)
    (rightHeader : HeaderAt mem hdr right rightNext) : left = right := by
  have size : left.size = right.size := leftHeader.size.symm.trans rightHeader.size
  have used := leftHeader.used.symm.trans rightHeader.used
  cases left with
  | mk leftSize leftUsed =>
      cases right with
      | mk rightSize rightUsed =>
          simp only at size
          subst size
          cases leftUsed with
          | false =>
              cases rightUsed with
              | false => rfl
              | true => cases used
          | true =>
              cases rightUsed with
              | false => cases used
              | true => rfl

theorem Chain.unique {mem : ByteStore.Store} {addr : Nat} {left right : List Block}
    (leftChain : Chain mem 0 addr left) (rightChain : Chain mem 0 addr right) (high : 0 < addr)
    (links : linkTo left addr 0 = linkTo right addr 0) : left = right := by
  induction left generalizing addr right with
  | nil =>
      cases right with
      | nil => rfl
      | cons block rest =>
          have null : 0 = addr := links
          omega
  | cons block rest ih =>
      cases right with
      | nil =>
          have null : addr = 0 := links
          omega
      | cons other others =>
          have same := leftChain.1.block_eq rightChain.1
          subst same
          have next := leftChain.1.next.symm.trans rightChain.1.next
          rw [ih leftChain.2 rightChain.2 (Nat.lt_of_lt_of_le high (Nat.le_add_right _ _)) next]

theorem Laid.unique {heap : Heap} {left right : List Block} (leftLaid : Laid heap left)
    (rightLaid : Laid heap right) : left = right :=
  leftLaid.chain.unique rightLaid.chain (by decide)
    (leftLaid.linkTo_head.trans rightLaid.linkTo_head.symm)

/-! ### The dump of a list -/

def dumpOf (addr : Nat) (blocks : List Block) : List DumpLine :=
  (placedBlocks addr blocks).map
    (fun placed => { addr := placed.1, size := placed.2.size, used := placed.2.used })

theorem Chain.dumpLines {mem : ByteStore.Store} {addr steps : Nat} {blocks : List Block}
    (chain : Chain mem 0 addr blocks) (high : 0 < addr) (enough : blocks.length < steps) :
    dumpLines mem steps (linkTo blocks addr 0) = .ok (dumpOf addr blocks) := by
  induction blocks generalizing addr steps with
  | nil =>
      cases steps with
      | zero => simp at enough
      | succ steps => rfl
  | cons block rest ih =>
      cases steps with
      | zero => simp at enough
      | succ steps =>
          obtain ⟨header, later⟩ := chain
          have notNull : addr ≠ 0 := by omega
          have tail := ih later (Nat.lt_of_lt_of_le high (Nat.le_add_right _ _))
            (Nat.lt_of_succ_lt_succ enough)
          rw [linkTo, Memory.dumpLines, if_neg notNull, header.next, tail, ok_bind, header.size,
            header.used]
          have flag : decide ((if block.used = true then 1 else 0) ≠ 0) = block.used := by
            cases block.used <;> rfl
          rw [flag]
          rfl

theorem Laid.kmallocDump {heap : Heap} {blocks : List Block} (laid : Laid heap blocks) :
    kmallocDump heap = .ok (dumpOf HEAP_START blocks) := by
  rw [Memory.kmallocDump, ← laid.linkTo_head]
  exact laid.chain.dumpLines (by decide) laid.length_lt

/-! ### Runs on the block list -/

structure BlockRun where
  heap : BlockHeap
  live : List (Nat × Nat)

/-- A call on the block list; a store into a live payload changes nothing. -/
def blockStep (run : BlockRun) : HeapCall → Option BlockRun
  | .kmalloc size =>
      if 0 < size ∧ size < 2 ^ 63 then
        match run.heap.kmalloc size with
        | .error _ => none
        | .ok (ptr, heap) => some { heap := heap, live := (ptr, size) :: run.live }
      else none
  | .kfree ptr =>
      if ∃ entry ∈ run.live, entry.1 = ptr then
        some
          { heap := run.heap.kfree ptr, live := run.live.filter (fun entry => entry.1 ≠ ptr) }
      else none
  | .store address _ =>
      if ∃ entry ∈ run.live, entry.1 ≤ address ∧ address < entry.1 + entry.2 then some run
      else none

structure HeapRun.Simulates (run : HeapRun) (abstract : BlockRun) : Prop where
  holds : run.heap.Holds abstract.heap
  live : run.live = abstract.live
  invariant : run.Invariant abstract.heap.blocks

inductive Matches : Option HeapRun → Option BlockRun → Prop
  | stopped : Matches none none
  | stepped (next : HeapRun) (abstract : BlockRun) (both : next.Simulates abstract) :
      Matches (some next) (some abstract)

theorem HeapRun.Simulates.successor {run next : HeapRun} {abstract result : BlockRun}
    {call : HeapCall} (simulates : run.Simulates abstract) (stepped : heapStep run call = some next)
    (holds : next.heap.Holds result.heap) (live : next.live = result.live) :
    next.Simulates result := by
  obtain ⟨blocks, invariant⟩ := heapStep_invariant simulates.invariant stepped
  rw [invariant.laid.unique holds.laid] at invariant
  exact ⟨holds, live, invariant⟩

section

variable {run : HeapRun} {abstract : BlockRun}

theorem HeapRun.Simulates.kmalloc (simulates : run.Simulates abstract) (size : Nat) :
    Matches (heapStep run (.kmalloc size)) (blockStep abstract (.kmalloc size)) := by
  by_cases allowed : 0 < size ∧ size < 2 ^ 63
  · rcases (simulates.holds.kmalloc allowed.1 allowed.2).cases with
      ⟨panic, failed, same⟩ | ⟨⟨ptr, heap⟩, ⟨pointer, list⟩, granted, taken, ptrEq, holds⟩
    · simp only [heapStep, blockStep, if_pos allowed, failed, same]
      exact .stopped
    · simp only at ptrEq
      subst ptrEq
      have unfolded : heapStep run (.kmalloc size) =
          some { heap := heap, live := (ptr, size) :: run.live } := by
        simp only [heapStep, if_pos allowed, granted]
      have next := @HeapRun.Simulates.successor _ _ _
        { heap := list, live := (ptr, size) :: abstract.live } _ simulates unfolded holds
        (congrArg (List.cons (ptr, size)) simulates.live)
      simp only [unfolded, blockStep, if_pos allowed, taken]
      exact .stepped _ _ next
  · simp only [heapStep, blockStep, if_neg allowed]
    exact .stopped

theorem HeapRun.Simulates.kfree (simulates : run.Simulates abstract) (ptr : Nat) :
    Matches (heapStep run (.kfree ptr)) (blockStep abstract (.kfree ptr)) := by
  by_cases live : ∃ entry ∈ run.live, entry.1 = ptr
  · have abstractLive := live
    rw [simulates.live] at abstractLive
    obtain ⟨⟨pointer, size⟩, member, same⟩ := live
    simp only at same
    subst same
    obtain ⟨released, freed, holds⟩ :=
      simulates.holds.kfree (simulates.invariant.owned _ member)
    have unfolded : heapStep run (.kfree pointer) = some
        { heap := released, live := run.live.filter (fun entry => entry.1 ≠ pointer) } := by
      simp only [heapStep, if_pos (⟨_, member, rfl⟩ : ∃ entry ∈ run.live, entry.1 = pointer),
        freed]
    have next := @HeapRun.Simulates.successor _ _ _
      { heap := abstract.heap.kfree pointer
        live := abstract.live.filter (fun entry => entry.1 ≠ pointer) } _ simulates unfolded
      holds (by rw [simulates.live])
    rw [unfolded, blockStep, if_pos abstractLive]
    exact .stepped _ _ next
  · have absent := live
    rw [simulates.live] at absent
    rw [heapStep, blockStep, if_neg live, if_neg absent]
    exact .stopped

theorem HeapRun.Simulates.store (simulates : run.Simulates abstract) (address : Nat)
    (value : BitVec 8) :
    Matches (heapStep run (.store address value)) (blockStep abstract (.store address value)) := by
  by_cases inside : ∃ entry ∈ run.live, entry.1 ≤ address ∧ address < entry.1 + entry.2
  · have abstractInside := inside
    rw [simulates.live] at abstractInside
    have kept := @HeapRun.Invariant.store _ _ address value simulates.invariant inside
    rw [heapStep, blockStep, if_pos inside, if_pos abstractInside]
    exact .stepped _ _ ⟨⟨kept.laid, simulates.holds.vmm⟩, simulates.live, kept⟩
  · have absent := inside
    rw [simulates.live] at absent
    rw [heapStep, blockStep, if_neg inside, if_neg absent]
    exact .stopped

end

theorem HeapRun.Simulates.step {run : HeapRun} {abstract : BlockRun}
    (simulates : run.Simulates abstract) (call : HeapCall) :
    Matches (heapStep run call) (blockStep abstract call) := by
  cases call with
  | kmalloc size => exact simulates.kmalloc size
  | kfree ptr => exact simulates.kfree ptr
  | store address value => exact simulates.store address value

/-- The run lemma, from bytes to blocks. -/
theorem HeapRun.Simulates.forward {run final : HeapRun} {abstract : BlockRun}
    {calls : List HeapCall} (simulates : run.Simulates abstract)
    (reached : LabelledRun.exec heapStep run calls = some final) :
    ∃ abstractFinal, LabelledRun.exec blockStep abstract calls = some abstractFinal ∧
      final.Simulates abstractFinal := by
  induction calls generalizing run abstract with
  | nil =>
      cases reached
      exact ⟨abstract, rfl, simulates⟩
  | cons call rest ih =>
      obtain ⟨next, stepped, continued⟩ := LabelledRun.exec_cons_eq_some.mp reached
      have step := simulates.step call
      rw [stepped] at step
      generalize successor : blockStep abstract call = result at step
      cases step with
      | stepped _ abstractNext both =>
          obtain ⟨abstractFinal, abstractReached, related⟩ := ih both continued
          exact ⟨abstractFinal,
            LabelledRun.exec_cons_eq_some.mpr ⟨abstractNext, successor, abstractReached⟩, related⟩

/-- The run lemma, from blocks to bytes. -/
theorem HeapRun.Simulates.backward {run : HeapRun} {abstract abstractFinal : BlockRun}
    {calls : List HeapCall} (simulates : run.Simulates abstract)
    (reached : LabelledRun.exec blockStep abstract calls = some abstractFinal) :
    ∃ final, LabelledRun.exec heapStep run calls = some final ∧
      final.Simulates abstractFinal := by
  induction calls generalizing run abstract with
  | nil =>
      cases reached
      exact ⟨run, rfl, simulates⟩
  | cons call rest ih =>
      obtain ⟨next, stepped, continued⟩ := LabelledRun.exec_cons_eq_some.mp reached
      have step := simulates.step call
      rw [stepped] at step
      generalize successor : heapStep run call = result at step
      cases step with
      | stepped heapNext _ both =>
          obtain ⟨final, finalReached, related⟩ := ih both continued
          exact ⟨final, LabelledRun.exec_cons_eq_some.mpr ⟨heapNext, successor, finalReached⟩,
            related⟩

def HeapCall.isStore : HeapCall → Bool
  | .store _ _ => true
  | _ => false

theorem blockStep_without_stores {run final : BlockRun} {calls : List HeapCall}
    (reached : LabelledRun.exec blockStep run calls = some final) :
    LabelledRun.exec blockStep run (calls.filter (fun call => !call.isStore)) = some final := by
  induction calls generalizing run with
  | nil => exact reached
  | cons call rest ih =>
      obtain ⟨next, stepped, continued⟩ := LabelledRun.exec_cons_eq_some.mp reached
      cases call with
      | kmalloc size => exact LabelledRun.exec_cons_eq_some.mpr ⟨next, stepped, ih continued⟩
      | kfree ptr => exact LabelledRun.exec_cons_eq_some.mpr ⟨next, stepped, ih continued⟩
      | store address value =>
          simp only [blockStep] at stepped
          split at stepped
          · cases stepped
            exact ih continued
          · cases stepped

theorem heapStep_kept {run next : HeapRun} {blocks : List Block} {call : HeapCall}
    (invariant : run.Invariant blocks) (stepped : heapStep run call = some next)
    (allocator : call.isStore = false) : PayloadsKept blocks run.heap.mem next.heap.mem := by
  cases call with
  | kmalloc size =>
      simp only [heapStep] at stepped
      split at stepped
      · rename_i allowed
        cases result : kmalloc run.heap size with
        | error panic =>
            rw [result] at stepped
            cases stepped
        | ok granted =>
            rw [result] at stepped
            cases stepped
            exact kmallocWithin_kept invariant.laid allowed.1 allowed.2 result
      · cases stepped
  | kfree ptr =>
      simp only [heapStep] at stepped
      split at stepped
      · rename_i live
        obtain ⟨⟨pointer, size⟩, member, same⟩ := live
        simp only at same
        subst same
        cases result : kfree run.heap pointer with
        | error panic =>
            rw [result] at stepped
            cases stepped
        | ok released =>
            rw [result] at stepped
            cases stepped
            exact invariant.laid.kfree_kept (invariant.owned _ member) result
      · cases stepped
  | store address value => cases allocator

/-- In every reachable state no allocator call, no growth and no merge changes a byte of
a pointer that stays live, and the list of blocks, live pointers included, is that of the
same run without the client's stores. -/
theorem heap_data_isolation {before heap : Heap} {n : Nat} {calls : List HeapCall}
    {final : HeapRun} (started : kmallocInit before HEAP_START n = .ok heap)
    (rounded : (n + 4095) / PAGE_SIZE * PAGE_SIZE ≤ HEAP_MAX_SIZE)
    (reached : LabelledRun.exec heapStep { heap := heap, live := [] } calls = some final) :
    (∀ call next, heapStep final call = some next → call.isStore = false →
      ∀ entry, entry ∈ final.live → entry ∈ next.live →
        ∀ byte, entry.1 ≤ byte → byte < entry.1 + entry.2 →
          next.heap.mem byte = final.heap.mem byte) ∧
      (∀ needed grown, expandHeap final.heap needed = .ok grown →
        ∀ entry, entry ∈ final.live →
          ∀ byte, entry.1 ≤ byte → byte < entry.1 + entry.2 →
            grown.mem byte = final.heap.mem byte) ∧
      (∀ released, released ∈ final.live → ∀ mem entry, entry ∈ final.live →
        ∀ byte, entry.1 ≤ byte → byte < entry.1 + entry.2 →
          coalesce mem (Word64.sub released.1 HEADER_SIZE) byte = mem byte) ∧
      ∃ quiet lines,
        LabelledRun.exec heapStep { heap := heap, live := [] }
          (calls.filter (fun call => !call.isStore)) = some quiet ∧
        quiet.live = final.live ∧ kmallocDump final.heap = .ok lines ∧
        kmallocDump quiet.heap = .ok lines := by
  obtain ⟨size, initial⟩ := kmallocInit_laid rounded started
  have invariant : HeapRun.Invariant { heap := heap, live := [] }
      [{ size := size, used := false }] := ⟨initial, by simp, List.Pairwise.nil⟩
  have simulates : HeapRun.Simulates { heap := heap, live := [] }
      { heap := { vmm := heap.vmm, blocks := [{ size := size, used := false }] }, live := [] } :=
    ⟨⟨initial, rfl⟩, rfl, invariant⟩
  obtain ⟨abstract, abstractReached, related⟩ := simulates.forward reached
  obtain ⟨quiet, quietReached, quietRelated⟩ :=
    simulates.backward (blockStep_without_stores abstractReached)
  have owned := related.invariant.owned
  constructor
  case left =>
    intro call next stepped allocator entry live _
    exact heapStep_kept related.invariant stepped allocator _ _ (owned entry live)
  case right =>
    constructor
    case left =>
      intro needed grown expanded entry live
      exact related.holds.laid.expandHeap_kept expanded _ _ (owned entry live)
    case right =>
      constructor
      case left =>
        intro released member mem entry live byte lower upper
        have header := (owned released member).header related.holds.laid
        have apart := (owned entry live).apart_header header
        exact coalesce_outside (by omega)
      case right =>
        exact ⟨quiet, dumpOf HEAP_START abstract.heap.blocks, quietReached,
          quietRelated.live.trans related.live.symm, related.holds.laid.kmallocDump,
          quietRelated.holds.laid.kmallocDump⟩

/-- The stores of the sample run leave its dump as it is without them. -/
theorem freshHeap_isolation :
    ∃ heap final quiet lines, kmallocInit freshHeap HEAP_START 4096 = .ok heap ∧
      LabelledRun.exec heapStep { heap := heap, live := [] } freshHeapCalls = some final ∧
      LabelledRun.exec heapStep { heap := heap, live := [] }
        (freshHeapCalls.filter (fun call => !call.isStore)) = some quiet ∧
      kmallocDump final.heap = .ok lines ∧ kmallocDump quiet.heap = .ok lines := by
  obtain ⟨heap, final, started, reached⟩ := freshHeap_runs
  obtain ⟨_, _, _, quiet, lines, quietReached, _, dumped, quietDumped⟩ :=
    heap_data_isolation started (by decide) reached
  exact ⟨heap, final, quiet, lines, started, reached, quietReached, dumped, quietDumped⟩

end CustomKernel.Memory
