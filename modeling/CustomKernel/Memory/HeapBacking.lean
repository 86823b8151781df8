/-
The frames behind the heap.

The pages of the window below the heap's end are mapped to distinct data pages that no
client holds; the rest of the window is unmapped.  Growing the heap, and clients that
take pages and give back their own, keep it so.
-/

import CustomKernel.Memory.FreshPages
import CustomKernel.Memory.HeapInvariant

set_option autoImplicit false

namespace CustomKernel.Memory

def InWindow (virt : Nat) : Prop :=
  HEAP_START ≤ virt ∧ virt < HEAP_START + HEAP_MAX_SIZE

/-- The window is backed up to an address, apart from the pages that clients hold. -/
structure Backing (vmm : Vmm) (stop : Nat) (held : Finset Nat) : Prop where
  managed : vmm.Managed
  noLarge : ∀ virt, InWindow virt → NoLargePage vmm virt
  mapped : ∀ virt, HEAP_START ≤ virt → virt < stop →
    ∃ phys, frameOf vmm virt = some phys ∧ DataPage vmm phys ∧ phys ∉ held
  unmapped : ∀ virt, stop ≤ virt → InWindow virt → frameOf vmm virt = none
  distinct : ∀ left right, HEAP_START ≤ left → left < stop → HEAP_START ≤ right → right < stop →
    frameOf vmm left = frameOf vmm right → left / PAGE_SIZE = right / PAGE_SIZE
  held : ∀ phys, phys ∈ held → DataPage vmm phys

theorem InWindow.canonical {virt : Nat} (inside : InWindow virt) : Canonical virt := by
  obtain ⟨lower, upper⟩ := inside
  unfold HEAP_START HEAP_MAX_SIZE at *
  exact Or.inr (by omega)

theorem DataPage.ne_free {vmm : Vmm} {phys page : Nat} (data : DataPage vmm phys)
    (free : vmm.pmm.Free page) : phys ≠ page * PAGE_SIZE := by
  intro same
  obtain ⟨other, address, _, used⟩ := data.taken
  rw [page_eq_of_address (address.symm.trans same), free.2] at used
  cases used

namespace Backing

variable {vmm after : Vmm} {stop : Nat} {held : Finset Nat}

theorem backed (backing : Backing vmm stop held) {phys : Nat} (start : HEAP_START ≤ stop)
    (aligned : stop % PAGE_SIZE = 0) (limit : stop + PAGE_SIZE ≤ HEAP_START + HEAP_MAX_SIZE)
    (step : Backed vmm stop phys after) : Backing after (stop + PAGE_SIZE) held := by
  have window {virt : Nat} (lower : HEAP_START ≤ virt) (upper : virt < stop + PAGE_SIZE) :
      InWindow virt := ⟨lower, by omega⟩
  have samePage {virt : Nat} (lower : stop ≤ virt) (upper : virt < stop + PAGE_SIZE) :
      virt / PAGE_SIZE = stop / PAGE_SIZE := by
    unfold PAGE_SIZE at *
    omega
  have otherPage {virt : Nat} (outside : virt < stop ∨ stop + PAGE_SIZE ≤ virt) :
      virt / PAGE_SIZE ≠ stop / PAGE_SIZE := by
    unfold PAGE_SIZE at *
    omega
  have newFrame {virt : Nat} (lower : stop ≤ virt) (upper : virt < stop + PAGE_SIZE) :
      frameOf after virt = some phys := by
    rw [step.frames virt (window (Nat.le_trans start lower) upper).canonical,
      if_pos (samePage lower upper)]
  have oldFrame {virt : Nat} (inside : InWindow virt)
      (outside : virt < stop ∨ stop + PAGE_SIZE ≤ virt) : frameOf after virt = frameOf vmm virt := by
    rw [step.frames virt inside.canonical, if_neg (otherPage outside)]
  obtain ⟨page, address, free⟩ := step.wasFree
  have isNew {other : Nat} (data : DataPage vmm other) : other ≠ phys := by
    rw [address]
    exact data.ne_free free
  have fresh {virt : Nat} (lower : HEAP_START ≤ virt) (upper : virt < stop) :
      frameOf after virt ≠ some phys := by
    intro same
    rw [oldFrame (window lower (by omega)) (Or.inl upper)] at same
    obtain ⟨other, frame, data, _⟩ := backing.mapped virt lower upper
    exact isNew data (Option.some.inj (frame.symm.trans same))
  refine ⟨step.managed, fun virt inside => step.noLarge virt (backing.noLarge virt inside),
    ?_, ?_, ?_, fun other member => (backing.held other member).kept step.took⟩
  · intro virt lower upper
    by_cases below : virt < stop
    · obtain ⟨other, frame, data, notHeld⟩ := backing.mapped virt lower below
      refine ⟨other, ?_, data.kept step.took, notHeld⟩
      rw [oldFrame (window lower upper) (Or.inl below)]
      exact frame
    · refine ⟨phys, newFrame (by omega) upper, step.data, ?_⟩
      intro member
      exact isNew (backing.held phys member) rfl
  · intro virt lower inside
    rw [oldFrame inside (Or.inr lower)]
    exact backing.unmapped virt (by omega) inside
  · intro left right leftLower leftUpper rightLower rightUpper same
    by_cases leftBelow : left < stop
    · by_cases rightBelow : right < stop
      · rw [oldFrame (window leftLower leftUpper) (Or.inl leftBelow),
          oldFrame (window rightLower rightUpper) (Or.inl rightBelow)] at same
        exact backing.distinct left right leftLower leftBelow rightLower rightBelow same
      · rw [newFrame (by omega) rightUpper] at same
        exact absurd same (fresh leftLower leftBelow)
    · by_cases rightBelow : right < stop
      · rw [newFrame (by omega) leftUpper] at same
        exact absurd same.symm (fresh rightLower rightBelow)
      · rw [samePage (by omega) leftUpper, samePage (by omega) rightUpper]

theorem grown (backing : Backing vmm stop held) {nPages : Nat} (start : HEAP_START ≤ stop)
    (aligned : stop % PAGE_SIZE = 0)
    (limit : stop + nPages * PAGE_SIZE ≤ HEAP_START + HEAP_MAX_SIZE)
    (mapped : mapFreshPages vmm stop nPages = .ok after) :
    Backing after (stop + nPages * PAGE_SIZE) held := by
  apply @mapFreshPages_induction
    (fun current i => Backing current (stop + i * PAGE_SIZE) held) _ _ _ _ _ _ mapped
  · intro current next i below before step
    have next_le : (i + 1) * PAGE_SIZE ≤ nPages * PAGE_SIZE := Nat.mul_le_mul_right _ below
    have split : (i + 1) * PAGE_SIZE = i * PAGE_SIZE + PAGE_SIZE := Nat.succ_mul _ _
    have inside : InWindow (stop + i * PAGE_SIZE) := by
      unfold InWindow PAGE_SIZE at *
      omega
    have fits : stop + i * PAGE_SIZE < Word64.modulus :=
      Nat.lt_trans inside.2 (by decide)
    obtain ⟨phys, backed⟩ := mapFreshPage_backed before.managed (freshAddress fits)
      inside.canonical (before.noLarge _ inside) step
    have result := before.backed inside.1 (by unfold PAGE_SIZE at *; omega) (by omega) backed
    rw [split, ← Nat.add_assoc]
    exact result
  · rw [Nat.zero_mul, Nat.add_zero]
    exact backing

theorem allocated (backing : Backing vmm stop held) {phys : Nat} {pmm : Pmm}
    (taken : allocPage vmm.pmm = (some phys, pmm)) :
    Backing { vmm with pmm := pmm } stop (insert phys held) := by
  have only := allocPage_onlyTakes taken
  have took : TookTables vmm { vmm with pmm := pmm } := TookTables.allocated only
  obtain ⟨page, address, free, _, used⟩ := allocPage_some taken
  rw [(backing.managed.page_address free).1] at address
  refine ⟨backing.managed.allocated only, backing.noLarge, ?_, backing.unmapped,
    backing.distinct, ?_⟩
  · intro virt lower upper
    obtain ⟨other, frame, data, notHeld⟩ := backing.mapped virt lower upper
    refine ⟨other, frame, data.kept took, ?_⟩
    intro member
    rcases Finset.mem_insert.mp member with new | old
    · exact data.ne_free free (new.trans address)
    · exact notHeld old
  · intro other member
    rcases Finset.mem_insert.mp member with new | old
    · rw [new, address]
      exact backing.managed.allocated_data only free (by rw [used]; simp)
    · exact (backing.held other old).kept took

theorem exhausted (backing : Backing vmm stop held) {pmm : Pmm}
    (failed : allocPage vmm.pmm = (none, pmm)) : Backing { vmm with pmm := pmm } stop held := by
  have only := allocPage_onlyTakes failed
  have took : TookTables vmm { vmm with pmm := pmm } := TookTables.allocated only
  refine ⟨backing.managed.allocated only, backing.noLarge, ?_, backing.unmapped,
    backing.distinct, fun other member => (backing.held other member).kept took⟩
  intro virt lower upper
  obtain ⟨other, frame, data, notHeld⟩ := backing.mapped virt lower upper
  exact ⟨other, frame, data.kept took, notHeld⟩

theorem released (backing : Backing vmm stop held) {phys : Nat} {pmm : Pmm}
    (member : phys ∈ held) (freed : freePage vmm.pmm phys = .ok pmm) :
    Backing { vmm with pmm := pmm } stop (held.erase phys) := by
  have given := backing.held phys member
  obtain ⟨page, address, total, used⟩ := freePage_clears freed
  have survives {other : Nat} (data : DataPage vmm other) (different : other ≠ phys) :
      DataPage { vmm with pmm := pmm } other := by
    obtain ⟨kept, same, tracked, wasUsed⟩ := data.taken
    refine ⟨⟨kept, same, by rw [total]; exact tracked, ?_⟩, data.noTable⟩
    have apart : kept ≠ page := by
      intro equal
      exact different (by rw [same, equal, address])
    rw [used, wasUsed]
    simp [apart]
  refine ⟨⟨backing.managed.tree, ?_, ?_⟩, backing.noLarge, ?_, backing.unmapped,
    backing.distinct, ?_⟩
  · intro other free path reached
    by_cases same : other = page
    · rw [same, ← address] at reached
      exact given.noTable path reached
    · have clear := free.2
      rw [used] at clear
      have tracked := free.1
      rw [total] at tracked
      exact backing.managed.fresh other ⟨tracked, by simpa [same] using clear⟩ path reached
  · rw [total]
    exact backing.managed.physical
  · intro virt lower upper
    obtain ⟨other, frame, data, notHeld⟩ := backing.mapped virt lower upper
    have different : other ≠ phys := by
      intro same
      exact notHeld (by rw [same]; exact member)
    exact ⟨other, frame, survives data different,
      fun remains => notHeld (Finset.mem_of_mem_erase remains)⟩
  · intro other remains
    obtain ⟨different, old⟩ := Finset.mem_erase.mp remains
    exact survives (backing.held other old) different

end Backing

/-! ### The heap's calls -/

structure Heap.Backs (heap : Heap) (held : Finset Nat) : Prop where
  backing : Backing heap.vmm heap.heapEnd held
  start : HEAP_START ≤ heap.heapEnd
  limit : heap.heapEnd ≤ HEAP_START + HEAP_MAX_SIZE
  aligned : heap.heapEnd % PAGE_SIZE = 0

theorem alignUp_lt (n : Nat) : alignUp n < Word64.modulus :=
  Nat.lt_of_le_of_lt Nat.and_le_left (Nat.mod_lt _ (by decide))

/-- A size that passes the limit only by wrapping around is too large to be mapped. -/
theorem growth_noWrap {stop extra : Nat} (start : HEAP_START ≤ stop)
    (limit : stop ≤ HEAP_START + HEAP_MAX_SIZE) (word : extra < Word64.modulus)
    (few : extra / PAGE_SIZE * PAGE_SIZE ≤ 2 ^ 52)
    (accepted : Word64.sub (Word64.add stop extra) HEAP_START ≤ HEAP_MAX_SIZE) :
    stop + extra < Word64.modulus := by
  unfold Word64.sub Word64.add at accepted
  unfold Word64.modulus HEAP_START HEAP_MAX_SIZE PAGE_SIZE at *
  omega

theorem growth_limit {heap : Heap} {extra : Nat} {vmm : Vmm}
    (physical : heap.vmm.pmm.totalPages * PAGE_SIZE ≤ 2 ^ 52) (start : HEAP_START ≤ heap.heapEnd)
    (limit : heap.heapEnd ≤ HEAP_START + HEAP_MAX_SIZE) (word : extra < Word64.modulus)
    (accepted : Word64.sub (Word64.add heap.heapEnd extra) HEAP_START ≤ HEAP_MAX_SIZE)
    (mapped : mapFreshPages heap.vmm heap.heapEnd (extra / PAGE_SIZE) = .ok vmm) :
    heap.heapEnd + extra / PAGE_SIZE * PAGE_SIZE ≤ HEAP_START + HEAP_MAX_SIZE := by
  have spent := mapFreshPages_spends mapped
  have total := heap.vmm.pmm.freePages_le
  have enough : extra / PAGE_SIZE ≤ heap.vmm.pmm.totalPages := by omega
  have few : extra / PAGE_SIZE * PAGE_SIZE ≤ 2 ^ 52 :=
    Nat.le_trans (Nat.mul_le_mul_right _ enough) physical
  have noWrap := growth_noWrap start limit word few accepted
  have above : HEAP_START ≤ heap.heapEnd + extra := Nat.le_trans start (Nat.le_add_right _ _)
  have exactSum : Word64.sub (Word64.add heap.heapEnd extra) HEAP_START =
      heap.heapEnd + extra - HEAP_START :=
    Word64.sub_add_eq above (Nat.lt_of_le_of_lt (Nat.sub_le _ _) noWrap)
  have whole : extra / PAGE_SIZE * PAGE_SIZE ≤ extra := Nat.div_mul_le_self _ _
  rw [exactSum] at accepted
  omega

theorem Heap.Backs.expandHeap {heap grown : Heap} {held : Finset Nat} (backs : heap.Backs held)
    {needed : Nat} (expanded : expandHeap heap needed = .ok grown) : grown.Backs held := by
  obtain ⟨extra, extraEq, accepted, mapped, newEnd, _⟩ := expandHeap_ok expanded
  have word : extra < Word64.modulus := by
    rw [← extraEq]
    exact alignUp_lt _
  have limit := growth_limit backs.backing.managed.physical backs.start backs.limit word accepted
    mapped
  have fits : heap.heapEnd + extra / PAGE_SIZE * PAGE_SIZE < Word64.modulus :=
    Nat.lt_of_le_of_lt limit (by decide)
  rw [Word64.mul_eq (by omega), Word64.add_eq fits] at newEnd
  have aligned := backs.aligned
  have start := backs.start
  refine ⟨?_, ?_, ?_, ?_⟩
  · rw [newEnd]
    exact backs.backing.grown backs.start backs.aligned limit mapped
  · rw [newEnd]
    omega
  · rw [newEnd]
    exact limit
  · rw [newEnd, Nat.add_mul_mod_self_right]
    exact aligned

theorem Heap.Backs.kmallocWithin {heap after : Heap} {held : Finset Nat} (backs : heap.Backs held)
    {calls size ptr : Nat} (allocated : kmallocWithin calls heap size = .ok (ptr, after)) :
    after.Backs held := by
  induction calls generalizing heap with
  | zero => cases allocated
  | succ calls ih =>
      unfold Memory.kmallocWithin at allocated
      split at allocated
      · cases allocated
      · split at allocated
        · cases allocated
        · obtain ⟨found, _, allocated⟩ := bind_eq_ok.mp allocated
          cases found with
          | some cur =>
              cases allocated
              exact ⟨backs.backing, backs.start, backs.limit, backs.aligned⟩
          | none =>
              obtain ⟨grown, expanded, continued⟩ := bind_eq_ok.mp allocated
              exact ih (backs.expandHeap expanded) continued

theorem Heap.Backs.kfree {heap released : Heap} {held : Finset Nat} (backs : heap.Backs held)
    {ptr : Nat} (freed : kfree heap ptr = .ok released) : released.Backs held := by
  obtain ⟨mem, rfl⟩ := kfree_memory freed
  exact ⟨backs.backing, backs.start, backs.limit, backs.aligned⟩

theorem kmallocInit_backs {before heap : Heap} {n : Nat} {held : Finset Nat}
    (backing : Backing before.vmm HEAP_START held)
    (rounded : (n + 4095) / PAGE_SIZE * PAGE_SIZE ≤ HEAP_MAX_SIZE)
    (started : kmallocInit before HEAP_START n = .ok heap) : heap.Backs held := by
  obtain ⟨large, vmm, mapped, heapEq⟩ := kmallocInit_ok started
  obtain ⟨_, atMost, _⟩ := initialTotal large rounded
  have small : n ≤ 2 ^ 63 := by
    unfold PAGE_SIZE HEAP_MAX_SIZE at rounded
    omega
  have total : Word64.mul (pagesFor n) PAGE_SIZE = pagesFor n * PAGE_SIZE := by
    rw [pagesFor_eq small]
    exact Word64.mul_eq (Nat.lt_of_le_of_lt rounded (by decide))
  rw [total] at atMost heapEq
  have newEnd : Word64.add HEAP_START (pagesFor n * PAGE_SIZE) =
      HEAP_START + pagesFor n * PAGE_SIZE :=
    Word64.add_eq (Nat.lt_of_le_of_lt (Nat.add_le_add_left atMost _) (by decide))
  rw [newEnd] at heapEq
  have limit : HEAP_START + pagesFor n * PAGE_SIZE ≤ HEAP_START + HEAP_MAX_SIZE :=
    Nat.add_le_add_left atMost _
  have grown := backing.grown (Nat.le_refl _) (by decide) limit mapped
  have start : HEAP_START ≤ HEAP_START + pagesFor n * PAGE_SIZE := Nat.le_add_right _ _
  have aligned : (HEAP_START + pagesFor n * PAGE_SIZE) % PAGE_SIZE = 0 :=
    (Nat.add_mul_mod_self_right _ _ _).trans (by decide)
  generalize HEAP_START + pagesFor n * PAGE_SIZE = heapEnd at heapEq limit grown start aligned
  subst heapEq
  exact ⟨grown, start, limit, aligned⟩

/-! ### Runs -/

structure HeapSystem where
  heap : Heap
  held : Finset Nat

inductive SystemCall where
  | kmalloc (size : Nat)
  | kfree (ptr : Nat)
  | allocPage
  | freePage (phys : Nat)

/-- Any call of the heap, and clients that give back only pages they hold.  A panic
ends the run. -/
def systemStep (system : HeapSystem) : SystemCall → Option HeapSystem
  | .kmalloc size =>
      match kmalloc system.heap size with
      | .error _ => none
      | .ok (_, heap) => some { system with heap := heap }
  | .kfree ptr =>
      match kfree system.heap ptr with
      | .error _ => none
      | .ok heap => some { system with heap := heap }
  | .allocPage =>
      match allocPage system.heap.vmm.pmm with
      | (none, pmm) =>
          some { system with
            heap := { system.heap with vmm := { system.heap.vmm with pmm := pmm } } }
      | (some phys, pmm) =>
          some
            { heap := { system.heap with vmm := { system.heap.vmm with pmm := pmm } }
              held := insert phys system.held }
  | .freePage phys =>
      if phys ∈ system.held then
        match freePage system.heap.vmm.pmm phys with
        | .error _ => none
        | .ok pmm =>
            some
              { heap := { system.heap with vmm := { system.heap.vmm with pmm := pmm } }
                held := system.held.erase phys }
      else none

theorem systemStep_backs (system : HeapSystem) (call : SystemCall) (after : HeapSystem)
    (backs : system.heap.Backs system.held) (stepped : systemStep system call = some after) :
    after.heap.Backs after.held := by
  cases call with
  | kmalloc size =>
      simp only [systemStep] at stepped
      split at stepped
      · cases stepped
      · rename_i allocated
        cases stepped
        exact backs.kmallocWithin allocated
  | kfree ptr =>
      simp only [systemStep] at stepped
      split at stepped
      · cases stepped
      · rename_i freed
        cases stepped
        exact backs.kfree freed
  | allocPage =>
      simp only [systemStep] at stepped
      split at stepped
      · rename_i failed
        cases stepped
        exact ⟨backs.backing.exhausted failed, backs.start, backs.limit, backs.aligned⟩
      · rename_i taken
        cases stepped
        exact ⟨backs.backing.allocated taken, backs.start, backs.limit, backs.aligned⟩
  | freePage phys =>
      simp only [systemStep] at stepped
      split at stepped
      · rename_i member
        split at stepped
        · cases stepped
        · rename_i freed
          cases stepped
          exact ⟨backs.backing.released member freed, backs.start, backs.limit, backs.aligned⟩
      · cases stepped

theorem backing_initial {vmm : Vmm} (managed : vmm.Managed)
    (noLarge : ∀ virt, InWindow virt → NoLargePage vmm virt)
    (unmapped : ∀ virt, InWindow virt → getPhysAddr vmm virt = none) :
    Backing vmm HEAP_START ∅ where
  managed := managed
  noLarge := noLarge
  mapped virt lower upper := absurd upper (Nat.not_lt.mpr lower)
  unmapped virt _ inside := by
    have lookup := unmapped virt inside
    rw [getPhysAddr_eq (noLarge virt inside), Option.map_eq_none_iff] at lookup
    exact lookup
  distinct left _ lower upper := absurd upper (Nat.not_lt.mpr lower)
  held phys member := absurd member (Finset.notMem_empty phys)

/-- In every reachable state the pages of the heap are mapped to distinct frames that are
marked used, hold no page table and belong to no client, and the rest of its window is
unmapped. -/
theorem heap_backing {before heap : Heap} {n : Nat} {calls : List SystemCall}
    {final : HeapSystem} (tree : TreeShaped before.vmm) (fresh : AllocatesNoTable before.vmm)
    (physical : before.vmm.pmm.totalPages * PAGE_SIZE ≤ 2 ^ 52)
    (noLarge : ∀ virt, InWindow virt → NoLargePage before.vmm virt)
    (unmapped : ∀ virt, InWindow virt → getPhysAddr before.vmm virt = none)
    (started : kmallocInit before HEAP_START n = .ok heap)
    (rounded : (n + 4095) / PAGE_SIZE * PAGE_SIZE ≤ HEAP_MAX_SIZE)
    (reached : LabelledRun.exec systemStep { heap := heap, held := ∅ } calls = some final) :
    (∀ virt, HEAP_START ≤ virt → virt < final.heap.heapEnd → virt % PAGE_SIZE = 0 →
      ∃ page, getPhysAddr final.heap.vmm virt = some (page * PAGE_SIZE) ∧
        page < final.heap.vmm.pmm.totalPages ∧ isUsed final.heap.vmm.pmm page = true ∧
        (∀ path, tableAt final.heap.vmm path ≠ some (page * PAGE_SIZE)) ∧
        page * PAGE_SIZE ∉ final.held) ∧
      (∀ virt, final.heap.heapEnd ≤ virt → virt < HEAP_START + HEAP_MAX_SIZE →
        getPhysAddr final.heap.vmm virt = none) ∧
      (∀ left right, HEAP_START ≤ left → left < final.heap.heapEnd → left % PAGE_SIZE = 0 →
        HEAP_START ≤ right → right < final.heap.heapEnd → right % PAGE_SIZE = 0 →
        getPhysAddr final.heap.vmm left = getPhysAddr final.heap.vmm right → left = right) := by
  have initial : heap.Backs ∅ :=
    kmallocInit_backs (backing_initial ⟨tree, fresh, physical⟩ noLarge unmapped) rounded started
  have backs : final.heap.Backs final.held :=
    @LabelledRun.exec_invariant _ _ systemStep (fun system => system.heap.Backs system.held)
      systemStep_backs _ _ _ initial reached
  have backing := backs.backing
  have inside {virt : Nat} (lower : HEAP_START ≤ virt) (upper : virt < final.heap.heapEnd) :
      InWindow virt := ⟨lower, Nat.lt_of_lt_of_le upper backs.limit⟩
  have lookup {virt : Nat} (lower : HEAP_START ≤ virt) (upper : virt < final.heap.heapEnd)
      (aligned : virt % PAGE_SIZE = 0) :
      getPhysAddr final.heap.vmm virt = frameOf final.heap.vmm virt := by
    rw [getPhysAddr_eq (backing.noLarge virt (inside lower upper)), aligned]
    cases frameOf final.heap.vmm virt with
    | none => rfl
    | some phys => rfl
  constructor
  case left =>
    intro virt lower upper aligned
    obtain ⟨phys, frame, data, notHeld⟩ := backing.mapped virt lower upper
    obtain ⟨page, address, tracked, used⟩ := data.taken
    subst address
    exact ⟨page, (lookup lower upper aligned).trans frame, tracked, used, data.noTable, notHeld⟩
  case right =>
    constructor
    case left =>
      intro virt lower upper
      have window : InWindow virt := ⟨Nat.le_trans backs.start lower, upper⟩
      rw [getPhysAddr_eq (backing.noLarge virt window), backing.unmapped virt lower window]
      rfl
    case right =>
      intro left right leftLower leftUpper leftAligned rightLower rightUpper rightAligned same
      rw [lookup leftLower leftUpper leftAligned, lookup rightLower rightUpper rightAligned] at same
      have samePage := backing.distinct left right leftLower leftUpper rightLower rightUpper same
      unfold PAGE_SIZE at *
      omega

/-- A client takes a page before a growth and gives it back afterwards. -/
def freshHeapSystemCalls : List SystemCall :=
  [.kmalloc 100, .allocPage, .kmalloc 5000, .kfree 0xffff800100000018, .freePage 0xc000]

theorem freshHeap_backing :
    ∃ heap final, kmallocInit freshHeap HEAP_START 4096 = .ok heap ∧
      LabelledRun.exec systemStep { heap := heap, held := ∅ } freshHeapSystemCalls = some final ∧
      ∀ virt, final.heap.heapEnd ≤ virt → virt < HEAP_START + HEAP_MAX_SIZE →
        getPhysAddr final.heap.vmm virt = none := by
  have empty (virt : Nat) : getPhysAddr sampleVmm virt = none := by
    rw [getPhysAddr_eq (sampleVmm_empty.noLargePage virt), frameOf, leafAt, pathOf,
      sampleVmm_empty.tableAt_cons]
    rfl
  obtain ⟨heap, final, started, reached⟩ := @freshHeap_reaches _ (fun heap =>
    LabelledRun.exec systemStep { heap := heap, held := ∅ } freshHeapSystemCalls)
      (by decide +kernel)
  have backing := @heap_backing freshHeap heap 4096 freshHeapSystemCalls final
    sampleVmm_empty.treeShaped sampleVmm_fresh (by decide) (fun virt _ => sampleVmm_empty.noLargePage virt)
    (fun virt _ => empty virt) started (by decide) reached
  exact ⟨heap, final, started, reached, backing.2.1⟩

end CustomKernel.Memory
