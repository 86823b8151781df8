/-
The direct map and the windows mapped beside it.

Boot loader tables map every page of RAM at a fixed offset.  The heap window and the
local APIC lie at fixed addresses of the same region, four gigabytes above the start of
the direct map and at its upper end.  A mapping there keeps the direct map as long as no
page of RAM has its address in the range; from four gigabytes of RAM on it replaces one.
-/

import CustomKernel.Interrupt.Pic
import CustomKernel.Memory.HeapBacking
import Mathlib.Order.Interval.Finset.Nat

set_option autoImplicit false

namespace CustomKernel.Memory

open CustomKernel.Interrupt

/-- The boot loader's default offset. -/
def HHDM_OFFSET : Nat := 0xffff800000000000

/-- The size `_start` passes to `kmalloc_init`. -/
def initialHeapBytes : Nat := 1024 * 1024

inductive BootCall where
  | kmallocInit
  | enableLapicPicMode (msr : BitVec 64)
  | kmalloc (size : Nat)
  | kfree (ptr : Nat)

/-- The calls that map pages, and releases.  A panic ends the run. -/
def bootStep (heap : Heap) : BootCall → Option Heap
  | .kmallocInit => (kmallocInit heap HEAP_START initialHeapBytes).toOption
  | .enableLapicPicMode msr =>
      match enableLapicPicMode heap.vmm msr with
      | .error _ => none
      | .ok vmm => some { heap with vmm := vmm }
  | .kmalloc size =>
      match kmalloc heap size with
      | .error _ => none
      | .ok (_, after) => some after
  | .kfree ptr => (kfree heap ptr).toOption

def DirectMapped (ram : Nat → Prop) (vmm : Vmm) : Prop :=
  ∀ page, ram page →
    getPhysAddr vmm (physToVirt vmm (page * PAGE_SIZE)) = some (page * PAGE_SIZE)

/-- What the boot loader hands over: a direct map of RAM by small pages, in a tree of
tables outside the allocator's free pages. -/
structure BootTables (ram : Nat → Prop) (vmm : Vmm) : Prop where
  offset : vmm.hhdmOffset = HHDM_OFFSET
  fits : ∀ page, ram page → HHDM_OFFSET + page * PAGE_SIZE < Word64.modulus
  direct : DirectMapped ram vmm
  managed : vmm.Managed
  small : ∀ page, ram page → NoLargePage vmm (HHDM_OFFSET + page * PAGE_SIZE)
  window : ∀ virt, InWindow virt → NoLargePage vmm virt
  lapic : NoLargePage vmm LAPIC_VIRT

def growthSpan (size : Nat) : Nat :=
  alignUp (Word64.add (Word64.add (alignUp size) HEADER_SIZE) PAGE_SIZE) / PAGE_SIZE * PAGE_SIZE

/-- The addresses a call maps, as a first one and one past the last; a `kmalloc` that
finds a block maps none. -/
def mappedRange (heap : Heap) : BootCall → Nat × Nat
  | .kmallocInit => (HEAP_START, HEAP_START + initialHeapBytes)
  | .enableLapicPicMode _ => (LAPIC_VIRT, LAPIC_VIRT + PAGE_SIZE)
  | .kmalloc size =>
      match findBlock heap.mem (alignUp size) LIST_STEPS heap.heapHead with
      | .ok none => (heap.heapEnd, heap.heapEnd + growthSpan size)
      | _ => (0, 0)
  | .kfree _ => (0, 0)

def SparesDirectMap (ram : Nat → Prop) (heap : Heap) (call : BootCall) : Prop :=
  ∀ page, ram page → HHDM_OFFSET + page * PAGE_SIZE < (mappedRange heap call).1 ∨
    (mappedRange heap call).2 ≤ HHDM_OFFSET + page * PAGE_SIZE

/-! ### Lookups in the direct map -/

theorem directMap_canonical {page : Nat}
    (fits : HHDM_OFFSET + page * PAGE_SIZE < Word64.modulus) :
    Canonical (HHDM_OFFSET + page * PAGE_SIZE) := by
  unfold HHDM_OFFSET Word64.modulus at *
  exact Or.inr (by omega)

theorem getPhysAddr_directMap {vmm : Vmm} {page : Nat} (offset : vmm.hhdmOffset = HHDM_OFFSET)
    (fits : HHDM_OFFSET + page * PAGE_SIZE < Word64.modulus)
    (small : NoLargePage vmm (HHDM_OFFSET + page * PAGE_SIZE)) :
    getPhysAddr vmm (physToVirt vmm (page * PAGE_SIZE)) =
      frameOf vmm (HHDM_OFFSET + page * PAGE_SIZE) := by
  have address : physToVirt vmm (page * PAGE_SIZE) = HHDM_OFFSET + page * PAGE_SIZE := by
    unfold physToVirt
    rw [offset, Nat.add_comm HHDM_OFFSET]
    exact Word64.add_eq (by omega)
  have aligned : (HHDM_OFFSET + page * PAGE_SIZE) % PAGE_SIZE = 0 :=
    (Nat.add_mul_mod_self_right _ _ _).trans (by decide)
  rw [address, getPhysAddr_eq small, aligned]
  cases frameOf vmm (HHDM_OFFSET + page * PAGE_SIZE) with
  | none => rfl
  | some frame => rfl

theorem BootTables.changed {ram : Nat → Prop} {vmm after : Vmm} {start stop : Nat}
    (tables : BootTables ram vmm) (changes : ChangesOnly vmm start stop after)
    (spares : ∀ page, ram page → HHDM_OFFSET + page * PAGE_SIZE < start ∨
      stop ≤ HHDM_OFFSET + page * PAGE_SIZE) : BootTables ram after := by
  have offset := changes.hhdmOffset.trans tables.offset
  have small (page : Nat) (present : ram page) :
      NoLargePage after (HHDM_OFFSET + page * PAGE_SIZE) :=
    changes.noLarge _ (tables.small page present)
  refine ⟨offset, tables.fits, ?_, changes.managed, small,
    fun virt inside => changes.noLarge virt (tables.window virt inside),
    changes.noLarge _ tables.lapic⟩
  intro page present
  have fits := tables.fits page present
  have before := tables.direct page present
  rw [getPhysAddr_directMap tables.offset fits (tables.small page present)] at before
  rw [getPhysAddr_directMap offset fits (small page present),
    changes.frames _ (directMap_canonical fits) (spares page present)]
  exact before

/-! ### The calls -/

/-- The heap may end here: in the window, on a page boundary. -/
structure EndsInWindow (heapEnd : Nat) : Prop where
  start : HEAP_START ≤ heapEnd
  limit : heapEnd ≤ HEAP_START + HEAP_MAX_SIZE
  aligned : heapEnd % PAGE_SIZE = 0

structure Heap.KeepsDirectMap (heap : Heap) (ram : Nat → Prop) : Prop where
  tables : BootTables ram heap.vmm
  bounds : heap.heapInited = true → EndsInWindow heap.heapEnd

theorem BootTables.mapFreshPages {ram : Nat → Prop} {vmm after : Vmm} {virt nPages : Nat}
    (tables : BootTables ram vmm) (start : HEAP_START ≤ virt) (aligned : virt % PAGE_SIZE = 0)
    (limit : virt + nPages * PAGE_SIZE ≤ HEAP_START + HEAP_MAX_SIZE)
    (mapped : mapFreshPages vmm virt nPages = .ok after) :
    MapsFresh vmm virt (virt + nPages * PAGE_SIZE) after := by
  have inside {other : Nat} (lower : virt ≤ other) (upper : other < virt + nPages * PAGE_SIZE) :
      InWindow other := ⟨Nat.le_trans start lower, Nat.lt_of_lt_of_le upper limit⟩
  exact mapFreshPages_fresh tables.managed aligned (Nat.lt_of_le_of_lt limit (by decide))
    (fun _ lower upper => (inside lower upper).canonical)
    (fun other lower upper => tables.window other (inside lower upper)) mapped

theorem kmalloc_growth {heap after : Heap} {size ptr : Nat}
    (allocated : kmalloc heap size = .ok (ptr, after)) :
    heap.heapInited = true ∧ ((∃ mem, after = { heap with mem := mem }) ∨
      findBlock heap.mem (alignUp size) LIST_STEPS heap.heapHead = .ok none ∧
        ∃ grown mem, expandHeap heap (alignUp size) = .ok grown ∧
          after = { grown with mem := mem }) := by
  unfold kmalloc kmallocWithin at allocated
  split at allocated
  · cases allocated
  · rename_i inited
    split at allocated
    · cases allocated
    · refine ⟨Decidable.not_not.mp inited, ?_⟩
      obtain ⟨found, search, allocated⟩ := bind_eq_ok.mp allocated
      cases found with
      | some cur =>
          cases allocated
          exact Or.inl ⟨_, rfl⟩
      | none =>
          refine Or.inr ⟨search, ?_⟩
          obtain ⟨grown, expanded, continued⟩ := bind_eq_ok.mp allocated
          unfold kmallocWithin at continued
          split at continued
          · cases continued
          · obtain ⟨second, _, continued⟩ := bind_eq_ok.mp continued
            cases second with
            | some cur =>
                cases continued
                exact ⟨grown, _, expanded, rfl⟩
            | none =>
                obtain ⟨_, _, impossible⟩ := bind_eq_ok.mp continued
                cases impossible

theorem Heap.KeepsDirectMap.expandHeap {heap grown : Heap} {ram : Nat → Prop} {size : Nat}
    (keeps : heap.KeepsDirectMap ram) (inited : heap.heapInited = true)
    (spares : ∀ page, ram page → HHDM_OFFSET + page * PAGE_SIZE < heap.heapEnd ∨
      heap.heapEnd + growthSpan size ≤ HHDM_OFFSET + page * PAGE_SIZE)
    (expanded : expandHeap heap (alignUp size) = .ok grown) : grown.KeepsDirectMap ram := by
  have bounds := keeps.bounds inited
  obtain ⟨extra, extraEq, accepted, mapped, newEnd, _⟩ := expandHeap_ok expanded
  have word : extra < Word64.modulus := by
    rw [← extraEq]
    exact alignUp_lt _
  have limit := growth_limit keeps.tables.managed.physical bounds.start bounds.limit word accepted
    mapped
  have span : growthSpan size = extra / PAGE_SIZE * PAGE_SIZE := by
    rw [growthSpan, extraEq]
  have fits : heap.heapEnd + extra / PAGE_SIZE * PAGE_SIZE < Word64.modulus :=
    Nat.lt_of_le_of_lt limit (by decide)
  rw [Word64.mul_eq (by omega), Word64.add_eq fits] at newEnd
  rw [span] at spares
  have maps := keeps.tables.mapFreshPages bounds.start bounds.aligned limit mapped
  refine ⟨keeps.tables.changed maps.toChangesOnly spares, ?_⟩
  intro _
  constructor
  case start =>
    rw [newEnd]
    exact Nat.le_trans bounds.start (Nat.le_add_right _ _)
  case limit =>
    rw [newEnd]
    exact limit
  case aligned =>
    rw [newEnd, Nat.add_mul_mod_self_right]
    exact bounds.aligned

theorem bootStep_keeps (ram : Nat → Prop) (heap : Heap) (call : BootCall) (after : Heap)
    (keeps : heap.KeepsDirectMap ram) (spares : SparesDirectMap ram heap call)
    (stepped : bootStep heap call = some after) : after.KeepsDirectMap ram := by
  cases call with
  | kmallocInit =>
      cases result : kmallocInit heap HEAP_START initialHeapBytes with
      | error panic => simp [bootStep, result, Except.toOption] at stepped
      | ok started =>
          simp only [bootStep, result, Except.toOption, Option.some.injEq] at stepped
          subst started
          obtain ⟨_, vmm, mapped, afterEq⟩ := kmallocInit_ok result
          have pages : pagesFor initialHeapBytes = 256 := by decide
          have limit : HEAP_START + 256 * PAGE_SIZE ≤ HEAP_START + HEAP_MAX_SIZE := by decide
          rw [pages] at mapped afterEq
          have maps := keeps.tables.mapFreshPages (Nat.le_refl _) (by decide) limit mapped
          subst afterEq
          refine ⟨keeps.tables.changed maps.toChangesOnly spares, ?_⟩
          intro _
          have ends : EndsInWindow (Word64.add HEAP_START (Word64.mul 256 PAGE_SIZE)) :=
            ⟨by decide, by decide, by decide⟩
          exact ends
  | enableLapicPicMode msr =>
      simp only [bootStep] at stepped
      split at stepped
      · cases stepped
      · rename_i vmm mapped
        cases stepped
        have small : apicPhys msr < 2 ^ 52 := by
          have bound : apicPhys msr ≤ (0xFFFFF000#64).toNat := by
            rw [apicPhys, BitVec.toNat_and]
            exact Nat.and_le_right
          exact Nat.lt_of_le_of_lt bound (by decide)
        have changes := mapPage_changesOnly keeps.tables.managed (Or.inr (by decide))
          keeps.tables.lapic (by decide) small (by unfold PteFlags; decide) mapped
        exact ⟨keeps.tables.changed changes spares, keeps.bounds⟩
  | kmalloc size =>
      simp only [bootStep] at stepped
      split at stepped
      · cases stepped
      · rename_i allocated
        cases stepped
        obtain ⟨inited, ⟨mem, same⟩ | ⟨search, grown, mem, expanded, same⟩⟩ :=
          kmalloc_growth allocated
        · subst same
          exact ⟨keeps.tables, keeps.bounds⟩
        · have range : mappedRange heap (.kmalloc size) =
              (heap.heapEnd, heap.heapEnd + growthSpan size) := by
            simp only [mappedRange, search]
          unfold SparesDirectMap at spares
          rw [range] at spares
          have grownKeeps := keeps.expandHeap inited spares expanded
          subst same
          exact ⟨grownKeeps.tables, grownKeeps.bounds⟩
  | kfree ptr =>
      cases result : kfree heap ptr with
      | error panic => simp [bootStep, result, Except.toOption] at stepped
      | ok released =>
          simp only [bootStep, result, Except.toOption, Option.some.injEq] at stepped
          subst released
          obtain ⟨mem, same⟩ := kfree_memory result
          subst same
          exact ⟨keeps.tables, keeps.bounds⟩

/-- In a run whose mappings all spare the direct map, it is a direct map in every state
reached. -/
theorem direct_map_stays {ram : Nat → Prop} {before final : Heap} {calls : List BootCall}
    (tables : BootTables ram before.vmm) (fresh : before.heapInited = false)
    (spares : LabelledRun.Guarded bootStep (SparesDirectMap ram) before calls)
    (reached : LabelledRun.exec bootStep before calls = some final) :
    DirectMapped ram final.vmm := by
  have initial : before.KeepsDirectMap ram := by
    refine ⟨tables, ?_⟩
    intro inited
    rw [fresh] at inited
    cases inited
  have keeps : final.KeepsDirectMap ram :=
    @LabelledRun.exec_invariant_of_guarded _ _ bootStep (fun heap => heap.KeepsDirectMap ram)
      (SparesDirectMap ram) (bootStep_keeps ram) _ _ _ initial spares reached
  exact keeps.tables.direct

/-! ### A machine with RAM at four gigabytes -/

/-- A page of RAM in use whose direct-map address lies in the initial heap loses its
translation. -/
theorem kmallocInit_replaces {ram : Nat → Prop} {heap after : Heap} {page : Nat}
    (tables : BootTables ram heap.vmm)
    (started : kmallocInit heap HEAP_START initialHeapBytes = .ok after) (present : ram page)
    (lower : HEAP_START ≤ HHDM_OFFSET + page * PAGE_SIZE)
    (upper : HHDM_OFFSET + page * PAGE_SIZE < HEAP_START + initialHeapBytes)
    (inUse : ¬ heap.vmm.pmm.Free page) : ¬ DirectMapped ram after.vmm := by
  intro direct
  obtain ⟨_, vmm, mapped, afterEq⟩ := kmallocInit_ok started
  have pages : pagesFor initialHeapBytes = 256 := by decide
  have limit : HEAP_START + 256 * PAGE_SIZE ≤ HEAP_START + HEAP_MAX_SIZE := by decide
  rw [pages] at mapped
  have maps := tables.mapFreshPages (Nat.le_refl _) (by decide) limit mapped
  have fits := tables.fits page present
  obtain ⟨other, frame, free⟩ := maps.fresh _ (directMap_canonical fits) lower upper
  have lookup := direct page present
  have afterVmm : after.vmm = vmm := by rw [afterEq]
  rw [afterVmm, getPhysAddr_directMap (maps.hhdmOffset.trans tables.offset) fits
    (maps.noLarge _ (tables.small page present)), frame] at lookup
  rw [page_eq_of_address (Option.some.inj lookup)] at free
  exact inUse free

/-- Two megabytes of RAM at the start and one page at four gigabytes. -/
def largeMachineRam (page : Nat) : Prop := page < 512 ∨ page = 0x100000

/-- The tables that map that RAM: the PML4 at 0x1000, a PDPT, and for each of the two
parts a PD and a PT. -/
def largeMachineWord (address : Nat) : BitVec 64 :=
  if address = 0x1800 then 0x2003#64
  else if address = 0x2000 then 0x3003#64
  else if address = 0x2020 then 0x5003#64
  else if address = 0x3000 then 0x4003#64
  else if 0x4000 ≤ address ∧ address < 0x5000 ∧ address % 8 = 0 then
    BitVec.ofNat 64 ((address - 0x4000) / 8 * 4096 + 3)
  else if address = 0x5000 then 0x6003#64
  else if address = 0x6000 then 0x100000003#64
  else 0#64

/-- The pages from one to two megabytes are free. -/
def largeMachine : Heap :=
  { vmm :=
      { pmm :=
          { bitmap := fun byte => if 32 ≤ byte ∧ byte < 64 then 0#8 else 0xff#8
            bitmapPtr := 0xffff800000007000
            bitmapLen := 0x20001
            totalPages := 0x100001
            freeCount := 256
            usablePage := 256 }
        cr3 := 0x1000#64
        hhdmOffset := 0xffff800000000000
        physMem := largeMachineWord }
    mem := fun _ => 0#8
    heapHead := 0
    heapEnd := 0
    heapInited := false }

def largeMachineTables : List (List Nat × Nat) :=
  [([], 0x1000), ([256], 0x2000), ([0, 256], 0x3000), ([4, 256], 0x5000),
    ([0, 0, 256], 0x4000), ([0, 4, 256], 0x6000)]

theorem largeMachine_slots : ∀ known ∈ largeMachineTables, known.1.length < 3 →
    ∀ slot < 512, largeLeaf known.1.length (entryAt largeMachine.vmm known.2 slot) = false ∧
      ∀ child ∈ tableChild largeMachine.vmm known.1.length known.2 slot,
        (slot :: known.1, child) ∈ largeMachineTables := by
  decide +kernel

theorem largeMachine_tableAt {path : List Nat} {table : Nat}
    (reached : tableAt largeMachine.vmm path = some table) :
    (path, table) ∈ largeMachineTables := by
  induction path generalizing table with
  | nil =>
      cases reached
      decide
  | cons slot path ih =>
      obtain ⟨parent, above, linked⟩ := PathTree.nodeAt_cons_some reached
      obtain ⟨short, inside, _⟩ := tableChild_some linked
      exact (largeMachine_slots _ (ih above) short slot inside).2 table linked

theorem largeMachine_noLarge (virt : Nat) : NoLargePage largeMachine.vmm virt := by
  constructor
  · intro isLarge
    obtain ⟨table, reached, _, large⟩ := isLarge
    have small := (largeMachine_slots _ (largeMachine_tableAt reached) (by decide : 1 < 3) _
      (pdptIdx_lt virt)).1
    rw [large] at small
    cases small
  · intro isLarge
    obtain ⟨table, reached, _, large⟩ := isLarge
    have small := (largeMachine_slots _ (largeMachine_tableAt reached) (by decide : 2 < 3) _
      (pdIdx_lt virt)).1
    rw [large] at small
    cases small

theorem largeMachine_managed : largeMachine.vmm.Managed where
  tree := by
    intro left right node leftReached rightReached
    have single : ∀ first ∈ largeMachineTables, ∀ second ∈ largeMachineTables,
        first.2 = second.2 → first.1 = second.1 := by decide
    exact single _ (largeMachine_tableAt leftReached) _ (largeMachine_tableAt rightReached) rfl
  fresh page free path reached := by
    have low : ∀ known ∈ largeMachineTables, known.2 < 7 * PAGE_SIZE := by decide
    have below := low _ (largeMachine_tableAt reached)
    have used : ∀ other < 7, isUsed largeMachine.vmm.pmm other = true := by decide
    have clear := free.2
    rw [used page (Nat.lt_of_mul_lt_mul_right below)] at clear
    cases clear
  physical := by decide

theorem largeMachine_direct : DirectMapped largeMachineRam largeMachine.vmm := by
  have low : ∀ page < 512, getPhysAddr largeMachine.vmm
      (physToVirt largeMachine.vmm (page * PAGE_SIZE)) = some (page * PAGE_SIZE) := by
    decide +kernel
  intro page present
  rcases present with below | high
  · exact low page below
  · subst high
    decide +kernel

theorem largeMachine_tables : BootTables largeMachineRam largeMachine.vmm where
  offset := rfl
  fits page present := by
    unfold largeMachineRam at present
    unfold HHDM_OFFSET PAGE_SIZE Word64.modulus
    omega
  direct := largeMachine_direct
  managed := largeMachine_managed
  small page _ := largeMachine_noLarge _
  window virt _ := largeMachine_noLarge virt
  lapic := largeMachine_noLarge _

theorem largeMachine_ready :
    largeMachine.vmm.Ready (tableAt largeMachine.vmm) (0 + 256) where
  managed := largeMachine_managed
  tables _ := rfl
  covered := by decide
  available := by
    have subset : Finset.Ico 256 512 ⊆ Bitmap.clearBelow largeMachine.vmm.pmm.bitmap
        largeMachine.vmm.pmm.totalPages := by
      intro page member
      obtain ⟨lower, upper⟩ := Finset.mem_Ico.mp member
      have tracked : page < 0x100001 := by omega
      refine Bitmap.mem_clearBelow.mpr ⟨tracked, ?_⟩
      have byte : largeMachine.vmm.pmm.bitmap (page / 8) = 0#8 := if_pos (by omega)
      rw [Bitmap.bit_eq_getLsbD, byte]
      exact BitVec.getLsbD_zero
    have count := Finset.card_le_card subset
    rw [Nat.card_Ico] at count
    exact count

theorem largeMachine_started :
    ∃ heap, kmallocInit largeMachine HEAP_START initialHeapBytes = .ok heap := by
  have paths (i : Nat) (below : i < 256) : pathOf (HEAP_START + i * PAGE_SIZE) = [0, 4, 256] := by
    have pd : pdIdx (HEAP_START + i * PAGE_SIZE) = 0 := by
      rw [pdIdx, index_eq]
      unfold HEAP_START PAGE_SIZE
      omega
    have pdpt : pdptIdx (HEAP_START + i * PAGE_SIZE) = 4 := by
      rw [pdptIdx, index_eq]
      unfold HEAP_START PAGE_SIZE
      omega
    have pml4 : pml4Idx (HEAP_START + i * PAGE_SIZE) = 256 := by
      rw [pml4Idx, index_eq]
      unfold HEAP_START PAGE_SIZE
      omega
    rw [pathOf, pd, pdpt, pml4]
  have table : tableAt largeMachine.vmm [0, 4, 256] = some 0x6000 := by decide
  have reached (i : Nat) (below : i < 256) :
      ∃ table, tableAt largeMachine.vmm (pathOf (HEAP_START + i * PAGE_SIZE)) = some table := by
    rw [paths i below]
    exact ⟨0x6000, table⟩
  have fits : HEAP_START + 256 * PAGE_SIZE < Word64.modulus := by decide
  have aligned : HEAP_START % PAGE_SIZE = 0 := by decide
  obtain ⟨vmm, mapped, _⟩ := largeMachine_ready.mapFreshPages fits aligned reached
  exact ⟨_, kmallocInit_of_mapped rfl (by decide) (by decide) mapped⟩

theorem exec_kmallocInit {heap after : Heap}
    (started : kmallocInit heap HEAP_START initialHeapBytes = .ok after) :
    LabelledRun.exec bootStep heap [.kmallocInit] = some after := by
  simp only [LabelledRun.exec, bootStep, started, Except.toOption]

/-- With RAM at four gigabytes the first call breaks the direct map. -/
theorem largeMachine_not_direct :
    BootTables largeMachineRam largeMachine.vmm ∧ largeMachine.heapInited = false ∧
      ∃ final, LabelledRun.exec bootStep largeMachine [.kmallocInit] = some final ∧
        ¬ DirectMapped largeMachineRam final.vmm := by
  obtain ⟨heap, started⟩ := largeMachine_started
  refine ⟨largeMachine_tables, rfl, heap, exec_kmallocInit started, ?_⟩
  apply @kmallocInit_replaces _ _ _ 0x100000 largeMachine_tables started (Or.inr rfl)
  · decide
  · decide
  · intro free
    exact absurd free.2 (by decide)

theorem BootTables.less {ram fewer : Nat → Prop} {vmm : Vmm} (tables : BootTables ram vmm)
    (subset : ∀ page, fewer page → ram page) : BootTables fewer vmm where
  offset := tables.offset
  fits page present := tables.fits page (subset page present)
  direct page present := tables.direct page (subset page present)
  managed := tables.managed
  small page present := tables.small page (subset page present)
  window := tables.window
  lapic := tables.lapic

/-- Without the page at four gigabytes the same call keeps it. -/
theorem largeMachine_low_direct :
    ∃ final, LabelledRun.exec bootStep largeMachine [.kmallocInit] = some final ∧
      DirectMapped (fun page => page < 512) final.vmm := by
  obtain ⟨heap, started⟩ := largeMachine_started
  have reached := exec_kmallocInit started
  refine ⟨heap, reached, ?_⟩
  apply direct_map_stays (largeMachine_tables.less (fun page below => Or.inl below)) rfl _ reached
  refine ⟨?_, fun _ _ => trivial⟩
  intro page below
  left
  have first : (mappedRange largeMachine .kmallocInit).1 = HEAP_START := rfl
  rw [first]
  unfold HHDM_OFFSET PAGE_SIZE HEAP_START
  omega

end CustomKernel.Memory
