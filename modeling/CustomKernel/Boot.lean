/-
From the boot loader to the idle task.

`_start` sets up the allocators, the heap, the interrupts and the tasks in order; each part
takes what the ones before have left.  Given enough free pages nothing in it fails.  The
descriptor table is a static of its own, and is left to its module.
-/

import CustomKernel.Interrupt.Delivery
import CustomKernel.Interrupt.Pic
import CustomKernel.Interrupt.Pit
import CustomKernel.Memory.EnoughPages
import CustomKernel.Multitask.Creation

set_option autoImplicit false

namespace CustomKernel

open Memory Interrupt Multitask

/-! ### The sequence -/

/-- What the boot loader and the machine hand over. -/
structure Loaded where
  revisionSupported : Bool
  hhdmResponse : Option Nat
  mmapResponse : Option (List MemmapEntry)
  cr3 : BitVec 64
  physMem : Nat → BitVec 64
  bitmapMemory : Bitmap.Bytes
  heapMemory : ByteStore.Store
  /-- The word read from `APIC_BASE_MSR`. -/
  apicBase : BitVec 64
  pics : Controllers

/-- The handlers that the drivers register. -/
inductive Driver where
  | onIrq1
  | onTick
  deriving DecidableEq

inductive BootFailure where
  | revision
  | hhdmMissing
  | panicked (panic : Panic)
  /-- The assertion of `register_irq_handler`. -/
  | irqOutOfRange
  /-- The `expect` behind a creation. -/
  | notCreated (name : List (BitVec 8))

/-- The kernel when `_start` enters the idle task. -/
structure Booted where
  heap : Heap
  tasks : NamedKernel
  irqs : Irqs Driver
  /-- The bytes written to the ports of the timer. -/
  timer : List (Nat × BitVec 8)

def panicked {Result : Type} : Except Panic Result → Except BootFailure Result
  | .ok result => .ok result
  | .error panic => .error (.panicked panic)

def orElse {Result : Type} (failure : BootFailure) : Option Result → Except BootFailure Result
  | some result => .ok result
  | none => .error failure

section Completed

variable {First Result : Type}

theorem panicked_ok (result : Result) : panicked (.ok result) = .ok result := rfl

theorem orElse_some (failure : BootFailure) (result : Result) :
    orElse failure (some result) = .ok result := rfl

theorem completed_bind (result : First) (next : First → Except BootFailure Result) :
    (Except.ok result : Except BootFailure First) >>= next = next result := rfl

theorem pure_completed (result : Result) :
    (pure result : Except BootFailure Result) = .ok result := rfl

end Completed

/-- `new_kernel_task(..).expect(..)` -/
def createTask (tasks : NamedKernel) (name : List (BitVec 8)) (entry : Nat) :
    Except BootFailure NamedKernel :=
  match newNamedTask tasks name entry with
  | .error panic => .error (.panicked panic)
  | .ok (none, _) => .error (.notCreated name)
  | .ok (some _, tasks) => .ok tasks

def taskAName : List (BitVec 8) := [0x74, 0x61, 0x73, 0x6b, 0x5f, 0x61]

def taskBName : List (BitVec 8) := [0x74, 0x61, 0x73, 0x6b, 0x5f, 0x62]

def shellName : List (BitVec 8) := [0x73, 0x68, 0x65, 0x6c, 0x6c]

def INITIAL_HEAP : Nat := 1024 * 1024

def Loaded.vmm (loaded : Loaded) (hhdm : Nat) (pmm : Pmm) : Vmm :=
  { pmm := pmm
    cr3 := loaded.cr3
    hhdmOffset := hhdm
    physMem := loaded.physMem }

theorem Loaded.vmm_pmm (loaded : Loaded) (hhdm : Nat) (pmm : Pmm) :
    (loaded.vmm hhdm pmm).pmm = pmm := rfl

def Loaded.heap (loaded : Loaded) (vmm : Vmm) : Heap :=
  { vmm := vmm
    mem := loaded.heapMemory
    heapHead := 0
    heapEnd := 0
    heapInited := false }

def idleTasks (pmm : Pmm) (hhdm : Nat) : NamedKernel :=
  { kernel := initTasks (Kernel.zeroed pmm hhdm)
    names := fun slot index => if slot = idleSlot then TaskTable.idleName.getD index.val 0 else 0 }

def createTasks (tasks : NamedKernel) (taskA taskB runShell : Nat) :
    Except BootFailure NamedKernel := do
  let tasks ← createTask tasks taskAName taskA
  let tasks ← createTask tasks taskBName taskB
  createTask tasks shellName runShell

/-- `_start` up to the idle task, as it runs if no interrupt comes between its `sti` and the
idle task.  A tick that switches in between may put a task to sleep before the idle task
begins.  The lines on the serial port are left out. -/
def start (loaded : Loaded) (taskA taskB runShell : Nat) : Except BootFailure Booted := do
  if loaded.revisionSupported then pure () else .error .revision
  let hhdm ← orElse .hhdmMissing loaded.hhdmResponse
  let pmm ← panicked (initPmm loaded.mmapResponse hhdm loaded.bitmapMemory)
  let heap ← panicked (kmallocInit (loaded.heap (loaded.vmm hhdm pmm)) HEAP_START INITIAL_HEAP)
  -- `remap` ends with the mapping of the local APIC
  let vmm ← panicked (enableLapicPicMode heap.vmm loaded.apicBase)
  let irqs : Irqs Driver := Irqs.start loaded.pics
  let handles ← orElse .irqOutOfRange (registerIrqHandler irqs.handles 1 .onIrq1)
  let timer ← panicked initPit
  let handles ← orElse .irqOutOfRange (registerIrqHandler handles 0 .onTick)
  let tasks ← createTasks (idleTasks vmm.pmm hhdm) taskA taskB runShell
  pure
    { heap := { heap with vmm := { vmm with pmm := tasks.kernel.pmm } }
      tasks := tasks
      irqs := { irqs with handles := handles }
      timer := timer }

/-! ### The page allocator -/

/-- What the assertions of `init_pmm` ask of the memory map: it reports memory, and the first
usable region that is large enough for the bitmap does not begin at address zero. -/
structure HoldsBitmap (entries : List MemmapEntry) : Prop where
  reported : highestAddr entries ≠ 0
  region : bitmapPhysOf entries ≠ 0

def Loaded.pmm (loaded : Loaded) (entries : List MemmapEntry) (hhdm : Nat) : Pmm :=
  entries.foldl (releaseRegion (bitmapPhysOf entries) (bitmapEndPhysOf entries))
    (allUsed entries hhdm loaded.bitmapMemory)

theorem HoldsBitmap.initPmm {entries : List MemmapEntry} (holds : HoldsBitmap entries)
    (loaded : Loaded) (hhdm : Nat) :
    initPmm (some entries) hhdm loaded.bitmapMemory = .ok (loaded.pmm entries hhdm) := by
  unfold Memory.initPmm
  dsimp only
  rw [if_neg holds.reported, if_neg holds.region]
  rfl

def Loaded.tables (loaded : Loaded) (entries : List MemmapEntry) (hhdm : Nat) : Vmm :=
  loaded.vmm hhdm (loaded.pmm entries hhdm)

/-! ### Creations that succeed -/

theorem allocPage_some_of_free {pmm : Pmm} (invariant : pmm.Invariant)
    (available : 0 < pmm.freeCount) :
    ∃ phys after, allocPage pmm = (some phys, after) ∧ after.Invariant ∧
      after.freeCount + 1 = pmm.freeCount := by
  cases taken : allocPage pmm with
  | mk result after =>
      cases result with
      | none =>
          have none_ : (allocPage pmm).1 = none := by rw [taken]
          have zero := (allocPage_none_iff invariant).mp none_
          omega
      | some phys =>
          obtain ⟨page, _, took⟩ := allocPage_took invariant taken
          exact ⟨phys, after, rfl, took.invariant, took.counted⟩

theorem allocStack_succeeds {pmm : Pmm} (invariant : pmm.Invariant)
    (available : STACK_PAGES ≤ pmm.freeCount) :
    ∃ phys0 phys1 after, allocStack pmm = .ok (some (phys0, phys1), after) ∧ after.Invariant ∧
      after.freeCount + STACK_PAGES = pmm.freeCount := by
  have pages : STACK_PAGES = 2 := rfl
  obtain ⟨phys0, middle, first, middleInvariant, firstCount⟩ :=
    allocPage_some_of_free invariant (by omega)
  obtain ⟨phys1, after, second, afterInvariant, secondCount⟩ :=
    allocPage_some_of_free middleInvariant (by omega)
  refine ⟨phys0, phys1, after, ?_, afterInvariant, by omega⟩
  unfold allocStack
  rw [first]
  dsimp only
  rw [second]

def withTask (tasks : NamedKernel) (slot : Slot) (name : List (BitVec 8)) (entry phys0 phys1 : Nat)
    (pmm : Pmm) : NamedKernel :=
  { kernel :=
      { tasks.kernel with
        tasks := Function.update tasks.kernel.tasks slot
          (createdTask tasks.kernel entry phys0 phys1)
        nextPid := (tasks.kernel.nextPid + 1) % 2 ^ 32
        pmm := pmm }
    names := Function.update tasks.names slot (copyName (tasks.names slot) name) }

theorem createTask_succeeds {tasks : NamedKernel} {slot : Slot} (name : List (BitVec 8))
    (entry : Nat) (invariant : tasks.kernel.pmm.Invariant)
    (chosen : allocSlot tasks.kernel = some slot)
    (available : STACK_PAGES ≤ tasks.kernel.pmm.freeCount) :
    ∃ phys0 phys1 pmm, pmm.Invariant ∧ pmm.freeCount + STACK_PAGES = tasks.kernel.pmm.freeCount ∧
      createTask tasks name entry = .ok (withTask tasks slot name entry phys0 phys1 pmm) := by
  obtain ⟨phys0, phys1, pmm, stack, after, counted⟩ := allocStack_succeeds invariant available
  refine ⟨phys0, phys1, pmm, after, counted, ?_⟩
  have made : newKernelTask tasks.kernel entry = .ok (some tasks.kernel.nextPid,
      (withTask tasks slot name entry phys0 phys1 pmm).kernel) := by
    unfold newKernelTask
    rw [chosen]
    dsimp only
    rw [stack]
    rfl
  rw [createTask, newNamedTask_made name chosen made]
  rfl

/-! ### The three tasks -/

def taskASlot : Slot := ⟨1, by decide⟩
def taskBSlot : Slot := ⟨2, by decide⟩
def shellSlot : Slot := ⟨3, by decide⟩

structure Waits (tasks : NamedKernel) (slot : Slot) (pid entry : Nat) (name : List (BitVec 8)) :
    Prop where
  state : (tasks.kernel.tasks slot).state = .ready
  pid : (tasks.kernel.tasks slot).pid = pid
  entry : (tasks.kernel.tasks slot).rsp = .fresh entry
  name : ∀ index : Fin 16, index.val ≤ name.length →
    tasks.names slot index = name.getD index.val 0

theorem copyName_short (field : TaskName) {name : List (BitVec 8)} (short : name.length ≤ 15)
    (index : Fin 16) (within : index.val ≤ name.length) :
    copyName field name index = name.getD index.val 0 := by
  have whole : min name.length 15 = name.length := Nat.min_eq_left short
  rcases Nat.lt_or_eq_of_le within with before | past
  · exact TaskTable.copyName_before field (by rw [whole]; exact before)
  · have last := TaskTable.copyName_end field name
    rw [List.getD_eq_default _ _ (Nat.le_of_eq past.symm)]
    convert last using 2
    exact Fin.ext (past.trans whole.symm)

structure Filled (tasks : NamedKernel) (taskA taskB runShell : Nat) : Prop where
  current : tasks.kernel.current = idleSlot
  idle : (tasks.kernel.tasks idleSlot).state = .running
  taskA : Waits tasks taskASlot 1 taskA taskAName
  taskB : Waits tasks taskBSlot 2 taskB taskBName
  shell : Waits tasks shellSlot 3 runShell shellName
  others : ∀ slot : Slot, 3 < slot.val → (tasks.kernel.tasks slot).state = .empty

theorem createTasks_succeeds {pmm : Pmm} {hhdm : Nat} (taskA taskB runShell : Nat)
    (invariant : pmm.Invariant) (available : 6 ≤ pmm.freeCount) :
    ∃ tasks, createTasks (idleTasks pmm hhdm) taskA taskB runShell = .ok tasks ∧
      Filled tasks taskA taskB runShell ∧ tasks.kernel.pmm.Invariant ∧
      tasks.kernel.pmm.freeCount + 6 = pmm.freeCount := by
  have pages : STACK_PAGES = 2 := rfl
  obtain ⟨a0, a1, pmmA, invariantA, countA, createdA⟩ :=
    @createTask_succeeds (idleTasks pmm hhdm) taskASlot taskAName taskA invariant rfl
      (by change STACK_PAGES ≤ pmm.freeCount; omega)
  change pmmA.freeCount + STACK_PAGES = pmm.freeCount at countA
  let tasksA := withTask (idleTasks pmm hhdm) taskASlot taskAName taskA a0 a1 pmmA
  obtain ⟨b0, b1, pmmB, invariantB, countB, createdB⟩ :=
    @createTask_succeeds tasksA taskBSlot taskBName taskB invariantA rfl
      (by change STACK_PAGES ≤ pmmA.freeCount; omega)
  change pmmB.freeCount + STACK_PAGES = pmmA.freeCount at countB
  let tasksB := withTask tasksA taskBSlot taskBName taskB b0 b1 pmmB
  obtain ⟨c0, c1, pmmC, invariantC, countC, createdC⟩ :=
    @createTask_succeeds tasksB shellSlot shellName runShell invariantB rfl
      (by change STACK_PAGES ≤ pmmB.freeCount; omega)
  change pmmC.freeCount + STACK_PAGES = pmmB.freeCount at countC
  refine ⟨withTask tasksB shellSlot shellName runShell c0 c1 pmmC, ?_, ?_, invariantC, ?_⟩
  · rw [createTasks, createdA, completed_bind, createdB, completed_bind]
    exact createdC
  · constructor
    case current => rfl
    case idle => rfl
    case taskA => exact ⟨rfl, rfl, rfl, copyName_short _ (by decide)⟩
    case taskB => exact ⟨rfl, rfl, rfl, copyName_short _ (by decide)⟩
    case shell => exact ⟨rfl, rfl, rfl, copyName_short _ (by decide)⟩
    case others =>
      intro slot above
      have apart {other : Slot} (low : other.val ≤ 3) : slot ≠ other := by
        rintro rfl
        omega
      have unused : ((idleTasks pmm hhdm).kernel.tasks slot).state = .empty :=
        congrArg Task.state (booted_rest pmm hhdm (apart (by decide)))
      simp only [withTask, tasksB, tasksA]
      rw [Function.update_of_ne (apart (by decide)), Function.update_of_ne (apart (by decide)),
        Function.update_of_ne (apart (by decide))]
      exact unused
  · change pmmC.freeCount + 6 = pmm.freeCount
    omega

/-! ### The memory of the kernel -/

/-- The heap lies on pages that were free, the local APIC is reached at its address, and all
else is translated as before. -/
structure Translates (before : Vmm) (apicBase : BitVec 64) (after : Vmm) : Prop where
  heap : ∀ virt, HEAP_START ≤ virt → virt < HEAP_START + INITIAL_HEAP →
    ∃ page, before.pmm.Free page ∧
      getPhysAddr after virt = some (page * PAGE_SIZE + virt % PAGE_SIZE)
  lapic : ∀ offset, offset < PAGE_SIZE →
    getPhysAddr after (LAPIC_VIRT + offset) = some (apicPhys apicBase + offset)
  others : ∀ virt, Canonical virt → virt < HEAP_START ∨ HEAP_START + INITIAL_HEAP ≤ virt →
    virt / PAGE_SIZE ≠ LAPIC_VIRT / PAGE_SIZE → NoLargePage before virt →
      getPhysAddr after virt = getPhysAddr before virt

theorem lapic_canonical : Canonical LAPIC_VIRT := Or.inr (by decide)

theorem apicPhys_lt (msr : BitVec 64) : apicPhys msr < 2 ^ 52 := by
  have bound : apicPhys msr ≤ (0xFFFFF000#64).toNat := by
    rw [apicPhys, BitVec.toNat_and]
    exact Nat.and_le_right
  exact Nat.lt_of_le_of_lt bound (by decide)

theorem apicPhys_aligned (msr : BitVec 64) : apicPhys msr % PAGE_SIZE = 0 := by
  have cleared : msr &&& 0xFFFFF000#64 &&& 0xFFF#64 = 0#64 := by
    rw [BitVec.and_assoc]
    exact BitVec.and_zero
  have low : (msr &&& 0xFFFFF000#64).toNat &&& 2 ^ 12 - 1 = 0 := congrArg BitVec.toNat cleared
  rw [Nat.and_two_pow_sub_one_eq_mod] at low
  exact low

theorem initialHeap_pages : pagesFor INITIAL_HEAP = 255 + 1 := by
  rw [pagesFor_eq (by decide)]
  rfl

theorem translates_of_mapped {before : Heap} {heap : Heap} {vmm : Vmm} {apicBase : BitVec 64}
    (managed : before.vmm.Managed)
    (noLarge : ∀ virt, InWindow virt → NoLargePage before.vmm virt)
    (noLargeLapic : NoLargePage before.vmm LAPIC_VIRT)
    (started : kmallocInit before HEAP_START INITIAL_HEAP = .ok heap)
    (mapped : enableLapicPicMode heap.vmm apicBase = .ok vmm) :
    Translates before.vmm apicBase vmm := by
  obtain ⟨_, middle, fresh, rfl⟩ := kmallocInit_ok started
  have span : pagesFor INITIAL_HEAP * PAGE_SIZE = INITIAL_HEAP := by
    rw [initialHeap_pages]
    rfl
  have window {virt : Nat} (lower : HEAP_START ≤ virt)
      (upper : virt < HEAP_START + pagesFor INITIAL_HEAP * PAGE_SIZE) : InWindow virt := by
    have inside : INITIAL_HEAP ≤ HEAP_MAX_SIZE := by decide
    exact ⟨lower, by omega⟩
  have backed := mapFreshPages_fresh managed (by decide) (by rw [span]; decide)
    (fun virt lower upper => (window lower upper).canonical)
    (fun virt lower upper => noLarge virt (window lower upper)) fresh
  rw [span] at backed window
  obtain ⟨_, frames, kept, _⟩ := mapPage_frames backed.managed lapic_canonical
    (backed.noLarge _ noLargeLapic) (apicPhys_lt apicBase) (by unfold PteFlags; decide) mapped
  have lookup {virt : Nat} (small : NoLargePage before.vmm virt) :
      getPhysAddr vmm virt = (frameOf vmm virt).map (fun frame => frame + virt % PAGE_SIZE) :=
    getPhysAddr_eq (kept _ (backed.noLarge _ small))
  constructor
  case heap =>
    intro virt lower upper
    have inside := window lower upper
    have elsewhere : virt / PAGE_SIZE ≠ LAPIC_VIRT / PAGE_SIZE := by
      unfold HEAP_START INITIAL_HEAP at *
      unfold LAPIC_VIRT PAGE_SIZE
      omega
    obtain ⟨page, frame, free⟩ := backed.fresh virt inside.canonical lower upper
    refine ⟨page, free, ?_⟩
    rw [lookup (noLarge virt inside), frames virt inside.canonical, if_neg elsewhere, frame]
    rfl
  case lapic =>
    intro offset below
    have region := @pathOf_region LAPIC_VIRT offset (by decide : LAPIC_VIRT % 2 ^ 21 = 0)
      (Nat.lt_trans below (by decide : PAGE_SIZE < 2 ^ 21))
    simp only [pathOf, List.cons.injEq, and_true] at region
    have small : NoLargePage before.vmm (LAPIC_VIRT + offset) := by
      unfold NoLargePage
      rw [region.1, region.2.1, region.2.2]
      exact noLargeLapic
    have canonical : Canonical (LAPIC_VIRT + offset) := by
      unfold Canonical LAPIC_VIRT
      unfold PAGE_SIZE at below
      omega
    have samePage : (LAPIC_VIRT + offset) / PAGE_SIZE = LAPIC_VIRT / PAGE_SIZE := by
      unfold LAPIC_VIRT PAGE_SIZE
      unfold PAGE_SIZE at below
      omega
    have rest : (LAPIC_VIRT + offset) % PAGE_SIZE = offset := by
      unfold LAPIC_VIRT PAGE_SIZE
      unfold PAGE_SIZE at below
      omega
    rw [lookup small, frames _ canonical, if_pos samePage, rest]
    rfl
  case others =>
    intro virt canonical outside elsewhere small
    rw [lookup small, frames virt canonical, if_neg elsewhere,
      backed.frames virt canonical outside, getPhysAddr_eq small]

/-! ### Boot -/

def driverLines : Lines Driver :=
  { Lines.start with
    handles := fun irq =>
      if irq.val = 0 then some .onTick else if irq.val = 1 then some .onIrq1 else none }

structure Prepared (loaded : Loaded) (before : Vmm) (taskA taskB runShell : Nat)
    (booted : Booted) : Prop where
  heap : Laid booted.heap [{ size := INITIAL_HEAP - HEADER_SIZE, used := false }]
  translates : Translates before loaded.apicBase booted.heap.vmm
  irqs : Tracks booted.irqs driverLines
  tasks : Filled booted.tasks taskA taskB runShell
  timer : ∃ low high,
    booted.timer = [(PIT_COMMAND, 0x36#8), (PIT_CHANNEL0, low), (PIT_CHANNEL0, high)] ∧
    low.toNat + 256 * high.toNat = PIT_BASE_FREQUENCY / TICKS_PER_SECOND
  shared : booted.heap.vmm.pmm = booted.tasks.kernel.pmm
  invariant : booted.heap.vmm.pmm.Invariant
  left : getFreePageCount before.pmm ≤ getFreePageCount booted.heap.vmm.pmm + 268

theorem driver_handles (pics : Controllers) :
    ∃ first second,
      registerIrqHandler (Irqs.start pics : Irqs Driver).handles 1 .onIrq1 = some first ∧
      registerIrqHandler first 0 .onTick = some second ∧
      Tracks { (Irqs.start pics : Irqs Driver) with handles := second } driverLines := by
  refine ⟨_, _, rfl, rfl, { start_tracks pics with handles := ?_ }⟩
  funext irq
  change Function.update (Function.update _ _ _) _ _ irq = ite _ _ _
  simp only [Function.update_apply, Fin.ext_iff]
  rfl

theorem initPit_divides :
    ∃ low high, initPit =
        .ok [(PIT_COMMAND, 0x36#8), (PIT_CHANNEL0, low), (PIT_CHANNEL0, high)] ∧
      low.toNat + 256 * high.toNat = PIT_BASE_FREQUENCY / TICKS_PER_SECOND :=
  ⟨0x9b#8, 0x2e#8, rfl, rfl⟩

/-- With 268 free pages, and a place for the bitmap, nothing in the boot fails. -/
theorem boot_succeeds {loaded : Loaded} {entries : List MemmapEntry} {hhdm : Nat}
    (taskA taskB runShell : Nat) (revision : loaded.revisionSupported = true)
    (offset : loaded.hhdmResponse = some hhdm) (map : loaded.mmapResponse = some entries)
    (noOverflow : NoOverflow entries) (aligned : UsableAligned entries)
    (disjoint : UsableDisjoint entries) (holds : HoldsBitmap entries)
    (tree : TreeShaped (loaded.tables entries hhdm))
    (fresh : AllocatesNoTable (loaded.tables entries hhdm))
    (physical : (loaded.pmm entries hhdm).totalPages * PAGE_SIZE ≤ 2 ^ 52)
    (noLarge : ∀ virt, InWindow virt → NoLargePage (loaded.tables entries hhdm) virt)
    (noLargeLapic : NoLargePage (loaded.tables entries hhdm) LAPIC_VIRT)
    (available : 268 ≤ getFreePageCount (loaded.pmm entries hhdm)) :
    ∃ booted, start loaded taskA taskB runShell = .ok booted ∧
      Prepared loaded (loaded.tables entries hhdm) taskA taskB runShell booted := by
  have boot := holds.initPmm loaded hhdm
  unfold Loaded.tables at *
  generalize loaded.pmm entries hhdm = pmm at *
  have invariant := initPmm_invariant noOverflow aligned disjoint boot
  have free : getFreePageCount pmm = pmm.freePages := invariant.counted
  have managed : (loaded.heap (loaded.vmm hhdm pmm)).vmm.Managed := ⟨tree, fresh, physical⟩
  obtain ⟨heap, started, heapManaged, heapDraws, heapSpends⟩ :=
    @kmallocInit_succeeds (loaded.heap (loaded.vmm hhdm pmm)) INITIAL_HEAP 255 rfl (by decide)
      managed invariant.covered (noLarge HEAP_START ⟨Nat.le_refl _, by decide⟩)
      initialHeap_pages (by decide) (by change 255 + 4 ≤ pmm.freePages; omega)
  have heapLeft : pmm.freePages ≤ heap.vmm.pmm.freePages + (255 + 4) := heapSpends.left
  obtain ⟨vmm, mapped, lapicSpends⟩ := @mapPage_succeeds heap.vmm LAPIC_VIRT
    (apicPhys loaded.apicBase) (PTE_PRESENT ||| PTE_WRITABLE ||| PTE_NO_CACHE) (by decide)
    (apicPhys_aligned _) heapSpends.covered (by omega)
  have lapicLeft := lapicSpends.left
  have vmmInvariant := (heapDraws.trans (mapPage_draws mapped)).invariant invariant
  have vmmFree : vmm.pmm.freeCount = vmm.pmm.freePages := vmmInvariant.counted
  obtain ⟨tasks, created, filled, tasksInvariant, tasksCount⟩ :=
    @createTasks_succeeds vmm.pmm hhdm taskA taskB runShell vmmInvariant (by omega)
  obtain ⟨first, second, onIrq1, onTick, tracks⟩ := driver_handles loaded.pics
  obtain ⟨low, high, timer, divided⟩ := initPit_divides
  refine ⟨{ heap := { heap with vmm := { vmm with pmm := tasks.kernel.pmm } }
            tasks := tasks
            irqs := { Irqs.start loaded.pics with handles := second }
            timer := [(PIT_COMMAND, 0x36#8), (PIT_CHANNEL0, low), (PIT_CHANNEL0, high)] },
    ?_, ?_⟩
  · have lapic : enableLapicPicMode heap.vmm loaded.apicBase = .ok vmm := mapped
    simp only [start, revision, offset, map, boot, started, lapic, onIrq1, timer, onTick, created,
      if_true, panicked_ok, orElse_some, completed_bind, pure_completed]
  · have laid := kmallocInit_first (by decide) started
    have size : Word64.mul (pagesFor INITIAL_HEAP) PAGE_SIZE = INITIAL_HEAP := by
      rw [initialHeap_pages]
      rfl
    rw [size] at laid
    have translates := translates_of_mapped managed noLarge noLargeLapic started mapped
    exact
      { heap := { laid with }
        translates := { translates with }
        irqs := tracks
        tasks := filled
        timer := ⟨low, high, rfl, divided⟩
        shared := rfl
        invariant := tasksInvariant
        left := by
          change pmm.freeCount ≤ tasks.kernel.pmm.freeCount + 268
          change pmm.freeCount = pmm.freePages at free
          omega }

def threeMegabytes : List MemmapEntry :=
  sampleMap ++ [{ base := 0x200000, length := 0x300000, type_ := MEMMAP_USABLE }]

/-- An empty PML4 in the hole. -/
def sampleLoaded : Loaded :=
  { revisionSupported := true
    hhdmResponse := some 0xffff800000000000
    mmapResponse := some threeMegabytes
    cr3 := 0xa0000#64
    physMem := fun _ => 0#64
    bitmapMemory := fun _ => 0#8
    heapMemory := fun _ => 0#8
    apicBase := 0xfee00900#64
    pics := ⟨sampleController, sampleController⟩ }

theorem threeMegabytes_holds : HoldsBitmap threeMegabytes := ⟨by decide, by decide⟩

theorem sampleLoaded_empty :
    RootEmpty (sampleLoaded.tables threeMegabytes 0xffff800000000000) := by
  intro slot _
  have zero (vmm : Vmm) (blank : vmm.physMem = fun _ => 0#64) (table : Nat) :
      entryAt vmm table slot = 0#64 := congrFun blank _
  rw [zero _ rfl]
  exact isPresent_zero

theorem sampleLoaded_fresh :
    AllocatesNoTable (sampleLoaded.tables threeMegabytes 0xffff800000000000) := by
  apply sampleLoaded_empty.allocatesNoTable
  intro page address free
  have frames : (sampleLoaded.tables threeMegabytes 0xffff800000000000).pmm =
      sampleLoaded.pmm threeMegabytes 0xffff800000000000 := sampleLoaded.vmm_pmm _ _
  have boots := threeMegabytes_holds.initPmm sampleLoaded 0xffff800000000000
  rw [frames, initPmm_free_iff boots] at free
  have root : rootTable (sampleLoaded.tables threeMegabytes 0xffff800000000000) =
      0xa0 * PAGE_SIZE := by decide +kernel
  have high := free.2.1
  rw [← address, root] at high
  exact absurd high (by decide)

theorem sampleLoaded_boots :
    ∃ booted, start sampleLoaded 0x1000 0x2000 0x3000 = .ok booted ∧
      booted.irqs.handles timerLine = some .onTick ∧
      getPhysAddr booted.heap.vmm 0xfffffffffee00020 = some 0xfee00020 := by
  obtain ⟨booted, run, prepared⟩ := @boot_succeeds sampleLoaded threeMegabytes 0xffff800000000000
    0x1000 0x2000 0x3000 rfl rfl rfl
    (by unfold NoOverflow threeMegabytes sampleMap; decide)
    (by unfold UsableAligned threeMegabytes sampleMap; decide)
    ((separate_of_sorted (by unfold threeMegabytes sampleMap; decide)).imp
      fun separate _ _ => separate)
    threeMegabytes_holds sampleLoaded_empty.treeShaped sampleLoaded_fresh (by decide +kernel)
    (fun virt _ => sampleLoaded_empty.noLargePage virt) (sampleLoaded_empty.noLargePage _)
    (by decide +kernel)
  refine ⟨booted, run, ?_, prepared.translates.lapic 0x20 (by decide)⟩
  rw [prepared.irqs.handles]
  rfl

end CustomKernel
