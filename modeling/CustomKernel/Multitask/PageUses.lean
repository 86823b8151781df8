/-
One allocator for the whole kernel.

The heap with its page tables, the task stacks and the other clients draw their pages
from one allocator.  In any order of their calls each page that boot left free has one
use: it is free, it belongs to the stack of one living task, an exit has left it behind,
a client holds it, it backs one page of the heap, or it is a page table.
-/

import CustomKernel.Memory.TakenPages
import CustomKernel.Multitask.TaskPages

set_option autoImplicit false

namespace CustomKernel.Multitask

open Memory

/-! ### The tasks as clients -/

namespace PageOwners

def pages (owners : PageOwners) : Finset Nat := owners.taskPages ∪ owners.held

variable {owners next : PageOwners} {call : OwnerCall}

theorem Turn.exchange (invariant : owners.Invariant) (created : owners.CreatedExits call)
    (turn : owners.Turn call next) :
    Exchange owners.kernel.pmm next.kernel.pmm owners.pages next.pages := by
  have ends := turn.invariant invariant
  have taken (phys : Nat) (member : phys ∈ next.pages) : next.kernel.pmm.Taken phys :=
    ends.taken phys (Finset.mem_union.mp member)
  cases turn with
  | noPage => exact ⟨rfl, fun _ => Iff.rfl, taken⟩
  | takes page after took =>
      refine ⟨took.totalPages, ?_, taken⟩
      intro other
      unfold pages
      rw [Finset.union_insert]
      exact took.freeOrHeld other
  | gives page after holds gave =>
      refine ⟨gave.totalPages, ?_, taken⟩
      intro other
      have notTask : page * PAGE_SIZE ∉ owners.taskPages :=
        fun task => Finset.disjoint_left.mp invariant.disjoint task holds
      have pagesEq : pages { owners.setPmm after with held := owners.held.erase (page * PAGE_SIZE) } =
          owners.pages.erase (page * PAGE_SIZE) := by
        unfold pages
        rw [Finset.erase_union_distrib, Finset.erase_eq_of_notMem notTask]
        rfl
      rw [pagesEq]
      exact gave.freeOrHeld (Finset.mem_union_right _ holds) other
  | same call after _ _ running hhdmOffset pmm stackKept alive =>
      refine ⟨pmm.totalPages, ?_, taken⟩
      intro other
      have free : after.pmm.Free other ↔ owners.kernel.pmm.Free other := by
        unfold Pmm.Free
        rw [pmm.totalPages, pmm.used]
      exact or_congr free Iff.rfl
  | exits code after page running hhdmOffset base gave stackKept alive =>
      refine ⟨gave.totalPages, ?_, taken⟩
      intro other
      have own := invariant.own_base created
      rw [base] at own
      have notHeld : page * PAGE_SIZE ∉ owners.held := Finset.disjoint_left.mp invariant.disjoint own
      unfold pages
      dsimp only
      have pagesEq : owners.taskPages.erase (page * PAGE_SIZE) ∪ owners.held =
          owners.pages.erase (page * PAGE_SIZE) := by
        unfold pages
        rw [Finset.erase_union_distrib, Finset.erase_eq_of_notMem notHeld]
      rw [base, pagesEq]
      exact gave.freeOrHeld (Finset.mem_union_left _ own) other
  | creates entry slot page0 page1 middle after _ running hhdmOffset took0 took1 base top _
      stackKept dead alive =>
      refine ⟨took1.totalPages.trans took0.totalPages, ?_, taken⟩
      intro other
      unfold pages
      dsimp only
      rw [Finset.insert_union, Finset.insert_union, Finset.insert_comm]
      exact (took1.freeOrHeld other).trans (took0.freeOrHeld other)

theorem Invariant.drawn {pmm : Pmm} (invariant : owners.Invariant)
    (draws : owners.kernel.pmm.Draws pmm) : (owners.setPmm pmm).Invariant where
  running := invariant.running
  pmm := draws.invariant invariant.pmm
  stack slot phys0 phys1 given lives := by
    obtain ⟨base, top, first, second, pair⟩ := invariant.stack slot phys0 phys1 given lives
    exact ⟨base, top, first, second, draws.only.totalPages.symm ▸ pair⟩
  idle slot given lives := by
    obtain ⟨zero, base, notFree, notTask, notHeld⟩ := invariant.idle slot given lives
    exact ⟨zero, base, fun free => notFree (draws.only.free free), notTask, notHeld⟩
  apart := invariant.apart
  taken phys owned := draws.only.taken (invariant.taken phys owned)
  disjoint := invariant.disjoint

end PageOwners

/-! ### The heap beside the tasks -/

/-- The tasks and the heap over one allocator: each call leaves it to the next. -/
structure SharedPages where
  owners : PageOwners
  heap : Heap

inductive SharedCall where
  | owner (call : OwnerCall)
  | kmalloc (size : Nat)
  | kfree (ptr : Nat)

inductive PageUse where
  | free
  | stack (slot : Slot)
  | leftBehind
  | client
  | heap
  | table
  deriving DecidableEq

namespace SharedPages

/-- A panic ends the run. -/
def step (shared : SharedPages) : SharedCall → Option SharedPages
  | .owner call =>
      match shared.owners.step call with
      | none => none
      | some owners => some { owners := owners, heap := shared.heap.withPmm owners.kernel.pmm }
  | .kmalloc size =>
      match Memory.kmalloc shared.heap size with
      | .error _ => none
      | .ok (_, heap) => some { owners := shared.owners.setPmm heap.vmm.pmm, heap := heap }
  | .kfree ptr =>
      match Memory.kfree shared.heap ptr with
      | .error _ => none
      | .ok heap => some { shared with heap := heap }

def CreatedExits (shared : SharedPages) : SharedCall → Prop
  | .owner call => shared.owners.CreatedExits call
  | _ => True

instance (shared : SharedPages) : (call : SharedCall) → Decidable (CreatedExits shared call)
  | .owner call => inferInstanceAs (Decidable (shared.owners.CreatedExits call))
  | .kmalloc _ => isTrue trivial
  | .kfree _ => isTrue trivial

/-- The page at the address is one of the two below the stack of a living task. -/
def StackPage (owners : PageOwners) (slot : Slot) (phys : Nat) : Prop :=
  owners.kernel.Alive slot ∧
    ∃ phys0 phys1, owners.given slot = some (phys0, phys1) ∧ (phys = phys0 ∨ phys = phys1)

def Uses (shared : SharedPages) : PageUse → Nat → Prop
  | .free, page => shared.owners.kernel.pmm.Free page
  | .stack slot, page => StackPage shared.owners slot (page * PAGE_SIZE)
  | .leftBehind, page => page * PAGE_SIZE ∈ shared.owners.taskPages ∧
      ∀ slot, ¬ StackPage shared.owners slot (page * PAGE_SIZE)
  | .client, page => page * PAGE_SIZE ∈ shared.owners.held
  | .heap, page => HeapFrame shared.heap.vmm shared.heap.heapEnd (page * PAGE_SIZE)
  | .table, page => IsTable shared.heap.vmm (page * PAGE_SIZE)

structure Invariant (boot : Pmm) (shared : SharedPages) : Prop where
  one : shared.heap.vmm.pmm = shared.owners.kernel.pmm
  owners : shared.owners.Invariant
  accounts : shared.heap.Accounts boot shared.owners.pages

variable {boot : Pmm} {shared next : SharedPages}

/-- The step lemma: each side finds the allocator as the other has left it. -/
theorem step_invariant {call : SharedCall} (invariant : shared.Invariant boot)
    (created : shared.CreatedExits call) (stepped : shared.step call = some next) :
    next.Invariant boot := by
  cases call with
  | owner call =>
      unfold step at stepped
      dsimp only at stepped
      split at stepped
      · cases stepped
      · rename_i owners ownersStep
        cases stepped
        have turn := PageOwners.turn_of_step invariant.owners ownersStep
        have exchange := turn.exchange invariant.owners created
        rw [← invariant.one] at exchange
        exact ⟨rfl, turn.invariant invariant.owners, invariant.accounts.exchanged exchange⟩
  | kmalloc size =>
      unfold step at stepped
      dsimp only at stepped
      split at stepped
      · cases stepped
      · rename_i ptr heap allocated
        cases stepped
        obtain ⟨accounts, draws⟩ := invariant.accounts.kmallocWithin allocated
        rw [invariant.one] at draws
        exact ⟨rfl, invariant.owners.drawn draws, accounts⟩
  | kfree ptr =>
      unfold step at stepped
      dsimp only at stepped
      split at stepped
      · cases stepped
      · rename_i heap freed
        cases stepped
        obtain ⟨accounts, same⟩ := invariant.accounts.kfree freed
        exact ⟨(congrArg Vmm.pmm same).trans invariant.one, invariant.owners, accounts⟩

theorem exec_shared {calls : List SharedCall} {final : SharedPages}
    (invariant : shared.Invariant boot)
    (created : LabelledRun.Guarded step CreatedExits shared calls)
    (run : LabelledRun.exec step shared calls = some final) : final.Invariant boot :=
  LabelledRun.exec_invariant_of_guarded
    (fun _ _ _ holds guard stepped => step_invariant holds guard stepped) invariant created run

/-! ### One use for each page -/

theorem StackPage.task {owners : PageOwners} (invariant : owners.Invariant) {slot : Slot}
    {phys : Nat} (page : StackPage owners slot phys) : phys ∈ owners.taskPages := by
  obtain ⟨lives, phys0, phys1, given, rfl | rfl⟩ := page
  · exact (invariant.stack slot _ _ given lives).2.2.1
  · exact (invariant.stack slot _ _ given lives).2.2.2.1

theorem StackPage.slot_unique {owners : PageOwners} (invariant : owners.Invariant)
    {left right : Slot} {phys : Nat} (leftPage : StackPage owners left phys)
    (rightPage : StackPage owners right phys) : left = right := by
  by_contra different
  obtain ⟨leftLives, left0, left1, leftGiven, leftSame⟩ := leftPage
  obtain ⟨rightLives, right0, right1, rightGiven, rightSame⟩ := rightPage
  obtain ⟨apart00, apart01, apart10, apart11⟩ := invariant.apart left right left0 left1 right0
    right1 different leftGiven rightGiven leftLives rightLives
  rcases leftSame with rfl | rfl <;> rcases rightSame with same | same
  · exact apart00 same
  · exact apart01 same
  · exact apart10 same
  · exact apart11 same

namespace Invariant

variable {page : Nat} {use : PageUse}

theorem held_of_uses (invariant : shared.Invariant boot)
    (uses : (∃ slot, use = .stack slot) ∨ use = .leftBehind ∨ use = .client)
    (used : shared.Uses use page) : page * PAGE_SIZE ∈ shared.owners.pages := by
  rcases uses with ⟨slot, rfl⟩ | rfl | rfl
  · exact Finset.mem_union_left _ (StackPage.task invariant.owners used)
  · exact Finset.mem_union_left _ used.1
  · exact Finset.mem_union_right _ used

theorem heapFrame_data (invariant : shared.Invariant boot) {phys : Nat}
    (frame : HeapFrame shared.heap.vmm shared.heap.heapEnd phys) :
    DataPage shared.heap.vmm phys ∧ phys ∉ shared.owners.pages := by
  obtain ⟨virt, lower, upper, found⟩ := frame
  obtain ⟨other, same, data, notHeld⟩ := invariant.accounts.backs.backing.mapped virt lower upper
  rw [found] at same
  cases same
  exact ⟨data, notHeld⟩

theorem not_free_of_taken (invariant : shared.Invariant boot)
    (taken : shared.heap.vmm.pmm.Taken (page * PAGE_SIZE)) : ¬ shared.Uses .free page := by
  rintro ⟨_, clear⟩
  rw [invariant.one] at taken
  obtain ⟨other, same, _, used⟩ := taken
  rw [← page_eq_of_address same, clear] at used
  cases used

theorem only_table (invariant : shared.Invariant boot) (table : shared.Uses .table page)
    (used : shared.Uses use page) : use = .table := by
  obtain ⟨path, reached⟩ := table
  have backing := invariant.accounts.backs.backing
  have notHeld : page * PAGE_SIZE ∉ shared.owners.pages :=
    fun member => (backing.held _ member).noTable path reached
  have held := @held_of_uses _ _ page use invariant
  cases use with
  | free =>
      have free : shared.heap.vmm.pmm.Free page := by
        rw [invariant.one]
        exact used
      exact absurd reached (backing.managed.fresh page free path)
  | stack slot => exact absurd (held (Or.inl ⟨slot, rfl⟩) used) notHeld
  | leftBehind => exact absurd (held (Or.inr (Or.inl rfl)) used) notHeld
  | client => exact absurd (held (Or.inr (Or.inr rfl)) used) notHeld
  | heap => exact absurd reached ((invariant.heapFrame_data used).1.noTable path)
  | table => rfl

theorem only_heap (invariant : shared.Invariant boot) (heap : shared.Uses .heap page)
    (used : shared.Uses use page) : use = .heap := by
  obtain ⟨data, notHeld⟩ := invariant.heapFrame_data heap
  have held := @held_of_uses _ _ page use invariant
  cases use with
  | free => exact absurd used (invariant.not_free_of_taken data.taken)
  | stack slot => exact absurd (held (Or.inl ⟨slot, rfl⟩) used) notHeld
  | leftBehind => exact absurd (held (Or.inr (Or.inl rfl)) used) notHeld
  | client => exact absurd (held (Or.inr (Or.inr rfl)) used) notHeld
  | heap => rfl
  | table => exact (invariant.only_table used heap).symm

theorem only_free (invariant : shared.Invariant boot) (free : shared.Uses .free page)
    (used : shared.Uses use page) : use = .free := by
  have notHeld : page * PAGE_SIZE ∉ shared.owners.pages := by
    intro member
    have data := invariant.accounts.backs.backing.held _ member
    exact invariant.not_free_of_taken data.taken free
  have held := @held_of_uses _ _ page use invariant
  cases use with
  | free => rfl
  | stack slot => exact absurd (held (Or.inl ⟨slot, rfl⟩) used) notHeld
  | leftBehind => exact absurd (held (Or.inr (Or.inl rfl)) used) notHeld
  | client => exact absurd (held (Or.inr (Or.inr rfl)) used) notHeld
  | heap => exact (invariant.only_heap used free).symm
  | table => exact (invariant.only_table used free).symm

theorem only_client (invariant : shared.Invariant boot) (client : shared.Uses .client page)
    (used : shared.Uses use page) : use = .client := by
  have notTask : page * PAGE_SIZE ∉ shared.owners.taskPages :=
    fun task => Finset.disjoint_left.mp invariant.owners.disjoint task client
  cases use with
  | free => exact (invariant.only_free used client).symm
  | stack slot => exact absurd (StackPage.task invariant.owners used) notTask
  | leftBehind => exact absurd used.1 notTask
  | client => rfl
  | heap => exact (invariant.only_heap used client).symm
  | table => exact (invariant.only_table used client).symm

theorem use_unique (invariant : shared.Invariant boot) {other : PageUse}
    (used : shared.Uses use page) (usedToo : shared.Uses other page) : other = use := by
  cases use with
  | free => exact invariant.only_free used usedToo
  | client => exact invariant.only_client used usedToo
  | heap => exact invariant.only_heap used usedToo
  | table => exact invariant.only_table used usedToo
  | stack slot =>
      cases other with
      | free => exact (invariant.only_free usedToo used).symm
      | client => exact (invariant.only_client usedToo used).symm
      | heap => exact (invariant.only_heap usedToo used).symm
      | table => exact (invariant.only_table usedToo used).symm
      | stack target => rw [StackPage.slot_unique invariant.owners used usedToo]
      | leftBehind => exact absurd used (usedToo.2 slot)
  | leftBehind =>
      cases other with
      | free => exact (invariant.only_free usedToo used).symm
      | client => exact (invariant.only_client usedToo used).symm
      | heap => exact (invariant.only_heap usedToo used).symm
      | table => exact (invariant.only_table usedToo used).symm
      | stack slot => exact absurd usedToo (used.2 slot)
      | leftBehind => rfl

theorem has_use (invariant : shared.Invariant boot) (wasFree : boot.Free page) :
    ∃ use, shared.Uses use page := by
  rcases invariant.accounts.circulates.placed page wasFree with free | held | frame | table
  · rw [invariant.one] at free
    exact ⟨.free, free⟩
  · rcases Finset.mem_union.mp held with task | client
    · by_cases living : ∃ slot, StackPage shared.owners slot (page * PAGE_SIZE)
      · obtain ⟨slot, own⟩ := living
        exact ⟨.stack slot, own⟩
      · exact ⟨.leftBehind, task, fun slot own => living ⟨slot, own⟩⟩
    · exact ⟨.client, client⟩
  · exact ⟨.heap, frame⟩
  · exact ⟨.table, table⟩

theorem uses_boot (invariant : shared.Invariant boot) (used : shared.Uses use page)
    (notTable : use ≠ .table) : boot.Free page := by
  have circulates := invariant.accounts.circulates
  have held := @held_of_uses _ _ page use invariant
  cases use with
  | free =>
      apply circulates.free
      rw [invariant.one]
      exact used
  | stack slot => exact circulates.held page (held (Or.inl ⟨slot, rfl⟩) used)
  | leftBehind => exact circulates.held page (held (Or.inr (Or.inl rfl)) used)
  | client => exact circulates.held page (held (Or.inr (Or.inr rfl)) used)
  | heap => exact circulates.heap page used
  | table => exact absurd rfl notTable

theorem stack_pages (invariant : shared.Invariant boot) {slot : Slot}
    (lives : shared.owners.kernel.Alive slot)
    (created : (shared.owners.given slot).isSome = true) :
    ∃ page0 page1, page0 < page1 ∧ shared.Uses (.stack slot) page0 ∧
      shared.Uses (.stack slot) page1 ∧
      (shared.owners.kernel.tasks slot).stackBase = page0 * PAGE_SIZE ∧
      (shared.owners.kernel.tasks slot).stackTop =
        stackVirtTop shared.owners.kernel (page1 * PAGE_SIZE) := by
  obtain ⟨⟨phys0, phys1⟩, given⟩ := Option.isSome_iff_exists.mp created
  obtain ⟨base, top, _, _, page0, page1, rfl, rfl, below, _⟩ :=
    invariant.owners.stack slot phys0 phys1 given lives
  exact ⟨page0, page1, below, ⟨lives, _, _, given, Or.inl rfl⟩,
    ⟨lives, _, _, given, Or.inr rfl⟩, base, top⟩

end Invariant

/-! ### From boot -/

/-- `init_tasks` runs after the heap has been set up. -/
def start (heap : Heap) (hhdmOffset : Nat) : SharedPages :=
  { owners := PageOwners.start heap.vmm.pmm hhdmOffset
    heap := heap }

/-- Each page that boot left free has exactly one use in every reachable state, no other
page is ever handed out, and a created task has been given two pages that nobody else uses; its
base is the first, its top is computed from the second. -/
theorem every_page_has_one_use {entries : List MemmapEntry} {hhdm n : Nat}
    {memory : Bitmap.Bytes} {before heap : Heap} {calls : List SharedCall} {final : SharedPages}
    (noOverflow : NoOverflow entries) (aligned : UsableAligned entries)
    (disjoint : UsableDisjoint entries)
    (boot : initPmm (some entries) hhdm memory = .ok before.vmm.pmm)
    (tree : TreeShaped before.vmm) (fresh : AllocatesNoTable before.vmm)
    (physical : before.vmm.pmm.totalPages * PAGE_SIZE ≤ 2 ^ 52)
    (noLarge : ∀ virt, InWindow virt → NoLargePage before.vmm virt)
    (unmapped : ∀ virt, InWindow virt → getPhysAddr before.vmm virt = none)
    (started : kmallocInit before HEAP_START n = .ok heap)
    (rounded : (n + 4095) / PAGE_SIZE * PAGE_SIZE ≤ HEAP_MAX_SIZE)
    (created : LabelledRun.Guarded step CreatedExits (start heap hhdm) calls)
    (run : LabelledRun.exec step (start heap hhdm) calls = some final) :
    (∀ page, before.vmm.pmm.Free page → ∃! use, final.Uses use page) ∧
      (∀ page use, final.Uses use page → use ≠ .table → before.vmm.pmm.Free page) ∧
      ∀ slot, final.owners.kernel.Alive slot → (final.owners.given slot).isSome = true →
        ∃ page0 page1, page0 < page1 ∧ final.Uses (.stack slot) page0 ∧
          final.Uses (.stack slot) page1 ∧
          (final.owners.kernel.tasks slot).stackBase = page0 * PAGE_SIZE ∧
          (final.owners.kernel.tasks slot).stackTop =
            stackVirtTop final.owners.kernel (page1 * PAGE_SIZE) := by
  obtain ⟨accounts, draws⟩ := kmallocInit_accounts
    (backing_initial ⟨tree, fresh, physical⟩ noLarge unmapped) rounded started
  have tasks := (PageOwners.start_invariant noOverflow aligned disjoint boot).drawn draws
  have initial : (start heap hhdm).Invariant before.vmm.pmm := ⟨rfl, tasks, accounts⟩
  have reached := exec_shared initial created run
  refine ⟨?_, fun page use used notTable => reached.uses_boot used notTable,
    fun slot lives isCreated => reached.stack_pages lives isCreated⟩
  intro page wasFree
  obtain ⟨use, used⟩ := reached.has_use wasFree
  exact ⟨use, used, fun other usedToo => reached.use_unique used usedToo⟩

/-- An empty PML4 in reserved memory over the allocator that boot makes. -/
def bootHeap : Heap :=
  { freshHeap with
    vmm := { sampleVmm with pmm := PageOwners.sampleBoot, cr3 := 0xa0000#64 } }

theorem bootHeap_empty : RootEmpty bootHeap.vmm := fun _ _ => isPresent_zero

theorem bootHeap_fresh : AllocatesNoTable bootHeap.vmm := by
  apply bootHeap_empty.allocatesNoTable
  intro page address free
  have root : rootTable bootHeap.vmm = 0xa0 * PAGE_SIZE := rfl
  rw [← page_eq_of_address (root.symm.trans address)] at free
  exact absurd free.2 (by decide +kernel)

theorem bootHeap_unmapped (virt : Nat) : getPhysAddr bootHeap.vmm virt = none := by
  rw [getPhysAddr_eq (bootHeap_empty.noLargePage virt), frameOf, leafAt, pathOf,
    bootHeap_empty.tableAt_cons]
  rfl

def bootHeapCalls : List SharedCall :=
  [.owner (.kernel (.newKernelTask 0x1000)), .kmalloc 100, .owner .allocPage,
    .owner (.kernel .yieldCpu), .kmalloc 5000, .owner (.kernel (.exit 0)),
    .kfree 0xffff800100000018]

def bootedHeap : Heap :=
  match kmallocInit bootHeap HEAP_START 4096 with
  | .ok heap => heap
  | .error _ => bootHeap

theorem bootedHeap_starts : kmallocInit bootHeap HEAP_START 4096 = .ok bootedHeap := by
  have starts : (kmallocInit bootHeap HEAP_START 4096).toOption.isSome = true := by
    decide +kernel
  unfold bootedHeap
  cases result : kmallocInit bootHeap HEAP_START 4096 with
  | ok heap => rfl
  | error panic =>
      rw [result] at starts
      cases starts

theorem bootedHeap_one_use :
    ∃ final, LabelledRun.exec step (start bootedHeap 0xffff800000000000) bootHeapCalls =
      some final ∧ (∀ page, PageOwners.sampleBoot.Free page → ∃! use, final.Uses use page) ∧
      ∀ page use, final.Uses use page → use ≠ .table → PageOwners.sampleBoot.Free page := by
  have runs : (LabelledRun.exec step (start bootedHeap 0xffff800000000000)
      bootHeapCalls).isSome = true := by
    decide +kernel
  obtain ⟨final, run⟩ := Option.isSome_iff_exists.mp runs
  have uses := @every_page_has_one_use _ _ 4096 _ bootHeap bootedHeap bootHeapCalls final
    sampleMap_noOverflow sampleMap_aligned sampleMap_disjoint PageOwners.sampleBoot_boots
    bootHeap_empty.treeShaped bootHeap_fresh (by decide +kernel)
    (fun virt _ => bootHeap_empty.noLargePage virt)
    (fun virt _ => bootHeap_unmapped virt) bootedHeap_starts (by decide) (by decide +kernel) run
  exact ⟨final, run, uses.1, uses.2.1⟩

end SharedPages

end CustomKernel.Multitask
