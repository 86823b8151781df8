/-
Creations that fail and creations that succeed.

Names are kept beside the kernel, as nothing but the task dump reads them.  A creation
that finds no slot or only one page leaves the kernel as it was, down to the bytes of
the bitmap, because freeing a page undoes taking it.  One that succeeds fills one empty
slot and nothing else.
-/

import CustomKernel.Multitask.TaskPages

set_option autoImplicit false

namespace CustomKernel.Multitask

open Memory

abbrev TaskName := Fin 16 → BitVec 8

/-- The name field after the bytes are copied and the end is marked. -/
def copyName (field : TaskName) (name : List (BitVec 8)) : TaskName :=
  let copyLen := min name.length 15
  fun index =>
    if index.val < copyLen then name.getD index.val 0
    else if index.val = copyLen then 0
    else field index

structure NamedKernel where
  kernel : Kernel
  names : Slot → TaskName

/-- `new_kernel_task` with the name it is given. -/
def newNamedTask (named : NamedKernel) (name : List (BitVec 8)) (entry : Nat) :
    Except Panic (Option Nat × NamedKernel) :=
  match newKernelTask named.kernel entry with
  | .error panic => .error panic
  | .ok (none, kernel) => .ok (none, { named with kernel := kernel })
  | .ok (some pid, kernel) =>
      match allocSlot named.kernel with
      | none => .ok (some pid, { named with kernel := kernel })
      | some slot =>
          .ok (some pid,
            { kernel := kernel
              names := Function.update named.names slot (copyName (named.names slot) name) })

theorem newNamedTask_failed {named : NamedKernel} {entry : Nat} (name : List (BitVec 8))
    (failed : newKernelTask named.kernel entry = .ok (none, named.kernel)) :
    newNamedTask named name entry = .ok (none, named) := by
  unfold newNamedTask
  rw [failed]

theorem newNamedTask_made {named : NamedKernel} {entry pid : Nat} {slot : Slot} {after : Kernel}
    (name : List (BitVec 8)) (chosen : allocSlot named.kernel = some slot)
    (made : newKernelTask named.kernel entry = .ok (some pid, after)) :
    newNamedTask named name entry = .ok (some pid,
      { kernel := after
        names := Function.update named.names slot (copyName (named.names slot) name) }) := by
  unfold newNamedTask
  rw [made]
  dsimp only
  rw [chosen]

/-! ### The allocator gives back what it took -/

theorem freePage_allocPage {pmm middle : Pmm} {phys : Nat} (invariant : pmm.Invariant)
    (taken : allocPage pmm = (some phys, middle)) : freePage middle phys = .ok pmm := by
  have kept := allocPage_invariant invariant
  rcases allocPage_cases invariant with ⟨unchanged, _⟩ | ⟨page, allocated, free, _, positive⟩
  · rw [unchanged] at taken
    cases taken
  · rw [allocated] at taken kept
    cases taken
    have size : PAGE_SIZE = 4096 := rfl
    have aligned : page * PAGE_SIZE % PAGE_SIZE = 0 := Nat.mul_mod_left ..
    have index : page * PAGE_SIZE / PAGE_SIZE = page := Nat.mul_div_cancel _ (by omega)
    have used : isUsed { setUsed pmm page with freeCount := pmm.freeCount - 1 } page = true := by
      change Bitmap.bit (Bitmap.setBit pmm.bitmap page) page = true
      simp [Bitmap.bit_setBit]
    have bitmap : Bitmap.clearBit (Bitmap.setBit pmm.bitmap page) page = pmm.bitmap :=
      Bitmap.clearBit_setBit free.2
    have counted : Word64.add (pmm.freeCount - 1) 1 = pmm.freeCount := by
      have below := invariant.freeCount_le
      have small := invariant.small
      have words : Word64.modulus = 2 ^ 64 := rfl
      rw [Word64.add_eq (by omega)]
      omega
    unfold freePage
    rw [if_neg (fun unaligned => unaligned aligned)]
    dsimp only
    rw [index, if_neg (fun past => past free.1), if_neg (fun unused => unused used)]
    change Except.ok
      { pmm with
        bitmap := Bitmap.clearBit (Bitmap.setBit pmm.bitmap page) page
        freeCount := Word64.add (pmm.freeCount - 1) 1 } = _
    rw [bitmap, counted]

/-- The stack of a creation is two pages, or the allocator is as before. -/
theorem allocStack_cases {pmm : Pmm} (invariant : pmm.Invariant) :
    allocStack pmm = .ok (none, pmm) ∨
      ∃ phys0 phys1 after, allocStack pmm = .ok (some (phys0, phys1), after) ∧
        after.freeCount + STACK_PAGES = pmm.freeCount := by
  unfold allocStack
  cases first : allocPage pmm with
  | mk taken middle =>
      cases taken with
      | none =>
          rcases allocPage_full invariant first with ⟨rfl, _⟩
          exact Or.inl rfl
      | some phys0 =>
          rcases allocPage_took invariant first with ⟨page0, _, took0⟩
          dsimp only
          cases second : allocPage middle with
          | mk taken last =>
              cases taken with
              | none =>
                  rcases allocPage_full took0.invariant second with ⟨rfl, _⟩
                  left
                  dsimp only
                  rw [freePage_allocPage invariant first]
              | some phys1 =>
                  rcases allocPage_took took0.invariant second with ⟨page1, _, took1⟩
                  right
                  refine ⟨phys0, phys1, last, rfl, ?_⟩
                  have pages : STACK_PAGES = 2 := rfl
                  have down0 := took0.counted
                  have down1 := took1.counted
                  omega

theorem newKernelTask_result {kernel : Kernel} (invariant : kernel.pmm.Invariant) (entry : Nat) :
    newKernelTask kernel entry = .ok (none, kernel) ∨
      ∃ slot phys0 phys1 pmm, allocSlot kernel = some slot ∧
        pmm.freeCount + STACK_PAGES = kernel.pmm.freeCount ∧
        newKernelTask kernel entry = .ok (some kernel.nextPid,
          { kernel with
            tasks := Function.update kernel.tasks slot (createdTask kernel entry phys0 phys1)
            nextPid := (kernel.nextPid + 1) % 2 ^ 32
            pmm := pmm }) := by
  unfold newKernelTask
  cases chosen : allocSlot kernel with
  | none => exact Or.inl rfl
  | some slot =>
      rcases allocStack_cases invariant with failed | ⟨phys0, phys1, pmm, taken, counted⟩
      · left
        dsimp only
        rw [failed]
      · right
        refine ⟨slot, phys0, phys1, pmm, rfl, counted, ?_⟩
        dsimp only
        rw [taken]
        rfl

theorem findPid_eq {kernel : Kernel} {pid : Nat} {slot : Slot}
    (used : (kernel.tasks slot).state ≠ .empty) (own : (kernel.tasks slot).pid = pid)
    (unique : ∀ other, other ≠ slot → (kernel.tasks other).state ≠ .empty →
      (kernel.tasks other).pid ≠ pid) : findPid kernel pid = some slot := by
  cases found : findPid kernel pid with
  | none => exact absurd own (findPid_none found slot used)
  | some other =>
      have held := findPid_some found
      by_contra different
      exact unique other (fun same => different (congrArg some same)) held.1 held.2

/-! ### Reachable tables -/

/-- The page owners with the kernel, the names, and the number of tasks created. -/
structure TaskTable where
  owners : PageOwners
  names : Slot → TaskName
  creations : Nat

inductive TableCall where
  | newKernelTask (name : List (BitVec 8)) (entry : Nat)
  | other (call : OwnerCall)

def OwnerCall.creates : OwnerCall → Bool
  | .kernel (.newKernelTask _) => true
  | _ => false

theorem Task.life_pid {task : Task} (used : task.state ≠ .empty) :
    task.life.pid = some task.pid := by
  unfold Task.life
  cases state : task.state with
  | empty => exact absurd state used
  | terminated => rfl
  | _ => rfl

theorem LifeStep.pids_kept {kernel after : Kernel} {call : KernelCall} {returned : Option Int}
    (running : (kernel.tasks kernel.current).state = .running)
    (step : LifeStep kernel call returned after) (notNew : ∀ entry, call ≠ .newKernelTask entry) :
    after.nextPid = kernel.nextPid ∧
      ∀ slot pid, (after.lives slot).pid = some pid → (kernel.lives slot).pid = some pid := by
  cases step with
  | same _ _ _ _ lives nextPid => exact ⟨nextPid, fun slot pid used => lives ▸ used⟩
  | exits code _ lives nextPid =>
      constructor
      · exact nextPid
      · intro slot pid used
        rw [lives] at used
        by_cases caller : slot = kernel.current
        · subst caller
          rw [Function.update_self] at used
          have own : (kernel.tasks kernel.current).pid = pid := Option.some.inj used
          have alive : kernel.lives kernel.current = .alive pid :=
            Task.life_alive.mpr ⟨by simp [running], by simp [running], own⟩
          rw [alive]
          rfl
        · rw [Function.update_of_ne caller] at used
          exact used
  | missing pid _ _ lives nextPid => exact ⟨nextPid, fun slot pid used => lives ▸ used⟩
  | reaps pid code target _ ended lives nextPid =>
      constructor
      · exact nextPid
      · intro slot pid used
        rw [lives] at used
        by_cases removed : slot = target
        · rw [removed, Function.update_self] at used
          cases used
        · rw [Function.update_of_ne removed] at used
          exact used
  | blocks pid target _ _ lives nextPid => exact ⟨nextPid, fun slot pid used => lives ▸ used⟩
  | creates entry _ _ _ _ _ => exact absurd rfl (notNew entry)

namespace TaskTable

def named (table : TaskTable) : NamedKernel :=
  { kernel := table.owners.kernel, names := table.names }

/-- Creations carry a name; all other calls are those of the page owners. -/
def step (table : TaskTable) : TableCall → Option TaskTable
  | .newKernelTask name entry =>
      match newNamedTask table.named name entry with
      | .error _ => none
      | .ok (returned, named) =>
          some
            { owners := table.owners.record named.kernel (.newKernelTask entry)
              names := named.names
              creations := table.creations + if returned.isSome then 1 else 0 }
  | .other call =>
      if call.creates then none
      else (table.owners.step call).map (fun owners => { table with owners := owners })

def idleName : List (BitVec 8) := [0x69, 0x64, 0x6c, 0x65]

def start (pmm : Pmm) (hhdmOffset : Nat) : TaskTable :=
  { owners := PageOwners.start pmm hhdmOffset
    names := fun slot index => if slot = idleSlot then idleName.getD index.val 0 else 0
    creations := 0 }

theorem record_kernel (owners : PageOwners) (after : Kernel) (call : KernelCall) :
    (owners.record after call).kernel = after := by
  cases call with
  | newKernelTask entry =>
      simp only [PageOwners.record]
      split <;> rfl
  | tick _ => rfl
  | yieldCpu => rfl
  | sleepMs _ => rfl
  | exit _ => rfl
  | waitFor _ => rfl

/-- The pid counter counts the creations, and until it wraps it is past all pids in use. -/
structure Invariant (table : TaskTable) : Prop where
  owners : table.owners.Invariant
  counter : table.owners.kernel.nextPid = (table.creations + 1) % 2 ^ 32
  bounded : table.creations < 2 ^ 32 - 1 → ∀ slot pid,
    (table.owners.kernel.lives slot).pid = some pid → pid < table.creations + 1

variable {table : TaskTable}

theorem step_of_creation {name : List (BitVec 8)} {entry : Nat} {next : TaskTable}
    (stepped : table.step (.newKernelTask name entry) = some next) :
    table.owners.step (.kernel (.newKernelTask entry)) = some next.owners := by
  simp only [step, newNamedTask, named] at stepped
  simp only [PageOwners.step, perform]
  cases result : newKernelTask table.owners.kernel entry with
  | error panic =>
      rw [result] at stepped
      cases stepped
  | ok pair =>
      rcases pair with ⟨returned, kernel⟩
      rw [result] at stepped
      cases returned with
      | none =>
          cases stepped
          rfl
      | some pid =>
          dsimp only at stepped
          cases chosen : allocSlot table.owners.kernel with
          | none =>
              rw [chosen] at stepped
              cases stepped
              rfl
          | some slot =>
              rw [chosen] at stepped
              cases stepped
              rfl

theorem start_invariant {entries : List MemmapEntry} {hhdm : Nat} {memory : Bitmap.Bytes}
    {pmm : Pmm} (noOverflow : NoOverflow entries) (aligned : UsableAligned entries)
    (disjoint : UsableDisjoint entries)
    (boot : initPmm (some entries) hhdm memory = .ok pmm) : (start pmm hhdm).Invariant := by
  constructor
  case owners => exact PageOwners.start_invariant noOverflow aligned disjoint boot
  case counter => rfl
  case bounded =>
    intro _ slot pid used
    have zero : slot = 0 := by
      by_contra other
      have absent : (booted pmm hhdm).lives slot = .absent := by
        unfold Kernel.lives
        rw [booted_rest pmm hhdm other]
        rfl
      change ((booted pmm hhdm).lives slot).pid = some pid at used
      rw [absent] at used
      cases used
    subst zero
    have idle : (booted pmm hhdm).lives 0 = .alive 0 := by
      unfold Kernel.lives
      rw [booted_idle pmm hhdm]
      rfl
    change ((booted pmm hhdm).lives 0).pid = some pid at used
    rw [idle] at used
    cases used
    exact Nat.zero_lt_one

theorem Invariant.creates {name : List (BitVec 8)} {entry : Nat} {next : TaskTable}
    (invariant : table.Invariant)
    (stepped : table.step (.newKernelTask name entry) = some next) : next.Invariant := by
  have owners := (PageOwners.turn_of_step invariant.owners (step_of_creation stepped)).invariant
    invariant.owners
  have counter := invariant.counter
  simp only [step, newNamedTask, named] at stepped
  rcases newKernelTask_result invariant.owners.pmm entry with failed |
    ⟨slot, phys0, phys1, pmm, chosen, _, made⟩
  · rw [failed] at stepped
    cases stepped
    constructor
    case owners => exact owners
    case counter => rw [record_kernel]; exact counter
    case bounded =>
      intro left
      rw [record_kernel]
      exact invariant.bounded left
  · rw [made] at stepped
    dsimp only at stepped
    rw [chosen] at stepped
    cases stepped
    constructor
    case owners => exact owners
    case counter =>
      rw [record_kernel]
      dsimp only
      rw [counter]
      simp only [Option.isSome_some, if_true]
      omega
    case bounded =>
      intro left other pid used
      rw [record_kernel] at used
      simp only [Option.isSome_some, if_true] at left ⊢
      have room : table.creations < 2 ^ 32 - 1 := by omega
      change ((table.owners.kernel.setTask slot
        (createdTask table.owners.kernel entry phys0 phys1)).lives other).pid = some pid at used
      rw [Kernel.lives_setTask] at used
      by_cases here : other = slot
      · rw [here, Function.update_self] at used
        have new : table.owners.kernel.nextPid = pid := Option.some.inj used
        omega
      · rw [Function.update_of_ne here] at used
        exact Nat.lt_succ_of_lt (invariant.bounded room other pid used)

theorem Invariant.others {call : OwnerCall} {next : TaskTable} (invariant : table.Invariant)
    (stepped : table.step (.other call) = some next) : next.Invariant := by
  simp only [step] at stepped
  split at stepped
  case isTrue => cases stepped
  case isFalse plain =>
    rcases Option.map_eq_some_iff.mp stepped with ⟨owners, ran, rfl⟩
    have kept : owners.kernel.nextPid = table.owners.kernel.nextPid ∧
        ∀ slot pid, (owners.kernel.lives slot).pid = some pid →
          (table.owners.kernel.lives slot).pid = some pid := by
      cases call with
      | kernel call =>
          have notNew (entry : Nat) : call ≠ .newKernelTask entry := by
            rintro rfl
            exact plain rfl
          simp only [PageOwners.step] at ran
          cases result : perform table.owners.kernel call with
          | error panic =>
              rw [result] at ran
              cases ran
          | ok performed =>
              rw [result] at ran
              cases ran
              rw [record_kernel]
              have running := invariant.owners.running
              exact (perform_lives running result).1.pids_kept running notNew
      | allocPage =>
          rcases PageOwners.step_allocPage invariant.owners ran with rfl | ⟨page, after, _, rfl⟩
          · exact ⟨rfl, fun _ _ used => used⟩
          · exact ⟨rfl, fun _ _ used => used⟩
      | freePage phys =>
          rcases PageOwners.step_freePage invariant.owners ran with ⟨page, after, _, _, _, rfl⟩
          exact ⟨rfl, fun _ _ used => used⟩
    constructor
    case owners => exact (PageOwners.turn_of_step invariant.owners ran).invariant invariant.owners
    case counter => exact kept.1.trans invariant.counter
    case bounded =>
      intro left slot pid used
      exact invariant.bounded left slot pid (kept.2 slot pid used)

theorem step_invariant (table : TaskTable) (call : TableCall) (next : TaskTable)
    (invariant : table.Invariant) (stepped : table.step call = some next) : next.Invariant := by
  cases call with
  | newKernelTask name entry => exact invariant.creates stepped
  | other call => exact invariant.others stepped

/-! ### All or nothing -/

theorem copyName_before (field : TaskName) {name : List (BitVec 8)} {index : Nat}
    (within : index < min name.length 15) :
    copyName field name ⟨index, by omega⟩ = name.getD index 0 := by
  simp only [copyName]
  rw [if_pos within]

theorem copyName_end (field : TaskName) (name : List (BitVec 8)) :
    copyName field name ⟨min name.length 15, by omega⟩ = 0 := by
  unfold copyName
  dsimp only
  rw [if_neg (Nat.lt_irrefl _), if_pos rfl]

/-- In every reachable table a creation never panics; it returns nothing and changes
nothing, or it fills one empty slot, takes the pages of one stack, and is found under
its pid while the pids last. -/
theorem new_kernel_task_all_or_nothing {entries : List MemmapEntry} {hhdm : Nat}
    {memory : Bitmap.Bytes} {pmm : Pmm} {calls : List TableCall} {table : TaskTable}
    (noOverflow : NoOverflow entries) (aligned : UsableAligned entries)
    (disjoint : UsableDisjoint entries)
    (boot : initPmm (some entries) hhdm memory = .ok pmm)
    (run : LabelledRun.exec step (start pmm hhdm) calls = some table)
    (name : List (BitVec 8)) (entry : Nat) :
    ∃ returned after, newNamedTask table.named name entry = .ok (returned, after) ∧
      (returned = none → after = table.named) ∧
      ∀ pid, returned = some pid → ∃ slot,
        (table.named.kernel.tasks slot).state = .empty ∧
        (after.kernel.tasks slot).state = .ready ∧
        (after.kernel.tasks slot).pid = pid ∧
        (∀ other, other ≠ slot →
          after.kernel.tasks other = table.named.kernel.tasks other ∧
            after.names other = table.named.names other) ∧
        after.kernel.pmm.freeCount + STACK_PAGES = table.named.kernel.pmm.freeCount ∧
        (table.creations < 2 ^ 32 - 1 → findPid after.kernel pid = some slot) ∧
        (∀ index (within : index < min name.length 15),
          after.names slot ⟨index, by omega⟩ = name.getD index 0) ∧
        after.names slot ⟨min name.length 15, by omega⟩ = 0 := by
  have invariant : table.Invariant :=
    LabelledRun.exec_invariant step_invariant
      (start_invariant noOverflow aligned disjoint boot) run
  rcases newKernelTask_result invariant.owners.pmm entry with failed |
    ⟨slot, phys0, phys1, pmm, chosen, counted, made⟩
  · refine ⟨none, table.named, newNamedTask_failed name failed, fun _ => rfl, ?_⟩
    intro pid impossible
    cases impossible
  · refine ⟨some table.named.kernel.nextPid, _, newNamedTask_made name chosen made, ?_, ?_⟩
    · intro impossible
      cases impossible
    · intro pid same
      cases same
      refine ⟨slot, allocSlot_empty chosen, ?_, ?_, ?_, counted, ?_, ?_, ?_⟩
      · simp only [Function.update_self]
        rfl
      · simp only [Function.update_self]
        rfl
      · intro other different
        exact ⟨Function.update_of_ne different .., Function.update_of_ne different ..⟩
      · intro left
        have pid : table.named.kernel.nextPid = table.creations + 1 := by
          have counter := invariant.counter
          rw [Nat.mod_eq_of_lt (by omega)] at counter
          exact counter
        apply findPid_eq
        case used => simp [createdTask]
        case own =>
          simp only [Function.update_self]
          rfl
        case unique =>
          intro other different used
          simp only [Function.update_of_ne different] at used ⊢
          have below := invariant.bounded left other _ (Task.life_pid used)
          rw [pid]
          exact Nat.ne_of_lt below
      · intro index within
        simp only [Function.update_self]
        exact copyName_before _ within
      · simp only [Function.update_self]
        exact copyName_end _ _

def sampleCreations : List TableCall :=
  [.newKernelTask [0x61] 0x1000, .other (.kernel .yieldCpu), .other .allocPage]

theorem sampleCreations_second :
    ∃ table after slot,
      LabelledRun.exec step (start PageOwners.sampleBoot 0xffff800000000000) sampleCreations =
        some table ∧
      newNamedTask table.named [0x61, 0x62] 0x2000 = .ok (some 2, after) ∧
      (table.named.kernel.tasks slot).state = .empty ∧
      findPid after.kernel 2 = some slot ∧ after.names slot 1 = 0x62 ∧ after.names slot 2 = 0 := by
  have runs : (LabelledRun.exec step (start PageOwners.sampleBoot 0xffff800000000000)
      sampleCreations).isSome = true := by
    decide +kernel
  have second : (LabelledRun.exec step (start PageOwners.sampleBoot 0xffff800000000000)
      sampleCreations).map (fun table => (table.creations,
        (newNamedTask table.named [0x61, 0x62] 0x2000).toOption.map Prod.fst)) =
      some (1, some (some 2)) := by
    decide +kernel
  rcases Option.isSome_iff_exists.mp runs with ⟨table, run⟩
  rw [run] at second
  have created : table.creations = 1 := congrArg Prod.fst (Option.some.inj second)
  have given : (newNamedTask table.named [0x61, 0x62] 0x2000).toOption.map Prod.fst =
      some (some 2) := congrArg Prod.snd (Option.some.inj second)
  have made := new_kernel_task_all_or_nothing sampleMap_noOverflow sampleMap_aligned
    sampleMap_disjoint PageOwners.sampleBoot_boots run [0x61, 0x62] 0x2000
  rcases made with ⟨returned, after, result, _, succeeds⟩
  rw [result] at given
  cases given
  rcases succeeds 2 rfl with ⟨slot, empty, _, _, _, _, found, copied, ended⟩
  exact ⟨table, after, slot, run, result, empty, found (by omega), copied 1 (by decide), ended⟩

end TaskTable

end CustomKernel.Multitask
