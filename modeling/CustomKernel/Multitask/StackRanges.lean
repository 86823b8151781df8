/-
The address ranges of the task stacks.

`new_kernel_task` places a stack below the end of its second page, so the stack is
made of its two pages exactly when the second follows the first.  The allocator gives
out the lowest clear pages; whether those are neighbours is decided by the bitmap at
the moment of the creation.
-/

import CustomKernel.Foundation.Word64
import CustomKernel.Multitask.StackPages
import CustomKernel.Multitask.TaskPages
import Mathlib.Data.Set.Basic

set_option autoImplicit false

namespace CustomKernel.Multitask

open Memory

/-! ### Ranges of addresses -/

/-- `size` addresses from `start` on, as pointers wrap. -/
def addressRange (start size : Nat) : Set Nat :=
  {address | address < Word64.modulus ∧ Word64.sub address start < size}

def pageRange (kernel : Kernel) (phys : Nat) : Set Nat :=
  addressRange (Word64.add phys kernel.hhdmOffset) PAGE_SIZE

def stackRange (task : Task) : Set Nat :=
  addressRange (Word64.sub task.stackTop STACK_SIZE) STACK_SIZE

section pages

variable {kernel : Kernel}

theorem pageRange_disjoint {left right : Nat} (leftSmall : left * PAGE_SIZE < Word64.modulus)
    (rightSmall : right * PAGE_SIZE < Word64.modulus) (different : left ≠ right) {address : Nat}
    (inLeft : address ∈ pageRange kernel (left * PAGE_SIZE)) :
    address ∉ pageRange kernel (right * PAGE_SIZE) := by
  intro inRight
  obtain ⟨small, fromLeft⟩ := inLeft
  obtain ⟨_, fromRight⟩ := inRight
  unfold Word64.sub Word64.add PAGE_SIZE Word64.modulus at *
  omega

theorem stackRange_of_neighbours {task : Task} {page : Nat}
    (top : task.stackTop = stackVirtTop kernel ((page + 1) * PAGE_SIZE)) :
    stackRange task = pageRange kernel (page * PAGE_SIZE) ∪
      pageRange kernel ((page + 1) * PAGE_SIZE) := by
  unfold stackRange
  rw [top]
  ext address
  unfold pageRange addressRange stackVirtTop
  rw [Set.mem_union, Set.mem_ofPred_eq, Set.mem_ofPred_eq, Set.mem_ofPred_eq]
  unfold STACK_SIZE STACK_PAGES Word64.sub Word64.add PAGE_SIZE Word64.modulus
  omega

theorem neighbours_of_stackRange {task : Task} {page0 page1 : Nat} (ordered : page0 < page1)
    (small : page1 * PAGE_SIZE < Word64.modulus)
    (top : task.stackTop = stackVirtTop kernel (page1 * PAGE_SIZE))
    (covers : pageRange kernel (page0 * PAGE_SIZE) ⊆ stackRange task) : page1 = page0 + 1 := by
  have first : Word64.add (page0 * PAGE_SIZE) kernel.hhdmOffset ∈
      pageRange kernel (page0 * PAGE_SIZE) := by
    refine ⟨Word64.add_lt _ _, ?_⟩
    unfold Word64.sub Word64.add PAGE_SIZE Word64.modulus
    omega
  obtain ⟨_, inside⟩ := covers first
  rw [top] at inside
  unfold stackVirtTop at inside
  unfold STACK_SIZE STACK_PAGES Word64.sub Word64.add PAGE_SIZE Word64.modulus at *
  omega

end pages

/-! ### Which page comes next -/

theorem allocSlot_none {kernel : Kernel} (full : allocSlot kernel = none) (slot : Slot) :
    (kernel.tasks slot).state ≠ .empty := by
  unfold allocSlot at full
  rw [List.find?_eq_none] at full
  simpa using full slot (List.mem_finRange slot)

theorem allocStack_none_few {pmm after : Pmm} (invariant : pmm.Invariant)
    (allocated : allocStack pmm = .ok (none, after)) {page other : Nat} (free : pmm.Free page)
    (alsoFree : pmm.Free other) : page = other := by
  unfold allocStack at allocated
  cases first : allocPage pmm with
  | mk taken middle =>
      rw [first] at allocated
      cases taken with
      | none => exact absurd free ((allocPage_full invariant first).2 page)
      | some given =>
          obtain ⟨lowest, same, took⟩ := allocPage_took invariant first
          dsimp only at allocated
          cases second : allocPage middle with
          | mk taken last =>
              rw [second] at allocated
              cases taken with
              | some given1 => cases allocated
              | none =>
                  have full := (allocPage_full took.invariant second).2
                  have only {candidate : Nat} (clear : pmm.Free candidate) :
                      candidate = lowest := by
                    by_contra different
                    apply full candidate
                    refine ⟨took.totalPages ▸ clear.1, ?_⟩
                    rw [took.used, clear.2]
                    simp [different]
                  rw [only free, only alsoFree]

namespace PageOwners

/-- The range of every ready, running or blocked created task is its two pages, and no
two of these ranges meet. -/
structure OwnStacks (owners : PageOwners) : Prop where
  own : ∀ slot phys0 phys1, owners.given slot = some (phys0, phys1) →
    (owners.kernel.tasks slot).state ∈ [TaskState.ready, .running, .blocked] →
    stackRange (owners.kernel.tasks slot) =
      pageRange owners.kernel phys0 ∪ pageRange owners.kernel phys1
  apart : ∀ left right, left ≠ right → (owners.given left).isSome = true →
    (owners.given right).isSome = true →
    (owners.kernel.tasks left).state ∈ [TaskState.ready, .running, .blocked] →
    (owners.kernel.tasks right).state ∈ [TaskState.ready, .running, .blocked] →
    ∀ address, address ∈ stackRange (owners.kernel.tasks left) →
      address ∉ stackRange (owners.kernel.tasks right)

/-- Where a creation has a slot and two clear pages, the page after the lowest clear
one is clear. -/
def PairFree (owners : PageOwners) : OwnerCall → Prop
  | .kernel (.newKernelTask _) =>
      (∃ slot, (owners.kernel.tasks slot).state = .empty) →
      ∀ page, owners.kernel.pmm.Free page →
        (∀ other, other < page → ¬ owners.kernel.pmm.Free other) →
        (∃ other, other ≠ page ∧ owners.kernel.pmm.Free other) →
        owners.kernel.pmm.Free (page + 1)
  | _ => True

def Neighbours (owners : PageOwners) : Prop :=
  ∀ slot phys0 phys1, owners.given slot = some (phys0, phys1) → owners.kernel.Alive slot →
    phys1 = phys0 + PAGE_SIZE

variable {owners next : PageOwners} {call : OwnerCall}

theorem alive_of_state {slot : Slot}
    (living : (owners.kernel.tasks slot).state ∈ [TaskState.ready, .running, .blocked]) :
    owners.kernel.Alive slot := by
  refine ⟨_, Task.life_alive.mpr ⟨?_, ?_, rfl⟩⟩
  · intro empty
    rw [empty] at living
    simp at living
  · intro ended
    rw [ended] at living
    simp at living

theorem state_of_alive {slot : Slot} (lives : owners.kernel.Alive slot)
    (entered : (owners.kernel.tasks slot).state ≠ .created) :
    (owners.kernel.tasks slot).state ∈ [TaskState.ready, .running, .blocked] := by
  obtain ⟨pid, alive⟩ := lives
  obtain ⟨used, lasting, _⟩ := Task.life_alive.mp alive
  cases state : (owners.kernel.tasks slot).state with
  | empty => exact absurd state used
  | created => exact absurd state entered
  | terminated => exact absurd state lasting
  | _ => simp

theorem Neighbours.ownRange (neighbours : owners.Neighbours) (invariant : owners.Invariant)
    {slot : Slot} {phys0 phys1 : Nat} (given : owners.given slot = some (phys0, phys1))
    (lives : owners.kernel.Alive slot) :
    stackRange (owners.kernel.tasks slot) =
      pageRange owners.kernel phys0 ∪ pageRange owners.kernel phys1 := by
  obtain ⟨_, top, _, _, page0, page1, rfl, rfl, _, _⟩ :=
    invariant.stack slot phys0 phys1 given lives
  have follows := neighbours slot _ _ given lives
  have same : page1 = page0 + 1 := by
    unfold PAGE_SIZE at follows
    omega
  subst same
  exact stackRange_of_neighbours top

theorem Neighbours.ownStacks (neighbours : owners.Neighbours) (invariant : owners.Invariant) :
    owners.OwnStacks := by
  constructor
  case own =>
    intro slot phys0 phys1 given living
    exact neighbours.ownRange invariant given (alive_of_state living)
  case apart =>
    intro left right different leftGiven rightGiven leftLiving rightLiving
    obtain ⟨⟨left0, left1⟩, leftPages⟩ := Option.isSome_iff_exists.mp leftGiven
    obtain ⟨⟨right0, right1⟩, rightPages⟩ := Option.isSome_iff_exists.mp rightGiven
    have leftLives := alive_of_state leftLiving
    have rightLives := alive_of_state rightLiving
    rw [neighbours.ownRange invariant leftPages leftLives,
      neighbours.ownRange invariant rightPages rightLives]
    have others := invariant.apart left right left0 left1 right0 right1 different leftPages
      rightPages leftLives rightLives
    obtain ⟨_, _, _, _, page0, page1, rfl, rfl, below, tracked⟩ :=
      invariant.stack left left0 left1 leftPages leftLives
    obtain ⟨_, _, _, _, page2, page3, rfl, rfl, below', tracked'⟩ :=
      invariant.stack right right0 right1 rightPages rightLives
    have separate {one two address : Nat} (oneTracked : one < owners.kernel.pmm.totalPages)
        (twoTracked : two < owners.kernel.pmm.totalPages)
        (unequal : one * PAGE_SIZE ≠ two * PAGE_SIZE)
        (inOne : address ∈ pageRange owners.kernel (one * PAGE_SIZE)) :
        address ∉ pageRange owners.kernel (two * PAGE_SIZE) := by
      apply pageRange_disjoint (invariant.pmm.page_fits oneTracked)
        (invariant.pmm.page_fits twoTracked) _ inOne
      intro same
      exact unequal (congrArg (· * PAGE_SIZE) same)
    have below0 := Nat.lt_trans below tracked
    have below2 := Nat.lt_trans below' tracked'
    intro address inLeft inRight
    rcases inLeft with in0 | in1
    · rcases inRight with in2 | in3
      · exact separate below0 below2 others.1 in0 in2
      · exact separate below0 tracked' others.2.1 in0 in3
    · rcases inRight with in2 | in3
      · exact separate tracked below2 others.2.2.1 in1 in2
      · exact separate tracked tracked' others.2.2.2 in1 in3

/-! ### One step -/

theorem Turn.neighbours (pairFree : owners.PairFree call) (neighbours : owners.Neighbours)
    (turn : owners.Turn call next) : next.Neighbours := by
  cases turn with
  | noPage => exact neighbours
  | takes page after took => exact neighbours
  | gives page after holds gave => exact neighbours
  | same call after _ _ _ _ _ _ alive =>
      intro slot phys0 phys1 given lives
      exact neighbours slot phys0 phys1 given ((alive slot).mp lives)
  | exits code after page _ _ _ _ _ alive =>
      intro slot phys0 phys1 given lives
      exact neighbours slot phys0 phys1 given ((alive slot).mp lives).2
  | creates entry slot page0 page1 middle after chosen _ _ took0 took1 _ _ _ _ _ alive =>
      intro other phys0 phys1 given lives
      dsimp only at given lives
      by_cases here : other = slot
      · rw [here, Function.update_self] at given
        cases given
        obtain ⟨free1, different⟩ := took0.free_before took1.free
        have lowest (lower : Nat) (below : lower < page0) :
            ¬ owners.kernel.pmm.Free lower := by
          rintro ⟨_, clear⟩
          rw [took0.lowest lower below] at clear
          cases clear
        have neighbour := pairFree ⟨slot, allocSlot_empty chosen⟩ page0 took0.free lowest
          ⟨page1, different, free1⟩
        have ordered := took0.below took1
        -- the neighbour is clear after the first taking, so the second takes nothing above it
        have notPast : ¬ page0 + 1 < page1 := by
          intro past
          have used := took1.lowest (page0 + 1) past
          rw [took0.used, neighbour.2] at used
          simp at used
        have same : page1 = page0 + 1 := by omega
        rw [same]
        unfold PAGE_SIZE
        omega
      · rw [Function.update_of_ne here] at given
        exact neighbours other phys0 phys1 given (((alive other).mp lives).resolve_left here)

/-- If every living task owns its stack after the step, the step met the condition. -/
theorem Turn.pairFree (invariant : owners.Invariant) (turn : owners.Turn call next)
    (ownStacks : next.OwnStacks) : owners.PairFree call := by
  have after := turn.invariant invariant
  cases turn with
  | noPage => trivial
  | takes page after took => trivial
  | gives page after holds gave => trivial
  | exits code after page _ _ _ _ _ alive => trivial
  | same call after _ noStack _ _ _ _ _ =>
      cases call with
      | newKernelTask entry =>
          intro ⟨slot, empty⟩ page free _ ⟨other, different, alsoFree⟩
          rcases noStack entry rfl with ⟨_, full⟩ | failed
          · exact absurd empty (allocSlot_none full slot)
          · exact absurd (allocStack_none_few invariant.pmm failed alsoFree free) different
      | _ => trivial
  | creates entry slot page0 page1 middle kernel chosen _ _ took0 took1 _ top entered _ _ alive =>
      intro _ page free lowest _
      have first : page = page0 := by
        rcases Nat.lt_trichotomy page page0 with below | same | above
        · have used := took0.lowest page below
          rw [free.2] at used
          cases used
        · exact same
        · exact absurd took0.free (lowest page0 above)
      have lives : kernel.Alive slot := (alive slot).mpr (Or.inl rfl)
      have given : Function.update owners.given slot
          (some (page0 * PAGE_SIZE, page1 * PAGE_SIZE)) slot =
            some (page0 * PAGE_SIZE, page1 * PAGE_SIZE) := Function.update_self ..
      obtain ⟨_, itsTop, _, _, _⟩ := after.stack slot _ _ given lives
      have range := ownStacks.own slot _ _ given (state_of_alive lives entered)
      have second := took0.free_before took1.free
      have follows := neighbours_of_stackRange (took0.below took1)
        (invariant.pmm.page_fits second.1.1) itsTop (range ▸ Set.subset_union_left)
      rw [first, ← follows]
      exact second.1

theorem start_neighbours (pmm : Pmm) (hhdmOffset : Nat) : (start pmm hhdmOffset).Neighbours := by
  intro slot phys0 phys1 given
  cases given

theorem exec_neighbours {calls : List OwnerCall} (invariant : owners.Invariant)
    (neighbours : owners.Neighbours)
    (guarded : LabelledRun.Guarded step PairFree owners calls)
    (run : LabelledRun.exec step owners calls = some next) : next.Neighbours := by
  have kept := @LabelledRun.exec_invariant_of_guarded _ _ step
    (fun owners => owners.Invariant ∧ owners.Neighbours) PairFree
    (fun state call later here pairFree stepped =>
      have turn := turn_of_step here.1 stepped
      ⟨turn.invariant here.1, turn.neighbours pairFree here.2⟩)
    owners next calls ⟨invariant, neighbours⟩ guarded run
  exact kept.2

/-- In a run from boot every living task owns its stack in every state that is passed
exactly if every creation meets a lowest clear page with a clear neighbour. -/
theorem stack_ownership_iff {entries : List MemmapEntry} {hhdm : Nat} {memory : Bitmap.Bytes}
    {pmm : Pmm} {calls : List OwnerCall} {final : PageOwners}
    (noOverflow : NoOverflow entries) (aligned : UsableAligned entries)
    (disjoint : UsableDisjoint entries)
    (boot : initPmm (some entries) hhdm memory = .ok pmm)
    (run : LabelledRun.exec step (start pmm hhdm) calls = some final) :
    (∀ before after middle, calls = before ++ after →
      LabelledRun.exec step (start pmm hhdm) before = some middle → middle.OwnStacks) ↔
    LabelledRun.Guarded step PairFree (start pmm hhdm) calls := by
  have initial := start_invariant noOverflow aligned disjoint boot
  constructor
  · intro owned
    rw [LabelledRun.guarded_iff]
    intro before call after middle split reached
    have invariant := exec_owners initial reached
    rw [split, LabelledRun.exec_append_eq_some] at run
    obtain ⟨same, sameReached, continued⟩ := run
    rw [reached] at sameReached
    cases sameReached
    obtain ⟨next, stepped, _⟩ := LabelledRun.exec_cons_eq_some.mp continued
    apply (turn_of_step invariant stepped).pairFree invariant
    apply owned (before ++ [call]) after next (by rw [split, List.append_assoc]; rfl)
    exact LabelledRun.exec_append_eq_some.mpr ⟨middle, reached,
      LabelledRun.exec_cons_eq_some.mpr ⟨next, stepped, rfl⟩⟩
  · intro guarded before after middle split reached
    rw [split] at guarded
    have kept := exec_neighbours initial (start_neighbours pmm hhdm) guarded.of_append reached
    exact kept.ownStacks (exec_owners initial reached)

theorem sampleExit_stack_ownership :
    ∃ final, LabelledRun.exec step (start sampleBoot 0xffff800000000000) sampleExit = some final ∧
      ((∀ before after middle, sampleExit = before ++ after →
        LabelledRun.exec step (start sampleBoot 0xffff800000000000) before = some middle →
          middle.OwnStacks) ↔
      LabelledRun.Guarded step PairFree (start sampleBoot 0xffff800000000000) sampleExit) := by
  have runs : (LabelledRun.exec step (start sampleBoot 0xffff800000000000) sampleExit).isSome =
      true := by
    decide +kernel
  obtain ⟨final, run⟩ := Option.isSome_iff_exists.mp runs
  exact ⟨final, run, stack_ownership_iff sampleMap_noOverflow sampleMap_aligned
    sampleMap_disjoint sampleBoot_boots run⟩

/-- Two tasks are created, the first exits, and a third is created on the page it gave
back and the page after the stack of the second. -/
def sampleOverlap : List OwnerCall :=
  [.kernel (.newKernelTask 0x1000), .kernel (.newKernelTask 0x2000), .kernel .yieldCpu,
    .kernel (.exit 0), .kernel (.newKernelTask 0x3000)]

/-- The stacks of the second and the third task share the second page of the second. -/
theorem sampleOverlap_not_own :
    ∃ final, LabelledRun.exec step (start sampleBoot 0xffff800000000000) sampleOverlap =
        some final ∧
      final.given 2 = some (0x102000, 0x103000) ∧ final.given 3 = some (0x100000, 0x104000) ∧
      0xffff800000103000 ∈ stackRange (final.kernel.tasks 2) ∧
      0xffff800000103000 ∈ stackRange (final.kernel.tasks 3) ∧ ¬ final.OwnStacks := by
  have runs : (LabelledRun.exec step (start sampleBoot 0xffff800000000000) sampleOverlap).map
      (fun owners => (owners.given 2, owners.given 3, (owners.kernel.tasks 2).stackTop,
        (owners.kernel.tasks 3).stackTop, (owners.kernel.tasks 2).state,
        (owners.kernel.tasks 3).state)) =
      some (some (0x102000, 0x103000), some (0x100000, 0x104000), 0xffff800000104000,
        0xffff800000105000, .running, .ready) := by
    decide +kernel
  obtain ⟨final, run, values⟩ := Option.map_eq_some_iff.mp runs
  simp only [Prod.mk.injEq] at values
  obtain ⟨given2, given3, top2, top3, state2, state3⟩ := values
  have shared2 : 0xffff800000103000 ∈ stackRange (final.kernel.tasks 2) := by
    unfold stackRange
    rw [top2]
    exact ⟨by decide, by decide⟩
  have shared3 : 0xffff800000103000 ∈ stackRange (final.kernel.tasks 3) := by
    unfold stackRange
    rw [top3]
    exact ⟨by decide, by decide⟩
  refine ⟨final, run, given2, given3, shared2, shared3, ?_⟩
  intro owned
  have apart := owned.apart 2 3 (by decide) (by rw [given2]; rfl) (by rw [given3]; rfl)
    (by rw [state2]; simp) (by rw [state3]; simp)
  exact apart _ shared2 shared3

end PageOwners

end CustomKernel.Multitask
