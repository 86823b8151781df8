/-
The memory test of the shell.

The test allocates four buffers, fills them with patterns, reads them back, releases two
of them, allocates a larger one and releases what is left.  On any heap that calls have
led to it either panics because the heap cannot grow, or it reports two passes, and then
it has given back all it took and has changed no byte of another allocation.
-/

import CustomKernel.Memory.Coalescing
import CustomKernel.Memory.UsedBlocks

set_option autoImplicit false

namespace CustomKernel.SimpleShell

open Memory

/-! ### The command -/

def writeBytes (mem : ByteStore.Store) (ptr : Nat) (value : BitVec 8) : Nat → ByteStore.Store
  | 0 => mem
  | count + 1 => Function.update (writeBytes mem ptr value count) (Word64.add ptr count) value

def verifyBytes (mem : ByteStore.Store) (ptr : Nat) (value : BitVec 8) (count : Nat) : Bool :=
  (List.range count).all (fun i => mem (Word64.add ptr i) = value)

/-- Which lines the test prints, and the heap it leaves. -/
structure MemtestReport where
  patternCheck : Bool
  coalesceTest : Bool
  heap : Heap

def memtest (heap : Heap) : Except Panic MemtestReport := do
  let (a, heap) ← kmalloc heap 64
  let (b, heap) ← kmalloc heap 128
  let (c, heap) ← kmalloc heap 1024
  let (d, heap) ← kmalloc heap 37
  let mem := writeBytes heap.mem a 0xAA#8 64
  let mem := writeBytes mem b 0xBB#8 128
  let mem := writeBytes mem c 0xCC#8 1024
  let mem := writeBytes mem d 0xDD#8 37
  let ok := verifyBytes mem a 0xAA#8 64 && verifyBytes mem b 0xBB#8 128 &&
    verifyBytes mem c 0xCC#8 1024 && verifyBytes mem d 0xDD#8 37
  let heap ← kfree { heap with mem := mem } b
  let heap ← kfree heap c
  let (e, heap) ← kmalloc heap 1152
  let heap ← kfree heap a
  let heap ← kfree heap d
  let heap ← kfree heap e
  pure { patternCheck := ok, coalesceTest := e ≠ 0, heap := heap }

/-! ### Filling a buffer -/

theorem writeBytes_eq {mem : ByteStore.Store} {ptr count : Nat} {value : BitVec 8}
    (fits : ptr + count ≤ Word64.modulus) (byte : Nat) :
    writeBytes mem ptr value count byte =
      if ptr ≤ byte ∧ byte < ptr + count then value else mem byte := by
  induction count with
  | zero => rw [writeBytes, if_neg (by omega)]
  | succ count ih =>
      rw [writeBytes, Word64.add_eq (by omega)]
      by_cases here : byte = ptr + count
      · rw [here, Function.update_self, if_pos (by omega)]
      · rw [Function.update_of_ne here, ih (by omega)]
        by_cases inside : ptr ≤ byte ∧ byte < ptr + count
        · rw [if_pos inside, if_pos (by omega)]
        · rw [if_neg inside, if_neg (by omega)]

theorem verifyBytes_true {mem : ByteStore.Store} {ptr count : Nat} {value : BitVec 8}
    (fits : ptr + count ≤ Word64.modulus)
    (filled : ∀ byte, ptr ≤ byte → byte < ptr + count → mem byte = value) :
    verifyBytes mem ptr value count = true := by
  unfold verifyBytes
  rw [List.all_eq_true]
  intro i member
  have inside := List.mem_range.mp member
  rw [Word64.add_eq (by omega), filled _ (by omega) (by omega), decide_eq_true rfl]

/-! ### Calls on a heap that runs have led to -/

def Sound (run : HeapRun) : Prop := ∃ blocks, run.Invariant blocks ∧ run.Exact blocks

def SameBytes (live : List (Nat × Nat)) (heap after : Heap) : Prop :=
  ∀ entry, entry ∈ live → ∀ byte, entry.1 ≤ byte → byte < entry.1 + entry.2 →
    after.mem byte = heap.mem byte

theorem SameBytes.trans {live : List (Nat × Nat)} {first second third : Heap}
    (left : SameBytes live first second) (right : SameBytes live second third) :
    SameBytes live first third :=
  fun entry member byte lower upper =>
    (right entry member byte lower upper).trans (left entry member byte lower upper)

theorem SameBytes.mono {live fewer : List (Nat × Nat)} {heap after : Heap}
    (same : SameBytes live heap after) (subset : ∀ entry, entry ∈ fewer → entry ∈ live) :
    SameBytes fewer heap after :=
  fun entry member => same entry (subset entry member)

namespace Sound

variable {run : HeapRun}

theorem distinct (sound : Sound run) :
    run.live.Pairwise (fun left right => left.1 ≠ right.1) := by
  obtain ⟨_, invariant, _⟩ := sound
  exact invariant.distinct

theorem inside (sound : Sound run) {ptr size : Nat} (live : (ptr, size) ∈ run.live) :
    0 < ptr ∧ ptr + size ≤ Word64.modulus := by
  obtain ⟨blocks, invariant, _⟩ := sound
  have bounds := (invariant.owned _ live).inside
  have fits := invariant.laid.fits
  have start : HEAP_START = 0xffff800100000000 := rfl
  simp only at bounds
  omega

theorem apart (sound : Sound run) {left right : Nat × Nat} (leftLive : left ∈ run.live)
    (rightLive : right ∈ run.live) (different : left.1 ≠ right.1) :
    left.1 + left.2 ≤ right.1 ∨ right.1 + right.2 ≤ left.1 := by
  obtain ⟨blocks, invariant, _⟩ := sound
  exact (invariant.owned left leftLive).apart (invariant.owned right rightLive) different

theorem kmalloc (sound : Sound run) {size : Nat} (positive : 0 < size) (small : size < 2 ^ 63) :
    (∃ panic, Memory.kmalloc run.heap size = .error panic ∧ Panic.OfGrowth panic) ∨
      ∃ ptr after, Memory.kmalloc run.heap size = .ok (ptr, after) ∧
        Sound { heap := after, live := (ptr, size) :: run.live } ∧
        SameBytes run.live run.heap after := by
  obtain ⟨blocks, invariant, exact_⟩ := sound
  rcases kmalloc_cases invariant.laid positive small with
    ⟨ptr, after, before, block, behind, result, granted⟩ | ⟨panic, result, growth⟩
  · refine Or.inr ⟨ptr, after, result,
      ⟨_, invariant.kmalloc small granted, exact_.kmalloc granted⟩, ?_⟩
    intro entry live
    exact kmallocWithin_kept invariant.laid positive small result _ _ (invariant.owned entry live)
  · exact Or.inl ⟨panic, result, growth⟩

theorem filter_released {front back : List (Nat × Nat)} {ptr size : Nat}
    (distinct : (front ++ (ptr, size) :: back).Pairwise (fun left right => left.1 ≠ right.1)) :
    (front ++ (ptr, size) :: back).filter (fun entry => entry.1 ≠ ptr) = front ++ back := by
  obtain ⟨_, later, across⟩ := List.pairwise_append.mp distinct
  have frontKept : front.filter (fun entry => entry.1 ≠ ptr) = front := by
    rw [List.filter_eq_self]
    intro entry member
    simpa using across entry member (ptr, size) (List.mem_cons_self ..)
  rw [List.filter_append, frontKept, Memory.filter_released later]

theorem kfree {heap : Heap} {front back : List (Nat × Nat)} {ptr size : Nat}
    (sound : Sound { heap := heap, live := front ++ (ptr, size) :: back }) :
    ∃ released, Memory.kfree heap ptr = .ok released ∧
      Sound { heap := released, live := front ++ back } ∧
      SameBytes (front ++ back) heap released := by
  have released_ := filter_released sound.distinct
  obtain ⟨blocks, invariant, exact_⟩ := sound
  have live : (ptr, size) ∈ front ++ (ptr, size) :: back := by simp
  obtain ⟨before, block, behind, released, split, address, used, result, kept⟩ :=
    invariant.release live
  have bytes := invariant.laid.kfree_kept (invariant.owned _ live) result
  have owned := invariant.owned
  rw [split] at exact_
  have stillExact := @HeapRun.Exact.kfree _ before behind block ptr released exact_
    invariant.distinct used address
  simp only [released_] at kept stillExact
  refine ⟨released, result, ⟨_, kept, stillExact⟩, ?_⟩
  intro entry member
  apply bytes entry.1 entry.2 (owned entry _)
  simp only [List.mem_append, List.mem_cons] at member ⊢
  tauto

theorem fill (sound : Sound run) {ptr size count : Nat} (live : (ptr, size) ∈ run.live)
    (enough : count ≤ size) (value : BitVec 8) :
    Sound { run with heap := { run.heap with mem := writeBytes run.heap.mem ptr value count } } := by
  have fits := (sound.inside live).2
  induction count with
  | zero => exact sound
  | succ count ih =>
      obtain ⟨blocks, invariant, exact_⟩ := ih (by omega)
      have address : Word64.add ptr count = ptr + count := Word64.add_eq (by omega)
      refine ⟨blocks, ?_, exact_⟩
      rw [writeBytes, address]
      exact invariant.store ⟨(ptr, size), live, by simp, by simp only; omega⟩

end Sound

/-! ### The test -/

theorem patterns_hold {heap : Heap} {a b c d : Nat} {live : List (Nat × Nat)}
    (sound : Sound { heap := heap, live := (d, 37) :: (c, 1024) :: (b, 128) :: (a, 64) :: live }) :
    ∃ mem, mem = writeBytes (writeBytes (writeBytes (writeBytes heap.mem a 0xAA#8 64)
          b 0xBB#8 128) c 0xCC#8 1024) d 0xDD#8 37 ∧
      (verifyBytes mem a 0xAA#8 64 && verifyBytes mem b 0xBB#8 128 &&
        verifyBytes mem c 0xCC#8 1024 && verifyBytes mem d 0xDD#8 37) = true ∧
      Sound { heap := { heap with mem := mem },
              live := (d, 37) :: (c, 1024) :: (b, 128) :: (a, 64) :: live } ∧
      SameBytes live heap { heap with mem := mem } := by
  have liveA : (a, 64) ∈ (d, 37) :: (c, 1024) :: (b, 128) :: (a, 64) :: live := by simp
  have liveB : (b, 128) ∈ (d, 37) :: (c, 1024) :: (b, 128) :: (a, 64) :: live := by simp
  have liveC : (c, 1024) ∈ (d, 37) :: (c, 1024) :: (b, 128) :: (a, 64) :: live := by simp
  have liveD : (d, 37) ∈ (d, 37) :: (c, 1024) :: (b, 128) :: (a, 64) :: live := by simp
  have distinct := sound.distinct
  simp only [List.pairwise_cons, List.mem_cons] at distinct
  obtain ⟨fromD, fromC, fromB, fromA, _⟩ := distinct
  have apartAB := sound.apart liveA liveB (Ne.symm (fromB _ (Or.inl rfl)))
  have apartAC := sound.apart liveA liveC (Ne.symm (fromC _ (Or.inr (Or.inl rfl))))
  have apartAD := sound.apart liveA liveD (Ne.symm (fromD _ (Or.inr (Or.inr (Or.inl rfl)))))
  have apartBC := sound.apart liveB liveC (Ne.symm (fromC _ (Or.inl rfl)))
  have apartBD := sound.apart liveB liveD (Ne.symm (fromD _ (Or.inr (Or.inl rfl))))
  have apartCD := sound.apart liveC liveD (Ne.symm (fromD _ (Or.inl rfl)))
  have fitsA := (sound.inside liveA).2
  have fitsB := (sound.inside liveB).2
  have fitsC := (sound.inside liveC).2
  have fitsD := (sound.inside liveD).2
  have filledA := sound.fill liveA (Nat.le_refl 64) 0xAA#8
  have filledB := filledA.fill liveB (Nat.le_refl 128) 0xBB#8
  have filledC := filledB.fill liveC (Nat.le_refl 1024) 0xCC#8
  have filledD := filledC.fill liveD (Nat.le_refl 37) 0xDD#8
  have bytes (byte : Nat) : writeBytes (writeBytes (writeBytes (writeBytes heap.mem a 0xAA#8 64)
      b 0xBB#8 128) c 0xCC#8 1024) d 0xDD#8 37 byte =
        if d ≤ byte ∧ byte < d + 37 then 0xDD#8
        else if c ≤ byte ∧ byte < c + 1024 then 0xCC#8
        else if b ≤ byte ∧ byte < b + 128 then 0xBB#8
        else if a ≤ byte ∧ byte < a + 64 then 0xAA#8 else heap.mem byte := by
    rw [writeBytes_eq fitsD, writeBytes_eq fitsC, writeBytes_eq fitsB, writeBytes_eq fitsA]
  simp only at apartAB apartAC apartAD apartBC apartBD apartCD
  refine ⟨_, rfl, ?_, filledD, ?_⟩
  · rw [Bool.and_eq_true, Bool.and_eq_true, Bool.and_eq_true]
    refine ⟨⟨⟨verifyBytes_true fitsA ?_, verifyBytes_true fitsB ?_⟩,
      verifyBytes_true fitsC ?_⟩, verifyBytes_true fitsD ?_⟩
    · intro byte lower upper
      rw [bytes, if_neg (by omega), if_neg (by omega), if_neg (by omega), if_pos ⟨lower, upper⟩]
    · intro byte lower upper
      rw [bytes, if_neg (by omega), if_neg (by omega), if_pos ⟨lower, upper⟩]
    · intro byte lower upper
      rw [bytes, if_neg (by omega), if_pos ⟨lower, upper⟩]
    · intro byte lower upper
      rw [bytes, if_pos ⟨lower, upper⟩]
  · intro entry member byte lower upper
    have old : entry ∈ (d, 37) :: (c, 1024) :: (b, 128) :: (a, 64) :: live := by simp [member]
    have fromEntryA := sound.apart liveA old (fromA entry member)
    have fromEntryB := sound.apart liveB old (fromB entry (Or.inr member))
    have fromEntryC := sound.apart liveC old (fromC entry (Or.inr (Or.inr member)))
    have fromEntryD := sound.apart liveD old (fromD entry (Or.inr (Or.inr (Or.inr member))))
    simp only at fromEntryA fromEntryB fromEntryC fromEntryD
    dsimp only
    rw [bytes, if_neg (by omega), if_neg (by omega), if_neg (by omega), if_neg (by omega)]

theorem memtest_rest {heap : Heap} {a b c d : Nat} {live : List (Nat × Nat)}
    (sound : Sound { heap := heap, live := (d, 37) :: (c, 1024) :: (b, 128) :: (a, 64) :: live })
    {rest : Except Panic MemtestReport} (ok : Bool)
    (restEq : rest = do
      let heap ← Memory.kfree heap b
      let heap ← Memory.kfree heap c
      let (e, heap) ← Memory.kmalloc heap 1152
      let heap ← Memory.kfree heap a
      let heap ← Memory.kfree heap d
      let heap ← Memory.kfree heap e
      pure { patternCheck := ok, coalesceTest := e ≠ 0, heap := heap }) :
    (∃ panic, rest = .error panic ∧ Panic.OfGrowth panic) ∨
      ∃ after, rest = .ok { patternCheck := ok, coalesceTest := true, heap := after } ∧
        Sound { heap := after, live := live } ∧ SameBytes live heap after := by
  obtain ⟨first, freedB, soundB, sameB⟩ :=
    @Sound.kfree heap [(d, 37), (c, 1024)] ((a, 64) :: live) b 128 sound
  obtain ⟨second, freedC, soundC, sameC⟩ :=
    @Sound.kfree first [(d, 37)] ((a, 64) :: live) c 1024 soundB
  have early : SameBytes live heap second :=
    (sameB.mono (by simp +contextual)).trans (sameC.mono (by simp +contextual))
  rw [freedB, ok_bind, freedC, ok_bind] at restEq
  rcases soundC.kmalloc (by decide : 0 < 1152) (by decide) with
    ⟨panic, failed, growth⟩ | ⟨e, third, granted, soundE, sameE⟩
  · left
    dsimp only at failed
    rw [failed] at restEq
    exact ⟨panic, restEq, growth⟩
  · right
    dsimp only at granted soundE sameE
    have notNull : e ≠ 0 := Nat.ne_of_gt (soundE.inside (List.mem_cons_self ..)).1
    obtain ⟨fourth, freedA, soundA, sameA⟩ :=
      @Sound.kfree third [(e, 1152), (d, 37)] live a 64 soundE
    obtain ⟨fifth, freedD, soundD, sameD⟩ := @Sound.kfree fourth [(e, 1152)] live d 37 soundA
    obtain ⟨last, freedE, soundLast, sameLast⟩ := @Sound.kfree fifth [] live e 1152 soundD
    rw [granted, ok_bind] at restEq
    dsimp only at restEq
    rw [freedA, ok_bind, freedD, ok_bind, freedE, ok_bind] at restEq
    refine ⟨last, ?_, soundLast, ?_⟩
    · rw [restEq, decide_eq_true notNull]
      rfl
    · have late : SameBytes live third last :=
        ((sameA.mono (by simp +contextual)).trans (sameD.mono (by simp +contextual))).trans
          (sameLast.mono (by simp +contextual))
      exact (early.trans (sameE.mono (by simp +contextual))).trans late

theorem memtest_cases {run : HeapRun} (sound : Sound run) :
    (∃ panic, memtest run.heap = .error panic ∧ Panic.OfGrowth panic) ∨
      ∃ after, memtest run.heap = .ok { patternCheck := true, coalesceTest := true, heap := after } ∧
        Sound { heap := after, live := run.live } ∧ SameBytes run.live run.heap after := by
  unfold memtest
  rcases sound.kmalloc (by decide : 0 < 64) (by decide) with
    ⟨panic, failed, growth⟩ | ⟨a, heapA, grantedA, soundA, sameA⟩
  · exact Or.inl ⟨panic, by rw [failed]; rfl, growth⟩
  · rw [grantedA, ok_bind]
    rcases soundA.kmalloc (by decide : 0 < 128) (by decide) with
      ⟨panic, failed, growth⟩ | ⟨b, heapB, grantedB, soundB, sameB⟩
    · exact Or.inl ⟨panic, by dsimp only at failed ⊢; rw [failed]; rfl, growth⟩
    · dsimp only at grantedB soundB sameB ⊢
      rw [grantedB, ok_bind]
      rcases soundB.kmalloc (by decide : 0 < 1024) (by decide) with
        ⟨panic, failed, growth⟩ | ⟨c, heapC, grantedC, soundC, sameC⟩
      · exact Or.inl ⟨panic, by dsimp only at failed ⊢; rw [failed]; rfl, growth⟩
      · dsimp only at grantedC soundC sameC ⊢
        rw [grantedC, ok_bind]
        rcases soundC.kmalloc (by decide : 0 < 37) (by decide) with
          ⟨panic, failed, growth⟩ | ⟨d, heapD, grantedD, soundD, sameD⟩
        · exact Or.inl ⟨panic, by dsimp only at failed ⊢; rw [failed]; rfl, growth⟩
        · dsimp only at grantedD soundD sameD ⊢
          rw [grantedD, ok_bind]
          obtain ⟨mem, memEq, holds, filled, sameFilled⟩ := patterns_hold soundD
          dsimp only
          rw [← memEq, holds]
          have early : SameBytes run.live run.heap heapD :=
            ((sameA.trans (sameB.mono (by simp +contextual))).trans
              (sameC.mono (by simp +contextual))).trans (sameD.mono (by simp +contextual))
          rcases memtest_rest filled true rfl with failed | ⟨after, passed, soundAfter, sameAfter⟩
          · exact Or.inl failed
          · exact Or.inr ⟨after, passed, soundAfter, (early.trans sameFilled).trans sameAfter⟩

/-- On a heap that any run has led to, the test panics only because the heap cannot grow;
else it reports two passes, the payloads of all live pointers hold the bytes they held,
and the used blocks are again those of the live pointers. -/
theorem memtest_passes {before heap : Heap} {n : Nat} {calls : List HeapCall} {final : HeapRun}
    (started : kmallocInit before HEAP_START n = .ok heap)
    (rounded : (n + 4095) / PAGE_SIZE * PAGE_SIZE ≤ HEAP_MAX_SIZE)
    (reached : LabelledRun.exec heapStep { heap := heap, live := [] } calls = some final) :
    (∃ panic, memtest final.heap = .error panic ∧ Panic.OfGrowth panic) ∨
      ∃ after blocks, memtest final.heap =
          .ok { patternCheck := true, coalesceTest := true, heap := after } ∧
        HeapRun.Invariant { heap := after, live := final.live } blocks ∧
        (usedPointers blocks).Perm (final.live.map Prod.fst) ∧
        ∀ ptr size, (ptr, size) ∈ final.live →
          ∀ byte, ptr ≤ byte → byte < ptr + size → after.mem byte = final.heap.mem byte := by
  obtain ⟨first, initial⟩ := kmallocInit_laid rounded started
  have nobody : HeapRun.Exact { heap := heap, live := [] } [{ size := first, used := false }] :=
    List.Perm.nil
  have sound : Sound final := exec_exact ⟨initial, by simp, List.Pairwise.nil⟩ nobody reached
  rcases memtest_cases sound with failed | ⟨after, passed, ⟨blocks, invariant, exact_⟩, same⟩
  · exact Or.inl failed
  · exact Or.inr ⟨after, blocks, passed, invariant, exact_,
      fun ptr size live => same (ptr, size) live⟩

/-- `writeBytes` without a loop, where the addresses do not wrap. -/
def fillBytes (mem : ByteStore.Store) (ptr : Nat) (value : BitVec 8) (count : Nat) :
    ByteStore.Store :=
  if ptr + count ≤ Word64.modulus then
    fun byte => if ptr ≤ byte ∧ byte < ptr + count then value else mem byte
  else writeBytes mem ptr value count

theorem writeBytes_eq_fillBytes : writeBytes = fillBytes := by
  funext mem ptr value count byte
  unfold fillBytes
  split
  · rename_i fits
    exact writeBytes_eq fits byte
  · rfl

/-- The test passes beside an allocation, and leaves the byte that its owner has stored. -/
theorem freshHeap_memtest :
    ∃ heap final after, kmallocInit freshHeap HEAP_START 4096 = .ok heap ∧
      LabelledRun.exec heapStep { heap := heap, live := [] }
        [.kmalloc 100, .store 0xffff800100000018 7#8] = some final ∧
      memtest final.heap = .ok { patternCheck := true, coalesceTest := true, heap := after } ∧
      after.mem 0xffff800100000018 = 7#8 := by
  obtain ⟨heap, started, computed⟩ := @freshHeap_computes _ (fun heap =>
      (LabelledRun.exec heapStep { heap := heap, live := [] }
        [.kmalloc 100, .store 0xffff800100000018 7#8]).bind fun final =>
          (memtest final.heap).toOption.map fun _ =>
            (final.live, final.heap.mem 0xffff800100000018))
      ([(0xffff800100000018, 100)], 7#8) (by
        unfold memtest
        rw [writeBytes_eq_fillBytes]
        decide +kernel)
  obtain ⟨final, reached, tested⟩ := Option.bind_eq_some_iff.mp computed
  rcases memtest_passes started (by decide) reached with
    ⟨panic, failed, _⟩ | ⟨after, _, passed, _, _, same⟩
  · rw [failed] at tested
    cases tested
  · rw [passed] at tested
    have observed := Option.some.inj tested
    rw [Prod.mk.injEq] at observed
    refine ⟨heap, final, after, started, reached, passed, ?_⟩
    rw [same 0xffff800100000018 100 (by rw [observed.1]; exact List.mem_cons_self ..) _
      (Nat.le_refl _) (by decide)]
    exact observed.2

end CustomKernel.SimpleShell
