/-
What `kfree` makes of a pointer that was released before.

The allocator writes inside headers only.  A header lies at a multiple of eight, so the
four bytes that `kfree` tests below a stale pointer are the low half of a size, the low
half of a link, the magic number of a free block, or bytes that no header covers.  None of
these becomes the magic number of a used block unless a client stores it.
-/

import CustomKernel.Memory.HeapIsolation
import CustomKernel.Memory.PayloadAlignment

set_option autoImplicit false

namespace CustomKernel.Memory

/-! ### The used blocks of a list -/

def UsedAt (addr : Nat) (blocks : List Block) (hdr : Nat) : Prop :=
  ∃ block, (hdr, block) ∈ placedBlocks addr blocks ∧ block.used = true

theorem usedAt_nil (addr hdr : Nat) : ¬ UsedAt addr [] hdr := by
  intro used
  rcases used with ⟨block, placed, _⟩
  exact List.not_mem_nil placed

theorem usedAt_append {addr hdr : Nat} {before behind : List Block} :
    UsedAt addr (before ++ behind) hdr ↔
      UsedAt addr before hdr ∨ UsedAt (blocksEnd addr before) behind hdr := by
  unfold UsedAt
  simp only [placedBlocks, Tiling.placed_append, List.mem_append, or_and_right, exists_or]

theorem usedAt_cons {addr hdr : Nat} {block : Block} {rest : List Block} :
    UsedAt addr (block :: rest) hdr ↔
      (hdr = addr ∧ block.used = true) ∨ UsedAt (addr + block.width) rest hdr := by
  unfold UsedAt
  simp only [placedBlocks, Tiling.placed, List.mem_cons, Prod.mk.injEq, or_and_right, exists_or]
  constructor
  · intro either
    rcases either with ⟨found, ⟨rfl, rfl⟩, used⟩ | later
    · exact Or.inl ⟨rfl, used⟩
    · exact Or.inr later
  · intro either
    rcases either with ⟨rfl, used⟩ | later
    · exact Or.inl ⟨block, ⟨rfl, rfl⟩, used⟩
    · exact Or.inr later

theorem usedAt_taken {addr hdr needed : Nat} {block : Block} :
    UsedAt addr (block.taken needed) hdr ↔ hdr = addr := by
  unfold Block.taken
  split
  · rw [usedAt_cons, usedAt_cons]
    simp [usedAt_nil]
  · rw [usedAt_cons]
    simp [usedAt_nil]

theorem usedAt_mergeFree {addr hdr : Nat} {block : Block} {behind : List Block}
    (free : block.used = false) :
    UsedAt addr (mergeFree block behind) hdr ↔ UsedAt (addr + block.width) behind hdr := by
  cases behind with
  | nil =>
      rw [mergeFree, usedAt_cons]
      simp [free, usedAt_nil]
  | cons next rest =>
      cases usage : next.used with
      | true =>
          simp only [mergeFree, usage, if_true]
          rw [usedAt_cons]
          simp [free]
      | false =>
          have widths : addr + Block.width { block with size := block.size + next.width } =
              addr + block.width + next.width := by
            simp only [Block.width]
            omega
          simp only [mergeFree, usage, Bool.false_eq_true, if_false]
          rw [usedAt_cons, usedAt_cons, widths]
          simp [free, usage]

theorem Source.usedAt {needed hdr : Nat} {blocks source : List Block}
    (from_ : Source needed blocks source) (used : UsedAt HEAP_START source hdr) :
    UsedAt HEAP_START blocks hdr := by
  rcases from_ with same | grown
  · rw [same] at used
    exact used
  · rw [grown, usedAt_append, usedAt_cons] at used
    rcases used with old | ⟨_, impossible⟩ | impossible
    · exact old
    · cases impossible
    · exact absurd impossible (usedAt_nil _ _)

/-! ### Where the allocator writes -/

section

variable {heap : Heap} {blocks : List Block}

theorem Laid.kmalloc_writes {after : Heap} {remaining : List Block} {size ptr : Nat}
    (laid : Laid heap blocks) (physical : heap.vmm.pmm.totalPages * PAGE_SIZE ≤ 2 ^ 52)
    (positive : 0 < size) (pages : 0 < growthPages (alignUp size))
    (allocated : kmalloc heap size = .ok (ptr, after)) (afterLaid : Laid after remaining) :
    WritesHeaders remaining heap.mem after.mem := by
  have taken {current : Heap} {list early late : List Block} {block : Block} {calls : Nat}
      (currentLaid : Laid current list) (first : FirstFit (alignUp size) list early block late)
      (served : kmallocWithin (calls + 1) current size = .ok (ptr, after)) :
      remaining = early ++ (block.taken (alignUp size) ++ late) ∧
        WritesHeaders remaining current.mem after.mem := by
    have found := currentLaid.findBlock_first first
    have split := first.split
    subst split
    obtain ⟨result, resultLaid⟩ :=
      @kmallocWithin_found _ _ _ _ _ calls currentLaid positive first.large found
    rw [result] at served
    cases served
    have same := afterLaid.unique resultLaid
    subst same
    exact ⟨rfl, currentLaid.takeBlock_writes first.large⟩
  by_cases fits : SomeFit (alignUp size) blocks
  · rcases fits.first with ⟨early, block, late, first⟩
    exact (taken laid first allocated).2
  · have unfit := unfit_of_not_someFit fits
    rw [kmalloc, laid.kmalloc_grows positive unfit] at allocated
    obtain ⟨grown, expanded, continued⟩ := bind_eq_ok.mp allocated
    have grownLaid := (laid.expandHeap_grows physical pages expanded).2
    by_cases again : SomeFit (alignUp size) (blocks ++
        [{ size := growthPages (alignUp size) * PAGE_SIZE - HEADER_SIZE, used := false }])
    · rcases again.first with ⟨early, block, late, first⟩
      obtain ⟨same, served⟩ := taken grownLaid first continued
      intro byte apart
      rw [served byte apart]
      apply laid.expandHeap_writes expanded
      intro hdr member
      apply apart
      rw [first.split] at member
      rw [same]
      exact header_taken member
    · rw [grownLaid.kmalloc_grows positive (unfit_of_not_someFit again)] at continued
      obtain ⟨_, _, impossible⟩ := bind_eq_ok.mp continued
      cases impossible

end

/-! ### The bytes below a stale pointer -/

theorem readSize_low (mem : ByteStore.Store) (hdr : Nat) :
    ByteStore.readLE mem hdr 4 = readSize mem hdr % 2 ^ 32 :=
  ByteStore.readLE_low mem hdr 4 4

theorem readNext_low (mem : ByteStore.Store) (hdr : Nat) :
    ByteStore.readLE mem (hdr + 8) 4 = readNext mem hdr % 2 ^ 32 :=
  ByteStore.readLE_low mem (hdr + 8) 4 4

theorem EightfoldSizes.place {before : List Block} (sizes : EightfoldSizes before) :
    blocksEnd HEAP_START before % 8 = 0 := by
  have ends := @blocksEnd_mod HEAP_START before sizes
  have start : HEAP_START % 16 = 0 := by decide
  omega

theorem EightfoldSizes.header {blocks : List Block} {hdr : Nat} (sizes : EightfoldSizes blocks)
    (member : hdr ∈ headersOf HEAP_START blocks) : hdr % 8 = 0 := by
  obtain ⟨⟨found, block⟩, placed, same⟩ := List.mem_map.mp member
  dsimp only at same
  subst same
  obtain ⟨before, behind, split, place⟩ := Tiling.placed_split placed
  rw [split, eightfold_append] at sizes
  rw [place]
  exact sizes.1.place

/-- The four bytes below a payload, when a header covers them that is not the payload's
own, or is but of a free block. -/
theorem Laid.covered_magic {heap : Heap} {blocks : List Block} {hdr ptr : Nat}
    (laid : Laid heap blocks) (sizes : EightfoldSizes blocks)
    (member : hdr ∈ headersOf HEAP_START blocks) (eightfold : ptr % 8 = 0)
    (lower : hdr + 8 ≤ ptr) (upper : ptr < hdr + 32)
    (unused : ¬ UsedAt HEAP_START blocks (ptr - HEADER_SIZE)) :
    readMagic heap.mem (ptr - HEADER_SIZE) ≠ MAGIC_USED := by
  obtain ⟨⟨found, block⟩, placed, same⟩ := List.mem_map.mp member
  dsimp only at same
  subst same
  have ends := sizes.header member
  have high : HEAP_START ≤ found := (Tiling.placed_bounds placed).1
  have positive : 4096 ≤ HEAP_START := by decide
  obtain ⟨before, behind, split, place⟩ := Tiling.placed_split placed
  subst split
  rw [eightfold_append, eightfold_cons] at sizes
  have header := (chain_append.mp laid.chain).2.1
  have here : blocksEnd HEAP_START before = found := place.symm
  rw [here] at header
  have offset : ptr = found + 8 ∨ ptr = found + 16 ∨ ptr = found + 24 := by omega
  rcases offset with sizeField | linkField | magicField
  · -- the low half of the size
    have field : readMagic heap.mem (ptr - HEADER_SIZE) = block.size % 2 ^ 32 := by
      have address : ptr - HEADER_SIZE + 16 = found := by
        unfold HEADER_SIZE
        omega
      rw [readMagic, address, readSize_low, header.size]
    have bound := laid.size_le (by simp : block ∈ before ++ block :: behind)
    have largest : HEAP_MAX_SIZE = 67108864 := rfl
    have magic : MAGIC_USED = 3405691582 := rfl
    rw [field, magic]
    omega
  · -- the low half of the link
    have field : readMagic heap.mem (ptr - HEADER_SIZE) =
        linkTo behind (found + block.width) 0 % 2 ^ 32 := by
      have address : ptr - HEADER_SIZE + 16 = found + 8 := by
        unfold HEADER_SIZE
        omega
      rw [readMagic, address, readNext_low, header.next]
    have link : linkTo behind (found + block.width) 0 % 8 = 0 := by
      cases behind with
      | nil => rfl
      | cons next rest =>
          have size := sizes.2.1
          have wide : block.width = 24 + block.size := rfl
          rw [linkTo, wide]
          omega
    have magic : MAGIC_USED = 3405691582 := rfl
    rw [field, magic]
    omega
  · -- the magic number of the header itself
    have address : ptr - HEADER_SIZE = found := by
      unfold HEADER_SIZE
      omega
    rw [address] at unused ⊢
    rw [header.magic]
    cases usage : block.used with
    | true => exact absurd ⟨block, placed, usage⟩ unused
    | false => decide

theorem Laid.stale_magic {heap : Heap} {blocks : List Block} {mem : ByteStore.Store} {ptr : Nat}
    (laid : Laid heap blocks) (sizes : EightfoldSizes blocks)
    (writes : WritesHeaders blocks mem heap.mem) (eightfold : ptr % 8 = 0)
    (inside : HEADER_SIZE ≤ ptr) (unused : ¬ UsedAt HEAP_START blocks (ptr - HEADER_SIZE))
    (before : ptr - HEADER_SIZE ∉ headersOf HEAP_START blocks →
      readMagic mem (ptr - HEADER_SIZE) ≠ MAGIC_USED) :
    readMagic heap.mem (ptr - HEADER_SIZE) ≠ MAGIC_USED := by
  by_cases covered : ∃ hdr, hdr ∈ headersOf HEAP_START blocks ∧ hdr + 8 ≤ ptr ∧ ptr < hdr + 32
  · rcases covered with ⟨hdr, member, lower, upper⟩
    exact laid.covered_magic sizes member eightfold lower upper unused
  · have outside (hdr : Nat) (member : hdr ∈ headersOf HEAP_START blocks) :
        ptr < hdr + 8 ∨ hdr + 32 ≤ ptr := by
      by_contra overlap
      exact covered ⟨hdr, member, by omega, by omega⟩
    have absent : ptr - HEADER_SIZE ∉ headersOf HEAP_START blocks := by
      intro member
      have apart := outside _ member
      unfold HEADER_SIZE at apart inside
      omega
    have same : readMagic heap.mem (ptr - HEADER_SIZE) = readMagic mem (ptr - HEADER_SIZE) := by
      apply ByteStore.readLE_congr
      intro byte lower upper
      apply writes
      intro hdr member
      have apart := outside hdr member
      have eighth := sizes.header member
      unfold HEADER_SIZE at *
      omega
    rw [same]
    exact before absent

theorem Laid.place_bounds {heap : Heap} {before behind : List Block} {block : Block}
    (laid : Laid heap (before ++ ([block] ++ behind))) :
    HEAP_START ≤ blocksEnd HEAP_START before ∧
      blocksEnd HEAP_START before + HEADER_SIZE + block.size < Word64.modulus := by
  have placed : (blocksEnd HEAP_START before, block) ∈
      placedBlocks HEAP_START (before ++ ([block] ++ behind)) := by
    simp [Tiling.placed]
  have bounds := Tiling.placed_bounds placed
  have last := Nat.lt_of_le_of_lt bounds.2 laid.fits
  rw [Block.width, ← Nat.add_assoc] at last
  exact ⟨bounds.1, last⟩

theorem wordStep_writes {run next : HeapRun} {blocks remaining : List Block} {call : HeapCall}
    (holds : run.Holds blocks) (stepped : wordStep run call = some next)
    (kept : next.Holds remaining) (noStore : ∀ address value, call ≠ .store address value) :
    WritesHeaders remaining run.heap.mem next.heap.mem := by
  cases call with
  | kmalloc size =>
      simp only [wordStep] at stepped
      split at stepped
      · rename_i grows
        split at stepped
        · cases stepped
        · rename_i ptr after allocated
          cases stepped
          have laid := holds.invariant.laid
          exact laid.kmalloc_writes holds.physical (laid.kmalloc_positive allocated) grows.2
            allocated kept.invariant.laid
      · cases stepped
  | kfree ptr =>
      by_cases null : ptr = 0
      · simp only [wordStep, if_pos null, Option.some.injEq] at stepped
        subst next
        intro byte _
        rfl
      · obtain ⟨before, block, behind, split, address, _, _, merged⟩ :=
          wordStep_kfree holds null stepped
        have same := kept.invariant.laid.unique merged.invariant.laid
        subst same
        subst split
        have bounds := holds.invariant.laid.place_bounds
        have back : Word64.sub ptr HEADER_SIZE = blocksEnd HEAP_START before := by
          rw [Word64.sub_eq (by omega) (by omega)]
          omega
        obtain ⟨size, rest, mergedEq, _⟩ := head_mergeFree { block with used := false } behind
        intro byte apart
        have outside := apart (blocksEnd HEAP_START before) (by
          rw [mergedEq]
          exact header_behind _ _ _ _)
        rw [← back] at outside
        simp only [wordStep, if_neg null, heapStep] at stepped
        split at stepped
        · split at stepped
          · cases stepped
          · rename_i released freed
            cases stepped
            exact kfree_outside freed outside
        · cases stepped
  | store address value => exact absurd rfl (noStore address value)

/-! ### Runs that remember what was released -/

structure FreeRun where
  run : HeapRun
  freed : List Nat

def releasedBy : HeapCall → List Nat
  | .kfree ptr => [ptr]
  | _ => []

def freeStep (state : FreeRun) (call : HeapCall) : Option FreeRun :=
  (wordStep state.run call).map
    (fun run => { run := run, freed := releasedBy call ++ state.freed })

structure FreeRun.Stale (state : FreeRun) (ptr : Nat) : Prop where
  released : ptr ∈ state.freed
  notNull : ptr ≠ 0
  dead : ∀ entry, entry ∈ state.run.live → entry.1 ≠ ptr

/-- The call does not store the last byte of a used block's magic number below a stale
pointer. -/
def KeepsStale (state : FreeRun) (call : HeapCall) : Prop :=
  ∀ address value, call = .store address value → ∀ ptr, state.Stale ptr →
    readMagic (Function.update state.run.heap.mem address value) (ptr - HEADER_SIZE) ≠ MAGIC_USED

structure FreeRun.Sound (state : FreeRun) (blocks : List Block) : Prop where
  holds : state.run.Holds blocks
  sizes : EightfoldSizes blocks
  listed : ∀ hdr, UsedAt HEAP_START blocks hdr →
    ∃ entry, entry ∈ state.run.live ∧ entry.1 = hdr + HEADER_SIZE
  placed : ∀ ptr, ptr ∈ state.freed → ptr ≠ 0 →
    ptr % 8 = 0 ∧ HEADER_SIZE ≤ ptr ∧ ptr < Word64.modulus
  detected : ∀ ptr, state.Stale ptr →
    readMagic state.run.heap.mem (ptr - HEADER_SIZE) ≠ MAGIC_USED

def FreeRun.Tracked (state : FreeRun) : Prop := ∃ blocks, state.Sound blocks

theorem unused_of_dead {run : HeapRun} {blocks : List Block} {ptr : Nat}
    (listed : ∀ hdr, UsedAt HEAP_START blocks hdr →
      ∃ entry, entry ∈ run.live ∧ entry.1 = hdr + HEADER_SIZE)
    (inside : HEADER_SIZE ≤ ptr) (dead : ∀ entry, entry ∈ run.live → entry.1 ≠ ptr) :
    ¬ UsedAt HEAP_START blocks (ptr - HEADER_SIZE) := by
  intro used
  rcases listed _ used with ⟨entry, live, address⟩
  exact dead entry live (by omega)

theorem freeStep_some {state next : FreeRun} {call : HeapCall}
    (stepped : freeStep state call = some next) :
    wordStep state.run call = some next.run ∧ next.freed = releasedBy call ++ state.freed := by
  obtain ⟨run, ran, same⟩ := Option.map_eq_some_iff.mp stepped
  subst same
  exact ⟨ran, rfl⟩

theorem FreeRun.Sound.detects {state next : FreeRun} {blocks remaining : List Block}
    {call : HeapCall} (sound : state.Sound blocks) (stepped : freeStep state call = some next)
    (noStore : ∀ address value, call ≠ .store address value) (holds : next.run.Holds remaining)
    (listed : ∀ hdr, UsedAt HEAP_START remaining hdr →
      ∃ entry, entry ∈ next.run.live ∧ entry.1 = hdr + HEADER_SIZE)
    (placed : ∀ ptr, ptr ∈ next.freed → ptr ≠ 0 →
      ptr % 8 = 0 ∧ HEADER_SIZE ≤ ptr ∧ ptr < Word64.modulus)
    (older : ∀ ptr, next.Stale ptr → ptr - HEADER_SIZE ∉ headersOf HEAP_START remaining →
      state.Stale ptr) :
    next.Sound remaining := by
  have ran := (freeStep_some stepped).1
  have sizes : EightfoldSizes remaining := by
    rcases wordStep_eightfold state.run call next.run ⟨blocks, sound.holds, sound.sizes⟩ ran with
      ⟨other, otherHolds, otherSizes⟩
    rw [holds.invariant.laid.unique otherHolds.invariant.laid]
    exact otherSizes
  constructor
  case holds => exact holds
  case sizes => exact sizes
  case listed => exact listed
  case placed => exact placed
  case detected =>
    intro ptr stale
    obtain ⟨eightfold, inside, _⟩ := placed ptr stale.released stale.notNull
    apply holds.invariant.laid.stale_magic sizes
      (wordStep_writes sound.holds ran holds noStore) eightfold inside
      (unused_of_dead listed inside stale.dead)
    intro absent
    exact sound.detected ptr (older ptr stale absent)

section Calls

variable {state next : FreeRun} {blocks : List Block}

theorem FreeRun.Sound.kmalloc {size : Nat} (sound : state.Sound blocks)
    (stepped : freeStep state (.kmalloc size) = some next) : next.Tracked := by
  obtain ⟨ran, freed⟩ := freeStep_some stepped
  obtain ⟨before, block, behind, ptr, granted, source, _, _, address, _, live, kept⟩ :=
    wordStep_kmalloc sound.holds ran
  refine ⟨_, sound.detects stepped (by simp) kept ?_ (freed ▸ sound.placed) ?_⟩
  · intro hdr used
    rw [live]
    rw [usedAt_append, usedAt_append, usedAt_taken, Block.taken_extent] at used
    have old (elsewhere : UsedAt HEAP_START (before ++ ([block] ++ behind)) hdr) :
        ∃ entry, entry ∈ (ptr, granted) :: state.run.live ∧ entry.1 = hdr + HEADER_SIZE := by
      rcases sound.listed hdr (source.usedAt elsewhere) with ⟨entry, member, place⟩
      exact ⟨entry, List.mem_cons_of_mem _ member, place⟩
    rcases used with early | here | late
    · apply old
      rw [usedAt_append]
      exact Or.inl early
    · rw [here]
      exact ⟨(ptr, granted), List.mem_cons_self .., address⟩
    · apply old
      rw [usedAt_append, usedAt_append]
      exact Or.inr (Or.inr late)
  · intro pointer stale _
    have dead := stale.dead
    rw [live] at dead
    constructor
    case released =>
      have member := stale.released
      rw [freed] at member
      exact member
    case notNull => exact stale.notNull
    case dead => exact fun entry member => dead entry (List.mem_cons_of_mem _ member)

theorem FreeRun.Sound.kfree_null (sound : state.Sound blocks)
    (stepped : freeStep state (.kfree 0) = some next) : next.Tracked := by
  obtain ⟨ran, freed⟩ := freeStep_some stepped
  have same : state.run = next.run := by
    simpa only [wordStep, if_true, Option.some.injEq] using ran
  have old (pointer : Nat) (member : pointer ∈ next.freed) (notNull : pointer ≠ 0) :
      pointer ∈ state.freed := by
    rw [freed, releasedBy, List.singleton_append, List.mem_cons] at member
    exact member.resolve_left notNull
  refine ⟨blocks, sound.detects stepped (by simp) (same ▸ sound.holds)
    (same ▸ sound.listed) ?_ ?_⟩
  · intro pointer member notNull
    exact sound.placed pointer (old pointer member notNull) notNull
  · intro pointer stale _
    exact ⟨old pointer stale.released stale.notNull, stale.notNull, same ▸ stale.dead⟩

theorem usedAt_released {before behind : List Block} {block : Block} {hdr : Nat}
    (still : UsedAt HEAP_START (before ++ mergeFree { block with used := false } behind) hdr) :
    UsedAt HEAP_START (before ++ ([block] ++ behind)) hdr ∧
      hdr ≠ blocksEnd HEAP_START before := by
  rw [usedAt_append, usedAt_mergeFree rfl] at still
  rw [usedAt_append, List.singleton_append, usedAt_cons]
  rcases still with early | late
  · refine ⟨Or.inl early, ?_⟩
    rcases early with ⟨found, foundPlaced, _⟩
    have bounds : hdr + found.width ≤ blocksEnd HEAP_START before :=
      (Tiling.placed_bounds foundPlaced).2
    have positive := found.width_pos
    exact Nat.ne_of_lt (by omega)
  · refine ⟨Or.inr (Or.inr late), ?_⟩
    rcases late with ⟨found, foundPlaced, _⟩
    have bounds : blocksEnd HEAP_START before + block.width ≤ hdr :=
      (Tiling.placed_bounds foundPlaced).1
    have positive := block.width_pos
    omega

theorem FreeRun.Sound.kfree {ptr : Nat} (sound : state.Sound blocks) (null : ptr ≠ 0)
    (stepped : freeStep state (.kfree ptr) = some next) : next.Tracked := by
  obtain ⟨ran, freed⟩ := freeStep_some stepped
  obtain ⟨before, block, behind, split, address, used, live, kept⟩ :=
    wordStep_kfree sound.holds null ran
  have survives (entry : Nat × Nat) (member : entry ∈ state.run.live)
      (other : entry.1 ≠ ptr) : entry ∈ next.run.live := by
    rw [live, List.mem_filter]
    exact ⟨member, by simpa using other⟩
  refine ⟨_, sound.detects stepped (by simp) kept ?_ ?_ ?_⟩
  · intro hdr still
    obtain ⟨usedBefore, apart⟩ := usedAt_released still
    rw [← split] at usedBefore
    rcases sound.listed hdr usedBefore with ⟨entry, member, place⟩
    exact ⟨entry, survives entry member (by omega), place⟩
  · intro pointer member notNull
    rw [freed, releasedBy, List.singleton_append, List.mem_cons] at member
    rcases member with new | old
    · have sizes := sound.sizes
      have laid := sound.holds.invariant.laid
      rw [split] at laid sizes
      have bounds := laid.place_bounds
      rw [eightfold_append] at sizes
      have eighth := sizes.1.place
      have header : HEADER_SIZE = 24 := rfl
      omega
    · exact sound.placed pointer old notNull
  · intro pointer stale absent
    have other : pointer ≠ ptr := by
      intro same
      apply absent
      obtain ⟨size, rest, merged, _⟩ := head_mergeFree { block with used := false } behind
      rw [merged, same, address, Nat.add_sub_cancel]
      exact header_behind _ _ _ _
    have member := stale.released
    rw [freed, releasedBy, List.singleton_append, List.mem_cons] at member
    constructor
    case released => exact member.resolve_left other
    case notNull => exact stale.notNull
    case dead =>
      intro entry old same
      exact stale.dead entry (survives entry old (by omega)) same

theorem FreeRun.Sound.store {address : Nat} {value : BitVec 8} (sound : state.Sound blocks)
    (keeps : KeepsStale state (.store address value))
    (stepped : freeStep state (.store address value) = some next) : next.Tracked := by
  obtain ⟨ran, freed⟩ := freeStep_some stepped
  obtain ⟨same, kept⟩ := wordStep_store sound.holds ran
  have stale (pointer : Nat) (later : next.Stale pointer) : state.Stale pointer := by
    constructor
    case released =>
      have member := later.released
      rw [freed] at member
      exact member
    case notNull => exact later.notNull
    case dead =>
      have dead := later.dead
      rw [same] at dead
      exact dead
  refine ⟨blocks, ?_⟩
  constructor
  case holds => exact kept
  case sizes => exact sound.sizes
  case listed =>
    rw [same]
    exact sound.listed
  case placed =>
    rw [freed]
    exact sound.placed
  case detected =>
    intro pointer later
    rw [same]
    exact keeps address value rfl pointer (stale pointer later)

theorem FreeRun.Sound.step {call : HeapCall} (sound : state.Sound blocks)
    (keeps : KeepsStale state call) (stepped : freeStep state call = some next) :
    next.Tracked := by
  cases call with
  | kmalloc size => exact sound.kmalloc stepped
  | kfree ptr =>
      by_cases null : ptr = 0
      · subst null
        exact sound.kfree_null stepped
      · exact sound.kfree null stepped
  | store address value => exact sound.store keeps stepped

end Calls

def Rejects (heap : Heap) (ptr : Nat) : Prop :=
  kfree heap ptr = .error (.kfreeDoubleFree ptr) ∨
    ∃ magic, kfree heap ptr = .error (.kfreeInvalidPointer ptr magic)

theorem rejects_iff {heap : Heap} {ptr : Nat} (inited : heap.heapInited = true)
    (notNull : ptr ≠ 0) (inside : HEADER_SIZE ≤ ptr) (word : ptr < Word64.modulus) :
    Rejects heap ptr ↔ readMagic heap.mem (ptr - HEADER_SIZE) ≠ MAGIC_USED := by
  have back : Word64.sub ptr HEADER_SIZE = ptr - HEADER_SIZE := Word64.sub_eq inside word
  unfold Rejects
  rw [kfree, if_neg notNull, if_neg (by simp [inited])]
  dsimp only
  rw [back]
  by_cases free : readMagic heap.mem (ptr - HEADER_SIZE) = MAGIC_FREE
  · rw [if_pos free, free]
    constructor
    · intro _
      decide
    · intro _
      exact Or.inl rfl
  · rw [if_neg free]
    by_cases used : readMagic heap.mem (ptr - HEADER_SIZE) = MAGIC_USED
    · rw [if_neg (not_not.mpr used)]
      simp [used]
    · rw [if_pos used]
      constructor
      · intro _
        exact used
      · intro _
        exact Or.inr ⟨_, rfl⟩

theorem FreeRun.Sound.rejects_iff {state : FreeRun} {blocks : List Block} {ptr : Nat}
    (sound : state.Sound blocks) (stale : state.Stale ptr) :
    Rejects state.run.heap ptr ↔
      readMagic state.run.heap.mem (ptr - HEADER_SIZE) ≠ MAGIC_USED := by
  obtain ⟨_, inside, word⟩ := sound.placed ptr stale.released stale.notNull
  exact Memory.rejects_iff sound.holds.invariant.laid.inited stale.notNull inside word

theorem FreeRun.Sound.store_rejected {state next : FreeRun} {blocks : List Block}
    {address ptr : Nat} {value : BitVec 8} (sound : state.Sound blocks)
    (stepped : freeStep state (.store address value) = some next) (stale : state.Stale ptr)
    (rejects : ∀ pointer, next.Stale pointer → Rejects next.run.heap pointer) :
    readMagic (Function.update state.run.heap.mem address value) (ptr - HEADER_SIZE) ≠
      MAGIC_USED := by
  obtain ⟨ran, freed⟩ := freeStep_some stepped
  have same := (wordStep_store sound.holds ran).1
  obtain ⟨_, inside, word⟩ := sound.placed ptr stale.released stale.notNull
  have later : next.Stale ptr := by
    constructor
    case released =>
      rw [freed]
      exact stale.released
    case notNull => exact stale.notNull
    case dead =>
      rw [same]
      exact stale.dead
  have inited : next.run.heap.heapInited = true := by
    rw [same]
    exact sound.holds.invariant.laid.inited
  have rejected := (Memory.rejects_iff inited stale.notNull inside word).mp (rejects ptr later)
  rw [same] at rejected
  exact rejected

theorem kmallocInit_sound {before heap : Heap} {n : Nat}
    (physical : before.vmm.pmm.totalPages * PAGE_SIZE ≤ 2 ^ 52)
    (started : kmallocInit before HEAP_START n = .ok heap)
    (rounded : (n + 4095) / PAGE_SIZE * PAGE_SIZE ≤ HEAP_MAX_SIZE) :
    FreeRun.Tracked { run := { heap := heap, live := [] }, freed := [] } := by
  rcases kmallocInit_eightfold physical started rounded with ⟨holds, sizes⟩
  refine ⟨_, holds, sizes, ?_, ?_, ?_⟩
  · intro hdr used
    rw [usedAt_cons] at used
    rcases used with ⟨_, impossible⟩ | impossible
    · cases impossible
    · exact absurd impossible (usedAt_nil _ _)
  · intro ptr member
    exact absurd member List.not_mem_nil
  · intro ptr stale
    exact absurd stale.released List.not_mem_nil

/-- From `kmalloc_init` on, `kfree` panics for every stale pointer in every state passed
just if no store completes the magic number of a used block below a stale pointer. -/
theorem double_free_detected_iff {before heap : Heap} {n : Nat} {calls : List HeapCall}
    {final : FreeRun} (physical : before.vmm.pmm.totalPages * PAGE_SIZE ≤ 2 ^ 52)
    (started : kmallocInit before HEAP_START n = .ok heap)
    (rounded : (n + 4095) / PAGE_SIZE * PAGE_SIZE ≤ HEAP_MAX_SIZE)
    (reached : LabelledRun.exec freeStep { run := { heap := heap, live := [] }, freed := [] }
      calls = some final) :
    (∀ first second middle, calls = first ++ second →
      LabelledRun.exec freeStep { run := { heap := heap, live := [] }, freed := [] } first =
        some middle → ∀ ptr, middle.Stale ptr → Rejects middle.run.heap ptr) ↔
      LabelledRun.Guarded freeStep KeepsStale
        { run := { heap := heap, live := [] }, freed := [] } calls := by
  have tracked := kmallocInit_sound physical started rounded
  apply LabelledRun.passed_iff_guarded _ _ _ tracked reached
  · intro state call next sound keeps stepped
    rcases sound with ⟨blocks, here⟩
    exact here.step keeps stepped
  · intro state sound ptr stale
    rcases sound with ⟨blocks, here⟩
    exact (here.rejects_iff stale).mpr (here.detected ptr stale)
  · intro state call next sound stepped rejects address value same ptr stale
    rcases sound with ⟨blocks, here⟩
    subst same
    exact here.store_rejected stepped stale rejects

/-- A run without stores meets the guard. -/
theorem freshHeap_freed_rejected :
    ∃ heap final, kmallocInit freshHeap HEAP_START 4096 = .ok heap ∧
      LabelledRun.exec freeStep { run := { heap := heap, live := [] }, freed := [] }
        [.kmalloc 16, .kfree 0xffff800100000018] = some final ∧
      ∀ ptr, final.Stale ptr → Rejects final.run.heap ptr := by
  obtain ⟨heap, final, started, reached⟩ := @freshHeap_reaches _ (fun heap =>
    LabelledRun.exec freeStep { run := { heap := heap, live := [] }, freed := [] }
      [.kmalloc 16, .kfree 0xffff800100000018]) (by decide +kernel)
  have guarded : LabelledRun.Guarded freeStep KeepsStale
      { run := { heap := heap, live := [] }, freed := [] }
      [.kmalloc 16, .kfree 0xffff800100000018] := by
    constructor
    · intro address value impossible
      cases impossible
    · intro next _
      constructor
      · intro address value impossible
        cases impossible
      · intro later _
        trivial
  exact ⟨heap, final, started, reached,
    (double_free_detected_iff (by decide) started (by decide) reached).mpr guarded
      _ [] final (List.append_nil _).symm reached⟩

/-- Two neighbours are released and merged, a larger payload covers the second header, and
its owner stores the number `0xCAFEBABE` where the magic number was. -/
def forgingCalls : List HeapCall :=
  [.kmalloc 16, .kmalloc 16, .kfree 0xffff800100000040, .kfree 0xffff800100000018, .kmalloc 100,
    .store 0xffff800100000038 0xBE#8, .store 0xffff800100000039 0xBA#8,
    .store 0xffff80010000003a 0xFE#8, .store 0xffff80010000003b 0xCA#8]

theorem freshHeap_forged_release :
    ∃ heap final, kmallocInit freshHeap HEAP_START 4096 = .ok heap ∧
      LabelledRun.exec freeStep { run := { heap := heap, live := [] }, freed := [] } forgingCalls =
        some final ∧
      final.Stale 0xffff800100000040 ∧ ¬ Rejects final.run.heap 0xffff800100000040 ∧
      ∃ released, kfree final.run.heap 0xffff800100000040 = .ok released := by
  obtain ⟨heap, started, computed⟩ := @freshHeap_computes _ (fun heap =>
      (LabelledRun.exec freeStep { run := { heap := heap, live := [] }, freed := [] }
        forgingCalls).map (fun final => (final.freed, final.run.live,
          (kfree final.run.heap 0xffff800100000040).toOption.isSome)))
      ([0xffff800100000018, 0xffff800100000040], [(0xffff800100000018, 112)], true)
      (by decide +kernel)
  obtain ⟨final, reached, observed⟩ := Option.map_eq_some_iff.mp computed
  simp only [Prod.mk.injEq] at observed
  obtain ⟨freed, live, accepted⟩ := observed
  cases result : kfree final.run.heap 0xffff800100000040 with
  | error panic =>
      rw [result] at accepted
      cases accepted
  | ok released =>
      refine ⟨heap, final, started, reached, ⟨?_, by decide, ?_⟩, ?_, released, result⟩
      · rw [freed]
        decide
      · rw [live]
        decide
      · intro rejected
        rcases rejected with double | ⟨magic, invalid⟩
        · rw [result] at double
          cases double
        · rw [result] at invalid
          cases invalid

end CustomKernel.Memory
