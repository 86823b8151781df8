/-
The heap as a list of blocks.

A block has a payload size and a used flag.  A chain of headers in memory stores
a block list: every header holds its block's fields and the address of the next
header.  Taking a block, growing the window, and releasing with the merge that
follows are each an edit of the list at one place; everything before and after
that place is carried over because its headers are not written.
-/

import CustomKernel.Foundation.Tiling
import CustomKernel.Memory.Heap

set_option autoImplicit false

namespace CustomKernel.Memory

structure Block where
  size : Nat
  used : Bool

def Block.width (block : Block) : Nat := HEADER_SIZE + block.size

structure HeaderAt (mem : ByteStore.Store) (hdr : Nat) (block : Block) (next : Nat) : Prop where
  size : readSize mem hdr = block.size
  used : readUsed mem hdr = if block.used then 1 else 0
  magic : readMagic mem hdr = if block.used then MAGIC_USED else MAGIC_FREE
  next : readNext mem hdr = next

/-- What a link to a list of blocks holds: its first address, or the link after it. -/
def linkTo : List Block → Nat → Nat → Nat
  | [], _, tail => tail
  | _ :: _, addr, _ => addr

/-- The headers of the blocks, laid out from an address; the last one links to `tail`. -/
def Chain (mem : ByteStore.Store) (tail : Nat) : Nat → List Block → Prop
  | _, [] => True
  | addr, block :: rest =>
      HeaderAt mem addr block (linkTo rest (addr + block.width) tail) ∧
        Chain mem tail (addr + block.width) rest

abbrev blocksEnd (addr : Nat) (blocks : List Block) : Nat := Tiling.stop Block.width addr blocks

abbrev placedBlocks (addr : Nat) (blocks : List Block) : List (Nat × Block) :=
  Tiling.placed Block.width addr blocks

theorem Block.width_pos (block : Block) : 0 < block.width := by
  unfold Block.width HEADER_SIZE
  omega

/-! ### Headers under writes -/

theorem HeaderAt.congr {mem other : ByteStore.Store} {hdr next : Nat} {block : Block}
    (header : HeaderAt mem hdr block next)
    (same : ∀ byte, hdr ≤ byte → byte < hdr + HEADER_SIZE → other byte = mem byte) :
    HeaderAt other hdr block next := by
  have field (offset count : Nat) (inside : offset + count ≤ HEADER_SIZE) :
      ByteStore.readLE other (hdr + offset) count = ByteStore.readLE mem (hdr + offset) count :=
    ByteStore.readLE_congr (fun byte lower upper => same byte (by omega) (by omega))
  have size := field 0 8 (by decide)
  have next := field 8 8 (by decide)
  have magic := field 16 4 (by decide)
  have used := field 20 1 (by decide)
  exact
    { size := size.trans header.size
      used := used.trans header.used
      magic := magic.trans header.magic
      next := next.trans header.next }

theorem HeaderAt.writeNext {mem : ByteStore.Store} {hdr next : Nat} {block : Block}
    (header : HeaderAt mem hdr block next) {link : Nat} (fits : link < Word64.modulus) :
    HeaderAt (writeNext mem hdr link) hdr block link where
  size := (ByteStore.readLE_writeLE_disjoint mem (by omega)).trans header.size
  used := (ByteStore.readLE_writeLE_disjoint mem (by omega)).trans header.used
  magic := (ByteStore.readLE_writeLE_disjoint mem (by omega)).trans header.magic
  next := ByteStore.readLE_writeLE_same mem fits

theorem HeaderAt.writeSize {mem : ByteStore.Store} {hdr next size : Nat} {block : Block}
    (header : HeaderAt mem hdr block next) (fits : size < Word64.modulus) :
    HeaderAt (writeSize mem hdr size) hdr { block with size := size } next where
  size := ByteStore.readLE_writeLE_same mem fits
  used := (ByteStore.readLE_writeLE_disjoint mem (by omega)).trans header.used
  magic := (ByteStore.readLE_writeLE_disjoint mem (by omega)).trans header.magic
  next := (ByteStore.readLE_writeLE_disjoint mem (by omega)).trans header.next

theorem HeaderAt.mark {mem : ByteStore.Store} {hdr next : Nat} {block : Block}
    (header : HeaderAt mem hdr block next) (flag : Bool) :
    HeaderAt
      (writeMagic (writeUsed mem hdr (if flag then 1 else 0)) hdr
        (if flag then MAGIC_USED else MAGIC_FREE))
      hdr { block with used := flag } next where
  size := ((ByteStore.readLE_writeLE_disjoint _ (by omega)).trans
    (ByteStore.readLE_writeLE_disjoint mem (by omega))).trans header.size
  used := (ByteStore.readLE_writeLE_disjoint _ (by omega)).trans
    (ByteStore.readLE_writeLE_same mem (by cases flag <;> decide))
  magic := ByteStore.readLE_writeLE_same _ (by cases flag <;> decide)
  next := ((ByteStore.readLE_writeLE_disjoint _ (by omega)).trans
    (ByteStore.readLE_writeLE_disjoint mem (by omega))).trans header.next

theorem headerAt_writeHeader (mem : ByteStore.Store) (hdr : Nat) {size next : Nat}
    (sizeFits : size < Word64.modulus) (nextFits : next < Word64.modulus) :
    HeaderAt (writeHeader mem hdr { size := size, used := 0, magic := MAGIC_FREE, next := next })
      hdr { size := size, used := false } next where
  size := by
    simp (disch := omega) only [writeHeader, readSize, writeUsed, writeMagic, writeNext, writeSize,
      ByteStore.readLE_writeLE_disjoint]
    exact ByteStore.readLE_writeLE_same mem sizeFits
  used := by
    simp (disch := omega) only [writeHeader, readUsed, writeUsed,
      ByteStore.readLE_writeLE_disjoint]
    exact ByteStore.readLE_writeLE_same _ (by decide)
  magic := by
    simp (disch := omega) only [writeHeader, readMagic, writeUsed, writeMagic,
      ByteStore.readLE_writeLE_disjoint]
    exact ByteStore.readLE_writeLE_same _ (by decide)
  next := by
    simp (disch := omega) only [writeHeader, readNext, writeUsed, writeMagic, writeNext,
      ByteStore.readLE_writeLE_disjoint]
    exact ByteStore.readLE_writeLE_same _ nextFits

/-! ### The frame of the header writes -/

section Outside

variable {mem : ByteStore.Store} {hdr value byte : Nat}

theorem writeSize_outside (outside : byte < hdr ∨ hdr + HEADER_SIZE ≤ byte) :
    writeSize mem hdr value byte = mem byte :=
  ByteStore.writeLE_outside mem (by unfold HEADER_SIZE at outside; omega)

theorem writeNext_outside (outside : byte < hdr ∨ hdr + HEADER_SIZE ≤ byte) :
    writeNext mem hdr value byte = mem byte :=
  ByteStore.writeLE_outside mem (by unfold HEADER_SIZE at outside; omega)

theorem writeMagic_outside (outside : byte < hdr ∨ hdr + HEADER_SIZE ≤ byte) :
    writeMagic mem hdr value byte = mem byte :=
  ByteStore.writeLE_outside mem (by unfold HEADER_SIZE at outside; omega)

theorem writeUsed_outside (outside : byte < hdr ∨ hdr + HEADER_SIZE ≤ byte) :
    writeUsed mem hdr value byte = mem byte :=
  ByteStore.writeLE_outside mem (by unfold HEADER_SIZE at outside; omega)

theorem writeHeader_outside {header : BlockHeader}
    (outside : byte < hdr ∨ hdr + HEADER_SIZE ≤ byte) :
    writeHeader mem hdr header byte = mem byte := by
  unfold writeHeader
  rw [ByteStore.writeLE_outside _ (by unfold HEADER_SIZE at outside; omega),
    writeUsed_outside outside, writeMagic_outside outside, writeNext_outside outside,
    writeSize_outside outside]

end Outside

/-! ### Chains -/

theorem linkTo_append (first second : List Block) (addr tail : Nat) :
    linkTo (first ++ second) addr tail =
      linkTo first addr (linkTo second (blocksEnd addr first) tail) := by
  cases first <;> rfl

theorem chain_append {mem : ByteStore.Store} {tail addr : Nat} {first second : List Block} :
    Chain mem tail addr (first ++ second) ↔
      Chain mem (linkTo second (blocksEnd addr first) tail) addr first ∧
        Chain mem tail (blocksEnd addr first) second := by
  induction first generalizing addr with
  | nil => simp [Chain]
  | cons block rest ih =>
      simp only [List.cons_append, Chain, linkTo_append, ih, and_assoc, Tiling.stop_cons]

theorem chain_split {mem : ByteStore.Store} {tail addr : Nat} {before middle after : List Block} :
    Chain mem tail addr (before ++ (middle ++ after)) ↔
      Chain mem (linkTo (middle ++ after) (blocksEnd addr before) tail) addr before ∧
      Chain mem (linkTo after (blocksEnd (blocksEnd addr before) middle) tail)
        (blocksEnd addr before) middle ∧
      Chain mem tail (blocksEnd (blocksEnd addr before) middle) after := by
  rw [chain_append, chain_append]

theorem Chain.congr {mem other : ByteStore.Store} {tail addr : Nat} {blocks : List Block}
    (chain : Chain mem tail addr blocks)
    (same : ∀ hdr block, (hdr, block) ∈ placedBlocks addr blocks →
      ∀ byte, hdr ≤ byte → byte < hdr + HEADER_SIZE → other byte = mem byte) :
    Chain other tail addr blocks := by
  induction blocks generalizing addr with
  | nil => trivial
  | cons block rest ih =>
      obtain ⟨header, later⟩ := chain
      refine ⟨header.congr (same addr block (List.mem_cons_self ..)), ih later ?_⟩
      intro hdr other member
      exact same hdr other (List.mem_cons_of_mem _ member)

theorem Chain.outside {mem other : ByteStore.Store} {tail addr : Nat} {blocks : List Block}
    (chain : Chain mem tail addr blocks)
    (same : ∀ byte, addr ≤ byte → byte < blocksEnd addr blocks → other byte = mem byte) :
    Chain other tail addr blocks := by
  apply chain.congr
  intro hdr block member byte lower upper
  have first : addr ≤ hdr := (Tiling.placed_bounds member).1
  have last : hdr + block.width ≤ blocksEnd addr blocks := (Tiling.placed_bounds member).2
  have wide : block.width = HEADER_SIZE + block.size := rfl
  exact same byte (by omega) (by omega)

/-- Editing a chain in the middle: new blocks of the same extent, written inside it. -/
theorem Chain.edit {mem other : ByteStore.Store} {addr : Nat}
    {before middle after : List Block} (replacement : List Block)
    (chain : Chain mem 0 addr (before ++ (middle ++ after)))
    (some_ : middle ≠ []) (someNew : replacement ≠ [])
    (extent : blocksEnd (blocksEnd addr before) replacement =
      blocksEnd (blocksEnd addr before) middle)
    (same : ∀ byte, byte < blocksEnd addr before ∨
      blocksEnd (blocksEnd addr before) middle ≤ byte → other byte = mem byte)
    (edited : Chain mem (linkTo after (blocksEnd (blocksEnd addr before) middle) 0)
        (blocksEnd addr before) middle →
      Chain other (linkTo after (blocksEnd (blocksEnd addr before) middle) 0)
        (blocksEnd addr before) replacement) :
    Chain other 0 addr (before ++ (replacement ++ after)) := by
  obtain ⟨early, here, late⟩ := chain_split.mp chain
  rw [chain_split, extent]
  refine ⟨?_, edited here, ?_⟩
  · have links : linkTo (replacement ++ after) (blocksEnd addr before) 0 =
        linkTo (middle ++ after) (blocksEnd addr before) 0 := by
      cases middle with
      | nil => exact absurd rfl some_
      | cons _ _ =>
          cases replacement with
          | nil => exact absurd rfl someNew
          | cons _ _ => rfl
    rw [links]
    exact early.outside (fun byte _ upper => same byte (Or.inl upper))
  · exact late.outside (fun byte lower _ => same byte (Or.inr lower))

/-! ### The operations on one place of the list -/

def Block.taken (needed : Nat) (block : Block) : List Block :=
  if needed + HEADER_SIZE + ALIGN < block.size then
    [{ size := needed, used := true },
      { size := block.size - needed - HEADER_SIZE, used := false }]
  else [{ size := block.size, used := true }]

theorem Block.taken_ne_nil (needed : Nat) (block : Block) : block.taken needed ≠ [] := by
  unfold Block.taken
  split <;> simp

theorem Block.taken_extent {needed : Nat} {block : Block} (addr : Nat) :
    blocksEnd addr (block.taken needed) = blocksEnd addr [block] := by
  unfold Block.taken
  split
  · rename_i splits
    simp only [Tiling.stop_cons, Tiling.stop_nil, Block.width]
    omega
  · rfl

theorem takeBlock_eq {mem : ByteStore.Store} {needed cur next : Nat} {block : Block}
    (header : HeaderAt mem cur block next) (large : needed ≤ block.size)
    (high : ALIGN ≤ cur) (fits : cur + block.width < Word64.modulus) :
    takeBlock mem needed cur =
      writeMagic
        (writeUsed
          (if needed + HEADER_SIZE + ALIGN < block.size then
            writeSize
              (writeNext
                (writeHeader mem (cur + HEADER_SIZE + needed)
                  { size := block.size - needed - HEADER_SIZE, used := 0, magic := MAGIC_FREE,
                    next := next })
                cur (cur + HEADER_SIZE + needed))
              cur needed
          else mem)
          cur 1)
        cur MAGIC_USED := by
  have wide : block.width = HEADER_SIZE + block.size := rfl
  have payload : Word64.add cur HEADER_SIZE = cur + HEADER_SIZE := Word64.add_eq (by omega)
  have pointer : Word64.add (cur + HEADER_SIZE) needed = cur + HEADER_SIZE + needed :=
    Word64.add_eq (by omega)
  have withHeader : Word64.add needed HEADER_SIZE = needed + HEADER_SIZE :=
    Word64.add_eq (by omega)
  have total : Word64.add (needed + HEADER_SIZE) ALIGN = needed + HEADER_SIZE + ALIGN :=
    Word64.add_eq (by omega)
  have rest : Word64.sub block.size needed = block.size - needed :=
    Word64.sub_eq large (by omega)
  have leftover : 0 < block.size - (needed + HEADER_SIZE + ALIGN) ↔
      needed + HEADER_SIZE + ALIGN < block.size := by omega
  simp only [takeBlock, header.size, header.next, payload, pointer, withHeader, total, rest,
    leftover]
  by_cases splits : needed + HEADER_SIZE + ALIGN < block.size
  · have tail : Word64.sub (block.size - needed) HEADER_SIZE =
        block.size - needed - HEADER_SIZE := Word64.sub_eq (by omega) (by omega)
    rw [if_pos splits, if_pos splits, tail]
  · rw [if_neg splits, if_neg splits]

theorem takeBlock_outside {mem : ByteStore.Store} {needed cur next byte : Nat} {block : Block}
    (header : HeaderAt mem cur block next) (large : needed ≤ block.size)
    (high : ALIGN ≤ cur) (fits : cur + block.width < Word64.modulus)
    (outside : byte < cur ∨ cur + block.width ≤ byte) :
    takeBlock mem needed cur byte = mem byte := by
  have wide : block.width = HEADER_SIZE + block.size := rfl
  have inHeader : byte < cur ∨ cur + HEADER_SIZE ≤ byte := by omega
  rw [takeBlock_eq header large high fits, writeMagic_outside inHeader,
    writeUsed_outside inHeader]
  by_cases splits : needed + HEADER_SIZE + ALIGN < block.size
  · rw [if_pos splits, writeSize_outside inHeader, writeNext_outside inHeader,
      writeHeader_outside (by omega)]
  · rw [if_neg splits]

theorem takeBlock_headers {mem : ByteStore.Store} {needed cur tail : Nat} {block : Block}
    (chain : Chain mem tail cur [block]) (large : needed ≤ block.size) (high : ALIGN ≤ cur)
    (fits : cur + block.width < Word64.modulus) (tailFits : tail < Word64.modulus) :
    Chain (takeBlock mem needed cur) tail cur (block.taken needed) := by
  have header : HeaderAt mem cur block tail := chain.1
  have wide : block.width = HEADER_SIZE + block.size := rfl
  rw [takeBlock_eq header large high fits]
  by_cases splits : needed + HEADER_SIZE + ALIGN < block.size
  · rw [if_pos splits, Block.taken, if_pos splits]
    have secondPlace : cur + Block.width { size := needed, used := true } =
        cur + HEADER_SIZE + needed := by
      simp only [Block.width]
      omega
    have linked := header.congr (fun byte lower upper =>
      @writeHeader_outside mem (cur + HEADER_SIZE + needed) byte
        { size := block.size - needed - HEADER_SIZE, used := 0, magic := MAGIC_FREE,
          next := tail } (by omega))
    have linkFits : cur + HEADER_SIZE + needed < Word64.modulus := by omega
    have sizeFits : needed < Word64.modulus := by omega
    have restFits : block.size - needed - HEADER_SIZE < Word64.modulus := by omega
    have first := ((linked.writeNext linkFits).writeSize sizeFits).mark true
    have second := headerAt_writeHeader mem (cur + HEADER_SIZE + needed) restFits tailFits
    refine ⟨?_, ?_, trivial⟩
    · rw [secondPlace]
      exact first
    · rw [secondPlace]
      apply second.congr
      intro byte lower _
      have beyond : byte < cur ∨ cur + HEADER_SIZE ≤ byte := by omega
      rw [writeMagic_outside beyond, writeUsed_outside beyond, writeSize_outside beyond,
        writeNext_outside beyond]
  · rw [if_neg splits, Block.taken, if_neg splits]
    exact ⟨header.mark true, trivial⟩

theorem takeBlock_chain {mem : ByteStore.Store} {addr needed : Nat} {before after : List Block}
    {block : Block} (chain : Chain mem 0 addr (before ++ ([block] ++ after)))
    (high : ALIGN ≤ addr)
    (fits : blocksEnd addr (before ++ ([block] ++ after)) < Word64.modulus)
    (large : needed ≤ block.size) :
    Chain (takeBlock mem needed (blocksEnd addr before)) 0 addr
      (before ++ (block.taken needed ++ after)) := by
  have here := (chain_split.mp chain).2.1
  have atLeast : addr ≤ blocksEnd addr before := Tiling.base_le_stop addr before
  have atMost : blocksEnd addr before + block.width ≤
      blocksEnd (blocksEnd addr before + block.width) after := Tiling.base_le_stop _ after
  have fitsAfter : blocksEnd (blocksEnd addr before + block.width) after < Word64.modulus := by
    simpa using fits
  have inside : blocksEnd addr before + block.width < Word64.modulus :=
    Nat.lt_of_le_of_lt atMost fitsAfter
  have tailFits : linkTo after (blocksEnd addr before + block.width) 0 < Word64.modulus := by
    cases after with
    | nil => exact Nat.zero_lt_succ _
    | cons _ _ => exact inside
  apply Chain.edit (block.taken needed) chain (by simp) (Block.taken_ne_nil needed block)
    (Block.taken_extent _)
  · intro byte outside
    exact takeBlock_outside here.1 large (Nat.le_trans high atLeast) inside outside
  · intro edited
    exact takeBlock_headers edited large (Nat.le_trans high atLeast) inside tailFits

theorem mark_chain {mem : ByteStore.Store} {addr : Nat} {before after : List Block}
    {block : Block} (chain : Chain mem 0 addr (before ++ ([block] ++ after))) (flag : Bool) :
    Chain
      (writeMagic (writeUsed mem (blocksEnd addr before) (if flag then 1 else 0))
        (blocksEnd addr before) (if flag then MAGIC_USED else MAGIC_FREE))
      0 addr (before ++ ([{ block with used := flag }] ++ after)) := by
  have wide : block.width = HEADER_SIZE + block.size := rfl
  apply Chain.edit [{ block with used := flag }] chain (by simp) (by simp) rfl
  · intro byte outside
    have beside : byte < blocksEnd addr before ∨ blocksEnd addr before + block.width ≤ byte :=
      outside
    have inHeader : byte < blocksEnd addr before ∨
        blocksEnd addr before + HEADER_SIZE ≤ byte := by omega
    rw [writeMagic_outside inHeader, writeUsed_outside inHeader]
  · intro edited
    exact ⟨edited.1.mark flag, trivial⟩

def mergeFree (block : Block) : List Block → List Block
  | [] => [block]
  | next :: rest =>
      if next.used then block :: next :: rest
      else { block with size := block.size + next.width } :: rest

theorem coalesce_chain {mem : ByteStore.Store} {addr : Nat} {before after : List Block}
    {block : Block} (chain : Chain mem 0 addr (before ++ ([block] ++ after)))
    (high : 0 < addr)
    (fits : blocksEnd addr (before ++ ([block] ++ after)) < Word64.modulus) :
    Chain (coalesce mem (blocksEnd addr before)) 0 addr (before ++ mergeFree block after) := by
  have header := (chain_split.mp chain).2.1.1
  have atLeast : addr ≤ blocksEnd addr before := Tiling.base_le_stop addr before
  have wide : block.width = HEADER_SIZE + block.size := rfl
  cases after with
  | nil =>
      have last : readNext mem (blocksEnd addr before) = 0 := header.next
      rw [coalesce, if_pos last]
      exact chain
  | cons next rest =>
      have linked : readNext mem (blocksEnd addr before) = blocksEnd addr before + block.width :=
        header.next
      have follower : HeaderAt mem (blocksEnd addr before + block.width) next
          (linkTo rest (blocksEnd addr before + block.width + next.width) 0) :=
        (chain_split.mp chain).2.2.1
      have notNull : blocksEnd addr before + block.width ≠ 0 := by omega
      have nextWide : next.width = HEADER_SIZE + next.size := rfl
      have atMost : blocksEnd addr before + block.width + next.width ≤
          blocksEnd (blocksEnd addr before + block.width + next.width) rest :=
        Tiling.base_le_stop _ rest
      have fitsRest : blocksEnd (blocksEnd addr before + block.width + next.width) rest <
          Word64.modulus := by
        simpa using fits
      cases usage : next.used with
      | true =>
          have used : readUsed mem (blocksEnd addr before + block.width) ≠ 0 := by
            rw [follower.used, usage]
            decide
          simp only [coalesce, linked, if_neg notNull, if_pos used, mergeFree, usage, if_true]
          exact chain
      | false =>
          have free : ¬ readUsed mem (blocksEnd addr before + block.width) ≠ 0 := by
            rw [follower.used, usage]
            decide
          have inner : Word64.add HEADER_SIZE next.size = next.width := Word64.add_eq (by omega)
          have outer : Word64.add block.size next.width = block.size + next.width :=
            Word64.add_eq (by omega)
          have readBack (size : Nat) :
              readNext (writeSize mem (blocksEnd addr before) size)
                (blocksEnd addr before + block.width) =
              linkTo rest (blocksEnd addr before + block.width + next.width) 0 :=
            (follower.congr (fun byte lower _ => writeSize_outside (by omega))).next
          simp only [coalesce, linked, if_neg notNull, if_neg free, header.size, follower.size,
            inner, outer, readBack, mergeFree, usage, Bool.false_eq_true, if_false]
          have pair : Chain mem 0 addr (before ++ ([block, next] ++ rest)) := chain
          apply Chain.edit [{ block with size := block.size + next.width }] pair (by simp)
            (by simp)
          · simp only [blocksEnd, Tiling.stop_cons, Tiling.stop_nil, Block.width]
            omega
          · intro byte outside
            have beside : byte < blocksEnd addr before ∨
                blocksEnd addr before + block.width + next.width ≤ byte := outside
            have inHeader : byte < blocksEnd addr before ∨
                blocksEnd addr before + HEADER_SIZE ≤ byte := by omega
            rw [writeNext_outside inHeader, writeSize_outside inHeader]
          · intro _
            have tailFits :
                linkTo rest (blocksEnd addr before + block.width + next.width) 0 <
                  Word64.modulus := by
              cases rest with
              | nil => exact Nat.zero_lt_succ _
              | cons _ _ => exact Nat.lt_of_le_of_lt atMost fitsRest
            exact ⟨(header.writeSize (by omega)).writeNext tailFits, trivial⟩

theorem append_chain {mem : ByteStore.Store} {addr size : Nat} {before : List Block}
    {last : Block} (chain : Chain mem 0 addr (before ++ [last]))
    (fits : blocksEnd addr (before ++ [last]) < Word64.modulus)
    (sizeFits : size < Word64.modulus) :
    Chain
      (writeNext
        (writeHeader mem (blocksEnd addr (before ++ [last]))
          { size := size, used := 0, magic := MAGIC_FREE, next := 0 })
        (blocksEnd addr before) (blocksEnd addr (before ++ [last])))
      0 addr (before ++ ([last] ++ [{ size := size, used := false }])) := by
  have place : blocksEnd addr (before ++ [last]) = blocksEnd addr before + last.width := by
    simp only [blocksEnd, Tiling.stop_append, Tiling.stop_cons, Tiling.stop_nil]
  have wide : last.width = HEADER_SIZE + last.size := rfl
  obtain ⟨early, here⟩ := chain_append.mp chain
  rw [place] at fits ⊢
  rw [chain_split]
  refine ⟨?_, ⟨?_, trivial⟩, ?_⟩
  · apply early.outside
    intro byte _ upper
    rw [writeNext_outside (Or.inl upper), writeHeader_outside (by omega)]
  · have kept := here.1.congr (fun byte lower upper =>
      @writeHeader_outside mem (blocksEnd addr before + last.width) byte
        { size := size, used := 0, magic := MAGIC_FREE, next := 0 } (by omega))
    exact kept.writeNext fits
  · refine ⟨?_, trivial⟩
    apply (headerAt_writeHeader mem _ sizeFits (Nat.zero_lt_succ _)).congr
    intro byte lower _
    have beyond : blocksEnd addr before + last.width ≤ byte := lower
    exact writeNext_outside (by omega)

/-! ### The walks over a chain -/

theorem findBlock_step {mem : ByteStore.Store} {addr next : Nat} {block : Block}
    (header : HeaderAt mem addr block next) (high : 0 < addr) (needed steps : Nat) :
    findBlock mem needed (steps + 1) addr =
      if block.used = false ∧ needed ≤ block.size then .ok (some addr)
      else findBlock mem needed steps next := by
  have notNull : addr ≠ 0 := by omega
  have sound : ¬(readMagic mem addr ≠ MAGIC_FREE ∧ readMagic mem addr ≠ MAGIC_USED) := by
    rw [header.magic]
    cases block.used <;> simp
  rw [findBlock, if_neg notNull, if_neg sound, header.used, header.size, header.next]
  cases usage : block.used <;> simp

theorem findBlock_none {mem : ByteStore.Store} {addr needed steps : Nat} {blocks : List Block}
    (chain : Chain mem 0 addr blocks) (high : 0 < addr) (enough : blocks.length < steps)
    (unfit : ∀ block, block ∈ blocks → block.used = true ∨ block.size < needed) :
    findBlock mem needed steps (linkTo blocks addr 0) = .ok none := by
  induction blocks generalizing addr steps with
  | nil =>
      cases steps with
      | zero => simp at enough
      | succ steps => rfl
  | cons block rest ih =>
      cases steps with
      | zero => simp at enough
      | succ steps =>
          have passed : ¬(block.used = false ∧ needed ≤ block.size) := by
            intro fits
            rcases unfit block (List.mem_cons_self ..) with used | small
            · rw [fits.1] at used
              cases used
            · omega
          rw [linkTo, findBlock_step chain.1 high, if_neg passed]
          exact ih chain.2 (by omega) (Nat.lt_of_succ_lt_succ enough)
            (fun other member => unfit other (List.mem_cons_of_mem _ member))

theorem findBlock_found {mem : ByteStore.Store} {addr needed steps : Nat}
    {before after : List Block} {block : Block}
    (chain : Chain mem 0 addr (before ++ ([block] ++ after))) (high : 0 < addr)
    (enough : before.length < steps) (free : block.used = false) (large : needed ≤ block.size)
    (unfit : ∀ earlier, earlier ∈ before → earlier.used = true ∨ earlier.size < needed) :
    findBlock mem needed steps addr = .ok (some (blocksEnd addr before)) := by
  induction before generalizing addr steps with
  | nil =>
      cases steps with
      | zero => simp at enough
      | succ steps =>
          rw [findBlock_step chain.1 high, if_pos ⟨free, large⟩]
          rfl
  | cons first rest ih =>
      cases steps with
      | zero => simp at enough
      | succ steps =>
          have passed : ¬(first.used = false ∧ needed ≤ first.size) := by
            intro fits
            rcases unfit first (List.mem_cons_self ..) with used | small
            · rw [fits.1] at used
              cases used
            · omega
          have link : linkTo (rest ++ ([block] ++ after)) (addr + first.width) 0 =
              addr + first.width := by
            cases rest <;> rfl
          have chained : Chain mem 0 addr (first :: (rest ++ ([block] ++ after))) := chain
          rw [findBlock_step chained.1 high, if_neg passed, link]
          exact ih chained.2 (by omega) (Nat.lt_of_succ_lt_succ enough)
            (fun other member => unfit other (List.mem_cons_of_mem _ member))

theorem first_fit (needed : Nat) (blocks : List Block) :
    (∀ block, block ∈ blocks → block.used = true ∨ block.size < needed) ∨
      ∃ before block after, blocks = before ++ ([block] ++ after) ∧ block.used = false ∧
        needed ≤ block.size ∧
        ∀ earlier, earlier ∈ before → earlier.used = true ∨ earlier.size < needed := by
  induction blocks with
  | nil => exact Or.inl (fun block member => absurd member (List.not_mem_nil))
  | cons block rest ih =>
      by_cases fits : block.used = false ∧ needed ≤ block.size
      · exact Or.inr ⟨[], block, rest, rfl, fits.1, fits.2,
          fun earlier member => absurd member (List.not_mem_nil)⟩
      · have unfit : block.used = true ∨ block.size < needed := by
          cases usage : block.used with
          | true => exact Or.inl rfl
          | false => exact Or.inr (Nat.lt_of_not_le (fun large => fits ⟨usage, large⟩))
        rcases ih with absent | ⟨before, found, after, split, free, large, first⟩
        · left
          intro other member
          rcases List.mem_cons.mp member with same | behind
          · rw [same]
            exact unfit
          · exact absent other behind
        · right
          refine ⟨block :: before, found, after, by rw [split]; rfl, free, large, ?_⟩
          intro other member
          rcases List.mem_cons.mp member with same | behind
          · rw [same]
            exact unfit
          · exact first other behind

theorem findBlock_spec {mem : ByteStore.Store} {addr needed steps : Nat} {blocks : List Block}
    (chain : Chain mem 0 addr blocks) (high : 0 < addr) (enough : blocks.length < steps) :
    (findBlock mem needed steps (linkTo blocks addr 0) = .ok none ∧
        ∀ block, block ∈ blocks → block.used = true ∨ block.size < needed) ∨
      ∃ before block after, blocks = before ++ ([block] ++ after) ∧ block.used = false ∧
        needed ≤ block.size ∧
        (∀ earlier, earlier ∈ before → earlier.used = true ∨ earlier.size < needed) ∧
        findBlock mem needed steps (linkTo blocks addr 0) = .ok (some (blocksEnd addr before)) := by
  rcases first_fit needed blocks with unfit | ⟨before, block, after, split, free, large, first⟩
  · exact Or.inl ⟨findBlock_none chain high enough unfit, unfit⟩
  · subst split
    have link : linkTo (before ++ ([block] ++ after)) addr 0 = addr := by
      cases before <;> rfl
    have inside : before.length < steps := by
      simp only [List.length_append, List.length_cons, List.length_nil] at enough
      omega
    have found := findBlock_found chain high inside free large first
    exact Or.inr ⟨before, block, after, rfl, free, large, first, by rw [link]; exact found⟩

theorem lastBlock_spec {mem : ByteStore.Store} {addr steps : Nat} {before : List Block}
    {last : Block} (chain : Chain mem 0 addr (before ++ [last])) (high : 0 < addr)
    (enough : before.length < steps) :
    lastBlock mem steps addr = .ok (blocksEnd addr before) := by
  induction before generalizing addr steps with
  | nil =>
      cases steps with
      | zero => simp at enough
      | succ steps =>
          have next : readNext mem addr = 0 := chain.1.next
          rw [lastBlock, if_pos next]
          rfl
  | cons block rest ih =>
      cases steps with
      | zero => simp at enough
      | succ steps =>
          obtain ⟨header, later⟩ := chain
          have positive := block.width_pos
          have next : readNext mem addr = addr + block.width := by
            rw [header.next]
            cases rest <;> rfl
          rw [lastBlock, if_neg (by omega), next]
          exact ih later (by omega) (Nat.lt_of_succ_lt_succ enough)

end CustomKernel.Memory
