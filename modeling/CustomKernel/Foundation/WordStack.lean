/-
64-bit words in byte memory, and the stack that grows down over them.

A frame is a list of words one behind another.  Writing the words of a frame in order
makes it, pushing a word extends a frame downward, and a frame depends only on the
bytes it covers.
-/

import CustomKernel.Foundation.ByteStore

set_option autoImplicit false

namespace WordStack

open ByteStore

abbrev Word := BitVec 64

def load (store : Store) (address : Nat) : Word := BitVec.ofNat 64 (readLE store address 8)

def save (store : Store) (address : Nat) (word : Word) : Store :=
  writeLE store address 8 word.toNat

def Frame (store : Store) : Nat → List Word → Prop
  | _, [] => True
  | address, word :: rest => load store address = word ∧ Frame store (address + 8) rest

theorem load_save (store : Store) (address : Nat) (word : Word) :
    load (save store address word) address = word := by
  have fits : word.toNat < 256 ^ 8 := word.isLt
  rw [load, save, readLE_writeLE_same store fits, BitVec.ofNat_toNat, BitVec.setWidth_eq]

theorem save_outside (store : Store) {address byte : Nat} (word : Word)
    (outside : byte < address ∨ address + 8 ≤ byte) : save store address word byte = store byte :=
  writeLE_outside store outside

theorem load_congr {left right : Store} {address : Nat}
    (same : ∀ byte, address ≤ byte → byte < address + 8 → left byte = right byte) :
    load left address = load right address := by
  rw [load, load, readLE_congr same]

theorem load_save_apart (store : Store) {address other : Nat} (word : Word)
    (apart : other + 8 ≤ address ∨ address + 8 ≤ other) :
    load (save store address word) other = load store other := by
  apply load_congr
  intro byte lower upper
  exact save_outside store word (by omega)

theorem Frame.congr {left right : Store} {words : List Word} {address : Nat}
    (frame : Frame left address words)
    (same : ∀ byte, address ≤ byte → byte < address + 8 * words.length →
      right byte = left byte) : Frame right address words := by
  induction words generalizing address with
  | nil => trivial
  | cons word rest ih =>
      have length : (word :: rest).length = rest.length + 1 := rfl
      constructor
      · rw [← frame.1]
        exact load_congr (fun byte lower upper => same byte lower (by omega))
      · exact ih frame.2 (fun byte lower upper => same byte (by omega) (by omega))

theorem Frame.save {store : Store} {words : List Word} {address place : Nat} (word : Word)
    (frame : Frame store address words)
    (apart : place + 8 ≤ address ∨ address + 8 * words.length ≤ place) :
    Frame (save store place word) address words :=
  frame.congr (fun _ _ _ => save_outside store word (by omega))

theorem Frame.push {store : Store} {words : List Word} {address : Nat} (word : Word)
    (frame : Frame store (address + 8) words) :
    Frame (WordStack.save store address word) address (word :: words) :=
  ⟨load_save store address word, frame.save word (Or.inl (Nat.le_refl _))⟩

/-! ### Writing a frame upward -/

def saveAll (store : Store) : Nat → List Word → Store
  | _, [] => store
  | address, word :: rest => saveAll (save store address word) (address + 8) rest

theorem saveAll_outside (store : Store) {address byte : Nat} {words : List Word}
    (outside : byte < address ∨ address + 8 * words.length ≤ byte) :
    saveAll store address words byte = store byte := by
  induction words generalizing store address with
  | nil => rfl
  | cons word rest ih =>
      have length : (word :: rest).length = rest.length + 1 := rfl
      rw [saveAll, ih _ (by omega), save_outside _ _ (by omega)]

theorem frame_saveAll (store : Store) (address : Nat) (words : List Word) :
    Frame (saveAll store address words) address words := by
  induction words generalizing store address with
  | nil => trivial
  | cons word rest ih =>
      constructor
      · have kept : load (saveAll (save store address word) (address + 8) rest) address =
            load (save store address word) address :=
          load_congr (fun byte lower upper => saveAll_outside _ (by omega))
        exact kept.trans (load_save store address word)
      · exact ih _ _

/-! ### Stacks -/

/-- The words lie on the stack, the first one on top; addresses wrap. -/
def Stacked (store : Store) : Word → List Word → Prop
  | _, [] => True
  | top, word :: rest => load store top.toNat = word ∧ Stacked store (top + 8) rest

/-- The words on the stack, as many as asked for. -/
def loads (store : Store) : Word → Nat → List Word
  | _, 0 => []
  | top, count + 1 => load store top.toNat :: loads store (top + 8) count

theorem stacked_iff {store : Store} {words : List Word} {top : Word} :
    Stacked store top words ↔ loads store top words.length = words := by
  induction words generalizing top with
  | nil => simp [Stacked, loads]
  | cons word rest ih => simp [Stacked, loads, ih]

def pushAll (store : Store) : Word → List Word → Store × Word
  | rsp, [] => (store, rsp)
  | rsp, word :: rest => pushAll (save store (rsp - 8).toNat word) (rsp - 8) rest

theorem pushAll_outside {store : Store} {words : List Word} {rsp : Word} {byte : Nat}
    (fits : 8 * words.length ≤ rsp.toNat)
    (outside : byte < rsp.toNat - 8 * words.length ∨ rsp.toNat ≤ byte) :
    (pushAll store rsp words).1 byte = store byte := by
  induction words generalizing store rsp with
  | nil => rfl
  | cons word rest ih =>
      have length : (word :: rest).length = rest.length + 1 := rfl
      have next : (rsp - 8).toNat = rsp.toNat - 8 := by bv_omega
      rw [pushAll, ih (by omega) (by omega), save_outside _ _ (by omega)]

theorem Stacked.save {store : Store} {words : List Word} {top place : Word} (word : Word)
    (stacked : Stacked store top words) (below : 8 ≤ (top - place).toNat)
    (fits : (top - place).toNat + 8 * words.length ≤ 2 ^ 64) :
    Stacked (save store place.toNat word) top words := by
  induction words generalizing top with
  | nil => trivial
  | cons first rest ih =>
      have length : (first :: rest).length = rest.length + 1 := rfl
      constructor
      · have apart : top.toNat + 8 ≤ place.toNat ∨ place.toNat + 8 ≤ top.toNat := by bv_omega
        rw [← stacked.1]
        exact load_save_apart store word apart
      · cases rest with
        | nil => trivial
        | cons second rest =>
            have next : (second :: rest).length = rest.length + 1 := rfl
            have above : (top + 8 - place).toNat = (top - place).toNat + 8 := by bv_omega
            exact ih stacked.2 (by omega) (by omega)

theorem Stacked.push {store : Store} {words : List Word} {rsp : Word} (word : Word)
    (stacked : Stacked store rsp words) (fits : 8 * (words.length + 1) ≤ 2 ^ 64) :
    Stacked (WordStack.save store (rsp - 8).toNat word) (rsp - 8) (word :: words) := by
  have distance : (rsp - (rsp - 8)).toNat = 8 := by bv_omega
  have back : rsp - 8 + 8 = rsp := BitVec.sub_add_cancel ..
  constructor
  · exact load_save ..
  · rw [back]
    exact stacked.save word (by omega) (by omega)

theorem stacked_pushAll {store : Store} {words : List Word} {rsp : Word} (pushed : List Word)
    (stacked : Stacked store rsp words) (fits : 8 * (pushed.length + words.length) ≤ 2 ^ 64) :
    (pushAll store rsp pushed).2 = rsp - BitVec.ofNat 64 (8 * pushed.length) ∧
      Stacked (pushAll store rsp pushed).1 (pushAll store rsp pushed).2
        (pushed.reverse ++ words) := by
  induction pushed generalizing store words rsp with
  | nil => exact ⟨(BitVec.sub_zero _).symm, stacked⟩
  | cons word rest ih =>
      have length : (word :: rest).length = rest.length + 1 := rfl
      have longer : (word :: words).length = words.length + 1 := rfl
      rcases ih (stacked.push word (by omega)) (by omega) with ⟨rspEq, all⟩
      constructor
      · rw [pushAll, rspEq, length]
        bv_omega
      · rw [pushAll, List.reverse_cons, List.append_assoc]
        exact all

end WordStack
