import TwelveBit.Proofs.Checked.Memory
import TwelveBit.Proofs.ImageFormat
import TwelveBit.Machine
/-!
Checked loading. The place in an image is found from what is left of it, which is never more than
the whole, and no image has as many words as 64 bits can count. Resetting a machine and setting one
up come to what they come to without the checks.
-/
namespace TwelveBit.Checked
open Guarded

def blocksFrom (size : Nat) (bytes : List UInt8) :
    Except Panic (Except LoadError (List Block)) :=
  match bytes with
  | [] => return .ok []
  | a :: b :: c :: d :: e :: f :: g :: h :: tail => do
    let position ← sub size (tail.length + 8)
    let count := Image.intOfBytes [e, f, g, h]
    if count < 0 then return .error (.negativeCount position count)
    else
      match taken : Image.takeWords? count.toNat tail with
      | none => return .error (.truncated (← sub size tail.length))
      | some (ws, rest) =>
        have : rest.length < tail.length + 8 := by
          have := Image.length_of_takeWords? taken
          omega
        return (← blocksFrom size rest).map (⟨Image.intOfBytes [a, b, c, d], ws⟩ :: ·)
  | bytes => return .error (.truncated (← sub size bytes.length))
termination_by bytes.length

theorem sub_end {size position left : Nat} (h : position + left = size) :
    sub size left = .ok position := by
  rw [sub_of_le (by omega)]
  exact congrArg Except.ok (by omega)

/-- Reading of a header, where `position` bytes come before it. -/
theorem blocksFrom_header {size position : Nat} (a b c d e f g h : UInt8) {tail : List UInt8}
    (whole : position + (tail.length + 8) = size) :
    let count := Image.intOfBytes [e, f, g, h]
    blocksFrom size (a :: b :: c :: d :: e :: f :: g :: h :: tail) =
      if count < 0 then .ok (.error (.negativeCount position count))
      else
        match Image.takeWords? count.toNat tail with
        | none => .ok (.error (.truncated (position + 8)))
        | some (ws, rest) => do
          return (← blocksFrom size rest).map (⟨Image.intOfBytes [a, b, c, d], ws⟩ :: ·) := by
  intro count
  have behind : position + 8 + tail.length = size := by omega
  rw [blocksFrom, sub_end whole, ok_bind]
  dsimp only
  split
  · rfl
  · split
    · next taken =>
      rw [sub_end behind]
      simp only [count, taken]
      rfl
    · next taken => simp only [count, taken]

/-- What has been read and what is left are the whole. -/
theorem blocksFrom_eq {size position : Nat} {bytes : List UInt8}
    (whole : position + bytes.length = size) :
    blocksFrom size bytes = .ok (Image.blocksFrom position bytes) := by
  fun_induction Image.blocksFrom position bytes with
  | case1 position =>
    rw [blocksFrom]
    rfl
  | case2 position a b c d e f g h tail count negative =>
    rw [blocksFrom_header a b c d e f g h whole, if_pos negative]
  | case3 position a b c d e f g h tail count counted taken =>
    rw [blocksFrom_header a b c d e f g h whole, if_neg counted, taken]
  | case4 position a b c d e f g h tail count counted ws rest taken _ =>
    rename_i ih
    have read := Image.length_of_takeWords? taken
    simp only [List.length_cons] at whole
    rw [blocksFrom_header a b c d e f g h whole, if_neg counted, taken]
    dsimp only
    rw [ih (by omega)]
    rfl
  | case5 position bytes =>
    rw [blocksFrom, sub_end whole]
    · rfl
    all_goals assumption

def onMachine {ε α : Type} (x : Guarded ε Memory α) (m : Machine) :
    Except Panic (Except ε α × Machine) := do
  match ← x.run m.memory with
  | .ok a memory => return (.ok a, { m with memory := memory })
  | .error e memory => return (.error e, { m with memory := memory })

theorem onMachine_free {ε α : Type} (x : EStateM ε Memory α) (m : Machine) :
    onMachine (free x) m = .ok (m.onMemory x) := by
  rw [onMachine, run_free, ok_bind, Machine.onMemory_eq]
  cases x.run m.memory <;> rfl

def loadBlocks (m : Machine) (total : Nat) :
    List Block → Except Panic (Except LoadError Nat × Machine)
  | [] => return (.ok total, m)
  | b :: bs => do
    match ← onMachine (loadRom b.offset b.words) m with
    | (.ok (), m) => loadBlocks m (← add size64 total b.words.length) bs
    | (.error e, m) => return (.error e, m)

def load (bytes : List UInt8) (m : Machine) : Except Panic (Except LoadError Nat × Machine) := do
  match ← blocksFrom bytes.length bytes with
  | .ok blocks => loadBlocks m 0 blocks
  | .error e => return (.error e, m)

theorem length_le_blockBytes (b : Block) : b.words.length ≤ (Image.blockBytes b).length := by
  have words (vs : List Nat) : vs.length ≤ (vs.flatMap (Image.bytesOfNat 2)).length := by
    induction vs with
    | nil => exact Nat.le_refl 0
    | cons v vs ih =>
      have two : (Image.bytesOfNat 2 v).length = 2 := rfl
      rw [List.flatMap_cons, List.length_append, two, List.length_cons]
      omega
  have := words b.words
  rw [Image.blockBytes, List.length_append]
  omega

/-- There are fewer words in an image than bytes. -/
theorem loadBlocks_eq {bs : List Block} {total : Nat} (m : Machine)
    (h : total + (Image.toBytes bs).length < 0x8000000000000000) :
    loadBlocks m total bs = .ok ((m.loadBlocks bs).1.map (total + ·), (m.loadBlocks bs).2) := by
  induction bs generalizing total m with
  | nil => rfl
  | cons b bs ih =>
    have few := length_le_blockBytes b
    rw [Image.toBytes, List.flatMap_cons, List.length_append, ← Image.toBytes] at h
    have sum : total + b.words.length < size64 := by
      simp only [size64]
      omega
    rw [loadBlocks, loadRom_eq b.offset (by omega), onMachine_free, ok_bind, Machine.loadBlocks,
      Machine.loadBlock]
    rcases m.onMemory (Memory.loadRom b.offset b.words) with ⟨r, k⟩
    cases r with
    | error e => rfl
    | ok u =>
      dsimp only
      rw [add_of_lt sum, ok_bind, ih k (by omega)]
      cases (k.loadBlocks bs).1 with
      | error e => rfl
      | ok n => simp only [Except.map, Nat.add_assoc]

theorem load_eq {bytes : List UInt8} (h : bytes.length < 0x8000000000000000) (m : Machine) :
    load bytes m = .ok (m.load bytes) := by
  rw [load, blocksFrom_eq (Nat.zero_add _), ok_bind, Machine.load, Image.parse]
  cases hr : Image.blocksFrom 0 bytes with
  | error e => rfl
  | ok blocks =>
    have written := (Image.bytes_of_blocksFrom hr).2
    dsimp only
    rw [loadBlocks_eq m (by rw [written]; omega)]
    cases m.loadBlocks blocks with
    | mk r k => cases r <;> simp only [Except.map, Nat.zero_add]

def defaultEntry (m : Machine) : Except Panic Nat := do
  add size32 (← romBase m.memory.layout) Machine.entryOffset

def reset (entry : Nat) (m : Machine) : Except Panic Machine := do
  let memory ← clearWritable m.memory
  let sp ← sub Frame.headerSize 1
  return { m.reset entry with memory := memory, sp := sp }

def new (l : Layout) : Except Panic Machine := do
  let memory ← zero l
  let m : Machine :=
    { memory := memory, sp := 0, fp := 0, carry := false, highWater := 0
      pc := 0, halted := false, line := {}, instructions := 0, interrupts := 0 }
  reset (← defaultEntry m) m

theorem defaultEntry_eq (m : Machine) : defaultEntry m = .ok m.defaultEntry := by
  have le := m.memory.layout.romBase_le_total
  have space := m.memory.layout.total_le_space
  rw [defaultEntry, romBase_eq, ok_bind,
    add_of_lt (by simp only [size32, Machine.entryOffset]; omega)]
  rfl

theorem reset_eq (entry : Nat) (m : Machine) : reset entry m = .ok (m.reset entry) := by
  rw [reset, clearWritable_eq, ok_bind, sub_of_le (by decide)]
  rfl

theorem new_eq (l : Layout) : new l = .ok (Machine.new l) := by
  rw [new, zero_eq, ok_bind]
  dsimp only
  rw [defaultEntry_eq, ok_bind, reset_eq]
  rfl

end TwelveBit.Checked
