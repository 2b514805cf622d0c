import TwelveBit.Proofs.Checked.Basic
import TwelveBit.Proofs.MemoryChange
import TwelveBit.Screen
/-!
Checked memory. Bases and sizes are numbers of 32 bits, and every access to the row of words is
checked once more where it is made. With any layout that was accepted, none of this makes a
difference: what is looked up before an access is enough.
-/
namespace TwelveBit.Checked

def layout (ram gram vram rom : Nat) : Except Panic (Except LoadError Layout) := do
  let total ← add size64 (← add size64 (← add size64 ram gram) vram) rom
  return if h : ram + gram + vram + rom ≤ 0x1000000 then .ok ⟨ram, gram, vram, rom, h⟩
    else .error (.layoutTooLarge total)

def base (l : Layout) : Region → Except Panic Nat
  | .ram => return 0
  | .gram => return l.ram
  | .vram => add size32 l.ram l.gram
  | .rom => do add size32 (← add size32 l.ram l.gram) l.vram

def romBase (l : Layout) : Except Panic Nat := base l .rom

def total (l : Layout) : Except Panic Nat := do
  add size32 (← add size32 (← add size32 l.ram l.gram) l.vram) l.rom

def holds (l : Layout) (addr : Nat) (r : Region) : Except Panic Bool := do
  let b ← base l r
  if b ≤ addr then return decide ((← sub addr b) < l.size r) else return false

def region? (l : Layout) (addr : Nat) : List Region → Except Panic (Option Region)
  | [] => return none
  | r :: rs => do if ← holds l addr r then return some r else region? l addr rs

theorem layout_eq {ram gram vram rom : Nat} (h₁ : ram < size32) (h₂ : gram < size32)
    (h₃ : vram < size32) (h₄ : rom < size32) :
    layout ram gram vram rom = .ok (Layout.make ram gram vram rom) := by
  simp only [size32] at h₁ h₂ h₃ h₄
  have fits : ram + gram + vram + rom < size64 := by
    simp only [size64]
    omega
  rw [layout, add_of_lt (by omega), ok_bind, add_of_lt (by omega), ok_bind, add_of_lt fits, ok_bind]
  rfl

variable (l : Layout)

theorem total_lt : l.ram + l.gram + l.vram + l.rom < size32 :=
  Nat.lt_of_le_of_lt l.total_le (by decide)

theorem base_eq (r : Region) : base l r = .ok (l.base r) := by
  have lt := total_lt l
  cases r with
  | ram | gram => rfl
  | vram => exact add_of_lt (by omega)
  | rom =>
    rw [base, add_of_lt (by omega), ok_bind, add_of_lt (by omega)]
    rfl

theorem romBase_eq : romBase l = .ok l.romBase := base_eq l .rom

theorem total_eq : total l = .ok l.total := by
  have lt := total_lt l
  rw [total, add_of_lt (by omega), ok_bind, add_of_lt (by omega), ok_bind, add_of_lt lt]
  rfl

theorem holds_eq (addr : Nat) (r : Region) :
    holds l addr r = .ok (decide (l.base r ≤ addr ∧ addr < l.base r + l.size r)) := by
  rw [holds, base_eq, ok_bind]
  by_cases h : l.base r ≤ addr
  · rw [if_pos h, sub_of_le h, ok_bind]
    have inside : addr - l.base r < l.size r ↔ l.base r ≤ addr ∧ addr < l.base r + l.size r := by
      omega
    simp only [inside]
    rfl
  · rw [if_neg h]
    simp only [h, false_and, decide_false]
    rfl

theorem region?_eq (addr : Nat) : region? l addr Region.all = .ok (l.region? addr) := by
  have go (rs : List Region) : region? l addr rs =
      .ok (rs.find? fun r => l.base r ≤ addr ∧ addr < l.base r + l.size r) := by
    induction rs with
    | nil => rfl
    | cons r rs ih =>
      rw [region?, holds_eq, ok_bind, List.find?_cons, ih]
      cases decide (l.base r ≤ addr ∧ addr < l.base r + l.size r) <;> rfl
  exact go Region.all

def zero (l : Layout) : Except Panic Memory := do
  let _ ← total l
  return Memory.zero l

def getWord (m : Memory) (a : Nat) : Except Panic Nat := index m.words a

def setWord (m : Memory) (a v : Nat) : Except Panic Memory := do
  bound m.words.size a
  return m.set a v

theorem zero_eq : zero l = .ok (Memory.zero l) := by
  rw [zero, total_eq]
  rfl

variable {m : Memory} {a : Nat}

theorem getWord_of_lt (h : a < m.layout.total) : getWord m a = .ok (m.word a) :=
  index_of_lt (m.size_words ▸ h) 0

theorem setWord_of_lt (v : Nat) (h : a < m.layout.total) : setWord m a v = .ok (m.set a v) := by
  rw [setWord, m.size_words, bound_of_lt h]
  rfl

open Guarded

abbrev Action := Guarded Fault Memory

def look (a : Nat) : Action Unit := fun m =>
  match m.read a with
  | .ok _ => .ok (.ok () m)
  | .error f => .ok (.error f m)

def checkWritable (a : Nat) : Action Unit := fun m => do
  if (← total m.layout) ≤ a then return .error (.outOfRange a) m
  else if (← romBase m.layout) ≤ a then return .error (.romWrite a) m
  else return .ok () m

def store (a v : Nat) : Action Unit := fun m => do return .ok () (← setWord m a v)

def write (a v : Nat) : Action Unit := do
  checkWritable a
  store a (toWord v)

def verdict (m : Memory) : Option Fault → EStateM.Result Fault Memory Unit
  | some f => .error f m
  | none => .ok () m

theorem run_checkWritable (m : Memory) (a : Nat) :
    (checkWritable a).run m = .ok (verdict m (m.refusal? a)) := by
  rw [run, checkWritable, total_eq, ok_bind, romBase_eq, ok_bind, Memory.refusal?]
  split
  · rfl
  · split <;> rfl

theorem run_store_of_lt (v : Nat) (h : a < m.layout.total) :
    (store a v).run m = .ok (.ok () (m.set a v)) := by
  rw [run, store, setWord_of_lt v h]
  rfl

theorem run_store_word {v : Nat} (hv : v < 0x1000) (h : a < m.layout.total) :
    (store a v).run m = .ok (.ok () (m.put a v)) := by
  rw [run_store_of_lt v h, Memory.put, toWord_of_lt hv]

theorem write_eq (a v : Nat) : write a v = free (Memory.write a v) := by
  apply ext_run
  intro m
  rw [write, run_bind, run_checkWritable, run_free, Memory.run_write]
  cases h : m.refusal? a with
  | some f => rfl
  | none =>
    have writable := (m.refusal?_eq_none_iff a).1 h
    have le := m.layout.romBase_le_total
    exact run_store_of_lt (toWord v) (by omega)

/-- A store on its own leaves the row; it is what is looked up before it that keeps it inside. -/
example : (store 4 0).run (Memory.zero ⟨1, 1, 1, 1, by decide⟩) = .error .outOfBounds := rfl

def split (v : Nat) : Except Panic (Nat × Nat) := do
  return (toWord (← shr 32 v 12), toWord v)

theorem split_eq (v : Nat) : split v = .ok (high v, low v) := rfl

def writeLong (a v : Nat) : Action Unit := do
  checkWritable a
  checkWritable (Memory.next a)
  let (high, low) ← split v
  store a high
  store (Memory.next a) low

theorem writeLong_eq (a v : Nat) : writeLong a v = free (Memory.writeLong a v) := by
  apply ext_run
  intro m
  rw [writeLong, run_bind, run_checkWritable, run_free, Memory.run_writeLong]
  cases h : m.refusal? a with
  | some f => rfl
  | none =>
    rw [verdict, resume_ok, run_bind, run_checkWritable, Option.none_or]
    cases h' : m.refusal? (Memory.next a) with
    | some f => rfl
    | none =>
      have writable := (m.refusal?_eq_none_iff _).1 h
      have writable' := (m.refusal?_eq_none_iff _).1 h'
      have le := m.layout.romBase_le_total
      have first : (store a (high v)).run m = .ok (.ok () (m.put a (high v))) :=
        run_store_word (toWord_lt _) (by omega)
      have second := run_store_word (m := m.put a (high v)) (a := Memory.next a) (toWord_lt v)
        (by rw [Memory.layout_put]; omega)
      rw [verdict, resume_ok, split_eq, lift_ok, free_pure_bind, run_bind, first, resume_ok]
      exact second

def last (a len : Nat) : Action Nat := fun m => do
  let k ← sub len 1
  return if a + k < size32 then .ok (a + k) m else .error (.outOfRange a) m

def copyOn (src dst : Nat) : Nat → Nat → Memory → Except Panic Memory
  | _, 0, m => return m
  | i, n + 1, m => do
    let v ← getWord m (← add size32 src i)
    copyOn src dst (i + 1) n (← setWord m (← add size32 dst i) v)

def copyAll (src dst len : Nat) : Action Unit := fun m => do
  return .ok () (← copyOn src dst 0 len m)

def copy (src dst len : Nat) : Action Unit :=
  if len = 0 then return () else do
    look (← last src len)
    checkWritable dst
    checkWritable (← last dst len)
    copyAll src dst len

theorem run_look (m : Memory) (a : Nat) :
    (look a).run m =
      .ok (verdict m (if m.layout.total ≤ a then some (.outOfRange a) else none)) := by
  rw [run, look, Memory.read]
  by_cases h : m.layout.total ≤ a
  · rw [if_pos h, if_neg (Nat.not_lt.2 h)]
    rfl
  · rw [if_neg h, if_pos (Nat.not_le.1 h)]
    rfl

theorem run_last {len : Nat} (h : len ≠ 0) (m : Memory) (a : Nat) :
    (last a len).run m = .ok (if a + (len - 1) < size32 then .ok (a + (len - 1)) m
      else .error (.outOfRange a) m) := by
  rw [run, last, sub_of_le (Nat.one_le_iff_ne_zero.2 h)]
  rfl

/-- No word on the way lies outside memory, and no address on the way is too large. -/
theorem copyOn_of_le {src dst i n : Nat} {m : Memory} (hs : src + i + n ≤ m.layout.total)
    (hd : dst + i + n ≤ m.layout.total) :
    copyOn src dst i n m = .ok (Memory.copyUp n (src + i) (dst + i) m) := by
  induction n generalizing i m with
  | zero => rfl
  | succ n ih =>
    have space := m.layout.total_le_space
    have small : m.layout.total < size32 := Nat.lt_of_le_of_lt space (by decide)
    have others := ih (i := i + 1) (m := m.set (dst + i) (m.word (src + i)))
      (by rw [Memory.layout_set]; omega) (by rw [Memory.layout_set]; omega)
    rw [copyOn, add_of_lt (by omega), ok_bind, getWord_of_lt (by omega), ok_bind,
      add_of_lt (by omega), ok_bind, setWord_of_lt _ (by omega), ok_bind, others]
    rfl

/-- The ends are enough: the last address of the destination cannot be too large where that of the
source is not and the first one is writable. -/
theorem copy_eq (src dst len : Nat) : copy src dst len = free (Memory.copy src dst len) := by
  apply ext_run
  intro m
  rw [run_free, Memory.run_copy, Memory.copyRefusal?, copy]
  by_cases h0 : len = 0
  · subst h0
    rfl
  rw [if_neg h0, if_neg h0, run_bind, run_last h0]
  by_cases hs : src + (len - 1) < size32
  · have named : ¬ 0x100000000 ≤ src + (len - 1) := Nat.not_le.2 hs
    rw [if_pos hs, if_neg named, resume_ok, run_bind, run_look]
    by_cases hm : m.layout.total ≤ src + (len - 1)
    · rw [if_pos hm, if_pos hm]
      rfl
    · rw [if_neg hm, if_neg hm, verdict, resume_ok, run_bind, run_checkWritable]
      cases h : m.refusal? dst with
      | some f => rfl
      | none =>
        have writable := (m.refusal?_eq_none_iff _).1 h
        have le := m.layout.romBase_le_total
        have space := m.layout.total_le_space
        -- a destination in writable memory is small, so this sum cannot overflow
        have near : dst + (len - 1) < size32 := by
          simp only [size32]
          omega
        rw [verdict, resume_ok, run_bind, run_last h0, if_pos near, resume_ok, run_bind,
          run_checkWritable, Option.none_or]
        cases h' : m.refusal? (dst + (len - 1)) with
        | some f => rfl
        | none =>
          have writable' := (m.refusal?_eq_none_iff _).1 h'
          have copied : copyOn src dst 0 len m = .ok (Memory.copyUp len src dst m) :=
            copyOn_of_le (by omega) (by omega)
          rw [verdict, resume_ok, run, copyAll, copied]
          rfl
  · have unnamed : 0x100000000 ≤ src + (len - 1) := Nat.not_lt.1 hs
    rw [if_neg hs, if_pos unnamed]
    rfl

def loadRom (offset : Int) (vs : List Nat) : Guarded LoadError Memory Unit := fun m => do
  let refused := .error (.outsideRom offset vs.length m.layout.rom) m
  if offset < 0 ∨ size32 ≤ offset then return refused
  else if m.layout.rom < (← add size64 offset.toNat vs.length) then return refused
  else
    let start ← add size32 (← romBase m.layout) offset.toNat
    span m.words.size start vs.length
    return .ok () (Memory.putAll vs start m)

def clearWritable (m : Memory) : Except Panic Memory := do
  span m.words.size 0 (← romBase m.layout)
  return m.clearWritable

def regionWords (m : Memory) (r : Region) : Except Panic (Array Nat) := do
  let b ← base m.layout r
  span m.words.size b (m.layout.size r)
  return m.slice b (m.layout.size r)

/-- No row is as long as 64 bits can count, so the end of the words does not run over. -/
theorem loadRom_eq (offset : Int) {vs : List Nat} (h : vs.length < 0x8000000000000000) :
    loadRom offset vs = free (Memory.loadRom offset vs) := by
  apply ext_run
  intro m
  have space := m.layout.total_le_space
  have inner := m.layout.romBase_add_rom
  rw [run_free, Memory.run_loadRom, run, loadRom]
  by_cases named : offset < 0 ∨ size32 ≤ offset
  · have outside : ¬ (0 ≤ offset ∧ offset + vs.length ≤ m.layout.rom) := by
      simp only [size32] at named
      omega
    rw [if_pos named, if_neg outside]
    rfl
  · have small : offset.toNat < size32 := by omega
    have fits : offset.toNat + vs.length < size64 := by
      simp only [size32, size64] at small ⊢
      omega
    rw [if_neg named, add_of_lt fits, ok_bind]
    by_cases beyond : m.layout.rom < offset.toNat + vs.length
    · have outside : ¬ (0 ≤ offset ∧ offset + vs.length ≤ m.layout.rom) := by omega
      rw [if_pos beyond, if_neg outside]
      rfl
    · have inside : 0 ≤ offset ∧ offset + vs.length ≤ m.layout.rom := by omega
      have start : m.layout.romBase + offset.toNat < size32 := by
        simp only [size32]
        omega
      rw [if_neg beyond, if_pos inside, romBase_eq, ok_bind, add_of_lt start, ok_bind,
        m.size_words, span_of_le (by omega)]
      rfl

theorem clearWritable_eq (m : Memory) : clearWritable m = .ok m.clearWritable := by
  have le := m.layout.romBase_le_total
  rw [clearWritable, romBase_eq, ok_bind, m.size_words, span_of_le (by omega)]
  rfl

theorem base_add_size (r : Region) : l.base r + l.size r ≤ l.total := by
  cases r <;> simp only [Layout.base, Layout.size, Layout.total] <;> omega

theorem regionWords_eq (m : Memory) (r : Region) : regionWords m r = .ok (m.regionWords r) := by
  rw [regionWords, base_eq, ok_bind, m.size_words, span_of_le (base_add_size m.layout r)]
  rfl

end TwelveBit.Checked
