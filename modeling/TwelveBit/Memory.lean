import TwelveBit.Layout
/-!
Memory: one word for each address of the layout. A change that can fail runs in a state monad
that keeps the memory when it fails, and checks every address before it touches a word.
-/
namespace TwelveBit

structure Memory where
  layout : Layout
  words : Array Nat
  size_words : words.size = layout.total

namespace Memory

def zero (l : Layout) : Memory := ⟨l, Array.replicate l.total 0, Array.size_replicate⟩

def word (m : Memory) (a : Nat) : Nat := m.words.getD a 0

def set (m : Memory) (a v : Nat) : Memory :=
  { m with
    words := m.words.setIfInBounds a v
    size_words := by rw [Array.size_setIfInBounds]; exact m.size_words }

def put (m : Memory) (a v : Nat) : Memory := m.set a (toWord v)

def read (m : Memory) (a : Nat) : Except Fault Nat :=
  if a < m.layout.total then .ok (m.word a) else .error (.outOfRange a)

def refusal? (m : Memory) (a : Nat) : Option Fault :=
  if m.layout.total ≤ a then some (.outOfRange a)
  else if m.layout.romBase ≤ a then some (.romWrite a)
  else none

abbrev Action := EStateM Fault Memory

def write (a v : Nat) : Action Unit := fun m =>
  match m.refusal? a with
  | some f => .error f m
  | none => .ok () (m.put a v)

def next (a : Nat) : Nat := toLong (a + 1)

def writeLong (a v : Nat) : Action Unit := fun m =>
  match (m.refusal? a).or (m.refusal? (next a)) with
  | some f => .error f m
  | none => .ok () ((m.put a (high v)).put (next a) (low v))

/-- Why `len` words must not be copied, if so. The source has to end inside memory and the
destination inside its writable part. A source whose end no 32-bit address can name is reported
by its start. -/
def copyRefusal? (m : Memory) (src dst len : Nat) : Option Fault :=
  if len = 0 then none
  else if 0x100000000 ≤ src + (len - 1) then some (.outOfRange src)
  else if m.layout.total ≤ src + (len - 1) then some (.outOfRange (src + (len - 1)))
  else (m.refusal? dst).or (m.refusal? (dst + (len - 1)))

def copyUp : Nat → Nat → Nat → Memory → Memory
  | 0, _, _, m => m
  | len + 1, src, dst, m => copyUp len (src + 1) (dst + 1) (m.set dst (m.word src))

/-- Copies words upwards. Onto a higher destination that overlaps the source, the words in
front of it are repeated. -/
def copy (src dst len : Nat) : Action Unit := fun m =>
  match m.copyRefusal? src dst len with
  | some f => .error f m
  | none => .ok () (copyUp len src dst m)

def putAll : List Nat → Nat → Memory → Memory
  | [], _, m => m
  | v :: vs, a, m => putAll vs (a + 1) (m.put a v)

def loadRom (offset : Int) (vs : List Nat) : EStateM LoadError Memory Unit := fun m =>
  if 0 ≤ offset ∧ offset + vs.length ≤ m.layout.rom then
    .ok () (putAll vs (m.layout.romBase + offset.toNat) m)
  else .error (.outsideRom offset vs.length m.layout.rom) m

def zeroBelow : Nat → Memory → Memory
  | 0, m => m
  | a + 1, m => zeroBelow a (m.set a 0)

def clearWritable (m : Memory) : Memory := zeroBelow m.layout.romBase m

def slice (m : Memory) (a len : Nat) : Array Nat := m.words.extract a (a + len)

def regionWords (m : Memory) (r : Region) : Array Nat :=
  m.slice (m.layout.base r) (m.layout.size r)

theorem run_write (a v : Nat) (m : Memory) :
    (write a v).run m =
      match m.refusal? a with
      | some f => .error f m
      | none => .ok () (m.put a v) := rfl

theorem run_writeLong (a v : Nat) (m : Memory) :
    (writeLong a v).run m =
      match (m.refusal? a).or (m.refusal? (next a)) with
      | some f => .error f m
      | none => .ok () ((m.put a (high v)).put (next a) (low v)) := rfl

theorem run_copy (src dst len : Nat) (m : Memory) :
    (copy src dst len).run m =
      match m.copyRefusal? src dst len with
      | some f => .error f m
      | none => .ok () (copyUp len src dst m) := rfl

theorem run_loadRom (offset : Int) (vs : List Nat) (m : Memory) :
    (loadRom offset vs).run m =
      if 0 ≤ offset ∧ offset + vs.length ≤ m.layout.rom then
        .ok () (putAll vs (m.layout.romBase + offset.toNat) m)
      else .error (.outsideRom offset vs.length m.layout.rom) m := rfl

theorem word_zero (l : Layout) (a : Nat) : (zero l).word a = 0 := by
  simp only [word, zero, Array.getD_eq_getD_getElem?, Array.getElem?_replicate]
  split <;> rfl

theorem layout_set (m : Memory) (a v : Nat) : (m.set a v).layout = m.layout := rfl

theorem layout_put (m : Memory) (a v : Nat) : (m.put a v).layout = m.layout := rfl

/-- Writing past the end changes nothing; anywhere else it changes one word. -/
theorem word_set (m : Memory) (a v b : Nat) :
    (m.set a v).word b = if b = a ∧ a < m.layout.total then v else m.word b := by
  have hs := m.size_words
  simp only [word, set, Array.getD_eq_getD_getElem?, Array.getElem?_setIfInBounds]
  by_cases hab : a = b
  · subst hab
    by_cases ha : a < m.layout.total
    · simp [ha, hs]
    · simp [ha, hs]
  · simp [hab, Ne.symm hab]

theorem word_put (m : Memory) (a v b : Nat) :
    (m.put a v).word b = if b = a ∧ a < m.layout.total then toWord v else m.word b :=
  word_set m a (toWord v) b

/-- Two memories of one layout with the same words are the same. -/
theorem ext_word {m n : Memory} (hl : m.layout = n.layout)
    (hw : ∀ a, a < m.layout.total → m.word a = n.word a) : m = n := by
  obtain ⟨l, ws, hs⟩ := m
  obtain ⟨l', ws', hs'⟩ := n
  cases hl
  have : ws = ws' := by
    apply Array.ext (hs.trans hs'.symm)
    intro i h h'
    have := hw i (hs ▸ h)
    simpa [word, Array.getD_eq_getD_getElem?, h, h'] using this
  cases this
  rfl

theorem refusal?_eq_none_iff (m : Memory) (a : Nat) :
    m.refusal? a = none ↔ a < m.layout.romBase := by
  have := m.layout.romBase_le_total
  simp only [refusal?]
  split
  · simp only [reduceCtorEq, false_iff]
    omega
  · split
    · simp only [reduceCtorEq, false_iff]
      omega
    · simp only [true_iff]
      omega

end Memory
end TwelveBit
