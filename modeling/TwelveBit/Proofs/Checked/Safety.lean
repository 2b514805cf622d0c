import TwelveBit.Proofs.Checked.Loading
import TwelveBit.Proofs.Checked.Screen
import TwelveBit.Proofs.Checked.Stepping
import TwelveBit.Proofs.Operation
import TwelveBit.Profile
/-!
Safety. With all the checks on, nothing that can be asked of a machine or done to it breaks off:
each operation comes to what it comes to without the checks. What goes wrong shows in the answer,
as a fault, a trap or the reason for refusing an image, and in no other way.
-/
namespace TwelveBit

inductive Answer where
  | done
  | loaded (r : Except LoadError Nat)
  | filled (r : Except LoadError Unit)
  | stored (r : Except Fault Unit)
  | replied (r : Option Bool)
  | stepped (r : Option Stop)
  deriving Repr

namespace Operation

def answer : Operation → Machine → Answer
  | load bytes, m => .loaded (m.load bytes).1
  | loadRom offset words, m => .filled (m.onMemory (Memory.loadRom offset words)).1
  | reset _, _ => .done
  | write a v, m => .stored (m.onMemory (Memory.write a v)).1
  | writeLong a v, m => .stored (m.onMemory (Memory.writeLong a v)).1
  | copy src dst len, m => .stored (m.onMemory (Memory.copy src dst len)).1
  | clearWritable, _ => .done
  | act a, m => .replied (m.line.reply? a)
  | step host s, m => .stepped (m.step host s).1
  | wake host s, m => .stepped (m.wake host s).1

def answers : List Operation → Machine → List Answer
  | [], _ => []
  | op :: ops, m => op.answer m :: answers ops (op.apply m)

/-- Rows of bytes and words that come from outside are shorter than half of what 64 bits can count;
no program can hold a longer one. -/
def Holdable : Operation → Prop
  | load bytes => bytes.length < 0x8000000000000000
  | loadRom _ words => words.length < 0x8000000000000000
  | _ => True

def Counted : List Operation → Machine → Prop
  | [], _ => True
  | op :: ops, m => Checked.Counted (op.apply m) ∧ Counted ops (op.apply m)

instance decidableCounted : ∀ ops m, Decidable (Counted ops m)
  | [], _ => isTrue trivial
  | op :: ops, m =>
    have := decidableCounted ops (op.apply m)
    inferInstanceAs (Decidable (_ ∧ _))

end Operation

namespace Checked

def operation : Operation → Machine → Except Panic (Answer × Machine)
  | .load bytes, m => do
    let (r, m) ← load bytes m
    return (.loaded r, m)
  | .loadRom offset words, m => do
    let (r, m) ← onMachine (loadRom offset words) m
    return (.filled r, m)
  | .reset entry, m => do return (.done, ← reset entry m)
  | .write a v, m => do
    let (r, m) ← onMachine (write a v) m
    return (.stored r, m)
  | .writeLong a v, m => do
    let (r, m) ← onMachine (writeLong a v) m
    return (.stored r, m)
  | .copy src dst len, m => do
    let (r, m) ← onMachine (copy src dst len) m
    return (.stored r, m)
  | .clearWritable, m => do return (.done, { m with memory := ← clearWritable m.memory })
  | .act a, m => do return (.replied (m.line.reply? a), { m with line := ← perform m.line a })
  | .step host s, m => do
    let (r, m, _) ← step host m s
    return (.stepped r, m)
  | .wake host s, m => do
    let (r, m, _) ← wake host m s
    return (.stepped r, m)

def operations : List Operation → Machine → Except Panic (List Answer × Machine)
  | [], m => return ([], m)
  | op :: ops, m => do
    let (r, m) ← operation op m
    let (rs, m) ← operations ops m
    return (r :: rs, m)

theorem operation_eq {op : Operation} {m : Machine} (hold : op.Holdable)
    (counted : Counted (op.apply m)) : operation op m = .ok (op.answer m, op.apply m) := by
  cases op with
  | load bytes =>
    rw [operation, load_eq hold]
    rfl
  | loadRom offset words =>
    rw [operation, loadRom_eq offset hold, onMachine_free]
    rfl
  | reset entry =>
    rw [operation, reset_eq]
    rfl
  | write a v =>
    rw [operation, write_eq, onMachine_free]
    rfl
  | writeLong a v =>
    rw [operation, writeLong_eq, onMachine_free]
    rfl
  | copy src dst len =>
    rw [operation, copy_eq, onMachine_free]
    rfl
  | clearWritable =>
    rw [operation, clearWritable_eq]
    rfl
  | act a =>
    have small : (m.line.perform a).missed < size64 := counted.missed
    rw [operation, perform_eq small]
    rfl
  | step host s =>
    rw [operation, step_eq host counted]
    rfl
  | wake host s =>
    rw [operation, wake_eq host counted]
    rfl

theorem operations_eq {ops : List Operation} {m : Machine} (hold : ∀ op ∈ ops, op.Holdable)
    (counted : Operation.Counted ops m) :
    operations ops m = .ok (Operation.answers ops m, Operation.applyAll ops m) := by
  induction ops generalizing m with
  | nil => rfl
  | cons op ops ih =>
    have others := ih (fun o ho => hold o (List.mem_cons_of_mem op ho)) counted.2
    rw [operations, operation_eq (hold op List.mem_cons_self) counted.1, ok_bind]
    dsimp only
    rw [others]
    rfl

def bump (op : Opcode) : List (Opcode × Nat) → Except Panic (List (Opcode × Nat))
  | [] => return [(op, 1)]
  | (o, n) :: rest => do
    if o = op then return (o, ← add size64 n 1) :: rest
    else return (o, n) :: (← bump op rest)

def note (p : Profile) (op : Opcode) : Except Panic Profile := return ⟨← bump op p.counts⟩

theorem bump_eq {op : Opcode} {counts : List (Opcode × Nat)}
    (h : ∀ e ∈ Profile.bump op counts, e.2 < size64) :
    bump op counts = .ok (Profile.bump op counts) := by
  induction counts with
  | nil => rfl
  | cons e rest ih =>
    obtain ⟨o, n⟩ := e
    rw [Profile.bump] at h ⊢
    rw [bump]
    by_cases same : o = op
    · rw [if_pos same] at h
      rw [if_pos same, if_pos same, add_of_lt (h _ List.mem_cons_self)]
      rfl
    · rw [if_neg same] at h
      rw [if_neg same, if_neg same, ih fun e he => h e (List.mem_cons_of_mem _ he)]
      rfl

theorem note_eq {p : Profile} {op : Opcode} (h : ∀ e ∈ (p.note op).counts, e.2 < size64) :
    note p op = .ok (p.note op) := by
  rw [note, bump_eq h]
  rfl

structure Answers (m : Machine) : Prop where
  base : ∀ r, base m.memory.layout r = .ok (m.memory.layout.base r)
  total : total m.memory.layout = .ok m.memory.layout.total
  region : ∀ a, region? m.memory.layout a Region.all = .ok (m.memory.layout.region? a)
  words : ∀ r, regionWords m.memory r = .ok (m.memory.regionWords r)
  entry : defaultEntry m = .ok m.defaultEntry
  picture : ∀ width, capture m.memory width = .ok (Picture.capture m.memory width)
  pixel : ∀ width x y, pixel? (Picture.capture m.memory width) x y =
    .ok ((Picture.capture m.memory width).pixel? x y)
  image : ∀ width, width < size32 →
    rows (Picture.capture m.memory width) = .ok (Picture.capture m.memory width).rows

theorem answers_all (m : Machine) : Answers m where
  base := base_eq m.memory.layout
  total := total_eq m.memory.layout
  region := region?_eq m.memory.layout
  words := regionWords_eq m.memory
  entry := defaultEntry_eq m
  picture := capture_eq m.memory
  pixel width := pixel?_eq (framed_capture m.memory width)
  image width hw := rows_eq (framed_capture m.memory width) hw

end Checked

open Checked

/-- The engine never panics. Layouts are accepted or refused, machines set up and interrupts made;
whatever is done to a machine with any layout and in any state, in whatever order, and whatever is
asked about it, no number runs over, no row is left and nothing is divided by zero, as long as the
counters fit into 64 bits. -/
theorem engine_never_panics :
    (∀ ram gram vram rom, ram < size32 → gram < size32 → vram < size32 → rom < size32 →
      Checked.layout ram gram vram rom = .ok (Layout.make ram gram vram rom)) ∧
    (∀ l, Checked.new l = .ok (Machine.new l)) ∧
    (∀ source args, interruptOf source args = .ok (Interrupt.make source args)) ∧
    (∀ m, Answers m) ∧
    (∀ ops m, (∀ op ∈ ops, op.Holdable) → Operation.Counted ops m →
      operations ops m = .ok (Operation.answers ops m, Operation.applyAll ops m)) ∧
    (∀ (σ : Type) (host : Host σ) n m s, Checked.Counted (Machine.run host n m s).2.1 →
      Checked.run host n m s = .ok (Machine.run host n m s)) ∧
    ∀ (p : Profile) op, (∀ e ∈ (p.note op).counts, e.2 < size64) →
      Checked.note p op = .ok (p.note op) :=
  ⟨fun _ _ _ _ => layout_eq, new_eq, interruptOf_eq, answers_all,
    fun _ _ hold counted => operations_eq hold counted,
    fun _ host _ _ _ counted => run_eq host counted, fun _ _ => note_eq⟩

/-- Arguments at the ends of their ranges, on a machine without graphics registers. -/
theorem extreme_arguments_are_answered :
    let m := Machine.new ⟨8, 0, 4, 4, by decide⟩
    let ops : List Operation :=
      [.loadRom (-0x8000000000000000) [0xFFFF], .loadRom 3 [0xFFFF], .loadRom 4 [],
        .copy 0xFFFFFFFF 0xFFFFFFFF 0xFFFFFFFF, .copy 15 0xFFFFFFFF 1, .copy 4 0 12,
        .writeLong 0xFFFFFFFF 0xFFFFFFFF, .reset 0xFFFFFFFF, .act (.request .timer),
        .step Host.idle ()]
    Checked.layout 0xFFFFFFFF 0xFFFFFFFF 0xFFFFFFFF 0xFFFFFFFF =
        .ok (.error (.layoutTooLarge 0x3FFFFFFFC)) ∧
      (∀ op ∈ ops, op.Holdable) ∧ Operation.Counted ops m ∧
      operations ops m = .ok
        ([.filled (.error (.outsideRom (-0x8000000000000000) 1 4)), .filled (.ok ()),
          .filled (.ok ()), .stored (.error (.outOfRange 0xFFFFFFFF)),
          .stored (.error (.outOfRange 0xFFFFFFFF)), .stored (.ok ()),
          .stored (.error (.outOfRange 0xFFFFFFFF)), .done, .replied (some false),
          .stepped (some (.trap ⟨0xFFFFFF, .outOfRange 0xFFFFFF⟩))],
          Operation.applyAll ops m) ∧
      Checked.Counted (Machine.run Host.idle 1 m ()).2.1 ∧
      Checked.run Host.idle 1 m () = .ok (Machine.run Host.idle 1 m ()) ∧
      Checked.note ⟨[(.jump, 0xFFFFFFFFFFFFFFFE)]⟩ .jump = .ok ⟨[(.jump, 0xFFFFFFFFFFFFFFFF)]⟩ := by
  intro m ops
  obtain ⟨layouts, -, -, -, operated, ran, noted⟩ := engine_never_panics
  have hold : ∀ op ∈ ops, op.Holdable := by
    simp [ops, Operation.Holdable]
  have counted : Operation.Counted ops m := by decide +kernel
  have still : Checked.Counted (Machine.run Host.idle 1 m ()).2.1 := by decide +kernel
  refine ⟨layouts _ _ _ _ (by decide) (by decide) (by decide) (by decide), hold, counted, ?_, still,
    ran Unit Host.idle 1 m () still, noted _ _ (by decide)⟩
  rw [operated ops m hold counted]
  rfl

end TwelveBit
