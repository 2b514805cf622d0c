import TwelveBit.Proofs.Failures
/-!
How effects are put together. Every effect on the processor consists of a few primitive ones, and of
these only a push moves the mark of the highest address that the stack has reached. So what an effect
does can be told from where it pushes, in what order, and whether it stores anything besides.
-/
namespace TwelveBit

/-- The parts of an effect. A derivation that is a proof tells nothing of the pushes on the way; this
one is data. A store, which is any change of memory that is not a push, is among them only if `p`
holds. -/
inductive Parts (p : Prop) : {α : Type} → Effect α → Type 1
  | pure {α : Type} (a : α) : Parts p (Pure.pure a : Effect α)
  | fail {α : Type} (f : Fault) : Parts p (throw f : Effect α)
  | get : Parts p (MonadState.get : Effect Cpu)
  | read (a : Nat) : Parts p (Cpu.read a)
  | push (v : Nat) : Parts p (Cpu.push v)
  | store (hp : p) (x : Memory.Action Unit) : Parts p (Cpu.onMemory x)
  | set (sp fp : Cpu → Nat) (carry : Cpu → Bool) :
      Parts p (modify fun c => { c with sp := sp c, fp := fp c, carry := carry c } : Effect PUnit)
  | bind {α β : Type} {x : Effect α} {f : α → Effect β} (first : Parts p x)
      (rest : ∀ a, Parts p (f a)) : Parts p (x >>= f)

namespace Parts
variable {p : Prop}

def pushes : {α : Type} → {x : Effect α} → Parts p x → Cpu → List Nat
  | _, _, push v, c =>
    match (Cpu.push v).run c with
    | .ok _ _ => [Memory.next c.sp]
    | .error _ _ => []
  | _, _, bind (x := x) first rest, c =>
    first.pushes c ++
      match x.run c with
      | .ok a d => (rest a).pushes d
      | .error _ _ => []
  | _, _, pure _, _ | _, _, fail _, _ | _, _, get, _ | _, _, read _, _ | _, _, store _ _, _
  | _, _, set _ _ _, _ => []

def pop : Parts p Cpu.pop :=
  get.bind fun _ => (read _).bind fun _ => (set _ _ _).bind fun _ => pure _

def pushLong (v : Nat) : Parts p (Cpu.pushLong v) := (push _).bind fun _ => push _

def popLong : Parts p Cpu.popLong := pop.bind fun _ => pop.bind fun _ => pure _

def pushAt : (w : Width) → (v : Nat) → Parts p (Cpu.pushAt w v)
  | .word, v => push v
  | .long, v => pushLong v

def popAt : (w : Width) → Parts p (Cpu.popAt w)
  | .word => pop
  | .long => popLong

def readAt : (w : Width) → (a : Nat) → Parts p (Cpu.readAt w a)
  | .word, a => read a
  | .long, a => (read a).bind fun _ => (read _).bind fun _ => pure _

def writeAt (hp : p) : (w : Width) → (a v : Nat) → Parts p (Cpu.writeAt w a v)
  | .word, _, _ => store hp _
  | .long, _, _ => store hp _

def pushAll : (vs : List Nat) → Parts p (Cpu.pushAll vs)
  | [] => pure ()
  | v :: vs => (push v).bind fun _ => pushAll vs

def ofExcept {α : Type} : (r : Except Fault α) → Parts p (Effect.ofExcept r)
  | .ok a => pure a
  | .error f => fail f

def localAddr (k : Nat) : Parts p (Frame.localAddr k) :=
  (get.bind fun _ => (read _).bind fun _ => pure _).bind fun _ => pure _

def enter (ret locals : Nat) : Parts p (Frame.enter ret locals) :=
  get.bind fun _ => (pushLong _).bind fun _ => (pushLong _).bind fun _ => (push _).bind fun _ =>
    set _ _ _

def call (target ret : Nat) : Parts p (Frame.call target ret) :=
  (read _).bind fun _ => (read _).bind fun _ => (set _ _ _).bind fun _ =>
    (enter _ _).bind fun _ => pure _

def leave : Parts p Frame.leave :=
  get.bind fun _ => (read _).bind fun _ => (readAt _ _).bind fun _ => (readAt _ _).bind fun _ =>
    (set _ _ _).bind fun _ => pure _

def interrupt (irq : Interrupt) (ret : Nat) : Parts p (Frame.interrupt irq ret) :=
  (pushAll _).bind fun _ => enter _ _

def finish (w : Width) : (r : AluResult) → Parts p (AluOp.finish w r)
  | ⟨v, some _⟩ => (pushAt w v).bind fun _ => set _ _ _
  | ⟨v, none⟩ => (pushAt w v).bind fun _ => pure _

def alu : (op : AluOp) → Parts p op.run
  | .binary _ w =>
    (popAt w).bind fun _ => (popAt w).bind fun _ => (ofExcept _).bind fun _ => finish w _
  | .unary _ w => (popAt w).bind fun _ => get.bind fun _ => finish w _
  | .wideMul => pop.bind fun _ => pop.bind fun _ => finish _ _
  | .widen => pop.bind fun _ => finish _ _
  | .widenSigned => pop.bind fun _ => finish _ _
  | .narrow => popLong.bind fun _ => finish _ _

def holds : (cond : Condition) → Parts p cond.holds
  | .always => pure _
  | .carry => get.bind fun _ => pure _
  | .noCarry => get.bind fun _ => pure _
  | .equal => pop.bind fun _ => pop.bind fun _ => pure _
  | .different => pop.bind fun _ => pop.bind fun _ => pure _
  | .zero w => (popAt w).bind fun _ => pure _
  | .nonzero w => (popAt w).bind fun _ => pure _
  | .positive w => (popAt w).bind fun _ => pure _
  | .negative w => (popAt w).bind fun _ => pure _
  | .nonnegative w => (popAt w).bind fun _ => pure _
  | .nonpositive w => (popAt w).bind fun _ => pure _

def jump (next : Nat) : (j : Jump) → Parts p (j.run next)
  | .absolute cond _ => (holds cond).bind fun | true => pure _ | false => pure _
  | .relative => pop.bind fun _ => pure _

def plain (next : Nat) : (op : PlainOp) → Parts (Instruction.plain op).Stores (op.run next)
  | .pop w => (popAt w).bind fun _ => pure _
  | .dup w =>
    (popAt w).bind fun _ => (pushAt w _).bind fun _ => (pushAt w _).bind fun _ => pure _
  | .swap w =>
    (popAt w).bind fun _ => (popAt w).bind fun _ => (pushAt w _).bind fun _ =>
      (pushAt w _).bind fun _ => pure _
  | .dupSecond =>
    pop.bind fun _ => pop.bind fun _ => (push _).bind fun _ => (push _).bind fun _ =>
      (push _).bind fun _ => pure _
  | .loadAt w =>
    popLong.bind fun _ => (readAt w _).bind fun _ => (pushAt w _).bind fun _ => pure _
  | .storeAt w =>
    (popAt w).bind fun _ => popLong.bind fun _ => (writeAt trivial w _ _).bind fun _ => pure _
  | .copy =>
    popLong.bind fun _ => popLong.bind fun _ => popLong.bind fun _ => (store trivial _).bind fun _ =>
      pure _
  | .callAt => popLong.bind fun _ => call _ _
  | .ret => leave
  | .retWord => pop.bind fun _ => leave.bind fun _ => (push _).bind fun _ => pure _
  | .retLong => popLong.bind fun _ => leave.bind fun _ => (pushLong _).bind fun _ => pure _
  | .alu op => (alu op).bind fun _ => pure _

def word (k : Nat) : (op : WordOp) → Parts (Instruction.word op k).Stores (op.run k)
  | .push => push k
  | .loadLocal w => (localAddr k).bind fun _ => (readAt w _).bind fun _ => pushAt w _
  | .storeLocal w => (localAddr k).bind fun _ => (popAt w).bind fun _ => writeAt trivial w _ _
  | .addrLocal => (localAddr k).bind fun _ => pushLong _

def long (next v : Nat) : (op : LongOp) → Parts (Instruction.long op v).Stores (op.run next v)
  | .push => (pushLong v).bind fun _ => pure _
  | .load w => (readAt w v).bind fun _ => (pushAt w _).bind fun _ => pure _
  | .store w => (popAt w).bind fun _ => (writeAt trivial w v _).bind fun _ => pure _
  | .call => call v next

def instruction (next : Nat) : (i : Instruction) → Parts i.Stores (i.run next)
  | .system _ => pure next
  | .plain op => plain next op
  | .word op k => (word k op).bind fun _ => pure next
  | .long op v => long next v op
  | .jump j => jump next j

end Parts

structure Tracks (Q : List Nat → Cpu → Cpu → Prop) : Prop where
  append : ∀ {ps qs c d e}, Q ps c d → Q qs d e → Q (ps ++ qs) c e
  set : ∀ (c : Cpu) sp fp carry, Q [] c { c with sp := sp, fp := fp, carry := carry }
  push : ∀ (c : Cpu) v, Q [Memory.next c.sp] c
    { c with
      memory := c.memory.put (Memory.next c.sp) v
      sp := Memory.next c.sp
      highWater := max c.highWater (Memory.next c.sp) }

def AllowsStores (Q : List Nat → Cpu → Cpu → Prop) : Prop :=
  ∀ x c, Q [] c (leftBehind ((Cpu.onMemory x).run c))

variable {p : Prop} {Q : List Nat → Cpu → Cpu → Prop} {α : Type} {x : Effect α}

theorem Tracks.nil (hQ : Tracks Q) (c : Cpu) : Q [] c c := hQ.set c c.sp c.fp c.carry

/-- Also an effect that fails has done what its pushes tell. -/
theorem Parts.tracked (hQ : Tracks Q) (hp : p → AllowsStores Q) (parts : Parts p x) (c : Cpu) :
    Q (parts.pushes c) c (leftBehind (x.run c)) := by
  induction parts generalizing c with
  | pure | fail | get => exact hQ.nil c
  | read a =>
    rw [Cpu.run_read]
    split <;> exact hQ.nil c
  | push v =>
    unfold pushes
    rw [Cpu.run_push]
    cases c.memory.refusal? (Memory.next c.sp) with
    | some f => exact hQ.nil c
    | none => exact hQ.push c v
  | store h x => exact hp h x c
  | set sp fp carry => exact hQ.set c _ _ _
  | @bind α β x f first rest ihx ihf =>
    have start := ihx c
    unfold pushes
    rw [EStateM.run_bind]
    cases hr : x.run c with
    | ok a d =>
      rw [hr] at start
      exact hQ.append start (ihf a d)
    | error f d =>
      rw [hr] at start
      exact (List.append_nil _).symm ▸ start

/-- The first word of a long is pushed; the second one would lie in program memory. -/
example : (Parts.pushLong (p := False) 0x123456).pushes
    ⟨.zero ⟨6, 0, 0, 16, by decide⟩, 4, 0, false, 0⟩ = [5] := by decide

def Raises (ps : List Nat) (c d : Cpu) : Prop := d.highWater = ps.foldl max c.highWater

def Confined (ps : List Nat) (c d : Cpu) : Prop := Memory.Agree (· ∉ ps) c.memory d.memory

theorem tracks_raises : Tracks Raises where
  append h h' := by rw [Raises, List.foldl_append, ← h, h']
  set _ _ _ _ := rfl
  push _ _ := rfl

theorem allowsStores_raises : AllowsStores Raises := by
  intro x c
  rw [Cpu.run_onMemory]
  cases x.run c.memory <;> rfl

theorem tracks_confined : Tracks Confined where
  append h h' := by
    refine (h.mono fun a ha => ?_).trans (h'.mono fun a ha => ?_)
    · exact fun hm => ha (List.mem_append_left _ hm)
    · exact fun hm => ha (List.mem_append_right _ hm)
  set c _ _ _ := Memory.Agree.refl _ c.memory
  push _ _ := Memory.Agree.set _ _ fun hn => hn (List.mem_singleton_self _)

structure OnlyPushes (ps : List Nat) (c d : Cpu) : Prop where
  raises : Raises ps c d
  confined : Confined ps c d

theorem tracks_onlyPushes : Tracks OnlyPushes where
  append h h' := ⟨tracks_raises.append h.raises h'.raises,
    tracks_confined.append h.confined h'.confined⟩
  set c sp fp carry := ⟨tracks_raises.set c sp fp carry, tracks_confined.set c sp fp carry⟩
  push c v := ⟨tracks_raises.push c v, tracks_confined.push c v⟩

theorem Raises.le {ps : List Nat} {c d : Cpu} (h : Raises ps c d) : c.highWater ≤ d.highWater := by
  rw [h, List.foldl_max]
  exact Nat.le_max_left _ _

theorem Raises.mem_le {ps : List Nat} {c d : Cpu} (h : Raises ps c d) {a : Nat} (ha : a ∈ ps) :
    a ≤ d.highWater := by
  rw [h, List.foldl_max]
  exact Nat.le_trans (List.le_max?_getD_of_mem ha) (Nat.le_max_right _ _)

end TwelveBit
