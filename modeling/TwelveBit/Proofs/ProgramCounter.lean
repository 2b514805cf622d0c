import TwelveBit.Proofs.DecodingOutcome
import TwelveBit.Proofs.Frames
import TwelveBit.Proofs.LoadedProgram
import TwelveBit.Proofs.Runs
import TwelveBit.Proofs.WellFormed
/-!
Where the program counter can be. Every instruction goes on at a long, and so does a reset. The
handlers of interrupts are counted from the start of program memory without going round, so where
that lies at the very end of the address space the program counter leaves it.
-/
namespace TwelveBit
open Cpu

theorem Frame.yields_call (target ret : Nat) : Yields (· < 0x1000000) (Frame.call target ret) :=
  Yields.of_bind fun _ => Yields.of_bind fun _ => Yields.of_bind fun _ => Yields.of_bind fun _ =>
    Yields.of_pure (toLong_lt _)

theorem Frame.yields_leave : Yields (· < 0x1000000) Frame.leave :=
  Yields.of_bind fun _ => Yields.of_bind fun _ => (yields_readAt_long _).bind fun _ hr =>
    Yields.of_bind fun _ => Yields.of_bind fun _ => Yields.of_pure hr

theorem Jump.yields_run {next : Nat} (hn : next < 0x1000000) {j : Jump}
    (hj : (Instruction.jump j).Targeted) : Yields (· < 0x1000000) (j.run next) := by
  cases j with
  | absolute c target =>
    refine Yields.of_bind fun taken => Yields.of_pure ?_
    have ht : target < 0x1000000 := hj target rfl
    cases taken with
    | true => exact ht
    | false => exact hn
  | relative =>
    refine Yields.of_bind fun distance => Yields.of_pure ?_
    omega

theorem PlainOp.yields_run {next : Nat} (hn : next < 0x1000000) (op : PlainOp) :
    Yields (· < 0x1000000) (op.run next) := by
  have done : Yields (· < 0x1000000) (pure next : Effect Nat) := Yields.of_pure hn
  cases op with
  | pop | alu => exact Yields.of_bind fun _ => done
  | dup | loadAt | storeAt =>
    exact Yields.of_bind fun _ => Yields.of_bind fun _ => Yields.of_bind fun _ => done
  | swap | copy =>
    exact Yields.of_bind fun _ => Yields.of_bind fun _ => Yields.of_bind fun _ =>
      Yields.of_bind fun _ => done
  | dupSecond =>
    exact Yields.of_bind fun _ => Yields.of_bind fun _ => Yields.of_bind fun _ =>
      Yields.of_bind fun _ => Yields.of_bind fun _ => done
  | callAt => exact Yields.of_bind fun _ => Frame.yields_call _ _
  | ret => exact Frame.yields_leave
  | retWord | retLong =>
    exact Yields.of_bind fun _ => Frame.yields_leave.bind fun _ hr => Yields.of_bind fun _ =>
      Yields.of_pure hr

theorem LongOp.yields_run {next : Nat} (hn : next < 0x1000000) (v : Nat) (op : LongOp) :
    Yields (· < 0x1000000) (op.run next v) := by
  have done : Yields (· < 0x1000000) (pure next : Effect Nat) := Yields.of_pure hn
  cases op with
  | push => exact Yields.of_bind fun _ => done
  | load | store => exact Yields.of_bind fun _ => Yields.of_bind fun _ => done
  | call => exact Frame.yields_call _ _

theorem Instruction.yields_run {next : Nat} (hn : next < 0x1000000) {i : Instruction}
    (hi : i.Targeted) : Yields (· < 0x1000000) (i.run next) := by
  cases i with
  | system op => exact Yields.of_pure hn
  | plain op => exact op.yields_run hn
  | word op k => exact Yields.of_bind fun _ => Yields.of_pure hn
  | long op v => exact op.yields_run hn v
  | jump j => exact Jump.yields_run hn hi

def Layout.Enters (l : Layout) (a : Nat) : Prop :=
  a < 0x1000000 ∨ ∃ source : Source, source.vector? l = some a

/-- Where all handlers lie in the address space, every such address does. -/
theorem Layout.Enters.lt {l : Layout} {a : Nat} (h : l.Enters a)
    (hl : l.romBase + Source.mouse.offset < 0x1000000) : a < 0x1000000 := by
  obtain h | ⟨source, hv⟩ := h
  · exact h
  · have hmax : source.offset ≤ Source.mouse.offset := by cases source <;> decide
    have ha := Source.vector?_eq_some hv
    omega

def Stop.address? : Stop → Option Nat
  | .exit (.paused a) => some a
  | .trap t => some t.pc
  | .exit .halted | .exit .stopped | .blocked => none

namespace Machine
variable {σ : Type} {h : Host σ} {l : Layout} {m k : Machine} {s u : σ}

abbrev SamePc : Machine × σ → Machine × σ → Prop := InvImage Eq fun p => p.1.pc

theorem allowsFinishing_samePc (h : Host σ) : AllowsFinishing h SamePc where
  tell _ _ := fun _ => rfl
  halted _ _ _ := rfl
  look _ _ := fun _ => rfl
  complete _ _ := fun _ => rfl
  switch _ _ _ := fun _ => rfl

theorem Takes.layout_eq {irq : Interrupt} (ht : Takes h m s irq k u) :
    k.memory.layout = m.memory.layout ∧ k.pc = m.pc := by
  cases ht
  exact ⟨rfl, rfl⟩

theorem enters_of_poll (hl : m.memory.layout = l) (hm : l.Enters m.pc) :
    l.Enters (leftBehind ((poll h).run (m, s))).1.pc := by
  have hp := polled h m s
  generalize (poll h).run (m, s) = r at hp ⊢
  cases hp with
  | closed | idle => exact hm
  | stopped taken source => exact taken.layout_eq.2 ▸ hm
  | trapped taken source fault =>
    have hk := taken.layout_eq.2 ▸ hm
    exact hk
  | @delivered irq k n u c taken source entered hn =>
    have hk : k.memory.layout = l := taken.layout_eq.1.trans hl
    refine Or.inr ⟨irq.source, ?_⟩
    rw [Source.vector?_of_ne_stop source]
    show _ = some n.pc
    rw [hn, hk]

theorem enters_of_ready (hl : m.memory.layout = l) (hm : l.Enters m.pc)
    (hr : Ready h m s k u) : l.Enters k.pc := by
  obtain ⟨_, ⟨n, t⟩, hp, hc⟩ := ok_of_bind hr
  have hn : l.Enters n.pc := by
    have hpoll := enters_of_poll (h := h) (s := s) hl hm
    rwa [hp] at hpoll
  have hleft := leftBehind_consult h n t
  rw [hc] at hleft
  cases hleft
  exact hn

theorem enters_of_step (hl : m.memory.layout = l) (hm : l.Enters m.pc) (h : Host σ) (s : σ) :
    l.Enters (m.step h s).2.1.pc := by
  have hs := stepped h m s
  generalize m.step h s = r at hs ⊢
  cases hs with
  | ended hp =>
    have hpoll := enters_of_poll (h := h) (s := s) hl hm
    rwa [hp] at hpoll
  | paused hp hb =>
    have hpoll := enters_of_poll (h := h) (s := s) hl hm
    rwa [hp] at hpoll
  | unfetched ready fault => exact enters_of_ready hl hm ready
  | failed ready fetched fault =>
    have hk := enters_of_ready hl hm ready
    exact hk
  | @ran k u i pc c ready fetched ran r hr =>
    have hpc : pc < 0x1000000 :=
      Instruction.yields_run (toLong_lt _) (Instruction.targeted_of_fetched fetched) _ _ _ ran
    -- what comes after the effect of an instruction leaves its target alone
    have hsame := (allowsFinishing_samePc h).finishing i
      ({ k with toCpu := c, pc := pc }, h.observe k (.fetched i) u)
    rw [← settle_snd, hr] at hsame
    have hend : pc = r.2.1.pc := hsame
    exact Or.inl (hend ▸ hpc)

/-- Whatever a step tells of an address, the program counter is there. -/
theorem address?_of_step {e : Stop} {a : Nat} (he : (m.step h s).1 = some e)
    (ha : e.address? = some a) : a = (m.step h s).2.1.pc := by
  rcases hs : m.step h s with ⟨stop, k, u⟩
  rw [hs] at he
  cases he
  cases e with
  | blocked => cases ha
  | trap t =>
    cases ha
    obtain ⟨act, n, v, ht⟩ := traps_of_step hs
    exact ht.pc_eq
  | exit e =>
    cases e with
    | halted | stopped => cases ha
    | paused b =>
      cases ha
      exact (step_paused hs).1

theorem address?_of_wake {e : Stop} (he : (m.wake h s).1 = some e) : e.address? = none := by
  have hr : e.Rests := rests_of_wake he
  cases e with
  | blocked => rfl
  | trap t => exact hr.elim
  | exit e =>
    cases e with
    | halted | stopped => rfl
    | paused a => exact hr.elim

end Machine

theorem Operation.enters_apply {l : Layout} {m : Machine} (hl : m.memory.layout = l)
    (hm : l.Enters m.pc) (op : Operation) : l.Enters (op.apply m).pc := by
  cases op with
  | load bytes =>
    obtain ⟨memory, h⟩ := Machine.load_snd bytes m
    rw [apply, h]
    exact hm
  | loadRom | write | writeLong | copy =>
    rw [apply, Machine.onMemory_snd]
    exact hm
  | reset entry => exact Or.inl (toLong_lt entry)
  | clearWritable | act => exact hm
  | step hosts s => exact Machine.enters_of_step hl hm hosts s
  | wake hosts s =>
    have hsame : m.pc = (m.wake hosts s).2.1.pc :=
      (Machine.allowsFinishing_samePc hosts).wake m s
    exact hsame ▸ hm

theorem Operation.enters_applyAll {l : Layout} {m : Machine} (wf : WellFormed l m.toCpu)
    (hm : l.Enters m.pc) (ops : List Operation) : l.Enters (applyAll ops m).pc := by
  induction ops generalizing m with
  | nil => exact hm
  | cons op ops ih => exact ih (wf.applyAll [op]) (enters_apply wf.layout_eq hm op)

namespace Machine

theorem takes_idle {m k : Machine} {irq : Interrupt} {u : Unit}
    (ht : Takes Host.idle m () irq k u) :
    m.line.pending = some irq ∧ k = { m with line := m.line.take.2 } := by
  cases ht with
  | intro hl hc hk hp =>
    cases hl
    cases hk
    exact ⟨hp, rfl⟩

/-- With nobody around, a pending interrupt is delivered as long as the stack has room for it. -/
theorem poll_idle {m : Machine} {irq : Interrupt} (hc : m.line.closed = false)
    (hp : m.line.pending = some irq) (hs : irq.source ≠ .stop)
    (room : Room (5 + irq.args.length) m.toCpu) :
    ∃ n, (poll Host.idle).run (m, ()) = .ok () (n, ()) ∧
      (Frame.interrupt irq m.pc).run m.toCpu = .ok () n.toCpu ∧
      n.pc = m.memory.layout.romBase + irq.source.offset := by
  obtain ⟨c, hr⟩ : ∃ c, (Frame.interrupt irq m.pc).run m.toCpu = .ok () c :=
    Frame.interrupt_of_room room
  have hx := polled Host.idle m ()
  generalize (poll Host.idle).run (m, ()) = r at hx ⊢
  cases hx with
  | closed hl hclosed =>
    cases hl
    exact absurd (hc.symm.trans hclosed) Bool.false_ne_true
  | idle hl hopen hk hnone =>
    cases hl
    cases hk
    cases hp.symm.trans hnone
  | stopped taken source =>
    obtain ⟨hirq, -⟩ := takes_idle taken
    rw [hp] at hirq
    cases hirq
    exact absurd source hs
  | trapped taken source fault =>
    obtain ⟨hirq, rfl⟩ := takes_idle taken
    rw [hp] at hirq
    cases hirq
    rw [hr] at fault
    cases fault
  | delivered taken source entered hn =>
    obtain ⟨hirq, rfl⟩ := takes_idle taken
    rw [hp] at hirq
    cases hirq
    exact ⟨_, rfl, hn ▸ entered, hn ▸ rfl⟩

theorem step_idle {m n : Machine} (hp : (poll Host.idle).run (m, ()) = .ok () (n, ())) :
    m.step Host.idle () = settle (carryOut Host.idle) n () := by
  have hc : (consult Host.idle).run (n, ()) = .ok () (n, ()) := rfl
  rw [step_eq, settle_of_ok hp, settle_of_ok hc]

theorem step_of_unknown {m n : Machine} {op : Nat}
    (hp : (poll Host.idle).run (m, ()) = .ok () (n, ())) (hop : n.fetch 0 = .ok op)
    (hn : Opcode.ofNumber? op = none) :
    m.step Host.idle () = (some (.trap ⟨n.pc, .unknownOpcode op⟩), n, ()) := by
  rw [step_idle hp, settle_eq, run_carryOut, Instruction.fetched_of_unknown hop hn]

theorem step_of_enable {m : Machine} (hc : m.line.closed = false) (hp : m.line.pending = none)
    (hf : Instruction.fetched m.fetch = .ok (.system .enable)) :
    m.step Host.idle () =
      (none, { m with
        pc := toLong (m.pc + 1)
        line := m.line.setEnabled true
        instructions := m.instructions + 1 }, ()) := by
  rw [step_idle (poll_idle_of_none hc hp), settle_eq, run_carryOut, hf]
  rfl

/-- Where a handler starts at the top of the stack, it finds the words of its own interrupt there,
and the first of them is taken for an opcode. -/
theorem step_into_stack {m : Machine} {irq : Interrupt} {w : Nat} (hc : m.line.closed = false)
    (hp : m.line.pending = some irq) (hs : irq.source ≠ .stop)
    (room : Room (5 + irq.args.length) m.toCpu)
    (htop : toLong (m.memory.layout.romBase + irq.source.offset) = m.slot 0)
    (hw : irq.args[0]? = some w) (hmask : w < 0x1000) (hn : Opcode.ofNumber? w = none) :
    ∃ n : Machine, n.pc = m.memory.layout.romBase + irq.source.offset ∧
      m.step Host.idle () = (some (.trap ⟨n.pc, .unknownOpcode w⟩), n, ()) := by
  obtain ⟨n, hpoll, entered, hpc⟩ := poll_idle hc hp hs room
  obtain ⟨hlen, rfl⟩ := List.getElem?_eq_some_iff.1 hw
  have hsp : m.sp < 0x1000000 := by
    have hbase := m.memory.layout.romBase_le_total
    have hspace := m.memory.layout.total_le_space
    unfold Room at room
    omega
  have frame := Frame.entered_of_interrupt hsp entered
  have hop : n.fetch 0 = .ok irq.args[0] := by
    rw [fetch, Nat.add_zero, hpc, htop, Memory.read, if_pos (frame.slot_mapped 0 hlen),
      frame.word_slot 0 hlen, toWord_of_lt hmask]
  exact ⟨n, hpc, step_of_unknown hpoll hop hn⟩

/-- A program that does nothing but enable interrupts has been loaded and started, and the mouse
has moved. -/
theorem enabled_and_moved {l : Layout} (hl : l.romBase < 0x1000000) (hrom : 0 < l.rom)
    (x y buttons : Nat) :
    let ops : List Operation :=
      [.load (Image.toBytes [⟨0, (Instruction.system .enable).encode⟩]), .reset l.romBase,
        .step Host.idle (), .act (.request (.mouse x y buttons))]
    let m := Operation.applyAll ops (Machine.new l)
    m.memory.layout = l ∧ m.sp = 4 ∧ m.line.closed = false ∧
      m.line.pending = some (.mouse x y buttons) := by
  intro ops m
  have hnew : (Machine.new l).memory.layout = l := (WellFormed.new l).layout_eq
  have hlayout : m.memory.layout = l := ((WellFormed.new l).applyAll ops).layout_eq
  have hwords : ∀ w ∈ (Instruction.system .enable).encode, w < 0x1000 := Instruction.encode_lt _
  obtain ⟨memory, hload⟩ := load_snd
    (Image.toBytes [⟨0, (Instruction.system .enable).encode⟩]) (Machine.new l)
  -- the machine before its step, which stands at the start of program memory
  obtain ⟨k, hk⟩ : ∃ k, k = Machine.reset l.romBase { Machine.new l with memory := memory } :=
    ⟨_, rfl⟩
  have hpc : k.pc = l.romBase + 0 := hk ▸ toLong_of_lt hl
  have program : k.memory.Holds k.pc (Instruction.system .enable).encode := by
    have hloads : ∀ op ∈ [Operation.reset l.romBase], ¬ op.Loads := by simp [Operation.Loads]
    have := holds_of_load (m := Machine.new l) (o := 0) hwords (hnew.symm ▸ hrom) hloads
    rw [hnew] at this
    rw [hpc, hk, ← hload]
    exact this
  have hf : Instruction.fetched k.fetch = .ok (.system .enable) :=
    Instruction.fetched_of_shows trivial (shows_of_holds program)
  have hstep := step_of_enable (m := k) (by rw [hk]; rfl) (by rw [hk]; rfl) hf
  have hm : m = ((k.step Host.idle ()).2.1).perform [.request (.mouse x y buttons)] := by
    rw [hk, ← hload]
    rfl
  rw [hstep] at hm
  refine ⟨hlayout, ?_, ?_, ?_⟩ <;> rw [hm, hk] <;> rfl

/-- Where eleven words of program memory end the address space, the handler of the mouse starts
behind it, and the word that is fetched there is the one at 5, where the stack begins. -/
theorem handler_beyond {l : Layout} (hl : l.romBase = 0xFFFFF5) (hrom : 0 < l.rom) :
    let ops : List Operation :=
      [.load (Image.toBytes [⟨0, (Instruction.system .enable).encode⟩]), .reset l.romBase,
        .step Host.idle (), .act (.request (.mouse 0xFFF 0 0))]
    let m := Operation.applyAll ops (Machine.new l)
    ∃ n : Machine, n.pc = 0x1000005 ∧
      m.step Host.idle () = (some (.trap ⟨n.pc, .unknownOpcode 0xFFF⟩), n, ()) := by
  intro ops m
  obtain ⟨hlayout, hsp, hc, hp⟩ : m.memory.layout = l ∧ m.sp = 4 ∧ m.line.closed = false ∧
      m.line.pending = some (.mouse 0xFFF 0 0) :=
    enabled_and_moved (by omega) hrom 0xFFF 0 0
  have room : Room (5 + (Interrupt.mouse 0xFFF 0 0).args.length) m.toCpu := by
    unfold Room
    rw [hlayout, hsp, hl]
    decide
  have htop : toLong (m.memory.layout.romBase + (Interrupt.mouse 0xFFF 0 0).source.offset) =
      m.slot 0 := by
    rw [slot, hlayout, hsp, hl]
    rfl
  obtain ⟨n, hpc, hstep⟩ :=
    step_into_stack hc hp (by decide) room htop (w := 0xFFF) rfl (by decide) (by decide)
  refine ⟨n, ?_, hstep⟩
  rw [hpc, hlayout, hl]
  rfl

end Machine

/-- However a machine has got where it is, its program counter is a long or the start of a handler,
and no step tells of another address. All of these are in the address space as long as the handlers
are. -/
theorem program_counter_is_long_or_handler (l : Layout) (ops : List Operation) :
    let m := Operation.applyAll ops (Machine.new l)
    l.Enters m.pc ∧
      (∀ {σ : Type} (h : Host σ) (s : σ) (e : Stop) (a : Nat), (m.step h s).1 = some e →
        e.address? = some a → a = (m.step h s).2.1.pc ∧ l.Enters a) ∧
      (∀ {σ : Type} (h : Host σ) (s : σ) (e : Stop), (m.wake h s).1 = some e →
        e.address? = none) ∧
      (l.romBase + Source.mouse.offset < 0x1000000 → ∀ a, l.Enters a → a < 0x1000000) := by
  intro m
  have wf : WellFormed l m.toCpu := (WellFormed.new l).applyAll ops
  have hm : l.Enters m.pc :=
    Operation.enters_applyAll (WellFormed.new l) (Or.inl (toLong_lt _)) ops
  refine ⟨hm, fun h s e a he ha => ?_, fun h s e he => Machine.address?_of_wake he,
    fun hl a ha => ha.lt hl⟩
  have hpc := Machine.address?_of_step he ha
  exact ⟨hpc, hpc ▸ Machine.enters_of_step wf.layout_eq hm h s⟩

/-- A timer strikes, and its handler starts with a word that is no opcode. -/
theorem handler_is_entered_at_its_address :
    let l : Layout := ⟨16, 0, 0, 16, by decide⟩
    let ops : List Operation :=
      [.loadRom 4 [0xFFF], .act (.setEnabled true), .act (.request .timer)]
    let m := Operation.applyAll ops (Machine.new l)
    (m.step Host.idle ()).1 = some (.trap ⟨20, .unknownOpcode 0xFFF⟩) ∧
      l.Enters 20 ∧ m.pc < 0x1000000 := by
  intro l ops m
  obtain ⟨hm, told, -, lt⟩ := program_counter_is_long_or_handler l ops
  have hstop : (m.step Host.idle ()).1 = some (.trap ⟨20, .unknownOpcode 0xFFF⟩) := by
    decide +kernel
  obtain ⟨-, henters⟩ := told Host.idle () _ 20 hstop rfl
  exact ⟨hstop, henters, lt (by decide) _ hm⟩

/-- The handler of the mouse is entered where no address is. -/
theorem program_counter_leaves_address_space :
    let l : Layout := ⟨0xFFFFF5, 0, 0, 11, by decide⟩
    let ops : List Operation :=
      [.load (Image.toBytes [⟨0, [2]⟩]), .reset 0xFFFFF5, .step Host.idle (),
        .act (.request (.mouse 0xFFF 0 0))]
    let m := Operation.applyAll ops (Machine.new l)
    (m.step Host.idle ()).1 = some (.trap ⟨0x1000005, .unknownOpcode 0xFFF⟩) ∧
      ¬ (m.step Host.idle ()).2.1.pc < 0x1000000 := by
  intro l ops m
  obtain ⟨n, hpc, hstep⟩ : ∃ n : Machine, n.pc = 0x1000005 ∧
      m.step Host.idle () = (some (.trap ⟨n.pc, .unknownOpcode 0xFFF⟩), n, ()) :=
    Machine.handler_beyond (l := l) rfl (by decide)
  rw [hstep, hpc]
  exact ⟨rfl, by decide⟩

end TwelveBit
