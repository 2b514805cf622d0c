import TwelveBit.Proofs.StepOutcome
/-!
How an instruction ends once it has run on the processor. It is counted and told to the hosts; two
instructions also switch requests on or off, and `hlt` looks whether they are on, and waits if so.
What comes of a wait depends only on the line as the machine finds it there.
-/
namespace TwelveBit.Machine
variable {σ : Type}

def counted (m : Machine) : Machine := { m with instructions := m.instructions + 1 }

inductive Waited (h : Host σ) (m : Machine) (s : σ) : Option Stop × Machine × σ → Prop
  | blocked {l : Line} {t : σ} (hl : h.approach .wait m.line s = (l, t))
      (hp : l.pending = none) (hc : l.closed = false) :
      Waited h m s (some .blocked, { m with line := l }, t)
  | woken {l : Line} {t : σ} {irq : Interrupt} {k : Machine}
      (hl : h.approach .wait m.line s = (l, t)) (hp : l.pending = some irq)
      (hk : k = { m with line := l, halted := false }) :
      Waited h m s (none, k.counted, h.observe k.counted (.executed (.system .halt)) t)
  | abandoned {l : Line} {t : σ} {k : Machine} (hl : h.approach .wait m.line s = (l, t))
      (hp : l.pending = none) (hc : l.closed = true)
      (hk : k = { m with line := l, halted := false }) :
      Waited h m s (some (.exit .stopped), k.counted,
        h.observe k.counted (.executed (.system .halt)) (h.observe k .abandoned t))

theorem waited (h : Host σ) (m : Machine) (s : σ) : Waited h m s (m.wake h s) := by
  rcases hl : h.approach .wait m.line s with ⟨l, t⟩
  have hwake : m.wake h s = settle (sleep h >>= retire h (.system .halt)) m s := rfl
  rw [hwake, settle_eq, EStateM.run_bind, sleep, EStateM.run_bind, run_access, hl]
  obtain ⟨enabled, closed, pending, missed⟩ := l
  cases pending with
  | some irq => exact .woken hl rfl rfl
  | none =>
    cases closed with
    | true => exact .abandoned hl rfl rfl rfl
    | false => exact .blocked hl rfl rfl

inductive Finished (h : Host σ) (m : Machine) (s : σ) :
    Instruction → Option Stop × Machine × σ → Prop
  | plainly {i : Instruction} (hi : i.switch? = none) (hne : i ≠ .system .halt) :
      Finished h m s i (none, m.counted, h.observe m.counted (.executed i) s)
  | switched {i : Instruction} {on : Bool} {l : Line} {t : σ} {k : Machine}
      (hi : i.switch? = some on) (hl : h.approach .setEnabled m.line s = (l, t))
      (hk : k = { m with line := l.setEnabled on }) :
      Finished h m s i (none, k.counted, h.observe k.counted (.executed i) t)
  | halted {l : Line} {t : σ} {k : Machine} (hl : h.approach .enabled m.line s = (l, t))
      (he : l.enabled = false) (hk : k = { m with halted := true, line := l }) :
      Finished h m s (.system .halt) (some (.exit .halted), k.counted,
        h.observe k.counted (.executed (.system .halt)) (h.observe k .halted t))
  | waited {l : Line} {t : σ} {r : Option Stop × Machine × σ}
      (hl : h.approach .enabled m.line s = (l, t)) (he : l.enabled = true)
      (hr : Waited h { m with halted := true, line := l } t r) :
      Finished h m s (.system .halt) r

theorem settle_finishing_of_plain {h : Host σ} {m : Machine} {s : σ} {i : Instruction}
    (hi : i.switch? = none) (hne : i ≠ .system .halt) :
    settle (finishing h i) m s = (none, m.counted, h.observe m.counted (.executed i) s) := by
  cases i with
  | plain | word | long | jump => rfl
  | system op =>
    cases op with
    | nop => rfl
    | halt => exact absurd rfl hne
    | enable | disable => cases hi

theorem settle_finishing_of_switch {h : Host σ} {m : Machine} {s t : σ} {i : Instruction}
    {on : Bool} {l : Line} (hi : i.switch? = some on)
    (hl : h.approach .setEnabled m.line s = (l, t)) :
    settle (finishing h i) m s =
      let k : Machine := { m with line := l.setEnabled on }
      (none, k.counted, h.observe k.counted (.executed i) t) := by
  cases hl
  cases i with
  | plain | word | long | jump => cases hi
  | system op =>
    cases op with
    | nop | halt => cases hi
    | enable | disable =>
      cases hi
      rfl

theorem settle_finishing_halt {h : Host σ} {m : Machine} {s t : σ} {l : Line}
    (hl : h.approach .enabled m.line s = (l, t)) :
    settle (finishing h (.system .halt)) m s =
      let k : Machine := { m with halted := true, line := l }
      if l.enabled then k.wake h t
      else (some (.exit .halted), k.counted,
        h.observe k.counted (.executed (.system .halt)) (h.observe k .halted t)) := by
  have hrun : settle (finishing h (.system .halt)) m s =
      settle (halt h >>= retire h (.system .halt)) m s := rfl
  rw [hrun, settle_eq, EStateM.run_bind, halt, EStateM.run_bind, run_update]
  dsimp only
  rw [EStateM.run_bind, run_access, hl]
  obtain ⟨enabled, closed, pending, missed⟩ := l
  cases enabled with
  | false => rfl
  | true => rfl

theorem finished (h : Host σ) (m : Machine) (s : σ) (i : Instruction) :
    Finished h m s i (settle (finishing h i) m s) := by
  by_cases hne : i = .system .halt
  · subst hne
    rcases hl : h.approach .enabled m.line s with ⟨l, t⟩
    rw [settle_finishing_halt hl]
    by_cases he : l.enabled = true
    · rw [if_pos he]
      exact .waited hl he (Machine.waited h _ t)
    · rw [if_neg he]
      exact .halted hl (Bool.eq_false_iff.2 he) rfl
  · cases hi : i.switch? with
    | none =>
      rw [settle_finishing_of_plain hi hne]
      exact .plainly hi hne
    | some on =>
      rcases hl : h.approach .setEnabled m.line s with ⟨l, t⟩
      rw [settle_finishing_of_switch hi hl]
      exact .switched hi hl rfl

/-- Such an instruction does nothing to the processor, so it cannot fail there. -/
theorem step_of_system {h : Host σ} {m k : Machine} {s u : σ} {op : SystemOp}
    (ready : Ready h m s k u) (fetched : Instruction.fetched k.fetch = .ok (.system op)) :
    m.step h s = settle (finishing h (.system op)) { k with pc := toLong (k.pc + 1) }
      (h.observe k (.fetched (.system op)) u) := by
  rw [step_of_ready ready, settle_eq, run_carryOut, fetched]
  rfl

/-- Only a `hlt` is left waiting. -/
theorem halt_of_blocked {h : Host σ} {m : Machine} {s : σ}
    (hb : (m.step h s).1 = some .blocked) :
    ∃ k u, Ready h m s k u ∧ Instruction.fetched k.fetch = .ok (.system .halt) := by
  have hs := stepped h m s
  generalize m.step h s = r at hs hb
  cases hs with
  | @ended e k u hp =>
    cases hb
    have hp' := polled h m s
    rw [hp] at hp'
    cases hp'
  | paused | unfetched | failed => cases hb
  | @ran k u i pc c ready fetched ran r hr =>
    have hf := finished h { k with toCpu := c, pc := pc } (h.observe k (.fetched i) u) i
    rw [hr] at hf
    cases hf with
    | plainly | switched | halted => cases hb
    | waited => exact ⟨k, u, ready, fetched⟩

end TwelveBit.Machine
