import TwelveBit.Proofs.Chronicle
import TwelveBit.Proofs.Finishing
/-!
What chronicles attest. A relation between a machine with its hosts, what happens, and the machine
and its hosts afterwards holds of whole steps and runs as soon as it holds of each single thing
that can happen, and of two stretches as soon as it holds of both.
-/
namespace TwelveBit.Machine
variable {σ : Type} {h : Host σ} {K : Machine × σ → List Happening → Machine × σ → Prop}

/-- The relation holds of everything that can happen, one thing at a time. -/
structure Attests (h : Host σ) (K : Machine × σ → List Happening → Machine × σ → Prop) :
    Prop where
  nil : ∀ p, K p [] p
  append : ∀ {p q r es fs}, K p es q → K q fs r → K p (es ++ fs) r
  unseen : ∀ (m : Machine) (s : σ) (c : Cpu) (pc : Nat) (b : Bool),
    K (m, s) [] ({ m with toCpu := c, pc := pc, halted := b }, s)
  meanwhile : ∀ (a : Access) (m : Machine) (s : σ),
    let r := h.meanwhile a m.line s
    K (m, s) (m.line.answers r.1) (m.perform r.1, r.2)
  asked : ∀ (m : Machine) (s : σ),
    let r := h.beforeFetch m s
    K (m, s) (m.line.answers r.2.1 ++ [.asked m.pc r.1]) (m.perform r.2.1, r.2.2)
  closed : ∀ (m : Machine) (s : σ), m.line.closed = true →
    K (m, s) [.told .closed] (m, h.observe m .closed s)
  taken : ∀ (m : Machine) (s : σ) (irq : Interrupt), m.line.pending = some irq →
    let k : Machine := { m with line := m.line.take.2 }
    K (m, s) [.told (.taken irq)] (k, h.observe k (.taken irq) s)
  delivered : ∀ (m : Machine) (s : σ) (irq : Interrupt) (c : Cpu) (pc : Nat),
    m.line.pending = some irq →
    let k : Machine := { m with line := m.line.take.2 }
    let n : Machine := { k with toCpu := c, pc := pc, interrupts := k.interrupts + 1 }
    K (m, s) [.told (.taken irq), .told (.delivered irq m.pc)]
      (n, h.observe n (.delivered irq m.pc) (h.observe k (.taken irq) s))
  inner : ∀ (m : Machine) (s : σ) (e : Event), e.Inner →
    K (m, s) [.told e] (m, h.observe m e s)
  executed : ∀ (m : Machine) (s : σ) (i : Instruction), i.switch? = none →
    K (m, s) [.told (.executed i)] (m.counted, h.observe m.counted (.executed i) s)
  switched : ∀ (m : Machine) (s : σ) (i : Instruction) (on : Bool), i.switch? = some on →
    let k : Machine := { m with line := m.line.setEnabled on }
    K (m, s) [.told (.executed i)] (k.counted, h.observe k.counted (.executed i) s)

def Attested (K : Machine × σ → List Happening → Machine × σ → Prop)
    (p q : Machine × σ × List Happening) : Prop :=
  ∃ es, q.2.2 = p.2.2 ++ es ∧ K (p.1, p.2.1) es (q.1, q.2.1)

namespace Attests
variable {m : Machine} {s : σ} (hK : Attests h K)
include hK

theorem isPreorder : IsPreorder (Machine × σ × List Happening) (Attested K) where
  refl p := ⟨[], (List.append_nil _).symm, hK.nil _⟩
  trans := by
    rintro p q r ⟨es, he, hes⟩ ⟨fs, hf, hfs⟩
    exact ⟨es ++ fs, by rw [hf, he, List.append_assoc], hK.append hes hfs⟩

theorem allows : Allows h.chronicled (Attested K) where
  tell e he := fun (m, s, es) => ⟨[.told e], rfl, hK.inner m s e he⟩
  halted m := fun (s, es) b => ⟨[], (List.append_nil es).symm, hK.unseen m s m.toCpu m.pc b⟩
  look a f := fun (m, s, es) => ⟨_, rfl, hK.meanwhile a m s⟩
  complete i hi := fun (m, s, es) => ⟨[.told (.executed i)], rfl, hK.executed m s i hi⟩
  switch i on hi := fun (m, s, es) =>
    ⟨_, List.append_assoc _ _ _, hK.append (hK.meanwhile .setEnabled m s) (hK.switched _ _ i on hi)⟩
  consult := by
    intro (m, s, es)
    rw [leftBehind_consult]
    exact ⟨_, List.append_assoc _ _ _, hK.asked m s⟩
  instruction next i := by
    intro (m, s, es)
    rw [leftBehind_attempt]
    exact ⟨[], (List.append_nil es).symm, hK.unseen m s _ m.pc m.halted⟩
  pc m := fun (s, es) a => ⟨[], (List.append_nil es).symm, hK.unseen m s m.toCpu a m.halted⟩

theorem approach {a : Access} {l : Line} {p q : σ × List Happening}
    (hl : h.chronicled.approach a m.line p = (l, q)) :
    Attested K (m, p) ({ m with line := l }, q) := by
  cases hl
  exact ⟨_, rfl, hK.meanwhile a m p.1⟩

theorem poll : Keeps (Attested K) (Machine.poll h.chronicled) := by
  have := hK.isPreorder
  -- the two accesses of a poll, and what is told right after the second
  have accesses {m : Machine} {p t u : σ × List Happening} {l l' : Line}
      (hl : h.chronicled.approach .closed m.line p = (l, t))
      (hk : h.chronicled.approach .take l t = (l', u)) :
      Attested K (m, p) ({ m with line := l' }, u) := by
    have first : Attested K (m, p) ({ m with line := l }, t) := hK.approach hl
    have second : Attested K ({ m with line := l }, t) ({ m with line := l' }, u) := hK.approach hk
    exact IsTrans.trans _ _ _ first second
  have takes {m k : Machine} {p q : σ × List Happening} {irq : Interrupt}
      (taken : Takes h.chronicled m p irq k q) : Attested K (m, p) (k, q) := by
    cases taken with
    | @intro l l' t u hl hc hk hp =>
      have told : Attested K ({ m with line := l' }, u)
          ({ m with line := l'.take.2 }, h.chronicled.observe _ (.taken irq) u) :=
        ⟨_, rfl, hK.taken { m with line := l' } u.1 irq hp⟩
      exact IsTrans.trans _ _ _ (accesses hl hk) told
  intro (m, p)
  have hp := polled h.chronicled m p
  generalize (Machine.poll h.chronicled).run (m, p) = r at hp ⊢
  cases hp with
  | @closed l t hl hc =>
    have told : Attested K ({ m with line := l }, t)
        ({ m with line := l }, h.chronicled.observe _ .closed t) :=
      ⟨_, rfl, hK.closed { m with line := l } t.1 hc⟩
    exact IsTrans.trans _ _ _ (hK.approach hl) told
  | idle hl hc hk hp => exact accesses hl hk
  | stopped taken source => exact takes taken
  | @trapped irq k u f c taken source fault =>
    have left : Attested K (k, u) ({ k with toCpu := c }, u) :=
      ⟨[], (List.append_nil _).symm, hK.unseen k u.1 c k.pc k.halted⟩
    exact IsTrans.trans _ _ _ (takes taken) left
  | @delivered irq k n u c taken source entered hn =>
    cases taken with
    | @intro l l' t u hl hc hk hp =>
      have told : Attested K ({ m with line := l' }, u)
          (n, h.chronicled.observe n (.delivered irq m.pc)
            (h.chronicled.observe { m with line := l'.take.2 } (.taken irq) u)) := by
        rw [hn]
        exact ⟨_, List.append_assoc _ _ _, hK.delivered { m with line := l' } u.1 irq c _ hp⟩
      exact IsTrans.trans _ _ _ (accesses hl hk) told

theorem step (m : Machine) (s : σ) : K (m, s) (m.stepHistory h s) (m.step h s).2 := by
  have := hK.isPreorder
  obtain ⟨es, he, hes⟩ := hK.allows.step hK.poll m (s, [])
  have hh : m.stepHistory h s = es := he
  rw [hh, step_chronicled h m s []]
  exact hes

theorem wake (m : Machine) (s : σ) : K (m, s) (m.wakeHistory h s) (m.wake h s).2 := by
  have := hK.isPreorder
  obtain ⟨es, he, hes⟩ := hK.allows.wake m (s, [])
  have hh : m.wakeHistory h s = es := he
  rw [hh, wake_chronicled h m s []]
  exact hes

theorem run (n : Nat) (m : Machine) (s : σ) :
    K (m, s) (m.runHistory h n s) (m.run h n s).2 := by
  have := hK.isPreorder
  have grown (n : Nat) (m : Machine) (p : σ × List Happening) :
      Attested K (m, p) (Machine.run h.chronicled n m p).2 := by
    induction n generalizing m p with
    | zero => exact Std.Refl.refl _
    | succ n ih =>
      have first := hK.allows.step hK.poll m p
      unfold Machine.run
      rcases hr : m.step h.chronicled p with ⟨stop, k, q⟩
      rw [hr] at first
      cases stop with
      | some stop => exact first
      | none => exact IsTrans.trans _ _ _ first (ih k q)
  obtain ⟨es, he, hes⟩ := grown n m (s, [])
  have hh : m.runHistory h n s = es := he
  rw [hh, run_eq_chronicled h n m s []]
  exact hes

end Attests
end TwelveBit.Machine
