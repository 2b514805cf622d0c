import TwelveBit.Proofs.Conservation
/-!
Tallies. The counts of a machine are those of its chronicle: an instruction is counted when it is
told, and so is a delivery. A step comes to one of each at most, and where it is left waiting, it
has not come to the instruction yet.
-/
namespace TwelveBit
variable {σ : Type}

namespace Happening

def executed? : Happening → Option Instruction
  | .told (.executed i) => some i
  | _ => none

theorem executed_answers (l : Line) (acts : List Line.Action) :
    (l.answers acts).filterMap executed? = [] := by
  refine List.filterMap_eq_nil_iff.2 fun e he => ?_
  obtain ⟨a, -, reply, rfl⟩ := Line.acted_of_mem_answers he
  rfl

end Happening

namespace Machine
variable {h : Host σ} {m m' k : Machine} {s u : σ} {r : Option Stop × Machine × σ}
  {stop : Option Stop} {es : List Happening} {i : Instruction}

def Tallied (m : Machine) (es : List Happening) (m' : Machine) : Prop :=
  m'.instructions = m.instructions + (es.filterMap Happening.executed?).length

theorem Tallied.append {fs : List Happening} (hk : Tallied m es k) (hm : Tallied k fs m') :
    Tallied m (es ++ fs) m' := by
  unfold Tallied at hk hm ⊢
  rw [hm, hk, List.filterMap_append, List.length_append, Nat.add_assoc]

/-- Where nothing was counted, no instruction is told to have been executed. -/
theorem Tallied.unexecuted (hm : Tallied m es m') (hc : m'.instructions = m.instructions)
    (i : Instruction) : Happening.told (.executed i) ∉ es := by
  unfold Tallied at hm
  have none_told : es.filterMap Happening.executed? = [] := List.length_eq_zero_iff.1 (by omega)
  intro hi
  have told : i ∈ es.filterMap Happening.executed? := List.mem_filterMap.2 ⟨_, hi, rfl⟩
  rw [none_told] at told
  cases told

theorem attests_tallied (h : Host σ) : Attests h fun p es q => Tallied p.1 es q.1 where
  nil p := rfl
  append := Tallied.append
  unseen m s c pc b := rfl
  meanwhile a m s := by
    rw [Tallied, Happening.executed_answers]
    rfl
  asked m s := by
    rw [Tallied, List.filterMap_append, Happening.executed_answers]
    rfl
  closed m s hc := rfl
  taken m s irq hp := rfl
  delivered m s irq c pc hp := rfl
  inner m s e he := by
    cases e with
    | fetched | halted | abandoned => rfl
    | closed | taken | delivered | executed => exact he.elim
  executed m s i hi := rfl
  switched m s i on hi := rfl

/-- A poll changes the processor, the program counter, the line and the count of deliveries, and
nothing else that there is to see. -/
theorem keeps_poll {α : Type} {f : Machine → α}
    (hf : ∀ (m : Machine) c pc line n,
      f { m with toCpu := c, pc := pc, line := line, interrupts := n } = f m) (h : Host σ) :
    Keeps (InvImage Eq fun p => f p.1) (poll h) := by
  intro (m, s)
  have hp := polled h m s
  generalize (poll h).run (m, s) = r at hp ⊢
  cases hp with
  | closed | idle => exact (hf m m.toCpu m.pc _ m.interrupts).symm
  | stopped taken source =>
    cases taken
    exact (hf m m.toCpu m.pc _ m.interrupts).symm
  | trapped taken source fault =>
    cases taken
    exact (hf m _ m.pc _ m.interrupts).symm
  | delivered taken source entered hn =>
    cases taken
    rw [hn]
    exact (hf m _ _ _ _).symm

theorem same_of_ready {α : Type} {f : Machine → α}
    (hf : ∀ (m : Machine) c pc line n,
      f { m with toCpu := c, pc := pc, line := line, interrupts := n } = f m)
    (ready : Ready h m s k u) : f k = f m := by
  have consulted : Keeps (InvImage Eq fun p => f p.1) (consult h) := by
    intro (n, t)
    rw [leftBehind_consult]
    exact (hf n n.toCpu n.pc _ n.interrupts).symm
  exact (((keeps_poll hf h).bind fun _ => consulted).of_ok ready).symm

abbrev SameCount : Machine × σ → Machine × σ → Prop := InvImage Eq fun p => p.1.instructions

theorem keeps_count_poll (h : Host σ) : Keeps SameCount (poll h) :=
  keeps_poll (fun _ _ _ _ _ => rfl) h

theorem count_of_ready (ready : Ready h m s k u) : k.instructions = m.instructions :=
  same_of_ready (fun _ _ _ _ _ => rfl) ready

structure CountsOne (before : Nat) (stop : Option Stop) (after : Nat) : Prop where
  le : after ≤ before + 1
  waits : stop = some .blocked → after = before

theorem CountsOne.none (n : Nat) (stop : Option Stop) : CountsOne n stop n :=
  ⟨Nat.le_succ n, fun _ => rfl⟩

theorem CountsOne.one (n : Nat) (hs : stop ≠ some .blocked) : CountsOne n stop (n + 1) :=
  ⟨Nat.le_refl _, fun hb => absurd hb hs⟩

theorem Waited.countsOne (hw : Waited h m s r) :
    CountsOne m.instructions r.1 r.2.1.instructions := by
  cases hw with
  | blocked => exact .none _ _
  | woken hl hp hk =>
    subst hk
    exact .one _ fun hb => by cases hb
  | abandoned hl hp hc hk =>
    subst hk
    exact .one _ fun hb => by cases hb

theorem Finished.countsOne (hf : Finished h m s i r) :
    CountsOne m.instructions r.1 r.2.1.instructions := by
  cases hf with
  | plainly => exact .one _ fun hb => by cases hb
  | switched hi hl hk =>
    subst hk
    exact .one _ fun hb => by cases hb
  | halted hl he hk =>
    subst hk
    exact .one _ fun hb => by cases hb
  | waited hl he hr => exact hr.countsOne

theorem step_countsOne (h : Host σ) (m : Machine) (s : σ) :
    CountsOne m.instructions (m.step h s).1 (m.step h s).2.1.instructions := by
  have polled {e : EStateM.Result Stop (Machine × σ) Unit} (he : (poll h).run (m, s) = e) :
      m.instructions = (leftBehind e).1.instructions := he ▸ keeps_count_poll h (m, s)
  have hs := stepped h m s
  generalize m.step h s = r at hs ⊢
  cases hs with
  | ended hp =>
    rw [polled hp]
    exact .none _ _
  | paused hp hb =>
    rw [polled hp]
    exact .none _ _
  | unfetched ready fault =>
    rw [← count_of_ready ready]
    exact .none _ _
  | failed ready fetched fault =>
    rw [← count_of_ready ready]
    exact .none _ _
  | @ran k u i pc c ready fetched ran r hr =>
    rw [← count_of_ready ready, ← hr]
    exact (finished h { k with toCpu := c, pc := pc } (h.observe k (.fetched i) u) i).countsOne

theorem wake_countsOne (h : Host σ) (m : Machine) (s : σ) :
    CountsOne m.instructions (m.wake h s).1 (m.wake h s).2.1.instructions :=
  (waited h m s).countsOne

theorem Course.delivered_le {r : Option Stop × Machine × σ × List Happening}
    (hr : Course h m s r) : (r.2.2.2.filterMap Happening.delivered?).length ≤ 1 := by
  have none_acts (acts : List Line.Action) :
      (m.line.answers acts).filterMap Happening.delivered? = [] :=
    Happening.delivered_of_quiet fun _ he => Happening.quiet_of_mem_answers he
  have none_told (acts : List Line.Action) {e : Happening} (he : e.delivered? = none) :
      ((m.line.answers acts ++ [e]).filterMap Happening.delivered?).length ≤ 1 := by
    rw [List.filterMap_append, none_acts, List.filterMap_cons_none he]
    decide
  cases hr with
  | closed found hc => exact none_told _ rfl
  | stopped hp source hl hi => exact none_told _ rfl
  | trapped hp source fault hl hi => exact none_told _ rfl
  | @idle acts t r hp rest =>
    obtain ⟨es, he, hq, -⟩ := rest
    rw [he, List.filterMap_append, none_acts, Happening.delivered_of_quiet hq]
    decide
  | @delivered acts t irq k c r hp source entered hl hi rest =>
    obtain ⟨es, he, hq, -⟩ := rest
    rw [he, List.filterMap_append, List.filterMap_append, none_acts, Happening.delivered_of_quiet hq]
    exact Nat.le_refl 1

theorem quiet_of_mem_wakeHistory {e : Happening} (he : e ∈ m.wakeHistory h s) : e.Quiet := by
  obtain ⟨es, hes, hq, -⟩ := (allows_quietly h).wake m (s, [])
  have hh : m.wakeHistory h s = es := hes
  exact hq e (hh ▸ he)

end Machine
end TwelveBit
