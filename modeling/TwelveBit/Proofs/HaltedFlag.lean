import TwelveBit.Proofs.Accounting
/-!
The halted flag. An instruction other than `hlt` leaves the flag alone, so what it shows is how the
last `hlt` has ended, and not whether the machine has gone on since: it is set if that `hlt` has
ended a run, and not if it has been woken.
-/
namespace TwelveBit

namespace Machine
variable {σ : Type} {h : Host σ} {m m' k : Machine} {s u : σ} {es : List Happening}
  {stop : Option Stop} {i : Instruction}

def Flags (m : Machine) (is : List Instruction) (stop : Option Stop) (m' : Machine) : Prop :=
  if .system .halt ∈ is then (m'.halted = true ↔ stop = some (.exit .halted))
  else m'.halted = m.halted

theorem Flags.of_unexecuted (hn : ∀ i, .told (.executed i) ∉ es) (hf : m'.halted = m.halted) :
    Flags m (es.filterMap Happening.executed?) stop m' := by
  rw [Flags, if_neg]
  · exact hf
  · exact fun hi => hn _ (Happening.mem_executed.1 hi)

theorem Flags.of_other (he : es.filterMap Happening.executed? = [i]) (hi : i ≠ .system .halt)
    (hf : m'.halted = m.halted) : Flags m (es.filterMap Happening.executed?) stop m' := by
  rw [he, Flags, if_neg]
  · exact hf
  · exact fun hm => hi (List.mem_singleton.1 hm).symm

theorem Flags.of_halt (he : .told (.executed (.system .halt)) ∈ es)
    (hf : m'.halted = true ↔ stop = some (.exit .halted)) :
    Flags m (es.filterMap Happening.executed?) stop m' := by
  rw [Flags, if_pos]
  · exact hf
  · exact Happening.mem_executed.2 he

/-- A `hlt` that was waiting and does so no longer clears the flag, and its run does not end
halted. -/
theorem Waited.clears {p : σ × List Happening} {r : Option Stop × Machine × σ × List Happening}
    (hw : Waited h.chronicled m p r) (returned : r.1 ≠ some .blocked) :
    .told (.executed (.system .halt)) ∈ r.2.2.2 ∧ r.2.1.halted = false ∧
      r.1 ≠ some (.exit .halted) := by
  cases hw with
  | blocked => exact absurd rfl returned
  | woken hl hp hk =>
    subst hk
    exact ⟨List.mem_append_right _ (List.mem_singleton_self _), rfl, fun hh => by cases hh⟩
  | abandoned hl hp hc hk =>
    subst hk
    exact ⟨List.mem_append_right _ (List.mem_singleton_self _), rfl, fun hh => by cases hh⟩

theorem Waited.flags {p : σ × List Happening} {r : Option Stop × Machine × σ × List Happening}
    (hw : Waited h.chronicled m p r) (returned : r.1 ≠ some .blocked) (n : Machine) :
    Flags n (r.2.2.2.filterMap Happening.executed?) r.1 r.2.1 := by
  obtain ⟨he, hf, hs⟩ := hw.clears returned
  exact .of_halt he ⟨fun ht => absurd (hf ▸ ht) Bool.false_ne_true, fun hh => absurd hh hs⟩

/-- One instruction has been executed, and it is this one. -/
theorem executed_of_mem (le : (es.filterMap Happening.executed?).length ≤ 1)
    (he : .told (.executed i) ∈ es) : es.filterMap Happening.executed? = [i] := by
  have hi := Happening.mem_executed.2 he
  generalize es.filterMap Happening.executed? = is at le hi ⊢
  rcases is with _ | ⟨j, _ | ⟨j', is⟩⟩
  · cases hi
  · rw [List.mem_singleton.1 hi]
  · simp at le

theorem Finished.flags {p : σ × List Happening} {r : Option Stop × Machine × σ × List Happening}
    (hf : Finished h.chronicled m p i r) (returned : r.1 ≠ some .blocked)
    (le : (r.2.2.2.filterMap Happening.executed?).length ≤ 1) :
    Flags m (r.2.2.2.filterMap Happening.executed?) r.1 r.2.1 := by
  have told {es : List Happening} {i : Instruction} :
      .told (.executed i) ∈ es ++ [.told (.executed i)] :=
    List.mem_append_right _ (List.mem_singleton_self _)
  cases hf with
  | plainly hi hne => exact .of_other (executed_of_mem le told) hne rfl
  | switched hi hl hk =>
    subst hk
    exact .of_other (executed_of_mem le told) (fun hh => by rw [hh] at hi; cases hi) rfl
  | halted hl he hk =>
    subst hk
    exact .of_halt told (iff_of_true rfl rfl)
  | waited hl he hr => exact hr.flags returned m

theorem step_flags (returned : (m.step h s).1 ≠ some .blocked) :
    Flags m ((m.stepHistory h s).filterMap Happening.executed?) (m.step h s).1
      (m.step h s).2.1 := by
  have le := (Underway.begun (h := h) (m := m) (s := s)).executed_le
  have uncounted := (attests_tallied h).step m s |>.unexecuted
  have same {n : Machine} {p : σ × List Happening}
      (ready : Ready h.chronicled m (s, []) n p) : n.halted = m.halted :=
    same_of_ready (fun _ _ _ _ _ => rfl) ready
  rw [step_chronicled h m s []] at returned uncounted ⊢
  have hs := stepped h.chronicled m (s, [])
  unfold stepHistory at le uncounted ⊢
  generalize m.step h.chronicled (s, []) = r at hs le returned uncounted ⊢
  cases hs with
  -- only the end of an instruction touches the flag, so up to there it is the old one
  | ended hp =>
    refine .of_unexecuted (uncounted ((keeps_count_poll h.chronicled).fails _ _ _ hp).symm) ?_
    exact ((keeps_poll (f := Machine.halted) (fun _ _ _ _ _ => rfl) _).fails _ _ _ hp).symm
  | paused hp hb =>
    refine .of_unexecuted (uncounted ((keeps_count_poll h.chronicled).of_ok hp).symm) ?_
    exact ((keeps_poll (f := Machine.halted) (fun _ _ _ _ _ => rfl) _).of_ok hp).symm
  | unfetched ready fault => exact .of_unexecuted (uncounted (count_of_ready ready)) (same ready)
  | @failed n q i f c ready fetched fault =>
    have count : n.instructions = m.instructions := count_of_ready ready
    have flag : n.halted = m.halted := same ready
    exact .of_unexecuted (uncounted count) flag
  | @ran n q i pc c ready fetched ran r hr =>
    have hf := finished h.chronicled { n with toCpu := c, pc := pc }
      (h.chronicled.observe n (.fetched i) q) i
    rw [hr] at hf
    have flags := hf.flags returned le
    unfold Flags at flags ⊢
    rw [← same ready]
    exact flags

/-- However often a step is left waiting, the flag tells how it has ended. -/
theorem Underway.flags (hu : Underway h m s es stop m') (returned : stop ≠ some .blocked) :
    Flags m (es.filterMap Happening.executed?) stop m' := by
  cases hu with
  | begun => exact step_flags returned
  | @woken τ es k g t waits =>
    have hw := waited g.chronicled k (t, [])
    rw [wake_chronicled g k t []] at returned ⊢
    have flags := hw.flags returned m
    have uncounted : k.instructions = m.instructions := waits.countsOne.waits rfl
    have unexecuted : es.filterMap Happening.executed? = [] :=
      List.eq_nil_iff_forall_not_mem.2 fun i hi =>
        waits.tallied.unexecuted uncounted i (Happening.mem_executed.1 hi)
    rw [List.filterMap_append, unexecuted]
    exact flags

structure Stride where
  executed : List Instruction
  stop : Option Stop
  deriving DecidableEq, Repr

/-- Steps are taken one after the other, whatever each of them comes to, and other things may be done
to the machine in between. A step that is left waiting is woken before the next one. -/
inductive Driven (m : Machine) : List Stride → Machine → Prop
  | start : Driven m [] m
  | step {σ : Type} {rs : List Stride} {k k' : Machine} {es : List Happening} {stop : Option Stop}
      (before : Driven m rs k) (h : Host σ) (s : σ) (underway : Underway h k s es stop k')
      (returned : stop ≠ some .blocked) :
      Driven m (rs ++ [⟨es.filterMap Happening.executed?, stop⟩]) k'
  | between {rs : List Stride} {k : Machine} (before : Driven m rs k) (op : Operation)
      (hop : op.Between) : Driven m rs (op.apply k)

def lastExecuting? (rs : List Stride) : Option Stride := rs.reverse.find? (·.executed ≠ [])

def lastHalting? (rs : List Stride) : Option Stride :=
  rs.reverse.find? (.system .halt ∈ ·.executed)

/-- A run that is not left waiting drives the machine on. -/
theorem Driven.run {n : Nat} {rs : List Stride} (before : Driven m rs k)
    (returned : (k.run h n u).1 ≠ some .blocked) :
    ∃ more, Driven m (rs ++ more) (k.run h n u).2.1 := by
  induction n generalizing rs k u with
  | zero => exact ⟨[], (List.append_nil rs).symm ▸ before⟩
  | succ n ih =>
    have first := before.step h u .begun
    rw [Machine.run] at returned ⊢
    rcases hr : k.step h u with ⟨stop', k', u'⟩
    rw [hr] at first returned
    cases stop' with
    | some e => exact ⟨_, first returned⟩
    | none =>
      obtain ⟨more, rest⟩ := ih (first fun hb => by cases hb) returned
      exact ⟨_ :: more, List.append_assoc rs _ _ ▸ rest⟩

def HaltedLast (rs : List Stride) : Prop :=
  ∃ r, lastHalting? rs = some r ∧ r.stop = some (.exit .halted)

theorem haltedLast_snoc (rs : List Stride) (r : Stride) :
    HaltedLast (rs ++ [r]) ↔
      if .system .halt ∈ r.executed then r.stop = some (.exit .halted) else HaltedLast rs := by
  simp only [HaltedLast, lastHalting?, List.reverse_append, List.reverse_singleton,
    List.singleton_append, List.find?_cons]
  by_cases hm : .system .halt ∈ r.executed <;> simp [hm]

theorem Driven.halted_iff {entry : Nat} {rs : List Stride} (d : Driven (m.reset entry) rs k) :
    k.halted = true ↔ HaltedLast rs := by
  induction d with
  | start =>
    refine iff_of_false (fun hh => by cases hh) ?_
    rintro ⟨r, hr, -⟩
    cases hr
  | @step σ rs k k' es stop before h s underway returned ih =>
    have flags := underway.flags returned
    rw [haltedLast_snoc]
    unfold Flags at flags
    split at flags
    · next hm => rw [if_pos hm, flags]
    · next hm => rw [if_neg hm, flags, ih]
  | between before op hop ih =>
    obtain ⟨memory, line, happ⟩ := apply_between hop _
    rw [happ]
    exact ih

theorem lastHalting_of_lastExecuting {rs : List Stride} {r : Stride}
    (hr : lastExecuting? rs = some r) (hm : .system .halt ∈ r.executed) :
    lastHalting? rs = some r := by
  unfold lastExecuting? at hr
  unfold lastHalting?
  obtain ⟨-, pre, post, hrs, hpre⟩ := List.find?_eq_some_iff_append.1 hr
  refine List.find?_eq_some_iff_append.2 ⟨by simpa using hm, pre, post, hrs, fun x hx => ?_⟩
  have idle : x.executed = [] := by simpa using hpre x hx
  simp [idle]

def HaltedLately (rs : List Stride) : Prop :=
  ∃ r, lastExecuting? rs = some r ∧ r.executed = [.system .halt] ∧ r.stop = some (.exit .halted)

theorem HaltedLately.last {rs : List Stride} (hr : HaltedLately rs) : HaltedLast rs := by
  obtain ⟨r, last, executed, stop⟩ := hr
  refine ⟨r, lastHalting_of_lastExecuting last ?_, stop⟩
  rw [executed]
  exact List.mem_singleton_self _

end Machine

/-- However a machine is driven on after a reset, with steps that may end in any way, waits, and other
things done to it in between: the flag is set exactly if the last `hlt` that was executed has ended a
run. So it is set where a run has just been ended by a `hlt`; and it stays as it is while other
instructions are executed after that. -/
theorem flag_tells_of_last_halt {m k : Machine} {entry : Nat} {rs : List Machine.Stride}
    (driven : Machine.Driven (m.reset entry) rs k) :
    (k.halted = true ↔ Machine.HaltedLast rs) ∧ (Machine.HaltedLately rs → k.halted = true) ∧
      ∀ {σ : Type} (h : Host σ) (s : σ) (es : List Happening) (stop : Option Stop) (k' : Machine),
        Machine.Underway h k s es stop k' → stop ≠ some .blocked →
        .told (.executed (.system .halt)) ∉ es → k'.halted = k.halted := by
  refine ⟨driven.halted_iff, fun lately => driven.halted_iff.2 lately.last, ?_⟩
  intro σ h s es stop k' underway returned other
  have flags := underway.flags returned
  rwa [Machine.Flags, if_neg fun hm => other (Happening.mem_executed.1 hm)] at flags

/-- The first `hlt` ends a run. The second one waits, because requests have been enabled from outside,
and a key wakes it. -/
theorem woken_halt_clears_flag :
    let m := Operation.applyAll [.loadRom 0 [1, 1]] (.new ⟨16, 0, 0, 16, by decide⟩)
    let k := ((m.reset 16).step Host.idle ()).2.1
    let n := ((k.perform [.setEnabled true]).step Host.idle ()).2.1
    let h : Host Unit := { meanwhile := fun _ _ s => ([.request (.key 65 true)], s) }
    let rs : List Machine.Stride :=
      [⟨[.system .halt], some (.exit .halted)⟩, ⟨[.system .halt], none⟩]
    Machine.Driven (m.reset 16) rs (n.wake h ()).2.1 ∧ k.halted = true ∧ n.halted = true ∧
      ((n.wake h ()).2.1.halted = true ↔ Machine.HaltedLast rs) ∧ ¬ Machine.HaltedLast rs := by
  intro m k n h rs
  have halts : ((m.reset 16).step Host.idle ()).1 = some (.exit .halted) := by decide +kernel
  have executes : ((m.reset 16).stepHistory Host.idle ()).filterMap Happening.executed? =
      [.system .halt] := by decide +kernel
  have waits : ((k.perform [.setEnabled true]).step Host.idle ()).1 = some .blocked := by
    decide +kernel
  have wakes : (n.wake h ()).1 = none := by decide +kernel
  have executes' : ((k.perform [.setEnabled true]).stepHistory Host.idle () ++
      n.wakeHistory h ()).filterMap Happening.executed? = [.system .halt] := by decide +kernel
  have first := Machine.Driven.start.step Host.idle () (.begun (m := m.reset 16))
    (fun hb => by rw [halts] at hb; cases hb)
  rw [halts, executes] at first
  have left := Machine.Underway.begun (h := Host.idle) (m := k.perform [.setEnabled true]) (s := ())
  rw [waits] at left
  have second := (first.between (.act (.setEnabled true)) trivial).step Host.idle ()
    (.woken h () left) (fun hb => by rw [wakes] at hb; cases hb)
  rw [wakes, executes'] at second
  have driven : Machine.Driven (m.reset 16) rs (n.wake h ()).2.1 := by
    unfold rs n
    exact second
  obtain ⟨told, -, -⟩ := flag_tells_of_last_halt driven
  refine ⟨driven, by decide +kernel, by decide +kernel, told, ?_⟩
  rintro ⟨r, hr, hs⟩
  cases hr
  cases hs

/-- The flag is still set after a `nop` that was executed after the `hlt`. -/
theorem flag_stays_while_running :
    let m := Operation.applyAll [.loadRom 0 [1, 0]] (.new ⟨16, 0, 0, 16, by decide⟩)
    let k := ((m.reset 16).step Host.idle ()).2.1
    let n := (k.step Host.idle ()).2.1
    let rs : List Machine.Stride :=
      [⟨[.system .halt], some (.exit .halted)⟩, ⟨[.system .nop], none⟩]
    Machine.Driven (m.reset 16) rs n ∧ Machine.lastExecuting? rs = some ⟨[.system .nop], none⟩ ∧
      n.halted = true ∧ ¬ (n.halted = true ↔ Machine.HaltedLately rs) := by
  intro m k n rs
  have halts : ((m.reset 16).step Host.idle ()).1 = some (.exit .halted) := by decide +kernel
  have executes : ((m.reset 16).stepHistory Host.idle ()).filterMap Happening.executed? =
      [.system .halt] := by decide +kernel
  have goes_on : (k.step Host.idle ()).1 = none := by decide +kernel
  have executes' : (k.stepHistory Host.idle ()).filterMap Happening.executed? =
      [.system .nop] := by decide +kernel
  have flag : n.halted = true := by decide +kernel
  have first := Machine.Driven.start.step Host.idle () (.begun (m := m.reset 16))
    (fun hb => by rw [halts] at hb; cases hb)
  rw [halts, executes] at first
  have second := first.step Host.idle () (.begun (m := k))
    (fun hb => by rw [goes_on] at hb; cases hb)
  rw [goes_on, executes'] at second
  refine ⟨second, rfl, flag, fun hh => ?_⟩
  obtain ⟨r, hr, hs, -⟩ := hh.1 flag
  cases hr
  cases hs

end TwelveBit
