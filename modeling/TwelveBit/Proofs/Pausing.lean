import TwelveBit.Proofs.Runs
import TwelveBit.Breakpoints
import TwelveBit.Profile
import TwelveBit.Proofs.Operation
/-!
Breakpoints do not change what a machine does. A pause splits a step in two: the first part takes
and delivers an interrupt, the second finds the line as the first has left it and goes on with the
instruction. Running on after every pause is running without breakpoints, with the pauses written
between.
-/
namespace TwelveBit

def Happening.event? : Happening → Option Event
  | .told e => some e
  | _ => none

namespace Breakpoints
open Machine

/-- What a run that goes on after every pause writes down where a run without pauses writes down
one happening. Nobody acts on the line in either. -/
def mark (addrs : List Nat) : Happening → List Happening
  | .asked a .proceed =>
    if a ∈ addrs then [.asked a .pause, .paused a, .asked a .proceed] else [.asked a .proceed]
  | .told e => [.told e]
  | _ => []

def marked (addrs : List Nat) (es : List Happening) : List Happening := es.flatMap (mark addrs)

theorem marked_append (addrs : List Nat) (es fs : List Happening) :
    marked addrs (es ++ fs) = marked addrs es ++ marked addrs fs := List.flatMap_append

theorem event?_marked (addrs : List Nat) (es : List Happening) :
    (marked addrs es).filterMap Happening.event? = es.filterMap Happening.event? := by
  induction es with
  | nil => rfl
  | cons e es ih =>
    have one : (mark addrs e).filterMap Happening.event? = [e].filterMap Happening.event? := by
      cases e with
      | acted | told | paused => rfl
      | asked a answer =>
        cases answer with
        | pause => rfl
        | proceed =>
          simp only [mark]
          split <;> rfl
    rw [show marked addrs (e :: es) = mark addrs e ++ marked addrs es from rfl,
      List.filterMap_append, one, ih, ← List.filterMap_append]
    rfl

theorem count_paused_mark (addrs : List Nat) (e : Happening) (a : Nat) :
    (mark addrs e).count (.paused a) =
      if a ∈ addrs then [e].count (.asked a .proceed) else 0 := by
  cases e with
  | acted | told | paused => simp [mark]
  | asked b answer =>
    cases answer with
    | pause => simp [mark]
    | proceed =>
      by_cases hb : b = a
      · subst hb
        by_cases hm : b ∈ addrs <;> simp [mark, hm]
      · by_cases hm : b ∈ addrs <;> simp [mark, hm, hb]

/-- Every breakpoint pauses the machine once for each time it goes on from there. -/
theorem count_paused_marked (addrs : List Nat) (es : List Happening) (a : Nat) :
    (marked addrs es).count (.paused a) =
      if a ∈ addrs then es.count (.asked a .proceed) else 0 := by
  induction es with
  | nil => exact (ite_self 0).symm
  | cons e es ih =>
    calc (marked addrs (e :: es)).count (.paused a)
        = (mark addrs e).count (.paused a) + (marked addrs es).count (.paused a) :=
          List.count_append
      _ = if a ∈ addrs then ([e] ++ es).count (.asked a .proceed) else 0 := by
          rw [count_paused_mark, ih, List.count_append]
          split <;> rfl

theorem count_asked_marked (addrs : List Nat) (es : List Happening) (a : Nat) :
    (marked addrs es).count (.asked a .proceed) = es.count (.asked a .proceed) := by
  induction es with
  | nil => rfl
  | cons e es ih =>
    have one : (mark addrs e).count (.asked a .proceed) = [e].count (.asked a .proceed) := by
      cases e with
      | acted | told | paused => simp [mark]
      | asked b answer =>
        cases answer with
        | pause => simp [mark]
        | proceed => by_cases hm : b ∈ addrs <;> simp [mark, hm, List.count_cons]
    calc (marked addrs (e :: es)).count (.asked a .proceed)
        = (mark addrs e).count (.asked a .proceed) +
            (marked addrs es).count (.asked a .proceed) := List.count_append
      _ = ([e] ++ es).count (.asked a .proceed) := by
          rw [one, ih, List.count_append]

section
variable (addrs : List Nat)

abbrev watching : Host ((Breakpoints × Profile) × List Happening) :=
  (host.pair Profile.host).chronicled

abbrev profiling : Host (Profile × List Happening) := Profile.host.chronicled

def view (p : Profile × List Happening) : (Breakpoints × Profile) × List Happening :=
  ((ofList addrs, p.1), marked addrs p.2)

theorem echoes : Echoes (view addrs) watching profiling where
  meanwhile a l p := by
    simp [view, Host.chronicled, Host.pair, host, Profile.host, Line.answers]
  observe m e p := Prod.ext rfl (marked_append addrs p.2 [.told e]).symm

theorem approach_watching (a : Access) (l : Line) (t : (Breakpoints × Profile) × List Happening) :
    watching.approach a l t = (l, t) := by
  simp [Host.approach, Host.chronicled, Host.pair, host, Profile.host, Line.answers, Line.performAll]

theorem approach_profiling (a : Access) (l : Line) (t : Profile × List Happening) :
    profiling.approach a l t = (l, t) := by
  simp [Host.approach, Host.chronicled, Profile.host, Line.answers, Line.performAll]

theorem consult_profiling (m : Machine) (p : Profile) (es : List Happening) :
    (consult profiling).run (m, p, es) = .ok () (m, p, es ++ [.asked m.pc .proceed]) := by
  rw [run_consult]
  simp [Host.chronicled, Profile.host, Line.answers, perform, Line.performAll]

theorem consult_watching (b : Breakpoints) (m : Machine) (p : Profile) (es : List Happening) :
    (consult watching).run (m, (b, p), es) =
      match b.arrive m.pc with
      | (.proceed, b) => .ok () (m, (b, p), es ++ [.asked m.pc .proceed])
      | (.pause, b) =>
        .error (.exit (.paused m.pc)) (m, (b, p), es ++ [.asked m.pc .pause]) := by
  rw [run_consult]
  rcases hb : b.arrive m.pc with ⟨flow, b'⟩
  cases flow <;>
    simp [Host.chronicled, Host.pair, host, Profile.host, hb, Line.answers, perform,
      Line.performAll, Flow.and]

theorem poll_again {k : Machine} (hc : k.line.closed = false) (hp : k.line.pending = none)
    (u : (Breakpoints × Profile) × List Happening) :
    (poll watching).run (k, u) = .ok () (k, u) := by
  rw [run_poll_of_open (approach_watching _ _ _) hc (approach_watching _ _ _)]
  simp only [hp]

theorem arrive_of_not_mem {addrs : List Nat} {a : Nat} (ha : a ∉ addrs) :
    (ofList addrs).arrive a = (.proceed, ofList addrs) := by
  simp [arrive, ofList, contains, ha]

theorem arrive_of_mem {addrs : List Nat} {a : Nat} (ha : a ∈ addrs) :
    (ofList addrs).arrive a = (.pause, ⟨addrs, some a⟩) := by
  simp [arrive, ofList, contains, ha]

theorem arrive_again (addrs : List Nat) (a : Nat) :
    (⟨addrs, some a⟩ : Breakpoints).arrive a = (.proceed, ofList addrs) := by
  simp [arrive, ofList]

/-- A step with breakpoints is the step without, or a pause before the rest of it. -/
theorem step_watching (m : Machine) (t : Profile × List Happening) :
    m.step watching (view addrs t) = shown (view addrs) (m.step profiling t) ∨
      ∃ (k : Machine) (u : (Breakpoints × Profile) × List Happening),
        m.step watching (view addrs t) = (some (.exit (.paused k.pc)), k, u) ∧
        k.step watching (notePause k u) = shown (view addrs) (m.step profiling t) := by
  have hpoll : (poll watching).run (m, view addrs t) =
      seen (view addrs) ((poll profiling).run (m, t)) := Mirrors.poll (echoes addrs) m t
  cases hp : (poll profiling).run (m, t) with
  | error e q =>
    rw [hp] at hpoll
    left
    rw [step_eq, step_eq, settle_of_error hpoll, settle_of_error hp]
    rfl
  | ok x q =>
    obtain ⟨k, p, es⟩ := q
    rw [hp] at hpoll
    obtain ⟨hc, hnone⟩ := line_of_poll (fun a l s => by rw [approach_profiling]) hp
    have hplain : m.step profiling t =
        settle (carryOut profiling) k (p, es ++ [.asked k.pc .proceed]) := by
      rw [step_eq, settle_of_ok hp, settle_of_ok (consult_profiling k p es)]
    have hrest : settle (carryOut watching) k (view addrs (p, es ++ [.asked k.pc .proceed])) =
        shown (view addrs) (m.step profiling t) := by
      rw [hplain]
      exact (Mirrors.carryOut (echoes addrs)).settle k _
    by_cases ha : k.pc ∈ addrs
    · have hasked : view addrs (p, es ++ [.asked k.pc .proceed]) = ((ofList addrs, p),
          marked addrs es ++ [.asked k.pc .pause, .paused k.pc, .asked k.pc .proceed]) := by
        simp [view, marked, mark, ha]
      have hpause := consult_watching (ofList addrs) k p (marked addrs es)
      have hpass := consult_watching ⟨addrs, some k.pc⟩ k p
        (marked addrs es ++ [.asked k.pc .pause, .paused k.pc])
      rw [arrive_of_mem ha] at hpause
      rw [arrive_again] at hpass
      -- the poll after the pause finds the line open and empty, so only the question is put again
      refine Or.inr ⟨k, ((⟨addrs, some k.pc⟩, p), marked addrs es ++ [.asked k.pc .pause]), ?_, ?_⟩
      · rw [step_eq, settle_of_ok hpoll]
        exact settle_of_error hpause
      · rw [← hrest, hasked, step_eq, settle_of_ok (poll_again hc hnone _)]
        simp only [notePause, List.append_assoc, List.cons_append, List.nil_append] at hpass ⊢
        exact settle_of_ok hpass
    · have hasked : view addrs (p, es ++ [.asked k.pc .proceed]) =
          ((ofList addrs, p), marked addrs es ++ [.asked k.pc .proceed]) := by
        simp [view, marked, mark, ha]
      have hpass := consult_watching (ofList addrs) k p (marked addrs es)
      rw [arrive_of_not_mem ha] at hpass
      left
      rw [← hrest, hasked, step_eq, settle_of_ok hpoll]
      exact settle_of_ok hpass

/-- Running on after every pause gets as far as running without breakpoints. -/
theorem runOn_watching (n : Nat) (m : Machine) (t : Profile × List Happening) :
    ∃ k, n ≤ k ∧ runOn watching notePause k m (view addrs t) =
      shown (view addrs) (run profiling n m t) := by
  induction n generalizing m t with
  | zero => exact ⟨0, Nat.le_refl 0, rfl⟩
  | succ n ih =>
    -- the part of the step that carries the instruction out, with or without a pause before it
    have go {k : Machine} {u : (Breakpoints × Profile) × List Happening}
        (hs : k.step watching u = shown (view addrs) (m.step profiling t)) :
        ∃ j, n + 1 ≤ j ∧ runOn watching notePause j k u =
          shown (view addrs) (run profiling (n + 1) m t) := by
      rcases hr : m.step profiling t with ⟨stop, m', t'⟩
      rw [hr] at hs
      cases stop with
      | none =>
        obtain ⟨j, hle, hj⟩ := ih m' t'
        refine ⟨j + 1, Nat.succ_le_succ hle, ?_⟩
        simp only [runOn, run, hs, hr, shown]
        exact hj
      | some stop =>
        refine ⟨n + 1, Nat.le_refl _, ?_⟩
        simp only [runOn, run, hs, hr, shown]
        cases stop with
        | trap | blocked => rfl
        | exit e =>
          cases e with
          | paused pc =>
            obtain ⟨-, k', u', hb⟩ := step_paused hr
            cases hb
          | halted | stopped => rfl
    rcases step_watching addrs m t with hs | ⟨k, u, hpause, hs⟩
    · exact go hs
    · obtain ⟨j, hle, hj⟩ := go hs
      refine ⟨j + 1, by omega, ?_⟩
      simp only [runOn, hpause]
      exact hj

/-- What a run that goes on after every pause has written down stays at the front of what the run
without breakpoints has. -/
theorem events_runOn_watching (n : Nat) (m : Machine) (t : Profile × List Happening) :
    (runOn watching notePause n m (view addrs t)).2.2.2.filterMap Happening.event? <+:
      (run profiling n m t).2.2.2.filterMap Happening.event? := by
  obtain ⟨k, hle, hk⟩ := runOn_watching addrs n m t
  have hgrow := runOn_grows (host.pair Profile.host) hle m (view addrs t)
  rw [hk] at hgrow
  rw [← event?_marked addrs (run profiling n m t).2.2.2]
  exact hgrow.filterMap Happening.event?

theorem runOn_watching_of_ended {n : Nat} {m : Machine} {t : Profile × List Happening} {stop : Stop}
    (he : (runOn watching notePause n m (view addrs t)).1 = some stop) :
    runOn watching notePause n m (view addrs t) =
      shown (view addrs) (run profiling n m t) := by
  obtain ⟨k, hle, hk⟩ := runOn_watching addrs n m t
  rw [← hk, runOn_of_ended he hle]

end

theorem follows_idle :
    Follows (fun t : Profile × List Happening => ((), t.2)) Host.idle.chronicled profiling where
  meanwhile _ _ _ := rfl
  observe _ _ _ := rfl
  beforeFetch _ _ := rfl

/-- A plain run is a run with a profile that nobody looks at. -/
theorem run_idle (n : Nat) (m : Machine) :
    m.run Host.idle n () = shown (fun _ => ()) (run profiling n m ({}, [])) := by
  rw [run_eq_chronicled Host.idle n m () [], follows_idle.run n m ({}, [])]
  rfl

theorem runHistory_idle (n : Nat) (m : Machine) :
    m.runHistory Host.idle n () = (run profiling n m ({}, [])).2.2.2 :=
  congrArg (fun r => r.2.2.2) (follows_idle.run n m ({}, []))

end Breakpoints

open Breakpoints Machine in
/-- Going on after every pause is running without breakpoints. -/
theorem breakpoints_do_not_change_execution (addrs : List Nat) (m : Machine) :
    let hosts := Breakpoints.host.pair Profile.host
    let loop (n : Nat) := m.runOn hosts (fun _ s => s) n (.ofList addrs, {})
    let loopHistory (n : Nat) := m.runOnHistory hosts n (.ofList addrs, {})
    let plain (n : Nat) := m.run Host.idle n ()
    let plainHistory (n : Nat) := m.runHistory Host.idle n ()
    (∀ n, ∃ k, n ≤ k ∧ (loop k).1 = (plain n).1 ∧ (loop k).2.1 = (plain n).2.1 ∧
      (loopHistory k).filterMap Happening.event? =
        (plainHistory n).filterMap Happening.event?) ∧
    (∀ n, (loopHistory n).filterMap Happening.event? <+:
      (plainHistory n).filterMap Happening.event?) ∧
    (∀ stop, (∃ n, (loop n).1 = some stop) ↔ ∃ n, (plain n).1 = some stop) ∧
    (∀ (k : Machine) s a k' s', k.step hosts s = (some (.exit (.paused a)), k', s') → a = k'.pc) ∧
    ∀ n n' stop, (loop n).1 = some stop → (plain n').1 = some stop →
      m.run Profile.host n' {} = (some stop, (loop n).2.1, (loop n).2.2.2) ∧
      (loop n).2.1 = (plain n').2.1 ∧
      (loopHistory n).filterMap Happening.event? =
        (plainHistory n').filterMap Happening.event? ∧
      ∀ a, (loopHistory n).count (.asked a .proceed) = (plainHistory n').count (.asked a .proceed) ∧
        (loopHistory n).count (.paused a) =
          if a ∈ addrs then (plainHistory n').count (.asked a .proceed) else 0 := by
  intro hosts loop loopHistory plain plainHistory
  have hloop (n : Nat) :
      loop n = shown Prod.fst (runOn watching notePause n m (view addrs ({}, []))) :=
    runOn_eq_chronicled hosts n m _ []
  have hplain (n : Nat) : plain n = shown (fun _ => ()) (run profiling n m ({}, [])) := run_idle n m
  have hhistory (n : Nat) : plainHistory n = (run profiling n m ({}, [])).2.2.2 :=
    runHistory_idle n m
  -- once the loop has ended, it shows the plain run of as many steps
  have hends {n : Nat} {stop : Stop} (he : (loop n).1 = some stop) :
      runOn watching notePause n m (view addrs ({}, [])) =
        shown (view addrs) (run profiling n m ({}, [])) := by
    rw [hloop] at he
    exact runOn_watching_of_ended addrs he
  refine ⟨fun n => ?_, fun n => ?_, fun stop => ⟨?_, ?_⟩,
    fun k s a k' s' hs => (step_paused hs).1, fun n n' stop hn hn' => ?_⟩
  · obtain ⟨k, hle, hk⟩ := runOn_watching addrs n m ({}, [])
    refine ⟨k, hle, ?_, ?_, ?_⟩
    · rw [hloop, hplain, hk]
      rfl
    · rw [hloop, hplain, hk]
      rfl
    · have hh : loopHistory k = marked addrs (plainHistory n) := by
        rw [hhistory]
        exact congrArg (fun r => r.2.2.2) hk
      rw [hh, event?_marked]
  · rw [hhistory]
    exact events_runOn_watching addrs n m ({}, [])
  · rintro ⟨n, hn⟩
    refine ⟨n, ?_⟩
    rw [hplain, ← hn, hloop, hends hn]
    rfl
  · rintro ⟨n, hn⟩
    obtain ⟨k, -, hk⟩ := runOn_watching addrs n m ({}, [])
    refine ⟨k, ?_⟩
    rw [hloop, ← hn, hplain, hk]
    rfl
  · have hwatched := hends hn
    have hend : (run profiling n m ({}, [])).1 = some stop := by
      rw [← hn, hloop, hwatched]
      rfl
    have hend' : (run profiling n' m ({}, [])).1 = some stop := by
      rw [← hn', hplain]
      rfl
    rw [run_unique hend hend'] at hwatched
    have hl : loop n = shown (fun t => (ofList addrs, t.1)) (run profiling n' m ({}, [])) := by
      rw [hloop, hwatched]
      rfl
    have hh : loopHistory n = marked addrs (plainHistory n') := by
      rw [hhistory]
      exact congrArg (fun r => r.2.2.2) hwatched
    have hp : m.run Profile.host n' {} = shown Prod.fst (run profiling n' m ({}, [])) :=
      run_eq_chronicled Profile.host n' m {} []
    refine ⟨?_, ?_, ?_, fun a => ⟨?_, ?_⟩⟩
    · rw [hp, hl, ← hend']
      rfl
    · rw [hl, hplain]
      rfl
    · rw [hh, event?_marked]
    · rw [hh, count_asked_marked]
    · rw [hh, count_paused_marked]

/-- The machine stands on a breakpoint when it halts, and has paused there once. -/
theorem halt_at_breakpoint :
    let m := Operation.applyAll [.loadRom 0 [0, 1], .reset 16] (.new ⟨16, 0, 0, 16, by decide⟩)
    (m.runOn (Breakpoints.host.pair Profile.host) (fun _ s => s) 3 (.ofList [17], {})).1 =
        some (.exit .halted) ∧
      (m.run Host.idle 2 ()).1 = some (.exit .halted) ∧
      (m.runOn (Breakpoints.host.pair Profile.host) (fun _ s => s) 3 (.ofList [17], {})).2.1 =
        (m.run Host.idle 2 ()).2.1 ∧
      (m.runOnHistory (Breakpoints.host.pair Profile.host) 3 (.ofList [17], {})).count
        (.paused 17) = 1 := by
  intro m
  have hloop : (m.runOn (Breakpoints.host.pair Profile.host) (fun _ s => s) 3
      (.ofList [17], {})).1 = some (.exit .halted) := by decide +kernel
  have hplain : (m.run Host.idle 2 ()).1 = some (.exit .halted) := by decide +kernel
  have hasked : (m.runHistory Host.idle 2 ()).count (.asked 17 .proceed) = 1 := by decide +kernel
  obtain ⟨-, -, -, -, hend⟩ := breakpoints_do_not_change_execution [17] m
  dsimp only at hend
  obtain ⟨-, hsame, -, hcount⟩ := hend 3 2 _ hloop hplain
  refine ⟨hloop, hplain, hsame, ?_⟩
  rw [(hcount 17).2, if_pos (List.mem_singleton.mpr rfl), hasked]

end TwelveBit
