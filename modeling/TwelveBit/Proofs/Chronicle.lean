import TwelveBit.Proofs.Mirror
/-!
Chronicles. What hosts do to the line, what they are asked and what a machine tells them is written
down in the order in which it happens. A host can keep such a chronicle beside what it knows, and
nothing else changes.
-/
namespace TwelveBit

inductive Happening where
  | acted (act : Line.Action) (reply : Option Bool)
  | asked (pc : Nat) (answer : Flow)
  | told (e : Event)
  | paused (pc : Nat)
  deriving DecidableEq, Repr

def Line.answers (l : Line) : List Line.Action → List Happening
  | [] => []
  | a :: as => .acted a (l.reply? a) :: (l.perform a).answers as

theorem Line.acted_of_mem_answers {l : Line} {acts : List Line.Action} {e : Happening}
    (he : e ∈ l.answers acts) : ∃ a ∈ acts, ∃ reply, e = .acted a reply := by
  induction acts generalizing l with
  | nil => cases he
  | cons a acts ih =>
    cases he with
    | head => exact ⟨a, List.mem_cons_self, _, rfl⟩
    | tail _ he =>
      obtain ⟨b, hb, reply, rfl⟩ := ih he
      exact ⟨b, List.mem_cons_of_mem a hb, reply, rfl⟩

variable {σ : Type}

def Host.chronicled (h : Host σ) : Host (σ × List Happening) where
  meanwhile a l := fun (s, es) =>
    let (acts, s) := h.meanwhile a l s
    (acts, s, es ++ l.answers acts)
  beforeFetch m := fun (s, es) =>
    let (flow, acts, s) := h.beforeFetch m s
    (flow, acts, s, es ++ m.line.answers acts ++ [.asked m.pc flow])
  observe m e := fun (s, es) => (h.observe m e s, es ++ [.told e])

def Machine.notePause (m : Machine) : σ × List Happening → σ × List Happening :=
  fun (s, es) => (s, es ++ [.paused m.pc])

def Machine.stepHistory (h : Host σ) (m : Machine) (s : σ) : List Happening :=
  (m.step h.chronicled (s, [])).2.2.2

def Machine.wakeHistory (h : Host σ) (m : Machine) (s : σ) : List Happening :=
  (m.wake h.chronicled (s, [])).2.2.2

def Machine.runHistory (h : Host σ) (n : Nat) (m : Machine) (s : σ) : List Happening :=
  (m.run h.chronicled n (s, [])).2.2.2

def Machine.runOnHistory (h : Host σ) (n : Nat) (m : Machine) (s : σ) : List Happening :=
  (m.runOn h.chronicled Machine.notePause n (s, [])).2.2.2

namespace Machine

theorem follows_chronicled (h : Host σ) : Follows Prod.fst h h.chronicled where
  meanwhile _ _ _ := rfl
  observe _ _ _ := rfl
  beforeFetch _ _ := rfl

theorem observe_chronicled (h : Host σ) (m : Machine) (e : Event) (p : σ × List Happening) :
    h.chronicled.observe m e p = (h.observe m e p.1, p.2 ++ [.told e]) := rfl

theorem approach_chronicled (h : Host σ) (a : Access) (l : Line) (s : σ) (es : List Happening) :
    ∃ acts t, h.approach a l s = (l.performAll acts, t) ∧
      h.chronicled.approach a l (s, es) = (l.performAll acts, t, es ++ l.answers acts) :=
  ⟨_, _, rfl, rfl⟩

theorem step_chronicled (h : Host σ) (m : Machine) (s : σ) (es : List Happening) :
    m.step h s = shown Prod.fst (m.step h.chronicled (s, es)) :=
  (follows_chronicled h).step m (s, es)

theorem wake_chronicled (h : Host σ) (m : Machine) (s : σ) (es : List Happening) :
    m.wake h s = shown Prod.fst (m.wake h.chronicled (s, es)) :=
  (follows_chronicled h).wake m (s, es)

theorem run_eq_chronicled (h : Host σ) (n : Nat) (m : Machine) (s : σ) (es : List Happening) :
    run h n m s = shown Prod.fst (run h.chronicled n m (s, es)) :=
  (follows_chronicled h).run n m (s, es)

theorem runOn_eq_chronicled (h : Host σ) (n : Nat) (m : Machine) (s : σ) (es : List Happening) :
    runOn h (fun _ s => s) n m s = shown Prod.fst (runOn h.chronicled notePause n m (s, es)) :=
  (follows_chronicled h).runOn (fun _ _ => rfl) n m (s, es)

def behind (front : List Happening) (p : σ × List Happening) : σ × List Happening := (p.1, front ++ p.2)

theorem follows_behind (h : Host σ) (front : List Happening) :
    Follows (behind front) h.chronicled h.chronicled where
  meanwhile a l p := by simp [Host.chronicled, behind, List.append_assoc]
  observe m e p := by simp [Host.chronicled, behind, List.append_assoc]
  beforeFetch m p := by simp [Host.chronicled, behind, List.append_assoc]

theorem notePause_behind (front : List Happening) (m : Machine) (p : σ × List Happening) :
    notePause m (behind front p) = behind front (notePause m p) := by
  simp [notePause, behind, List.append_assoc]

theorem runOn_chronicled (h : Host σ) (n : Nat) (m : Machine) (s : σ) (es : List Happening) :
    runOn h.chronicled notePause n m (s, es) =
      shown (behind es) (runOn h.chronicled notePause n m (s, [])) := by
  have hr := (follows_behind h es).runOn (notePause_behind es) n m (s, [])
  simpa [behind] using hr

/-- In a run everything that happens in the first step comes before the rest. -/
theorem runHistory_succ (h : Host σ) (n : Nat) (m : Machine) (s : σ) :
    m.runHistory h (n + 1) s =
      m.stepHistory h s ++
        match m.step h s with
        | (none, k, u) => k.runHistory h n u
        | (some _, _, _) => [] := by
  rw [step_chronicled h m s [], stepHistory]
  simp only [runHistory, run]
  rcases m.step h.chronicled (s, []) with ⟨stop, k, u, es⟩
  cases stop with
  | some stop => exact (List.append_nil es).symm
  | none =>
    have hr := (follows_behind h es).run n k (u, [])
    simp only [behind, List.append_nil] at hr
    exact congrArg (fun r => r.2.2.2) hr

/-- A chronicle beside a chronicle tells the same. -/
theorem runHistory_chronicled (h : Host σ) (n : Nat) (m : Machine) (s : σ) (es : List Happening) :
    m.runHistory h.chronicled n (s, es) = m.runHistory h n s := by
  have second : Follows (fun p : (σ × List Happening) × List Happening => (p.1.1, p.2))
      h.chronicled h.chronicled.chronicled :=
    { meanwhile := fun _ _ _ => rfl, observe := fun _ _ _ => rfl, beforeFetch := fun _ _ => rfl }
  have hr := second.run n m ((s, es), [])
  exact congrArg (fun r => r.2.2.2) hr.symm

end Machine
end TwelveBit
