import OsI386.Program
import OsI386.TransitionSystem

/-!
# A machine that follows another

Programs that act on a part of the state only, the machine whose events are programs, and
simulations: where the abstract machine takes a step, the concrete one ends the same event in a
state that represents the new one.
-/
namespace OsI386

/-- A component of a state. -/
structure Part (σ τ : Type) where
  get : σ → τ
  put : τ → σ → σ
  get_put : ∀ t s, get (put t s) = t
  put_get : ∀ s, put (get s) s = s
  put_put : ∀ t u s, put t (put u s) = put t s

namespace Prog

variable {σ τ l ε ε' α β : Type}

/-- The program on the part, with its faults under other names. -/
def onPart (v : Part σ τ) (fault : ε → ε') : Prog τ l ε α → Prog σ l ε' α
  | .ret a => .ret a
  | .act f next =>
    .act (fun s => (f (v.get s)).map fun t => v.put t s) fun s => (next (v.get s)).onPart v fault
  | .emit label next => .emit label (next.onPart v fault)
  | .stop e => .stop (fault e)

variable {v : Part σ τ} {fault : ε → ε'} {p : Prog τ l ε α} {s : σ} {t : τ} {tr : List l} {a : α}

/-- The rest of the state is as before. -/
lemma run_onPart (p : Prog τ l ε α) (s : σ) : (p.onPart v fault).run s =
    { trace := (p.run (v.get s)).trace
      state := v.put (p.run (v.get s)).state s
      outcome := match (p.run (v.get s)).outcome with
        | .done a => .done a
        | .stopped e => .stopped (fault e)
        | .blocked => .blocked } := by
  induction p generalizing s with
  | ret a => simp [onPart, run, v.put_get]
  | act f next ih =>
    cases hf : f (v.get s) with
    | none => simp [onPart, run, hf, v.put_get]
    | some t => simp [onPart, run, hf, ih, v.get_put, v.put_put]
  | emit label next ih => simp [onPart, run, ih]
  | stop e => simp [onPart, run, v.put_get]

lemma Runs.onPart (h : p.Runs (v.get s) tr t a) : (p.onPart v fault).Runs s tr (v.put t s) a := by
  rw [Runs, run_onPart, h]

/-- The state in which a program ends. -/
def final (p : Prog σ l ε α) (s : σ) : Option σ :=
  match (p.run s).outcome with
  | .done _ => some (p.run s).state
  | _ => none

lemma Runs.final {p : Prog σ l ε α} {s s' : σ} (h : p.Runs s tr s' a) : p.final s = some s' := by
  rw [Prog.final, h]

/-- The program ends without a label, with the value `a` and in a state with `Q`. -/
def Yields (p : Prog σ l ε α) (s : σ) (a : α) (Q : σ → Prop) : Prop := ∃ s', p.Runs s [] s' a ∧ Q s'

section Yields

variable {p : Prog σ l ε α} {k : α → Prog σ l ε β} {s : σ} {b : β} {Q Q' : σ → Prop}

lemma Yields.bind (h : p.Yields s a Q) (hk : ∀ s', Q s' → (k a).Yields s' b Q') :
    (p >>= k).Yields s b Q' := by
  obtain ⟨s1, hrun, hQ⟩ := h
  obtain ⟨s2, hrun', hQ'⟩ := hk s1 hQ
  exact ⟨s2, hrun.bind_silent hrun', hQ'⟩

lemma Yields.ret (hQ : Q s) : (Prog.ret a : Prog σ l ε α).Yields s a Q := ⟨s, .ret a s, hQ⟩

lemma yields_read {f : σ → α} (hQ : Q s) : (read f : Prog σ l ε α).Yields s (f s) Q :=
  ⟨s, runs_read f s, hQ⟩

lemma yields_modify {f : σ → σ} (hQ : Q (f s)) : (modify f : Prog σ l ε Unit).Yields s () Q :=
  ⟨f s, runs_modify f s, hQ⟩

lemma Yields.final (h : p.Yields s a Q) : ∃ s', p.final s = some s' ∧ Q s' := by
  obtain ⟨s', hrun, hQ⟩ := h
  exact ⟨s', hrun.final, hQ⟩

end Yields

end Prog

namespace TransitionSystem

variable {σ τ ε : Type*} {step : σ → ε → Option σ} {cstep : τ → ε → Option τ}
  {allowed : σ → ε → Prop} {R : σ → τ → Prop} {s s' : σ} {c : τ} {es : List ε}

/-- Every step that the abstract machine takes, the concrete one takes too. -/
structure Simulation (step : σ → ε → Option σ) (cstep : τ → ε → Option τ)
    (allowed : σ → ε → Prop) (R : σ → τ → Prop) : Prop where
  follow : ∀ s c e s', R s c → allowed s e → step s e = some s' → ∃ c', cstep c e = some c' ∧ R s' c'

/-- By induction on the events. -/
theorem Simulation.run (h : Simulation step cstep allowed R) (hR : R s c)
    (hok : RunAllowed step allowed s es) : ∃ s' c', run step s es = some s' ∧
      run cstep c es = some c' ∧ R s' c' := by
  induction es generalizing s c with
  | nil => exact ⟨s, c, rfl, rfl, hR⟩
  | cons e es ih =>
    obtain ⟨hallowed, s1, hs1, hrest⟩ := hok
    obtain ⟨c1, hc1, hR1⟩ := h.follow s c e s1 hR hallowed hs1
    obtain ⟨s', c', hs', hc', hR'⟩ := ih hR1 hrest
    refine ⟨s', c', ?_, ?_, hR'⟩
    · rw [TransitionSystem.run, hs1]
      exact hs'
    · rw [TransitionSystem.run, hc1]
      exact hc'

end TransitionSystem

end OsI386
