import Mathlib

/-!
# Programs as sequences of indivisible accesses

A program reads and writes a shared state in accesses that nothing can interrupt, emits
labels an observer sees, and ends with a value or stops with a fault. `run` executes one
program alone; the same program can be interleaved with others, access by access.
-/
namespace OsI386

/-- `act f next` waits until `f` is defined, applies it, and goes on with `next` of the state
the access found. -/
inductive Prog (σ l ε α : Type)
  | ret (a : α)
  | act (f : σ → Option σ) (next : σ → Prog σ l ε α)
  | emit (label : l) (next : Prog σ l ε α)
  | stop (e : ε)

namespace Prog

variable {σ l ε α β : Type}

def bind : Prog σ l ε α → (α → Prog σ l ε β) → Prog σ l ε β
  | .ret a, k => k a
  | .act f next, k => .act f fun s => (next s).bind k
  | .emit label next, k => .emit label (next.bind k)
  | .stop e, _ => .stop e

instance : Monad (Prog σ l ε) where
  pure := .ret
  bind := bind

@[simp] lemma pure_def (a : α) : (pure a : Prog σ l ε α) = .ret a := rfl
@[simp] lemma ret_bind (a : α) (k : α → Prog σ l ε β) : (Prog.ret a >>= k) = k a := rfl
@[simp] lemma act_bind (f : σ → Option σ) (next : σ → Prog σ l ε α) (k : α → Prog σ l ε β) :
    (Prog.act f next >>= k) = .act f fun s => next s >>= k := rfl
@[simp] lemma emit_bind (label : l) (next : Prog σ l ε α) (k : α → Prog σ l ε β) :
    (Prog.emit label next >>= k) = .emit label (next >>= k) := rfl
@[simp] lemma stop_bind (e : ε) (k : α → Prog σ l ε β) : (Prog.stop e >>= k) = .stop e := rfl

lemma bind_assoc {γ : Type} (p : Prog σ l ε α) (k : α → Prog σ l ε β) (m : β → Prog σ l ε γ) :
    (p >>= k) >>= m = p >>= fun a => k a >>= m := by
  induction p with
  | ret a => rfl
  | act f next ih =>
    simp only [act_bind]
    exact congrArg (Prog.act f) (funext ih)
  | emit label next ih =>
    simp only [emit_bind]
    exact congrArg (Prog.emit label) ih
  | stop e => rfl

def read (f : σ → α) : Prog σ l ε α := .act some fun s => .ret (f s)

/-- Read a value that need not exist. -/
def readOr (f : σ → Option α) (e : ε) : Prog σ l ε α :=
  .act some fun s => match f s with
    | some a => .ret a
    | none => .stop e

def modify (f : σ → σ) : Prog σ l ε Unit := .act (fun s => some (f s)) fun _ => .ret ()

/-- An update that faults where it is not defined. -/
def modifyOr (f : σ → Option σ) (e : ε) : Prog σ l ε Unit :=
  .act (fun s => some ((f s).getD s)) fun s => if (f s).isSome then .ret () else .stop e

/-- Wait until the update is defined. -/
def await (f : σ → Option σ) : Prog σ l ε Unit := .act f fun _ => .ret ()

def label (x : l) : Prog σ l ε Unit := .emit x (.ret ())

/-- How a program that runs alone ends. -/
inductive Outcome (ε α : Type)
  | done (a : α)
  | stopped (e : ε)
  | blocked
  deriving DecidableEq

/-- The labels of a run, in order, and where it ends. -/
structure Result (σ l ε α : Type) where
  trace : List l
  state : σ
  outcome : Outcome ε α

def run : Prog σ l ε α → σ → Result σ l ε α
  | .ret a, s => ⟨[], s, .done a⟩
  | .act f next, s =>
    match f s with
    | some s' => (next s).run s'
    | none => ⟨[], s, .blocked⟩
  | .emit label next, s => { next.run s with trace := label :: (next.run s).trace }
  | .stop e, s => ⟨[], s, .stopped e⟩

/-- The program ends with a value. -/
def Runs (p : Prog σ l ε α) (s : σ) (trace : List l) (s' : σ) (a : α) : Prop :=
  p.run s = ⟨trace, s', .done a⟩

variable {p : Prog σ l ε α} {k : α → Prog σ l ε β} {s s' s'' : σ} {a : α} {b : β}
  {tr tr' : List l}

@[simp] lemma run_ret (a : α) (s : σ) : (Prog.ret a : Prog σ l ε α).run s = ⟨[], s, .done a⟩ := rfl

/-- What a run of `p >>= k` is, from the run of `p`. -/
lemma run_bind (p : Prog σ l ε α) (k : α → Prog σ l ε β) (s : σ) :
    (p >>= k).run s = match (p.run s).outcome with
      | .done a => { (k a).run (p.run s).state with
          trace := (p.run s).trace ++ ((k a).run (p.run s).state).trace }
      | .stopped e => ⟨(p.run s).trace, (p.run s).state, .stopped e⟩
      | .blocked => ⟨(p.run s).trace, (p.run s).state, .blocked⟩ := by
  induction p generalizing s with
  | ret a => rfl
  | act f next ih =>
    simp only [act_bind, run]
    cases f s with
    | none => rfl
    | some s' => exact ih s s'
  | emit label next ih =>
    simp only [emit_bind, run, ih s]
    cases (next.run s).outcome <;> rfl
  | stop e => rfl

lemma Runs.bind (h : p.Runs s tr s' a) (hk : (k a).Runs s' tr' s'' b) :
    (p >>= k).Runs s (tr ++ tr') s'' b := by
  unfold Runs at h hk ⊢
  rw [run_bind, h]
  simp only [hk]

/-- Sequencing where the first part emits nothing. -/
lemma Runs.bind_silent (h : p.Runs s [] s' a) (hk : (k a).Runs s' tr s'' b) :
    (p >>= k).Runs s tr s'' b := h.bind hk

/-- Sequencing where the last part emits nothing. -/
lemma Runs.bind_end (h : p.Runs s tr s' a) (hk : (k a).Runs s' [] s'' b) :
    (p >>= k).Runs s tr s'' b := by
  simpa using h.bind hk

lemma runs_of_outcome (h : (p.run s).outcome = .done a) :
    p.Runs s (p.run s).trace (p.run s).state a := by
  rw [Runs, ← h]

/-- A run of two programs is a run of each. -/
lemma Runs.bind_inv (h : (p >>= k).Runs s tr s'' b) :
    ∃ tr' s' a tr'', p.Runs s tr' s' a ∧ (k a).Runs s' tr'' s'' b := by
  have hrun := run_bind p k s
  rw [h] at hrun
  cases ho : (p.run s).outcome with
  | done a =>
    rw [ho] at hrun
    injection hrun with _ hstate hout
    refine ⟨(p.run s).trace, (p.run s).state, a, ((k a).run (p.run s).state).trace, ?_, ?_⟩
    · exact runs_of_outcome ho
    · rw [Runs, hstate, hout]
  | stopped e =>
    rw [ho] at hrun
    cases hrun
  | blocked =>
    rw [ho] at hrun
    cases hrun

lemma Runs.det {s2 : σ} {a2 : α} {tr2 : List l} (h : p.Runs s tr s' a) (g : p.Runs s tr2 s2 a2) :
    s' = s2 ∧ a = a2 := by
  unfold Runs at h g
  rw [h] at g
  simp only [Result.mk.injEq, Outcome.done.injEq] at g
  exact g.2

lemma Runs.ret (a : α) (s : σ) : (Prog.ret a : Prog σ l ε α).Runs s [] s a := rfl

lemma runs_read (f : σ → α) (s : σ) : (read f : Prog σ l ε α).Runs s [] s (f s) := rfl

lemma runs_readOr {f : σ → Option α} {e : ε} (h : f s = some a) :
    (readOr f e : Prog σ l ε α).Runs s [] s a := by
  simp [Runs, readOr, run, h]

lemma runs_modify (f : σ → σ) (s : σ) : (modify f : Prog σ l ε Unit).Runs s [] (f s) () := rfl

lemma runs_modifyOr {f : σ → Option σ} {e : ε} (h : f s = some s') :
    (modifyOr f e : Prog σ l ε Unit).Runs s [] s' () := by
  simp [Runs, modifyOr, run, h]

lemma runs_await {f : σ → Option σ} (h : f s = some s') :
    (await f : Prog σ l ε Unit).Runs s [] s' () := by
  simp [Runs, await, run, h]

lemma Runs.bind_label {x : l} {m : Unit → Prog σ l ε β} (hk : (m ()).Runs s tr s' b) :
    (label x >>= m).Runs s (x :: tr) s' b := by
  have hx : (label x : Prog σ l ε Unit).Runs s [x] s () := rfl
  exact hx.bind hk

lemma Runs.run_bind (h : p.Runs s tr s' a) (k : α → Prog σ l ε β) :
    (p >>= k).run s = { (k a).run s' with trace := tr ++ ((k a).run s').trace } := by
  unfold Runs at h
  rw [Prog.run_bind, h]

lemma Runs.mem_bind {x : l} (h : p.Runs s tr s' a) (hx : x ∈ tr) (k : α → Prog σ l ε β) :
    x ∈ ((p >>= k).run s).trace := by
  rw [h.run_bind k]
  exact List.mem_append_left _ hx

lemma Runs.mem_bind_right {x : l} (h : p.Runs s tr s' a) (hx : x ∈ ((k a).run s').trace) :
    x ∈ ((p >>= k).run s).trace := by
  rw [h.run_bind k]
  exact List.mem_append_right tr hx

/-- The program ends with a value that satisfies `Q`, unless it emits a label marked `bad`. -/
def Ends (bad : l → Prop) (p : Prog σ l ε α) (s : σ) (Q : List l → σ → α → Prop) : Prop :=
  (∃ x ∈ (p.run s).trace, bad x) ∨ ∃ tr s' a, p.Runs s tr s' a ∧ Q tr s' a

section Ends

variable {bad : l → Prop} {Q : List l → σ → α → Prop} {Q' : List l → σ → β → Prop}

lemma Runs.ends (h : p.Runs s tr s' a) (hq : Q tr s' a) : Ends bad p s Q :=
  .inr ⟨tr, s', a, h, hq⟩

lemma Ends.mono {P : List l → σ → α → Prop} (h : Ends bad p s P)
    (hq : ∀ tr s' a, P tr s' a → Q tr s' a) : Ends bad p s Q := by
  rcases h with hbad | ⟨tr, s', a, hr, hp⟩
  · exact .inl hbad
  · exact hr.ends (hq tr s' a hp)

lemma Ends.bind (h : Ends bad p s Q)
    (hk : ∀ tr s' a, Q tr s' a → Ends bad (k a) s' fun tr' => Q' (tr ++ tr')) :
    Ends bad (p >>= k) s Q' := by
  rcases h with ⟨x, hx, hbad⟩ | ⟨tr, s', a, hr, hq⟩
  · refine .inl ⟨x, ?_, hbad⟩
    rw [Prog.run_bind]
    cases (p.run s).outcome with
    | done a => exact List.mem_append_left _ hx
    | stopped e => exact hx
    | blocked => exact hx
  · rcases hk tr s' a hq with ⟨x, hx, hbad⟩ | ⟨tr', s'', b, hr', hq'⟩
    · exact .inl ⟨x, hr.mem_bind_right hx, hbad⟩
    · exact (hr.bind hr').ends hq'

lemma Runs.ends_bind (h : p.Runs s tr s' a)
    (hk : Ends bad (k a) s' fun tr' => Q' (tr ++ tr')) : Ends bad (p >>= k) s Q' := by
  refine Ends.bind (h.ends (Q := fun tr1 s1 b => tr1 = tr ∧ s1 = s' ∧ b = a) ⟨rfl, rfl, rfl⟩) ?_
  rintro _ _ _ ⟨rfl, rfl, rfl⟩
  exact hk

end Ends

/-- Whatever way the program ends, it keeps a relation between the labels emitted so far and
the state. -/
def Preserves (I : List l → σ → Prop) (p : Prog σ l ε α) : Prop :=
  ∀ tr s, I tr s → I (tr ++ (p.run s).trace) (p.run s).state

variable {I : List l → σ → Prop}

lemma Preserves.ret (a : α) : Preserves I (Prog.ret a : Prog σ l ε α) := by
  intro tr s h
  simpa using h

lemma Preserves.stop (e : ε) : Preserves I (Prog.stop e : Prog σ l ε α) := by
  intro tr s h
  simpa [run] using h

lemma Preserves.bind (hp : Preserves I p) (hk : ∀ a, Preserves I (k a)) :
    Preserves I (p >>= k) := by
  intro tr s h
  have hmid := hp tr s h
  rw [run_bind]
  cases (p.run s).outcome with
  | done a => simpa using hk a _ _ hmid
  | stopped e => exact hmid
  | blocked => exact hmid

lemma Preserves.label {x : l} (hx : ∀ tr s, I tr s → I (tr ++ [x]) s) :
    Preserves I (label x : Prog σ l ε Unit) := hx

/-- A program that only looks. -/
lemma Preserves.of_pure (h : ∀ s, ∃ a, p.Runs s [] s a) : Preserves I p := by
  intro tr s hI
  obtain ⟨a, ha⟩ := h s
  rw [ha]
  simpa using hI

lemma Preserves.read (f : σ → α) : Preserves I (read f : Prog σ l ε α) := by
  intro tr s h
  simpa [Prog.read, run] using h

lemma Preserves.readOr (f : σ → Option α) (e : ε) :
    Preserves I (readOr f e : Prog σ l ε α) := by
  intro tr s h
  unfold Prog.readOr
  cases hf : f s <;> simpa [run, hf] using h

lemma Preserves.modify {f : σ → σ} (hf : ∀ tr s, I tr s → I tr (f s)) :
    Preserves I (modify f : Prog σ l ε Unit) := by
  intro tr s h
  simpa [Prog.modify, run] using hf tr s h

lemma Preserves.modifyOr {f : σ → Option σ} {e : ε}
    (hf : ∀ tr s s', I tr s → f s = some s' → I tr s') :
    Preserves I (modifyOr f e : Prog σ l ε Unit) := by
  intro tr s h
  unfold Prog.modifyOr
  cases hs : f s with
  | none => simpa [run, hs] using h
  | some s' => simpa [run, hs] using hf tr s s' h hs

lemma Preserves.await {f : σ → Option σ} (hf : ∀ tr s s', I tr s → f s = some s' → I tr s') :
    Preserves I (await f : Prog σ l ε Unit) := by
  intro tr s h
  unfold Prog.await
  cases hs : f s with
  | none => simpa [run, hs] using h
  | some s' => simpa [run, hs] using hf tr s s' h hs

end Prog

end OsI386
