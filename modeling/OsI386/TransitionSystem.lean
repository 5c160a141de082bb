import Mathlib

/-!
# Runs of partial step functions

A machine is a function `step : σ → ε → Option σ`: an event either leads to one
next state or cannot be taken. `Reach` collects the states of all finite runs
whose steps satisfy a side condition; `run` executes a list of events.
-/
namespace OsI386.TransitionSystem

variable {σ ε τ δ : Type*}

/-- States reached from `init` by steps of `step` that `allowed` permits. -/
inductive Reach (step : σ → ε → Option σ) (allowed : σ → ε → Prop) (init : σ) : σ → Prop
  | refl : Reach step allowed init init
  | snoc {s t : σ} {e : ε} (prior : Reach step allowed init s) (ok : allowed s e)
      (taken : step s e = some t) : Reach step allowed init t

/-- Execute a list of events; the run is undefined as soon as one step is. -/
def run (step : σ → ε → Option σ) : σ → List ε → Option σ
  | s, [] => some s
  | s, e :: es => (step s e).bind fun t => run step t es

/-- Every step of the run meets `allowed`, and every step can be taken. -/
def RunAllowed (step : σ → ε → Option σ) (allowed : σ → ε → Prop) : σ → List ε → Prop
  | _, [] => True
  | s, e :: es => allowed s e ∧ ∃ t, step s e = some t ∧ RunAllowed step allowed t es

/-- `P` holds of every state a run goes through. -/
def RunAlways (step : σ → ε → Option σ) (P : σ → Prop) : σ → List ε → Prop
  | s, [] => P s
  | s, e :: es => P s ∧ ∀ t, step s e = some t → RunAlways step P t es

variable {step : σ → ε → Option σ} {allowed : σ → ε → Prop} {init s t : σ}

/-- The invariant rule: what holds initially and is kept by each permitted step
holds of every reached state. -/
theorem Reach.invariant {I : σ → Prop} (start : I init)
    (keep : ∀ s e t, I s → allowed s e → step s e = some t → I t)
    (h : Reach step allowed init s) : I s := by
  induction h with
  | refl => exact start
  | snoc _ ok taken ih => exact keep _ _ _ ih ok taken

/-- A weaker side condition reaches more states. -/
lemma Reach.mono {looser : σ → ε → Prop} (hw : ∀ s e, allowed s e → looser s e)
    (h : Reach step allowed init s) : Reach step looser init s := by
  induction h with
  | refl => exact .refl
  | snoc _ ok taken ih => exact .snoc ih (hw _ _ ok) taken

lemma Reach.trans (h : Reach step allowed init s) (g : Reach step allowed s t) :
    Reach step allowed init t := by
  induction g with
  | refl => exact h
  | snoc _ ok taken ih => exact .snoc ih ok taken

lemma run_append (s : σ) (es fs : List ε) :
    run step s (es ++ fs) = (run step s es).bind fun t => run step t fs := by
  induction es generalizing s with
  | nil => rfl
  | cons e es ih =>
    cases h : step s e with
    | none => simp [run, h]
    | some t => simp [run, h, ih]

/-- A run of events that are always permitted ends in a reached state. -/
theorem Reach.of_run_permitted {es : List ε} (ok : ∀ e ∈ es, ∀ s, allowed s e)
    (h : run step s es = some t) : Reach step allowed s t := by
  induction es generalizing s with
  | nil =>
    obtain rfl : s = t := by simpa [run] using h
    exact .refl
  | cons e es ih =>
    obtain ⟨u, hu, hr⟩ := Option.bind_eq_some_iff.mp h
    have hrest : Reach step allowed u t := ih (fun e he => ok e (List.mem_cons_of_mem _ he)) hr
    exact Reach.trans (.snoc .refl (ok e List.mem_cons_self s) hu) hrest

/-- An unconditioned run ends in a reached state. -/
theorem Reach.of_run {es : List ε} (h : run step s es = some t) :
    Reach step (fun _ _ => True) s t := .of_run_permitted (fun _ _ _ => trivial) h

theorem RunAllowed.reach {es : List ε} (ok : RunAllowed step allowed s es) :
    ∃ t, run step s es = some t ∧ Reach step allowed s t := by
  induction es generalizing s with
  | nil => exact ⟨s, rfl, .refl⟩
  | cons e es ih =>
    obtain ⟨hok, u, hu, hrest⟩ := ok
    obtain ⟨t, ht, hreach⟩ := ih hrest
    exact ⟨t, by simp [run, hu, ht], Reach.trans (.snoc .refl hok hu) hreach⟩

lemma RunAlways.mono {P Q : σ → Prop} {es : List ε} (hPQ : ∀ s, P s → Q s)
    (h : RunAlways step P s es) : RunAlways step Q s es := by
  induction es generalizing s with
  | nil => exact hPQ s h
  | cons e es ih => exact ⟨hPQ s h.1, fun t ht => ih (h.2 t ht)⟩

instance RunAllowed.decidable [∀ s e, Decidable (allowed s e)] (s : σ) (es : List ε) :
    Decidable (RunAllowed step allowed s es) :=
  match es with
  | [] => .isTrue trivial
  | e :: es =>
    match hs : step s e with
    | none => .isFalse fun ⟨_, t, ht, _⟩ => by simp [hs] at ht
    | some t =>
      have := RunAllowed.decidable t es
      decidable_of_iff (allowed s e ∧ RunAllowed step allowed t es) (by simp [RunAllowed, hs])

/-- The rule for an exact side condition: where `J` holds, permitted steps keep `P`, and any
other step breaks it at once. -/
theorem runAlways_iff_runAllowed_of_inv {P J : σ → Prop} {es : List ε} (start : P s)
    (startJ : J s) (keepJ : ∀ s e t, J s → step s e = some t → J t)
    (keep : ∀ s e t, J s → P s → allowed s e → step s e = some t → P t)
    (broken : ∀ s e t, ¬ allowed s e → step s e = some t → ¬ P t)
    (h : run step s es = some t) : RunAlways step P s es ↔ RunAllowed step allowed s es := by
  induction es generalizing s with
  | nil => simp [RunAlways, RunAllowed, start]
  | cons e es ih =>
    obtain ⟨u, hu, hr⟩ := Option.bind_eq_some_iff.mp h
    have hJu := keepJ s e u startJ hu
    simp only [RunAlways, RunAllowed, start, true_and, hu, Option.some.injEq, forall_eq',
      exists_eq_left']
    constructor
    · intro halways
      have hPu : P u := by cases es <;> first | exact halways | exact halways.1
      have hok : allowed s e := by
        by_contra hn
        exact broken s e u hn hu hPu
      exact ⟨hok, (ih hPu hJu hr).mp halways⟩
    · intro hallowed
      exact (ih (keep s e u startJ start hallowed.1 hu) hJu hr).mpr hallowed.2

theorem runAlways_iff_runAllowed {P : σ → Prop} {es : List ε} (start : P s)
    (keep : ∀ s e t, P s → allowed s e → step s e = some t → P t)
    (broken : ∀ s e t, ¬ allowed s e → step s e = some t → ¬ P t)
    (h : run step s es = some t) : RunAlways step P s es ↔ RunAllowed step allowed s es :=
  runAlways_iff_runAllowed_of_inv (J := fun _ => True) start trivial (fun _ _ _ _ _ => trivial)
    (fun s e t _ => keep s e t) broken h

/-- A side condition that another one gives where `J` holds. -/
theorem RunAllowed.imp {allowed' : σ → ε → Prop} {J : σ → Prop} {es : List ε} (start : J s)
    (keep : ∀ s e t, J s → allowed s e → step s e = some t → J t ∧ allowed' s e)
    (h : RunAllowed step allowed s es) : RunAllowed step allowed' s es := by
  induction es generalizing s with
  | nil => trivial
  | cons e es ih =>
    obtain ⟨hok, t, ht, hrest⟩ := h
    obtain ⟨hJ, hok'⟩ := keep s e t start hok ht
    exact ⟨hok', t, ht, ih hJ hrest⟩

/-- Two side conditions that agree on the taken steps of states with `J`. -/
theorem runAllowed_congr {allowed' : σ → ε → Prop} {J : σ → Prop} {es : List ε} (start : J s)
    (keep : ∀ s e t, J s → step s e = some t → J t)
    (same : ∀ s e t, J s → step s e = some t → (allowed s e ↔ allowed' s e)) :
    RunAllowed step allowed s es ↔ RunAllowed step allowed' s es :=
  ⟨RunAllowed.imp start fun s e t hJ ok ht => ⟨keep s e t hJ ht, (same s e t hJ ht).mp ok⟩,
    RunAllowed.imp start fun s e t hJ ok ht => ⟨keep s e t hJ ht, (same s e t hJ ht).mpr ok⟩⟩

end OsI386.TransitionSystem
