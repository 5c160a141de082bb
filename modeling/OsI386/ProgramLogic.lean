import OsI386.Program

/-!
# Invariants along the runs of a program

`Safe` is a triple that also speaks of the states between the accesses, so it covers a program
that is preempted as well as one that faults or waits for ever. `Within` is `Safe` for a
relation between the first state and each later one; relations that compose give programs that
compose.
-/
namespace OsI386
namespace Prog

variable {σ l ε α β : Type}

/-- Each state from `s` on, with the labels emitted so far, satisfies `I`, and a value the
program ends with satisfies `Q`. -/
def Safe (I : List l → σ → Prop) (Q : List l → σ → α → Prop) :
    Prog σ l ε α → List l → σ → Prop
  | .ret a, tr, s => I tr s ∧ Q tr s a
  | .act f next, tr, s => I tr s ∧ ∀ s', f s = some s' → (next s).Safe I Q tr s'
  | .emit x next, tr, s => I tr s ∧ next.Safe I Q (tr ++ [x]) s
  | .stop _, tr, s => I tr s

/-- One access or one label, and the rest of the program. -/
def advance : Prog σ l ε α → σ → Option (List l × σ × Prog σ l ε α)
  | .act f next, s => (f s).map fun s' => ([], s', next s)
  | .emit x next, s => some ([x], s, next)
  | .ret _, _ => none
  | .stop _, _ => none

variable {I J : List l → σ → Prop} {P Q : List l → σ → α → Prop} {Q' : List l → σ → β → Prop}
  {p : Prog σ l ε α} {k : α → Prog σ l ε β} {tr : List l} {s : σ}

lemma Safe.start (h : p.Safe I Q tr s) : I tr s := by
  cases p with
  | stop e => exact h
  | _ => exact h.1

lemma Safe.mono (h : p.Safe I P tr s) (hI : ∀ tr s, I tr s → J tr s)
    (hQ : ∀ tr s a, I tr s → P tr s a → Q tr s a) : p.Safe J Q tr s := by
  induction p generalizing tr s with
  | ret a => exact ⟨hI _ _ h.1, hQ _ _ _ h.1 h.2⟩
  | act f next ih => exact ⟨hI _ _ h.1, fun s' hs => ih s (h.2 s' hs)⟩
  | emit x next ih => exact ⟨hI _ _ h.1, ih h.2⟩
  | stop e => exact hI _ _ h

lemma Safe.post (h : p.Safe I P tr s) (hQ : ∀ tr s a, I tr s → P tr s a → Q tr s a) :
    p.Safe I Q tr s := h.mono (fun _ _ hI => hI) hQ

lemma Safe.bind (h : p.Safe I P tr s)
    (hk : ∀ tr s a, I tr s → P tr s a → (k a).Safe I Q' tr s) : (p >>= k).Safe I Q' tr s := by
  induction p generalizing tr s with
  | ret a => exact hk _ _ _ h.1 h.2
  | act f next ih => exact ⟨h.1, fun s' hs => ih s (h.2 s' hs)⟩
  | emit x next ih => exact ⟨h.1, ih h.2⟩
  | stop e => exact h

lemma Safe.and (h : p.Safe I P tr s) (g : p.Safe J Q tr s) :
    p.Safe (fun t x => I t x ∧ J t x) (fun t x a => P t x a ∧ Q t x a) tr s := by
  induction p generalizing tr s with
  | ret a => exact ⟨⟨h.1, g.1⟩, h.2, g.2⟩
  | act f next ih => exact ⟨⟨h.1, g.1⟩, fun s' hs => ih s (h.2 s' hs) (g.2 s' hs)⟩
  | emit x next ih => exact ⟨⟨h.1, g.1⟩, ih h.2 g.2⟩
  | stop e => exact ⟨h, g⟩

/-- Labels emitted before the program starts. -/
lemma Safe.append {tr' : List l} (h : p.Safe (fun t => I (tr ++ t)) (fun t => Q (tr ++ t)) tr' s) :
    p.Safe I Q (tr ++ tr') s := by
  induction p generalizing tr' s with
  | ret a => exact h
  | act f next ih => exact ⟨h.1, fun s' hs => ih s (h.2 s' hs)⟩
  | emit x next ih =>
    refine ⟨h.1, ?_⟩
    rw [List.append_assoc]
    exact ih h.2
  | stop e => exact h

/-- The invariant holds however far the program has got. -/
lemma Safe.advance {ls : List l} {s' : σ} {p' : Prog σ l ε α} (h : p.Safe I Q tr s)
    (hp : p.advance s = some (ls, s', p')) : p'.Safe I Q (tr ++ ls) s' := by
  cases p with
  | ret a => simp [Prog.advance] at hp
  | act f next =>
    obtain ⟨t, ht, he⟩ := Option.map_eq_some_iff.mp hp
    obtain ⟨rfl, rfl, rfl⟩ : [] = ls ∧ t = s' ∧ next s = p' := by simpa using he
    rw [List.append_nil]
    exact h.2 _ ht
  | emit x next =>
    obtain ⟨rfl, rfl, rfl⟩ : [x] = ls ∧ s = s' ∧ next = p' := by simpa [Prog.advance] using hp
    exact h.2
  | stop e => simp [Prog.advance] at hp

lemma Safe.run (h : p.Safe I Q tr s) :
    I (tr ++ (p.run s).trace) (p.run s).state ∧
      ∀ a, (p.run s).outcome = .done a → Q (tr ++ (p.run s).trace) (p.run s).state a := by
  induction p generalizing tr s with
  | ret a =>
    rw [run_ret, List.append_nil]
    exact ⟨h.1, fun b hb => by cases hb; exact h.2⟩
  | act f next ih =>
    unfold Prog.run
    cases hs : f s with
    | none =>
      rw [List.append_nil]
      exact ⟨h.1, fun b hb => by cases hb⟩
    | some s' => exact ih s (h.2 s' hs)
  | emit x next ih =>
    have hrest := ih h.2
    rw [List.append_assoc] at hrest
    exact hrest
  | stop e =>
    simp only [Prog.run, List.append_nil]
    exact ⟨h, fun b hb => by cases hb⟩

lemma Safe.runs {tr' : List l} {s' : σ} {a : α} (h : p.Safe I Q tr s) (hr : p.Runs s tr' s' a) :
    Q (tr ++ tr') s' a := by
  have hq := h.run.2 a
  rw [hr] at hq
  exact hq rfl

/-- What a run ends with is a matter of the run alone. -/
lemma Safe.of_run (h : p.Safe I P tr s)
    (hq : ∀ a, (p.run s).outcome = .done a → Q (tr ++ (p.run s).trace) (p.run s).state a) :
    p.Safe I Q tr s := by
  induction p generalizing tr s with
  | ret a => exact ⟨h.1, by simpa using hq a rfl⟩
  | act f next ih =>
    refine ⟨h.1, fun s' hs => ih s (h.2 s' hs) fun a ha => ?_⟩
    simp only [Prog.run, hs] at hq
    exact hq a ha
  | emit x next ih =>
    refine ⟨h.1, ih h.2 fun a ha => ?_⟩
    rw [List.append_assoc]
    exact hq a ha
  | stop e => exact h

lemma Safe.of_runs {tr' : List l} {s' : σ} {a : α} (h : p.Safe I P tr s)
    (hr : p.Runs s tr' s' a) :
    p.Safe I (fun t x b => t = tr ++ tr' ∧ x = s' ∧ b = a) tr s := by
  refine h.of_run fun b hb => ?_
  rw [hr] at hb ⊢
  cases hb
  exact ⟨rfl, rfl, rfl⟩

section Accesses

lemma Safe.ret {a : α} (hI : I tr s) (hQ : Q tr s a) :
    (Prog.ret a : Prog σ l ε α).Safe I Q tr s := ⟨hI, hQ⟩

lemma Safe.stop {e : ε} (hI : I tr s) : (Prog.stop e : Prog σ l ε α).Safe I Q tr s := hI

lemma Safe.read {f : σ → α} (h : (k (f s)).Safe I Q' tr s) : (Prog.read f >>= k).Safe I Q' tr s :=
  ⟨h.start, fun _ hs => Option.some.inj hs ▸ h⟩

lemma Safe.label {x : l} {m : Unit → Prog σ l ε β} (hI : I tr s)
    (h : (m ()).Safe I Q' (tr ++ [x]) s) : (Prog.label x >>= m).Safe I Q' tr s := ⟨hI, h⟩

lemma Safe.readOr {f : σ → Option α} {e : ε} (hI : I tr s)
    (h : ∀ a, f s = some a → (k a).Safe I Q' tr s) : (Prog.readOr f e >>= k).Safe I Q' tr s := by
  refine ⟨hI, fun s' hs => ?_⟩
  obtain rfl := Option.some.inj hs
  dsimp only
  cases hf : f s with
  | none => exact hI
  | some a => exact h a hf

lemma Safe.modify {f : σ → σ} {Q : List l → σ → Unit → Prop} (hI : I tr s) (h : I tr (f s))
    (hQ : Q tr (f s) ()) : (Prog.modify f : Prog σ l ε Unit).Safe I Q tr s :=
  ⟨hI, fun _ hs => Option.some.inj hs ▸ ⟨h, hQ⟩⟩

lemma Safe.modifyOr {f : σ → Option σ} {e : ε} {Q : List l → σ → Unit → Prop} (hI : I tr s)
    (h : ∀ s', f s = some s' → I tr s' ∧ Q tr s' ()) :
    (Prog.modifyOr f e : Prog σ l ε Unit).Safe I Q tr s := by
  refine ⟨hI, fun s' hs => ?_⟩
  obtain rfl := Option.some.inj hs
  change (if (f s).isSome then .ret () else .stop e : Prog σ l ε Unit).Safe I Q tr ((f s).getD s)
  cases hf : f s with
  | none => exact hI
  | some t => exact h t hf

lemma Safe.await {f : σ → Option σ} {Q : List l → σ → Unit → Prop} (hI : I tr s)
    (h : ∀ s', f s = some s' → I tr s' ∧ Q tr s' ()) :
    (Prog.await f : Prog σ l ε Unit).Safe I Q tr s := ⟨hI, h⟩

end Accesses

section Steps

/-- Accesses and labels of `p` from `s` on lead to `p'` in `s'`. -/
inductive Leads : Prog σ l ε α → σ → List l → σ → Prog σ l ε α → Prop
  | refl (p : Prog σ l ε α) (s : σ) : Leads p s [] s p
  | step {p p' p'' : Prog σ l ε α} {s s' s'' : σ} {ls tr : List l}
      (h : p.advance s = some (ls, s', p')) (rest : Leads p' s' tr s'' p'') :
      Leads p s (ls ++ tr) s'' p''

variable {p' p'' : Prog σ l ε α} {s' s'' : σ} {tr' : List l} {a : α}

lemma Leads.trans (h : p.Leads s tr s' p') (g : p'.Leads s' tr' s'' p'') :
    p.Leads s (tr ++ tr') s'' p'' := by
  induction h with
  | refl => exact g
  | step hp _ ih =>
    rw [List.append_assoc]
    exact .step hp (ih g)

/-- A run of the first part leads to the second. -/
lemma Runs.leads_bind (h : p.Runs s tr s' a) : (p >>= k).Leads s tr s' (k a) := by
  unfold Runs at h
  induction p generalizing s tr with
  | ret b =>
    simp only [run_ret, Result.mk.injEq, Outcome.done.injEq] at h
    obtain ⟨rfl, rfl, rfl⟩ := h
    exact .refl _ _
  | act f next ih =>
    unfold Prog.run at h
    cases hs : f s with
    | none =>
      rw [hs] at h
      cases h
    | some t =>
      rw [hs] at h
      have hact : (Prog.act f next >>= k).advance s = some ([], t, next s >>= k) :=
        Option.map_eq_some_iff.mpr ⟨t, hs, rfl⟩
      exact .step hact (ih s h)
  | emit x next ih =>
    simp only [Prog.run, Result.mk.injEq] at h
    obtain ⟨rfl, hstate, hout⟩ := h
    have hemit : (Prog.emit x next >>= k).advance s = some ([x], s, next >>= k) := rfl
    exact .step hemit (ih (by rw [← hstate, ← hout]))
  | stop e => cases h

lemma bind_ret (p : Prog σ l ε α) : p >>= .ret = p := by
  induction p with
  | ret a => rfl
  | act f next ih => exact congrArg (Prog.act f) (funext ih)
  | emit x next ih => exact congrArg (Prog.emit x) ih
  | stop e => rfl

lemma Runs.leads (h : p.Runs s tr s' a) : p.Leads s tr s' (.ret a) := by
  have hbind := h.leads_bind (k := .ret)
  rwa [bind_ret] at hbind

end Steps

section Relations

/-- A relation between a state and a later one, and the labels between them, that composes. -/
structure Effect (R : σ → List l → σ → Prop) : Prop where
  refl : ∀ s, R s [] s
  trans : ∀ {s s' s'' tr tr'}, R s tr s' → R s' tr' s'' → R s (tr ++ tr') s''

/-- Each state from `s` on is related to `s`. -/
def Within (R : σ → List l → σ → Prop) (p : Prog σ l ε α) (s : σ)
    (Q : List l → σ → α → Prop) : Prop := p.Safe (R s) Q [] s

variable {R S : σ → List l → σ → Prop}

lemma Within.weaken (h : Within R p s P) (hS : ∀ t x, R s t x → S s t x) :
    Within S p s fun t x a => R s t x ∧ P t x a :=
  Safe.mono h hS fun _ _ _ hr hp => ⟨hr, hp⟩

/-- A program that starts in the middle of another one. -/
lemma Within.safe (h : Within R p s P) (hR : Effect R) {s₀ : σ} (hs : R s₀ tr s)
    (hQ : ∀ tr' s' a, R s tr' s' → P tr' s' a → Q (tr ++ tr') s' a) :
    p.Safe (R s₀) Q tr s := by
  have hmid : p.Safe (fun t => R s₀ (tr ++ t)) (fun t => Q (tr ++ t)) [] s :=
    Safe.mono h (fun _ _ hr => hR.trans hs hr) hQ
  simpa using hmid.append

lemma Within.bind_safe (h : Within R p s P) (hR : Effect R) {s₀ : σ} (hs : R s₀ tr s)
    (hk : ∀ tr' s' a, R s tr' s' → R s₀ (tr ++ tr') s' → P tr' s' a →
      (k a).Safe (R s₀) Q' (tr ++ tr') s') : (p >>= k).Safe (R s₀) Q' tr s := by
  refine Safe.bind (P := fun t s' a => ∃ tr', t = tr ++ tr' ∧ R s tr' s' ∧ P tr' s' a)
    (h.safe hR hs fun tr' s' a hr hp => ⟨tr', rfl, hr, hp⟩) ?_
  rintro _ s' a hr ⟨tr', rfl, hmid, hp⟩
  exact hk tr' s' a hmid hr hp

lemma Within.bind (h : Within R p s P) (hR : Effect R)
    (hk : ∀ tr s' a, R s tr s' → P tr s' a → Within R (k a) s' fun tr' => Q' (tr ++ tr')) :
    Within R (p >>= k) s Q' := by
  refine Safe.bind h fun tr s' a hr hp => ?_
  exact (hk tr s' a hr hp).safe hR hr fun _ _ _ _ hq => hq

/-- No state is excluded. -/
def anywhere (_ : σ) (_ : List l) (_ : σ) : Prop := True

end Relations

end Prog
end OsI386
