import OsI386.ProgramLogic

/-!
# Programs among others

A protocol says what the other programs may do to the shared state between two accesses of this
one, given the resource it holds, what an access of this one is, in the states before and after it
and with the resources then, and what a label gives away. `Obeys` is the triple of a program that
keeps to it, whatever the others do in between.
-/
namespace OsI386
namespace Prog

/-- `ok` is the condition on which the accesses are made. -/
structure Protocol (σ l ρ : Type) where
  others : ρ → σ → σ → Prop
  ok : (σ → Option σ) → σ → Prop
  access : (σ → Option σ) → σ → ρ → σ → ρ → Prop
  tells : l → σ → ρ → ρ → Prop
  refl : ∀ D s, others D s s
  trans : ∀ {D s s' s''}, others D s s' → others D s' s'' → others D s s''

variable {σ l ε ρ α β : Type} (P : Protocol σ l ρ)

/-- From state `s` on, with the resource `D`. -/
def Obeys (Q : σ → ρ → α → Prop) : Prog σ l ε α → σ → ρ → Prop
  | .ret a, s, D => ∀ s₁, P.others D s s₁ → Q s₁ D a
  | .act f next, s, D => ∀ s₁, P.others D s s₁ → P.ok f s₁ → ∀ s', f s₁ = some s' →
      ∃ D', P.access f s₁ D s' D' ∧ (next s₁).Obeys Q s' D'
  | .emit x next, s, D => ∀ s₁, P.others D s s₁ → ∃ D', P.tells x s₁ D D' ∧ next.Obeys Q s₁ D'
  | .stop _, _, _ => True

variable {P} {Q R : σ → ρ → α → Prop} {Q' : σ → ρ → β → Prop} {p : Prog σ l ε α}
  {k : α → Prog σ l ε β} {s s' : σ} {D D' : ρ}

/-- The steps of others do no harm. -/
lemma Obeys.others (h : p.Obeys P Q s D) (hs : P.others D s s') : p.Obeys P Q s' D := by
  cases p with
  | ret a => exact fun s₁ h₁ => h s₁ (P.trans hs h₁)
  | act f next => exact fun s₁ h₁ => h s₁ (P.trans hs h₁)
  | emit x next => exact fun s₁ h₁ => h s₁ (P.trans hs h₁)
  | stop e => trivial

lemma Obeys.post (h : p.Obeys P Q s D) (hQ : ∀ s D a, Q s D a → R s D a) : p.Obeys P R s D := by
  induction p generalizing s D with
  | ret a => exact fun s₁ h₁ => hQ _ _ _ (h s₁ h₁)
  | act f next ih =>
    intro s₁ h₁ hok s' hs
    obtain ⟨D', hacc, hnext⟩ := h s₁ h₁ hok s' hs
    exact ⟨D', hacc, ih s₁ hnext⟩
  | emit x next ih =>
    intro s₁ h₁
    obtain ⟨D', htells, hnext⟩ := h s₁ h₁
    exact ⟨D', htells, ih hnext⟩
  | stop e => trivial

lemma Obeys.bind (h : p.Obeys P Q s D) (hk : ∀ s D a, Q s D a → (k a).Obeys P Q' s D) :
    (p >>= k).Obeys P Q' s D := by
  induction p generalizing s D with
  | ret a => exact hk s D a (h s (P.refl D s))
  | act f next ih =>
    intro s₁ h₁ hok s' hs
    obtain ⟨D', hacc, hnext⟩ := h s₁ h₁ hok s' hs
    exact ⟨D', hacc, ih s₁ hnext⟩
  | emit x next ih =>
    intro s₁ h₁
    obtain ⟨D', htells, hnext⟩ := h s₁ h₁
    exact ⟨D', htells, ih hnext⟩
  | stop e => trivial

/-- The access a program is at. -/
def Next (p : Prog σ l ε α) (ok : (σ → Option σ) → Prop) : Prop :=
  match p with
  | .act f _ => ok f
  | _ => True

lemma Next.mono {ok ok' : (σ → Option σ) → Prop} (h : p.Next ok) (himp : ∀ f, ok f → ok' f) :
    p.Next ok' := by
  cases p with
  | act f next => exact himp f h
  | _ => trivial

lemma next_of_forall {ok : (σ → Option σ) → Prop} (h : ∀ f, ok f) : p.Next ok := by
  cases p with
  | act f next => exact h f
  | _ => trivial

/-- A protocol by which looking at the state is allowed at any time. -/
def Protocol.Reads (P : Protocol σ l ρ) : Prop := ∀ s D, P.access some s D s D

lemma Protocol.Reads.obeys (hP : P.Reads) {g : σ → α}
    (h : ∀ s₁, P.others D s s₁ → (k (g s₁)).Obeys P Q' s₁ D) : (read g >>= k).Obeys P Q' s D := by
  intro s₁ h₁ _ s' hs
  obtain rfl := Option.some.inj hs
  exact ⟨D, hP s₁ D, h s₁ h₁⟩

/-- One step of the program. -/
lemma Obeys.advance {ls : List l} {p' : Prog σ l ε α} (h : p.Obeys P Q s D)
    (hok : p.Next (P.ok · s)) (hp : p.advance s = some (ls, s', p')) :
    ∃ D', p'.Obeys P Q s' D' ∧ p.Next (P.access · s D s' D') ∧
      ((ls = [] ∧ ∃ f, P.access f s D s' D') ∨ ∃ x, ls = [x] ∧ s' = s ∧ P.tells x s D D') := by
  cases p with
  | ret a => simp [Prog.advance] at hp
  | act f next =>
    obtain ⟨t, ht, he⟩ := Option.map_eq_some_iff.mp hp
    simp only [Prod.mk.injEq] at he
    obtain ⟨rfl, rfl, rfl⟩ := he
    obtain ⟨D', hacc, hnext⟩ := h s (P.refl D s) hok _ ht
    exact ⟨D', hnext, hacc, .inl ⟨rfl, f, hacc⟩⟩
  | emit x next =>
    simp only [Prog.advance, Option.some.injEq, Prod.mk.injEq] at hp
    obtain ⟨rfl, rfl, rfl⟩ := hp
    obtain ⟨D', htells, hnext⟩ := h s (P.refl D s)
    exact ⟨D', hnext, trivial, .inr ⟨x, rfl, rfl, htells⟩⟩
  | stop e => simp [Prog.advance] at hp

/-- A run alone, of a program that makes its accesses rightly as long as no other runs. -/
lemma Obeys.run {ρ' : Type} {L : Protocol σ l ρ'} {S : σ → ρ' → α → Prop} {E : ρ'}
    {I : List l → σ → ρ → Prop} {ls tr : List l} {a : α} (h : p.Obeys P Q s D)
    (g : p.Obeys L S s E) (hL : ∀ f s, L.ok f s)
    (hok : ∀ f s s' E E', L.access f s E s' E' → P.ok f s)
    (haccess : ∀ {tr f s s' D D'}, I tr s D → P.access f s D s' D' → I tr s' D')
    (htells : ∀ {tr x s D D'}, I tr s D → P.tells x s D D' → I (tr ++ [x]) s D')
    (hI : I tr s D) (hr : p.Runs s ls s' a) : ∃ D', I (tr ++ ls) s' D' ∧ Q s' D' a := by
  unfold Runs at hr
  induction p generalizing s D E tr ls with
  | ret b =>
    simp only [run_ret, Result.mk.injEq, Outcome.done.injEq] at hr
    obtain ⟨rfl, rfl, rfl⟩ := hr
    rw [List.append_nil]
    exact ⟨D, hI, h s (P.refl D s)⟩
  | act f next ih =>
    unfold Prog.run at hr
    cases hs : f s with
    | none =>
      rw [hs] at hr
      cases hr
    | some t =>
      rw [hs] at hr
      obtain ⟨E', hacc, hrest⟩ := g s (L.refl E s) (hL f s) t hs
      obtain ⟨D', hstep, hnext⟩ := h s (P.refl D s) (hok f s t E E' hacc) t hs
      exact ih s hnext hrest (haccess hI hstep) hr
  | emit x next ih =>
    obtain ⟨E', -, hrest⟩ := g s (L.refl E s)
    obtain ⟨D', htell, hnext⟩ := h s (P.refl D s)
    simp only [Prog.run, Result.mk.injEq] at hr
    obtain ⟨rfl, hstate, hout⟩ := hr
    obtain ⟨D'', hend, hq⟩ := ih hnext hrest (htells hI htell) (by rw [← hstate, ← hout])
    rw [List.append_assoc] at hend
    exact ⟨D'', hend, hq⟩
  | stop e => cases hr

end Prog
end OsI386
