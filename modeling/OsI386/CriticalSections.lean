import OsI386.ProgramLogic

/-!
# Sections that exclude each other

Programs on one state, each entered when the one before it has ended. However the accesses of the
current one are spread over time, the state is that of the programs run one after another.
-/
namespace OsI386
namespace Prog

variable {σ l ε α : Type} {p p' : Prog σ l ε α} {s s₀ s' : σ} {tr ls : List l}

/-- How far a program can get. -/
inductive Steps (p : Prog σ l ε α) (s : σ) : List l → σ → Prog σ l ε α → Prop
  | refl : Steps p s [] s p
  | snoc {tr ls : List l} {s1 s2 : σ} {p1 p2 : Prog σ l ε α} (prior : Steps p s tr s1 p1)
      (taken : p1.advance s1 = some (ls, s2, p2)) : Steps p s (tr ++ ls) s2 p2

/-- What is left ends as the whole does. -/
lemma run_advance (h : p.advance s = some (ls, s', p')) :
    p.run s = { p'.run s' with trace := ls ++ (p'.run s').trace } := by
  cases p with
  | ret a => simp [advance] at h
  | act f next =>
    obtain ⟨t, ht, he⟩ := Option.map_eq_some_iff.mp h
    obtain ⟨rfl, rfl, rfl⟩ : [] = ls ∧ t = s' ∧ next s = p' := by simpa using he
    simp [run, ht]
  | emit x next =>
    obtain ⟨rfl, rfl, rfl⟩ : [x] = ls ∧ s = s' ∧ next = p' := by simpa [advance] using h
    simp [run]
  | stop e => simp [advance] at h

lemma Steps.run (h : p.Steps s tr s' p') :
    p.run s = { p'.run s' with trace := tr ++ (p'.run s').trace } := by
  induction h with
  | refl => simp
  | snoc _ taken ih => rw [ih, run_advance taken, List.append_assoc]

lemma Steps.runs {a : α} (h : p.Steps s tr s' (.ret a)) : p.Runs s tr s' a := by
  rw [Runs, h.run]
  simp

/-- One after another. -/
def inOrder (ps : List (Prog σ l ε Unit)) : Prog σ l ε Unit :=
  ps.foldl (fun done p => done >>= fun _ => p) (.ret ())

lemma inOrder_concat (ps : List (Prog σ l ε Unit)) (p : Prog σ l ε Unit) :
    inOrder (ps ++ [p]) = inOrder ps >>= fun _ => p := by
  rw [inOrder, List.foldl_append]
  rfl

/-- The programs that have been entered, and what is left of the last one while it is not over. -/
inductive Sections (s₀ : σ) : List (Prog σ l ε Unit) → Option (Prog σ l ε Unit) → List l → σ → Prop
  | start : Sections s₀ [] none [] s₀
  | enter {ps : List (Prog σ l ε Unit)} {tr : List l} {s : σ} (prior : Sections s₀ ps none tr s)
      (p : Prog σ l ε Unit) : Sections s₀ (ps ++ [p]) (some p) tr s
  | advance {ps : List (Prog σ l ε Unit)} {p p' : Prog σ l ε Unit} {tr ls : List l} {s s' : σ}
      (prior : Sections s₀ ps (some p) tr s) (taken : p.advance s = some (ls, s', p')) :
      Sections s₀ ps (some p') (tr ++ ls) s'
  | leave {ps : List (Prog σ l ε Unit)} {tr : List l} {s : σ}
      (prior : Sections s₀ ps (some (.ret ())) tr s) : Sections s₀ ps none tr s

variable {ps : List (Prog σ l ε Unit)} {q : Prog σ l ε Unit} {o : Option (Prog σ l ε Unit)}

/-- All but the current one have run one after another. -/
lemma Sections.split (h : Sections s₀ ps o tr s) : ∃ qs tr1 s1, (inOrder qs).Runs s₀ tr1 s1 () ∧
    ((o = none ∧ ps = qs ∧ tr = tr1 ∧ s = s1) ∨ ∃ p p' tr2, o = some p' ∧ ps = qs ++ [p] ∧
      tr = tr1 ++ tr2 ∧ p.Steps s1 tr2 s p') := by
  induction h with
  | start => exact ⟨[], [], s₀, Runs.ret () s₀, .inl ⟨rfl, rfl, rfl, rfl⟩⟩
  | enter _ p ih =>
    obtain ⟨qs, tr1, s1, hrun, ⟨-, rfl, rfl, rfl⟩ | ⟨_, _, _, h, -⟩⟩ := ih
    · exact ⟨_, _, _, hrun, .inr ⟨p, p, [], rfl, rfl, (List.append_nil _).symm, .refl⟩⟩
    · exact absurd h (Option.some_ne_none _).symm
  | advance _ taken ih =>
    obtain ⟨qs, tr1, s1, hrun, ⟨h, -⟩ | ⟨p, _, tr2, h, rfl, rfl, hsteps⟩⟩ := ih
    · exact absurd h (Option.some_ne_none _)
    · obtain rfl := Option.some.inj h
      exact ⟨qs, tr1, s1, hrun,
        .inr ⟨p, _, _, rfl, rfl, List.append_assoc _ _ _, hsteps.snoc taken⟩⟩
  | leave _ ih =>
    obtain ⟨qs, tr1, s1, hrun, ⟨h, -⟩ | ⟨p, _, tr2, h, rfl, rfl, hsteps⟩⟩ := ih
    · exact absurd h (Option.some_ne_none _)
    · obtain rfl := Option.some.inj h
      refine ⟨qs ++ [p], _, _, ?_, .inl ⟨rfl, rfl, rfl, rfl⟩⟩
      rw [inOrder_concat]
      exact hrun.bind hsteps.runs

/-- Between two programs the state is that of all of them run one after another. -/
theorem Sections.serial (h : Sections s₀ ps none tr s) : (inOrder ps).Runs s₀ tr s () := by
  obtain ⟨_, _, _, hrun, ⟨-, rfl, rfl, rfl⟩ | ⟨_, _, _, h, -⟩⟩ := h.split
  · exact hrun
  · exact absurd h (Option.some_ne_none _).symm

/-- Within one, it is some way further than that. -/
theorem Sections.current (h : Sections s₀ ps (some q) tr s) : ∃ qs p tr1 tr2 s1, ps = qs ++ [p] ∧
    (inOrder qs).Runs s₀ tr1 s1 () ∧ p.Steps s1 tr2 s q ∧ tr = tr1 ++ tr2 := by
  obtain ⟨qs, tr1, s1, hrun, ⟨hq, -⟩ | ⟨p, _, tr2, hq, rfl, rfl, hsteps⟩⟩ := h.split
  · exact absurd hq (Option.some_ne_none _)
  · obtain rfl := Option.some.inj hq
    exact ⟨qs, p, tr1, tr2, s1, rfl, hrun, hsteps, rfl⟩

end Prog
end OsI386
