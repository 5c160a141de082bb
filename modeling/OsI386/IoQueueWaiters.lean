import OsI386.IoQueueHistory

/-!
# Sleeping on a condition that already holds

`ioq_wait` registers without testing again what was tested before `mutex_lock`. The runs
in which that test still holds each time a sleeping thread obtains the mutex are exactly
the runs in which a registered consumer means empty and a registered producer means full.
-/
namespace OsI386
open TransitionSystem

variable {T : Type}

/-- No thread is registered for a condition that already holds. -/
structure NoIdleWait (q : Ioqueue T) : Prop where
  consumer : q.consumer ≠ none → ioqEmpty q = true
  producer : q.producer ≠ none → ioqFull q = true

/-- The condition that keeps a thread waiting. -/
def Waiter.cond (w : Waiter) (q : Ioqueue T) : Bool :=
  match w with
  | .producer => ioqFull q
  | .consumer => ioqEmpty q

lemma mustWait_eq_cond (c : IoqCall) (q : Ioqueue T) : c.mustWait q = c.waiter.cond q := by
  cases c <;> rfl

lemma noIdleWait_iff {q : Ioqueue T} :
    NoIdleWait q ↔ ∀ w, q.waiter w ≠ none → w.cond q = true := by
  constructor
  · intro h w hw
    cases w with
    | producer => exact h.producer hw
    | consumer => exact h.consumer hw
  · intro h
    exact ⟨h .consumer, h .producer⟩

lemma cond_congr {q q' : Ioqueue T} (hh : q'.head = q.head) (ht : q'.tail = q.tail) (w : Waiter) :
    w.cond q' = w.cond q := by
  cases w <;> simp [Waiter.cond, ioqFull, ioqEmpty, hh, ht]

lemma noIdleWait_ioqFinish {q : Ioqueue T} {c : IoqCall} (h : NoIdleWait q)
    (hc : c.mustWait q = false) : NoIdleWait (ioqFinish q c).q := by
  cases c with
  | getchar =>
    constructor
    case producer => simp [ioqFinish, ioqSignal, Ioqueue.setWaiter]
    case consumer =>
      intro hne
      have hempty := h.consumer hne
      simp_all [ioqEmpty]
  | putchar byte =>
    constructor
    case consumer => simp [ioqFinish, ioqSignal, Ioqueue.setWaiter]
    case producer =>
      intro hne
      have hfull := h.producer hne
      simp_all [ioqFull]

variable [DecidableEq T]

lemma noIdleWait_ioqLockWait {q : Ioqueue T} {t : T} {c : IoqCall} (h : NoIdleWait q)
    (hc : q.mtx.sem.val ≠ 0 → c.mustWait q = true) :
    NoIdleWait (ioqLockWait q t c.waiter).q := by
  rw [noIdleWait_iff] at h ⊢
  intro w hw
  unfold ioqLockWait semDown at hw ⊢
  split_ifs at hw ⊢ with hv hm
  · exact h w hw
  · exact h w hw
  · rw [cond_congr (q := q) (by simp) (by simp)]
    by_cases he : w = c.waiter
    · rw [he, ← mustWait_eq_cond]
      exact hc hv
    · exact h w (by simpa [setWaiter_waiter_of_ne _ _ _ he] using hw)

lemma noIdleWait_ioqLoop {q : Ioqueue T} {t : T} {c : IoqCall} (h : NoIdleWait q) :
    NoIdleWait (ioqLoop q t c).q := by
  unfold ioqLoop
  cases hc : c.mustWait q with
  | true => simpa using noIdleWait_ioqLockWait h fun _ => hc
  | false => simpa using noIdleWait_ioqFinish h hc

/-- A thread that obtains the mutex after having slept in `sem_down` still finds the test
of its `while` true. -/
def TestStillHolds (s : IoqSystem T) : IoqEvent T → Prop
  | .resume t =>
    ∀ c, s.pc t = some (c, .inLock) → s.q.mtx.sem.val ≠ 0 → c.mustWait s.q = true
  | _ => True

variable {s s' : IoqSystem T}

lemma commit_q {t : T} {c : IoqCall} {r : IoqSegment T} (h : s.commit t c r = some s') :
    s'.q = r.q := by
  cases hstop : r.stop with
  | sleep point =>
    obtain ⟨status, _, rfl⟩ := commit_sleep hstop h
    rfl
  | done byte =>
    obtain ⟨status, _, hq, _⟩ := commit_done hstop h
    exact hq

lemma noIdleWait_step {e : IoqEvent T} (h : NoIdleWait s.q) (ok : TestStillHolds s e)
    (hs : s.step e = some s') : NoIdleWait s'.q := by
  rcases IoqSystem.step_cases hs with ⟨t, c, r, he, _, hseg, hc⟩ | ⟨t, st, _, rfl⟩
  · rw [commit_q hc]
    rcases hseg with ⟨_, rfl⟩ | ⟨point, hpc, hr⟩
    · exact noIdleWait_ioqLoop h
    · cases point with
      | inLock =>
        obtain rfl := Option.some.inj hr
        rcases he with rfl | rfl
        · simp [IoqSystem.step, hpc] at hs
        · exact noIdleWait_ioqLockWait h (ok c hpc)
      | inWait =>
        obtain ⟨⟨mtx, woken⟩, _, hr⟩ := Option.bind_eq_some_iff.mp hr
        obtain rfl := Option.some.inj hr
        exact noIdleWait_ioqLoop (q := { s.q with mtx := mtx }) ⟨h.consumer, h.producer⟩
  · exact h

/-- A thread that obtains the mutex with its test false registers for what already holds. -/
lemma idleWait_of_not_testStillHolds {e : IoqEvent T} (ok : ¬ TestStillHolds s e)
    (hs : s.step e = some s') : ¬ NoIdleWait s'.q := by
  cases e with
  | resume t =>
    simp only [TestStillHolds, not_forall] at ok
    obtain ⟨c, hpc, hv, hw⟩ := ok
    simp only [IoqSystem.step, hpc, ioqResume, Option.ite_none_right_eq_some,
      Option.bind_some] at hs
    intro hidle
    rw [noIdleWait_iff, commit_q hs.2] at hidle
    have hreg := hidle c.waiter
    simp only [ioqLockWait, semDown, hv, ↓reduceIte, setWaiter_waiter] at hreg
    rw [cond_congr (q := s.q) (by simp) (by simp), ← mustWait_eq_cond] at hreg
    exact hw (hreg (by simp))
  | call t c => exact absurd trivial ok
  | sleep t st => exact absurd trivial ok
  | wake t => exact absurd trivial ok

/-- A run keeps registered consumers on an empty queue and registered producers on a full
one exactly when each sleeping thread obtains the mutex with its test still true. -/
theorem no_idle_wait_iff {buf : ℕ → Byte} {es : List (IoqEvent T)}
    (h : run IoqSystem.step (IoqSystem.init buf) es = some s) :
    RunAlways IoqSystem.step (fun a => NoIdleWait a.q) (IoqSystem.init buf) es ↔
      RunAllowed IoqSystem.step TestStillHolds (IoqSystem.init buf) es := by
  apply runAlways_iff_runAllowed (P := fun a => NoIdleWait a.q) _ _ _ h
  · constructor <;> simp [IoqSystem.init, ioqueueInit]
  · exact fun a e b hI ok hs => noIdleWait_step hI ok hs
  · exact fun a e b ok hs => idleWait_of_not_testStillHolds ok hs

/-- Two consumers: 1 is woken in `ioq_wait` and 2 sleeps in `mutex_lock`; when 1 gives the
mutex up without draining the queue, 2 registers with a byte in it. -/
theorem consumer_waits_on_nonempty :
    ∃ s : IoqSystem ℕ,
      run IoqSystem.step (IoqSystem.init fun _ => 0)
        [.call 1 .getchar, .call 2 .getchar, .call 3 (.putchar 7), .call 3 (.putchar 8),
          .resume 1, .resume 2] = some s ∧
      s.q.consumer = some 2 ∧ ioqEmpty s.q = false ∧ s.status 2 = .blocked :=
  ⟨_, rfl, rfl, rfl, rfl⟩

/-- The theorem at a run of three threads: 2 obtains the mutex after sleeping for it, and
the queue is empty again by then. -/
theorem no_idle_wait_iff_drained :
    RunAlways IoqSystem.step (fun a : IoqSystem ℕ => NoIdleWait a.q) (IoqSystem.init fun _ => 0)
      [.call 1 .getchar, .call 2 .getchar, .call 3 (.putchar 7), .resume 1, .resume 2] := by
  have hrun : ∃ s : IoqSystem ℕ, run IoqSystem.step (IoqSystem.init fun _ => 0)
      [.call 1 .getchar, .call 2 .getchar, .call 3 (.putchar 7), .resume 1, .resume 2] = some s :=
    ⟨_, rfl⟩
  obtain ⟨s, hs⟩ := hrun
  rw [no_idle_wait_iff hs]
  refine ⟨trivial, _, rfl, trivial, _, rfl, trivial, _, rfl, ?_, _, rfl, ?_, _, rfl, trivial⟩
  · intro c hpc
    cases hpc
  · intro c hpc _
    cases hpc
    rfl

end OsI386
