import OsI386.MutexExclusion

/-!
# Wake-ups and the holder of one mutex

`sem_up` wakes a waiter without giving it the mutex. The woken thread stays runnable until it
passes the loop test or queues itself again, so a free mutex with waiters always has a thread
on its way. The holder field is written outside the sections with interrupts off, and there
the order of two threads' writes is left to the scheduler.
-/
namespace OsI386
open TransitionSystem

variable {T : Type} [DecidableEq T] {s s' : LockSystem T}

/-- Taken out of `waiters` by `sem_up` and not yet past the loop test again. -/
def LockSystem.Woken (s : LockSystem T) (t : T) : Prop :=
  s.pc t = .inDown ∧ (s.status t).Runnable ∧ t ∉ s.mtx.sem.waiters

/-- A free mutex with waiters has a thread on its way to it. -/
def LockSystem.WakePending (s : LockSystem T) : Prop :=
  0 < s.mtx.sem.val → s.mtx.sem.waiters ≠ [] → ∃ t, s.Woken t

omit [DecidableEq T] in
lemma LockSystem.wakePending_init : (LockSystem.init (T := T)).WakePending := by
  intro _ hw
  simp [LockSystem.init, mutexInit, semInit] at hw

omit [DecidableEq T] in
/-- A step of a thread outside the loop of `sem_down` that leaves the semaphore alone. -/
lemma LockSystem.WakePending.move {t : T} (h : s.WakePending)
    (hsem : s'.mtx.sem = s.mtx.sem) (hpc : ∀ u ≠ t, s'.pc u = s.pc u)
    (hst : ∀ u ≠ t, s'.status u = s.status u) (ht : s.pc t ≠ .inDown) : s'.WakePending := by
  unfold LockSystem.WakePending at h ⊢
  rw [hsem]
  intro hv hw
  obtain ⟨u, hu, hrun, hnot⟩ := h hv hw
  have hne : u ≠ t := fun he => ht (he ▸ hu)
  exact ⟨u, (hpc u hne).trans hu, hst u hne ▸ hrun, hsem ▸ hnot⟩

/-- The loop test leaves the mutex taken. -/
lemma lockDown_val (h : LockInv s) (t : T) : (lockDown s t).mtx.sem.val = 0 := by
  unfold lockDown semDown
  rcases h.counter with ⟨hv, _⟩ | ⟨hv, _⟩
  · simp [hv]
  · by_cases hw : t ∈ s.mtx.sem.waiters
    · simp [hv, hw]
    · simp [hv, hw]

/-- The loop test neither lets a thread return from `mutex_lock` nor changes the holder. -/
lemma lockDown_locked (s : LockSystem T) (t : T) {u : T} (hu : (lockDown s t).pc u = .locked) :
    s.pc u = .locked ∧ (lockDown s t).mtx.holder = s.mtx.holder := by
  unfold lockDown at hu ⊢
  cases hd : semDown s.mtx.sem t with
  | taken sem =>
    have hut : u ≠ t := by
      rintro rfl
      simp [hd] at hu
    exact ⟨by simpa [hd, hut] using hu, rfl⟩
  | sleep sem =>
    have hut : u ≠ t := by
      rintro rfl
      simp [hd] at hu
    exact ⟨by simpa [hd, hut] using hu, rfl⟩

/-- `sem_up` puts the first waiter on its way. -/
lemma wakePending_lockUp {t : T} (h : LockInv s) (hs : lockUp s t = some s')
    (hpc : s.pc t = .locked) : s'.WakePending := by
  have hv := h.val_eq_zero (.inr hpc)
  unfold lockUp semUp at hs
  rw [if_pos hv] at hs
  cases hw : s.mtx.sem.waiters with
  | nil =>
    simp only [hw, unblock, Option.bind_eq_bind, Option.bind_some, Option.some.injEq, pure] at hs
    subst hs
    intro _ hne
    exact absurd rfl hne
  | cons w ws =>
    have hwb : s.BlockedInDown w := (h.waiters w).mp (by simp [hw])
    have hsl : (s.status w).Sleeping := .inl hwb.2
    have hnd := h.nodup
    rw [hw, List.nodup_cons] at hnd
    have hwt : w ≠ t := by
      rintro rfl
      exact absurd hwb.1 (by simp [hpc])
    simp only [hw, unblock, hsl, if_true, Option.bind_eq_bind, Option.bind_some, Option.some.injEq,
      pure] at hs
    subst hs
    intro _ _
    refine ⟨w, ?_, ?_, hnd.1⟩
    · simpa [hwt] using hwb.1
    · simp

lemma LockSystem.WakePending.step {e : LockEvent T} (h : s.WakePending) (hinv : LockInv s)
    (hs : lockStep s e = some s') : s'.WakePending := by
  cases e with
  | lock t =>
    simp only [lockStep, Option.ite_none_right_eq_some, Option.some.injEq] at hs
    obtain ⟨_, rfl⟩ := hs
    intro hv
    simp [lockDown_val hinv] at hv
  | resume t =>
    simp only [lockStep, Option.ite_none_right_eq_some, Option.some.injEq] at hs
    obtain ⟨_, rfl⟩ := hs
    intro hv
    simp [lockDown_val hinv] at hv
  | setHolder t =>
    simp only [lockStep, Option.ite_none_right_eq_some, Option.some.injEq] at hs
    obtain ⟨⟨_, hpc⟩, rfl⟩ := hs
    apply h.move (t := t)
    · rfl
    · simp +contextual
    · simp
    · simp [hpc]
  | unlock t =>
    simp only [lockStep, Option.ite_none_right_eq_some] at hs
    exact wakePending_lockUp hinv hs.2 hs.1.2
  | clearHolder t =>
    simp only [lockStep, Option.ite_none_right_eq_some, Option.some.injEq] at hs
    obtain ⟨⟨_, hpc⟩, rfl⟩ := hs
    apply h.move (t := t)
    · rfl
    · simp +contextual
    · simp
    · simp [hpc]
  | sleep t st =>
    simp only [lockStep, Option.ite_none_right_eq_some, Option.some.injEq] at hs
    obtain ⟨⟨_, hpc, _⟩, rfl⟩ := hs
    apply h.move (t := t)
    · rfl
    · simp
    · simp +contextual
    · exact hpc
  | wake t =>
    simp only [lockStep, Option.ite_none_right_eq_some, Option.some.injEq] at hs
    obtain ⟨⟨_, hpc⟩, rfl⟩ := hs
    apply h.move (t := t)
    · rfl
    · simp
    · simp +contextual
    · exact hpc

/-- While the mutex is free and threads wait for it, a thread that `sem_up` has taken out of
`waiters` is ready and still in the loop of `sem_down`; so the threads in `sem_down` are never
all asleep then. -/
theorem no_lost_wakeup (h : Reach lockStep (fun _ _ => True) LockSystem.init s)
    (hfree : 0 < s.mtx.sem.val) :
    (s.mtx.sem.waiters ≠ [] → ∃ t, s.Woken t) ∧
      ((∃ t, s.pc t = .inDown) → ∃ t, s.pc t = .inDown ∧ (s.status t).Runnable) := by
  have hpending : LockInv s ∧ s.WakePending :=
    h.invariant (I := fun s => LockInv s ∧ s.WakePending)
      ⟨LockInv.init, LockSystem.wakePending_init⟩ fun _ _ _ hI _ hs => ⟨hI.1.step hs, hI.2.step hI.1 hs⟩
  obtain ⟨hinv, hwake⟩ := hpending
  refine ⟨hwake hfree, ?_⟩
  rintro ⟨t, ht⟩
  rcases hinv.asleep t ht with hrun | hblocked
  · exact ⟨t, ht, hrun⟩
  · have hmem := (hinv.waiters t).mpr ⟨ht, hblocked⟩
    obtain ⟨u, hu, hrun, _⟩ := hwake hfree (List.ne_nil_of_mem hmem)
    exact ⟨u, hu, hrun⟩

/-- Threads 1 and 2 wait for the mutex of thread 0, which gives it up: 2 still waits, and 1 is
on its way. -/
theorem no_lost_wakeup_two_waiters : ∃ s : LockSystem ℕ,
    run lockStep LockSystem.init [.lock 0, .setHolder 0, .lock 1, .lock 2, .unlock 0] = some s ∧
      s.mtx.sem.waiters = [2] ∧ ∃ t, s.Woken t := by
  obtain ⟨s, hs, hw, hv⟩ : ∃ s : LockSystem ℕ, run lockStep LockSystem.init
      [.lock 0, .setHolder 0, .lock 1, .lock 2, .unlock 0] = some s ∧
        s.mtx.sem.waiters = [2] ∧ s.mtx.sem.val = 1 := ⟨_, rfl, rfl, rfl⟩
  exact ⟨s, hs, hw, (no_lost_wakeup (Reach.of_run hs) (by omega)).1 (by simp [hw])⟩

/-- A thread between `mutex_lock` and `mutex_unlock` is the holder. -/
def LockSystem.HolderRight (s : LockSystem T) : Prop :=
  ∀ t, s.pc t = .locked → s.mtx.holder = some t

/-- No thread clears the holder field after another one has returned from `mutex_lock`. -/
def NoLateClear (s : LockSystem T) (e : LockEvent T) : Prop :=
  ∀ t, e = .clearHolder t → ∀ u, s.pc u ≠ .locked

lemma LockSystem.HolderRight.step {e : LockEvent T} (hinv : LockInv s) (h : s.HolderRight)
    (ok : NoLateClear s e) (hs : lockStep s e = some s') : s'.HolderRight := by
  intro u hu
  cases e with
  | lock t =>
    simp only [lockStep, Option.ite_none_right_eq_some, Option.some.injEq] at hs
    obtain ⟨⟨_, hpc⟩, rfl⟩ := hs
    obtain ⟨hother, hholder⟩ := lockDown_locked s t hu
    exact hholder.trans (h u hother)
  | resume t =>
    simp only [lockStep, Option.ite_none_right_eq_some, Option.some.injEq] at hs
    obtain ⟨⟨_, hpc⟩, rfl⟩ := hs
    obtain ⟨hother, hholder⟩ := lockDown_locked s t hu
    exact hholder.trans (h u hother)
  | setHolder t =>
    simp only [lockStep, Option.ite_none_right_eq_some, Option.some.injEq] at hs
    obtain ⟨⟨_, hpc⟩, rfl⟩ := hs
    by_cases hut : u = t
    · simp [hut]
    · have hlocked : s.pc u = .locked := by simpa [hut] using hu
      exact absurd (hinv.exclusive u t (.inr hlocked) (.inl hpc)) hut
  | unlock t =>
    simp only [lockStep, Option.ite_none_right_eq_some] at hs
    obtain ⟨⟨_, hpc⟩, hup⟩ := hs
    obtain ⟨r, _, hup⟩ := Option.bind_eq_some_iff.mp hup
    obtain ⟨status, _, hup⟩ := Option.bind_eq_some_iff.mp hup
    obtain rfl := Option.some.inj hup
    have hut : u ≠ t := by
      rintro rfl
      simp at hu
    exact h u (by simpa [hut] using hu)
  | clearHolder t =>
    simp only [lockStep, Option.ite_none_right_eq_some, Option.some.injEq] at hs
    obtain ⟨_, rfl⟩ := hs
    have hut : u ≠ t := by
      rintro rfl
      simp at hu
    exact absurd (by simpa [hut] using hu) (ok t rfl u)
  | sleep t st =>
    simp only [lockStep, Option.ite_none_right_eq_some, Option.some.injEq] at hs
    obtain ⟨_, rfl⟩ := hs
    exact h u hu
  | wake t =>
    simp only [lockStep, Option.ite_none_right_eq_some, Option.some.injEq] at hs
    obtain ⟨_, rfl⟩ := hs
    exact h u hu

/-- A late clear leaves the thread inside without its name in the holder field. -/
lemma not_holderRight_of_lateClear {e : LockEvent T} (ok : ¬ NoLateClear s e)
    (hs : lockStep s e = some s') : ¬ s'.HolderRight := by
  simp only [NoLateClear, not_forall, not_not] at ok
  obtain ⟨t, rfl, u, hu⟩ := ok
  simp only [lockStep, Option.ite_none_right_eq_some, Option.some.injEq] at hs
  obtain ⟨⟨_, hpc⟩, rfl⟩ := hs
  intro h
  have hut : u ≠ t := by
    rintro rfl
    simp [hpc] at hu
  have hholder := h u (by simpa [hut] using hu)
  simp at hholder

/-- A run keeps every thread between `mutex_lock` and `mutex_unlock` in the holder field if and
only if no thread clears the field while another one is there. -/
theorem holder_right_iff {es : List (LockEvent T)}
    (h : run lockStep LockSystem.init es = some s) :
    RunAlways lockStep LockSystem.HolderRight LockSystem.init es ↔
      RunAllowed lockStep NoLateClear LockSystem.init es := by
  apply runAlways_iff_runAllowed_of_inv (J := LockInv) _ LockInv.init _ _ _ h
  · intro t ht
    simp [LockSystem.init] at ht
  · exact fun _ _ _ hI hs => hI.step hs
  · exact fun _ _ _ hI hP ok hs => hP.step hI ok hs
  · exact fun _ _ _ ok hs => not_holderRight_of_lateClear ok hs

/-- Thread 0 gives the mutex up, is preempted before it clears the holder field, and clears it
after 1 has locked. -/
theorem holder_cleared_late : ∃ s : LockSystem ℕ,
    run lockStep LockSystem.init
      [.lock 0, .setHolder 0, .unlock 0, .lock 1, .setHolder 1, .clearHolder 0] = some s ∧
      s.pc 1 = .locked ∧ s.mtx.holder = none := ⟨_, rfl, rfl, rfl⟩

/-- Thread 1 locks in the same place, but 0 clears the field before 1 has returned from
`mutex_lock`. -/
theorem holder_right_iff_in_time :
    RunAlways lockStep LockSystem.HolderRight (LockSystem.init (T := ℕ))
      [.lock 0, .setHolder 0, .unlock 0, .lock 1, .clearHolder 0, .setHolder 1] := by
  obtain ⟨s, hs⟩ : ∃ s : LockSystem ℕ, run lockStep LockSystem.init
      [.lock 0, .setHolder 0, .unlock 0, .lock 1, .clearHolder 0, .setHolder 1] = some s :=
    ⟨_, rfl⟩
  rw [holder_right_iff hs]
  refine ⟨by simp [NoLateClear], _, rfl, by simp [NoLateClear], _, rfl, by simp [NoLateClear], _,
    rfl, by simp [NoLateClear], _, rfl, ?_, _, rfl, by simp [NoLateClear], _, rfl, trivial⟩
  rintro t ht u hu
  by_cases h1 : u = 1
  · subst h1
    cases hu
  · by_cases h0 : u = 0
    · subst h0
      cases hu
    · simp [lockDown, semDown, LockSystem.init, mutexInit, semInit, h0, h1] at hu

end OsI386
