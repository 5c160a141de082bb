import OsI386.Sync
import OsI386.TransitionSystem

/-!
# Exclusion, the counter and the waiters of one mutex

The three are kept together by one invariant: a woken thread has left `waiters` but owns
nothing until it passes the loop test again.
-/
namespace OsI386
open TransitionSystem

variable {T : Type}

/-- Past the decrement of `sem_down` and before the increment of `sem_up`. -/
def LockSystem.Inside (s : LockSystem T) (t : T) : Prop := s.pc t = .downDone ∨ s.pc t = .locked

/-- Asleep in the loop of `sem_down`. -/
def LockSystem.BlockedInDown (s : LockSystem T) (t : T) : Prop :=
  s.pc t = .inDown ∧ s.status t = .blocked

structure LockInv (s : LockSystem T) : Prop where
  exclusive : ∀ t u, s.Inside t → s.Inside u → t = u
  counter : (s.mtx.sem.val = 1 ∧ ∀ t, ¬ s.Inside t) ∨ (s.mtx.sem.val = 0 ∧ ∃ t, s.Inside t)
  nodup : s.mtx.sem.waiters.Nodup
  waiters : ∀ t, t ∈ s.mtx.sem.waiters ↔ s.BlockedInDown t
  asleep : ∀ t, s.pc t = .inDown → (s.status t).Runnable ∨ s.status t = .blocked

variable {s s' : LockSystem T}

lemma LockInv.val_eq_zero (h : LockInv s) {t : T} (ht : s.Inside t) : s.mtx.sem.val = 0 := by
  rcases h.counter with ⟨_, hn⟩ | ⟨hv, _⟩
  · exact absurd ht (hn t)
  · exact hv

lemma not_blocked_of_runnable {st : TaskStatus} (h : st.Runnable) : st ≠ .blocked := by
  rintro rfl
  simp [TaskStatus.Runnable] at h

variable [DecidableEq T]

/-- A step that moves one thread and neither the counter nor the waiters. -/
lemma LockInv.move {t : T} (h : LockInv s) (hsem : s'.mtx.sem = s.mtx.sem)
    (hpc : ∀ u ≠ t, s'.pc u = s.pc u) (hst : ∀ u ≠ t, s'.status u = s.status u)
    (hin : s'.Inside t ↔ s.Inside t) (hold : s.pc t ≠ .inDown) (hnew : s'.pc t ≠ .inDown) :
    LockInv s' := by
  have hins : ∀ u, s'.Inside u ↔ s.Inside u := fun u => by
    by_cases he : u = t
    · rw [he, hin]
    · simp [LockSystem.Inside, hpc u he]
  have hbl : ∀ u, s'.BlockedInDown u ↔ s.BlockedInDown u := fun u => by
    by_cases he : u = t
    · simp [LockSystem.BlockedInDown, he, hold, hnew]
    · simp [LockSystem.BlockedInDown, hpc u he, hst u he]
  constructor
  case exclusive => simpa only [hins] using h.exclusive
  case counter => simpa only [hsem, hins] using h.counter
  case nodup => rw [hsem]; exact h.nodup
  case waiters => simpa only [hsem, hbl] using h.waiters
  case asleep =>
    intro u hu
    by_cases he : u = t
    · exact absurd (he ▸ hu) hnew
    · rw [hst u he]
      exact h.asleep u (hpc u he ▸ hu)

/-- The loop test of `sem_down`, on entry or after a wake-up. -/
lemma LockInv.down {t : T} (h : LockInv s) (hrun : (s.status t).Runnable)
    (hpc : s.pc t = .outside ∨ s.pc t = .inDown) : LockInv (lockDown s t) := by
  have hout : ¬ s.Inside t := by
    rcases hpc with hpc | hpc <;> simp [LockSystem.Inside, hpc]
  have hnb : ¬ s.BlockedInDown t := fun hb => not_blocked_of_runnable hrun hb.2
  have hnot : t ∉ s.mtx.sem.waiters := fun hm => hnb ((h.waiters t).mp hm)
  unfold lockDown semDown
  rcases h.counter with ⟨hv, hn⟩ | ⟨hv, v, hvin⟩
  · -- the mutex is free: `t` decrements and leaves the loop
    simp only [hv, one_ne_zero, ↓reduceIte, Nat.sub_self]
    have hins : ∀ u, (Function.update s.pc t .downDone u = .downDone ∨
        Function.update s.pc t .downDone u = .locked) ↔ u = t := fun u => by
      by_cases he : u = t
      · simp [he]
      · have hu := hn u
        simp only [LockSystem.Inside] at hu
        simpa [he] using hu
    constructor
    case exclusive => exact fun u w hu hw => ((hins u).mp hu).trans ((hins w).mp hw).symm
    case counter => exact .inr ⟨rfl, t, (hins t).mpr rfl⟩
    case nodup => exact h.nodup
    case waiters =>
      intro u
      rw [h.waiters u]
      by_cases he : u = t
      · simpa [he, LockSystem.BlockedInDown] using hnb
      · simp [he, LockSystem.BlockedInDown]
    case asleep =>
      intro u hu
      by_cases he : u = t
      · simp [he] at hu
      · exact h.asleep u (by simpa [he] using hu)
  · -- the mutex is taken: `t` queues itself and sleeps
    have hne : v ≠ t := fun he => hout (he ▸ hvin)
    simp only [hv, ↓reduceIte, hnot]
    have hins : ∀ u, (Function.update s.pc t .inDown u = .downDone ∨
        Function.update s.pc t .inDown u = .locked) ↔ s.Inside u := fun u => by
      by_cases he : u = t
      · simpa [he] using hout
      · simp [he, LockSystem.Inside]
    constructor
    case exclusive => exact fun u w hu hw => h.exclusive u w ((hins u).mp hu) ((hins w).mp hw)
    case counter => exact .inr ⟨rfl, v, (hins v).mpr hvin⟩
    case nodup =>
      refine List.nodup_append.mpr ⟨h.nodup, by simp, fun a ha b hb => ?_⟩
      rintro rfl
      exact hnot (List.mem_singleton.mp hb ▸ ha)
    case waiters =>
      intro u
      by_cases he : u = t
      · simp [he, LockSystem.BlockedInDown]
      · simp [he, LockSystem.BlockedInDown, h.waiters u]
    case asleep =>
      intro u hu
      by_cases he : u = t
      · simp [he]
      · simpa [he] using h.asleep u (by simpa [he] using hu)

/-- `sem_up` by the thread inside: both assertions hold, and the first waiter is woken. -/
lemma LockInv.up {t : T} (h : LockInv s) (hpc : s.pc t = .locked) :
    ∃ s', lockUp s t = some s' ∧ LockInv s' := by
  have hin : s.Inside t := .inr hpc
  have hv := h.val_eq_zero hin
  have hins : ∀ u, ¬ (Function.update s.pc t .upDone u = .downDone ∨
      Function.update s.pc t .upDone u = .locked) := fun u => by
    by_cases he : u = t
    · simp [he]
    · have hu : ¬ s.Inside u := fun hu => he (h.exclusive u t hu hin)
      simpa [he, LockSystem.Inside] using hu
  have hnb : t ∉ s.mtx.sem.waiters := fun hm => by
    have hb := ((h.waiters t).mp hm).1
    simp [hpc] at hb
  unfold lockUp semUp
  rw [if_pos hv]
  cases hw : s.mtx.sem.waiters with
  | nil =>
    refine ⟨_, rfl, fun u w hu => absurd hu (hins u), .inl ⟨by simp [hv], hins⟩, ?_, ?_, ?_⟩
    · simp
    · intro u
      have hu := h.waiters u
      rw [hw] at hu
      by_cases he : u = t
      · simp [he, LockSystem.BlockedInDown]
      · simpa [hw, he, LockSystem.BlockedInDown] using hu
    · intro u hu
      by_cases he : u = t
      · simp [he] at hu
      · exact h.asleep u (by simpa [he] using hu)
  | cons w ws =>
    have hwb : s.BlockedInDown w := (h.waiters w).mp (by simp [hw])
    have hnd := h.nodup
    rw [hw, List.nodup_cons] at hnd
    have hsl : (s.status w).Sleeping := .inl hwb.2
    let s' : LockSystem T :=
      { mtx := { s.mtx with sem := ⟨s.mtx.sem.val + 1, ws⟩ }
        status := Function.update s.status w .ready
        pc := Function.update s.pc t .upDone }
    refine ⟨s', by simp [unblock, hsl, s'], fun u w hu => absurd hu (hins u),
      .inl ⟨by simp [s', hv], hins⟩, hnd.2, ?_, ?_⟩
    · intro u
      have hu := h.waiters u
      rw [hw] at hu
      by_cases he : u = t
      · subst he
        have hn : u ∉ ws := fun hm => hnb (by simp [hw, hm])
        simp [s', LockSystem.BlockedInDown, hn]
      · by_cases hew : u = w
        · subst hew
          simp [s', LockSystem.BlockedInDown, hnd.1]
        · simpa [s', he, hew, LockSystem.BlockedInDown] using hu
    · intro u hu
      by_cases he : u = t
      · simp [s', he] at hu
      · by_cases hew : u = w
        · simp [s', hew]
        · simpa [s', hew] using h.asleep u (by simpa [s', he] using hu)

omit [DecidableEq T] in
lemma LockInv.init : LockInv (LockSystem.init (T := T)) := by
  constructor
  case exclusive => simp [LockSystem.init, LockSystem.Inside]
  case counter => simp [LockSystem.init, LockSystem.Inside, mutexInit, semInit]
  case nodup => simp [LockSystem.init, mutexInit, semInit]
  case waiters => simp [LockSystem.init, LockSystem.BlockedInDown, mutexInit, semInit]
  case asleep => simp [LockSystem.init]

/-- One step of the threads keeps the invariant. -/
lemma LockInv.step (h : LockInv s) {e : LockEvent T} (hs : lockStep s e = some s') :
    LockInv s' := by
  cases e with
  | lock t =>
    simp only [lockStep, Option.ite_none_right_eq_some, Option.some.injEq] at hs
    obtain ⟨⟨hrun, hpc⟩, rfl⟩ := hs
    exact h.down hrun (.inl hpc)
  | resume t =>
    simp only [lockStep, Option.ite_none_right_eq_some, Option.some.injEq] at hs
    obtain ⟨⟨hrun, hpc⟩, rfl⟩ := hs
    exact h.down hrun (.inr hpc)
  | setHolder t =>
    simp only [lockStep, Option.ite_none_right_eq_some, Option.some.injEq] at hs
    obtain ⟨⟨_, hpc⟩, rfl⟩ := hs
    apply h.move (t := t)
    · rfl
    · simp +contextual
    · simp
    · simp [LockSystem.Inside, hpc]
    · simp [hpc]
    · simp
  | unlock t =>
    simp only [lockStep, Option.ite_none_right_eq_some] at hs
    obtain ⟨⟨_, hpc⟩, hup⟩ := hs
    obtain ⟨s1, h1, hinv⟩ := h.up hpc
    exact Option.some.inj (h1.symm.trans hup) ▸ hinv
  | clearHolder t =>
    simp only [lockStep, Option.ite_none_right_eq_some, Option.some.injEq] at hs
    obtain ⟨⟨_, hpc⟩, rfl⟩ := hs
    apply h.move (t := t)
    · rfl
    · simp +contextual
    · simp
    · simp [LockSystem.Inside, hpc]
    · simp [hpc]
    · simp
  | sleep t st =>
    simp only [lockStep, Option.ite_none_right_eq_some, Option.some.injEq] at hs
    obtain ⟨⟨_, hpc, _⟩, rfl⟩ := hs
    apply h.move (t := t)
    · rfl
    · simp
    · simp +contextual
    · rfl
    · exact hpc
    · exact hpc
  | wake t =>
    simp only [lockStep, Option.ite_none_right_eq_some, Option.some.injEq] at hs
    obtain ⟨⟨_, hpc⟩, rfl⟩ := hs
    apply h.move (t := t)
    · rfl
    · simp
    · simp +contextual
    · rfl
    · exact hpc
    · exact hpc

lemma reach_lockInv (h : Reach lockStep (fun _ _ => True) LockSystem.init s) : LockInv s :=
  h.invariant LockInv.init fun _ _ _ hI _ hs => hI.step hs

/-- Exclusion, the counter, the assertion of `sem_up` and the waiters of one mutex, in
every order of its threads' steps. The last clause is the assertion: a running thread
that has locked the mutex gets through `sem_up`. -/
theorem mutex_exclusion (h : Reach lockStep (fun _ _ => True) LockSystem.init s) :
    (∀ t u, s.Inside t → s.Inside u → t = u) ∧
    (s.mtx.sem.val = 1 ↔ ∀ t, ¬ s.Inside t) ∧
    (s.mtx.sem.val ≠ 1 → s.mtx.sem.val = 0) ∧
    s.mtx.sem.waiters.Nodup ∧
    (∀ t, t ∈ s.mtx.sem.waiters ↔ s.BlockedInDown t) ∧
    (∀ t, s.pc t = .locked → s.mtx.sem.val = 0 ∧ (semUp s.mtx.sem).isSome ∧
      ((s.status t).Runnable → (lockStep s (.unlock t)).isSome)) := by
  have hinv := reach_lockInv h
  refine ⟨hinv.exclusive, ?_, ?_, hinv.nodup, hinv.waiters, ?_⟩
  · rcases hinv.counter with ⟨hv, hn⟩ | ⟨hv, t, ht⟩
    · simp only [hv, true_iff]
      exact hn
    · simp only [hv, zero_ne_one, false_iff, not_forall, not_not]
      exact ⟨t, ht⟩
  · intro hne
    rcases hinv.counter with ⟨hv, _⟩ | ⟨hv, _⟩
    · exact absurd hv hne
    · exact hv
  · intro t ht
    have hv := hinv.val_eq_zero (.inr ht)
    obtain ⟨s1, h1, _⟩ := hinv.up ht
    refine ⟨hv, ?_, fun hrun => ?_⟩
    · cases hw : s.mtx.sem.waiters <;> simp [semUp, hv, hw]
    · simp [lockStep, hrun, ht, h1]

/-- Thread 0 locks, 1 and 2 queue up, 0 unlocks and locks again before the woken 1 runs:
1 finds the mutex taken and is queued behind 2. -/
theorem mutex_exclusion_stolen :
    ∃ s : LockSystem ℕ,
      run lockStep LockSystem.init
        [.lock 0, .setHolder 0, .lock 1, .lock 2, .unlock 0, .clearHolder 0, .lock 0,
          .resume 1, .setHolder 0] = some s ∧
      s.mtx.sem.waiters = [2, 1] ∧ s.Inside 0 ∧ s.mtx.sem.val = 0 ∧
      (∀ t u, s.Inside t → s.Inside u → t = u) ∧ (s.BlockedInDown 1 ∧ s.BlockedInDown 2) := by
  obtain ⟨s, hs, hw, hpc⟩ : ∃ s : LockSystem ℕ, run lockStep LockSystem.init
      [.lock 0, .setHolder 0, .lock 1, .lock 2, .unlock 0, .clearHolder 0, .lock 0,
        .resume 1, .setHolder 0] = some s ∧ s.mtx.sem.waiters = [2, 1] ∧ s.pc 0 = .locked :=
    ⟨_, rfl, rfl, rfl⟩
  have hx := mutex_exclusion (Reach.of_run hs)
  refine ⟨s, hs, hw, .inr hpc, (hx.2.2.2.2.2 0 hpc).1, hx.1, ?_, ?_⟩
  · exact (hx.2.2.2.2.1 1).mp (by simp [hw])
  · exact (hx.2.2.2.2.1 2).mp (by simp [hw])

end OsI386
