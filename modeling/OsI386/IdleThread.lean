import OsI386.SyncRuns

/-!
# A thread is always ready

`highest_rq_get` relies on a queue with a thread in it. The idle thread is an ordinary thread
that takes mutexes, so nothing keeps it ready: the pick finds a thread exactly in the runs in
which no thread goes to sleep as the only one queued.
-/
namespace OsI386
open Scheduler TransitionSystem SyncSystem

variable {T M Q : Type} [DecidableEq T] [DecidableEq M] [DecidableEq Q]

/-- The state in which an event calls `main_schedule`, if it does. -/
def SyncSystem.scheduleState (s : SyncSystem T M Q) : SyncEvent T M Q → Option (Scheduler T)
  | .unblock _ => none
  | .threadRun _ _ => none
  | .timer => intrTimerHandler s.sched
  | .mainSchedule => some s.sched
  | e => do
    let r ← s.segment e
    let sched ← r.unblocked.foldlM threadUnblock s.sched
    let st ← r.sleep
    threadSleep sched st

/-- Wherever `next_thread_pick` runs, some queue has a thread and the scan finds it. -/
def PickFinds (s : SyncSystem T M Q) (e : SyncEvent T M Q) : Prop :=
  ∀ σ, (s.scheduleState e).bind pickState = some σ →
    (∃ p < prioNum, σ.rq p ≠ []) ∧ bitmapScan σ.rqMask 1 1 ≠ -1

/-- A thread that goes to sleep has woken another one just before, or another one is queued. -/
def NotAlone (s : SyncSystem T M Q) (e : SyncEvent T M Q) : Prop :=
  ∀ r, s.segment e = some r → r.sleep ≠ none →
    r.unblocked ≠ [] ∨ ∃ t, t ≠ s.running ∧ s.sched.Linked t

/-- The thread `t` does not go to sleep. -/
def StaysAwake (t : T) (s : SyncSystem T M Q) (e : SyncEvent T M Q) : Prop :=
  s.running = t → ∀ r, s.segment e = some r → r.sleep = none

variable {s s' : SyncSystem T M Q} {σ σ' : Scheduler T} {P : T → Prop}

omit [DecidableEq T] in
lemma QueuesOf.pickFinds_iff (h : QueuesOf σ P) :
    (∃ p < prioNum, σ.rq p ≠ []) ∧ bitmapScan σ.rqMask 1 1 ≠ -1 ↔ ∃ t, P t := by
  constructor
  · rintro ⟨⟨p, hp, hne⟩, _⟩
    obtain ⟨t, ht⟩ := List.exists_mem_of_ne_nil _ hne
    exact ⟨t, ((h.mem p hp t).mp ht).1⟩
  · rintro ⟨t, ht⟩
    obtain ⟨hlt, hne, _⟩ := h.highest ht
    refine ⟨⟨_, hlt, hne⟩, fun hscan => ?_⟩
    rw [highestRqGet, hscan] at hlt
    exact absurd hlt (by decide)

/-- A running thread with a slice left to lose is queued when the pick runs. -/
lemma pickFinds_of_running (h : SchedInv σ) (hp : pickState σ = some σ') :
    (∃ p < prioNum, σ'.rq p ≠ []) ∧ bitmapScan σ'.rqMask 1 1 ≠ -1 := by
  simp only [pickState, h.current, ↓reduceIte, Option.ite_none_right_eq_some] at hp
  have h0 : SchedInv { σ with needSchedule := false } :=
    h.of_counters rfl rfl rfl rfl rfl fun _ => ⟨rfl, rfl, rfl⟩
  obtain ⟨σ1, h1, hw, _, hrun, hst⟩ := sliceExpire_spec h0
  obtain rfl : σ1 = σ' := Option.some.inj (h1.symm.trans hp.2)
  exact hw.queues.pickFinds_iff.mpr ⟨σ1.runningThread, hw.running, hrun ▸ .inr hst⟩

omit [DecidableEq M] in
/-- After a section that sleeps, the pick finds a thread if and only if the sleeper was not
alone. -/
lemma SyncInv.pickFinds_iff (h : SyncInv s) (hl : s.lost = false) {r : SyncSegment T M Q}
    (hr : SectionOk s s.Asleep r) {st : TaskStatus} (hsl : r.sleep = some st) :
    ∃ σ1 σ2 σ', r.unblocked.foldlM threadUnblock s.sched = some σ1 ∧ threadSleep σ1 st = some σ2 ∧
      pickState σ2 = some σ' ∧
      ((∃ p < prioNum, σ'.rq p ≠ []) ∧ bitmapScan σ'.rqMask 1 1 ≠ -1 ↔
        r.unblocked ≠ [] ∨ ∃ t, t ≠ s.running ∧ s.sched.Linked t) := by
  have hinv := h.schedInv hl
  have hus : ∀ u ∈ r.unblocked, u ∈ s.sched.allList ∧ (s.sched.tcb u).status = .blocked :=
    fun u hu => ⟨h.calls.created u (hr.wakes u hu).2, (hr.wakes u hu).1⟩
  obtain ⟨_, σ1, h1, hinv1, hall1, hrun1, hst1⟩ := unblocks_spec hinv hr.nodup hus
  have hsleeping : st.Sleeping := by
    rcases hr.sleep st hsl with rfl | ⟨hs, _⟩
    · exact .inl rfl
    · exact hs
  obtain ⟨σ2, h2, hw, hneed, hall2, hrun2, hself, hother⟩ := threadSleep_spec hinv1 hsleeping
  have hcur : (σ2.tcb σ2.runningThread).status ≠ .running := by
    rw [hrun2, hself]
    rintro rfl
    simp [TaskStatus.Sleeping] at hsleeping
  have hpick : pickState σ2 = some { σ2 with needSchedule := false } := by
    simp [pickState, hneed, hcur]
  refine ⟨σ1, σ2, _, h1, h2, hpick, ?_⟩
  have hQ : QueuesOf { σ2 with needSchedule := false } _ := hw.queues.of_tcb rfl rfl fun _ _ => rfl
  have hr1 : σ1.runningThread = s.running := hrun1
  have hawake : s.running ∉ r.unblocked := fun hm => h.awake hl (hr.wakes _ hm).1
  rw [hQ.pickFinds_iff]
  constructor
  · rintro ⟨t, hmem, hrun⟩
    have hne : t ≠ s.running := by
      rintro rfl
      rw [hr1] at hself
      exact hsleeping.not_runnable (hself ▸ hrun)
    rw [hother t (hr1 ▸ hne), hst1] at hrun
    by_cases hu : t ∈ r.unblocked
    · exact .inl (List.ne_nil_of_mem hu)
    · rw [if_neg hu] at hrun
      exact .inr ⟨t, hne, (hinv.queues.linked_iff t).mpr ⟨hall1 ▸ hall2 ▸ hmem, hrun⟩⟩
  · rintro (hne | ⟨t, hne, hlinked⟩)
    · obtain ⟨u, hu⟩ := List.exists_mem_of_ne_nil _ hne
      have hur : u ≠ σ1.runningThread := fun he => hawake (hr1 ▸ he ▸ hu)
      exact ⟨u, hall2 ▸ hall1 ▸ (hus u hu).1, by rw [hother u hur, hst1, if_pos hu]; simp⟩
    · obtain ⟨hmem, hrun⟩ := (hinv.queues.linked_iff t).mp hlinked
      refine ⟨t, hall2 ▸ hall1 ▸ hmem, ?_⟩
      rw [hother t (hr1 ▸ hne), hst1]
      split_ifs
      · simp
      · exact hrun

/-- In one step: where the next pick runs, it finds a thread unless the sleeper was alone. -/
lemma SyncInv.pickFinds_step (h : SyncInv s) {e : SyncEvent T M Q} (hs : s.step e = some s') :
    PickFinds s e ↔ NotAlone s e := by
  obtain ⟨hl, hs⟩ := Option.ite_none_left_eq_some.mp hs
  have hl : s.lost = false := by simpa using hl
  have hinv := h.schedInv hl
  have hnone : s.scheduleState e = none → s.segment e = none → (PickFinds s e ↔ NotAlone s e) := by
    intro h1 h2
    simp [PickFinds, NotAlone, h1, h2]
  have hsection : (s.scheduleState e = do
      let r ← s.segment e
      let sched ← r.unblocked.foldlM threadUnblock s.sched
      let st ← r.sleep
      threadSleep sched st) → (PickFinds s e ↔ NotAlone s e) := by
    intro hstate
    cases hseg : s.segment e with
    | none => exact hnone (by simp [hstate, hseg]) hseg
    | some r =>
      cases hsl : r.sleep with
      | none =>
        have hn : s.scheduleState e = none := by simp [hstate, hseg, hsl]
        simp [PickFinds, NotAlone, hn, hseg, hsl]
      | some st =>
        obtain ⟨σ1, σ2, σ', h1, h2, h3, hiff⟩ := h.pickFinds_iff hl (h.segment hl hseg) hsl
        have hstate2 : s.scheduleState e = some σ2 := by simp [hstate, hseg, h1, hsl, h2]
        simp only [PickFinds, NotAlone, hstate2, Option.bind_some, h3, Option.some.injEq,
          forall_eq', hseg, hsl, ne_eq, reduceCtorEq, not_false_eq_true, true_implies]
        exact hiff
  cases e with
  | unblock t => exact hnone rfl rfl
  | threadRun t prio => exact hnone rfl rfl
  | timer =>
    refine iff_of_true (fun σ hσ => ?_) (by simp [NotAlone, SyncSystem.segment])
    obtain ⟨σ1, h1, hp⟩ := Option.bind_eq_some_iff.mp hσ
    obtain ⟨σ2, h2, hinv2, _⟩ := intrTimerHandler_spec hinv
    obtain rfl : σ2 = σ1 := Option.some.inj (h2.symm.trans h1)
    exact pickFinds_of_running hinv2 hp
  | mainSchedule =>
    refine iff_of_true (fun σ hσ => ?_) (by simp [NotAlone, SyncSystem.segment])
    exact pickFinds_of_running hinv hσ
  | lock m => exact hsection rfl
  | setHolder => exact hsection rfl
  | unlock m => exact hsection rfl
  | clearHolder => exact hsection rfl
  | ioqCall q c => exact hsection rfl
  | resume => exact hsection rfl
  | block st => exact hsection rfl

/-- In a run every pick finds a thread if and only if no thread goes to sleep alone. -/
theorem pick_finds_iff {boot : T} {page : ℕ → BitVec 8} {garbage : T → Tcb} {σ₀ : Scheduler T}
    {buf : Q → ℕ → Byte} {es : List (SyncEvent T M Q)}
    (h₀ : threadAllInit boot page garbage = some σ₀) :
    RunAllowed SyncSystem.step PickFinds (SyncSystem.init σ₀ buf) es ↔
      RunAllowed SyncSystem.step NotAlone (SyncSystem.init σ₀ buf) es := by
  obtain ⟨σ, h1, hinv, _⟩ := threadAllInit_spec boot page garbage
  obtain rfl : σ = σ₀ := Option.some.inj (h1.symm.trans h₀)
  exact runAllowed_congr (J := SyncInv) (SyncInv.init hinv buf) (fun _ _ _ hI hs => hI.step hs)
    fun _ _ _ hI hs => hI.pickFinds_step hs

/-- The boot thread, alone, reads from the empty queue: every queue is empty when the pick runs,
and the scan returns -1. -/
theorem boot_thread_sleeps_alone :
    ∃ (s₀ s : SyncSystem ℕ Unit Unit) (σ : Scheduler ℕ), bootSync = some s₀ ∧
      run SyncSystem.step s₀ [.ioqCall () .getchar] = some s ∧
      (s₀.scheduleState (.ioqCall () .getchar)).bind pickState = some σ ∧
      (∀ p < prioNum, σ.rq p = []) ∧ bitmapScan σ.rqMask 1 1 = -1 := by
  have hd : (bootSync.bind fun s₀ => (run SyncSystem.step s₀ [.ioqCall () .getchar]).bind fun _ =>
      ((s₀.scheduleState (.ioqCall () .getchar)).bind pickState).map fun σ =>
        (decide (∀ p < prioNum, σ.rq p = []), bitmapScan σ.rqMask 1 1)) = some (true, -1) := by
    decide
  obtain ⟨s₀, h₀, hd⟩ := Option.bind_eq_some_iff.mp hd
  obtain ⟨s, hs, hd⟩ := Option.bind_eq_some_iff.mp hd
  obtain ⟨σ, hσ, hd⟩ := Option.map_eq_some_iff.mp hd
  simp only [Prod.mk.injEq, decide_eq_true_eq] at hd
  exact ⟨s₀, s, σ, h₀, hs, hσ, hd.1, hd.2⟩

/-- The theorem where another thread is queued when the boot thread goes to sleep. -/
theorem pick_finds_iff_two_threads :
    ∃ s₀ : SyncSystem ℕ Unit Unit, bootSync = some s₀ ∧
      RunAllowed SyncSystem.step PickFinds s₀ [.threadRun 1 8, .ioqCall () .getchar] := by
  obtain ⟨σ₀, h₀, _⟩ := threadAllInit_spec (0 : ℕ) (fun _ => 0xff) fun _ => ⟨0, .died, 0, 0, 0, 0⟩
  have hboot : bootSync = some (SyncSystem.init σ₀ fun _ _ => 0) := by
    rw [bootSync, h₀, Option.map_some]
  refine ⟨_, hboot, (pick_finds_iff h₀).mpr ?_⟩
  have hd : (bootSync.bind fun s₀ => (s₀.step (.threadRun 1 8)).bind fun s1 =>
      (s1.step (.ioqCall () .getchar)).map fun _ => (s1.running, decide (s1.sched.Linked 1))) =
      some (0, true) := by decide
  rw [hboot, Option.bind_some] at hd
  obtain ⟨s1, h1, hd⟩ := Option.bind_eq_some_iff.mp hd
  obtain ⟨s2, h2, hd⟩ := Option.map_eq_some_iff.mp hd
  simp only [Prod.mk.injEq, decide_eq_true_eq] at hd
  refine ⟨fun r hr => by simp [SyncSystem.segment] at hr, s1, h1, fun r _ _ => .inr ⟨1, ?_, hd.2⟩,
    s2, h2, trivial⟩
  rw [hd.1]
  decide

section Awake

variable {t : T}

omit [DecidableEq M] [DecidableEq Q] in
lemma switch_runnable (hw : SchedWeak σ)
    (hcur : (σ.tcb σ.runningThread).status = .running ∨ σ.needSchedule = true)
    (ht : t ∈ σ.allList ∧ (σ.tcb t).status.Runnable) :
    t ∈ (s.switch σ).sched.allList ∧ ((s.switch σ).sched.tcb t).status.Runnable := by
  unfold SyncSystem.switch
  cases hs : OsI386.mainSchedule σ with
  | none => exact ht
  | some σ' =>
    obtain ⟨_, hall, hsame⟩ := mainSchedule_result hw hs hcur
    refine ⟨hall ▸ ht.1, ?_⟩
    by_contra hn
    exact hn ((hsame t _ hn).mp rfl ▸ ht.2)

omit [DecidableEq M] in
/-- A section after which `t` is runnable: another thread executes it, or it does not sleep. -/
lemma SyncInv.execute_runnable (h : SyncInv s) (hl : s.lost = false) {r : SyncSegment T M Q}
    (hr : SectionOk s s.Asleep r) (ht : t ∈ s.sched.allList ∧ (s.sched.tcb t).status.Runnable)
    (hne : s.running = t → r.sleep = none) (hs : s.execute r = some s') :
    t ∈ s'.sched.allList ∧ (s'.sched.tcb t).status.Runnable := by
  have hus : ∀ u ∈ r.unblocked, u ∈ s.sched.allList ∧ (s.sched.tcb u).status = .blocked :=
    fun u hu => ⟨h.calls.created u (hr.wakes u hu).2, (hr.wakes u hu).1⟩
  obtain ⟨_, σ, h1, hinv, hall, hrun, hst⟩ := unblocks_spec (h.schedInv hl) hr.nodup hus
  have hσ : t ∈ σ.allList ∧ (σ.tcb t).status.Runnable := by
    refine ⟨hall ▸ ht.1, ?_⟩
    rw [hst t]
    split_ifs
    · simp
    · exact ht.2
  cases hsl : r.sleep with
  | none =>
    simp only [SyncSystem.execute, h1, hsl, Option.bind_eq_bind, Option.bind_some, pure,
      Option.some.injEq] at hs
    exact hs ▸ hσ
  | some st =>
    have htr : t ≠ σ.runningThread := by
      rintro rfl
      rw [hne hrun.symm] at hsl
      cases hsl
    have hsleeping : st.Sleeping := by
      rcases hr.sleep st hsl with rfl | ⟨hs, _⟩
      · exact .inl rfl
      · exact hs
    obtain ⟨σ1, h2, hw, hneed, hall1, _, _, hother⟩ := threadSleep_spec hinv hsleeping
    simp only [SyncSystem.execute, h1, hsl, h2, Option.bind_eq_bind, Option.bind_some, pure,
      Option.some.injEq] at hs
    exact hs ▸ switch_runnable hw (.inr hneed) ⟨hall1 ▸ hσ.1, by rw [hother t htr]; exact hσ.2⟩

/-- A thread that does not go to sleep stays runnable. -/
lemma SyncInv.stays_runnable (h : SyncInv s) {e : SyncEvent T M Q}
    (ht : t ∈ s.sched.allList ∧ (s.sched.tcb t).status.Runnable) (ok : StaysAwake t s e)
    (hs : s.step e = some s') :
    t ∈ s'.sched.allList ∧ (s'.sched.tcb t).status.Runnable := by
  obtain ⟨hl, hs⟩ := Option.ite_none_left_eq_some.mp hs
  have hl : s.lost = false := by simpa using hl
  have hinv := h.schedInv hl
  have hsection : (s.segment e).bind s.execute = some s' →
      t ∈ s'.sched.allList ∧ (s'.sched.tcb t).status.Runnable := by
    intro hs
    obtain ⟨r, hr, hs⟩ := Option.bind_eq_some_iff.mp hs
    exact h.execute_runnable hl (h.segment hl hr) ht (fun he => ok he r hr) hs
  cases e with
  | unblock u =>
    obtain ⟨_, hs⟩ := Option.ite_none_right_eq_some.mp hs
    obtain ⟨σ, h1, rfl⟩ := Option.map_eq_some_iff.mp hs
    obtain ⟨_, h1'⟩ := Option.ite_none_right_eq_some.mp h1
    refine ⟨(schedulerRqInsert_eq h1').allList ▸ ht.1, ?_⟩
    rw [threadUnblock_tcb h1]
    by_cases he : t = u
    · simp [he]
    · simpa [he] using ht.2
  | threadRun u prio =>
    obtain ⟨⟨_, hnew⟩, hs⟩ := Option.ite_none_right_eq_some.mp hs
    obtain ⟨σ, h1, rfl⟩ := Option.map_eq_some_iff.mp hs
    have ok := schedAllowed_of_taken hinv (e := .threadRun u prio) (by simp) h1
    obtain ⟨σ', h2, _, hall, _⟩ := threadRun_spec hinv ok.1 ok.2
    obtain rfl : σ' = σ := Option.some.inj (h2.symm.trans h1)
    have hne : t ≠ u := fun he => hnew (he ▸ ht.1)
    exact ⟨by rw [hall]; exact List.mem_append_left _ ht.1, by rw [threadRun_tcb h1 hne]; exact ht.2⟩
  | timer =>
    obtain ⟨_, hs⟩ := Option.ite_none_right_eq_some.mp hs
    obtain ⟨σ, h1, rfl⟩ := Option.map_eq_some_iff.mp hs
    obtain ⟨σ', h2, hinv', hall⟩ := intrTimerHandler_spec hinv
    obtain rfl : σ' = σ := Option.some.inj (h2.symm.trans h1)
    exact switch_runnable hinv'.toSchedWeak (.inl hinv'.current)
      ⟨hall ▸ ht.1, by rw [intrTimerHandler_status h1]; exact ht.2⟩
  | mainSchedule =>
    obtain ⟨_, hs⟩ := Option.ite_none_right_eq_some.mp hs
    obtain rfl := Option.some.inj hs
    exact switch_runnable h.weak (.inl hinv.current) ht
  | lock m => exact hsection hs
  | setHolder => exact hsection hs
  | unlock m => exact hsection hs
  | clearHolder => exact hsection hs
  | ioqCall q c => exact hsection hs
  | resume => exact hsection hs
  | block st => exact hsection hs

/-- As long as the boot thread does not go to sleep, no thread goes to sleep alone. -/
theorem not_alone_of_boot_awake {boot : T} {page : ℕ → BitVec 8} {garbage : T → Tcb}
    {σ₀ : Scheduler T} {buf : Q → ℕ → Byte} {es : List (SyncEvent T M Q)}
    (h₀ : threadAllInit boot page garbage = some σ₀)
    (hawake : RunAllowed SyncSystem.step (StaysAwake boot) (SyncSystem.init σ₀ buf) es) :
    RunAllowed SyncSystem.step NotAlone (SyncSystem.init σ₀ buf) es := by
  obtain ⟨σ, h1, hinv, hall⟩ := threadAllInit_spec boot page garbage
  obtain rfl : σ = σ₀ := Option.some.inj (h1.symm.trans h₀)
  have hboot : σ.runningThread = boot := by simpa [hall] using hinv.running
  have hstart : boot ∈ σ.allList ∧ (σ.tcb boot).status.Runnable := hboot ▸ hinv.running_queued
  refine hawake.imp (J := fun s => SyncInv s ∧ boot ∈ s.sched.allList ∧
    (s.sched.tcb boot).status.Runnable) ⟨SyncInv.init hinv buf, hstart⟩ ?_
  intro s e s' hJ ok hs
  refine ⟨⟨hJ.1.step hs, hJ.1.stays_runnable hJ.2 ok hs⟩, fun r hr hsl => .inr ⟨boot, ?_, ?_⟩⟩
  · intro he
    exact hsl (ok he.symm r hr)
  · exact (hJ.1.weak.queues.linked_iff boot).mpr hJ.2

end Awake

end OsI386
