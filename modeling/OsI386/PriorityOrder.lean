import OsI386.SchedulerRuns

/-!
# The pick and the schedule flag

While the flag is down no queued thread is to be preferred to the running one, and a call of
`main_schedule` with the flag up gives the CPU to the first thread of the lowest-numbered
queue that is not empty.
-/
namespace OsI386
open Scheduler TransitionSystem

variable {T : Type} [DecidableEq T]

/-- `t` is the first thread of the lowest-numbered queue that is not empty. -/
def FirstQueued (s : Scheduler T) (t : T) : Prop :=
  ∃ p < prioNum, (s.rq p).head? = some t ∧ ∀ q < p, s.rq q = []

/-- No queued thread has a smaller priority number than the running one. -/
def RunsHighest (s : Scheduler T) : Prop :=
  ∀ t, s.Linked t → (s.tcb s.runningThread).priority ≤ (s.tcb t).priority

/-- Without a pending switch the running thread is among the highest. -/
def PrioOrder (s : Scheduler T) : Prop := s.needSchedule = false → RunsHighest s

variable {s s' s1 : Scheduler T} {Q : T → Prop} {t : T}

omit [DecidableEq T] in
lemma QueuesOf.pick_first (h : QueuesOf s Q) (hq : Q t) {n : T} (hn : nextThreadPick s = some n) :
    FirstQueued s n := by
  obtain ⟨hlt, _, hlow⟩ := h.highest hq
  refine ⟨highestRqGet s, hlt, ?_, hlow⟩
  simpa [nextThreadPick, hlt] using hn

/-- What `main_schedule` does with the flag up. -/
lemma mainSchedule_cases (hneed : s.needSchedule = true) (hs : mainSchedule s = some s') :
    ∃ s1 n, ((s.tcb s.runningThread).status = .running ∧
        sliceExpire { s with needSchedule := false } s.runningThread = some s1 ∨
      (s.tcb s.runningThread).status ≠ .running ∧ s1 = { s with needSchedule := false }) ∧
      nextThreadPick s1 = some n ∧
      s' = { s1.setTcb n (fun c => { c with status := .running }) with runningThread := n } := by
  simp only [mainSchedule, hneed, ↓reduceIte] at hs
  split_ifs at hs with hst
  · obtain ⟨s1, h1, hs⟩ := Option.bind_eq_some_iff.mp hs
    obtain ⟨n, hn, hs⟩ := Option.bind_eq_some_iff.mp hs
    exact ⟨s1, n, .inl ⟨hst, h1⟩, hn, (Option.some.inj hs).symm⟩
  · obtain ⟨s1, h1, hs⟩ := Option.bind_eq_some_iff.mp hs
    obtain ⟨n, hn, hs⟩ := Option.bind_eq_some_iff.mp hs
    exact ⟨s1, n, .inr ⟨hst, (Option.some.inj h1).symm⟩, hn, (Option.some.inj hs).symm⟩

/-- The tcb of the demoted thread. -/
lemma sliceExpire_tcb (hs : sliceExpire s t = some s') : s'.tcb = Function.update s.tcb t
    { s.tcb t with
      priority := ((s.tcb t).priority + 1) % prioNum
      ticks := ticksGet (((s.tcb t).priority + 1) % prioNum)
      status := .ready } := by
  obtain ⟨s1, h1, hs⟩ := Option.bind_eq_some_iff.mp hs
  obtain ⟨s3, h3, hs⟩ := Option.bind_eq_some_iff.mp hs
  obtain rfl := Option.some.inj hs
  simp [setTcb, (schedulerRqJoinOnly_eq h3).2, threadPrioChange, (schedulerRqLeaveOnly_eq h1).2]

/-- The thread `main_schedule` switches to is the one it would pick again. -/
lemma mainSchedule_pick (hneed : s.needSchedule = true) (hs : mainSchedule s = some s') :
    nextThreadPick s' = some s'.runningThread := by
  obtain ⟨s1, n, _, hn, rfl⟩ := mainSchedule_cases hneed hs
  exact hn

omit [DecidableEq T] in
lemma SchedInv.running_queued (h : SchedInv s) :
    s.runningThread ∈ s.allList ∧ (s.tcb s.runningThread).status.Runnable :=
  ⟨h.running, .inl h.current⟩

omit [DecidableEq T] in
lemma SchedInv.runsHighest (h : SchedInv s) (hpick : nextThreadPick s = some s.runningThread) :
    RunsHighest s := by
  intro t ht
  obtain ⟨n, hn, _, hmin⟩ := h.queues.pick h.running_queued
  obtain rfl : n = s.runningThread := Option.some.inj (hn.symm.trans hpick)
  exact hmin t ((h.queues.linked_iff t).mp ht)

/-- A call of `main_schedule` with the flag up and some thread queued. -/
lemma mainSchedule_first (h : SchedWeak s) (hneed : s.needSchedule = true)
    (hsome : ∃ t, s.Linked t) : ∃ s', mainSchedule s = some s' ∧ SchedInv s' ∧
      FirstQueued s' s'.runningThread ∧ RunsHighest s' := by
  obtain ⟨t, ht⟩ := hsome
  have hq := (h.queues.linked_iff t).mp ht
  obtain ⟨s', hs, hinv, _⟩ := mainSchedule_spec h (.inr ⟨hneed, t, hq⟩)
  have hpick := mainSchedule_pick hneed hs
  exact ⟨s', hs, hinv, hinv.queues.pick_first hinv.running_queued hpick, hinv.runsHighest hpick⟩

lemma prioOrder_mainSchedule (h : PrioOrder s) (hinv : SchedInv s')
    (hs : mainSchedule s = some s') : PrioOrder s' := by
  by_cases hneed : s.needSchedule = true
  · exact fun _ => hinv.runsHighest (mainSchedule_pick hneed hs)
  · simp only [mainSchedule, hneed] at hs
    exact Option.some.inj hs ▸ h

/-- The test at the end of `scheduler_rq_join` and `scheduler_rq_jump` covers the new thread. -/
lemma prioOrder_preemptCheck (h : s1.needSchedule = false → ∀ u ≠ t, s1.Linked u →
    (s1.tcb s1.runningThread).priority ≤ (s1.tcb u).priority) : PrioOrder (preemptCheck s1 t) := by
  unfold preemptCheck
  split_ifs with hlt
  · intro hneed
    simp at hneed
  · intro hneed u hu
    by_cases he : u = t
    · rw [he]
      exact Nat.le_of_not_lt hlt
    · exact h hneed u he hu

/-- Both ways to link a tag end with that test. -/
lemma prioOrder_insert {link : List T → List T} (hQ : QueuesOf s Q)
    (hord : s.needSchedule = false → ∀ u, Q u →
      (s.tcb s.runningThread).priority ≤ (s.tcb u).priority)
    (hq : ¬ Q t) (hp : (s.tcb t).priority < prioNum) (hl : ∀ l, (link l).Perm (t :: l))
    (hs : (schedulerRqInsert s t link).map (preemptCheck · t) = some s') : PrioOrder s' := by
  obtain ⟨s1, h1, hQ1, hsame, hneed⟩ := hQ.insert hq hp hl
  rw [h1, Option.map_some] at hs
  obtain rfl := Option.some.inj hs
  apply prioOrder_preemptCheck
  intro hflag u hu hlinked
  rw [hsame.tcb, hsame.runningThread]
  exact hord (hneed ▸ hflag) u (((hQ1.linked_iff u).mp hlinked).resolve_left hu)

lemma prioOrder_join (hQ : QueuesOf s Q) (hord : s.needSchedule = false → ∀ u, Q u →
      (s.tcb s.runningThread).priority ≤ (s.tcb u).priority)
    (hq : ¬ Q t) (hp : (s.tcb t).priority < prioNum) (hs : schedulerRqJoin s t = some s') :
    PrioOrder s' :=
  prioOrder_insert hQ hord hq hp (fun l => @List.perm_append_comm _ l [t]) hs

lemma prioOrder_jump (hQ : QueuesOf s Q) (hord : s.needSchedule = false → ∀ u, Q u →
      (s.tcb s.runningThread).priority ≤ (s.tcb u).priority)
    (hq : ¬ Q t) (hp : (s.tcb t).priority < prioNum) (hs : schedulerRqJump s t = some s') :
    PrioOrder s' :=
  prioOrder_insert hQ hord hq hp (fun _ => List.Perm.refl _) hs

/-- Linking at the end of `all_list` concerns neither the queues nor the flag. -/
lemma prioOrder_allListPushBack (h : PrioOrder s) (hs : allListPushBack s t = some s') :
    PrioOrder s' := by
  unfold allListPushBack at hs
  split_ifs at hs
  exact Option.some.inj hs ▸ h

omit [DecidableEq T] in
lemma PrioOrder.queued (h : PrioOrder s) (hQ : QueuesOf s Q) (hneed : s.needSchedule = false) :
    ∀ u, Q u → (s.tcb s.runningThread).priority ≤ (s.tcb u).priority :=
  fun u hu => h hneed u ((hQ.linked_iff u).mpr hu)

lemma threadTcbInit_needSchedule (s : Scheduler T) (t : T) (prio : ℕ) :
    (threadTcbInit s t prio).needSchedule = s.needSchedule := by
  unfold threadTcbInit pidAlloc
  simp only []
  split <;> rfl

lemma prioOrder_threadRun (h : SchedInv s) (hord : PrioOrder s) {prio : ℕ} (ht : t ∉ s.allList)
    (hp : prio < prioNum) (hs : threadRun s t prio = some s') : PrioOrder s' := by
  obtain ⟨s1, h1, hpush⟩ := Option.bind_eq_some_iff.mp hs
  have hi := threadTcbInit_spec s t prio
  have hne : ∀ u ∈ s.allList, u ≠ t := fun u hu he => ht (he ▸ hu)
  have hQ := h.queues.of_tcb hi.rq hi.rqMask fun u hu => by rw [hi.other u (hne u hu.1)]
  refine prioOrder_allListPushBack (prioOrder_join hQ (fun hneed u hu => ?_) (fun hq => ht hq.1)
    (by rw [hi.priority]; exact hp) h1) hpush
  rw [hi.runningThread, hi.other _ (hne _ h.running), hi.other u (hne u hu.1)]
  exact hord.queued h.queues (by rwa [threadTcbInit_needSchedule] at hneed) u hu

lemma prioOrder_threadBlock (h : SchedInv s) {st : TaskStatus} (hst : st.Sleeping)
    (hinv : SchedInv s') (hs : threadBlock s st = some s') : PrioOrder s' := by
  obtain ⟨s1, h1, _, hneed, _⟩ := threadSleep_spec h hst
  have hm : mainSchedule s1 = some s' := by simpa [threadBlock, h1, schedule, hneed] using hs
  exact fun _ => hinv.runsHighest (mainSchedule_pick hneed hm)

lemma prioOrder_threadUnblock (h : SchedInv s) (hord : PrioOrder s) (ht : t ∈ s.allList)
    (hst : (s.tcb t).status.Sleeping) (hs : threadUnblock s t = some s') : PrioOrder s' := by
  rw [threadUnblock, if_pos hst] at hs
  have hout : ¬ (t ∈ s.allList ∧ (s.tcb t).status.Runnable) := fun hq => hst.not_runnable hq.2
  have hprio : ∀ u, ((s.setTcb t fun c => { c with status := .ready }).tcb u).priority =
      (s.tcb u).priority := fun u => by
    by_cases he : u = t <;> simp [setTcb, he]
  refine prioOrder_jump (h.queues.setTcb_of_not hout _) (fun hneed u hu => ?_) hout ?_ hs
  · rw [hprio u]
    exact (hprio _).symm ▸ hord.queued h.queues hneed u hu
  · rw [hprio t]
    exact (h.tcbs t ht).prio

/-- The timer handler raises the flag at most and leaves queues and priorities alone. -/
lemma prioOrder_intrTimerHandler (hord : PrioOrder s) (hs : intrTimerHandler s = some s') :
    PrioOrder s' := by
  have hprio : ∀ (f : Tcb → Tcb), (∀ c, (f c).priority = c.priority) →
      ∀ u, ((s.setTcb s.runningThread f).tcb u).priority = (s.tcb u).priority := fun f hf u => by
    by_cases he : u = s.runningThread <;> simp [setTcb, he, hf]
  simp only [intrTimerHandler] at hs
  split_ifs at hs
  · intro hneed
    simp [← Option.some.inj hs] at hneed
  · obtain rfl := Option.some.inj hs
    intro hneed u hu
    have hle := hord hneed u hu
    by_cases he : u = s.runningThread
    · simp [setTcb, he]
    · simpa [setTcb, he] using hle

/-- One operation of the scheduler keeps the order. -/
lemma prioOrder_schedStep (h : SchedInv s) (hord : PrioOrder s) {e : SchedEvent T}
    (ok : SchedAllowed s e) (hs : schedStep s e = some s') : PrioOrder s' := by
  obtain ⟨s1, h1, hinv⟩ := schedStep_spec h ok
  obtain rfl : s1 = s' := Option.some.inj (h1.symm.trans hs)
  cases e with
  | threadRun t prio => exact prioOrder_threadRun h hord ok.1 ok.2 hs
  | processRun t => exact prioOrder_threadRun h hord ok (show 31 < prioNum by decide) hs
  | threadBlock st => exact prioOrder_threadBlock h ok.1 hinv hs
  | threadUnblock t => exact prioOrder_threadUnblock h hord ok.1 ok.2 hs
  | timerInterrupt =>
    obtain ⟨s2, h2, hm⟩ := Option.bind_eq_some_iff.mp hs
    exact prioOrder_mainSchedule (prioOrder_intrTimerHandler hord h2) hinv hm
  | mainSchedule => exact prioOrder_mainSchedule hord hinv hs

omit [DecidableEq T] in
/-- A thread the pick returns is linked. -/
lemma linked_of_nextThreadPick (h : nextThreadPick s = some t) : s.Linked t := by
  simp only [nextThreadPick] at h
  split_ifs at h with hlt
  exact ⟨_, hlt, List.mem_of_mem_head? h⟩

/-- A step that is taken met what the operation asks of its caller, apart from the thread
address `thread_unblock` is given. -/
lemma schedAllowed_of_taken (h : SchedInv s) {e : SchedEvent T}
    (he : ∀ t, e = .threadUnblock t → t ∈ s.allList) (hs : schedStep s e = some s') :
    SchedAllowed s e := by
  have hnew : ∀ t prio, threadRun s t prio = some s' → t ∉ s.allList ∧ prio < prioNum := by
    intro t prio hrun
    have hi := threadTcbInit_spec s t prio
    obtain ⟨s1, h1, hpush⟩ := Option.bind_eq_some_iff.mp hrun
    have hall : s1.allList = s.allList := (schedulerRqInsert_eq h1).allList.trans hi.allList
    obtain ⟨s2, h2, _⟩ := Option.map_eq_some_iff.mp h1
    simp only [schedulerRqJoinOnly, schedulerRqInsert, hi.priority] at h2
    split_ifs at h2 with hlt
    simp only [allListPushBack, hall] at hpush
    split_ifs at hpush with hmem
    exact ⟨hmem, hlt.1⟩
  cases e with
  | threadRun t prio => exact hnew t prio hs
  | processRun t => exact (hnew t 31 hs).1
  | threadBlock st =>
    have hst : st.Sleeping := by
      by_contra hn
      simp [schedStep, threadBlock, threadSleep, hn] at hs
    obtain ⟨s1, h1, hw, hneed, hall, hrun, hcur, htcb⟩ := threadSleep_spec h hst
    have hm : mainSchedule s1 = some s' := by
      simpa [schedStep, threadBlock, h1, schedule, hneed] using hs
    obtain ⟨s2, n, ⟨hst2, _⟩ | ⟨_, rfl⟩, hn, _⟩ := mainSchedule_cases hneed hm
    · rw [hrun, hcur] at hst2
      simp [hst2, TaskStatus.Sleeping] at hst
    · obtain ⟨hmem, hr⟩ := (hw.queues.linked_iff n).mp (linked_of_nextThreadPick hn)
      have hne : n ≠ s.runningThread := by
        rintro rfl
        exact hst.not_runnable (hcur ▸ hr)
      exact ⟨hst, n, hne, (h.queues.linked_iff n).mpr ⟨hall ▸ hmem, htcb n hne ▸ hr⟩⟩
  | threadUnblock t =>
    refine ⟨he t rfl, ?_⟩
    by_contra hn
    simp [schedStep, threadUnblock, hn] at hs
  | timerInterrupt => trivial
  | mainSchedule => trivial

/-- The only thing asked of a caller here: `thread_unblock` is given a thread. -/
def Known (s : Scheduler T) (e : SchedEvent T) : Prop := ∀ t, e = .threadUnblock t → t ∈ s.allList

/-- The states a call of `main_schedule` may find: between operations, after the timer
handler, after `thread_block` has taken the running thread out of its queue. -/
inductive EntersMainSchedule (s : Scheduler T) : Scheduler T → Prop
  | now : EntersMainSchedule s s
  | timer {s1 : Scheduler T} (h : intrTimerHandler s = some s1) : EntersMainSchedule s s1
  | block {s1 : Scheduler T} (st : TaskStatus) (h : threadSleep s st = some s1) :
      EntersMainSchedule s s1

lemma EntersMainSchedule.weak (h : SchedInv s) (hin : EntersMainSchedule s s1) : SchedWeak s1 := by
  cases hin with
  | now => exact h.toSchedWeak
  | timer hs =>
    obtain ⟨s2, h2, hinv, _⟩ := intrTimerHandler_spec h
    exact Option.some.inj (h2.symm.trans hs) ▸ hinv.toSchedWeak
  | block st hs =>
    have hst : st.Sleeping := by
      by_contra hn
      simp [threadSleep, hn] at hs
    obtain ⟨s2, h2, hw, _⟩ := threadSleep_spec h hst
    exact Option.some.inj (h2.symm.trans hs) ▸ hw

lemma reach_prioOrder {boot : T} {page : ℕ → BitVec 8} {garbage : T → Tcb} {s₀ : Scheduler T}
    (h₀ : threadAllInit boot page garbage = some s₀) (h : Reach schedStep Known s₀ s) :
    SchedInv s ∧ PrioOrder s := by
  obtain ⟨s1, h1, hinv, hall⟩ := threadAllInit_spec boot page garbage
  obtain rfl : s1 = s₀ := Option.some.inj (h1.symm.trans h₀)
  have hstart : PrioOrder s1 := by
    intro _ t ht
    have ht := ((hinv.queues.linked_iff t).mp ht).1
    have hrun := hinv.running
    rw [hall, List.mem_singleton] at ht hrun
    rw [ht, hrun]
  refine h.invariant (I := fun a => SchedInv a ∧ PrioOrder a) ⟨hinv, hstart⟩
    fun a e b ha known hb => ?_
  have ok := schedAllowed_of_taken ha.1 known hb
  obtain ⟨c, hc, hinvc⟩ := schedStep_spec ha.1 ok
  exact ⟨Option.some.inj (hc.symm.trans hb) ▸ hinvc, prioOrder_schedStep ha.1 ha.2 ok hb⟩

/-- In every reachable state the running thread is among the highest unless a switch is pending,
and a switch goes to the first thread of the highest queue, which is then among the highest. -/
theorem running_thread_highest {boot : T} {page : ℕ → BitVec 8} {garbage : T → Tcb}
    {s₀ : Scheduler T} (h₀ : threadAllInit boot page garbage = some s₀)
    (h : Reach schedStep Known s₀ s) :
    PrioOrder s ∧ ∀ s1, EntersMainSchedule s s1 → s1.needSchedule = true → (∃ t, s1.Linked t) →
      ∃ s', mainSchedule s1 = some s' ∧ FirstQueued s' s'.runningThread ∧ RunsHighest s' := by
  obtain ⟨hinv, hord⟩ := reach_prioOrder h₀ h
  refine ⟨hord, fun s1 hin hneed hsome => ?_⟩
  obtain ⟨s', hs, _, hfirst, hrun⟩ := mainSchedule_first (hin.weak hinv) hneed hsome
  exact ⟨s', hs, hfirst, hrun⟩

/-- The theorem where the idle thread creates a thread of priority 8: the flag is up, and the
call demotes the idle thread from 31 to 0, which keeps it the highest. -/
theorem running_thread_highest_wrap :
    ∃ s₀ s s' : Scheduler ℕ,
      threadAllInit 0 (fun _ => 0xff) (fun _ => ⟨0, .died, 0, 0, 0, 0⟩) = some s₀ ∧
      Reach schedStep Known s₀ s ∧ s.needSchedule = true ∧ mainSchedule s = some s' ∧
      FirstQueued s' s'.runningThread ∧ RunsHighest s' := by
  obtain ⟨s₀, h₀, hi₀, hall₀⟩ := threadAllInit_spec (0 : ℕ) (fun _ => 0xff)
    (fun _ => ⟨0, .died, 0, 0, 0, 0⟩)
  have hf : (1 : ℕ) ∉ s₀.allList := by simp [hall₀]
  obtain ⟨s, h1, hi, _⟩ := threadRun_spec hi₀ hf (show 8 < prioNum by decide)
  have hneed : s.needSchedule = true := by
    have hd : ((threadAllInit (0 : ℕ) (fun _ => 0xff) (fun _ => ⟨0, .died, 0, 0, 0, 0⟩)).bind
        (threadRun · 1 8)).map (·.needSchedule) = some true := by decide
    rw [h₀, Option.bind_some, h1, Option.map_some] at hd
    exact Option.some.inj hd
  have hr : Reach schedStep Known s₀ s := .snoc (e := .threadRun 1 8) .refl (by simp [Known]) h1
  have hlinked : s.Linked s.runningThread := (hi.queues.linked_iff _).mpr hi.running_queued
  obtain ⟨s', hs, hfirst, hrun⟩ := (running_thread_highest h₀ hr).2 s .now hneed ⟨_, hlinked⟩
  exact ⟨s₀, s, s', h₀, hr, hneed, hs, hfirst, hrun⟩

end OsI386
