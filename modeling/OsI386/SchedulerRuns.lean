import OsI386.ReadyQueue

/-!
# Runs of the scheduler

`SchedWeak` holds also between `thread_block`'s departure from the queue and the
switch; `SchedInv` adds that the running thread has status `TASK_RUNNING`. Each
operation is shown to be defined and to keep `SchedInv`.
-/
namespace OsI386
open Scheduler TransitionSystem

variable {T : Type}

structure TcbOk (c : Tcb) : Prop where
  prio : c.priority < prioNum
  alive : c.status.Runnable ∨ c.status.Sleeping
  magic : c.stackMagic = stackMagic

structure SchedWeak (s : Scheduler T) : Prop where
  queues : QueuesOf s fun t => t ∈ s.allList ∧ (s.tcb t).status.Runnable
  tcbs : ∀ t ∈ s.allList, TcbOk (s.tcb t)
  running : s.runningThread ∈ s.allList
  idle : s.idleThread ∈ s.allList
  only : ∀ t ∈ s.allList, (s.tcb t).status = .running → t = s.runningThread

structure SchedInv (s : Scheduler T) : Prop extends SchedWeak s where
  current : (s.tcb s.runningThread).status = .running

lemma TcbOk.setStatus {c : Tcb} (h : TcbOk c) {st : TaskStatus} (hst : st.Runnable ∨ st.Sleeping) :
    TcbOk { c with status := st } := ⟨h.prio, hst, h.magic⟩

variable {s s' : Scheduler T}

/-- An operation that rewrites at most the tcb of `t` and relinks its tag. -/
lemma SchedWeak.change {Q : T → Prop} {t : T} (h : SchedWeak s) (hQ : QueuesOf s' Q)
    (hiff : ∀ u, Q u ↔ u ∈ s.allList ∧ (s'.tcb u).status.Runnable)
    (hall : s'.allList = s.allList) (hrun : s'.runningThread ∈ s.allList)
    (hidle : s'.idleThread = s.idleThread) (hself : t ∈ s.allList → TcbOk (s'.tcb t))
    (hother : ∀ u ≠ t, s'.tcb u = s.tcb u)
    (honly : ∀ u ∈ s.allList, (s'.tcb u).status = .running → u = s'.runningThread) :
    SchedWeak s' where
  queues := hQ.congr fun u => by rw [hiff u, hall]
  tcbs u hu := by
    rw [hall] at hu
    by_cases he : u = t
    · subst he
      exact hself hu
    · rw [hother u he]
      exact h.tcbs u hu
  running := hall ▸ hrun
  idle := by rw [hall, hidle]; exact h.idle
  only u hu := honly u (hall ▸ hu)

/-- Counters and the schedule flag do not enter the invariant. -/
lemma SchedInv.of_counters (h : SchedInv s) (hrq : s'.rq = s.rq) (hmask : s'.rqMask = s.rqMask)
    (hall : s'.allList = s.allList) (hrun : s'.runningThread = s.runningThread)
    (hidle : s'.idleThread = s.idleThread)
    (htcb : ∀ u, (s'.tcb u).status = (s.tcb u).status ∧ (s'.tcb u).priority = (s.tcb u).priority ∧
      (s'.tcb u).stackMagic = (s.tcb u).stackMagic) : SchedInv s' where
  queues := by
    refine (h.queues.of_tcb hrq hmask fun u _ => (htcb u).2.1).congr fun u => ?_
    rw [hall, (htcb u).1]
  tcbs u hu := by
    obtain ⟨hst, hp, hm⟩ := htcb u
    have hok := h.tcbs u (hall ▸ hu)
    exact ⟨hp ▸ hok.prio, hst ▸ hok.alive, hm.trans hok.magic⟩
  running := by rw [hall, hrun]; exact h.running
  idle := by rw [hall, hidle]; exact h.idle
  only u hu hs := by rw [hrun]; exact h.only u (hall ▸ hu) ((htcb u).1 ▸ hs)
  current := by rw [hrun, (htcb _).1]; exact h.current

variable [DecidableEq T]

/-- The demotion of the running thread: leave, change the priority, join. -/
lemma sliceExpire_spec (h : SchedInv s) :
    ∃ s', sliceExpire s s.runningThread = some s' ∧ SchedWeak s' ∧ s'.allList = s.allList ∧
      s'.runningThread = s.runningThread ∧ (s'.tcb s.runningThread).status = .ready := by
  set cur := s.runningThread with hcur
  have hin : cur ∈ s.allList ∧ (s.tcb cur).status.Runnable := ⟨h.running, .inl h.current⟩
  obtain ⟨s1, h1, hQ1, hs1, _⟩ := h.queues.leaveOnly hin
  have hout : ¬ ((cur ∈ s.allList ∧ (s.tcb cur).status.Runnable) ∧ cur ≠ cur) := by simp
  have hQ2 : QueuesOf (threadPrioChange s1 cur) _ := hQ1.setTcb_of_not hout _
  have hp2 : ((threadPrioChange s1 cur).tcb cur).priority < prioNum := by
    simpa [threadPrioChange, setTcb] using Nat.mod_lt _ (by decide)
  obtain ⟨s3, h3, hQ3, hs3, _⟩ := hQ2.joinOnly hout hp2
  let s4 := (s3.setTcb cur fun c => { c with ticks := ticksGet c.priority }).setTcb cur
    fun c => { c with status := .ready }
  have heq : sliceExpire s cur = some s4 := by simp [sliceExpire, h1, h3, s4]
  have hQ4 : QueuesOf s4 _ :=
    QueuesOf.setTcb_prio (t := cur) (QueuesOf.setTcb_prio (t := cur) hQ3 _ rfl) _ rfl
  have hother : ∀ u ≠ cur, s4.tcb u = s.tcb u := fun u hu => by
    simp [s4, setTcb, hu, hs3.tcb, threadPrioChange, hs1.tcb]
  have hst : (s4.tcb cur).status = .ready := by simp [s4, setTcb]
  have hall : s4.allList = s.allList := hs3.allList.trans hs1.allList
  have hrun : s4.runningThread = cur := hs3.runningThread.trans hs1.runningThread
  refine ⟨s4, heq, ?_, hall, hrun, hst⟩
  refine h.change (t := cur) hQ4 ?_ hall (hrun ▸ hin.1)
    (hs3.idleThread.trans hs1.idleThread) (fun _ => ⟨?_, .inl (.inr hst), ?_⟩) hother ?_
  · intro u
    by_cases he : u = cur
    · subst he
      simp [hst, hin.1]
    · simp [hother u he, he]
  · simpa [s4, setTcb, hs3.tcb] using hp2
  · simpa [s4, setTcb, hs3.tcb, threadPrioChange, hs1.tcb] using (h.tcbs cur hin.1).magic
  · intro u hu hs
    by_contra he
    rw [hrun] at he
    rw [hother u he] at hs
    exact he (h.only u hu hs)

/-- Giving the CPU to the picked thread, when no thread has status `TASK_RUNNING`. -/
lemma switch_spec {t : T} (h : SchedWeak s) (hcur : (s.tcb s.runningThread).status ≠ .running)
    (ht : t ∈ s.allList ∧ (s.tcb t).status.Runnable) :
    ∃ n, nextThreadPick s = some n ∧
      SchedInv { s.setTcb n (fun c => { c with status := .running }) with runningThread := n } := by
  obtain ⟨n, hn, hQ, _⟩ := h.queues.pick ht
  let s2 : Scheduler T :=
    { s.setTcb n (fun c => { c with status := .running }) with runningThread := n }
  have hQ2 : QueuesOf s2 _ :=
    (QueuesOf.setTcb_prio (t := n) h.queues (fun c => { c with status := .running }) rfl).of_tcb
      rfl rfl fun _ _ => rfl
  have hself : (s2.tcb n).status = .running := by simp [s2, setTcb]
  have hother : ∀ u ≠ n, s2.tcb u = s.tcb u := fun u hu => by simp [s2, setTcb, hu]
  have hok : TcbOk (s2.tcb n) := by
    simpa [s2, setTcb] using (h.tcbs n hQ.1).setStatus (.inl runnable_running)
  refine ⟨n, hn, h.change hQ2 ?_ rfl hQ.1 rfl (fun _ => hok) hother ?_, hself⟩
  · intro u
    by_cases he : u = n
    · subst he
      rw [hself]
      exact and_congr_right fun _ => iff_of_true hQ.2 runnable_running
    · rw [hother u he]
  · intro u hu hs
    by_contra he
    rw [hother u he] at hs
    exact hcur (h.only u hu hs ▸ hs)

/-- `main_schedule` needs a running thread that may go on, or another one to switch to. -/
lemma mainSchedule_spec (h : SchedWeak s) (hnext : (s.tcb s.runningThread).status = .running ∨
      s.needSchedule = true ∧ ∃ t ∈ s.allList, (s.tcb t).status.Runnable) :
    ∃ s', mainSchedule s = some s' ∧ SchedInv s' ∧ s'.allList = s.allList := by
  unfold mainSchedule
  by_cases hneed : s.needSchedule = true
  · simp only [hneed, ↓reduceIte]
    by_cases hst : (s.tcb s.runningThread).status = .running
    · have h0 : SchedInv { s with needSchedule := false } :=
        SchedInv.of_counters ⟨h, hst⟩ rfl rfl rfl rfl rfl fun _ => ⟨rfl, rfl, rfl⟩
      obtain ⟨s1, h1, hw1, hall1, hrun1, hready⟩ := sliceExpire_spec h0
      have hcur1 : (s1.tcb s1.runningThread).status = .ready := by rw [hrun1]; exact hready
      obtain ⟨n, hn, hinv⟩ := switch_spec hw1 (by simp [hcur1]) ⟨hw1.running, .inr hcur1⟩
      have h1' : sliceExpire { s with needSchedule := false } s.runningThread = some s1 := h1
      refine ⟨_, ?_, hinv, hall1⟩
      simp [hst, h1', hn]
    · obtain ⟨t, ht, hrt⟩ := (hnext.resolve_left hst).2
      have h0 : SchedWeak { s with needSchedule := false } :=
        ⟨h.queues.of_tcb rfl rfl fun _ _ => rfl, h.tcbs, h.running, h.idle, h.only⟩
      obtain ⟨n, hn, hinv⟩ := switch_spec h0 hst ⟨ht, hrt⟩
      refine ⟨_, ?_, hinv, rfl⟩
      simp [hst, hn]
  · have hst := hnext.resolve_right fun hn => hneed hn.1
    exact ⟨s, by simp [hneed], ⟨h, hst⟩, rfl⟩

/-- The departure of the running thread in `thread_block`. -/
lemma threadSleep_spec (h : SchedInv s) {st : TaskStatus} (hst : st.Sleeping) :
    ∃ s', threadSleep s st = some s' ∧ SchedWeak s' ∧ s'.needSchedule = true ∧
      s'.allList = s.allList ∧ s'.runningThread = s.runningThread ∧
      (s'.tcb s.runningThread).status = st ∧ ∀ u ≠ s.runningThread, s'.tcb u = s.tcb u := by
  set cur := s.runningThread with hcur
  let s1 := s.setTcb cur fun c => { c with status := st }
  have hQ1 : QueuesOf s1 _ := QueuesOf.setTcb_prio (t := cur) h.queues _ rfl
  obtain ⟨s2, h2, hQ2, hs2, hneed⟩ := hQ1.leave (t := cur) ⟨h.running, .inl h.current⟩
  have hself : s2.tcb cur = { s.tcb cur with status := st } := by
    rw [hs2.tcb]; simp [s1, setTcb]
  have hother : ∀ u ≠ cur, s2.tcb u = s.tcb u := fun u hu => by
    rw [hs2.tcb]; simp [s1, setTcb, hu]
  have hrun : s2.runningThread = cur := hs2.runningThread
  refine ⟨s2, by rw [threadSleep, if_pos hst]; exact h2, ?_, hneed rfl, hs2.allList, hrun,
    by rw [hself], hother⟩
  refine h.change hQ2 ?_ hs2.allList (hrun ▸ h.running) hs2.idleThread
    (fun ht => hself ▸ (h.tcbs cur ht).setStatus (.inr hst)) hother ?_
  · intro u
    by_cases he : u = cur
    · subst he
      simp [hself, hst.not_runnable]
    · simp [hother u he, he]
  · intro u hu hs
    rw [hrun]
    by_contra he
    rw [hother u he] at hs
    exact he (h.only u hu hs)

lemma threadBlock_spec (h : SchedInv s) {st : TaskStatus} (hst : st.Sleeping)
    (hother : ∃ t, t ≠ s.runningThread ∧ s.Linked t) :
    ∃ s', threadBlock s st = some s' ∧ SchedInv s' ∧ s'.allList = s.allList := by
  obtain ⟨s1, h1, hw1, hneed, hall, _, _, htcb⟩ := threadSleep_spec h hst
  obtain ⟨t, hne, hl⟩ := hother
  obtain ⟨hmem, hrun⟩ := (h.queues.linked_iff t).mp hl
  obtain ⟨s2, h2, hinv, hall2⟩ := mainSchedule_spec hw1
    (.inr ⟨hneed, t, hall ▸ hmem, by rw [htcb t hne]; exact hrun⟩)
  refine ⟨s2, ?_, hinv, hall2.trans hall⟩
  simp [threadBlock, h1, schedule, hneed, h2]

lemma threadUnblock_spec (h : SchedInv s) {t : T} (ht : t ∈ s.allList)
    (hst : (s.tcb t).status.Sleeping) :
    ∃ s', threadUnblock s t = some s' ∧ SchedInv s' ∧ s'.allList = s.allList ∧
      s'.runningThread = s.runningThread ∧
      ∀ u, (s.tcb u).status.Runnable ∨ u = t → (s'.tcb u).status.Runnable := by
  have hne : s.runningThread ≠ t := by
    rintro rfl
    simp [h.current, TaskStatus.Sleeping] at hst
  let s1 := s.setTcb t fun c => { c with status := .ready }
  have hout : ¬ (t ∈ s.allList ∧ (s.tcb t).status.Runnable) := fun hq => hst.not_runnable hq.2
  have hQ1 : QueuesOf s1 _ := h.queues.setTcb_of_not hout _
  have hp1 : (s1.tcb t).priority < prioNum := by simpa [s1, setTcb] using (h.tcbs t ht).prio
  obtain ⟨s2, h2, hQ2, hs2⟩ := hQ1.jump hout hp1
  have hself : s2.tcb t = { s.tcb t with status := .ready } := by
    rw [hs2.tcb]; simp [s1, setTcb]
  have hother : ∀ u ≠ t, s2.tcb u = s.tcb u := fun u hu => by
    rw [hs2.tcb]; simp [s1, setTcb, hu]
  have hrun : s2.runningThread = s.runningThread := hs2.runningThread
  refine ⟨s2, by rw [threadUnblock, if_pos hst]; exact h2, ⟨?_, ?_⟩, hs2.allList, hrun, ?_⟩
  · refine h.change hQ2 ?_ hs2.allList (hrun ▸ h.running) hs2.idleThread
      (fun _ => hself ▸ (h.tcbs t ht).setStatus (.inl runnable_ready)) hother ?_
    · intro u
      by_cases he : u = t
      · subst he
        simp [hself, ht]
      · simp [hother u he, he]
    · intro u hu hs
      rw [hrun]
      by_cases he : u = t
      · subst he
        simp [hself] at hs
      · rw [hother u he] at hs
        exact h.only u hu hs
  · rw [hrun, hother _ hne]
    exact h.current
  · intro u hu
    by_cases he : u = t
    · simp [he, hself]
    · rw [hother u he]
      exact hu.resolve_right he

lemma intrTimerHandler_spec (h : SchedInv s) :
    ∃ s', intrTimerHandler s = some s' ∧ SchedInv s' ∧ s'.allList = s.allList := by
  have hcount : ∀ (f : Tcb → Tcb) (n : BitVec 32) (b : Bool), (∀ c, (f c).status = c.status ∧
      (f c).priority = c.priority ∧ (f c).stackMagic = c.stackMagic) →
      SchedInv { s.setTcb s.runningThread f with ticks := n, needSchedule := b } := by
    intro f n b hf
    refine h.of_counters rfl rfl rfl rfl rfl fun u => ?_
    by_cases he : u = s.runningThread
    · subst he
      simpa [setTcb] using hf _
    · simp [setTcb, he]
  have hmagic := (h.tcbs _ h.running).magic
  unfold intrTimerHandler
  simp only [hmagic, ↓reduceIte]
  split_ifs
  · exact ⟨_, rfl, hcount _ _ _ fun _ => ⟨rfl, rfl, rfl⟩, rfl⟩
  · refine ⟨_, rfl, ?_, rfl⟩
    have := hcount (fun c => { c with elapsedTicks := c.elapsedTicks + 1, ticks := c.ticks - 1 })
      (s.ticks + 1) s.needSchedule fun _ => ⟨rfl, rfl, rfl⟩
    simpa [setTcb] using this

lemma timerInterrupt_spec (h : SchedInv s) :
    ∃ s', timerInterrupt s = some s' ∧ SchedInv s' ∧ s'.allList = s.allList := by
  obtain ⟨s1, h1, hinv1, hall1⟩ := intrTimerHandler_spec h
  obtain ⟨s2, h2, hinv2, hall2⟩ := mainSchedule_spec hinv1.toSchedWeak (.inl hinv1.current)
  exact ⟨s2, by simp [timerInterrupt, h1, h2], hinv2, hall2.trans hall1⟩

/-- What initialising a tcb leaves alone, and what it stores. -/
structure TcbInit (s s' : Scheduler T) (t : T) (prio : ℕ) : Prop where
  rq : s'.rq = s.rq
  rqMask : s'.rqMask = s.rqMask
  allList : s'.allList = s.allList
  runningThread : s'.runningThread = s.runningThread
  idleThread : s'.idleThread = s.idleThread
  other : ∀ u ≠ t, s'.tcb u = s.tcb u
  status : (s'.tcb t).status = if t = s.idleThread then .running else .ready
  priority : (s'.tcb t).priority = prio
  magic : (s'.tcb t).stackMagic = stackMagic

lemma threadTcbInit_spec (s : Scheduler T) (t : T) (prio : ℕ) :
    TcbInit s (threadTcbInit s t prio) t prio := by
  unfold threadTcbInit pidAlloc
  simp only []
  split <;> refine ⟨rfl, rfl, rfl, rfl, rfl, fun u hu => ?_, ?_, ?_, ?_⟩ <;> simp_all [setTcb]

/-- A fresh tcb enters the scheduler. -/
lemma newThread_spec (h : SchedWeak s) {t : T} {prio : ℕ} (ht : t ∉ s.allList)
    (hp : prio < prioNum) :
    ∃ s1 s2, schedulerRqJoin (threadTcbInit s t prio) t = some s1 ∧ allListPushBack s1 t = some s2 ∧
      SchedWeak s2 ∧ s2.allList = s.allList ++ [t] ∧ s2.runningThread = s.runningThread ∧
      (s2.tcb s.runningThread).status = (s.tcb s.runningThread).status := by
  have hi := threadTcbInit_spec s t prio
  set s0 := threadTcbInit s t prio
  have hne : t ≠ s.idleThread := by
    rintro rfl
    exact ht h.idle
  have hready : (s0.tcb t).status = .ready := by rw [hi.status, if_neg hne]
  have hout : ¬ (t ∈ s.allList ∧ (s.tcb t).status.Runnable) := fun hq => ht hq.1
  have hQ0 : QueuesOf s0 fun u => u ∈ s.allList ∧ (s.tcb u).status.Runnable :=
    h.queues.of_tcb hi.rq hi.rqMask fun u hu => by
      rw [hi.other u fun he => ht (he ▸ hu.1)]
  obtain ⟨s1, h1, hQ1, hs1⟩ := hQ0.join hout (by rw [hi.priority]; exact hp)
  have hall1 : s1.allList = s.allList := hs1.allList.trans hi.allList
  have hrun1 : s1.runningThread = s.runningThread := hs1.runningThread.trans hi.runningThread
  have hother : ∀ u ∈ s.allList, s1.tcb u = s.tcb u := fun u hu => by
    rw [hs1.tcb, hi.other u fun he => ht (he ▸ hu)]
  have hself : (s1.tcb t).status = .ready := by rw [hs1.tcb]; exact hready
  have hmem : ∀ u, u ∈ s1.allList ++ [t] ↔ u ∈ s.allList ∨ u = t := by simp [hall1]
  refine ⟨s1, { s1 with allList := s1.allList ++ [t] }, h1, if_neg (hall1 ▸ ht), ?_,
    by rw [hall1], hrun1, by rw [hother _ h.running]⟩
  constructor
  case queues =>
    have hQ2 : QueuesOf { s1 with allList := s1.allList ++ [t] } _ :=
      hQ1.of_tcb rfl rfl fun _ _ => rfl
    refine hQ2.congr fun u => ?_
    rw [hmem u]
    by_cases he : u = t
    · subst he
      simp [hself]
    · simp only [he, false_or, or_false]
      exact and_congr_right fun hu => by rw [hother u hu]
  case tcbs =>
    intro u hu
    rcases (hmem u).mp hu with hu | rfl
    · rw [hother u hu]
      exact h.tcbs u hu
    · refine ⟨?_, .inl (.inr hself), ?_⟩
      · rw [hs1.tcb, hi.priority]
        exact hp
      · rw [hs1.tcb, hi.magic]
  case running => exact (hmem _).mpr (.inl (hrun1 ▸ h.running))
  case idle => exact (hmem _).mpr (.inl (by rw [hs1.idleThread, hi.idleThread]; exact h.idle))
  case only =>
    intro u hu hs
    rw [hrun1]
    rcases (hmem u).mp hu with hu | rfl
    · rw [hother u hu] at hs
      exact h.only u hu hs
    · simp [hself] at hs

lemma threadRun_spec (h : SchedInv s) {t : T} {prio : ℕ} (ht : t ∉ s.allList) (hp : prio < prioNum) :
    ∃ s', threadRun s t prio = some s' ∧ SchedInv s' ∧ s'.allList = s.allList ++ [t] ∧
      s'.runningThread = s.runningThread := by
  obtain ⟨s1, s2, h1, h2, hw, hall, hrun, hst⟩ := newThread_spec h.toSchedWeak ht hp
  refine ⟨s2, by simp [threadRun, h1, h2], ⟨hw, ?_⟩, hall, hrun⟩
  rw [hrun, hst, h.current]

/-- After `thread_all_init` the boot thread is the idle thread, running and queued. -/
lemma threadAllInit_spec (boot : T) (page : ℕ → BitVec 8) (garbage : T → Tcb) :
    ∃ s, threadAllInit boot page garbage = some s ∧ SchedInv s ∧ s.allList = [boot] := by
  set s0 := schedulerInit boot page garbage with hs0
  have hi := threadTcbInit_spec s0 boot 31
  set s1 := threadTcbInit s0 boot 31 with hs1
  have hQ0 : QueuesOf s0 fun _ => False :=
    ⟨by simp [hs0, schedulerInit], by simp, by simp [hs0, schedulerInit],
      fun p hp => by simp [hs0, schedulerInit, bit_bitmapInit page hp], rfl⟩
  have hQ1 : QueuesOf s1 fun _ => False := hQ0.of_tcb hi.rq hi.rqMask fun _ hf => hf.elim
  obtain ⟨s2, h2, hQ2, hsame⟩ := hQ1.join (t := boot) not_false
    (by rw [hi.priority]; decide)
  have hall2 : s2.allList = [] := hsame.allList.trans hi.allList
  have hrun2 : s2.runningThread = boot := hsame.runningThread.trans hi.runningThread
  have hidle2 : s2.idleThread = boot := hsame.idleThread.trans hi.idleThread
  have hidle0 : s0.idleThread = boot := rfl
  have hst : (s2.tcb boot).status = .running := by
    rw [hsame.tcb, hi.status, hidle0, if_pos rfl]
  have hok : TcbOk (s2.tcb boot) := by
    refine ⟨?_, .inl (.inl hst), ?_⟩
    · rw [hsame.tcb, hi.priority]
      decide
    · rw [hsame.tcb, hi.magic]
  refine ⟨{ s2 with allList := s2.allList ++ [boot] }, ?_, ⟨⟨?_, ?_, ?_, ?_, ?_⟩, ?_⟩, by simp [hall2]⟩
  · have hrun1 : s1.runningThread = boot := hi.runningThread
    have hpush : allListPushBack s2 s2.runningThread =
        some { s2 with allList := s2.allList ++ [boot] } := by
      rw [allListPushBack, if_neg (by simp [hall2]), hrun2]
    simp [threadAllInit, idleThreadMake, ← hs0, hidle0, ← hs1, hrun1, h2, hpush]
  · have hQ3 : QueuesOf { s2 with allList := s2.allList ++ [boot] } _ :=
      hQ2.of_tcb rfl rfl fun _ _ => rfl
    refine hQ3.congr fun u => ?_
    by_cases he : u = boot
    · subst he
      simp [hst]
    · simp [he, hall2]
  · intro u hu
    obtain rfl : u = boot := by simpa [hall2] using hu
    exact hok
  · simp [hrun2]
  · simp [hidle2]
  · intro u hu _
    rw [hrun2]
    simpa [hall2] using hu
  · simpa [hrun2] using hst

/-- The idle thread is made like any other. -/
lemma threadRun_of_threadAllInit {boot : T} {page : ℕ → BitVec 8} {garbage : T → Tcb}
    (h : threadAllInit boot page garbage = some s) :
    threadRun (schedulerInit boot page garbage) boot 31 = some s := by
  have hi := threadTcbInit_spec (schedulerInit boot page garbage) boot 31
  obtain ⟨s1, h1, hs⟩ := Option.bind_eq_some_iff.mp h
  have hrun : (threadTcbInit (schedulerInit boot page garbage) boot 31).runningThread = boot :=
    hi.runningThread
  have h1' : schedulerRqJoin (threadTcbInit (schedulerInit boot page garbage) boot 31) boot =
      some s1 := hrun ▸ h1
  have hrun' : s1.runningThread = boot := (schedulerRqInsert_eq h1').runningThread.trans hrun
  exact Option.bind_eq_some_iff.mpr ⟨s1, h1', hrun' ▸ hs⟩

/-- What the operations ask of their callers: a fresh page and a priority below
`PRIO_NUM` for a new thread, another queued thread when the running one blocks, a
blocked thread to unblock. -/
def SchedAllowed (s : Scheduler T) : SchedEvent T → Prop
  | .threadRun t prio => t ∉ s.allList ∧ prio < prioNum
  | .processRun t => t ∉ s.allList
  | .threadBlock st => st.Sleeping ∧ ∃ t, t ≠ s.runningThread ∧ s.Linked t
  | .threadUnblock t => t ∈ s.allList ∧ (s.tcb t).status.Sleeping
  | .timerInterrupt => True
  | .mainSchedule => True

/-- One step of the scheduler is defined and keeps the invariant. -/
lemma schedStep_spec (h : SchedInv s) {e : SchedEvent T} (ok : SchedAllowed s e) :
    ∃ s', schedStep s e = some s' ∧ SchedInv s' := by
  cases e with
  | threadRun t prio =>
    obtain ⟨s', hs, hinv, _⟩ := threadRun_spec h ok.1 ok.2
    exact ⟨s', hs, hinv⟩
  | processRun t =>
    obtain ⟨s', hs, hinv, _⟩ := threadRun_spec h ok (show 31 < prioNum by decide)
    exact ⟨s', hs, hinv⟩
  | threadBlock st =>
    obtain ⟨s', hs, hinv, _⟩ := threadBlock_spec h ok.1 ok.2
    exact ⟨s', hs, hinv⟩
  | threadUnblock t =>
    obtain ⟨s', hs, hinv, _⟩ := threadUnblock_spec h ok.1 ok.2
    exact ⟨s', hs, hinv⟩
  | timerInterrupt =>
    obtain ⟨s', hs, hinv, _⟩ := timerInterrupt_spec h
    exact ⟨s', hs, hinv⟩
  | mainSchedule =>
    obtain ⟨s', hs, hinv, _⟩ := mainSchedule_spec h.toSchedWeak (.inl h.current)
    exact ⟨s', hs, hinv⟩

lemma reach_schedInv {boot : T} {page : ℕ → BitVec 8} {garbage : T → Tcb} {s₀ s : Scheduler T}
    (h₀ : threadAllInit boot page garbage = some s₀) (h : Reach schedStep SchedAllowed s₀ s) :
    SchedInv s := by
  obtain ⟨s1, h1, hinv, _⟩ := threadAllInit_spec boot page garbage
  obtain rfl : s1 = s₀ := Option.some.inj (h1.symm.trans h₀)
  refine h.invariant hinv fun a e b ha ok hb => ?_
  obtain ⟨c, hc, hinvc⟩ := schedStep_spec ha ok
  exact Option.some.inj (hc.symm.trans hb) ▸ hinvc

/-- The ready queues, the mask and the statuses agree. -/
structure RqConsistent (s : Scheduler T) : Prop where
  runnable : ∀ t ∈ s.allList, (s.tcb t).status.Runnable →
    (s.tcb t).priority < prioNum ∧ (s.rq (s.tcb t).priority).count t = 1 ∧
      ∀ p < prioNum, p ≠ (s.tcb t).priority → t ∉ s.rq p
  sleeping : ∀ t ∈ s.allList, (s.tcb t).status.Sleeping → ∀ p < prioNum, t ∉ s.rq p
  created : ∀ p < prioNum, ∀ t ∈ s.rq p, t ∈ s.allList
  mask : ∀ p < prioNum, bitmapGet s.rqMask p = 1 ↔ s.rq p ≠ []
  alive : ∀ t ∈ s.allList, (s.tcb t).status.Runnable ∨ (s.tcb t).status.Sleeping
  running : s.runningThread ∈ s.allList ∧
    ∀ t ∈ s.allList, (s.tcb t).status = .running ↔ t = s.runningThread

lemma SchedInv.consistent (h : SchedInv s) : RqConsistent s where
  runnable t ht hr := by
    have hp := (h.tcbs t ht).prio
    refine ⟨hp, ?_, fun p hpn hne hm => hne ((h.queues.mem p hpn t).mp hm).2.symm⟩
    exact List.count_eq_one_of_mem (h.queues.nodup _ hp) ((h.queues.mem _ hp t).mpr ⟨⟨ht, hr⟩, rfl⟩)
  sleeping t _ hs p hpn hm := hs.not_runnable ((h.queues.mem p hpn t).mp hm).1.2
  created p hpn t hm := ((h.queues.mem p hpn t).mp hm).1.1
  mask p hpn := by rw [bitmapGet_eq_one, h.queues.mask p hpn]
  alive t ht := (h.tcbs t ht).alive
  running := ⟨h.running, fun t ht => ⟨h.only t ht, fun he => he ▸ h.current⟩⟩

/-- In every state the scheduler reaches, the queues, the mask and the statuses agree,
exactly one thread is running, and the next operation is defined. -/
theorem ready_queues_consistent {boot : T} {page : ℕ → BitVec 8} {garbage : T → Tcb}
    {s₀ s : Scheduler T} (h₀ : threadAllInit boot page garbage = some s₀)
    (h : Reach schedStep SchedAllowed s₀ s) :
    RqConsistent s ∧ ∀ e, SchedAllowed s e → ∃ s', schedStep s e = some s' := by
  have hinv := reach_schedInv h₀ h
  refine ⟨hinv.consistent, fun e ok => ?_⟩
  obtain ⟨s', hs, _⟩ := schedStep_spec hinv ok
  exact ⟨s', hs⟩

/-- The theorem at a run that creates a thread and a process and then takes a timer
interrupt. -/
theorem ready_queues_consistent_two_created :
    ∃ s₀ s : Scheduler ℕ,
      threadAllInit 0 (fun _ => 0xff) (fun _ => ⟨0, .died, 0, 0, 0, 0⟩) = some s₀ ∧
      Reach schedStep SchedAllowed s₀ s ∧ s.allList = [0, 1, 2] ∧ RqConsistent s := by
  obtain ⟨s₀, h₀, hi₀, hall₀⟩ := threadAllInit_spec (0 : ℕ) (fun _ => 0xff)
    (fun _ => ⟨0, .died, 0, 0, 0, 0⟩)
  have hf1 : (1 : ℕ) ∉ s₀.allList := by simp [hall₀]
  obtain ⟨s1, h1, hi1, hall1, _⟩ := threadRun_spec hi₀ hf1 (show 8 < prioNum by decide)
  have hf2 : (2 : ℕ) ∉ s1.allList := by simp [hall1, hall₀]
  obtain ⟨s2, h2, hi2, hall2, _⟩ := threadRun_spec hi1 hf2 (show 31 < prioNum by decide)
  obtain ⟨s3, h3, _, hall3⟩ := timerInterrupt_spec hi2
  have hr1 : Reach schedStep SchedAllowed s₀ s1 :=
    .snoc (e := .threadRun 1 8) .refl ⟨hf1, by decide⟩ h1
  have hr3 : Reach schedStep SchedAllowed s₀ s3 :=
    .snoc (e := .timerInterrupt) (.snoc (e := .processRun 2) hr1 hf2 h2) trivial h3
  exact ⟨s₀, s3, h₀, hr3, by simp [hall3, hall2, hall1, hall₀], (ready_queues_consistent h₀ hr3).1⟩

end OsI386
