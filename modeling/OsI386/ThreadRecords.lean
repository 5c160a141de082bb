import OsI386.PriorityOrder

/-!
# What the scheduler stores in the tcbs

The operations as they change `all_list`, `thread_table` and the pid, the priority and the ticks
of each thread; the queues, the mask, the flag and the statuses are left to the other modules.
-/
namespace OsI386
open Scheduler TransitionSystem

variable {T : Type} [DecidableEq T] {s s' s1 : Scheduler T} {t u : T}

/-- The fields of a tcb that creation, the timer and a demotion write. -/
@[ext]
structure Slice where
  pid : ℕ
  priority : ℕ
  ticks : BitVec 32

def Scheduler.slice (s : Scheduler T) (t : T) : Slice :=
  ⟨(s.tcb t).pid, (s.tcb t).priority, (s.tcb t).ticks⟩

/-- The running thread included. -/
structure SameRecords (s s' : Scheduler T) : Prop where
  allList : s'.allList = s.allList
  threadTable : s'.threadTable = s.threadTable
  runningThread : s'.runningThread = s.runningThread

omit [DecidableEq T] in
lemma SameRecords.trans {s'' : Scheduler T} (h : SameRecords s s') (g : SameRecords s' s'') :
    SameRecords s s'' :=
  ⟨g.allList.trans h.allList, g.threadTable.trans h.threadTable,
    g.runningThread.trans h.runningThread⟩

section Queues

/-- Linking a tag writes no tcb. -/
lemma schedulerRqInsert_records {link : List T → List T}
    (hs : schedulerRqInsert s t link = some s') : SameRecords s s' ∧ s'.tcb = s.tcb := by
  simp only [schedulerRqInsert] at hs
  split_ifs at hs
  exact Option.some.inj hs ▸ ⟨⟨rfl, rfl, rfl⟩, rfl⟩

omit [DecidableEq T] in
lemma preemptCheck_records (s : Scheduler T) (t : T) :
    SameRecords s (preemptCheck s t) ∧ (preemptCheck s t).tcb = s.tcb := by
  unfold preemptCheck
  split_ifs <;> exact ⟨⟨rfl, rfl, rfl⟩, rfl⟩

/-- `scheduler_rq_join` and `scheduler_rq_jump`. -/
lemma linked_records {link : List T → List T}
    (hs : (schedulerRqInsert s t link).map (preemptCheck · t) = some s') :
    SameRecords s s' ∧ s'.tcb = s.tcb := by
  obtain ⟨s1, h1, rfl⟩ := Option.map_eq_some_iff.mp hs
  obtain ⟨hsame, htcb⟩ := schedulerRqInsert_records h1
  obtain ⟨hsame', htcb'⟩ := preemptCheck_records s1 t
  exact ⟨hsame.trans hsame', htcb'.trans htcb⟩

lemma schedulerRqLeaveOnly_records (hs : schedulerRqLeaveOnly s t = some s') :
    SameRecords s s' ∧ s'.tcb = s.tcb := by
  simp only [schedulerRqLeaveOnly] at hs
  split_ifs at hs <;> exact Option.some.inj hs ▸ ⟨⟨rfl, rfl, rfl⟩, rfl⟩

omit [DecidableEq T] in
lemma slice_of_tcb (h : s'.tcb = s.tcb) : s'.slice = s.slice := by
  funext u
  simp only [Scheduler.slice, h]

/-- A status is no part of the slice. -/
lemma slice_setStatus (s : Scheduler T) (t : T) (st : TaskStatus) :
    (s.setTcb t fun c => { c with status := st }).slice = s.slice := by
  funext u
  by_cases hu : u = t
  · subst hu
    simp [Scheduler.slice, setTcb]
  · simp [Scheduler.slice, setTcb, hu]

end Queues

section Operations

variable {st : TaskStatus}

lemma threadSleep_records (hs : threadSleep s st = some s') :
    SameRecords s s' ∧ s'.slice = s.slice ∧ s'.needSchedule = true ∧ st.Sleeping ∧
      (s'.tcb s.runningThread).status = st := by
  unfold threadSleep at hs
  split_ifs at hs with hst
  obtain ⟨s1, h1, rfl⟩ := Option.map_eq_some_iff.mp hs
  obtain ⟨hsame, htcb⟩ := schedulerRqLeaveOnly_records h1
  have hrun : s.runningThread = s1.runningThread := hsame.runningThread.symm
  have hslice := (slice_of_tcb htcb).trans (slice_setStatus s s.runningThread st)
  split_ifs with hif
  · refine ⟨⟨hsame.allList, hsame.threadTable, hsame.runningThread⟩, hslice, rfl, hst, ?_⟩
    change (s1.tcb s.runningThread).status = st
    rw [htcb]
    simp [setTcb]
  · exact absurd hrun hif

lemma threadUnblock_records (hs : threadUnblock s t = some s') :
    SameRecords s s' ∧ s'.slice = s.slice := by
  unfold threadUnblock at hs
  split_ifs at hs
  obtain ⟨hsame, htcb⟩ := linked_records hs
  exact ⟨⟨hsame.allList, hsame.threadTable, hsame.runningThread⟩,
    (slice_of_tcb htcb).trans (slice_setStatus s t .ready)⟩

/-- The slice after a demotion. -/
def Slice.demote (c : Slice) : Slice :=
  { c with
    priority := (c.priority + 1) % prioNum
    ticks := ticksGet ((c.priority + 1) % prioNum) }

lemma sliceExpire_records (hs : sliceExpire s t = some s') :
    SameRecords s s' ∧ s'.slice = Function.update s.slice t (s.slice t).demote := by
  have htcb := sliceExpire_tcb hs
  obtain ⟨s1, h1, hs⟩ := Option.bind_eq_some_iff.mp hs
  obtain ⟨s3, h3, hs⟩ := Option.bind_eq_some_iff.mp hs
  have hsame := (schedulerRqLeaveOnly_records h1).1
  have hsame' := (schedulerRqInsert_records h3).1
  obtain rfl := Option.some.inj hs
  refine ⟨⟨hsame'.allList.trans hsame.allList, hsame'.threadTable.trans hsame.threadTable,
    hsame'.runningThread.trans hsame.runningThread⟩, ?_⟩
  funext u
  by_cases hu : u = t
  · subst hu
    simp [Scheduler.slice, htcb, Slice.demote]
  · simp [Scheduler.slice, htcb, hu]

/-- `main_schedule` is going to demote the running thread. -/
def Demotes (s : Scheduler T) : Prop :=
  s.needSchedule = true ∧ (s.tcb s.runningThread).status = .running

instance (s : Scheduler T) : Decidable (Demotes s) := inferInstanceAs (Decidable (_ ∧ _))

lemma mainSchedule_records (hs : mainSchedule s = some s') :
    s'.allList = s.allList ∧ s'.threadTable = s.threadTable ∧
      s'.slice = if Demotes s
        then Function.update s.slice s.runningThread (s.slice s.runningThread).demote
        else s.slice := by
  by_cases hneed : s.needSchedule = true
  · obtain ⟨s1, n, ⟨hst, h1⟩ | ⟨hst, rfl⟩, -, rfl⟩ := mainSchedule_cases hneed hs
    · obtain ⟨hsame, hslice⟩ := sliceExpire_records h1
      rw [if_pos ⟨hneed, hst⟩]
      exact ⟨hsame.allList, hsame.threadTable, (slice_setStatus s1 n .running).trans hslice⟩
    · rw [if_neg fun h => hst h.2]
      exact ⟨rfl, rfl, slice_setStatus { s with needSchedule := false } n .running⟩
  · have hno : ¬ Demotes s := fun h => hneed h.1
    simp only [mainSchedule, hneed] at hs
    rw [if_neg hno]
    exact Option.some.inj hs ▸ ⟨rfl, rfl, rfl⟩

/-- A thread that blocks is not demoted. -/
lemma threadBlock_records (hs : threadBlock s st = some s') :
    s'.allList = s.allList ∧ s'.threadTable = s.threadTable ∧ s'.slice = s.slice := by
  obtain ⟨s1, h1, hs⟩ := Option.bind_eq_some_iff.mp hs
  obtain ⟨hsame, hslice, hneed, hst, hcur⟩ := threadSleep_records h1
  simp only [schedule, hneed, if_true] at hs
  obtain ⟨hall, htable, hend⟩ := mainSchedule_records hs
  have hno : ¬ Demotes s1 := by
    rintro ⟨-, hrun⟩
    rw [hsame.runningThread, hcur] at hrun
    simp [hrun, TaskStatus.Sleeping] at hst
  rw [if_neg hno] at hend
  exact ⟨hall.trans hsame.allList, htable.trans hsame.threadTable, hend.trans hslice⟩

/-- The slice after a tick of the timer. -/
def Slice.tick (c : Slice) : Slice := if c.ticks = 0 then c else { c with ticks := c.ticks - 1 }

lemma intrTimerHandler_records (hs : intrTimerHandler s = some s') :
    SameRecords s s' ∧
      s'.slice = Function.update s.slice s.runningThread (s.slice s.runningThread).tick ∧
      (s'.needSchedule = true ↔ s.needSchedule = true ∨ (s.tcb s.runningThread).ticks = 0) ∧
      ∀ u, (s'.tcb u).status = (s.tcb u).status := by
  simp only [intrTimerHandler] at hs
  split_ifs at hs with hmagic hzero
  · obtain rfl := Option.some.inj hs
    have h0 : (s.tcb s.runningThread).ticks = 0 := by simpa [setTcb] using hzero
    refine ⟨⟨rfl, rfl, rfl⟩, ?_, by simp [h0], fun u => ?_⟩
    · funext u
      by_cases hu : u = s.runningThread
      · subst hu
        simp [Scheduler.slice, setTcb, Slice.tick, h0]
      · simp [Scheduler.slice, setTcb, hu]
    · by_cases hu : u = s.runningThread <;> simp [setTcb, hu]
  · obtain rfl := Option.some.inj hs
    have h0 : ¬ (s.tcb s.runningThread).ticks = 0#32 := by simpa [setTcb] using hzero
    refine ⟨⟨rfl, rfl, rfl⟩, ?_, by simp [h0, setTcb], fun u => ?_⟩
    · funext u
      by_cases hu : u = s.runningThread
      · subst hu
        simp [Scheduler.slice, setTcb, Slice.tick, h0]
      · simp [Scheduler.slice, setTcb, hu]
    · by_cases hu : u = s.runningThread <;> simp [setTcb, hu]

/-- The pid `pid_alloc` stores, and the table after it. -/
def freePid (s : Scheduler T) : Option ℕ :=
  (List.range maxThreadNum).find? fun i => (s.threadTable i).isNone

lemma threadTcbInit_records (s : Scheduler T) (t : T) (prio : ℕ) :
    (threadTcbInit s t prio).slice =
        Function.update s.slice t ⟨(freePid s).getD 0, prio, ticksGet prio⟩ ∧
      (threadTcbInit s t prio).threadTable =
        (match freePid s with
          | some i => Function.update s.threadTable i (some t)
          | none => s.threadTable) := by
  have hfree : (List.range maxThreadNum).find? (fun i => (s.threadTable i).isNone) = freePid s := rfl
  unfold threadTcbInit pidAlloc
  simp only [setTcb, hfree]
  cases freePid s with
  | none =>
    refine ⟨?_, rfl⟩
    funext u
    by_cases hu : u = t
    · subst hu
      simp [Scheduler.slice]
    · simp [Scheduler.slice, hu]
  | some i =>
    refine ⟨?_, rfl⟩
    funext u
    by_cases hu : u = t
    · subst hu
      simp [Scheduler.slice]
    · simp [Scheduler.slice, hu]

/-- A new thread: `thread_run`, and with priority 31 `process_run`. -/
structure Created (s s' : Scheduler T) (t : T) (prio : ℕ) : Prop where
  fresh : t ∉ s.allList
  allList : s'.allList = s.allList ++ [t]
  threadTable : s'.threadTable = (match freePid s with
    | some i => Function.update s.threadTable i (some t)
    | none => s.threadTable)
  slice : s'.slice = Function.update s.slice t ⟨(freePid s).getD 0, prio, ticksGet prio⟩
  runningThread : s'.runningThread = s.runningThread

lemma created_of_join {prio : ℕ} (h1 : schedulerRqJoin (threadTcbInit s t prio) t = some s1)
    (hs : allListPushBack s1 t = some s') : Created s s' t prio := by
  have hi := threadTcbInit_spec s t prio
  obtain ⟨hslice, htable⟩ := threadTcbInit_records s t prio
  obtain ⟨hsame, htcb⟩ := linked_records h1
  have hall : s1.allList = s.allList := hsame.allList.trans hi.allList
  unfold allListPushBack at hs
  split_ifs at hs with hmem
  obtain rfl := Option.some.inj hs
  exact ⟨hall ▸ hmem, congrArg (· ++ [t]) hall, hsame.threadTable.trans htable,
    (slice_of_tcb htcb).trans hslice, hsame.runningThread.trans hi.runningThread⟩

lemma threadRun_records {prio : ℕ} (hs : threadRun s t prio = some s') : Created s s' t prio := by
  obtain ⟨s1, h1, hs⟩ := Option.bind_eq_some_iff.mp hs
  exact created_of_join h1 hs

lemma processRun_records (hs : processRun s t = some s') : Created s s' t 31 := by
  have hrun : threadRun s t 31 = some s' := hs
  exact threadRun_records hrun

/-- The idle thread is created like any other. -/
lemma threadAllInit_records {boot : T} {page : ℕ → BitVec 8} {garbage : T → Tcb}
    (h : threadAllInit boot page garbage = some s) :
    Created (schedulerInit boot page garbage) s boot 31 := by
  have hi := threadTcbInit_spec (schedulerInit boot page garbage) boot 31
  obtain ⟨s1, h1, hs⟩ := Option.bind_eq_some_iff.mp h
  have hrun : (threadTcbInit (schedulerInit boot page garbage) boot 31).runningThread = boot :=
    hi.runningThread
  have h1' : schedulerRqJoin (threadTcbInit (schedulerInit boot page garbage) boot 31) boot =
      some s1 := hrun ▸ h1
  have hrun' : s1.runningThread = boot := (linked_records h1').1.runningThread.trans hrun
  exact created_of_join h1' (hrun' ▸ hs)

/-- Each step keeps the threads, or adds one. -/
lemma schedStep_allList {e : SchedEvent T} (hs : schedStep s e = some s') :
    s'.allList = s.allList ∨ ∃ t prio, Created s s' t prio := by
  cases e with
  | threadRun t prio => exact .inr ⟨t, prio, threadRun_records hs⟩
  | processRun t => exact .inr ⟨t, 31, processRun_records hs⟩
  | threadBlock st => exact .inl (threadBlock_records hs).1
  | threadUnblock t => exact .inl (threadUnblock_records hs).1.allList
  | mainSchedule => exact .inl (mainSchedule_records hs).1
  | timerInterrupt =>
    obtain ⟨s1, h1, hs⟩ := Option.bind_eq_some_iff.mp hs
    exact .inl ((mainSchedule_records hs).1.trans (intrTimerHandler_records h1).1.allList)

end Operations

end OsI386
