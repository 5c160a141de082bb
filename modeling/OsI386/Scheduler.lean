import OsI386.Bitmap
import OsI386.TransitionSystem

/-!
# thread/thread.c: the priority scheduler

`T` stands for the addresses of thread control blocks. An operation returns
`none` where the code leaves its data structures: a failed `ASSERT`, an index past
`rq`, a tag linked into a second ready queue, a tag unlinked from none, or a list
sentinel taken for a thread. Operations run with interrupts off, so each of them
is one step. `process_activate` acts on cr3 and the tss only and is modelled with
the page tables.
-/
namespace OsI386

inductive TaskStatus
  | running | ready | blocked | waiting | hanging | died
  deriving DecidableEq, Repr

/-- A runnable thread keeps its `ready_tag` linked, the running thread included. -/
def TaskStatus.Runnable (st : TaskStatus) : Prop := st = .running ∨ st = .ready

/-- The statuses `thread_block` and `thread_unblock` assert. -/
def TaskStatus.Sleeping (st : TaskStatus) : Prop := st = .blocked ∨ st = .waiting ∨ st = .hanging

instance (st : TaskStatus) : Decidable st.Runnable := inferInstanceAs (Decidable (_ ∨ _))
instance (st : TaskStatus) : Decidable st.Sleeping := inferInstanceAs (Decidable (_ ∨ _))

@[simp] lemma runnable_ready : TaskStatus.Runnable .ready := .inr rfl
@[simp] lemma runnable_running : TaskStatus.Runnable .running := .inl rfl

lemma TaskStatus.Sleeping.not_runnable {st : TaskStatus} (h : st.Sleeping) : ¬ st.Runnable := by
  rcases h with rfl | rfl | rfl <;> simp [TaskStatus.Runnable]

/-- The fields of `tcb` the scheduler and the timer read or write. -/
structure Tcb where
  pid : ℕ
  status : TaskStatus
  priority : ℕ
  ticks : BitVec 32
  elapsedTicks : BitVec 32
  stackMagic : BitVec 32

def maxThreadNum : ℕ := 128
def prioNum : ℕ := 32
def stackMagic : BitVec 32 := 0x19980820

/-- `struct scheduler`, the tcb pages and the `ticks` counter of timer.c. -/
structure Scheduler (T : Type) where
  runningThread : T
  needSchedule : Bool
  idleThread : T
  threadTable : ℕ → Option T
  rqMask : Bitmap
  rq : ℕ → List T
  allList : List T
  tcb : T → Tcb
  ticks : BitVec 32

variable {T : Type} [DecidableEq T]

namespace Scheduler

def setTcb (s : Scheduler T) (t : T) (f : Tcb → Tcb) : Scheduler T :=
  { s with tcb := Function.update s.tcb t (f (s.tcb t)) }

/-- Some ready queue links the tag of `t`. -/
def Linked (s : Scheduler T) (t : T) : Prop := ∃ p < prioNum, t ∈ s.rq p

instance (s : Scheduler T) (t : T) : Decidable (s.Linked t) :=
  inferInstanceAs (Decidable (∃ p < prioNum, t ∈ s.rq p))

end Scheduler

open Scheduler

def ticksGet (prio : ℕ) : BitVec 32 := BitVec.ofNat 32 (prio / 3 + 1)

/-- `list_push_back` or `list_push_front` on `THIS_RQ(prio)`, then the mask bit. -/
def schedulerRqInsert (s : Scheduler T) (t : T) (link : List T → List T) :
    Option (Scheduler T) :=
  let prio := (s.tcb t).priority
  if prio < prioNum ∧ ¬ s.Linked t then
    some { s with
      rq := Function.update s.rq prio (link (s.rq prio))
      rqMask := bitmapSet s.rqMask prio }
  else none

def schedulerRqJoinOnly (s : Scheduler T) (t : T) : Option (Scheduler T) :=
  schedulerRqInsert s t fun q => q ++ [t]

def schedulerRqJumpOnly (s : Scheduler T) (t : T) : Option (Scheduler T) :=
  schedulerRqInsert s t fun q => t :: q

/-- `if (RUNNING_THREAD->priority > thread->priority) need_schedule = true`. -/
def preemptCheck (s : Scheduler T) (t : T) : Scheduler T :=
  if (s.tcb t).priority < (s.tcb s.runningThread).priority then { s with needSchedule := true }
  else s

def schedulerRqJoin (s : Scheduler T) (t : T) : Option (Scheduler T) :=
  (schedulerRqJoinOnly s t).map fun s => preemptCheck s t

def schedulerRqJump (s : Scheduler T) (t : T) : Option (Scheduler T) :=
  (schedulerRqJumpOnly s t).map fun s => preemptCheck s t

/-- `list_remove` takes the tag out of whichever queue links it; the mask bit cleared
is the one of the thread's current priority. -/
def schedulerRqLeaveOnly (s : Scheduler T) (t : T) : Option (Scheduler T) :=
  let prio := (s.tcb t).priority
  if prio < prioNum ∧ s.Linked t then
    let s := { s with rq := fun p => (s.rq p).erase t }
    some (if s.rq prio = [] then { s with rqMask := bitmapClear s.rqMask prio } else s)
  else none

def schedulerRqLeave (s : Scheduler T) (t : T) : Option (Scheduler T) :=
  (schedulerRqLeaveOnly s t).map fun s =>
    if t = s.runningThread then { s with needSchedule := true } else s

/-- The first free slot of `thread_table` becomes the pid; without one the pid stays 0.
`pid_mtx` is free whenever interrupts are off here, so locking it has no effect. -/
def pidAlloc (s : Scheduler T) (t : T) : Scheduler T :=
  match (List.range maxThreadNum).find? fun i => (s.threadTable i).isNone with
  | some i =>
    { s.setTcb t (fun c => { c with pid := i }) with
      threadTable := Function.update s.threadTable i (some t) }
  | none => s

def threadTcbInit (s : Scheduler T) (t : T) (prio : ℕ) : Scheduler T :=
  let s := s.setTcb t fun _ =>
    { pid := 0
      status := if t = s.idleThread then .running else .ready
      priority := prio
      ticks := ticksGet prio
      elapsedTicks := 0
      stackMagic := 0 }
  (pidAlloc s t).setTcb t fun c => { c with stackMagic := stackMagic }

/-- `list_push_back(&cur_scheduler->all_list, &thread->all_list_tag)`. -/
def allListPushBack (s : Scheduler T) (t : T) : Option (Scheduler T) :=
  if t ∈ s.allList then none else some { s with allList := s.allList ++ [t] }

/-- `t` is the page `kernel_pages_malloc(1)` returned for the new tcb. -/
def threadRun (s : Scheduler T) (t : T) (prio : ℕ) : Option (Scheduler T) := do
  let s := threadTcbInit s t prio
  let s ← schedulerRqJoin s t
  allListPushBack s t

/-- The part of `process_run` that concerns the scheduler. -/
def processRun (s : Scheduler T) (t : T) : Option (Scheduler T) := do
  let s := threadTcbInit s t 31
  let s ← schedulerRqJoin s t
  allListPushBack s t

/-- `scheduler_init`, with the running and idle pointers already set to the thread
`idle_thread_make` stores there next. `page` and `garbage` are the previous contents
of the bitmap page and of the tcb pages. -/
def schedulerInit (boot : T) (page : ℕ → BitVec 8) (garbage : T → Tcb) : Scheduler T where
  runningThread := boot
  needSchedule := false
  idleThread := boot
  threadTable _ := none
  rqMask := bitmapInit page prioNum
  rq _ := []
  allList := []
  tcb := garbage
  ticks := 0

def idleThreadMake (s : Scheduler T) : Option (Scheduler T) := do
  let s := threadTcbInit s s.idleThread 31
  let s ← schedulerRqJoin s s.runningThread
  allListPushBack s s.runningThread

def threadAllInit (boot : T) (page : ℕ → BitVec 8) (garbage : T → Tcb) : Option (Scheduler T) :=
  idleThreadMake (schedulerInit boot page garbage)

def threadPrioChange (s : Scheduler T) (t : T) : Scheduler T :=
  s.setTcb t fun c => { c with priority := (c.priority + 1) % prioNum }

/-- `(uint32_t)bitmap_scan(RQ_MASK_BITMAP, 1, 1)`. -/
def highestRqGet (s : Scheduler T) : ℕ := (BitVec.ofInt 32 (bitmapScan s.rqMask 1 1)).toNat

/-- The first tag of the highest queue; the sentinel of an empty queue and a queue
past `rq` are no thread. -/
def nextThreadPick (s : Scheduler T) : Option T :=
  let prio := highestRqGet s
  if prio < prioNum then (s.rq prio).head? else none

/-- The branch of `main_schedule` for a thread that only used up its slice. -/
def sliceExpire (s : Scheduler T) (cur : T) : Option (Scheduler T) := do
  let s ← schedulerRqLeaveOnly s cur
  let s := threadPrioChange s cur
  let s ← schedulerRqJoinOnly s cur
  let s := s.setTcb cur fun c => { c with ticks := ticksGet c.priority }
  return s.setTcb cur fun c => { c with status := .ready }

/-- Up to `context_load(next)`, which resumes `runningThread` of the result. -/
def mainSchedule (s : Scheduler T) : Option (Scheduler T) :=
  let cur := s.runningThread
  if s.needSchedule then do
    let s := { s with needSchedule := false }
    let s ← if (s.tcb cur).status = .running then sliceExpire s cur else some s
    let next ← nextThreadPick s
    return { s.setTcb next (fun c => { c with status := .running }) with runningThread := next }
  else some s

/-- `schedule`, the switch through `task_trap` included. -/
def schedule (s : Scheduler T) : Option (Scheduler T) :=
  if s.needSchedule then mainSchedule s else some s

/-- `thread_block` up to its call of `schedule`. -/
def threadSleep (s : Scheduler T) (st : TaskStatus) : Option (Scheduler T) :=
  if st.Sleeping then
    let s := s.setTcb s.runningThread fun c => { c with status := st }
    schedulerRqLeave s s.runningThread
  else none

def threadBlock (s : Scheduler T) (st : TaskStatus) : Option (Scheduler T) :=
  (threadSleep s st).bind schedule

def threadUnblock (s : Scheduler T) (t : T) : Option (Scheduler T) :=
  if (s.tcb t).status.Sleeping then
    let s := s.setTcb t fun c => { c with status := .ready }
    schedulerRqJump s t
  else none

def intrTimerHandler (s : Scheduler T) : Option (Scheduler T) :=
  let cur := s.runningThread
  if (s.tcb cur).stackMagic = stackMagic then
    let s := s.setTcb cur fun c => { c with elapsedTicks := c.elapsedTicks + 1 }
    let s := { s with ticks := s.ticks + 1 }
    if (s.tcb cur).ticks = 0 then some { s with needSchedule := true }
    else some (s.setTcb cur fun c => { c with ticks := c.ticks - 1 })
  else none

/-- A timer interrupt: the handler, then `hwi_tail_handle`. -/
def timerInterrupt (s : Scheduler T) : Option (Scheduler T) :=
  (intrTimerHandler s).bind mainSchedule

/-- What happens to the scheduler, each with interrupts off. -/
inductive SchedEvent (T : Type)
  | threadRun (thread : T) (prio : ℕ)
  | processRun (thread : T)
  | threadBlock (status : TaskStatus)
  | threadUnblock (thread : T)
  | timerInterrupt
  | mainSchedule

def schedStep (s : Scheduler T) : SchedEvent T → Option (Scheduler T)
  | .threadRun t prio => OsI386.threadRun s t prio
  | .processRun t => OsI386.processRun s t
  | .threadBlock st => OsI386.threadBlock s st
  | .threadUnblock t => OsI386.threadUnblock s t
  | .timerInterrupt => OsI386.timerInterrupt s
  | .mainSchedule => OsI386.mainSchedule s

end OsI386
