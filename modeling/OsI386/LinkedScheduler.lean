import OsI386.Paging
import OsI386.Lists
import OsI386.Refinement
import OsI386.SchedulerRuns
import OsI386.Segments

/-!
# thread/thread.c over the lists of lib/kernel/list.c

The scheduler as the source has it: threads are addresses, a ready queue is a list of
`ready_tag`s linked through memory, and the next thread is computed from the first tag.
-/
namespace OsI386
open X86 Prog TransitionSystem

/-- `struct scheduler` without its queues, the tcbs, `ticks` of timer.c, and the links of all
list elements in memory. -/
structure LinkedScheduler where
  runningThread : Word
  needSchedule : Bool
  idleThread : Word
  threadTable : ℕ → Option Word
  rqMask : Bitmap
  tcb : Word → Tcb
  ticks : BitVec 32
  links : Links Word

/-- Why an operation does not return: a fault of a list function, or a failed `ASSERT`. -/
inductive SchedHalt
  | list (h : ListHalt)
  | assertion

abbrev SchedProg := Prog LinkedScheduler Empty SchedHalt

namespace LinkedScheduler

def linksPart : Part LinkedScheduler (Links Word) where
  get s := s.links
  put m s := { s with links := m }
  get_put _ _ := rfl
  put_get _ := rfl
  put_put _ _ _ := rfl

section Layout

/-- `THIS_RQ(prio)`. -/
def thisRq (curScheduler : Word) (prio : ℕ) : Word := curScheduler + 536 + BitVec.ofNat 32 (16 * prio)

/-- `&cur_scheduler->all_list`, behind the ready queues. -/
def allList (curScheduler : Word) : Word := curScheduler + 1048

def readyTag (thread : Word) : Word := thread + 40

def pendTag (thread : Word) : Word := thread + 48

def allListTag (thread : Word) : Word := thread + 56

/-- `ELEM2ENTRY(tcb, ready_tag, elem)`. -/
def entryOfTag (elem : Word) : Word := elem - 40

end Layout

section Code

variable (cs : Word)

def onLinks {α : Type} (p : ListProg α) : SchedProg α := p.onPart linksPart .list

def assert (cond : LinkedScheduler → Prop) [DecidablePred cond] : SchedProg Unit := do
  if ← read fun s => decide (cond s) then return () else .stop .assertion

def setTcb (thread : Word) (f : Tcb → Tcb) : SchedProg Unit :=
  modify fun s => { s with tcb := Function.update s.tcb thread (f (s.tcb thread)) }

def schedulerRqJoinOnly (thread : Word) : SchedProg Unit := do
  let prio ← read fun s => (s.tcb thread).priority
  onLinks (listPushBack (thisRq cs prio) (readyTag thread))
  modify fun s => { s with rqMask := bitmapSet s.rqMask prio }

def schedulerRqJumpOnly (thread : Word) : SchedProg Unit := do
  let prio ← read fun s => (s.tcb thread).priority
  onLinks (listPushFront (thisRq cs prio) (readyTag thread))
  modify fun s => { s with rqMask := bitmapSet s.rqMask prio }

/-- `if (RUNNING_THREAD->priority > thread->priority)`. -/
def preemptCheck (thread : Word) : SchedProg Unit :=
  modify fun s => if (s.tcb thread).priority < (s.tcb s.runningThread).priority then
    { s with needSchedule := true } else s

def schedulerRqJoin (thread : Word) : SchedProg Unit := do
  schedulerRqJoinOnly cs thread
  preemptCheck thread

def schedulerRqJump (thread : Word) : SchedProg Unit := do
  schedulerRqJumpOnly cs thread
  preemptCheck thread

def schedulerRqLeaveOnly (thread : Word) : SchedProg Unit := do
  let prio ← read fun s => (s.tcb thread).priority
  onLinks (listRemove (readyTag thread))
  if ← onLinks (listEmpty (thisRq cs prio)) then
    modify fun s => { s with rqMask := bitmapClear s.rqMask prio }

def schedulerRqLeave (thread : Word) : SchedProg Unit := do
  schedulerRqLeaveOnly cs thread
  modify fun s => if thread = s.runningThread then { s with needSchedule := true } else s

/-- The lock is free whenever interrupts are off here. -/
def pidAlloc (thread : Word) : SchedProg Unit := do
  match ← read fun s => (List.range maxThreadNum).find? fun i => (s.threadTable i).isNone with
  | some i =>
    setTcb thread fun c => { c with pid := i }
    modify fun s => { s with threadTable := Function.update s.threadTable i (some thread) }
  | none => return ()

/-- `memset` of a list element. -/
def clearElem (e : Word) : ListProg Unit := do
  setPrev e 0
  setNext e 0

def threadTcbInit (thread : Word) (prio : ℕ) : SchedProg Unit := do
  onLinks (clearElem (readyTag thread))
  onLinks (clearElem (pendTag thread))
  onLinks (clearElem (allListTag thread))
  let idle ← read fun s => s.idleThread
  setTcb thread fun _ =>
    { pid := 0
      status := if thread = idle then .running else .ready
      priority := prio
      ticks := ticksGet prio
      elapsedTicks := 0
      stackMagic := 0 }
  pidAlloc thread
  setTcb thread fun c => { c with stackMagic := stackMagic }

/-- `thread` is what `kernel_pages_malloc(1)` returned. -/
def threadRun (thread : Word) (prio : ℕ) : SchedProg Unit := do
  threadTcbInit thread prio
  schedulerRqJoin cs thread
  onLinks (listPushBack (allList cs) (allListTag thread))

/-- `process_run`, as far as it is about the scheduler. -/
def processRun (thread : Word) : SchedProg Unit := do
  threadTcbInit thread 31
  schedulerRqJoin cs thread
  onLinks (listPushBack (allList cs) (allListTag thread))

/-- The lists of `struct scheduler`. -/
def lists : List Word := (List.range prioNum).map (thisRq cs) ++ [allList cs]

/-- `page` is what `kernel_pages_malloc(1)` returned for the bitmap. `idle_thread_make` stores the
pointers before it reads them. -/
def schedulerInit (boot : Word) (page : ℕ → BitVec 8) : SchedProg Unit := do
  modify fun s => { s with runningThread := boot }
  modify fun s => { s with needSchedule := false }
  modify fun s => { s with idleThread := boot }
  modify fun s => { s with threadTable := fun _ => none }
  modify fun s => { s with rqMask := bitmapInit page prioNum }
  onLinks (initAll (lists cs))

def idleThreadMake (boot : Word) : SchedProg Unit := do
  threadTcbInit boot 31
  schedulerRqJoin cs boot
  onLinks (listPushBack (allList cs) (allListTag boot))

def threadAllInit (boot : Word) (page : ℕ → BitVec 8) : SchedProg Unit := do
  schedulerInit cs boot page
  idleThreadMake cs boot

def threadPrioChange (thread : Word) : SchedProg Unit :=
  setTcb thread fun c => { c with priority := (c.priority + 1) % prioNum }

def highestRqGet : SchedProg ℕ :=
  read fun s => (BitVec.ofInt 32 (bitmapScan s.rqMask 1 1)).toNat

def nextThreadPick : SchedProg Word := do
  let prio ← highestRqGet
  let nextTag ← onLinks (listFirstElem (thisRq cs prio))
  return entryOfTag nextTag

/-- The time slice is used up. -/
def sliceExpire (cur : Word) : SchedProg Unit := do
  schedulerRqLeaveOnly cs cur
  threadPrioChange cur
  schedulerRqJoinOnly cs cur
  setTcb cur fun c => { c with ticks := ticksGet c.priority }
  setTcb cur fun c => { c with status := .ready }

/-- The end of `main_schedule`, up to `context_load`. -/
def switchThread : SchedProg Unit := do
  let next ← nextThreadPick cs
  setTcb next fun c => { c with status := .running }
  modify fun s => { s with runningThread := next }

def mainSchedule : SchedProg Unit := do
  let cur ← read fun s => s.runningThread
  if ← read fun s => s.needSchedule then
    modify fun s => { s with needSchedule := false }
    if ← read fun s => decide ((s.tcb cur).status = .running) then sliceExpire cs cur
    switchThread cs

def schedule : SchedProg Unit := do
  if ← read fun s => s.needSchedule then mainSchedule cs

def threadBlock (tskStatus : TaskStatus) : SchedProg Unit := do
  assert fun _ => tskStatus.Sleeping
  let running ← read fun s => s.runningThread
  setTcb running fun c => { c with status := tskStatus }
  schedulerRqLeave cs running
  schedule cs

def threadUnblock (thread : Word) : SchedProg Unit := do
  assert fun s => (s.tcb thread).status.Sleeping
  setTcb thread fun c => { c with status := .ready }
  schedulerRqJump cs thread

def intrTimerHandler : SchedProg Unit := do
  let cur ← read fun s => s.runningThread
  assert fun s => (s.tcb cur).stackMagic = stackMagic
  setTcb cur fun c => { c with elapsedTicks := c.elapsedTicks + 1 }
  modify fun s => { s with ticks := s.ticks + 1 }
  if ← read fun s => decide ((s.tcb cur).ticks = 0) then
    modify fun s => { s with needSchedule := true }
  else setTcb cur fun c => { c with ticks := c.ticks - 1 }

def timerInterrupt : SchedProg Unit := do
  intrTimerHandler
  mainSchedule cs

def exec : SchedEvent Word → SchedProg Unit
  | .threadRun t prio => threadRun cs t prio
  | .processRun t => processRun cs t
  | .threadBlock st => threadBlock cs st
  | .threadUnblock t => threadUnblock cs t
  | .timerInterrupt => timerInterrupt cs
  | .mainSchedule => mainSchedule cs

def linkedStep (s : LinkedScheduler) (e : SchedEvent Word) : Option LinkedScheduler :=
  (exec cs e).final s

end Code

end LinkedScheduler

end OsI386
