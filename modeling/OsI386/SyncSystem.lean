import OsI386.IoQueue
import OsI386.SchedulerRuns

/-!
# Threads, mutexes and ioqueues under the scheduler

The running thread executes one section with interrupts off at a time, up to its end or to the
switch inside `thread_block`. Any thread may lock and unlock any mutex of `M` in any order; the
mutex of an ioqueue is used by the calls on that queue only. An ioqueue call may also be made by
an interrupt handler, between the steps of a `mutex_lock` or `mutex_unlock` it interrupted.
-/
namespace OsI386
open TransitionSystem

/-- Where a thread is in the code of the mutexes: in the loop of `sem_down`, before
`mtx->holder = RUNNING_THREAD`, before `mtx->holder = NULL`. -/
inductive MutexPc (M : Type)
  | outside | inDown (m : M) | downDone (m : M) | upDone (m : M)
  deriving DecidableEq

/-- `lost` is set where `next_thread_pick` found no queue with a thread. -/
structure SyncSystem (T M Q : Type) where
  sched : Scheduler T
  mutex : M → Mutex T
  ioq : Q → Ioqueue T
  mutexPc : T → MutexPc M
  ioqPc : T → Option (Q × IoqCall × IoqPoint)
  lost : Bool

/-- A section of the running thread: the state it leaves, the threads it passes to
`thread_unblock` on the way, and the status with which it calls `thread_block` in the end. -/
structure SyncSegment (T M Q : Type) where
  next : SyncSystem T M Q
  unblocked : List T
  sleep : Option TaskStatus

/-- `block` and `unblock` are calls outside the code of mutexes and queues; `mainSchedule` is
the tail of an interrupt handler. -/
inductive SyncEvent (T M Q : Type)
  | lock (m : M)
  | setHolder
  | unlock (m : M)
  | clearHolder
  | ioqCall (q : Q) (c : IoqCall)
  | resume
  | block (st : TaskStatus)
  | unblock (t : T)
  | threadRun (t : T) (prio : ℕ)
  | timer
  | mainSchedule

variable {T M Q : Type} [DecidableEq T] [DecidableEq M] [DecidableEq Q]

/-- The state in which `main_schedule` calls `next_thread_pick`, if it does. -/
def pickState (s : Scheduler T) : Option (Scheduler T) :=
  let cur := s.runningThread
  if s.needSchedule then
    let s := { s with needSchedule := false }
    if (s.tcb cur).status = .running then sliceExpire s cur else some s
  else none

namespace SyncSystem

variable (s : SyncSystem T M Q)

def running : T := s.sched.runningThread

def inDown (t : T) : Bool :=
  match s.mutexPc t with
  | .inDown _ => true
  | _ => false

/-- The running thread is in code that may be interrupted. -/
def Interruptible : Prop := s.ioqPc s.running = none ∧ s.inDown s.running = false

/-- The running thread is in its own code. -/
def Free : Prop := s.ioqPc s.running = none ∧ s.mutexPc s.running = .outside

instance : Decidable s.Interruptible := inferInstanceAs (Decidable (_ ∧ _))
instance : Decidable s.Free := inferInstanceAs (Decidable (_ ∧ _))

/-- The section of `sem_down`, from the loop test on. -/
def lockSegment (m : M) : SyncSegment T M Q :=
  let mtx := s.mutex m
  match semDown mtx.sem s.running with
  | .taken sem =>
    { next := { s with
        mutex := Function.update s.mutex m { mtx with sem := sem }
        mutexPc := Function.update s.mutexPc s.running (.downDone m) }
      unblocked := []
      sleep := none }
  | .sleep sem =>
    { next := { s with
        mutex := Function.update s.mutex m { mtx with sem := sem }
        mutexPc := Function.update s.mutexPc s.running (.inDown m) }
      unblocked := []
      sleep := some .blocked }

/-- The section of `sem_up`. -/
def unlockSegment (m : M) : Option (SyncSegment T M Q) := do
  let mtx := s.mutex m
  let (sem, woken) ← semUp mtx.sem
  return {
    next := { s with
      mutex := Function.update s.mutex m { mtx with sem := sem }
      mutexPc := Function.update s.mutexPc s.running (.upDone m) }
    unblocked := woken.toList
    sleep := none }

/-- A segment of the call `c` on queue `q`. -/
def ioqSegment (q : Q) (c : IoqCall) (r : IoqSegment T) : SyncSegment T M Q :=
  let ioq := Function.update s.ioq q r.q
  match r.stop with
  | .sleep point =>
    { next := { s with ioq := ioq, ioqPc := Function.update s.ioqPc s.running (some (q, c, point)) }
      unblocked := r.unblocked
      sleep := some .blocked }
  | .done _ =>
    { next := { s with ioq := ioq, ioqPc := Function.update s.ioqPc s.running none }
      unblocked := r.unblocked
      sleep := none }

/-- The store to the holder field after `sem_down` and `sem_up`. -/
def holderSegment (m : M) (holder : Option T) : SyncSegment T M Q where
  next := { s with
    mutex := Function.update s.mutex m { s.mutex m with holder := holder }
    mutexPc := Function.update s.mutexPc s.running .outside }
  unblocked := []
  sleep := none

/-- The section the running thread executes in an event; `none` where the event is not one of
the running thread, cannot happen, or fails an `ASSERT` of `sem_up` or `thread_block`. -/
def segment : SyncEvent T M Q → Option (SyncSegment T M Q)
  | .lock m => if s.Free then some (s.lockSegment m) else none
  | .unlock m => if s.Free then s.unlockSegment m else none
  | .setHolder =>
    match s.ioqPc s.running, s.mutexPc s.running with
    | none, .downDone m => some (s.holderSegment m (some s.running))
    | _, _ => none
  | .clearHolder =>
    match s.ioqPc s.running, s.mutexPc s.running with
    | none, .upDone m => some (s.holderSegment m none)
    | _, _ => none
  | .ioqCall q c =>
    if s.Interruptible then some (s.ioqSegment q c (ioqLoop (s.ioq q) s.running c)) else none
  | .resume =>
    match s.ioqPc s.running, s.mutexPc s.running with
    | some (q, c, point), _ =>
      (ioqResume (s.ioq q) s.running c point).map fun r => s.ioqSegment q c r
    | none, .inDown m => some (s.lockSegment m)
    | none, _ => none
  | .block st => if s.Free ∧ st.Sleeping then some ⟨s, [], some st⟩ else none
  | _ => none

/-- `main_schedule`; the run ends where the pick finds no thread. -/
def switch (sched : Scheduler T) : SyncSystem T M Q :=
  match OsI386.mainSchedule sched with
  | some sched => { s with sched := sched }
  | none => { s with sched := sched, lost := true }

/-- The section's calls of `thread_unblock` and `thread_block`. -/
def execute (r : SyncSegment T M Q) : Option (SyncSystem T M Q) := do
  let sched ← r.unblocked.foldlM threadUnblock s.sched
  match r.sleep with
  | none => return { r.next with sched := sched }
  | some st =>
    let sched ← threadSleep sched st
    return r.next.switch sched

def step (e : SyncEvent T M Q) : Option (SyncSystem T M Q) :=
  if s.lost then none
  else
    match e with
    | .unblock t =>
      if s.Free ∧ t ∈ s.sched.allList ∧ s.ioqPc t = none ∧ s.inDown t = false then
        (threadUnblock s.sched t).map fun sched => { s with sched := sched }
      else none
    | .threadRun t prio =>
      if s.Free ∧ t ∉ s.sched.allList then
        (OsI386.threadRun s.sched t prio).map fun sched => { s with sched := sched }
      else none
    | .timer =>
      if s.Interruptible then (intrTimerHandler s.sched).map s.switch else none
    | .mainSchedule => if s.Interruptible then some (s.switch s.sched) else none
    | e => (s.segment e).bind s.execute

/-- The boot thread after `thread_all_init`, with every mutex free and every queue empty. -/
def init (sched : Scheduler T) (buf : Q → ℕ → Byte) : SyncSystem T M Q where
  sched := sched
  mutex _ := mutexInit
  ioq q := ioqueueInit (buf q)
  mutexPc _ := .outside
  ioqPc _ := none
  lost := false

end SyncSystem

end OsI386
