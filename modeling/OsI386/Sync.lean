import OsI386.Scheduler

/-!
# thread/sync.c: semaphores and mutexes

The functions are cut at `thread_block`: `semDown` is one evaluation of the loop test
with the code up to the next suspension or to the end of the call. What they ask of
the scheduler is returned: `sleep` means `thread_block(TASK_BLOCKED)`, and the thread
`semUp` takes out of `waiters` is the one passed to `thread_unblock`.
-/
namespace OsI386

/-- `val` is a `uint8_t`; it only moves between 0 and 1 here. -/
structure Semaphore (T : Type) where
  val : ℕ
  waiters : List T

structure Mutex (T : Type) where
  holder : Option T
  sem : Semaphore T

inductive Down (T : Type)
  | taken (sem : Semaphore T)
  | sleep (sem : Semaphore T)

def semInit {T : Type} (val : ℕ) : Semaphore T := ⟨val, []⟩

def mutexInit {T : Type} : Mutex T := ⟨none, semInit 1⟩

variable {T : Type} [DecidableEq T]

def semDown (sem : Semaphore T) (t : T) : Down T :=
  if sem.val = 0 then
    if t ∈ sem.waiters then .sleep sem
    else .sleep { sem with waiters := sem.waiters ++ [t] }
  else .taken { sem with val := sem.val - 1 }

/-- `none` is the failed `ASSERT(sem->val == 0)`. -/
def semUp (sem : Semaphore T) : Option (Semaphore T × Option T) :=
  if sem.val = 0 then
    match sem.waiters with
    | [] => some ({ sem with val := sem.val + 1 }, none)
    | w :: ws => some ({ val := sem.val + 1, waiters := ws }, some w)
  else none

/-- `mutex_unlock` in one step, and the thread it wakes. -/
def mutexUnlock (mtx : Mutex T) : Option (Mutex T × Option T) := do
  let (sem, woken) ← semUp mtx.sem
  return (⟨none, sem⟩, woken)

/-- `thread_unblock` as far as statuses go; `none` is its failed `ASSERT`. -/
def unblock (status : T → TaskStatus) : Option T → Option (T → TaskStatus)
  | none => some status
  | some w => if (status w).Sleeping then some (Function.update status w .ready) else none

/-- Where a thread is in the code of one mutex: asleep or woken in the loop of `sem_down`,
before `mtx->holder = RUNNING_THREAD`, between lock and unlock, before
`mtx->holder = NULL`. -/
inductive LockPc
  | outside | inDown | downDone | locked | upDone
  deriving DecidableEq

/-- Threads sharing one mutex. Which runnable thread runs is left open, so the runs
contain every preemption outside the sections with interrupts off. -/
structure LockSystem (T : Type) where
  mtx : Mutex T
  status : T → TaskStatus
  pc : T → LockPc

/-- `sleep` and `wake` are blocking calls that do not concern this mutex. -/
inductive LockEvent (T : Type)
  | lock (t : T)
  | resume (t : T)
  | setHolder (t : T)
  | unlock (t : T)
  | clearHolder (t : T)
  | sleep (t : T) (st : TaskStatus)
  | wake (t : T)

def LockSystem.init : LockSystem T := ⟨mutexInit, fun _ => .ready, fun _ => .outside⟩

/-- The section of `sem_down` with interrupts off, from the loop test on. -/
def lockDown (s : LockSystem T) (t : T) : LockSystem T :=
  match semDown s.mtx.sem t with
  | .taken sem => { s with mtx.sem := sem, pc := Function.update s.pc t .downDone }
  | .sleep sem =>
    { mtx := { s.mtx with sem := sem }
      status := Function.update s.status t .blocked
      pc := Function.update s.pc t .inDown }

/-- The section of `sem_up` with interrupts off. -/
def lockUp (s : LockSystem T) (t : T) : Option (LockSystem T) := do
  let (sem, woken) ← semUp s.mtx.sem
  let status ← unblock s.status woken
  return { mtx := { s.mtx with sem := sem }, status := status, pc := Function.update s.pc t .upDone }

/-- `none` also where the event cannot happen. -/
def lockStep (s : LockSystem T) : LockEvent T → Option (LockSystem T)
  | .lock t => if (s.status t).Runnable ∧ s.pc t = .outside then some (lockDown s t) else none
  | .resume t => if (s.status t).Runnable ∧ s.pc t = .inDown then some (lockDown s t) else none
  | .setHolder t =>
    if (s.status t).Runnable ∧ s.pc t = .downDone then
      some { s with mtx.holder := some t, pc := Function.update s.pc t .locked }
    else none
  | .unlock t => if (s.status t).Runnable ∧ s.pc t = .locked then lockUp s t else none
  | .clearHolder t =>
    if (s.status t).Runnable ∧ s.pc t = .upDone then
      some { s with mtx.holder := none, pc := Function.update s.pc t .outside }
    else none
  | .sleep t st =>
    if (s.status t).Runnable ∧ s.pc t ≠ .inDown ∧ st.Sleeping then
      some { s with status := Function.update s.status t st }
    else none
  | .wake t =>
    if (s.status t).Sleeping ∧ s.pc t ≠ .inDown then
      some { s with status := Function.update s.status t .ready }
    else none

end OsI386
