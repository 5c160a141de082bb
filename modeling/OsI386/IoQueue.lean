import OsI386.RingBuffer
import OsI386.Sync
import OsI386.TransitionSystem

/-!
# device/ioqueue.c

A call runs with interrupts off and switches only inside `thread_block`, so it is cut
there: a segment takes the queue up to the next `thread_block(TASK_BLOCKED)` of the call
or to its end, and lists the threads passed to `thread_unblock` on the way. After
`ioq_wait` the loop test runs again, after `mutex_lock` it does not.
-/
namespace OsI386
open TransitionSystem

def bufSize : ℕ := 64

abbrev Byte := BitVec 8

structure Ioqueue (T : Type) where
  mtx : Mutex T
  producer : Option T
  consumer : Option T
  buf : ℕ → Byte
  head : ℕ
  tail : ℕ

/-- The pointers to waiting threads, which `ioq_wait` and `ioq_signal` are passed. -/
inductive Waiter
  | producer | consumer
  deriving DecidableEq

/-- The two suspension points of a call: the loop of `sem_down` in `mutex_lock`, and
`ioq_wait` with the mutex held. -/
inductive IoqPoint
  | inLock | inWait
  deriving DecidableEq

inductive IoqStop
  | sleep (point : IoqPoint)
  | done (byte : Byte)

structure IoqSegment (T : Type) where
  q : Ioqueue T
  unblocked : List T
  stop : IoqStop

inductive IoqCall
  | getchar
  | putchar (byte : Byte)
  deriving DecidableEq

/-- Indices are `uint32_t`; `BUF_SIZE` divides `2 ^ 32`, so the addition does not matter. -/
def nextPosGet (pos : ℕ) : ℕ := (pos + 1) % bufSize

variable {T : Type}

/-- `buf` is left as it was. -/
def ioqueueInit (buf : ℕ → Byte) : Ioqueue T := ⟨mutexInit, none, none, buf, 0, 0⟩

def ioqFull (q : Ioqueue T) : Bool := nextPosGet q.head == q.tail

def ioqEmpty (q : Ioqueue T) : Bool := q.head == q.tail

namespace Ioqueue

def waiter (q : Ioqueue T) : Waiter → Option T
  | .producer => q.producer
  | .consumer => q.consumer

def setWaiter (q : Ioqueue T) (w : Waiter) (t : Option T) : Ioqueue T :=
  match w with
  | .producer => { q with producer := t }
  | .consumer => { q with consumer := t }

end Ioqueue

namespace IoqCall

/-- Where the call registers when it has to wait. -/
def waiter : IoqCall → Waiter
  | .getchar => .consumer
  | .putchar _ => .producer

/-- The test of the call's `while`. -/
def mustWait (c : IoqCall) (q : Ioqueue T) : Bool :=
  match c with
  | .getchar => ioqEmpty q
  | .putchar _ => ioqFull q

end IoqCall

/-- `if (*waiter != NULL) ioq_signal(waiter)` at the end of a call. -/
def ioqSignal (q : Ioqueue T) (w : Waiter) (byte : Byte) : IoqSegment T where
  q := q.setWaiter w none
  unblocked := (q.waiter w).toList
  stop := .done byte

/-- What a call does after its loop. -/
def ioqFinish (q : Ioqueue T) : IoqCall → IoqSegment T
  | .getchar => ioqSignal { q with tail := nextPosGet q.tail } .producer (q.buf q.tail)
  | .putchar byte =>
    ioqSignal { q with buf := Function.update q.buf q.head byte, head := nextPosGet q.head }
      .consumer byte

variable [DecidableEq T]

/-- `mutex_lock(&q->mtx)` from the loop test of `sem_down` on, then `ioq_wait`. -/
def ioqLockWait (q : Ioqueue T) (t : T) (w : Waiter) : IoqSegment T :=
  match semDown q.mtx.sem t with
  | .taken sem => ⟨{ q with mtx := ⟨some t, sem⟩ }.setWaiter w (some t), [], .sleep .inWait⟩
  | .sleep sem => ⟨{ q with mtx.sem := sem }, [], .sleep .inLock⟩

/-- From the test of the `while` on. -/
def ioqLoop (q : Ioqueue T) (t : T) (c : IoqCall) : IoqSegment T :=
  if c.mustWait q then ioqLockWait q t c.waiter else ioqFinish q c

def ioqGetchar (q : Ioqueue T) (t : T) : IoqSegment T := ioqLoop q t .getchar

def ioqPutchar (q : Ioqueue T) (t : T) (byte : Byte) : IoqSegment T := ioqLoop q t (.putchar byte)

/-- The call goes on after its `thread_block` returned. -/
def ioqResume (q : Ioqueue T) (t : T) (c : IoqCall) : IoqPoint → Option (IoqSegment T)
  | .inLock => some (ioqLockWait q t c.waiter)
  | .inWait => do
    let (mtx, woken) ← mutexUnlock q.mtx
    let r := ioqLoop { q with mtx := mtx } t c
    return { r with unblocked := woken.toList ++ r.unblocked }

/-- Threads sharing one queue. `pc` is the call a thread is suspended in; `stored` and
`returned` are the bytes completed calls put into the queue and took out of it. -/
structure IoqSystem (T : Type) where
  q : Ioqueue T
  status : T → TaskStatus
  pc : T → Option (IoqCall × IoqPoint)
  stored : List Byte
  returned : List Byte

/-- Any runnable thread may be the one that goes on. `sleep` and `wake` are what threads
do between their calls. -/
inductive IoqEvent (T : Type)
  | call (t : T) (c : IoqCall)
  | resume (t : T)
  | sleep (t : T) (st : TaskStatus)
  | wake (t : T)

def IoqSystem.init (buf : ℕ → Byte) : IoqSystem T :=
  ⟨ioqueueInit buf, fun _ => .ready, fun _ => none, [], []⟩

/-- `thread_unblock` for each thread of a list; `none` is a failed `ASSERT`. -/
def unblockAll (status : T → TaskStatus) (ts : List T) : Option (T → TaskStatus) :=
  ts.foldlM (fun st t => unblock st (some t)) status

/-- Thread `t` executes the segment `r` of its call `c`. -/
def IoqSystem.commit (s : IoqSystem T) (t : T) (c : IoqCall) (r : IoqSegment T) :
    Option (IoqSystem T) := do
  let status ← unblockAll s.status r.unblocked
  match r.stop, c with
  | .sleep point, _ =>
    return { s with
      q := r.q
      status := Function.update status t .blocked
      pc := Function.update s.pc t (some (c, point)) }
  | .done byte, .getchar =>
    return { s with
      q := r.q
      status := status
      pc := Function.update s.pc t none
      returned := s.returned ++ [byte] }
  | .done byte, .putchar _ =>
    return { s with
      q := r.q
      status := status
      pc := Function.update s.pc t none
      stored := s.stored ++ [byte] }

def IoqSystem.step (s : IoqSystem T) : IoqEvent T → Option (IoqSystem T)
  | .call t c =>
    if (s.status t).Runnable ∧ s.pc t = none then
      s.commit t c (match c with
        | .getchar => ioqGetchar s.q t
        | .putchar byte => ioqPutchar s.q t byte)
    else none
  | .resume t =>
    match s.pc t with
    | some (c, point) =>
      if (s.status t).Runnable then (ioqResume s.q t c point).bind (s.commit t c) else none
    | none => none
  | .sleep t st =>
    if (s.status t).Runnable ∧ s.pc t = none ∧ st.Sleeping then
      some { s with status := Function.update s.status t st }
    else none
  | .wake t =>
    if (s.status t).Sleeping ∧ s.pc t = none then
      some { s with status := Function.update s.status t .ready }
    else none

end OsI386
