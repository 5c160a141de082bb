import OsI386.IoQueue
import OsI386.SchedulerRuns

/-!
# kernel/kernel.s and thread/switch.s: saved register frames

A thread has one `stack_top`, which the interrupt stub and `task_trap` both store into and
`context_load` reads. `saved` lists the frames of a thread that have not been resumed,
newest first; the code does not have this list. Thread control blocks and frames are
known by their addresses.

The machine stops between `main_schedule` and `context_load`, so that every execution of
`context_load` starts in a state of its own. The keyboard decoder is left out: a key
interrupt stores any character, or none.
-/
namespace OsI386
open TransitionSystem

inductive SaveFlag
  | all | fast
  deriving DecidableEq

/-- `inHandler`: the code the frame returns to runs inside an interrupt handler. -/
structure Frame where
  address : ℕ
  saveFlag : SaveFlag
  inHandler : Bool
  deriving DecidableEq

def pgSize : ℕ := 4096
def sizeofIntrStack : ℕ := 76
def sizeofThreadStack : ℕ := 36

/-- What the CPU executes: code of the running thread, an interrupt handler on its stack,
or `context_load`; `load none` is `context_load` of a list sentinel. -/
inductive Cpu
  | thread | handler | load (next : Option ℕ)
  deriving DecidableEq

/-- Where an interrupt arrives: in the kernel at some stack pointer, or in ring 3, where
the CPU switches to `tss.esp0` first. -/
inductive IntrFrom
  | kernel (esp : ℕ) | user

structure FrameSystem where
  sched : Scheduler ℕ
  kbdBuf : Ioqueue ℕ
  pc : ℕ → Option (IoqCall × IoqPoint)
  stackTop : ℕ → ℕ
  saved : ℕ → List Frame
  cpu : Cpu

namespace FrameSystem

def running (s : FrameSystem) : ℕ := s.sched.runningThread

/-- The stores of `esp` into `RUNNING_THREAD->stack_top`. -/
def saveFrame (s : FrameSystem) (f : Frame) : FrameSystem :=
  { s with
    stackTop := Function.update s.stackTop s.running f.address
    saved := Function.update s.saved s.running (f :: s.saved s.running) }

/-- The stack pointer lies below the frames the thread has still to return through. -/
def BelowSaved (s : FrameSystem) (esp : ℕ) : Prop := ∀ f ∈ s.saved s.running, esp < f.address

instance (s : FrameSystem) (esp : ℕ) : Decidable (s.BelowSaved esp) :=
  inferInstanceAs (Decidable (∀ f ∈ _, _))

end FrameSystem

open FrameSystem

/-- `intr%1entry`: what the CPU pushes, the error code, the segment registers, `pushad` and
the flag. -/
def intrEntry (s : FrameSystem) (origin : IntrFrom) : FrameSystem :=
  let address := match origin with
    | .kernel esp => esp - 68
    | .user => s.running + pgSize - sizeofIntrStack
  { s.saveFrame ⟨address, .all, false⟩ with cpu := .handler }

/-- `main_schedule` up to its `context_load`. -/
def scheduleLoad (s : FrameSystem) : FrameSystem :=
  match mainSchedule s.sched with
  | some sched => { s with sched := sched, cpu := .load (some sched.runningThread) }
  | none => { s with cpu := .load none }

/-- Five words below the return address. -/
def taskTrap (s : FrameSystem) (esp : ℕ) : FrameSystem :=
  scheduleLoad (s.saveFrame ⟨esp - 20, .fast, s.cpu == .handler⟩)

def blockRunning (s : FrameSystem) (st : TaskStatus) (esp : ℕ) : Option FrameSystem :=
  (threadSleep s.sched st).map fun sched =>
    let s := { s with sched := sched }
    if sched.needSchedule then taskTrap s esp else s

/-- The running thread executes the segment `r` of its call `c` on `kbd_buf`. A handler
ends in `hwi_tail_handle`. -/
def kbdSegment (s : FrameSystem) (c : IoqCall) (r : IoqSegment ℕ) (esp : ℕ) :
    Option FrameSystem := do
  let sched ← r.unblocked.foldlM threadUnblock s.sched
  let s := { s with sched := sched, kbdBuf := r.q }
  match r.stop with
  | .sleep point =>
    if s.BelowSaved esp then
      blockRunning { s with pc := Function.update s.pc s.running (some (c, point)) } .blocked esp
    else none
  | .done _ =>
    let s := { s with pc := Function.update s.pc s.running none }
    return if s.cpu = .handler then scheduleLoad s else s

/-- The frame `thread_stack_init` lays out below the space for a user context. -/
def threadStackInit (s : FrameSystem) (t : ℕ) : FrameSystem :=
  let address := t + pgSize - sizeofIntrStack - sizeofThreadStack
  { s with
    stackTop := Function.update s.stackTop t address
    saved := Function.update s.saved t [⟨address, .fast, false⟩] }

/-- `timer` and `keyboard` are interrupts; `esp` is the stack pointer at the `task_trap` of
a call that blocks. `block` and `unblock` are calls that do not concern `kbd_buf`. -/
inductive FrameEvent
  | timer (origin : IntrFrom)
  | keyboard (origin : IntrFrom) (char : Option Byte) (esp : ℕ)
  | call (c : IoqCall) (esp : ℕ)
  | resume (esp : ℕ)
  | block (st : TaskStatus) (esp : ℕ)
  | unblock (t : ℕ)
  | threadRun (t prio : ℕ)
  | processRun (t : ℕ)
  | processEntry
  | contextLoad

namespace FrameSystem

/-- The running thread is outside the calls that run with interrupts off. -/
def Free (s : FrameSystem) : Prop := s.cpu = .thread ∧ s.pc s.running = none

instance (s : FrameSystem) : Decidable s.Free := inferInstanceAs (Decidable (_ ∧ _))

def step (s : FrameSystem) : FrameEvent → Option FrameSystem
  | .timer origin =>
    if s.Free then
      let s := intrEntry s origin
      (intrTimerHandler s.sched).map fun sched => scheduleLoad { s with sched := sched }
    else none
  | .keyboard origin char esp =>
    if s.Free then
      let s := intrEntry s origin
      match char with
      | none => some (scheduleLoad s)
      | some byte => kbdSegment s (.putchar byte) (ioqPutchar s.kbdBuf s.running byte) esp
    else none
  | .call c esp => if s.Free then kbdSegment s c (ioqLoop s.kbdBuf s.running c) esp else none
  | .resume esp =>
    match s.pc s.running with
    | some (c, point) =>
      if s.cpu = .thread ∨ s.cpu = .handler then
        (ioqResume s.kbdBuf s.running c point).bind fun r => kbdSegment s c r esp
      else none
    | none => none
  | .block st esp => if s.Free ∧ st.Sleeping then blockRunning s st esp else none
  | .unblock t =>
    if s.Free ∧ t ∈ s.sched.allList ∧ s.pc t = none then
      (threadUnblock s.sched t).map fun sched => { s with sched := sched }
    else none
  | .threadRun t prio =>
    if s.Free ∧ t ∉ s.sched.allList ∧ prio < prioNum then
      (OsI386.threadRun s.sched t prio).map fun sched =>
        threadStackInit { s with sched := sched } t
    else none
  | .processRun t =>
    if s.Free ∧ t ∉ s.sched.allList then
      (OsI386.processRun s.sched t).map fun sched => threadStackInit { s with sched := sched } t
    else none
  | .processEntry =>
    if s.Free then
      some { s with
        stackTop := Function.update s.stackTop s.running (s.stackTop s.running + sizeofThreadStack) }
    else none
  | .contextLoad =>
    match s.cpu with
    | .load (some t) =>
      match s.saved t with
      | f :: rest =>
        if s.stackTop t = f.address then
          some { s with
            saved := Function.update s.saved t rest
            cpu := if f.inHandler then .handler else .thread }
        else none
      | [] => none
    | _ => none

/-- After `thread_all_init`, `ioqueue_init` and `idt_init`, in the boot thread. -/
def init (sched : Scheduler ℕ) (buf : ℕ → Byte) : FrameSystem where
  sched := sched
  kbdBuf := ioqueueInit buf
  pc _ := none
  stackTop t := t + pgSize
  saved _ := []
  cpu := .thread

end FrameSystem

end OsI386
