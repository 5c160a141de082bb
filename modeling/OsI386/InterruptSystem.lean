import OsI386.InterruptFlag
import OsI386.Keyboard
import OsI386.Sync

/-!
# The interrupt flag of the kernel

thread/sync.c, `thread_block`, `thread_unblock`, `schedule` and `main_schedule` of thread/thread.c,
thread/switch.s, the interrupt entries of kernel/kernel.s with the handlers of the timer and the
keyboard. A failed `ASSERT` and the handler of an exception spin with interrupts off, so the code
stops there. `process_activate` and the screen are not modelled.
-/
namespace OsI386
open InterruptFlag TransitionSystem

variable {T M : Type}

/-- The mutexes of the threads and the one in `kbd_buf`. -/
inductive Lock (M : Type)
  | mutex (m : M)
  | kbdBuf

structure KernelData (T M : Type) where
  sched : Scheduler T
  mutex : M → Mutex T
  kbdBuf : Ioqueue T
  keyboard : Keyboard

namespace KernelData

variable [DecidableEq M] (d : KernelData T M)

def running : T := d.sched.runningThread

def lock : Lock M → Mutex T
  | .mutex m => d.mutex m
  | .kbdBuf => d.kbdBuf.mtx

def setLock (l : Lock M) (mtx : Mutex T) : KernelData T M :=
  match l with
  | .mutex m => { d with mutex := Function.update d.mutex m mtx }
  | .kbdBuf => { d with kbdBuf.mtx := mtx }

def setSem (l : Lock M) (sem : Semaphore T) : KernelData T M :=
  d.setLock l { d.lock l with sem := sem }

def setHolder (l : Lock M) (holder : Option T) : KernelData T M :=
  d.setLock l { d.lock l with holder := holder }

def updateSched (f : Scheduler T → Option (Scheduler T)) : Option (KernelData T M) :=
  (f d.sched).map fun s => { d with sched := s }

end KernelData

/-- Interrupts 0x20 and 0x21, where the keyboard has sent `byte`, and the others. -/
inductive IntrVector
  | timer
  | keyboard (byte : Byte)
  | other (vecNr : ℕ)

inductive SyncFn (T M : Type)
  | semDown (l : Lock M)
  | semUp (l : Lock M)
  | mutexLock (l : Lock M)
  | mutexUnlock (l : Lock M)
  | threadBlock (st : TaskStatus)
  | threadUnblock (t : T)

/-- The functions, and the loop of `sem_down` with its local variable. -/
inductive KernelFn (T M : Type)
  | sync (f : SyncFn T M)
  | semDownLoop (l : Lock M) (intSave : Bool)
  | ioqPutchar (byte : Byte)
  | handler (v : IntrVector)
  | hwiTailHandle
  | mainSchedule

abbrev KernelCode (T M : Type) := Code (KernelData T M) (KernelFn T M)

section Flag

variable (status : Bool) (next : KernelCode T M) (k : Bool → KernelCode T M)

/-- `k` gets the old status. -/
def intrDisable : KernelCode T M :=
  .pushf fun on => if on then .cli (k true) else k false

def intrEnable : KernelCode T M :=
  .pushf fun on => if on then k true else .sti (k false)

def intrSetStatus : KernelCode T M :=
  if status then intrEnable fun _ => next else intrDisable fun _ => next

/-- An operation on a list, which `list_insert_before` and `list_remove` do with interrupts off. -/
def listSection (f : KernelData T M → Option (KernelData T M)) : KernelCode T M :=
  intrDisable fun oldStatus => .act f fun _ => intrSetStatus oldStatus next

end Flag

section Thread

variable [DecidableEq T]

def scheduleCode (next : KernelCode T M) : KernelCode T M :=
  .read fun d => if d.sched.needSchedule then .trap next else next

def threadBlockCode (st : TaskStatus) : KernelCode T M :=
  .assert (fun _ => st.Sleeping) <|
  intrDisable fun intSave =>
  .modify (fun d => { d with sched := d.sched.setTcb d.running fun c => { c with status := st } }) <|
  listSection
    (scheduleCode (intrSetStatus intSave .ret))
    (fun d => d.updateSched fun s => schedulerRqLeave s s.runningThread)

def threadUnblockCode (t : T) : KernelCode T M :=
  .assert (fun d => (d.sched.tcb t).status.Sleeping) <|
  intrDisable fun intSave =>
  .modify (fun d => { d with sched := d.sched.setTcb t fun c => { c with status := .ready } }) <|
  listSection
    (intrSetStatus intSave .ret)
    (fun d => d.updateSched fun s => schedulerRqJump s t)

/-- The next thread is made the running one and its context loaded. -/
def nextThreadLoad : KernelCode T M :=
  .act
    (fun d => d.updateSched fun s => (nextThreadPick s).map fun next =>
      { s.setTcb next (fun c => { c with status := .running }) with runningThread := next })
    fun _ => .load

/-- The branch for a thread that only used up its slice. -/
def sliceExpireCode (cur : T) (next : KernelCode T M) : KernelCode T M :=
  listSection
    (.modify (fun d => { d with sched := threadPrioChange d.sched cur }) <|
      listSection
        (.modify
          (fun d =>
            let s := d.sched.setTcb cur fun c => { c with ticks := ticksGet c.priority }
            { d with sched := s.setTcb cur fun c => { c with status := .ready } })
          next)
        (fun d => d.updateSched fun s => schedulerRqJoinOnly s cur))
    (fun d => d.updateSched fun s => schedulerRqLeaveOnly s cur)

def mainScheduleCode : KernelCode T M :=
  .read fun d =>
    if d.sched.needSchedule then
      .modify (fun d => { d with sched.needSchedule := false }) <|
        if (d.sched.tcb d.running).status = .running then sliceExpireCode d.running nextThreadLoad
        else nextThreadLoad
    else .load

def kernelThreadEntry : KernelCode T M := intrEnable fun _ => .own

end Thread

section Sync

variable [DecidableEq T] [DecidableEq M]

def semDownCode (l : Lock M) : KernelCode T M :=
  intrDisable fun intSave => .jump (.semDownLoop l intSave)

def semDownLoopCode (l : Lock M) (intSave : Bool) : KernelCode T M :=
  .read fun d =>
    let sem := (d.lock l).sem
    if sem.val = 0 then
      let block := .call (.sync (.threadBlock .blocked)) (.jump (.semDownLoop l intSave))
      if d.running ∈ sem.waiters then block
      else listSection block fun d =>
        some (d.setSem l { sem with waiters := sem.waiters ++ [d.running] })
    else .modify (fun d => d.setSem l { sem with val := sem.val - 1 }) (intrSetStatus intSave .ret)

def semUpCode (l : Lock M) : KernelCode T M :=
  intrDisable fun intSave =>
  .assert (fun d => (d.lock l).sem.val = 0) <|
  .read fun d =>
    let finish :=
      .modify (fun d => d.setSem l { (d.lock l).sem with val := (d.lock l).sem.val + 1 })
        (intrSetStatus intSave .ret)
    match (d.lock l).sem.waiters with
    | [] => finish
    | threadBlocked :: waiters =>
      listSection (.call (.sync (.threadUnblock threadBlocked)) finish) fun d =>
        some (d.setSem l { (d.lock l).sem with waiters := waiters })

def mutexLockCode (l : Lock M) : KernelCode T M :=
  .call (.sync (.semDown l)) <| .modify (fun d => d.setHolder l (some d.running)) .ret

def mutexUnlockCode (l : Lock M) : KernelCode T M :=
  .call (.sync (.semUp l)) <| .modify (fun d => d.setHolder l none) .ret

end Sync

section Handlers

variable [DecidableEq T]

def ioqPutcharCode (byte : Byte) : KernelCode T M :=
  .read fun d =>
    if ioqFull d.kbdBuf then
      .call (.sync (.mutexLock .kbdBuf)) <|
      .modify (fun d => { d with kbdBuf.producer := some d.running }) <|
      .call (.sync (.threadBlock .blocked)) <|
      .call (.sync (.mutexUnlock .kbdBuf)) <|
      .jump (.ioqPutchar byte)
    else
      .modify
        (fun d =>
          { d with
            kbdBuf.buf := Function.update d.kbdBuf.buf d.kbdBuf.head byte
            kbdBuf.head := nextPosGet d.kbdBuf.head }) <|
      .read fun d => match d.kbdBuf.consumer with
      | some consumer =>
        .call (.sync (.threadUnblock consumer)) <|
          .modify (fun d => { d with kbdBuf.consumer := none }) .ret
      | none => .ret

def kbdCallCode : Option KbdCall → KernelCode T M
  | some (.ioqPutchar c) => .call (.ioqPutchar c) .ret
  | some (.putStr _) => .ret
  | none => .ret

def intrKeyboardHandlerCode (byte : Byte) : KernelCode T M :=
  .read fun d =>
    .modify (fun d => { d with keyboard := (intrKeyboardHandler d.keyboard byte).1 })
      (kbdCallCode (intrKeyboardHandler d.keyboard byte).2)

/-- `idt_table`, with `general_intr_handler` for the other interrupts. -/
def handlerCode : IntrVector → KernelCode T M
  | .timer => .act (fun d => d.updateSched intrTimerHandler) fun _ => .ret
  | .keyboard byte => intrKeyboardHandlerCode byte
  | .other vecNr => .assert (fun _ => vecNr = 0x27 ∨ vecNr = 0x2f) .ret

end Handlers

section Kernel

variable [DecidableEq T] [DecidableEq M]

def kernelBody : KernelFn T M → KernelCode T M
  | .sync (.semDown l) => semDownCode l
  | .sync (.semUp l) => semUpCode l
  | .sync (.mutexLock l) => mutexLockCode l
  | .sync (.mutexUnlock l) => mutexUnlockCode l
  | .sync (.threadBlock st) => threadBlockCode st
  | .sync (.threadUnblock t) => threadUnblockCode t
  | .semDownLoop l intSave => semDownLoopCode l intSave
  | .ioqPutchar byte => ioqPutcharCode byte
  | .handler v => handlerCode v
  | .hwiTailHandle => .call .mainSchedule .ret
  | .mainSchedule => mainScheduleCode

/-- Exceptions come with interrupts off too. -/
def osKernel : Kernel (KernelData T M) (KernelFn T M) T IntrVector where
  body := kernelBody
  running := KernelData.running
  schedule := .mainSchedule
  start := kernelThreadEntry
  entry v := .call (.handler v) (.call .hwiTailHandle .ret)
  maskable
    | .other vecNr => 0x20 ≤ vecNr
    | _ => true
  exported
    | .sync _ => true
    | _ => false

end Kernel

section Discipline

/-- The loop of `sem_down` runs with interrupts off and restores what `sem_down` has saved. -/
def FlagSpec : KernelFn T M → Bool → Bool → Prop
  | .semDownLoop _ intSave, e, n => intSave = e ∧ n = false
  | .hwiTailHandle, e, n => n = e ∧ n = false
  | .mainSchedule, e, n => n = e ∧ n = false
  | _, e, n => n = e

variable {e n : Bool} {next : KernelCode T M} {k : Bool → KernelCode T M}
  {f : KernelData T M → Option (KernelData T M)}

lemma balanced_intrDisable (hk : Balanced FlagSpec e false (k n)) :
    Balanced FlagSpec e n (intrDisable k) := by
  cases n with
  | false => exact hk
  | true => exact hk

lemma balanced_intrEnable (hk : Balanced FlagSpec e true (k n)) :
    Balanced FlagSpec e n (intrEnable k) := by
  cases n with
  | false => exact hk
  | true => exact hk

lemma balanced_intrSetStatus {status : Bool} (hnext : Balanced FlagSpec e status next) :
    Balanced FlagSpec e n (intrSetStatus status next) := by
  cases status with
  | false => exact balanced_intrDisable (k := fun _ => next) hnext
  | true => exact balanced_intrEnable (k := fun _ => next) hnext

lemma balanced_listSection (hnext : Balanced FlagSpec e n next) :
    Balanced FlagSpec e n (listSection next f) :=
  balanced_intrDisable fun _ => balanced_intrSetStatus hnext

/-- The status saved at the beginning is restored in the end. -/
lemma balanced_restore (e : Bool) :
    Balanced FlagSpec e n (intrSetStatus e (.ret : KernelCode T M)) :=
  balanced_intrSetStatus rfl

lemma quiet_listSection (hnext : Quiet false next) : Quiet false (listSection next f) :=
  ⟨rfl, rfl, fun _ => ⟨rfl, hnext⟩⟩

lemma balanced_ioqPutchar (byte : Byte) :
    Balanced FlagSpec e e (ioqPutcharCode (T := T) (M := M) byte) := by
  refine fun d => .ite ⟨rfl, fun _ => ⟨rfl, rfl, rfl⟩⟩ fun _ d => ?_
  dsimp only
  cases d.kbdBuf.consumer with
  | none => exact rfl
  | some t => exact ⟨rfl, fun _ => rfl⟩

lemma balanced_kbdCall (call : Option KbdCall) :
    Balanced FlagSpec e e (kbdCallCode call : KernelCode T M) := by
  rcases call with - | (c | message)
  · exact rfl
  · exact ⟨rfl, rfl⟩
  · exact rfl

lemma balanced_semUp [DecidableEq M] (l : Lock M) :
    Balanced FlagSpec e e (semUpCode (T := T) l) := by
  refine balanced_intrDisable fun _ d => ?_
  have hfinish : Balanced FlagSpec e false
      (.modify (fun d => d.setSem l { (d.lock l).sem with val := (d.lock l).sem.val + 1 })
        (intrSetStatus e .ret) : KernelCode T M) := fun _ => balanced_restore e
  dsimp only
  cases (d.lock l).sem.waiters with
  | nil => exact hfinish
  | cons t waiters => exact balanced_listSection ⟨rfl, hfinish⟩

variable [DecidableEq T]

lemma balanced_threadBlock (st : TaskStatus) :
    Balanced FlagSpec e e (threadBlockCode (T := T) (M := M) st) :=
  fun _ => balanced_intrDisable fun _ => balanced_listSection fun _ =>
    .ite ⟨rfl, balanced_restore e⟩ (balanced_restore e)

lemma balanced_threadUnblock (t : T) :
    Balanced FlagSpec e e (threadUnblockCode (M := M) t) :=
  fun _ => balanced_intrDisable fun _ => balanced_listSection (balanced_restore e)

lemma balanced_handler (v : IntrVector) :
    Balanced FlagSpec e e (handlerCode (T := T) (M := M) v) := by
  cases v with
  | timer => exact fun _ => rfl
  | keyboard byte => exact fun d _ => balanced_kbdCall _
  | other vecNr => exact fun _ => rfl

lemma quiet_mainSchedule : Quiet false (mainScheduleCode (T := T) (M := M)) := by
  have hload : Quiet false (nextThreadLoad (T := T) (M := M)) := ⟨rfl, fun _ => rfl⟩
  have hexpire : ∀ cur : T, Quiet false (sliceExpireCode (M := M) cur nextThreadLoad) :=
    fun cur => quiet_listSection ⟨rfl, fun _ => quiet_listSection ⟨rfl, fun _ => hload⟩⟩
  exact ⟨rfl, fun d => .ite ⟨rfl, fun _ => .ite (hexpire _) hload⟩ rfl⟩

variable [DecidableEq M]

lemma balanced_semDownLoop (l : Lock M) :
    Balanced FlagSpec e false (semDownLoopCode (T := T) l e) :=
  fun _ =>
    have hblock : Balanced FlagSpec e false
        (.call (.sync (.threadBlock .blocked)) (.jump (.semDownLoop l e)) : KernelCode T M) :=
      ⟨rfl, rfl, rfl⟩
    .ite (.ite hblock (balanced_listSection hblock)) fun _ => balanced_restore e

lemma balanced_kernelBody (l : KernelFn T M) (h : FlagSpec l e n) :
    Balanced FlagSpec e n (kernelBody l) := by
  cases l with
  | sync f =>
    obtain rfl : n = e := h
    cases f with
    | semDown l => exact balanced_intrDisable (k := fun b => .jump (.semDownLoop l b)) ⟨rfl, rfl⟩
    | semUp l => exact balanced_semUp l
    | mutexLock l => exact ⟨rfl, fun _ => rfl⟩
    | mutexUnlock l => exact ⟨rfl, fun _ => rfl⟩
    | threadBlock st => exact balanced_threadBlock st
    | threadUnblock t => exact balanced_threadUnblock t
  | semDownLoop l intSave =>
    obtain ⟨rfl, rfl⟩ := h
    exact balanced_semDownLoop l
  | ioqPutchar byte =>
    obtain rfl : n = e := h
    exact balanced_ioqPutchar byte
  | handler v =>
    obtain rfl : n = e := h
    exact balanced_handler v
  | hwiTailHandle =>
    obtain ⟨rfl, rfl⟩ := h
    exact ⟨⟨rfl, rfl⟩, rfl⟩
  | mainSchedule =>
    obtain ⟨rfl, rfl⟩ := h
    exact quiet_mainSchedule.balanced

lemma osKernel_disciplined : Disciplined (osKernel (T := T) (M := M)) FlagSpec where
  body _ _ _ h := balanced_kernelBody _ h
  schedule := ⟨rfl, rfl⟩
  schedule_off _ h := h.2
  quiet := quiet_mainSchedule
  start := balanced_intrEnable (k := fun _ => .own) trivial
  entry _ := ⟨rfl, ⟨rfl, rfl⟩, rfl⟩
  exported l hl n := by
    cases l with
    | sync f => exact rfl
    | _ => exact absurd hl (by simp [osKernel])

/-- The processor before any thread but `main` has run. -/
def bootMachine (d : KernelData T M) (intr : Bool) : Machine (KernelData T M) (KernelFn T M) T :=
  ⟨d, intr, ⟨none, false, .own⟩, [], fun _ => none⟩

/-- Whatever the threads do and whenever they are interrupted: a call returns with the flag it was
made with, and `main_schedule` runs with interrupts off. -/
theorem interrupt_flag_kept (d : KernelData T M) (intr : Bool)
    (events : List (Event (KernelData T M) (KernelFn T M) T IntrVector)) :
    RunAlways osKernel.step (fun m =>
      (∀ f : SyncFn T M, m.cur.fn = some (.sync f) → m.cur.code = .ret → m.intr = m.cur.entry) ∧
        (m.cur.fn = some .mainSchedule → m.intr = false)) (bootMachine d intr) events := by
  have hboot : (bootMachine d intr).Ok osKernel FlagSpec :=
    ⟨⟨trivial, fun h => absurd h (by simp [bootMachine])⟩, trivial,
      fun _ _ h => absurd h (by simp [bootMachine])⟩
  exact (osKernel_disciplined.runAlways hboot events).mono
    fun m h => ⟨fun _ _ hret => h.1 hret, h.2⟩

/-- A `mutex_lock` up to its return, interrupts on before and after it. -/
example (sched : Scheduler ℕ) (q : Ioqueue ℕ) (k : Keyboard) :
    (run osKernel.step (bootMachine ⟨sched, fun _ => mutexInit, q, k⟩ true)
      (.call (.sync (.mutexLock (.mutex 0))) :: List.replicate 11 .exec)).map
        (fun m => (m.intr, m.stack.length, m.data.mutex 0)) =
      some (true, 0, ⟨some sched.runningThread, ⟨0, []⟩⟩) := rfl

end Discipline

end OsI386
