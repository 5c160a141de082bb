import OsI386.PageFrames
import OsI386.ProgramLogic
import OsI386.Scheduler

/-!
# The threads, the scheduler and the memory together

A thread is the address of its tcb. The running thread starts calls of the allocators and makes
their accesses one by one; between two of them an interrupt may switch to another thread, which
loads the page directory of that thread and, for a process, the stack pointer the cpu takes in
an interrupt. A call that is not at its end when its thread is switched away goes on when the
thread runs again.
-/
namespace OsI386
open Prog TransitionSystem

/-- `thread_create`, as far as memory is concerned. -/
def threadCreateMemory : MemProg Word := do
  let thread ← kernelPagesMalloc 1
  threadInit thread.toNat
  return thread

inductive OsCall
  | mem (c : MemCall)
  | threadRun (prio : ℕ)

def OsCall.prog : OsCall → MemProg Word
  | .mem c => c.prog
  | .threadRun _ => threadCreateMemory

/-- A call in progress and what is left of it. -/
structure Call where
  kind : OsCall
  rest : MemProg Word

/-- `esp0` is the field of the tss. `dirs` are the addresses `page_dir_create` returned, and
`trace` the labels the threads passed. -/
structure OsState where
  sched : Scheduler ℕ
  mem : MemState
  esp0 : Word
  calls : ℕ → Option Call
  dirs : List Word
  trace : List (ℕ × MemLabel)

def tssEsp0Update (thread : ℕ) : Word := BitVec.ofNat 32 thread + 4096

/-- `RUNNING_THREAD = next` and `process_activate(next)`; a page fault does not return. -/
def activate (s : OsState) (next : ℕ) : Option OsState :=
  let r := (processActivate next).run s.mem
  match r.outcome with
  | .done _ => some { s with
      mem := r.state
      esp0 := if s.mem.pgDir next ≠ 0 then tssEsp0Update next else s.esp0 }
  | _ => none

/-- `main_schedule` with its effect on cr3 and the tss, up to `context_load`. -/
def osMainSchedule (s : OsState) : Option OsState := do
  let sched ← mainSchedule s.sched
  if s.sched.needSchedule then activate { s with sched := sched } sched.runningThread
  else return { s with sched := sched }

/-- The end of a call. A new thread joins the scheduler. -/
def osReturn (s : OsState) (kind : OsCall) (a : Word) : Option OsState :=
  match kind with
  | .threadRun prio => (threadRun s.sched a.toNat prio).map fun sched => { s with sched := sched }
  | .mem .processRun => (processRun s.sched a.toNat).map fun sched =>
      let pgDir := s.mem.pgDir a.toNat
      { s with
        sched := sched
        dirs := if pgDir = 0 then s.dirs else pgDir :: s.dirs }
  | .mem _ => some s

/-- The next access of thread `t`, which is running, in its call. -/
def osAccess (s : OsState) (t : ℕ) : Option OsState := do
  let c ← s.calls t
  match c.rest with
  | .ret a => osReturn { s with calls := Function.update s.calls t none } c.kind a
  | rest =>
    let (ls, mem, rest) ← rest.advance s.mem
    return { s with
      mem := mem
      calls := Function.update s.calls t (some { c with rest := rest })
      trace := s.trace ++ ls.map fun x => (t, x) }

inductive OsEvent
  | call (c : OsCall)
  | access
  | threadBlock (status : TaskStatus)
  | threadUnblock (thread : ℕ)
  | timerInterrupt
  | mainSchedule

def osStep (s : OsState) : OsEvent → Option OsState
  | .call c =>
    let t := s.sched.runningThread
    if (s.calls t).isNone then
      some { s with calls := Function.update s.calls t (some ⟨c, c.prog⟩) }
    else none
  | .access => osAccess s s.sched.runningThread
  | .threadBlock st => do
    let sched ← threadSleep s.sched st
    let s := { s with sched := sched }
    if sched.needSchedule then osMainSchedule s else return s
  | .threadUnblock t => do
    let sched ← OsI386.threadUnblock s.sched t
    return { s with sched := sched }
  | .timerInterrupt => do
    let sched ← intrTimerHandler s.sched
    osMainSchedule { s with sched := sched }
  | .mainSchedule => osMainSchedule s

/-- The tcb of the thread that runs `main`, at the bottom of the page its stack is in. -/
def bootThread : ℕ := 0xc009e000

/-- `scheduler_init`, as far as memory is concerned: the map of the ready queues gets a page. -/
def schedulerInitMemory : MemProg Unit := do
  modify fun s => { s with running := 0 }
  let btmpBase ← kernelPagesMalloc 1
  -- `memset` in `bitmap_init` asserts that there is one
  if btmpBase = 0 then .stop .panic else return ()

def idleThreadMakeMemory : MemProg Unit := do
  modify fun s => { s with running := bootThread }
  threadInit bootThread

def threadAllInitMemory : MemProg Unit := do
  schedulerInitMemory
  idleThreadMakeMemory

/-- The system after `init_all`, with `allMem` bytes of memory; nothing after `thread_all_init`
takes memory. `page` is what the page of the map of the ready queues held, `garbage` what the tcbs
did. -/
def osInit (mem : MemState) (allMem : Word) (page : ℕ → BitVec 8) (garbage : ℕ → Tcb) :
    Option OsState := do
  let sched ← threadAllInit bootThread page garbage
  let r := threadAllInitMemory.run (memPoolInit mem allMem)
  match r.outcome with
  | .done _ => return {
      sched := sched
      mem := r.state
      esp0 := 0
      calls := fun _ => none
      dirs := []
      trace := r.trace.map fun x => (bootThread, x) }
  | _ => none

/-- The machine after `init_all` with `allMem` bytes of memory. -/
def bootSystem (allMem : Word) : Option OsState :=
  osInit bootMem allMem (fun _ => 0) fun _ => ⟨0, .died, 0, 0, 0, 0⟩

section Start

variable {mem : MemState} {allMem : Word} {page : ℕ → BitVec 8} {garbage : ℕ → Tcb} {s : OsState}

lemma osInit_cases (h : osInit mem allMem page garbage = some s) : ∃ sched tr x,
    threadAllInit bootThread page garbage = some sched ∧
    threadAllInitMemory.Runs (memPoolInit mem allMem) tr x () ∧
    s = ⟨sched, x, 0, fun _ => none, [], tr.map fun l => (bootThread, l)⟩ := by
  unfold osInit at h
  obtain ⟨sched, hsched, h⟩ := Option.bind_eq_some_iff.mp h
  cases ho : (threadAllInitMemory.run (memPoolInit mem allMem)).outcome with
  | done a =>
    simp only [ho] at h
    exact ⟨sched, _, _, hsched, runs_of_outcome ho, (Option.some.inj h).symm⟩
  | _ =>
    simp only [ho] at h
    cases h

end Start

section WholeCalls

variable {s s' : OsState} {allowed : OsState → OsEvent → Prop} {kind c : OsCall}

/-- The only call there is. -/
lemma update_call {calls : ℕ → Option Call} {t u : ℕ} {c d : Call}
    (hother : ∀ u, u ≠ t → calls u = none) (h : Function.update calls t (some c) u = some d) :
    u = t ∧ c = d := by
  by_cases hu : u = t
  · rw [hu, Function.update_self] at h
    exact ⟨hu, Option.some.inj h⟩
  · rw [Function.update_of_ne hu, hother u hu] at h
    cases h

/-- A call from its beginning to its end, with no interrupt. -/
def runCall (s : OsState) (c : OsCall) : Option OsState :=
  let r := c.prog.run s.mem
  match r.outcome with
  | .done a => osReturn { s with
      mem := r.state
      trace := s.trace ++ r.trace.map fun x => (s.sched.runningThread, x) } c a
  | _ => none

/-- The accesses of a call that nothing interrupts, one by one. -/
lemma reach_leads {p q : MemProg Word} {tr : List MemLabel} {x : MemState}
    (ok : ∀ s, allowed s .access) (hc : s.calls s.sched.runningThread = some ⟨kind, p⟩)
    (h : p.Leads s.mem tr x q) :
    Reach osStep allowed s { s with
      mem := x
      calls := Function.update s.calls s.sched.runningThread (some ⟨kind, q⟩)
      trace := s.trace ++ tr.map fun l => (s.sched.runningThread, l) } := by
  generalize hy : s.mem = y at h
  induction h generalizing s with
  | refl p y =>
    subst hy
    rw [List.map_nil, List.append_nil, ← hc, Function.update_eq_self]
    exact .refl
  | @step p p' _ _ y' _ ls tr hp _ ih =>
    subst hy
    let s1 : OsState := { s with
      mem := y'
      calls := Function.update s.calls s.sched.runningThread (some ⟨kind, p'⟩)
      trace := s.trace ++ ls.map fun l => (s.sched.runningThread, l) }
    have h1 : osStep s .access = some s1 := by
      cases p with
      | ret a => cases hp
      | _ => simp [osStep, osAccess, hc, hp, s1]
    have hrest := ih (s := s1) (Function.update_self _ _ _) rfl
    simp only [s1, Function.update_idem, List.append_assoc] at hrest
    rw [List.map_append]
    exact Reach.trans (.snoc .refl (ok s) h1) hrest

/-- A whole call of the running thread is a run of its accesses. -/
lemma reach_runCall (hcall : allowed s (.call c)) (ok : ∀ s, allowed s .access)
    (hnone : s.calls s.sched.runningThread = none) (hs : runCall s c = some s') :
    Reach osStep allowed s s' := by
  unfold runCall at hs
  cases ho : (c.prog.run s.mem).outcome with
  | done a =>
    simp only [ho] at hs
    have h1 : osStep s (.call c) = some { s with
        calls := Function.update s.calls s.sched.runningThread (some ⟨c, c.prog⟩) } := by
      simp [osStep, hnone]
    have hrun := reach_leads (s := { s with
      calls := Function.update s.calls s.sched.runningThread (some ⟨c, c.prog⟩) }) ok
      (Function.update_self _ _ _) (runs_of_outcome ho).leads
    refine .snoc (e := .access) (Reach.trans (.snoc .refl hcall h1) hrun) (ok _) ?_
    have hcalls : Function.update s.calls s.sched.runningThread none = s.calls := by
      rw [← hnone, Function.update_eq_self]
    simpa [osStep, osAccess, hcalls] using hs
  | _ =>
    simp only [ho] at hs
    cases hs

end WholeCalls

end OsI386
