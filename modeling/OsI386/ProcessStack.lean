import OsI386.FrameRuns
import OsI386.ThreadRecords

/-!
# process_entry of user/process.c: where the user context is built

`thread_stack_init` leaves room for an `intr_stack` at the end of the page of a thread.
`process_entry` finds it through `stack_top`, which it reads twice and which every interrupt of
the new process overwrites.
-/
namespace OsI386
open TransitionSystem FrameSystem

section Threads

variable {T : Type} [DecidableEq T] {s s' : Scheduler T}

lemma foldlM_threadUnblock_eq {ts : List T} (h : ts.foldlM threadUnblock s = some s') :
    s'.allList = s.allList ∧ s'.runningThread = s.runningThread := by
  induction ts generalizing s with
  | nil =>
    cases h
    exact ⟨rfl, rfl⟩
  | cons t ts ih =>
    obtain ⟨s1, h1, hrest⟩ := Option.bind_eq_some_iff.mp h
    obtain ⟨⟨hall, -, hrun⟩, -⟩ := threadUnblock_records h1
    obtain ⟨hall', hrun'⟩ := ih hrest
    exact ⟨hall'.trans hall, hrun'.trans hrun⟩

end Threads

section Switched

variable {s s' : FrameSystem} {t top : ℕ}

/-- The thread is in `all_list`, and waits with one frame at `top`. -/
structure HasFrame (s : FrameSystem) (t top : ℕ) : Prop where
  listed : t ∈ s.sched.allList
  stackTop : s.stackTop t = top
  frame : ∃ f, s.saved t = [f] ∧ f.inHandler = false ∧ f.address = top

/-- The processor executes other code than that of `t`. -/
structure Parked (s : FrameSystem) (t top : ℕ) : Prop extends HasFrame s t top where
  other : s.cpu = .thread ∨ s.cpu = .handler → s.running ≠ t
  load : ∀ u, s.cpu = .load (some u) → s.running = u

/-- `t` executes code that no frame is saved of. -/
structure Executing (s : FrameSystem) (t top : ℕ) : Prop where
  listed : t ∈ s.sched.allList
  stackTop : s.stackTop t = top
  frame : s.saved t = []
  running : s.running = t
  cpu : s.cpu = .thread

lemma HasFrame.scheduleLoad (h : HasFrame s t top) : Parked (scheduleLoad s) t top := by
  unfold OsI386.scheduleLoad
  cases hs : mainSchedule s.sched with
  | none => exact ⟨⟨h.listed, h.stackTop, h.frame⟩, by simp, by simp⟩
  | some sched =>
    have hall := (mainSchedule_records hs).1
    refine ⟨⟨?_, h.stackTop, h.frame⟩, by simp, fun u hu => ?_⟩
    · rw [hall]
      exact h.listed
    · exact Option.some.inj (Cpu.load.inj hu)

lemma HasFrame.saveFrame (h : HasFrame s t top) (hne : s.running ≠ t) (f : Frame) :
    HasFrame (s.saveFrame f) t top := by
  refine ⟨h.listed, ?_, ?_⟩
  · exact (Function.update_of_ne hne.symm _ _).trans h.stackTop
  · obtain ⟨g, hg, hin, haddr⟩ := h.frame
    exact ⟨g, (Function.update_of_ne hne.symm _ _).trans hg, hin, haddr⟩

lemma Parked.blockRunning {st : TaskStatus} {esp : ℕ} (h : Parked s t top) (hne : s.running ≠ t)
    (hs : blockRunning s st esp = some s') : Parked s' t top := by
  obtain ⟨sched, h1, rfl⟩ := Option.map_eq_some_iff.mp hs
  obtain ⟨⟨hall, -, hrun⟩, -⟩ := threadSleep_records h1
  have hne' : sched.runningThread ≠ t := hrun ▸ hne
  have hframe : HasFrame { s with sched := sched } t top := ⟨hall ▸ h.listed, h.stackTop, h.frame⟩
  simp only []
  split_ifs
  · exact (hframe.saveFrame hne' _).scheduleLoad
  · exact ⟨hframe, fun _ => hne', fun u hu => hrun.trans (h.load u hu)⟩

lemma Parked.kbdSegment {c : IoqCall} {r : IoqSegment ℕ} {esp : ℕ} (h : Parked s t top)
    (hne : s.running ≠ t) (hs : kbdSegment s c r esp = some s') : Parked s' t top := by
  obtain ⟨sched, h1, hs⟩ := Option.bind_eq_some_iff.mp hs
  obtain ⟨hall, hrun⟩ := foldlM_threadUnblock_eq h1
  have hne' : sched.runningThread ≠ t := hrun ▸ hne
  have hkept : ∀ pc, Parked { s with sched := sched, kbdBuf := r.q, pc := pc } t top := fun pc =>
    ⟨⟨hall ▸ h.listed, h.stackTop, h.frame⟩, fun _ => hne', fun u hu => hrun.trans (h.load u hu)⟩
  cases hstop : r.stop with
  | sleep point =>
    simp only [hstop] at hs
    split_ifs at hs
    exact (hkept _).blockRunning hne' hs
  | done byte =>
    simp only [hstop] at hs
    split_ifs at hs
    · obtain rfl := Option.some.inj hs
      exact (hkept _).toHasFrame.scheduleLoad
    · obtain rfl := Option.some.inj hs
      exact hkept _

lemma Parked.intrEntry (h : Parked s t top) (hne : s.running ≠ t) (origin : IntrFrom) :
    Parked (intrEntry s origin) t top :=
  have hframe := h.toHasFrame.saveFrame hne _
  ⟨⟨hframe.listed, hframe.stackTop, hframe.frame⟩, fun _ => hne, nofun⟩

lemma Parked.newThread {sched : Scheduler ℕ} {u : ℕ} (h : Parked s t top) (hne : s.running ≠ t)
    (hu : u ∉ s.sched.allList) (hall : sched.allList = s.sched.allList ++ [u])
    (hrun : sched.runningThread = s.sched.runningThread) :
    Parked (threadStackInit { s with sched := sched } u) t top := by
  have htu : t ≠ u := fun he => hu (he ▸ h.listed)
  refine ⟨⟨?_, ?_, ?_⟩, fun _ => ?_, fun v hv => hrun.trans (h.load v hv)⟩
  · exact hall ▸ List.mem_append_left _ h.listed
  · exact (Function.update_of_ne htu _ _).trans h.stackTop
  · obtain ⟨f, hf, hin, haddr⟩ := h.frame
    exact ⟨f, (Function.update_of_ne htu _ _).trans hf, hin, haddr⟩
  · exact fun he => hne (hrun.symm.trans he)

/-- Other threads run until the frame of `t` is loaded. -/
lemma Parked.step {e : FrameEvent} (h : Parked s t top) (hs : s.step e = some s') :
    Parked s' t top ∨ Executing s' t top := by
  cases e with
  | timer origin =>
    simp only [FrameSystem.step, Option.ite_none_right_eq_some, Option.map_eq_some_iff] at hs
    obtain ⟨hfree, sched, h1, rfl⟩ := hs
    have hentry := h.intrEntry (h.other (.inl hfree.1)) origin
    have hlisted : t ∈ sched.allList := (intrTimerHandler_records h1).1.allList ▸ hentry.listed
    exact .inl (HasFrame.scheduleLoad ⟨hlisted, hentry.stackTop, hentry.frame⟩)
  | keyboard origin char esp =>
    simp only [FrameSystem.step, Option.ite_none_right_eq_some] at hs
    obtain ⟨hfree, hs⟩ := hs
    have hne := h.other (.inl hfree.1)
    have hentry := h.intrEntry hne origin
    cases char with
    | none => exact .inl (Option.some.inj hs ▸ hentry.toHasFrame.scheduleLoad)
    | some byte => exact .inl (hentry.kbdSegment hne hs)
  | call c esp =>
    simp only [FrameSystem.step, Option.ite_none_right_eq_some] at hs
    exact .inl (h.kbdSegment (h.other (.inl hs.1.1)) hs.2)
  | resume esp =>
    simp only [FrameSystem.step] at hs
    split at hs
    · simp only [Option.ite_none_right_eq_some, Option.bind_eq_some_iff] at hs
      obtain ⟨hcpu, r, -, hk⟩ := hs
      exact .inl (h.kbdSegment (h.other hcpu) hk)
    · cases hs
  | block st esp =>
    simp only [FrameSystem.step, Option.ite_none_right_eq_some] at hs
    exact .inl (h.blockRunning (h.other (.inl hs.1.1.1)) hs.2)
  | unblock u =>
    simp only [FrameSystem.step, Option.ite_none_right_eq_some, Option.map_eq_some_iff] at hs
    obtain ⟨⟨hfree, -⟩, sched, h1, rfl⟩ := hs
    obtain ⟨⟨hall, -, hrun⟩, -⟩ := threadUnblock_records h1
    have hne := h.other (.inl hfree.1)
    exact .inl ⟨⟨hall ▸ h.listed, h.stackTop, h.frame⟩, fun _ he => hne (hrun.symm.trans he),
      fun v hv => hrun.trans (h.load v hv)⟩
  | threadRun u prio =>
    simp only [FrameSystem.step, Option.ite_none_right_eq_some, Option.map_eq_some_iff] at hs
    obtain ⟨⟨hfree, hu, -⟩, sched, h1, rfl⟩ := hs
    obtain ⟨-, hall, -, -, hrun⟩ := threadRun_records h1
    exact .inl (h.newThread (h.other (.inl hfree.1)) hu hall hrun)
  | processRun u =>
    simp only [FrameSystem.step, Option.ite_none_right_eq_some, Option.map_eq_some_iff] at hs
    obtain ⟨⟨hfree, hu⟩, sched, h1, rfl⟩ := hs
    obtain ⟨-, hall, -, -, hrun⟩ := processRun_records h1
    exact .inl (h.newThread (h.other (.inl hfree.1)) hu hall hrun)
  | processEntry =>
    simp only [FrameSystem.step, Option.ite_none_right_eq_some, Option.some.injEq] at hs
    obtain ⟨hfree, rfl⟩ := hs
    have hne := h.other (.inl hfree.1)
    exact .inl ⟨⟨h.listed, (Function.update_of_ne hne.symm _ _).trans h.stackTop, h.frame⟩,
      h.other, h.load⟩
  | contextLoad =>
    simp only [FrameSystem.step] at hs
    split at hs
    · rename_i u hload
      have hrun := h.load u hload
      split at hs
      · rename_i f rest hsaved
        simp only [Option.ite_none_right_eq_some, Option.some.injEq] at hs
        obtain ⟨-, rfl⟩ := hs
        by_cases hu : u = t
        · subst hu
          obtain ⟨g, hg, hin, -⟩ := h.frame
          obtain ⟨rfl, rfl⟩ := List.cons.inj (hsaved.symm.trans hg)
          refine .inr ⟨h.listed, h.stackTop, Function.update_self _ _ _, hrun, ?_⟩
          simp [hin]
        · have hframe : ∃ g, Function.update s.saved u rest t = [g] ∧ g.inHandler = false ∧
              g.address = top := by
            rw [Function.update_of_ne (Ne.symm hu)]
            exact h.frame
          refine .inl ⟨⟨h.listed, h.stackTop, hframe⟩, fun _ he => hu (hrun.symm.trans he), ?_⟩
          intro v hv
          simp only at hv
          split_ifs at hv
      · cases hs
    · cases hs

/-- A timer interrupt of `t`. -/
lemma Executing.timer {esp : ℕ} (h : Executing s t top)
    (hs : s.step (.timer (.kernel esp)) = some s') : Parked s' t (esp - 68) := by
  simp only [FrameSystem.step, Option.ite_none_right_eq_some, Option.map_eq_some_iff] at hs
  obtain ⟨-, sched, h1, rfl⟩ := hs
  have hlisted : t ∈ sched.allList := (intrTimerHandler_records h1).1.allList ▸ h.listed
  refine HasFrame.scheduleLoad ⟨hlisted, ?_, ⟨esp - 68, .all, false⟩, ?_, rfl, rfl⟩
  · rw [← h.running]
    exact Function.update_self _ _ _
  · have hempty : s.saved s.running = [] := h.running ▸ h.frame
    have hsaved : (OsI386.intrEntry s (.kernel esp)).saved s.running = _ :=
      Function.update_self _ _ _
    rw [hempty, h.running] at hsaved
    exact hsaved

end Switched

section Entry

/-- Where a new process is: in `kernel_thread_entry` before and after `intr_enable`, or in
`process_entry` after it has read `stack_top`, stored it and read it again. -/
inductive EntryPoint
  | start
  | enabled
  | loaded (stack : ℕ)
  | stored
  | computed (procStack : ℕ)
  deriving DecidableEq

/-- `hits` counts the timer interrupts of the process whose frame `process_entry` reads the
address of. The code does not have it. -/
structure EntrySystem where
  frames : FrameSystem
  point : EntryPoint
  hits : ℕ

/-- `entry` is the next access of the process, `timer` an interrupt of it and `other` a step of
another thread or a `context_load`. -/
inductive EntryEvent
  | entry
  | timer (esp : ℕ)
  | other (e : FrameEvent)

/-- `stack_top` after `thread_stack_init`. -/
def threadStackAt (t : ℕ) : ℕ := t + pgSize - sizeofIntrStack - sizeofThreadStack

/-- The area `thread_stack_init` leaves for a user context. -/
def intrStackAt (t : ℕ) : ℕ := t + pgSize - sizeofIntrStack

/-- The return address of `kernel_thread_entry`, six words up. -/
def entryStackTop (t : ℕ) : ℕ := threadStackAt t + 24

namespace EntryPoint

/-- Interrupts are enabled and `proc_stack` is not known. -/
def Open : EntryPoint → Prop
  | .start | .computed _ => False
  | _ => True

instance (p : EntryPoint) : Decidable p.Open := by
  cases p <;> unfold Open <;> infer_instance

/-- The next access reads `stack_top`. -/
def reads : EntryPoint → Bool
  | .enabled | .stored => true
  | _ => false

end EntryPoint

namespace EntrySystem

def Runs (s : EntrySystem) (t : ℕ) : Prop := s.frames.running = t ∧ s.frames.cpu = .thread

instance (s : EntrySystem) (t : ℕ) : Decidable (s.Runs t) := inferInstanceAs (Decidable (_ ∧ _))

/-- `intr_enable` and the accesses to `running_thread->stack_top`. -/
def access (s : EntrySystem) (t : ℕ) : Option EntrySystem :=
  match s.point with
  | .start => some { s with point := .enabled }
  | .enabled => some { s with point := .loaded (s.frames.stackTop t) }
  | .loaded stack =>
    let stackTop := Function.update s.frames.stackTop t (stack + sizeofThreadStack)
    some { s with frames := { s.frames with stackTop := stackTop }, point := .stored }
  | .stored => some { s with point := .computed (s.frames.stackTop t) }
  | .computed _ => none

def step (t : ℕ) (s : EntrySystem) : EntryEvent → Option EntrySystem
  | .entry => if s.Runs t then s.access t else none
  | .timer esp =>
    if s.Runs t ∧ s.point.Open ∧ esp ≤ entryStackTop t then
      (s.frames.step (.timer (.kernel esp))).map fun frames =>
        { s with frames := frames, hits := if s.point.reads then s.hits + 1 else s.hits }
    else none
  | .other e =>
    if s.Runs t then none else (s.frames.step e).map fun frames => { s with frames := frames }

/-- After `process_run`. -/
def init (frames : FrameSystem) : EntrySystem := ⟨frames, .start, 0⟩

end EntrySystem

/-- `x` is `v` if nothing has been hit, and smaller otherwise. -/
structure HitBelow (hits x v : ℕ) : Prop where
  le : x ≤ v
  eq_iff : x = v ↔ hits = 0

lemma HitBelow.add {hits x v : ℕ} (h : HitBelow hits x v) (k : ℕ) :
    HitBelow hits (x + k) (v + k) :=
  ⟨Nat.add_le_add_right h.le k, by rw [Nat.add_right_cancel_iff]; exact h.eq_iff⟩

lemma hitBelow_of_lt {hits x v : ℕ} (h : x < v) : HitBelow (hits + 1) x v :=
  ⟨h.le, by omega⟩

/-- What the next accesses of the process work on. -/
def EntryPoint.Holds (t top hits : ℕ) : EntryPoint → Prop
  | .start => hits = 0 ∧ top = threadStackAt t
  | .enabled => HitBelow hits top (threadStackAt t)
  | .loaded stack => HitBelow hits stack (threadStackAt t)
  | .stored => HitBelow hits top (intrStackAt t)
  | .computed procStack => HitBelow hits procStack (intrStackAt t)

structure EntryInv (t : ℕ) (s : EntrySystem) : Prop where
  thread : ∃ top, (Parked s.frames t top ∨ Executing s.frames t top) ∧ s.point.Holds t top s.hits

variable {s s' : EntrySystem} {t : ℕ}

lemma threadStackAt_add (t : ℕ) : threadStackAt t + sizeofThreadStack = intrStackAt t := by
  simp only [threadStackAt, intrStackAt, pgSize, sizeofIntrStack, sizeofThreadStack]
  omega

/-- The frame of an interrupt is below the one of `thread_stack_init`. -/
lemma frame_lt_threadStackAt {esp : ℕ} (h : esp ≤ entryStackTop t) : esp - 68 < threadStackAt t := by
  simp only [entryStackTop, threadStackAt, pgSize, sizeofIntrStack, sizeofThreadStack] at h ⊢
  omega

lemma Parked.not_runs {top : ℕ} (h : Parked s.frames t top) : ¬ s.Runs t :=
  fun hr => h.other (.inl hr.2) hr.1

lemma Executing.runs {top : ℕ} (h : Executing s.frames t top) : s.Runs t := ⟨h.running, h.cpu⟩

/-- One access of the process. -/
lemma EntryInv.access {top : ℕ} (hx : Executing s.frames t top)
    (hp : s.point.Holds t top s.hits) (hs : s.access t = some s') : EntryInv t s' := by
  unfold EntrySystem.access at hs
  split at hs
  case h_1 hpoint =>
    obtain rfl := Option.some.inj hs
    rw [hpoint] at hp
    exact ⟨top, .inr hx, hp.2.le, by simp [hp.1, hp.2]⟩
  case h_2 hpoint =>
    obtain rfl := Option.some.inj hs
    rw [hpoint] at hp
    refine ⟨top, .inr hx, ?_⟩
    change HitBelow s.hits (s.frames.stackTop t) _
    rw [hx.stackTop]
    exact hp
  case h_3 stack hpoint =>
    obtain rfl := Option.some.inj hs
    rw [hpoint] at hp
    refine ⟨stack + sizeofThreadStack, .inr ?_, ?_⟩
    · exact ⟨hx.listed, Function.update_self _ _ _, hx.frame, hx.running, hx.cpu⟩
    · have hadd := HitBelow.add hp sizeofThreadStack
      rwa [threadStackAt_add] at hadd
  case h_4 hpoint =>
    obtain rfl := Option.some.inj hs
    rw [hpoint] at hp
    refine ⟨top, .inr hx, ?_⟩
    change HitBelow s.hits (s.frames.stackTop t) _
    rw [hx.stackTop]
    exact hp
  case h_5 => cases hs

/-- An interrupt of the process counts exactly where `stack_top` is read next. -/
lemma EntryPoint.Holds.timer {p : EntryPoint} {top hits esp : ℕ} (h : p.Holds t top hits)
    (hopen : p.Open) (hesp : esp ≤ entryStackTop t) :
    p.Holds t (esp - 68) (if p.reads then hits + 1 else hits) := by
  have hlt := frame_lt_threadStackAt hesp
  cases p with
  | start => exact hopen.elim
  | enabled => exact hitBelow_of_lt hlt
  | loaded stack => exact h
  | stored => exact hitBelow_of_lt (hlt.trans_le (threadStackAt_add t ▸ Nat.le_add_right _ _))
  | computed procStack => exact hopen.elim

lemma EntryInv.step {e : EntryEvent} (h : EntryInv t s) (hs : s.step t e = some s') :
    EntryInv t s' := by
  obtain ⟨top, hthread, hp⟩ := h.thread
  cases e with
  | entry =>
    simp only [EntrySystem.step, Option.ite_none_right_eq_some] at hs
    rcases hthread with hpark | hx
    · exact (hpark.not_runs hs.1).elim
    · exact EntryInv.access hx hp hs.2
  | timer esp =>
    simp only [EntrySystem.step, Option.ite_none_right_eq_some, Option.map_eq_some_iff] at hs
    obtain ⟨⟨hruns, hopen, hesp⟩, frames, h1, rfl⟩ := hs
    rcases hthread with hpark | hx
    · exact (hpark.not_runs hruns).elim
    · exact ⟨esp - 68, .inl (hx.timer h1), hp.timer hopen hesp⟩
  | other e =>
    simp only [EntrySystem.step, Option.ite_none_left_eq_some, Option.map_eq_some_iff] at hs
    obtain ⟨hruns, frames, h1, rfl⟩ := hs
    rcases hthread with hpark | hx
    · exact ⟨top, hpark.step h1, hp⟩
    · exact (hruns hx.runs).elim

/-- The process that `process_run` has made. -/
lemma entryInv_init {frames₀ frames : FrameSystem} (hne : frames₀.running ≠ t)
    (h : frames₀.step (.processRun t) = some frames) : EntryInv t (EntrySystem.init frames) := by
  simp only [FrameSystem.step, Option.ite_none_right_eq_some, Option.map_eq_some_iff] at h
  obtain ⟨⟨hfree, -⟩, sched, h1, rfl⟩ := h
  obtain ⟨-, hall, -, -, hrun⟩ := processRun_records h1
  refine ⟨threadStackAt t, .inl ⟨⟨?_, ?_, ?_⟩, fun _ he => hne (hrun.symm.trans he), ?_⟩, rfl, rfl⟩
  · exact hall ▸ List.mem_append_right _ (List.mem_singleton_self t)
  · exact Function.update_self _ _ _
  · exact ⟨_, Function.update_self _ _ _, rfl, rfl⟩
  · intro u hu
    have hcpu : frames₀.cpu = .load (some u) := hu
    rw [hfree.1] at hcpu
    cases hcpu

/-- `proc_stack` is the reserved area, and the frames of the calls that go on do not reach it. -/
def OnReserved (t procStack : ℕ) : Prop :=
  procStack = intrStackAt t ∧
    Disjoint (Set.Iio (intrStackAt t)) (Set.Ico procStack (procStack + sizeofIntrStack))

lemma onReserved_iff (t procStack : ℕ) : OnReserved t procStack ↔ procStack = intrStackAt t := by
  refine ⟨And.left, fun h => ⟨h, Set.disjoint_left.mpr fun b hb hm => ?_⟩⟩
  exact absurd (h ▸ hm.1) (not_le.mpr hb)

/-- In every run of a new process, `process_entry` uses the reserved area exactly if no timer
interrupt arrived between `intr_enable` and its first access to `stack_top`, nor between the
second and the third. -/
theorem procStack_onReserved_iff {frames₀ frames : FrameSystem} {procStack : ℕ}
    (hne : frames₀.running ≠ t) (h₀ : frames₀.step (.processRun t) = some frames)
    (h : Reach (EntrySystem.step t) (fun _ _ => True) (EntrySystem.init frames) s)
    (hp : s.point = .computed procStack) : OnReserved t procStack ↔ s.hits = 0 := by
  have hinv : EntryInv t s :=
    h.invariant (entryInv_init hne h₀) fun _ _ _ hI _ hs => EntryInv.step hI hs
  obtain ⟨top, -, hholds⟩ := hinv.thread
  rw [hp] at hholds
  rw [onReserved_iff]
  exact hholds.eq_iff

/-- The boot thread creates a process and blocks; the process gets through `process_entry` with
`events` in place of its second access. -/
def bootProcess (events : List EntryEvent) : Option EntrySystem := do
  let sched ← bootSched
  let frames ← (FrameSystem.init sched fun _ => 0).step (.processRun 131072)
  run (EntrySystem.step 131072) (EntrySystem.init frames)
    ([.other (.block .waiting 69000), .other .contextLoad, .entry] ++ events ++ [.entry, .entry])

lemma bootProcess_reach {events : List EntryEvent} {s : EntrySystem}
    (h : bootProcess events = some s) : ∃ frames₀ frames : FrameSystem,
      frames₀.running = 65536 ∧ frames₀.step (.processRun 131072) = some frames ∧
      Reach (EntrySystem.step 131072) (fun _ _ => True) (EntrySystem.init frames) s := by
  unfold bootProcess at h
  obtain ⟨sched, hb, h⟩ := Option.bind_eq_some_iff.mp h
  obtain ⟨frames, hf, h⟩ := Option.bind_eq_some_iff.mp h
  have hrun : ∀ sched ∈ bootSched, (FrameSystem.init sched fun _ => 0).running = 65536 := by
    decide +kernel
  exact ⟨_, frames, hrun sched hb, hf, .of_run h⟩

/-- An interrupt between the first access and the second does no harm. -/
theorem procStack_onReserved_interrupted : ∃ s procStack,
    bootProcess [.entry, .timer 135000, .other .contextLoad] = some s ∧
      s.point = .computed procStack ∧ OnReserved 131072 procStack := by
  have hsome : ∃ s, bootProcess [.entry, .timer 135000, .other .contextLoad] = some s :=
    Option.isSome_iff_exists.mp (by decide +kernel)
  obtain ⟨s, hs⟩ := hsome
  have hend : ∀ s ∈ bootProcess [.entry, .timer 135000, .other .contextLoad],
      s.point = .computed 135092 ∧ s.hits = 0 := by
    decide +kernel
  obtain ⟨hp, hhits⟩ := hend s hs
  obtain ⟨frames₀, frames, hrun, h₀, hreach⟩ := bootProcess_reach hs
  have hne : frames₀.running ≠ 131072 := by
    rw [hrun]
    decide
  exact ⟨s, 135092, hs, hp, (procStack_onReserved_iff hne h₀ hreach hp).mpr hhits⟩

/-- One timer interrupt before the first access moves `proc_stack` down into the frames of
`process_entry` itself. -/
theorem procStack_moved : ∃ s,
    bootProcess [.timer 135000, .other .contextLoad, .entry] = some s ∧
      s.point = .computed 134968 ∧ ¬ OnReserved 131072 134968 ∧
      134968 < 135000 ∧ 135000 < 134968 + sizeofIntrStack := by
  have hsome : ∃ s, bootProcess [.timer 135000, .other .contextLoad, .entry] = some s :=
    Option.isSome_iff_exists.mp (by decide +kernel)
  obtain ⟨s, hs⟩ := hsome
  have hend : ∀ s ∈ bootProcess [.timer 135000, .other .contextLoad, .entry],
      s.point = .computed 134968 := by
    decide +kernel
  refine ⟨s, hs, hend s hs, fun h => ?_, by decide, by decide⟩
  exact absurd h.1 (by decide)

end Entry

end OsI386
