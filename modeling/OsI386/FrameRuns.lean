import OsI386.Frames
import OsI386.IoQueueWaiters

/-!
# Frames are resumed newest first

While no interrupt handler blocks, a thread that is not running has exactly one frame, and
`stack_top` is its address; the running thread has none. A handler that blocks saves a
second frame over the address of the first one.
-/
namespace OsI386
open TransitionSystem

section Registered

variable {T : Type}

/-- The queue keeps a pointer to the thread. -/
def Registered (q : Ioqueue T) (u : T) : Prop :=
  u ∈ q.mtx.sem.waiters ∨ ∃ w, q.waiter w = some u

/-- A segment run by `t` registers no one else and wakes only registered threads. -/
structure Touches (q : Ioqueue T) (t : T) (r : IoqSegment T) : Prop where
  registered : ∀ u, Registered r.q u → Registered q u ∨ u = t
  unblocked : ∀ u ∈ r.unblocked, Registered q u

lemma touches_ioqFinish (q : Ioqueue T) (t : T) (c : IoqCall) : Touches q t (ioqFinish q c) := by
  cases c with
  | getchar =>
    constructor
    case registered =>
      rintro u (hm | ⟨w, hw⟩)
      · exact .inl (.inl hm)
      · cases w with
        | producer => simp [ioqFinish, ioqSignal, Ioqueue.setWaiter, Ioqueue.waiter] at hw
        | consumer => exact .inl (.inr ⟨.consumer, hw⟩)
    case unblocked =>
      intro u hu
      exact .inr ⟨.producer, by simpa [ioqFinish, ioqSignal, Ioqueue.waiter] using hu⟩
  | putchar byte =>
    constructor
    case registered =>
      rintro u (hm | ⟨w, hw⟩)
      · exact .inl (.inl hm)
      · cases w with
        | consumer => simp [ioqFinish, ioqSignal, Ioqueue.setWaiter, Ioqueue.waiter] at hw
        | producer => exact .inl (.inr ⟨.producer, hw⟩)
    case unblocked =>
      intro u hu
      exact .inr ⟨.consumer, by simpa [ioqFinish, ioqSignal, Ioqueue.waiter] using hu⟩

variable [DecidableEq T]

lemma touches_ioqLockWait (q : Ioqueue T) (t : T) (w : Waiter) :
    Touches q t (ioqLockWait q t w) := by
  unfold ioqLockWait semDown
  split_ifs
  · exact ⟨fun u hu => .inl hu, by simp⟩
  · constructor
    case registered =>
      rintro u (hm | ⟨v, hv⟩)
      · rcases List.mem_append.mp hm with hm | hm
        · exact .inl (.inl hm)
        · exact .inr (List.mem_singleton.mp hm)
      · exact .inl (.inr ⟨v, by cases v <;> exact hv⟩)
    case unblocked => simp
  · constructor
    case registered =>
      rintro u (hm | ⟨v, hv⟩)
      · exact .inl (.inl (by simpa using hm))
      · by_cases he : v = w
        · subst he
          exact .inr (by simpa using hv.symm)
        · rw [setWaiter_waiter_of_ne _ _ _ he] at hv
          exact .inl (.inr ⟨v, by simpa using hv⟩)
    case unblocked => simp

lemma touches_ioqLoop (q : Ioqueue T) (t : T) (c : IoqCall) : Touches q t (ioqLoop q t c) := by
  unfold ioqLoop
  split
  · exact touches_ioqLockWait q t c.waiter
  · exact touches_ioqFinish q t c

omit [DecidableEq T] in
/-- What `mutex_unlock` takes out of the waiters, and leaves there. -/
lemma mutexUnlock_spec {mtx mtx' : Mutex T} {woken : Option T}
    (h : mutexUnlock mtx = some (mtx', woken)) :
    woken = mtx.sem.waiters.head? ∧ mtx'.sem.waiters = mtx.sem.waiters.tail := by
  obtain ⟨⟨sem, w⟩, hs, hm⟩ := Option.bind_eq_some_iff.mp h
  cases hm
  unfold semUp at hs
  split_ifs at hs
  cases hw : mtx.sem.waiters with
  | nil =>
    rw [hw] at hs
    cases hs
    exact ⟨rfl, rfl⟩
  | cons u us =>
    rw [hw] at hs
    cases hs
    exact ⟨rfl, rfl⟩

lemma touches_ioqResume {q : Ioqueue T} {t : T} {c : IoqCall} {point : IoqPoint}
    {r : IoqSegment T} (h : ioqResume q t c point = some r) : Touches q t r := by
  cases point with
  | inLock =>
    obtain rfl := Option.some.inj h
    exact touches_ioqLockWait q t c.waiter
  | inWait =>
    obtain ⟨⟨mtx, woken⟩, hu, hr⟩ := Option.bind_eq_some_iff.mp h
    obtain rfl := Option.some.inj hr
    obtain ⟨hw, hm⟩ := mutexUnlock_spec hu
    have hsub : ∀ u, Registered { q with mtx := mtx } u → Registered q u := by
      rintro u (hu | ⟨v, hv⟩)
      · exact .inl (List.mem_of_mem_tail (hm ▸ hu))
      · exact .inr ⟨v, by simpa using hv⟩
    have ht := touches_ioqLoop { q with mtx := mtx } t c
    constructor
    case registered => exact fun u hu => (ht.registered u hu).imp_left (hsub u)
    case unblocked =>
      intro u hu
      rcases List.mem_append.mp hu with hu | hu
      · rw [hw, Option.mem_toList] at hu
        exact .inl (List.mem_of_mem_head? hu)
      · exact hsub u (ht.unblocked u hu)

end Registered

open FrameSystem

/-- The thread has one frame, at its `stack_top`, saved by thread code. -/
def FrameSystem.Waiting (s : FrameSystem) (u : ℕ) : Prop :=
  ∃ f, s.saved u = [f] ∧ f.inHandler = false ∧ s.stackTop u = f.address

structure FrameInv (s : FrameSystem) : Prop where
  sched : SchedInv s.sched
  kbdBuf : ∀ u, Registered s.kbdBuf u → u ∈ s.sched.allList
  cpu : s.cpu = .thread ∨ s.cpu = .load (some s.running)
  current : s.cpu = .thread → s.saved s.running = []
  waiting : ∀ u ∈ s.sched.allList, (s.cpu = .thread → u ≠ s.running) → s.Waiting u

variable {s s' : FrameSystem}

lemma FrameInv.waiting_of_ne (h : FrameInv s) : ∀ u ∈ s.sched.allList, u ≠ s.running → s.Waiting u :=
  fun u hu hne => h.waiting u hu fun _ => hne

/-- After a frame of thread code is saved on an empty list, every thread waits. -/
lemma waiting_saveFrame {f : Frame} (hf : f.inHandler = false) (hcur : s.saved s.running = [])
    (hw : ∀ u ∈ s.sched.allList, u ≠ s.running → s.Waiting u) :
    ∀ u ∈ s.sched.allList, (s.saveFrame f).Waiting u := by
  intro u hu
  by_cases he : u = s.running
  · exact ⟨f, by simp [saveFrame, he, hcur], hf, by simp [saveFrame, he]⟩
  · obtain ⟨g, hg, hin, htop⟩ := hw u hu he
    exact ⟨g, by simp [saveFrame, he, hg], hin, by simp [saveFrame, he, htop]⟩

/-- `main_schedule` with every thread waiting. -/
lemma scheduleLoad_spec {sched : Scheduler ℕ} (hs : mainSchedule s.sched = some sched)
    (hinv : SchedInv sched) (hall : sched.allList = s.sched.allList)
    (hkbd : ∀ u, Registered s.kbdBuf u → u ∈ s.sched.allList)
    (hw : ∀ u ∈ s.sched.allList, s.Waiting u) : FrameInv (scheduleLoad s) := by
  have heq : scheduleLoad s = { s with sched := sched, cpu := .load (some sched.runningThread) } := by
    simp [scheduleLoad, hs]
  rw [heq]
  constructor
  case sched => exact hinv
  case kbdBuf => exact fun u hu => hall ▸ hkbd u hu
  case cpu => exact .inr rfl
  case current => exact nofun
  case waiting => exact fun u hu _ => hw u (hall ▸ hu)

/-- The running thread blocks, another one being queued. -/
lemma blockRunning_spec (st : TaskStatus) (esp : ℕ) (hinv : SchedInv s.sched)
    (hkbd : ∀ u, Registered s.kbdBuf u → u ∈ s.sched.allList) (hcpu : s.cpu = .thread)
    (hcur : s.saved s.running = [])
    (hw : ∀ u ∈ s.sched.allList, u ≠ s.running → s.Waiting u) (hst : st.Sleeping)
    (hother : ∃ u, u ≠ s.running ∧ s.sched.Linked u) :
    ∃ s', blockRunning s st esp = some s' ∧ FrameInv s' := by
  obtain ⟨sched, h1, hweak, hneed, hall, hrun, _, htcb⟩ := threadSleep_spec hinv hst
  obtain ⟨u, hne, hl⟩ := hother
  obtain ⟨hmem, hru⟩ := (hinv.queues.linked_iff u).mp hl
  obtain ⟨sched2, h2, hinv2, hall2⟩ := mainSchedule_spec hweak
    (.inr ⟨hneed, u, hall ▸ hmem, by rw [htcb u hne]; exact hru⟩)
  refine ⟨_, by rw [blockRunning, h1]; rfl, ?_⟩
  simp only [hneed, ↓reduceIte, taskTrap]
  have hsave := waiting_saveFrame (s := { s with sched := sched })
    (f := ⟨esp - 20, .fast, s.cpu == .handler⟩) (by simp [hcpu])
    (by simpa [running, hrun] using hcur)
    (fun v hv hvne => hw v (hall ▸ hv) (by simpa [running, hrun] using hvne))
  exact scheduleLoad_spec h2 hinv2 hall2 (fun v hv => hall ▸ hkbd v hv) hsave

/-- The wake-ups of a segment. -/
lemma unblocked_spec {ts : List ℕ} {sched sched' : Scheduler ℕ} (h : SchedInv sched)
    (hts : ∀ u ∈ ts, u ∈ sched.allList) (hs : ts.foldlM threadUnblock sched = some sched') :
    SchedInv sched' ∧ sched'.allList = sched.allList ∧
      sched'.runningThread = sched.runningThread ∧ (∀ u ∈ ts, u ≠ sched.runningThread) ∧
      ∀ u, (sched.tcb u).status.Runnable ∨ u ∈ ts → (sched'.tcb u).status.Runnable := by
  induction ts generalizing sched with
  | nil =>
    cases hs
    exact ⟨h, rfl, rfl, by simp, fun u hu => by simpa using hu⟩
  | cons t ts ih =>
    obtain ⟨mid, hm, hrest⟩ := Option.bind_eq_some_iff.mp hs
    have hst : (sched.tcb t).status.Sleeping := by
      by_contra hn
      simp [threadUnblock, hn] at hm
    obtain ⟨mid', hm', hinv, hall, hrun, hmono⟩ := threadUnblock_spec h (hts t (by simp)) hst
    obtain rfl : mid' = mid := Option.some.inj (hm'.symm.trans hm)
    obtain ⟨hinv', hall', hrun', hne', hmono'⟩ :=
      ih hinv (fun u hu => hall ▸ hts u (List.mem_cons_of_mem t hu)) hrest
    refine ⟨hinv', hall'.trans hall, hrun'.trans hrun, ?_, fun u hu => hmono' u ?_⟩
    · intro u hu
      rcases List.mem_cons.mp hu with rfl | hu
      · rintro rfl
        simp [h.current, TaskStatus.Sleeping] at hst
      · exact hrun ▸ hne' u hu
    · rcases hu with hu | hu
      · exact .inl (hmono u (.inl hu))
      · exact (List.mem_cons.mp hu).imp_left fun he => hmono u (.inr he)

/-- A call of thread code on `kbd_buf`: it ends, or blocks with another thread queued. -/
lemma kbdSegment_thread {c : IoqCall} {r : IoqSegment ℕ} {esp : ℕ} (h : FrameInv s)
    (hcpu : s.cpu = .thread) (hr : Touches s.kbdBuf s.running r)
    (hother : ∀ point, r.stop = .sleep point →
      ∃ u, (u ≠ s.running ∧ s.sched.Linked u) ∨ u ∈ r.unblocked)
    (hs : kbdSegment s c r esp = some s') : FrameInv s' := by
  obtain ⟨sched, h1, hrest⟩ := Option.bind_eq_some_iff.mp hs
  obtain ⟨hinv, hall, hrun, hwoken, hmono⟩ :=
    unblocked_spec h.sched (fun u hu => h.kbdBuf u (hr.unblocked u hu)) h1
  have hkbd : ∀ u, Registered r.q u → u ∈ sched.allList := fun u hu => by
    rw [hall]
    rcases hr.registered u hu with hu | rfl
    · exact h.kbdBuf u hu
    · exact h.sched.running
  cases hstop : r.stop with
  | sleep point =>
    simp only [hstop] at hrest
    split_ifs at hrest
    obtain ⟨u, hu⟩ := hother point hstop
    have hne : u ≠ s.running := hu.elim And.left (hwoken u)
    have hmem : u ∈ s.sched.allList := hu.elim
      (fun hl => ((h.sched.queues.linked_iff u).mp hl.2).1) fun hm => h.kbdBuf u (hr.unblocked u hm)
    have hlinked : sched.Linked u := (hinv.queues.linked_iff u).mpr
      ⟨hall ▸ hmem, hmono u (hu.imp_left fun hl => ((h.sched.queues.linked_iff u).mp hl.2).2)⟩
    obtain ⟨s1, hb, hinv1⟩ := blockRunning_spec
      (s := { s with sched := sched, kbdBuf := r.q,
                     pc := Function.update s.pc sched.runningThread (some (c, point)) })
      .blocked esp hinv hkbd hcpu
      (by simpa [running, hrun] using h.current hcpu)
      (fun v hv hvne => h.waiting_of_ne v (hall ▸ hv) (by simpa [running, hrun] using hvne))
      (.inl rfl) ⟨u, by simpa [running, hrun] using hne, hlinked⟩
    exact Option.some.inj (hb.symm.trans hrest) ▸ hinv1
  | done byte =>
    simp only [hstop, hcpu] at hrest
    cases hrest
    constructor
    case sched => exact hinv
    case kbdBuf => exact hkbd
    case cpu => exact .inl rfl
    case current => exact fun _ => by simpa [running, hrun] using h.current hcpu
    case waiting =>
      intro v hv hvne
      exact h.waiting_of_ne v (hall ▸ hv) (by simpa [running, hrun] using hvne rfl)

/-- A call of the keyboard handler that ends goes on to `hwi_tail_handle`. -/
lemma kbdSegment_handler {c : IoqCall} {r : IoqSegment ℕ} {byte : Byte} {esp : ℕ}
    (hinv : SchedInv s.sched) (hkbd : ∀ u, Registered s.kbdBuf u → u ∈ s.sched.allList)
    (hcpu : s.cpu = .handler) (hw : ∀ u ∈ s.sched.allList, s.Waiting u)
    (hr : Touches s.kbdBuf s.running r) (hstop : r.stop = .done byte)
    (hs : kbdSegment s c r esp = some s') : FrameInv s' := by
  obtain ⟨sched, h1, hrest⟩ := Option.bind_eq_some_iff.mp hs
  obtain ⟨hinv1, hall, _, _, _⟩ :=
    unblocked_spec hinv (fun u hu => hkbd u (hr.unblocked u hu)) h1
  simp only [hstop, hcpu, ↓reduceIte] at hrest
  cases hrest
  obtain ⟨sched2, h2, hinv2, hall2⟩ := mainSchedule_spec hinv1.toSchedWeak (.inl hinv1.current)
  apply scheduleLoad_spec h2 hinv2 hall2
  · intro u hu
    rw [show sched.allList = s.sched.allList from hall]
    rcases hr.registered u hu with hu | rfl
    · exact hkbd u hu
    · exact hinv.running
  · exact fun u hu => hw u (hall ▸ hu)

/-- The interrupt stub leaves every thread waiting. -/
lemma FrameInv.intrEntry (h : FrameInv s) (hcpu : s.cpu = .thread) (origin : IntrFrom) :
    ∀ u ∈ s.sched.allList, (intrEntry s origin).Waiting u :=
  waiting_saveFrame rfl (h.current hcpu) h.waiting_of_ne

/-- Another thread is in a ready queue. -/
def OtherQueued (s : FrameSystem) : Prop :=
  ∃ u ∈ s.sched.allList, u ≠ s.running ∧ s.sched.Linked u

instance (s : FrameSystem) : Decidable (OtherQueued s) :=
  inferInstanceAs (Decidable (∃ u ∈ s.sched.allList, _))

/-- No character arrives while `kbd_buf` is full, and a thread blocks only if another one is
queued or is the next in the mutex it gives up. -/
def FrameAllowed (s : FrameSystem) : FrameEvent → Prop
  | .keyboard _ (some _) _ => ioqFull s.kbdBuf = false
  | .call c _ => c.mustWait s.kbdBuf = true → OtherQueued s
  | .resume _ => ∀ k ∈ (s.pc s.running).toList,
      (k.2 = .inLock ∨ k.1.mustWait s.kbdBuf = true) →
        OtherQueued s ∨ (k.2 = .inWait ∧ s.kbdBuf.mtx.sem.waiters ≠ [])
  | .block _ _ => OtherQueued s
  | _ => True

instance (s : FrameSystem) (e : FrameEvent) : Decidable (FrameAllowed s e) := by
  cases e with
  | keyboard origin char esp => cases char <;> unfold FrameAllowed <;> infer_instance
  | _ => unfold FrameAllowed; infer_instance

lemma FrameInv.contextLoad (h : FrameInv s) (hs : s.step .contextLoad = some s') :
    FrameInv s' := by
  rcases h.cpu with hcpu | hcpu
  · simp [FrameSystem.step, hcpu] at hs
  · obtain ⟨f, hf, hin, htop⟩ := h.waiting s.running h.sched.running (by simp [hcpu])
    simp only [FrameSystem.step, hcpu, hf, htop, ↓reduceIte, hin, Bool.false_eq_true] at hs
    cases hs
    constructor
    case sched => exact h.sched
    case kbdBuf => exact h.kbdBuf
    case cpu => exact .inl rfl
    case current => exact fun _ => by simp [running]
    case waiting =>
      intro u hu hne
      obtain ⟨g, hg, hgin, hgtop⟩ := h.waiting u hu (by simp [hcpu])
      have hne' : u ≠ s.running := hne rfl
      exact ⟨g, by simp [hne', hg], hgin, hgtop⟩

/-- A new thread starts with the frame of `thread_stack_init`. -/
lemma FrameInv.newThread {sched : Scheduler ℕ} {t : ℕ} (h : FrameInv s) (hcpu : s.cpu = .thread)
    (ht : t ∉ s.sched.allList) (hinv : SchedInv sched) (hall : sched.allList = s.sched.allList ++ [t])
    (hrun : sched.runningThread = s.sched.runningThread) :
    FrameInv (threadStackInit { s with sched := sched } t) := by
  have hne : s.running ≠ t := by
    rintro rfl
    exact ht h.sched.running
  constructor
  case sched => exact hinv
  case kbdBuf =>
    intro u hu
    exact (congrArg (u ∈ ·) hall).mpr (List.mem_append_left _ (h.kbdBuf u hu))
  case cpu => exact .inl hcpu
  case current =>
    intro _
    simpa [threadStackInit, running, hrun, show s.sched.runningThread ≠ t from hne]
      using h.current hcpu
  case waiting =>
    intro u hu hnr
    have hnr' : u ≠ s.running := fun he => hnr hcpu (he.trans hrun.symm)
    by_cases he : u = t
    · exact ⟨_, by simp [threadStackInit, he]; rfl, rfl, by simp [threadStackInit, he]⟩
    · have hu' : u ∈ s.sched.allList := by
        have hmem := (congrArg (u ∈ ·) hall).mp hu
        simpa [he] using hmem
      obtain ⟨g, hg, hgin, hgtop⟩ := h.waiting_of_ne u hu' hnr'
      exact ⟨g, by simp [threadStackInit, he, hg], hgin, by simp [threadStackInit, he, hgtop]⟩

lemma ioqLoop_stop_sleep {q : Ioqueue ℕ} {t : ℕ} {c : IoqCall} {point : IoqPoint}
    (h : (ioqLoop q t c).stop = .sleep point) : c.mustWait q = true := by
  cases hw : c.mustWait q with
  | true => rfl
  | false => cases c <;> simp [ioqLoop, hw, ioqFinish, ioqSignal] at h

/-- A resumed call that sleeps again either waited in `mutex_lock`, or finds its test true
after waking the next thread in the mutex. -/
lemma ioqResume_stop_sleep {q : Ioqueue ℕ} {t : ℕ} {c : IoqCall} {point point' : IoqPoint}
    {r : IoqSegment ℕ} (h : ioqResume q t c point = some r) (hstop : r.stop = .sleep point') :
    (point = .inLock ∨ c.mustWait q = true) ∧
      (point = .inWait → ∀ u ∈ q.mtx.sem.waiters.head?, u ∈ r.unblocked) := by
  cases point with
  | inLock => exact ⟨.inl rfl, nofun⟩
  | inWait =>
    obtain ⟨⟨mtx, woken⟩, hu, hr⟩ := Option.bind_eq_some_iff.mp h
    obtain rfl := Option.some.inj hr
    obtain ⟨rfl, _⟩ := mutexUnlock_spec hu
    refine ⟨.inr ?_, fun _ u hm => ?_⟩
    · have hw := ioqLoop_stop_sleep hstop
      cases c <;> exact hw
    · exact List.mem_append_left _ (Option.mem_toList.mpr hm)

lemma OtherQueued.linked (h : OtherQueued s) : ∃ u, u ≠ s.running ∧ s.sched.Linked u := by
  obtain ⟨u, _, hne, hl⟩ := h
  exact ⟨u, hne, hl⟩

/-- One step of the machine keeps one frame for each thread that does not run. -/
lemma FrameInv.step {e : FrameEvent} (h : FrameInv s) (ok : FrameAllowed s e)
    (hs : s.step e = some s') : FrameInv s' := by
  cases e with
  | timer origin =>
    simp only [FrameSystem.step, Option.ite_none_right_eq_some, Option.map_eq_some_iff] at hs
    obtain ⟨⟨hcpu, _⟩, sched, h1, rfl⟩ := hs
    obtain ⟨sched1, h1', hinv1, hall1⟩ := intrTimerHandler_spec h.sched
    obtain rfl : sched1 = sched := Option.some.inj (h1'.symm.trans h1)
    obtain ⟨sched2, h2, hinv2, hall2⟩ := mainSchedule_spec hinv1.toSchedWeak (.inl hinv1.current)
    exact scheduleLoad_spec h2 hinv2 hall2 (fun u hu => hall1 ▸ h.kbdBuf u hu)
      fun u hu => h.intrEntry hcpu origin u (hall1 ▸ hu)
  | keyboard origin char esp =>
    cases char with
    | none =>
      simp only [FrameSystem.step, Option.ite_none_right_eq_some, Option.some.injEq] at hs
      obtain ⟨⟨hcpu, _⟩, rfl⟩ := hs
      obtain ⟨sched2, h2, hinv2, hall2⟩ :=
        mainSchedule_spec h.sched.toSchedWeak (.inl h.sched.current)
      exact scheduleLoad_spec h2 hinv2 hall2 h.kbdBuf (h.intrEntry hcpu origin)
    | some byte =>
      simp only [FrameSystem.step, Option.ite_none_right_eq_some] at hs
      obtain ⟨⟨hcpu, _⟩, hk⟩ := hs
      have hroom : (IoqCall.putchar byte).mustWait s.kbdBuf = false := ok
      have hr : ioqPutchar s.kbdBuf s.running byte = ioqFinish s.kbdBuf (.putchar byte) := by
        simp only [ioqPutchar, ioqLoop, hroom, Bool.false_eq_true, ↓reduceIte]
      have hstop : (ioqPutchar s.kbdBuf s.running byte).stop = .done byte := by
        rw [hr]
        rfl
      exact kbdSegment_handler (s := OsI386.intrEntry s origin) h.sched h.kbdBuf rfl
        (h.intrEntry hcpu origin) (touches_ioqLoop _ _ _) hstop hk
  | call c esp =>
    simp only [FrameSystem.step, Option.ite_none_right_eq_some] at hs
    obtain ⟨⟨hcpu, _⟩, hk⟩ := hs
    refine kbdSegment_thread h hcpu (touches_ioqLoop _ _ _) (fun point hstop => ?_) hk
    obtain ⟨u, hu⟩ := (ok (ioqLoop_stop_sleep hstop)).linked
    exact ⟨u, .inl hu⟩
  | resume esp =>
    cases hpc : s.pc s.running with
    | none => simp [FrameSystem.step, hpc] at hs
    | some cp =>
      obtain ⟨c, point⟩ := cp
      simp only [FrameSystem.step, hpc, Option.ite_none_right_eq_some,
        Option.bind_eq_some_iff] at hs
      obtain ⟨hcpu, r, hr, hk⟩ := hs
      have hcpu' : s.cpu = .thread := by
        rcases h.cpu with hc | hc
        · exact hc
        · simp [hc] at hcpu
      refine kbdSegment_thread h hcpu' (touches_ioqResume hr) (fun point' hstop => ?_) hk
      obtain ⟨hmust, hwoken⟩ := ioqResume_stop_sleep hr hstop
      rcases ok (c, point) (by simp [hpc]) hmust with hq | ⟨hwait, hne⟩
      · obtain ⟨u, hu⟩ := hq.linked
        exact ⟨u, .inl hu⟩
      · obtain ⟨u, us, hus⟩ := List.exists_cons_of_ne_nil hne
        exact ⟨u, .inr (hwoken hwait u (by simp [hus]))⟩
  | block st esp =>
    simp only [FrameSystem.step, Option.ite_none_right_eq_some] at hs
    obtain ⟨⟨⟨hcpu, _⟩, hst⟩, hb⟩ := hs
    obtain ⟨s1, h1, hinv⟩ := blockRunning_spec st esp h.sched h.kbdBuf hcpu (h.current hcpu)
      h.waiting_of_ne hst (OtherQueued.linked ok)
    exact Option.some.inj (h1.symm.trans hb) ▸ hinv
  | unblock t =>
    simp only [FrameSystem.step, Option.ite_none_right_eq_some, Option.map_eq_some_iff] at hs
    obtain ⟨⟨⟨hcpu, _⟩, ht, _⟩, sched, h1, rfl⟩ := hs
    have hfold : [t].foldlM threadUnblock s.sched = some sched := by simp [h1]
    obtain ⟨hinv, hall, hrun, _, _⟩ := unblocked_spec h.sched (by simpa using ht) hfold
    constructor
    case sched => exact hinv
    case kbdBuf => exact fun u hu => hall ▸ h.kbdBuf u hu
    case cpu => exact .inl hcpu
    case current => exact fun _ => by simpa [running, hrun] using h.current hcpu
    case waiting =>
      intro u hu hne
      exact h.waiting_of_ne u (hall ▸ hu) (by simpa [running, hrun] using hne hcpu)
  | threadRun t prio =>
    simp only [FrameSystem.step, Option.ite_none_right_eq_some, Option.map_eq_some_iff] at hs
    obtain ⟨⟨⟨hcpu, _⟩, ht, hp⟩, sched, h1, rfl⟩ := hs
    obtain ⟨sched1, h1', hinv, hall, hrun⟩ := threadRun_spec h.sched ht hp
    obtain rfl : sched1 = sched := Option.some.inj (h1'.symm.trans h1)
    exact h.newThread hcpu ht hinv hall hrun
  | processRun t =>
    simp only [FrameSystem.step, Option.ite_none_right_eq_some, Option.map_eq_some_iff] at hs
    obtain ⟨⟨⟨hcpu, _⟩, ht⟩, sched, h1, rfl⟩ := hs
    obtain ⟨sched1, h1', hinv, hall, hrun⟩ := threadRun_spec h.sched ht
      (show 31 < prioNum by decide)
    obtain rfl : sched1 = sched := Option.some.inj (h1'.symm.trans h1)
    exact h.newThread hcpu ht hinv hall hrun
  | processEntry =>
    simp only [FrameSystem.step, Option.ite_none_right_eq_some, Option.some.injEq] at hs
    obtain ⟨⟨hcpu, _⟩, rfl⟩ := hs
    constructor
    case sched => exact h.sched
    case kbdBuf => exact h.kbdBuf
    case cpu => exact h.cpu
    case current => exact h.current
    case waiting =>
      intro u hu hne
      have hne' : u ≠ s.running := hne hcpu
      obtain ⟨g, hg, hin, htop⟩ := h.waiting_of_ne u hu hne'
      exact ⟨g, hg, hin, by simp [hne', htop]⟩
  | contextLoad => exact h.contextLoad hs

/-- Whenever `context_load` executes, `stack_top` of its thread is the address of the newest
frame of the thread that has not been resumed. -/
theorem frames_resumed_newest_first {boot : ℕ} {page : ℕ → BitVec 8} {garbage : ℕ → Tcb}
    {buf : ℕ → Byte} {sched : Scheduler ℕ} (h₀ : threadAllInit boot page garbage = some sched)
    (h : Reach FrameSystem.step FrameAllowed (FrameSystem.init sched buf) s) :
    ∀ next, s.cpu = .load next →
      ∃ t f rest, next = some t ∧ s.saved t = f :: rest ∧ s.stackTop t = f.address := by
  have hinit : FrameInv (FrameSystem.init sched buf) := by
    obtain ⟨sched1, h1, hinv, hall⟩ := threadAllInit_spec boot page garbage
    obtain rfl : sched1 = sched := Option.some.inj (h1.symm.trans h₀)
    constructor
    case sched => exact hinv
    case kbdBuf =>
      rintro u (hu | ⟨w, hw⟩)
      · simp [FrameSystem.init, ioqueueInit, mutexInit, semInit] at hu
      · cases w <;> simp [FrameSystem.init, ioqueueInit, Ioqueue.waiter] at hw
    case cpu => exact .inl rfl
    case current => exact fun _ => rfl
    case waiting =>
      intro u hu hne
      have hboot : u = boot := by simpa [FrameSystem.init, hall] using hu
      have hrun : sched1.runningThread = boot := by simpa [hall] using hinv.running
      exact absurd (hboot.trans hrun.symm) (hne rfl)
  have hinv : FrameInv s := h.invariant hinit fun _ _ _ hI ok hs => hI.step ok hs
  intro next hload
  rcases hinv.cpu with hcpu | hcpu
  · simp [hload] at hcpu
  · obtain ⟨f, hf, _, htop⟩ := hinv.waiting s.running hinv.sched.running (by simp [hload])
    rw [hload] at hcpu
    exact ⟨s.running, f, [], Cpu.load.inj hcpu, hf, htop⟩

/-- The boot thread at 65536 with an uninitialised mask page and tcbs. -/
def bootSched : Option (Scheduler ℕ) :=
  threadAllInit 65536 (fun _ => 0xff) (fun _ => ⟨0, .died, 0, 0, 0, 0⟩)

/-- A key whose character finds room and no reader waiting, and the return from its interrupt. -/
def keyStored : List FrameEvent := [.keyboard (.kernel 69000) (some 7) 68000, .contextLoad]

def storeKey (q : Ioqueue ℕ) : Ioqueue ℕ := (ioqFinish q (.putchar 7)).q

/-- The interrupt leaves the thread as it was once `stack_top` has the address its frames get. -/
lemma run_keyStored (hfree : s.Free) (hneed : s.sched.needSchedule = false)
    (hcur : s.saved s.running = []) (htop : s.stackTop s.running = 68932)
    (hroom : ioqFull s.kbdBuf = false) (hreader : s.kbdBuf.consumer = none) :
    run FrameSystem.step s keyStored = some { s with kbdBuf := storeKey s.kbdBuf } := by
  obtain ⟨hcpu, hpc⟩ := hfree
  have hmust : (IoqCall.putchar 7).mustWait s.kbdBuf = false := hroom
  have hr : ioqPutchar s.kbdBuf s.sched.runningThread 7 = ⟨storeKey s.kbdBuf, [], .done 7⟩ := by
    rw [ioqPutchar, ioqLoop, hmust]
    simp [storeKey, ioqFinish, ioqSignal, Ioqueue.waiter, hreader]
  have hpc' : s.pc s.sched.runningThread = none := hpc
  have hcur' : s.saved s.sched.runningThread = [] := hcur
  have htop' : s.stackTop s.sched.runningThread = 68932 := htop
  have hpcs : Function.update s.pc s.sched.runningThread none = s.pc := by
    rw [← hpc', Function.update_eq_self]
  have htops : Function.update s.stackTop s.sched.runningThread 68932 = s.stackTop := by
    rw [← htop, running, Function.update_eq_self]
  have hcurs : Function.update s.saved s.sched.runningThread [] = s.saved := by
    rw [← hcur', Function.update_eq_self]
  have hkey : s.step (.keyboard (.kernel 69000) (some 7) 68000) =
      some { s with kbdBuf := storeKey s.kbdBuf, cpu := .load (some s.running),
                    saved := Function.update s.saved s.running [⟨68932, .all, false⟩] } := by
    simp only [FrameSystem.step, Free, running, hcpu, hpc', and_self, ↓reduceIte, intrEntry,
      saveFrame, hr, kbdSegment, List.foldlM_nil, scheduleLoad, mainSchedule, hneed, pure,
      Option.bind_eq_bind, Option.bind_some, hcur', hpcs, Nat.reduceSub, htops,
      Bool.false_eq_true]
  rw [keyStored, run, hkey, Option.bind_some]
  simp [run, FrameSystem.step, running, htop', hcurs, ← hcpu]

/-- Keys fill `kbd_buf` while no one reads. -/
lemma run_keysStored (hfree : s.Free) (hneed : s.sched.needSchedule = false)
    (hcur : s.saved s.running = []) (htop : s.stackTop s.running = 68932) (n : ℕ)
    (hroom : ∀ i < n, ioqFull (storeKey^[i] s.kbdBuf) = false ∧
      (storeKey^[i] s.kbdBuf).consumer = none) :
    run FrameSystem.step s (List.replicate n keyStored).flatten =
      some { s with kbdBuf := storeKey^[n] s.kbdBuf } := by
  induction n generalizing s with
  | zero => rfl
  | succ n ih =>
    obtain ⟨hfull, hreader⟩ := hroom 0 (by omega)
    rw [List.replicate_succ, List.flatten_cons, run_append,
      run_keyStored hfree hneed hcur htop hfull hreader, Option.bind_some]
    exact ih hfree hneed hcur htop fun i hi => hroom (i + 1) (by omega)

/-- The keyboard handler blocks on the full `kbd_buf` on the stack of the boot thread. A second
thread takes a character and blocks; the handler goes on, ends, and the interrupt tail loads
the frame of its `task_trap` once more. -/
def handlerBlocks : List FrameEvent :=
  .threadRun 131072 31 :: keyStored ++ (List.replicate 62 keyStored).flatten ++
    [.keyboard (.kernel 69000) (some 7) 68000, .contextLoad, .call .getchar 139000,
      .block .blocked 139000, .contextLoad, .resume 68000]

theorem stale_frame_loaded :
    ∃ sched s, bootSched = some sched ∧
      run FrameSystem.step (FrameSystem.init sched fun _ => 0) handlerBlocks = some s ∧
      s.cpu = .load (some 65536) ∧ s.saved 65536 = [⟨68932, .all, false⟩] ∧
      s.stackTop 65536 = 67980 := by
  let first := bootSched.bind fun sched => run FrameSystem.step (FrameSystem.init sched fun _ => 0)
    (.threadRun 131072 31 :: keyStored)
  have hfirst : ∀ s ∈ first, s.Free ∧ s.sched.needSchedule = false ∧ s.saved s.running = [] ∧
      s.stackTop s.running = 68932 ∧ ∀ i < 62, ioqFull (storeKey^[i] s.kbdBuf) = false ∧
        (storeKey^[i] s.kbdBuf).consumer = none := by
    decide +kernel
  have hlast : (first.bind fun s => run FrameSystem.step
      { s with kbdBuf := storeKey^[62] s.kbdBuf }
      [.keyboard (.kernel 69000) (some 7) 68000, .contextLoad, .call .getchar 139000,
        .block .blocked 139000, .contextLoad, .resume 68000]).map
      (fun s => (s.cpu, s.saved 65536, s.stackTop 65536)) =
      some (.load (some 65536), [⟨68932, .all, false⟩], 67980) := by
    decide +kernel
  obtain ⟨s, hs, hst⟩ := Option.map_eq_some_iff.mp hlast
  obtain ⟨s1, h1, hr⟩ := Option.bind_eq_some_iff.mp hs
  obtain ⟨sched, hb, hr1⟩ := Option.bind_eq_some_iff.mp h1
  obtain ⟨hfree, hneed, hcur, htop, hroom⟩ := hfirst s1 h1
  simp only [Prod.mk.injEq] at hst
  refine ⟨sched, s, hb, ?_, hst⟩
  rw [handlerBlocks, run_append, run_append, hr1, Option.bind_some,
    run_keysStored hfree hneed hcur htop 62 hroom, Option.bind_some, hr]

/-- Two threads, a timer and a keyboard interrupt, and a reader that waits for the key. -/
def keyAwaited : List FrameEvent :=
  [.threadRun 131072 31, .block .waiting 69000, .contextLoad, .unblock 65536,
    .call .getchar 139000, .contextLoad, .timer .user, .contextLoad,
    .keyboard (.kernel 69000) (some 7) 68000, .contextLoad, .block .waiting 69000]

theorem frames_resumed_newest_first_key_awaited :
    ∃ sched s t f rest, bootSched = some sched ∧
      run FrameSystem.step (FrameSystem.init sched fun _ => 0) keyAwaited = some s ∧
      s.cpu = .load (some t) ∧ s.saved t = f :: rest ∧ s.stackTop t = f.address := by
  have hboot : ∃ sched, bootSched = some sched := by
    obtain ⟨sched, hs, _⟩ := threadAllInit_spec 65536 (fun _ => 0xff) fun _ => ⟨0, .died, 0, 0, 0, 0⟩
    exact ⟨sched, hs⟩
  obtain ⟨sched, hb⟩ := hboot
  have hok : ∀ sched ∈ bootSched, RunAllowed FrameSystem.step FrameAllowed
      (FrameSystem.init sched fun _ => 0) keyAwaited := by
    decide +kernel
  obtain ⟨s, hs, hreach⟩ := (hok sched hb).reach
  have hload : ∀ sched ∈ bootSched, ∀ s ∈ run FrameSystem.step (FrameSystem.init sched fun _ => 0)
      keyAwaited, s.cpu = .load (some 131072) := by
    decide +kernel
  obtain ⟨t, f, rest, ht, hf, htop⟩ :=
    frames_resumed_newest_first hb hreach _ (hload sched hb s hs)
  exact ⟨sched, s, t, f, rest, hb, hs, ht ▸ hload sched hb s hs, hf, htop⟩

end OsI386
