import OsI386.SyncSections
import OsI386.PriorityOrder

/-!
# Who is woken

The records of mutexes and queues agree with the statuses in every reachable state. Hence the
threads `sem_up` and `ioq_signal` wake are blocked and in no ready queue.
-/
namespace OsI386
open Scheduler TransitionSystem SyncSystem

variable {T M Q : Type} [DecidableEq Q] {s s' : SyncSystem T M Q} {t : T}

variable [DecidableEq T] [DecidableEq M]

section Sched

variable {σ σ' : Scheduler T}

/-- Each `thread_unblock` in turn finds a blocked thread that is in no ready queue, and its
assertions hold. -/
def UnblocksSound : Scheduler T → List T → Prop
  | _, [] => True
  | σ, u :: us => (σ.tcb u).status = .blocked ∧ ¬ σ.Linked u ∧
      ∃ σ', threadUnblock σ u = some σ' ∧ UnblocksSound σ' us

/-- `thread_unblock` makes the thread ready and touches no other. -/
lemma threadUnblock_tcb {u : T} (hs : threadUnblock σ u = some σ') :
    σ'.tcb = Function.update σ.tcb u { σ.tcb u with status := .ready } := by
  obtain ⟨_, hs⟩ := Option.ite_none_right_eq_some.mp hs
  exact (schedulerRqInsert_eq hs).tcb

lemma unblocks_spec {us : List T} (h : SchedInv σ) (hnd : us.Nodup)
    (hus : ∀ u ∈ us, u ∈ σ.allList ∧ (σ.tcb u).status = .blocked) :
    UnblocksSound σ us ∧ ∃ σ', us.foldlM threadUnblock σ = some σ' ∧ SchedInv σ' ∧
      σ'.allList = σ.allList ∧ σ'.runningThread = σ.runningThread ∧
      ∀ u, (σ'.tcb u).status = if u ∈ us then .ready else (σ.tcb u).status := by
  induction us generalizing σ with
  | nil => exact ⟨trivial, σ, rfl, h, rfl, rfl, by simp⟩
  | cons a us ih =>
    rw [List.nodup_cons] at hnd
    obtain ⟨hmem, hst⟩ := hus a (by simp)
    have hsl : (σ.tcb a).status.Sleeping := .inl hst
    have hlink : ¬ σ.Linked a := fun hl =>
      hsl.not_runnable ((h.queues.linked_iff a).mp hl).2
    obtain ⟨σ1, h1, hinv, hall, hrun, _⟩ := threadUnblock_spec h hmem hsl
    have htcb := threadUnblock_tcb h1
    obtain ⟨hsound, σ2, h2, hinv2, hall2, hrun2, hst2⟩ := ih hinv hnd.2 fun u hu => by
      have hne : u ≠ a := fun he => hnd.1 (he ▸ hu)
      rw [hall, htcb, Function.update_of_ne hne]
      exact hus u (by simp [hu])
    refine ⟨⟨hst, hlink, σ1, h1, hsound⟩, σ2, ?_, hinv2, hall2.trans hall, hrun2.trans hrun, ?_⟩
    · simp [h1, h2]
    · intro u
      rw [hst2, htcb]
      by_cases he : u = a
      · subst he
        simp [hnd.1]
      · simp [he]

/-- A switch puts no thread to sleep and wakes none. -/
lemma mainSchedule_result (h : SchedWeak σ) (hs : mainSchedule σ = some σ')
    (hcur : (σ.tcb σ.runningThread).status = .running ∨ σ.needSchedule = true) :
    SchedInv σ' ∧ σ'.allList = σ.allList ∧ ∀ u, ∀ st : TaskStatus, ¬ st.Runnable →
      ((σ'.tcb u).status = st ↔ (σ.tcb u).status = st) := by
  by_cases hneed : σ.needSchedule = true
  swap
  · have hst := hcur.resolve_right hneed
    obtain ⟨σ1, h1, hinv, hall⟩ := mainSchedule_spec h (.inl hst)
    obtain rfl : σ1 = σ' := Option.some.inj (h1.symm.trans hs)
    obtain rfl : σ = σ1 := by simpa [mainSchedule, hneed] using hs
    exact ⟨hinv, hall, fun u st _ => Iff.rfl⟩
  obtain ⟨σ1, n, hcase, hn, rfl⟩ := mainSchedule_cases hneed hs
  have hkey : SchedWeak σ1 ∧ σ1.allList = σ.allList ∧ ∀ u, ∀ st : TaskStatus, ¬ st.Runnable →
      ((σ1.tcb u).status = st ↔ (σ.tcb u).status = st) := by
    rcases hcase with ⟨hst, h1⟩ | ⟨_, rfl⟩
    · have h0 : SchedInv { σ with needSchedule := false } :=
        SchedInv.of_counters ⟨h, hst⟩ rfl rfl rfl rfl rfl fun _ => ⟨rfl, rfl, rfl⟩
      obtain ⟨σ2, h2, hw, hall, _⟩ := sliceExpire_spec h0
      obtain rfl : σ2 = σ1 := Option.some.inj (h2.symm.trans h1)
      refine ⟨hw, hall, fun u st hn => ?_⟩
      rw [sliceExpire_tcb h1]
      by_cases he : u = σ.runningThread
      · subst he
        have h1 : .ready ≠ st := fun he => hn (he ▸ runnable_ready)
        have h2 : .running ≠ st := fun he => hn (he ▸ runnable_running)
        simp [hst, h1, h2]
      · simp [he]
    · exact ⟨⟨h.queues.of_tcb rfl rfl fun _ _ => rfl, h.tcbs, h.running, h.idle, h.only⟩, rfl,
        fun u st _ => Iff.rfl⟩
  obtain ⟨hw, hall, hsame⟩ := hkey
  obtain ⟨hmem, hrun⟩ := (hw.queues.linked_iff n).mp (linked_of_nextThreadPick hn)
  have hnext : (σ.tcb σ.runningThread).status = .running ∨
      σ.needSchedule = true ∧ ∃ t ∈ σ.allList, (σ.tcb t).status.Runnable := by
    rcases hcase with ⟨hst, _⟩ | ⟨_, rfl⟩
    · exact .inl hst
    · exact .inr ⟨hneed, n, hmem, hrun⟩
  obtain ⟨σ2, h2, hinv, hall2⟩ := mainSchedule_spec h hnext
  obtain rfl := Option.some.inj (h2.symm.trans hs)
  refine ⟨hinv, hall2, fun u st hst => ?_⟩
  rw [← hsame u st hst]
  by_cases he : u = n
  · subst he
    have h1 : .running ≠ st := fun he => hst (he ▸ runnable_running)
    have h2 : (σ1.tcb u).status ≠ st := fun he => hst (he ▸ hrun)
    simp [setTcb, h1, h2]
  · simp [setTcb, he]

/-- The timer handler leaves every status as it is. -/
lemma intrTimerHandler_status (hs : intrTimerHandler σ = some σ') (u : T) :
    (σ'.tcb u).status = (σ.tcb u).status := by
  simp only [intrTimerHandler] at hs
  split_ifs at hs
  all_goals
    obtain rfl := Option.some.inj hs
    by_cases he : u = σ.runningThread <;> simp [setTcb, he]

/-- The existing threads are as before when a new one is created. -/
lemma threadRun_tcb {prio : ℕ} (hs : threadRun σ t prio = some σ') {u : T} (hu : u ≠ t) :
    σ'.tcb u = σ.tcb u := by
  have hi := threadTcbInit_spec σ t prio
  obtain ⟨σ1, h1, hpush⟩ := Option.bind_eq_some_iff.mp hs
  obtain ⟨_, hpush⟩ := Option.ite_none_left_eq_some.mp hpush
  rw [← Option.some.inj hpush, (schedulerRqInsert_eq h1).tcb, hi.other u hu]

end Sched

/-- The threads, the mutexes and the queues agree. After a lost pick no thread is running. -/
structure SyncInv (s : SyncSystem T M Q) : Prop where
  weak : SchedWeak s.sched
  current : s.lost = false → (s.sched.tcb s.running).status = .running
  calls : CallsOk s s.Asleep

omit [DecidableEq T] [DecidableEq M] in
lemma SyncInv.schedInv (h : SyncInv s) (hl : s.lost = false) : SchedInv s.sched :=
  ⟨h.weak, h.current hl⟩

omit [DecidableEq T] [DecidableEq M] in
lemma SyncInv.awake (h : SyncInv s) (hl : s.lost = false) : ¬ s.Asleep s.running := by
  intro ha
  have hrun := h.current hl
  rw [show (s.sched.tcb s.running).status = .blocked from ha] at hrun
  cases hrun

omit [DecidableEq M] in
/-- A call of `main_schedule` after which no record of a mutex or queue changes. -/
lemma SyncInv.switch {σ : Scheduler T} (hw : SchedWeak σ) (hall : σ.allList = s.sched.allList)
    (hcur : (σ.tcb σ.runningThread).status = .running ∨ σ.needSchedule = true)
    (hcalls : CallsOk s fun u => (σ.tcb u).status = .blocked) : SyncInv (s.switch σ) := by
  unfold SyncSystem.switch
  cases hs : OsI386.mainSchedule σ with
  | none =>
    exact ⟨hw, by simp, hcalls.of_sched (hall ▸ fun _ h => h)⟩
  | some σ' =>
    obtain ⟨hinv, hall', hsame⟩ := mainSchedule_result hw hs hcur
    refine ⟨hinv.toSchedWeak, fun _ => hinv.current, ?_⟩
    have hnext : CallsOk { s with sched := σ' } fun u => (σ.tcb u).status = .blocked :=
      hcalls.of_sched (b := s.lost) (hall' ▸ hall ▸ fun _ h => h)
    exact hnext.congr fun u _ => hsame u .blocked (by simp [TaskStatus.Runnable])

omit [DecidableEq M] in
/-- A sound section can be executed and keeps the invariant. -/
lemma SyncInv.execute (h : SyncInv s) (hl : s.lost = false) {r : SyncSegment T M Q}
    (hr : SectionOk s s.Asleep r) :
    UnblocksSound s.sched r.unblocked ∧ ∃ s', s.execute r = some s' ∧ SyncInv s' := by
  have hus : ∀ u ∈ r.unblocked, u ∈ s.sched.allList ∧ (s.sched.tcb u).status = .blocked :=
    fun u hu => ⟨h.calls.created u (hr.wakes u hu).2, (hr.wakes u hu).1⟩
  obtain ⟨hsound, σ, h1, hinv, hall, hrun, hst⟩ := unblocks_spec (h.schedInv hl) hr.nodup hus
  refine ⟨hsound, ?_⟩
  have hblocked : ∀ u, (σ.tcb u).status = .blocked ↔ s.Asleep u ∧ u ∉ r.unblocked := by
    intro u
    rw [hst u]
    by_cases hu : u ∈ r.unblocked <;> simp [hu, Asleep]
  have hallr : σ.allList = r.next.sched.allList := by rw [hall, hr.sched]
  cases hsl : r.sleep with
  | none =>
    refine ⟨{ r.next with sched := σ }, by simp [SyncSystem.execute, h1, hsl], hinv.toSchedWeak,
      fun _ => hinv.current, ?_⟩
    have hnext := hr.next.of_sched (σ := σ) (b := r.next.lost) (hallr ▸ fun _ h => h)
    refine hnext.congr fun u _ => (hblocked u).trans ?_
    simp [hsl]
  | some st =>
    have hsleeping : st.Sleeping := by
      rcases hr.sleep st hsl with rfl | ⟨hs, _⟩
      · exact .inl rfl
      · exact hs
    obtain ⟨σ1, h2, hw, hneed, hall1, hrun1, hself, hother⟩ := threadSleep_spec hinv hsleeping
    refine ⟨r.next.switch σ1, by simp [SyncSystem.execute, h1, hsl, h2], ?_⟩
    apply SyncInv.switch hw (hall1.trans hallr) (.inr hneed)
    refine hr.next.congr fun u hu => ?_
    by_cases he : u = s.running
    · subst he
      have hcur : σ.runningThread = s.running := hrun
      rw [hcur] at hself
      rw [hself]
      rcases hr.sleep st hsl with rfl | ⟨_, hnot⟩
      · simp [hsl]
      · exact absurd hu hnot
    · rw [hother u (by rw [hrun]; exact he), hblocked u]
      simp [he]

/-- Every section the running thread may execute is sound. -/
lemma SyncInv.segment (h : SyncInv s) (hl : s.lost = false) {e : SyncEvent T M Q}
    {r : SyncSegment T M Q} (hr : s.segment e = some r) : SectionOk s s.Asleep r := by
  have hrun := h.awake hl
  have hmem : s.running ∈ s.sched.allList := h.weak.running
  cases e with
  | lock m =>
    obtain ⟨hfree, hr⟩ := Option.ite_none_right_eq_some.mp hr
    obtain rfl := Option.some.inj hr
    exact h.calls.lockSegment hrun hmem hfree.1 (by simp [hfree.2])
  | unlock m =>
    obtain ⟨hfree, hr⟩ := Option.ite_none_right_eq_some.mp hr
    exact h.calls.unlockSegment hrun hmem hfree hr
  | setHolder =>
    simp only [SyncSystem.segment] at hr
    split at hr
    · rename_i m hioq hpc
      obtain rfl := Option.some.inj hr
      exact h.calls.holderSegment _ hrun hmem hioq (by simp [hpc])
    · simp at hr
  | clearHolder =>
    simp only [SyncSystem.segment] at hr
    split at hr
    · rename_i m hioq hpc
      obtain rfl := Option.some.inj hr
      exact h.calls.holderSegment _ hrun hmem hioq (by simp [hpc])
    · simp at hr
  | ioqCall q c =>
    obtain ⟨⟨hioq, hdown⟩, hr⟩ := Option.ite_none_right_eq_some.mp hr
    obtain rfl := Option.some.inj hr
    have hcall : ∀ q', s.callOn q' s.running = none := fun q' => by simp [callOn, hioq]
    have hpc : ∀ m, s.mutexPc s.running ≠ .inDown m := by
      intro m hm
      simp [inDown, hm] at hdown
    exact h.calls.ioqSegment hmem (fun q' _ => hcall q') hpc
      ((h.calls.ioq q).segment_loop hrun (hcall q) c)
  | resume =>
    simp only [SyncSystem.segment] at hr
    split at hr
    · rename_i q c point hioq
      obtain ⟨r', hr', rfl⟩ := Option.map_eq_some_iff.mp hr
      have hcall : s.callOn q s.running = some (c, point) := by simp [callOn, hioq]
      obtain ⟨r2, h2, hseg⟩ := (h.calls.ioq q).segment_resume hrun hcall
      obtain rfl : r2 = r' := Option.some.inj (h2.symm.trans hr')
      refine h.calls.ioqSegment hmem (fun q' hq => by simp [callOn, hioq, Ne.symm hq]) ?_ hseg
      intro m hm
      simp [h.calls.apart _ m hm] at hioq
    · rename_i m hioq hpc
      obtain rfl := Option.some.inj hr
      refine h.calls.lockSegment hrun hmem hioq fun n hn => ?_
      rw [hpc] at hn
      exact (MutexPc.inDown.inj hn).symm
    · simp at hr
  | block st =>
    obtain ⟨⟨⟨hioq, hpc⟩, hst⟩, hr⟩ := Option.ite_none_right_eq_some.mp hr
    obtain rfl := Option.some.inj hr
    have hnot : ¬ s.InCall s.running := by simp [InCall, hioq, hpc]
    refine ⟨List.nodup_nil, by simp, ?_, ?_, rfl, rfl⟩
    · refine h.calls.congr fun u hu => ?_
      have hne : u ≠ s.running := fun he => hnot (he ▸ hu)
      simp [hne]
    · intro st' hst'
      obtain rfl := Option.some.inj hst'
      exact .inr ⟨hst, hnot⟩
  | unblock t => simp [SyncSystem.segment] at hr
  | threadRun t prio => simp [SyncSystem.segment] at hr
  | timer => simp [SyncSystem.segment] at hr
  | mainSchedule => simp [SyncSystem.segment] at hr

/-- One step of the running thread, the timer or the handler's tail. -/
lemma SyncInv.step (h : SyncInv s) {e : SyncEvent T M Q} (hs : s.step e = some s') : SyncInv s' := by
  obtain ⟨hl, hs⟩ := Option.ite_none_left_eq_some.mp hs
  have hl : s.lost = false := by simpa using hl
  have hinv := h.schedInv hl
  have hsection : (s.segment e).bind s.execute = some s' → SyncInv s' := by
    intro hs
    obtain ⟨r, hr, hs⟩ := Option.bind_eq_some_iff.mp hs
    obtain ⟨_, s1, h1, hinv1⟩ := h.execute hl (h.segment hl hr)
    exact Option.some.inj (h1.symm.trans hs) ▸ hinv1
  cases e with
  | unblock t =>
    obtain ⟨⟨_, hmem, hioq, hdown⟩, hs⟩ := Option.ite_none_right_eq_some.mp hs
    obtain ⟨σ, h1, rfl⟩ := Option.map_eq_some_iff.mp hs
    have hsl : (s.sched.tcb t).status.Sleeping := (Option.ite_none_right_eq_some.mp h1).1
    obtain ⟨σ', h2, hinv', hall, _⟩ := threadUnblock_spec hinv hmem hsl
    obtain rfl : σ' = σ := Option.some.inj (h2.symm.trans h1)
    refine ⟨hinv'.toSchedWeak, fun _ => hinv'.current, ?_⟩
    have hnext := h.calls.of_sched (σ := σ') (b := s.lost) (hall ▸ fun _ h => h)
    refine hnext.congr fun u hu => ?_
    have hne : u ≠ t := by
      rintro rfl
      rcases hu with hu | ⟨m, hm⟩
      · exact hu hioq
      · have hm : s.mutexPc u = .inDown m := hm
        simp [inDown, hm] at hdown
    simp [Asleep, threadUnblock_tcb h1, hne]
  | threadRun t prio =>
    obtain ⟨⟨_, hnew⟩, hs⟩ := Option.ite_none_right_eq_some.mp hs
    obtain ⟨σ, h1, rfl⟩ := Option.map_eq_some_iff.mp hs
    have ok := schedAllowed_of_taken hinv (e := .threadRun t prio) (by simp) h1
    obtain ⟨σ', h2, hinv', hall, _⟩ := threadRun_spec hinv ok.1 ok.2
    obtain rfl : σ' = σ := Option.some.inj (h2.symm.trans h1)
    refine ⟨hinv'.toSchedWeak, fun _ => hinv'.current, ?_⟩
    have hnext := h.calls.of_sched (σ := σ') (b := s.lost)
      (fun u hu => by rw [hall]; exact List.mem_append_left _ hu)
    refine hnext.congr fun u hu => ?_
    have hne : u ≠ t := fun he => hnew (he ▸ h.calls.created u hu)
    simp [Asleep, threadRun_tcb h1 hne]
  | timer =>
    obtain ⟨_, hs⟩ := Option.ite_none_right_eq_some.mp hs
    obtain ⟨σ, h1, rfl⟩ := Option.map_eq_some_iff.mp hs
    obtain ⟨σ', h2, hinv', hall⟩ := intrTimerHandler_spec hinv
    obtain rfl : σ' = σ := Option.some.inj (h2.symm.trans h1)
    apply SyncInv.switch hinv'.toSchedWeak hall (.inl hinv'.current)
    exact h.calls.congr fun u _ => by simp [Asleep, intrTimerHandler_status h1]
  | mainSchedule =>
    obtain ⟨_, hs⟩ := Option.ite_none_right_eq_some.mp hs
    obtain rfl := Option.some.inj hs
    exact SyncInv.switch h.weak rfl (.inl hinv.current) h.calls
  | lock m => exact hsection hs
  | setHolder => exact hsection hs
  | unlock m => exact hsection hs
  | clearHolder => exact hsection hs
  | ioqCall q c => exact hsection hs
  | resume => exact hsection hs
  | block st => exact hsection hs

omit [DecidableEq T] [DecidableEq M] in
lemma SyncInv.init {σ : Scheduler T} (h : SchedInv σ) (buf : Q → ℕ → Byte) :
    SyncInv (SyncSystem.init (M := M) σ buf) := by
  refine ⟨h.toSchedWeak, fun _ => h.current, ?_⟩
  constructor
  case created => simp [SyncSystem.init, InCall]
  case apart => simp [SyncSystem.init]
  case nodup => simp [SyncSystem.init, mutexInit, semInit]
  case waiters => simp [SyncSystem.init, mutexInit, semInit]
  case ioq =>
    intro q
    constructor
    case nodup => simp [SyncSystem.init, ioqueueInit, mutexInit, semInit]
    case waiters => simp [SyncSystem.init, ioqueueInit, mutexInit, semInit, callOn]
    case slot =>
      intro w t hw
      cases w <;> simp [SyncSystem.init, ioqueueInit, Ioqueue.waiter] at hw
    case mutex => exact .inl ⟨rfl, by simp [SyncSystem.init, callOn]⟩

lemma reach_syncInv {boot : T} {page : ℕ → BitVec 8} {garbage : T → Tcb} {σ₀ : Scheduler T}
    {buf : Q → ℕ → Byte} (h₀ : threadAllInit boot page garbage = some σ₀)
    (h : Reach SyncSystem.step (fun _ _ => True) (SyncSystem.init (M := M) σ₀ buf) s) :
    SyncInv s := by
  obtain ⟨σ, h1, hinv, _⟩ := threadAllInit_spec boot page garbage
  obtain rfl : σ = σ₀ := Option.some.inj (h1.symm.trans h₀)
  exact h.invariant (SyncInv.init hinv buf) fun _ _ _ hI _ hs => hI.step hs

/-- In every interleaving the threads a section wakes are blocked and in no ready queue when
`thread_unblock` is called for them, no thread is in the ready queues twice, and an ioqueue has
at most one registered thread, which is blocked and holds the queue's mutex. -/
theorem wakeups_sound {boot : T} {page : ℕ → BitVec 8} {garbage : T → Tcb} {σ₀ : Scheduler T}
    {buf : Q → ℕ → Byte} (h₀ : threadAllInit boot page garbage = some σ₀)
    (h : Reach SyncSystem.step (fun _ _ => True) (SyncSystem.init (M := M) σ₀ buf) s) :
    (s.lost = false → ∀ e r, s.segment e = some r →
      UnblocksSound s.sched r.unblocked ∧ ∃ s', s.execute r = some s') ∧
    (∀ p < prioNum, (s.sched.rq p).Nodup ∧
      ∀ p' < prioNum, ∀ t ∈ s.sched.rq p, t ∈ s.sched.rq p' → p = p') ∧
    ∀ q, ((s.ioq q).producer = none ∨ (s.ioq q).consumer = none) ∧
      ∀ w t, (s.ioq q).waiter w = some t →
        s.Asleep t ∧ (s.ioq q).mtx.holder = some t ∧ (s.ioq q).mtx.sem.val = 0 := by
  have hinv := reach_syncInv h₀ h
  refine ⟨fun hl e r hr => ?_, fun p hp => ⟨hinv.weak.queues.nodup p hp, ?_⟩, fun q => ⟨?_, ?_⟩⟩
  · obtain ⟨hsound, s', hs, _⟩ := hinv.execute hl (hinv.segment hl hr)
    exact ⟨hsound, s', hs⟩
  · intro p' hp' t ht ht'
    exact (hinv.weak.queues.prio_eq hp ht).symm.trans (hinv.weak.queues.prio_eq hp' ht')
  · cases hprod : (s.ioq q).producer with
    | none => exact .inl rfl
    | some t =>
      right
      have hone := ((hinv.calls.ioq q).registered (w := .producer) hprod).2.2.2
      cases hcons : (s.ioq q).consumer with
      | none => rfl
      | some u => exact absurd (hone .consumer u hcons) (by simp)
  · intro w t hw
    obtain ⟨hb, hh, hv, _⟩ := (hinv.calls.ioq q).registered hw
    exact ⟨hb, hh, hv⟩

/-- The boot thread 0 with one mutex and one queue. -/
def bootSync : Option (SyncSystem ℕ Unit Unit) :=
  (threadAllInit 0 (fun _ => 0xff) fun _ => ⟨0, .died, 0, 0, 0, 0⟩).map
    fun σ => SyncSystem.init σ fun _ _ => 0

/-- The boot thread sleeps in `ioq_getchar`, and the byte thread 1 stores wakes it. -/
theorem wakeups_sound_getchar :
    ∃ (s : SyncSystem ℕ Unit Unit) (r : SyncSegment ℕ Unit Unit),
      bootSync.bind (fun s₀ => run SyncSystem.step s₀ [.threadRun 1 8, .ioqCall () .getchar]) =
        some s ∧ s.running = 1 ∧ s.segment (.ioqCall () (.putchar 7)) = some r ∧
      r.unblocked = [0] ∧ UnblocksSound s.sched r.unblocked := by
  obtain ⟨σ₀, h₀, _⟩ := threadAllInit_spec (0 : ℕ) (fun _ => 0xff) fun _ => ⟨0, .died, 0, 0, 0, 0⟩
  have hboot : bootSync = some (SyncSystem.init σ₀ fun _ _ => 0) := by
    rw [bootSync, h₀, Option.map_some]
  have hd : ((bootSync.bind fun s₀ => run SyncSystem.step s₀
      [.threadRun 1 8, .ioqCall () .getchar]).bind fun s =>
        (s.segment (.ioqCall () (.putchar 7))).map fun r => (s.lost, s.running, r.unblocked)) =
      some (false, 1, [0]) := by decide
  obtain ⟨s, hs, hr⟩ := Option.bind_eq_some_iff.mp hd
  obtain ⟨r, hr, he⟩ := Option.map_eq_some_iff.mp hr
  simp only [Prod.mk.injEq] at he
  obtain ⟨hl, hrun, hus⟩ := he
  have hreach := hs
  rw [hboot, Option.bind_some] at hreach
  exact ⟨s, r, hs, hrun, hr, hus,
    ((wakeups_sound h₀ (Reach.of_run hreach)).1 hl _ r hr).1⟩

end OsI386
