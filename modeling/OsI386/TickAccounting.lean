import OsI386.PidTable
import OsI386.TimeSlices

/-!
# Every tick is accounted for

The timer counts all interrupts in `ticks` and those of each thread in its `elapsed_ticks`. No
other operation writes a counter, but the creation of a thread, which clears its own.
-/
namespace OsI386
open Scheduler TransitionSystem

variable {T : Type} [DecidableEq T] {s s' s1 s₀ : Scheduler T} {t u : T} {e : SchedEvent T}
  {es : List (SchedEvent T)}

def Scheduler.elapsed (s : Scheduler T) (t : T) : BitVec 32 := (s.tcb t).elapsedTicks

structure SameClocks (s s' : Scheduler T) : Prop where
  elapsed : s'.elapsed = s.elapsed
  ticks : s'.ticks = s.ticks

section Clocks

omit [DecidableEq T] in
lemma SameClocks.trans {s'' : Scheduler T} (h : SameClocks s s') (g : SameClocks s' s'') :
    SameClocks s s'' := ⟨g.elapsed.trans h.elapsed, g.ticks.trans h.ticks⟩

lemma elapsed_setTcb (s : Scheduler T) (t : T) (f : Tcb → Tcb) :
    (s.setTcb t f).elapsed = Function.update s.elapsed t (f (s.tcb t)).elapsedTicks := by
  funext u
  by_cases hu : u = t
  · subst hu
    simp [Scheduler.elapsed, setTcb]
  · simp [Scheduler.elapsed, setTcb, hu]

lemma sameClocks_setTcb (s : Scheduler T) (t : T) {f : Tcb → Tcb}
    (hf : (f (s.tcb t)).elapsedTicks = (s.tcb t).elapsedTicks) : SameClocks s (s.setTcb t f) := by
  refine ⟨?_, rfl⟩
  rw [elapsed_setTcb, hf]
  exact Function.update_eq_self t s.elapsed

lemma sameClocks_setStatus (s : Scheduler T) (t : T) (st : TaskStatus) :
    SameClocks s (s.setTcb t fun c => { c with status := st }) := sameClocks_setTcb s t rfl

lemma schedulerRqInsert_clocks {link : List T → List T}
    (hs : schedulerRqInsert s t link = some s') : SameClocks s s' := by
  simp only [schedulerRqInsert] at hs
  split_ifs at hs
  exact Option.some.inj hs ▸ ⟨rfl, rfl⟩

/-- `scheduler_rq_join` and `scheduler_rq_jump`. -/
lemma linked_clocks {link : List T → List T}
    (hs : (schedulerRqInsert s t link).map (preemptCheck · t) = some s') : SameClocks s s' := by
  obtain ⟨s1, h1, rfl⟩ := Option.map_eq_some_iff.mp hs
  refine (schedulerRqInsert_clocks h1).trans ?_
  unfold preemptCheck
  split_ifs <;> exact ⟨rfl, rfl⟩

lemma schedulerRqLeaveOnly_clocks (hs : schedulerRqLeaveOnly s t = some s') : SameClocks s s' := by
  simp only [schedulerRqLeaveOnly] at hs
  split_ifs at hs <;> exact Option.some.inj hs ▸ ⟨rfl, rfl⟩

lemma sliceExpire_clocks (hs : sliceExpire s t = some s') : SameClocks s s' := by
  obtain ⟨s1, h1, hs⟩ := Option.bind_eq_some_iff.mp hs
  obtain ⟨s3, h3, hs⟩ := Option.bind_eq_some_iff.mp hs
  obtain rfl := Option.some.inj hs
  have hdemote : SameClocks s1 (threadPrioChange s1 t) := sameClocks_setTcb s1 t rfl
  refine (schedulerRqLeaveOnly_clocks h1).trans (hdemote.trans ?_)
  refine (schedulerRqInsert_clocks h3).trans ?_
  exact (sameClocks_setTcb s3 t rfl).trans (sameClocks_setTcb _ t rfl)

lemma mainSchedule_clocks (hs : mainSchedule s = some s') : SameClocks s s' := by
  by_cases hneed : s.needSchedule = true
  · have hswitch : ∀ (x : Scheduler T) n, SameClocks x
        { x.setTcb n (fun c => { c with status := .running }) with runningThread := n } :=
      fun x n => ⟨(sameClocks_setStatus x n .running).elapsed, rfl⟩
    obtain ⟨s1, n, ⟨-, h1⟩ | ⟨-, rfl⟩, -, rfl⟩ := mainSchedule_cases hneed hs
    · have hexpire := sliceExpire_clocks h1
      exact SameClocks.trans ⟨hexpire.elapsed, hexpire.ticks⟩ (hswitch s1 n)
    · have hend := hswitch { s with needSchedule := false } n
      exact ⟨hend.elapsed, hend.ticks⟩
  · simp only [mainSchedule, hneed] at hs
    exact Option.some.inj hs ▸ ⟨rfl, rfl⟩

lemma threadBlock_clocks {st : TaskStatus} (hs : threadBlock s st = some s') : SameClocks s s' := by
  obtain ⟨s1, h1, hs⟩ := Option.bind_eq_some_iff.mp hs
  have hsleep : SameClocks s s1 := by
    unfold threadSleep at h1
    split_ifs at h1
    obtain ⟨s2, h2, rfl⟩ := Option.map_eq_some_iff.mp h1
    refine (sameClocks_setStatus s s.runningThread st).trans ?_
    refine (schedulerRqLeaveOnly_clocks h2).trans ?_
    split_ifs <;> exact ⟨rfl, rfl⟩
  refine hsleep.trans ?_
  unfold schedule at hs
  split_ifs at hs
  · exact mainSchedule_clocks hs
  · exact Option.some.inj hs ▸ ⟨rfl, rfl⟩

lemma threadUnblock_clocks (hs : threadUnblock s t = some s') : SameClocks s s' := by
  unfold threadUnblock at hs
  split_ifs at hs
  exact (sameClocks_setStatus s t .ready).trans (linked_clocks hs)

/-- The handler counts the interrupt twice: for all and for the running thread. -/
lemma intrTimerHandler_clocks (hs : intrTimerHandler s = some s') :
    s'.elapsed = Function.update s.elapsed s.runningThread (s.elapsed s.runningThread + 1) ∧
      s'.ticks = s.ticks + 1 := by
  have hcount := elapsed_setTcb s s.runningThread fun c =>
    { c with elapsedTicks := c.elapsedTicks + 1 }
  simp only [intrTimerHandler] at hs
  split_ifs at hs
  · exact Option.some.inj hs ▸ ⟨hcount, rfl⟩
  · obtain rfl := Option.some.inj hs
    exact ⟨(sameClocks_setTcb _ _ rfl).elapsed.trans hcount, rfl⟩

lemma threadTcbInit_clocks (s : Scheduler T) (t : T) (prio : ℕ) :
    (threadTcbInit s t prio).elapsed = Function.update s.elapsed t 0 ∧
      (threadTcbInit s t prio).ticks = s.ticks := by
  unfold threadTcbInit pidAlloc
  simp only [setTcb]
  split <;> refine ⟨?_, rfl⟩ <;> funext u <;> by_cases hu : u = t
  · subst hu
    simp [Scheduler.elapsed]
  · simp [Scheduler.elapsed, hu]
  · subst hu
    simp [Scheduler.elapsed]
  · simp [Scheduler.elapsed, hu]

lemma threadRun_clocks {prio : ℕ} (hs : threadRun s t prio = some s') :
    s'.elapsed = Function.update s.elapsed t 0 ∧ s'.ticks = s.ticks := by
  obtain ⟨s1, h1, hs⟩ := Option.bind_eq_some_iff.mp hs
  have hinit := threadTcbInit_clocks s t prio
  have hjoin := linked_clocks h1
  unfold allListPushBack at hs
  split_ifs at hs
  obtain rfl := Option.some.inj hs
  exact ⟨hjoin.elapsed.trans hinit.1, hjoin.ticks.trans hinit.2⟩

end Clocks

section Steps

/-- The interrupts a step adds to the counter of `t`. -/
def turn (s : Scheduler T) (e : SchedEvent T) (t : T) : ℕ :=
  if e.Ticks ∧ s.runningThread = t then 1 else 0

/-- What a step does to the counters. -/
structure Counts (s s' : Scheduler T) (e : SchedEvent T) : Prop where
  ticks : s'.ticks = s.ticks + BitVec.ofNat 32 (if e.Ticks then 1 else 0)
  known : ∀ t ∈ s.allList, s'.elapsed t = s.elapsed t + BitVec.ofNat 32 (turn s e t)
  fresh : ∀ t ∈ s'.allList, t ∉ s.allList → s'.elapsed t = 0

lemma SameClocks.counts (h : SameClocks s s') (he : e.Ticks = false) (hall : s'.allList = s.allList) :
    Counts s s' e where
  ticks := by simp [he, h.ticks]
  known t _ := by simp [turn, he, h.elapsed]
  fresh t ht hn := absurd (hall ▸ ht) hn

lemma Created.counts {prio : ℕ} (hc : Created s s' u prio) (he : e.Ticks = false)
    (h : s'.elapsed = Function.update s.elapsed u 0 ∧ s'.ticks = s.ticks) : Counts s s' e where
  ticks := by simp [he, h.2]
  known t ht := by
    have hne : t ≠ u := fun hu => hc.fresh (hu ▸ ht)
    simp [turn, he, h.1, hne]
  fresh t ht hn := by
    rw [hc.allList] at ht
    obtain rfl := List.mem_singleton.mp ((List.mem_append.mp ht).resolve_left hn)
    rw [h.1, Function.update_self]

lemma counts_step (hs : schedStep s e = some s') : Counts s s' e := by
  cases e with
  | threadRun u prio => exact (threadRun_records hs).counts rfl (threadRun_clocks hs)
  | processRun u =>
    have hs' : threadRun s u 31 = some s' := hs
    exact (processRun_records hs).counts rfl (threadRun_clocks hs')
  | threadBlock st => exact (threadBlock_clocks hs).counts rfl (threadBlock_records hs).1
  | threadUnblock u => exact (threadUnblock_clocks hs).counts rfl (threadUnblock_records hs).1.allList
  | mainSchedule => exact (mainSchedule_clocks hs).counts rfl (mainSchedule_records hs).1
  | timerInterrupt =>
    obtain ⟨s1, h1, hs⟩ := Option.bind_eq_some_iff.mp hs
    obtain ⟨helapsed, hticks⟩ := intrTimerHandler_clocks h1
    have hsame := mainSchedule_clocks hs
    have hall : s'.allList = s.allList :=
      (mainSchedule_records hs).1.trans (intrTimerHandler_records h1).1.allList
    refine ⟨hsame.ticks.trans hticks, fun t _ => ?_, fun t ht hn => absurd (hall ▸ ht) hn⟩
    rw [hsame.elapsed, helapsed, turn]
    by_cases ht : s.runningThread = t
    · subst ht
      simp [SchedEvent.Ticks]
    · simp [SchedEvent.Ticks, Function.update_of_ne (Ne.symm ht), ht]

/-- By induction on the run; a thread that is not there yet is not running. -/
lemma elapsed_run (h : SchedInv s) (hes : RunAllowed schedStep Known s es)
    (hs : run schedStep s es = some s') : s'.ticks = s.ticks + BitVec.ofNat 32 (es.countP (·.Ticks)) ∧
      ∀ t ∈ s'.allList, s'.elapsed t =
        (if t ∈ s.allList then s.elapsed t else 0) + BitVec.ofNat 32 (timerTurns t s es) := by
  induction es generalizing s with
  | nil =>
    obtain rfl := Option.some.inj hs
    exact ⟨by simp, fun t ht => by simp [ht, timerTurns]⟩
  | cons e es ih =>
    obtain ⟨hk, s1, hs1, hrest⟩ := hes
    have hs2 : run schedStep s1 es = some s' := by simpa [run, hs1] using hs
    obtain ⟨hticks, helapsed⟩ := ih (schedInv_known h hk hs1) hrest hs2
    have hcounts := counts_step hs1
    constructor
    · rw [hticks, hcounts.ticks, add_assoc, ← BitVec.ofNat_add, List.countP_cons,
        Nat.add_comm (List.countP _ es)]
    · intro t ht
      have hturns : timerTurns t s (e :: es) = turn s e t + timerTurns t s1 es := by
        simp only [timerTurns, hs1, turn]
      rw [helapsed t ht, hturns, BitVec.ofNat_add, ← add_assoc]
      congr 1
      by_cases hold : t ∈ s.allList
      · have hmem : t ∈ s1.allList := by
          rcases schedStep_allList hs1 with hall | ⟨u, prio, hc⟩
          · exact hall ▸ hold
          · rw [hc.allList]
            exact List.mem_append_left _ hold
        rw [if_pos hmem, if_pos hold, hcounts.known t hold]
      · have hnot : turn s e t = 0 := by
          rw [turn, if_neg]
          rintro ⟨-, hr⟩
          exact hold (hr ▸ h.running)
        rw [if_neg hold, hnot]
        split_ifs with hmem
        · exact hcounts.fresh t hmem hold
        · rfl

/-- An entry of a list without repetitions is counted once. -/
lemma sum_map_turn {l : List T} (hl : l.Nodup) (f : T → BitVec 32) :
    (l.map fun t => f t + BitVec.ofNat 32 (turn s e t)).sum =
      (l.map f).sum + BitVec.ofNat 32 (if e.Ticks ∧ s.runningThread ∈ l then 1 else 0) := by
  induction l with
  | nil => simp
  | cons a l ih =>
    obtain ⟨ha, hl⟩ := List.nodup_cons.mp hl
    rw [List.map_cons, List.sum_cons, ih hl, List.map_cons, List.sum_cons, add_add_add_comm,
      ← BitVec.ofNat_add]
    congr 2
    by_cases hr : s.runningThread = a
    · simp [turn, hr, ha]
    · simp [turn, hr]

/-- `ticks` is the sum of what the threads have used. -/
def Balanced (s : Scheduler T) : Prop :=
  s.allList.Nodup ∧ (s.allList.map s.elapsed).sum = s.ticks

lemma balanced_step (h : SchedInv s) (hb : Balanced s) (hs : schedStep s e = some s') :
    Balanced s' := by
  have hc := counts_step hs
  have hold : (s.allList.map s'.elapsed).sum = s'.ticks := by
    have hmap : s.allList.map s'.elapsed =
        s.allList.map fun t => s.elapsed t + BitVec.ofNat 32 (turn s e t) :=
      List.map_congr_left hc.known
    have hrun : (e.Ticks = true ∧ s.runningThread ∈ s.allList) ↔ e.Ticks = true :=
      and_iff_left h.running
    rw [hmap, sum_map_turn hb.1, hb.2, hc.ticks]
    simp only [hrun]
  rcases schedStep_allList hs with hall | ⟨u, prio, hnew⟩
  · rw [Balanced, hall]
    exact ⟨hb.1, hold⟩
  · have hu : s'.elapsed u = 0 := hc.fresh u (by simp [hnew.allList]) hnew.fresh
    rw [Balanced, hnew.allList]
    refine ⟨List.nodup_append.mpr ⟨hb.1, List.nodup_singleton u, ?_⟩, ?_⟩
    · intro a ha b hbmem hab
      exact hnew.fresh (List.mem_singleton.mp hbmem ▸ hab ▸ ha)
    · rw [List.map_append, List.sum_append, hold]
      simp [hu]

end Steps

variable {boot : T} {page : ℕ → BitVec 8} {garbage : T → Tcb}

lemma threadAllInit_clocks (h₀ : threadAllInit boot page garbage = some s₀) :
    s₀.elapsed boot = 0 ∧ s₀.ticks = 0 := by
  obtain ⟨helapsed, hticks⟩ := threadRun_clocks (threadRun_of_threadAllInit h₀)
  exact ⟨by rw [helapsed, Function.update_self], hticks⟩

lemma balanced_reach (h₀ : threadAllInit boot page garbage = some s₀)
    (h : Reach schedStep Known s₀ s) : SchedInv s ∧ Balanced s := by
  obtain ⟨s1, h1, hinv, hall⟩ := threadAllInit_spec boot page garbage
  obtain rfl : s1 = s₀ := Option.some.inj (h1.symm.trans h₀)
  obtain ⟨helapsed, hticks⟩ := threadAllInit_clocks h₀
  refine h.invariant (I := fun s => SchedInv s ∧ Balanced s) ⟨hinv, ?_⟩
    fun _ _ _ hI hk hs => ⟨schedInv_known hI.1 hk hs, balanced_step hI.1 hI.2 hs⟩
  rw [Balanced, hall]
  exact ⟨List.nodup_singleton boot, by simp [helapsed, hticks]⟩

/-- After any run, `ticks` is the number of timer interrupts, the `elapsed_ticks` of each thread are
those that found it running, and these add up to `ticks`; all as 32-bit numbers. -/
theorem ticks_accounted (h₀ : threadAllInit boot page garbage = some s₀)
    (hes : RunAllowed schedStep Known s₀ es) :
    ∃ s, run schedStep s₀ es = some s ∧ s.ticks = BitVec.ofNat 32 (es.countP (·.Ticks)) ∧
      (∀ t ∈ s.allList, (s.tcb t).elapsedTicks = BitVec.ofNat 32 (timerTurns t s₀ es)) ∧
      (s.allList.map fun t => (s.tcb t).elapsedTicks).sum = s.ticks := by
  obtain ⟨s, hs, hreach⟩ := RunAllowed.reach hes
  obtain ⟨hinv, -⟩ := balanced_reach h₀ .refl
  obtain ⟨helapsed₀, hticks₀⟩ := threadAllInit_clocks h₀
  obtain ⟨hticks, helapsed⟩ := elapsed_run hinv hes hs
  refine ⟨s, hs, by rw [hticks, hticks₀, zero_add], fun t ht => ?_, (balanced_reach h₀ hreach).2.2⟩
  have hall : s₀.allList = [boot] := (threadAllInit_records h₀).allList
  have ht' : s.elapsed t = _ := helapsed t ht
  rw [hall] at ht'
  split_ifs at ht' with hmem
  · obtain rfl := List.mem_singleton.mp hmem
    rwa [helapsed₀, zero_add] at ht'
  · rwa [zero_add] at ht'

/-- Three interrupts find the idle thread running. The third switches to a new thread with
priority 0, and the next one finds that. -/
theorem ticks_accounted_two : ∃ s₀ s : Scheduler ℕ,
    threadAllInit 0 (fun _ => 0xff) (fun _ => ⟨0, .died, 0, 0, 0, 0⟩) = some s₀ ∧
      run schedStep s₀ [.timerInterrupt, .timerInterrupt, .threadRun 1 0, .timerInterrupt,
        .timerInterrupt] = some s ∧
      s.allList = [0, 1] ∧ s.ticks = 4 ∧ (s.tcb 0).elapsedTicks = 3 ∧ (s.tcb 1).elapsedTicks = 1 ∧
      (s.allList.map fun t => (s.tcb t).elapsedTicks).sum = s.ticks := by
  let es : List (SchedEvent ℕ) :=
    [.timerInterrupt, .timerInterrupt, .threadRun 1 0, .timerInterrupt, .timerInterrupt]
  have hd : (threadAllInit (0 : ℕ) (fun _ => 0xff) (fun _ => ⟨0, .died, 0, 0, 0, 0⟩)).map
      (fun s => decide (timerTurns 0 s es = 3 ∧ timerTurns 1 s es = 1 ∧
        (run schedStep s es).map (·.allList) = some [0, 1] ∧
        RunAllowed schedStep (fun _ e => e.Ticks ∨ e.Creates) s es)) = some true := by decide +kernel
  obtain ⟨s₀, h₀, hend⟩ := Option.map_eq_some_iff.mp hd
  obtain ⟨hzero, hone, hall, hes⟩ := of_decide_eq_true hend
  have hknown : RunAllowed schedStep Known s₀ es := by
    refine hes.imp (J := fun _ => True) trivial fun s e t _ ok _ => ⟨trivial, ?_⟩
    rintro u rfl
    rcases ok with ok | ok <;> cases ok
  obtain ⟨s, hs, hticks, helapsed, hsum⟩ := ticks_accounted h₀ hknown
  rw [hs, Option.map_some, Option.some_inj] at hall
  refine ⟨s₀, s, h₀, hs, hall, hticks, ?_, ?_, hsum⟩
  · rw [helapsed 0 (by simp [hall]), hzero]
    rfl
  · rw [helapsed 1 (by simp [hall]), hone]
    rfl

end OsI386
