import OsI386.SchedulerRuns
import OsI386.PriorityOrder

/-!
# No runnable thread starves

The measure of a queued thread `t` counts how often the others can still be picked before it:
a thread of a higher level once for each level down to the one of `t`, a thread queued before
`t` on its own level once, or 32 times where its demotion wraps from 31 to 0. Each call of
`main_schedule` with the flag up that does not pick `t` lowers the sum by one.
-/
namespace OsI386
open Scheduler TransitionSystem

variable {T : Type} [DecidableEq T]

/-- The threads of a queue before `t`. -/
def before (t : T) (l : List T) : List T := l.takeWhile fun u => u ≠ t

variable {t u r : T} {l : List T}

lemma mem_of_mem_before (h : u ∈ before t l) : u ∈ l := (List.takeWhile_sublist _).mem h

lemma mem_before_erase (hr : r ≠ t) (hu : u ≠ r) : u ∈ before t (l.erase r) ↔ u ∈ before t l := by
  induction l with
  | nil => rfl
  | cons a l ih =>
    by_cases ha : a = r
    · subst ha
      simp [before, hr, hu]
    · rw [List.erase_cons_tail (by simpa using ha)]
      by_cases hat : a = t
      · simp [before, hat]
      · have hcons : ∀ m, before t (a :: m) = a :: before t m := fun m => by simp [before, hat]
        rw [hcons, hcons, List.mem_cons, List.mem_cons, ih]

lemma before_append (ht : t ∈ l) (m : List T) : before t (l ++ m) = before t l := by
  induction l with
  | nil => simp at ht
  | cons a l ih =>
    by_cases ha : a = t
    · simp [before, ha]
    · have hl := (List.mem_cons.mp ht).resolve_left (Ne.symm ha)
      simpa [before, ha] using ih hl

lemma mem_before_of_head (h : l.head? = some u) (hu : u ≠ t) : u ∈ before t l := by
  cases l with
  | nil => simp at h
  | cons a l =>
    obtain rfl : a = u := by simpa using h
    simp [before, hu]

/-- The threads linked in the ready queues. -/
def queued (s : Scheduler T) : Finset T := ((List.range prioNum).flatMap s.rq).toFinset

lemma mem_queued {s : Scheduler T} : t ∈ queued s ↔ s.Linked t := by
  simp [queued, Linked]

/-- The priority after one more demotion. -/
def demoted (s : Scheduler T) (u : T) : ℕ := ((s.tcb u).priority + 1) % prioNum

/-- How many picks of `u` can come before the next one of `t`. -/
def picksAhead (s : Scheduler T) (t u : T) : ℕ :=
  (s.tcb t).priority - (s.tcb u).priority +
    if u ∈ before t (s.rq (s.tcb t).priority) then if (s.tcb t).priority = 31 then 32 else 1 else 0

/-- The same, for a running thread from its demotion on, and its current turn. -/
def turnsAhead (s : Scheduler T) (t u : T) : ℕ :=
  if u = s.runningThread then 1 + ((s.tcb t).priority - demoted s u) else picksAhead s t u

def turns (s : Scheduler T) (t : T) : ℕ := ∑ u ∈ (queued s).erase t, turnsAhead s t u

variable {s s' : Scheduler T} {Q : T → Prop}

/-- A thread picked instead of `t` uses up one of its picks. -/
lemma picksAhead_pick (h : QueuesOf s Q) (ht : Q t) (hn : FirstQueued s u) (hu : u ≠ t) :
    picksAhead s t u = 1 + ((s.tcb t).priority - demoted s u) := by
  obtain ⟨p, hp, hhead, hlow⟩ := hn
  have hprio := h.prio_eq hp (List.mem_of_mem_head? hhead)
  have htq := (h.mem _ (h.prio t ht) t).mpr ⟨ht, rfl⟩
  have hle : p ≤ (s.tcb t).priority := by
    by_contra hlt
    simp [hlow _ (Nat.lt_of_not_le hlt)] at htq
  have hP := h.prio t ht
  unfold picksAhead demoted
  rw [hprio]
  rcases hle.eq_or_lt with rfl | hlt
  · simp only [mem_before_of_head hhead hu, ↓reduceIte, prioNum] at hP ⊢
    split_ifs <;> omega
  · have hout : u ∉ before t (s.rq (s.tcb t).priority) := fun hm =>
      hlt.ne (hprio.symm.trans (h.prio_eq hP (mem_of_mem_before hm)))
    simp only [hout, ↓reduceIte, prioNum] at hP ⊢
    omega

/-- The demotion: the thread leaves its queue and joins the next one at the end. -/
lemma sliceExpire_eq (hs : sliceExpire s r = some s') :
    (∀ p, s'.rq p = (s.rq p).erase r ++ if p = demoted s r then [r] else []) ∧
      (∀ u, (s'.tcb u).priority = if u = r then demoted s r else (s.tcb u).priority) := by
  have hexp := hs
  obtain ⟨s1, h1, hs⟩ := Option.bind_eq_some_iff.mp hs
  obtain ⟨s3, h3, hs⟩ := Option.bind_eq_some_iff.mp hs
  obtain ⟨hrq1, htcb1⟩ := schedulerRqLeaveOnly_eq h1
  obtain ⟨hrq3, _⟩ := schedulerRqJoinOnly_eq h3
  have hp : ((threadPrioChange s1 r).tcb r).priority = demoted s r := by
    simp [threadPrioChange, setTcb, demoted, htcb1]
  constructor
  · intro p
    simp only [← Option.some.inj hs, setTcb, hrq3, hp, Function.update_apply]
    split_ifs with he
    · simp [he, threadPrioChange, setTcb, hrq1]
    · simp [threadPrioChange, setTcb, hrq1]
  · intro u
    rw [sliceExpire_tcb hexp]
    by_cases he : u = r <;> simp [he, demoted]

/-- The demotion of `r` leaves the other threads' picks before `t` as they are. -/
lemma picksAhead_sliceExpire (hs : sliceExpire s r = some s') (h : QueuesOf s Q) (ht : Q t)
    (hr : r ≠ t) :
    picksAhead s' t u = if u = r then (s.tcb t).priority - demoted s r else picksAhead s t u := by
  obtain ⟨hrq, hprio⟩ := sliceExpire_eq hs
  have hP : (s'.tcb t).priority = (s.tcb t).priority := by rw [hprio t, if_neg hr.symm]
  have htq := (h.mem _ (h.prio t ht) t).mpr ⟨ht, rfl⟩
  have hin : t ∈ (s.rq (s.tcb t).priority).erase r := (List.mem_erase_of_ne hr.symm).mpr htq
  have hbefore : before t (s'.rq (s.tcb t).priority) =
      before t ((s.rq (s.tcb t).priority).erase r) := by rw [hrq, before_append hin]
  unfold picksAhead
  rw [hP, hbefore, hprio u]
  by_cases he : u = r
  · subst he
    have hout : u ∉ before t ((s.rq (s.tcb t).priority).erase u) := fun hm =>
      (h.nodup _ (h.prio t ht)).not_mem_erase (mem_of_mem_before hm)
    simp [hout]
  · simp only [he, ↓reduceIte, mem_before_erase hr he]

lemma picksAhead_congr (hrq : s'.rq = s.rq)
    (hp : ∀ u, (s'.tcb u).priority = (s.tcb u).priority) :
    picksAhead s' t u = picksAhead s t u := by
  simp only [picksAhead, hrq, hp]

lemma turns_congr (hrq : s'.rq = s.rq) (hp : ∀ u, (s'.tcb u).priority = (s.tcb u).priority)
    (hrun : s'.runningThread = s.runningThread) :
    queued s' = queued s ∧ turns s' t = turns s t := by
  have hq : queued s' = queued s := by simp only [queued, hrq]
  refine ⟨hq, ?_⟩
  unfold turns
  rw [hq]
  refine Finset.sum_congr rfl fun u _ => ?_
  simp only [turnsAhead, hrun, picksAhead_congr hrq hp, demoted, hp]

lemma queued_sliceExpire (hs : sliceExpire s r = some s') (hr : s.Linked r) :
    queued s' = queued s := by
  obtain ⟨hrq, _⟩ := sliceExpire_eq hs
  ext u
  rw [mem_queued, mem_queued]
  by_cases he : u = r
  · subst he
    exact iff_of_true ⟨demoted s u, Nat.mod_lt _ (by decide), by simp [hrq]⟩ hr
  · refine exists_congr fun p => and_congr_right fun _ => ?_
    rw [hrq, List.mem_append, List.mem_erase_of_ne he]
    split_ifs <;> simp [he]

/-- A call of `main_schedule` with the flag up runs `t` or uses up one turn. -/
lemma turns_mainSchedule (h : SchedInv s) (hneed : s.needSchedule = true) (ht : s.Linked t)
    (hr : s.runningThread ≠ t) (hs : mainSchedule s = some s') :
    queued s' = queued s ∧ (s'.runningThread = t ∨ turns s' t + 1 = turns s t) := by
  obtain ⟨s1, n, ⟨_, h1⟩ | ⟨hst, _⟩, hn, rfl⟩ := mainSchedule_cases hneed hs
  swap
  · exact absurd h.current hst
  set r := s.runningThread with hrdef
  have h0 : SchedInv { s with needSchedule := false } :=
    h.of_counters rfl rfl rfl rfl rfl fun _ => ⟨rfl, rfl, rfl⟩
  have hrq := (h.queues.linked_iff r).mpr h.running_queued
  have hq1 : queued s1 = queued s :=
    queued_sliceExpire (s := { s with needSchedule := false }) h1 hrq
  obtain ⟨s1', h1', hw, _⟩ := sliceExpire_spec h0
  obtain rfl : s1' = s1 := Option.some.inj (h1'.symm.trans h1)
  have ht1 : s1'.Linked t := mem_queued.mp (hq1 ▸ mem_queued.mpr ht)
  have htq1 := (hw.queues.linked_iff t).mp ht1
  set s2 : Scheduler T :=
    { s1'.setTcb n (fun c => { c with status := .running }) with runningThread := n } with hs2
  have hrq2 : s2.rq = s1'.rq := rfl
  have hp2 : ∀ u, (s2.tcb u).priority = (s1'.tcb u).priority := fun u => by
    by_cases he : u = n <;> simp [hs2, setTcb, he]
  refine ⟨by rw [← hq1]; simp only [queued, hrq2], ?_⟩
  by_cases hnt : n = t
  · exact .inl hnt
  right
  have hafter : ∀ u, turnsAhead s2 t u = picksAhead s1' t u := by
    intro u
    have hrun : s2.runningThread = n := rfl
    unfold turnsAhead
    rw [hrun, picksAhead_congr hrq2 hp2]
    split_ifs with he
    · subst he
      rw [picksAhead_pick hw.queues htq1 (hw.queues.pick_first htq1 hn) hnt]
      simp only [demoted, hp2]
    · rfl
  have hbefore : ∀ u, turnsAhead s t u = picksAhead s1' t u + if u = r then 1 else 0 := by
    intro u
    rw [picksAhead_sliceExpire h1 h0.queues ((h.queues.linked_iff t).mp ht) hr]
    unfold turnsAhead
    rw [← hrdef]
    split_ifs with he
    · subst he
      exact Nat.add_comm _ _
    · rfl
  have hmem : r ∈ (queued s).erase t := Finset.mem_erase.mpr ⟨hr, mem_queued.mpr hrq⟩
  have hq2 : queued s2 = queued s := by rw [← hq1]; simp only [queued, hrq2]
  calc turns s2 t + 1
      = ∑ u ∈ (queued s).erase t, picksAhead s1' t u + 1 := by
        unfold turns
        rw [hq2]
        simp only [hafter]
    _ = turns s t := by
        unfold turns
        simp only [hbefore, Finset.sum_add_distrib, Finset.sum_ite_eq', hmem, ↓reduceIte]

/-- The two things that happen while no thread blocks, unblocks or is created. -/
inductive SliceEvent
  | timer
  | mainSchedule

def sliceStep (s : Scheduler T) : SliceEvent → Option (Scheduler T)
  | .timer => intrTimerHandler s
  | .mainSchedule => OsI386.mainSchedule s

/-- The calls of `main_schedule` in a run that find the flag up. -/
def switches (s : Scheduler T) : List SliceEvent → ℕ
  | [] => 0
  | .timer :: es => (sliceStep s .timer).elim 0 fun s' => switches s' es
  | .mainSchedule :: es =>
    s.needSchedule.toNat + (sliceStep s .mainSchedule).elim 0 fun s' => switches s' es

lemma turns_intrTimerHandler (hs : intrTimerHandler s = some s') :
    s'.runningThread = s.runningThread ∧ queued s' = queued s ∧ turns s' t = turns s t := by
  simp only [intrTimerHandler] at hs
  split_ifs at hs
  all_goals
    obtain rfl := Option.some.inj hs
    refine ⟨rfl, turns_congr rfl (fun u => ?_) rfl⟩
    by_cases he : u = s.runningThread <;> simp [setTcb, he]

lemma turns_pos (h : SchedInv s) (hr : s.runningThread ≠ t) : 0 < turns s t := by
  have hmem : s.runningThread ∈ (queued s).erase t := Finset.mem_erase.mpr
    ⟨hr, mem_queued.mpr ((h.queues.linked_iff _).mpr h.running_queued)⟩
  refine lt_of_lt_of_le ?_ (Finset.single_le_sum (fun _ _ => Nat.zero_le _) hmem)
  simp [turnsAhead]

lemma turns_le (h : SchedInv s) (ht : s.Linked t) : turns s t ≤ 32 * ((queued s).card - 1) := by
  have hle : ∀ u ∈ (queued s).erase t, turnsAhead s t u ≤ 32 := by
    intro u _
    have hP := h.queues.prio t ((h.queues.linked_iff t).mp ht)
    unfold turnsAhead picksAhead
    by_cases hb : u ∈ before t (s.rq (s.tcb t).priority)
    · have hprio := h.queues.prio_eq hP (mem_of_mem_before hb)
      simp only [prioNum] at hP
      split_ifs <;> omega
    · simp only [prioNum] at hP
      split_ifs <;> omega
  calc turns s t
      ≤ ((queued s).erase t).card • 32 := Finset.sum_le_card_nsmul _ _ _ hle
    _ = 32 * ((queued s).card - 1) := by
        rw [Finset.card_erase_of_mem (mem_queued.mpr ht), smul_eq_mul, Nat.mul_comm]

/-- A run with at least as many calls as `t` has turns ahead comes to run `t`. -/
lemma runs_within_turns (h : SchedInv s) (ht : s.Linked t) {es : List SliceEvent}
    (hcalls : turns s t ≤ switches s es) :
    ∃ pre u, pre <+: es ∧ run sliceStep s pre = some u ∧ u.runningThread = t ∧
      switches s pre ≤ turns s t := by
  induction es generalizing s with
  | nil =>
    by_cases hr : s.runningThread = t
    · exact ⟨[], s, List.prefix_rfl, rfl, hr, Nat.zero_le _⟩
    · have hpos := turns_pos h hr
      simp only [switches] at hcalls
      omega
  | cons e es ih =>
    by_cases hr : s.runningThread = t
    · exact ⟨[], s, List.nil_prefix, rfl, hr, Nat.zero_le _⟩
    cases e with
    | timer =>
      obtain ⟨s1, h1, hinv, _⟩ := intrTimerHandler_spec h
      obtain ⟨_, hq, hturns⟩ := turns_intrTimerHandler (t := t) h1
      have hstep : sliceStep s .timer = some s1 := h1
      simp only [switches, hstep, Option.elim_some] at hcalls
      obtain ⟨pre, u, hpre, hrun, hu, hle⟩ := ih hinv (mem_queued.mp (hq ▸ mem_queued.mpr ht))
        (hturns ▸ hcalls)
      refine ⟨.timer :: pre, u, (List.prefix_cons_inj _).mpr hpre, ?_, hu, ?_⟩
      · rw [run, hstep, Option.bind_some, hrun]
      · simpa only [switches, hstep, Option.elim_some, ← hturns] using hle
    | mainSchedule =>
      obtain ⟨s1, h1, hinv, _⟩ := mainSchedule_spec h.toSchedWeak (.inl h.current)
      have hstep : sliceStep s .mainSchedule = some s1 := h1
      simp only [switches, hstep, Option.elim_some] at hcalls
      have hcase : queued s1 = queued s ∧ (s.needSchedule = true ∧ s1.runningThread = t ∨
          turns s1 t + s.needSchedule.toNat = turns s t) := by
        cases hneed : s.needSchedule with
        | false =>
          obtain rfl : s = s1 := by simpa [OsI386.mainSchedule, hneed] using h1
          exact ⟨rfl, .inr rfl⟩
        | true =>
          obtain ⟨hq, hnow | hturn⟩ := turns_mainSchedule h hneed ht hr h1
          · exact ⟨hq, .inl ⟨rfl, hnow⟩⟩
          · exact ⟨hq, .inr hturn⟩
      obtain ⟨hq, ⟨hneed, hnow⟩ | hturn⟩ := hcase
      · refine ⟨[.mainSchedule], s1, by simp, by simp [run, hstep], hnow, ?_⟩
        simpa [switches, hstep, hneed] using Nat.succ_le_of_lt (turns_pos h hr)
      · obtain ⟨pre, u, hpre, hrun, hu, hle⟩ := ih hinv
          (mem_queued.mp (hq ▸ mem_queued.mpr ht)) (by omega)
        refine ⟨.mainSchedule :: pre, u, (List.prefix_cons_inj _).mpr hpre, ?_, hu, ?_⟩
        · rw [run, hstep, Option.bind_some, hrun]
        · simp only [switches, hstep, Option.elim_some]
          omega

/-- With `n` threads queued, none created and none blocking or unblocking, each of them is the
running thread after at most `32 * (n - 1)` calls of `main_schedule` that find the flag up. -/
theorem no_starvation (h : SchedInv s) (ht : s.Linked t) {es : List SliceEvent}
    (hcalls : 32 * ((queued s).card - 1) ≤ switches s es) :
    ∃ pre u, pre <+: es ∧ run sliceStep s pre = some u ∧ u.runningThread = t ∧
      switches s pre ≤ 32 * ((queued s).card - 1) := by
  have hle := turns_le h ht
  obtain ⟨pre, u, hpre, hrun, hu, hcount⟩ := runs_within_turns h ht (hle.trans hcalls)
  exact ⟨pre, u, hpre, hrun, hu, hcount.trans hle⟩

/-- A slice ends: timer interrupts run the ticks down and raise the flag. -/
lemma exists_switches_succ {k n : ℕ} (hk : ∀ s : Scheduler T, SchedInv s → ∃ es, k ≤ switches s es)
    (h : SchedInv s) (hn : (s.tcb s.runningThread).ticks.toNat = n) :
    ∃ es, k + 1 ≤ switches s es := by
  induction n generalizing s with
  | zero =>
    obtain ⟨s1, h1, hinv1, _⟩ := intrTimerHandler_spec h
    obtain ⟨s2, h2, hinv2, _⟩ := mainSchedule_spec hinv1.toSchedWeak (.inl hinv1.current)
    have hneed : s1.needSchedule = true := by
      have hzero : (s.tcb s.runningThread).ticks = 0 := BitVec.eq_of_toNat_eq hn
      simp [intrTimerHandler, (h.tcbs _ h.running).magic, setTcb, hzero] at h1
      simp [← h1]
    obtain ⟨es, hes⟩ := hk s2 hinv2
    refine ⟨.timer :: .mainSchedule :: es, ?_⟩
    simp only [switches, sliceStep, h1, h2, hneed, Option.elim_some, Bool.toNat_true]
    omega
  | succ n ih =>
    obtain ⟨s1, h1, hinv1, _⟩ := intrTimerHandler_spec h
    have hticks : (s1.tcb s1.runningThread).ticks.toNat = n := by
      have hne : ¬ (s.tcb s.runningThread).ticks = 0 := fun he => by simp [he] at hn
      simp only [intrTimerHandler, (h.tcbs _ h.running).magic, ↓reduceIte, setTcb,
        Function.update_self, hne, Option.some.injEq] at h1
      have hlt := (s.tcb s.runningThread).ticks.isLt
      have hone : (1 : BitVec 32).toNat = 1 := rfl
      simp only [← h1, Function.update_self, BitVec.toNat_sub, hone]
      omega
    obtain ⟨es, hes⟩ := ih hinv1 hticks
    exact ⟨.timer :: es, by simpa only [switches, sliceStep, h1, Option.elim_some] using hes⟩

/-- There are runs with as many such calls as one likes. -/
lemma exists_switches (h : SchedInv s) (k : ℕ) : ∃ es, k ≤ switches s es := by
  induction k generalizing s with
  | zero => exact ⟨[], Nat.zero_le _⟩
  | succ k ih => exact exists_switches_succ (fun _ h => ih h) h rfl

/-- The theorem with the idle thread and one more thread queued. -/
theorem no_starvation_two_queued :
    ∃ (s : Scheduler ℕ) (es : List SliceEvent), (queued s).card = 2 ∧ s.runningThread = 0 ∧
      ∃ pre u, pre <+: es ∧ run sliceStep s pre = some u ∧ u.runningThread = 1 ∧
        switches s pre ≤ 32 * ((queued s).card - 1) := by
  obtain ⟨s₀, h₀, hi₀, hall₀⟩ := threadAllInit_spec (0 : ℕ) (fun _ => 0xff)
    (fun _ => ⟨0, .died, 0, 0, 0, 0⟩)
  have hf : (1 : ℕ) ∉ s₀.allList := by simp [hall₀]
  obtain ⟨s, h1, hi, _⟩ := threadRun_spec hi₀ hf (show 8 < prioNum by decide)
  have hd : ((threadAllInit (0 : ℕ) (fun _ => 0xff) (fun _ => ⟨0, .died, 0, 0, 0, 0⟩)).bind
      (threadRun · 1 8)).map (fun s => ((queued s).card, s.runningThread, decide (s.Linked 1))) =
      some (2, 0, true) := by decide
  rw [h₀, Option.bind_some, h1, Option.map_some] at hd
  simp only [Option.some.injEq, Prod.mk.injEq, decide_eq_true_eq] at hd
  obtain ⟨hcard, hrun, hlinked⟩ := hd
  obtain ⟨es, hes⟩ := exists_switches hi (32 * ((queued s).card - 1))
  exact ⟨s, es, hcard, hrun, no_starvation hi hlinked hes⟩

end OsI386
