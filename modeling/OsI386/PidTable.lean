import OsI386.ThreadRecords

/-!
# The pids

`pid_alloc` gives the threads the numbers of their creation while `thread_table` has a free slot.
After that it stores nothing, and the thread keeps the 0 of its cleared tcb.
-/
namespace OsI386
open Scheduler TransitionSystem

variable {T : Type} [DecidableEq T] {s s' : Scheduler T} {t : T}

/-- In the order of creation. -/
structure PidInv (s : Scheduler T) : Prop where
  nodup : s.allList.Nodup
  pid : ∀ i t, s.allList[i]? = some t → (s.slice t).pid = if i < maxThreadNum then i else 0
  taken : ∀ i t, s.allList[i]? = some t → i < maxThreadNum → s.threadTable i = some t
  free : ∀ i, s.allList.length ≤ i → i < maxThreadNum → s.threadTable i = none

omit [DecidableEq T] in
lemma PidInv.freePid (h : PidInv s) :
    freePid s = if s.allList.length < maxThreadNum then some s.allList.length else none := by
  have htaken : ∀ i < s.allList.length, i < maxThreadNum → (s.threadTable i).isNone = false := by
    intro i hi hlt
    rw [h.taken i s.allList[i] (List.getElem?_eq_getElem hi) hlt]
    rfl
  split_ifs with hlt
  · refine List.find?_range_eq_some.mpr ⟨?_, List.mem_range.mpr hlt, fun i hi => ?_⟩
    · rw [h.free _ le_rfl hlt]
      rfl
    · rw [htaken i hi (hi.trans hlt)]
      rfl
  · refine List.find?_range_eq_none.mpr fun i hi => ?_
    rw [htaken i (by omega) hi]
    rfl

omit [DecidableEq T] in
/-- Nothing but a creation writes a pid. -/
lemma PidInv.same (h : PidInv s) (hall : s'.allList = s.allList)
    (htable : s'.threadTable = s.threadTable) (hpid : ∀ u, (s'.slice u).pid = (s.slice u).pid) :
    PidInv s' where
  nodup := hall ▸ h.nodup
  pid i t ht := (hpid t).trans (h.pid i t (hall ▸ ht))
  taken i t ht hi := by
    rw [htable]
    exact h.taken i t (hall ▸ ht) hi
  free i hle hi := by
    rw [htable]
    exact h.free i (hall ▸ hle) hi

lemma PidInv.create (h : PidInv s) {prio : ℕ} (hc : Created s s' t prio) : PidInv s' := by
  have hsplit : ∀ i u, s'.allList[i]? = some u →
      s.allList[i]? = some u ∧ u ≠ t ∧ i < s.allList.length ∨ i = s.allList.length ∧ u = t := by
    intro i u hu
    rw [hc.allList] at hu
    rcases Nat.lt_trichotomy i s.allList.length with hi | hi | hi
    · rw [List.getElem?_append_left hi] at hu
      refine .inl ⟨hu, ?_, hi⟩
      rintro rfl
      exact hc.fresh (List.mem_of_getElem? hu)
    · subst hi
      rw [List.getElem?_append_right le_rfl, Nat.sub_self] at hu
      exact .inr ⟨rfl, (Option.some.inj hu).symm⟩
    · rw [List.getElem?_append_right hi.le] at hu
      have hnone : ([t] : List T)[i - s.allList.length]? = none := List.getElem?_eq_none (by simp; omega)
      rw [hnone] at hu
      cases hu
  have hslot := hc.threadTable
  have hpid := hc.slice
  rw [h.freePid] at hslot hpid
  refine ⟨?_, fun i u hu => ?_, fun i u hu hi => ?_, fun i hle hi => ?_⟩
  · rw [hc.allList]
    exact List.Nodup.append h.nodup (List.nodup_singleton t) (by simpa using hc.fresh)
  · rw [hpid]
    rcases hsplit i u hu with ⟨hu, hne, -⟩ | ⟨rfl, rfl⟩
    · rw [Function.update_of_ne hne]
      exact h.pid i u hu
    · rw [Function.update_self]
      split_ifs <;> rfl
  · rcases hsplit i u hu with ⟨hu, -, hlt⟩ | ⟨rfl, rfl⟩
    · rw [hslot]
      split_ifs with hfull
      · exact (Function.update_of_ne hlt.ne _ _).trans (h.taken i u hu hi)
      · exact h.taken i u hu hi
    · rw [hslot, if_pos hi]
      exact Function.update_self _ _ _
  · rw [hc.allList, List.length_append, List.length_singleton] at hle
    rw [hslot, if_pos (by omega)]
    exact (Function.update_of_ne (by omega) _ _).trans (h.free i (by omega) hi)

/-- A call of `thread_run` or of `process_run`. -/
def SchedEvent.Creates : SchedEvent T → Bool
  | .threadRun _ _ => true
  | .processRun _ => true
  | _ => false

omit [DecidableEq T] in
lemma pid_demote (c : Slice) : c.demote.pid = c.pid := rfl

omit [DecidableEq T] in
lemma pid_tick (c : Slice) : c.tick.pid = c.pid := by
  unfold Slice.tick
  split_ifs <;> rfl

/-- Writing a slice with the same pid. -/
lemma pid_update {f : T → Slice} {c : Slice} (hc : c.pid = (f t).pid) (u : T) :
    (Function.update f t c u).pid = (f u).pid := by
  by_cases hu : u = t
  · rw [hu, Function.update_self, hc]
  · rw [Function.update_of_ne hu]

lemma pid_mainSchedule (hs : mainSchedule s = some s') (u : T) :
    (s'.slice u).pid = (s.slice u).pid := by
  rw [(mainSchedule_records hs).2.2]
  split_ifs
  · exact pid_update (pid_demote _) u
  · rfl

lemma PidInv.step (h : PidInv s) {e : SchedEvent T} (hs : schedStep s e = some s') :
    PidInv s' ∧ s'.allList.length = s.allList.length + if e.Creates then 1 else 0 := by
  have hnew : ∀ t prio, Created s s' t prio →
      PidInv s' ∧ s'.allList.length = s.allList.length + 1 := fun t prio hc => by
    refine ⟨h.create hc, ?_⟩
    rw [hc.allList, List.length_append, List.length_singleton]
  cases e with
  | threadRun t prio => exact hnew t prio (threadRun_records hs)
  | processRun t => exact hnew t 31 (processRun_records hs)
  | threadBlock st =>
    obtain ⟨hall, htable, hslice⟩ := threadBlock_records hs
    exact ⟨h.same hall htable fun u => by rw [hslice], by rw [hall]; rfl⟩
  | threadUnblock t =>
    obtain ⟨hsame, hslice⟩ := threadUnblock_records hs
    exact ⟨h.same hsame.allList hsame.threadTable fun u => by rw [hslice], by rw [hsame.allList]; rfl⟩
  | timerInterrupt =>
    obtain ⟨s1, h1, hs⟩ := Option.bind_eq_some_iff.mp hs
    obtain ⟨hsame, hslice, -⟩ := intrTimerHandler_records h1
    obtain ⟨hall, htable, -⟩ := mainSchedule_records hs
    refine ⟨h.same (hall.trans hsame.allList) (htable.trans hsame.threadTable) fun u => ?_, ?_⟩
    · rw [pid_mainSchedule hs, hslice]
      exact pid_update (pid_tick _) u
    · rw [hall, hsame.allList]
      rfl
  | mainSchedule =>
    obtain ⟨hall, htable, -⟩ := mainSchedule_records hs
    exact ⟨h.same hall htable (pid_mainSchedule hs), by rw [hall]; rfl⟩

lemma PidInv.run (h : PidInv s) {es : List (SchedEvent T)} (hs : run schedStep s es = some s') :
    PidInv s' ∧ s'.allList.length = s.allList.length + es.countP (·.Creates) := by
  induction es generalizing s with
  | nil =>
    cases hs
    exact ⟨h, rfl⟩
  | cons e es ih =>
    obtain ⟨s1, h1, hs⟩ := Option.bind_eq_some_iff.mp hs
    obtain ⟨hinv, hlen⟩ := h.step h1
    obtain ⟨hinv', hlen'⟩ := ih hinv hs
    refine ⟨hinv', ?_⟩
    rw [hlen', hlen, List.countP_cons]
    omega

/-- The idle thread is created first. -/
lemma PidInv.init {boot : T} {page : ℕ → BitVec 8} {garbage : T → Tcb} {s₀ : Scheduler T}
    (h₀ : threadAllInit boot page garbage = some s₀) : PidInv s₀ ∧ s₀.allList = [boot] := by
  have hempty : PidInv (schedulerInit boot page garbage) :=
    ⟨List.nodup_nil, fun i t ht => by simp [schedulerInit] at ht,
      fun i t ht => by simp [schedulerInit] at ht, fun _ _ _ => rfl⟩
  have hc := threadAllInit_records h₀
  exact ⟨hempty.create hc, hc.allList⟩

/-- No two threads have a pid in common, and `thread_table` leads from the pid to the thread. -/
def DistinctPids (s : Scheduler T) : Prop :=
  (∀ t ∈ s.allList, ∀ u ∈ s.allList, (s.tcb t).pid = (s.tcb u).pid → t = u) ∧
    ∀ t ∈ s.allList, s.threadTable (s.tcb t).pid = some t

omit [DecidableEq T] in
lemma PidInv.distinct_iff (h : PidInv s) :
    DistinctPids s ↔ s.allList.length ≤ maxThreadNum := by
  constructor
  · rintro ⟨hinj, -⟩
    by_contra hgt
    have hlt : maxThreadNum < s.allList.length := Nat.lt_of_not_le hgt
    have h0 : 0 < s.allList.length := (Nat.zero_le _).trans_lt hlt
    have hlate := h.pid maxThreadNum _ (List.getElem?_eq_getElem hlt)
    have hfirst := h.pid 0 _ (List.getElem?_eq_getElem h0)
    have heq := hinj _ (List.getElem_mem hlt) _ (List.getElem_mem h0)
      (hlate.trans (hfirst.trans rfl).symm)
    have hidx := (List.Nodup.getElem_inj_iff h.nodup).mp heq
    cases hidx
  · intro hle
    have hpid : ∀ t ∈ s.allList, ∃ i, s.allList[i]? = some t ∧ i < maxThreadNum ∧
        (s.tcb t).pid = i := by
      intro t ht
      obtain ⟨i, hi, rfl⟩ := List.mem_iff_getElem.mp ht
      have hlt : i < maxThreadNum := hi.trans_le hle
      exact ⟨i, List.getElem?_eq_getElem hi, hlt,
        (h.pid i _ (List.getElem?_eq_getElem hi)).trans (if_pos hlt)⟩
    refine ⟨fun t ht u hu heq => ?_, fun t ht => ?_⟩
    · obtain ⟨i, hi, -, hti⟩ := hpid t ht
      obtain ⟨j, hj, -, huj⟩ := hpid u hu
      obtain rfl : i = j := hti.symm.trans (heq.trans huj)
      exact Option.some.inj (hi.symm.trans hj)
    · obtain ⟨i, hi, hlt, hti⟩ := hpid t ht
      rw [hti]
      exact h.taken i t hi hlt

/-- Calls of `thread_run`, each with a fresh page. -/
def createThreads (n : ℕ) : List (SchedEvent ℕ) := (List.range n).map fun i => .threadRun (i + 1) 8

lemma countP_createThreads (n : ℕ) : (createThreads n).countP (·.Creates) = n := by
  rw [createThreads, List.countP_map]
  exact (List.countP_eq_length.mpr fun _ _ => rfl).trans List.length_range

lemma run_createThreads {s₀ : Scheduler ℕ} (h : SchedInv s₀) (hall : s₀.allList = [0]) (n : ℕ) :
    ∃ s, run schedStep s₀ (createThreads n) = some s ∧ SchedInv s ∧ ∀ t ∈ s.allList, t ≤ n := by
  induction n with
  | zero => exact ⟨s₀, rfl, h, by simp [hall]⟩
  | succ n ih =>
    obtain ⟨s, hs, hinv, hle⟩ := ih
    have hfresh : n + 1 ∉ s.allList := fun hmem => absurd (hle _ hmem) (by omega)
    obtain ⟨s', hs', hinv', hall', -⟩ := threadRun_spec hinv hfresh (show 8 < prioNum by decide)
    refine ⟨s', ?_, hinv', fun t ht => ?_⟩
    · rw [createThreads, List.range_succ, List.map_append, run_append]
      change (run schedStep s₀ (createThreads n)).bind _ = _
      rw [hs, Option.bind_some]
      change (threadRun s (n + 1) 8).bind _ = _
      rw [hs']
      rfl
    · rw [hall'] at ht
      rcases List.mem_append.mp ht with ht | ht
      · exact (hle t ht).trans n.le_succ
      · exact (List.mem_singleton.mp ht).le

/-- The threads are told apart by their pids as long as at most 127 were created beside the idle
thread, which is number 0; each thread from the 128th on has the pid of the idle thread. -/
theorem pids_distinct_iff {boot : T} {page : ℕ → BitVec 8} {garbage : T → Tcb} {s₀ s : Scheduler T}
    {es : List (SchedEvent T)} (h₀ : threadAllInit boot page garbage = some s₀)
    (h : run schedStep s₀ es = some s) :
    (DistinctPids s ↔ es.countP (·.Creates) ≤ 127) ∧
      ∀ i t, s.allList[i]? = some t → (s.tcb t).pid = if i < 128 then i else 0 := by
  obtain ⟨hinit, hboot⟩ := PidInv.init h₀
  obtain ⟨hinv, hlen⟩ := hinit.run h
  rw [hboot, List.length_singleton] at hlen
  refine ⟨?_, hinv.pid⟩
  rw [hinv.distinct_iff, hlen]
  change 1 + _ ≤ 128 ↔ _
  omega

theorem pids_distinct_iff_three : ∃ s₀ s : Scheduler ℕ,
    threadAllInit 0 (fun _ => 0xff) (fun _ => ⟨0, .died, 0, 0, 0, 0⟩) = some s₀ ∧
      run schedStep s₀ (createThreads 3) = some s ∧ DistinctPids s := by
  obtain ⟨s₀, h₀, hinv, hall⟩ := threadAllInit_spec (0 : ℕ) (fun _ => 0xff)
    (fun _ => ⟨0, .died, 0, 0, 0, 0⟩)
  obtain ⟨s, hs, -⟩ := run_createThreads hinv hall 3
  exact ⟨s₀, s, h₀, hs, (pids_distinct_iff h₀ hs).1.mpr (by decide)⟩

/-- The 128th thread gets no slot. -/
theorem pids_not_distinct : ∃ s₀ s : Scheduler ℕ,
    threadAllInit 0 (fun _ => 0xff) (fun _ => ⟨0, .died, 0, 0, 0, 0⟩) = some s₀ ∧
      run schedStep s₀ (createThreads 128) = some s ∧ ¬ DistinctPids s := by
  obtain ⟨s₀, h₀, hinv, hall⟩ := threadAllInit_spec (0 : ℕ) (fun _ => 0xff)
    (fun _ => ⟨0, .died, 0, 0, 0, 0⟩)
  obtain ⟨s, hs, -⟩ := run_createThreads hinv hall 128
  obtain ⟨hpids, hlen⟩ := (PidInv.init h₀).1.run hs
  refine ⟨s₀, s, h₀, hs, fun hd => ?_⟩
  have hle := hpids.distinct_iff.mp hd
  rw [hlen, hall, countP_createThreads] at hle
  exact absurd hle (by decide)

end OsI386
