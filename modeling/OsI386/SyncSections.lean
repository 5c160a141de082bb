import OsI386.SyncSystem
import OsI386.IoQueueHistory

/-!
# What mutexes and queues keep about sleeping threads

A thread asleep in `sem_down` is in the waiter list of the semaphore it waits for and in no
other; a thread asleep in `ioq_wait` is in the slot of its call and holds the queue's mutex.
Each section of the running thread keeps this for the threads asleep after it.
-/
namespace OsI386
open Scheduler TransitionSystem

section Ioq

variable {T : Type}

/-- What a queue keeps about the threads in its calls: `pc` says where they are, `blocked` which
of them sleep. -/
structure IoqOk (q : Ioqueue T) (pc : T → Option (IoqCall × IoqPoint)) (blocked : T → Prop) :
    Prop where
  nodup : q.mtx.sem.waiters.Nodup
  waiters : ∀ t, t ∈ q.mtx.sem.waiters ↔ blocked t ∧ ∃ c, pc t = some (c, .inLock)
  slot : ∀ w t, q.waiter w = some t → blocked t ∧ ∃ c, c.waiter = w ∧ pc t = some (c, .inWait)
  mutex : (q.mtx.sem.val = 1 ∧ ∀ t c, pc t ≠ some (c, .inWait)) ∨
    (q.mtx.sem.val = 0 ∧ ∃ t c, pc t = some (c, .inWait) ∧ q.mtx.holder = some t ∧
      ∀ u c, pc u = some (c, .inWait) → u = t)

variable {q : Ioqueue T} {pc pc' : T → Option (IoqCall × IoqPoint)} {blocked blocked' : T → Prop}
  {t : T}

/-- Only the threads in calls matter. -/
lemma IoqOk.congr (h : IoqOk q pc blocked) (hb : ∀ u, pc u ≠ none → (blocked' u ↔ blocked u)) :
    IoqOk q pc blocked' where
  nodup := h.nodup
  waiters u := by
    rw [h.waiters u]
    constructor
    · rintro ⟨hu, c, hc⟩
      exact ⟨(hb u (by simp [hc])).mpr hu, c, hc⟩
    · rintro ⟨hu, c, hc⟩
      exact ⟨(hb u (by simp [hc])).mp hu, c, hc⟩
  slot w u hu := by
    obtain ⟨hbu, c, hw, hc⟩ := h.slot w u hu
    exact ⟨(hb u (by simp [hc])).mpr hbu, c, hw, hc⟩
  mutex := h.mutex

lemma IoqOk.owner (h : IoqOk q pc blocked) {c : IoqCall} (ht : pc t = some (c, .inWait)) :
    q.mtx.sem.val = 0 ∧ q.mtx.holder = some t ∧ ∀ u c, pc u = some (c, .inWait) → u = t := by
  rcases h.mutex with ⟨_, hn⟩ | ⟨hv, v, d, hd, hh, hu⟩
  · exact absurd ht (hn t c)
  · obtain rfl := hu t c ht
    exact ⟨hv, hh, hu⟩

/-- At most one thread is registered, in one slot, and it is blocked and holds the mutex. -/
lemma IoqOk.registered (h : IoqOk q pc blocked) {w : Waiter} (hw : q.waiter w = some t) :
    blocked t ∧ q.mtx.holder = some t ∧ q.mtx.sem.val = 0 ∧ ∀ v u, q.waiter v = some u → v = w := by
  obtain ⟨hb, c, hcw, hc⟩ := h.slot w t hw
  obtain ⟨hv, hh, hu⟩ := h.owner hc
  refine ⟨hb, hh, hv, fun v u hvu => ?_⟩
  obtain ⟨_, d, hdv, hd⟩ := h.slot v u hvu
  obtain rfl := hu u d hd
  rw [hc] at hd
  cases hd
  exact hdv.symm.trans hcw

/-- `ioq_signal` takes the thread out of its slot. -/
lemma IoqOk.signal (h : IoqOk q pc blocked) (w : Waiter) :
    IoqOk (q.setWaiter w none) pc fun u => blocked u ∧ u ∉ (q.waiter w).toList := by
  have hout : ∀ u, u ∈ (q.waiter w).toList → ∀ c, pc u ≠ some (c, .inLock) := by
    intro u hu c hc
    obtain ⟨_, d, _, hd⟩ := h.slot w u (by simpa using hu)
    simp [hc] at hd
  constructor
  case nodup => simpa using h.nodup
  case waiters =>
    intro u
    rw [setWaiter_mtx, h.waiters u]
    constructor
    · rintro ⟨hu, c, hc⟩
      exact ⟨⟨hu, fun hm => hout u hm c hc⟩, c, hc⟩
    · rintro ⟨hu, c, hc⟩
      exact ⟨hu.1, c, hc⟩
  case slot =>
    intro v u hu
    by_cases he : v = w
    · subst he
      simp at hu
    · rw [setWaiter_waiter_of_ne _ _ _ he] at hu
      refine ⟨⟨(h.slot v u hu).1, fun hm => he ?_⟩, (h.slot v u hu).2⟩
      exact (h.registered (by simpa using hm)).2.2.2 v u hu
  case mutex => simpa using h.mutex

/-- The cells do not enter. -/
lemma IoqOk.of_cells {q' : Ioqueue T} (h : IoqOk q pc blocked) (hm : q'.mtx = q.mtx)
    (hw : ∀ w, q'.waiter w = q.waiter w) : IoqOk q' pc blocked where
  nodup := hm ▸ h.nodup
  waiters := hm ▸ h.waiters
  slot w u hu := h.slot w u (hw w ▸ hu)
  mutex := hm ▸ h.mutex

lemma IoqOk.finish (h : IoqOk q pc blocked) (c : IoqCall) :
    IoqOk (ioqFinish q c).q pc (fun u => blocked u ∧ u ∉ (ioqFinish q c).unblocked) ∧
      (ioqFinish q c).unblocked.Nodup ∧
      ∀ u ∈ (ioqFinish q c).unblocked, blocked u ∧ pc u ≠ none := by
  have hb : ∀ w, ∀ u ∈ (q.waiter w).toList, blocked u ∧ pc u ≠ none := by
    intro w u hu
    obtain ⟨hbu, c, _, hc⟩ := h.slot w u (by simpa using hu)
    exact ⟨hbu, by simp [hc]⟩
  cases c with
  | getchar =>
    refine ⟨?_, Option.toList_nodup _, hb .producer⟩
    exact IoqOk.signal (q := { q with tail := nextPosGet q.tail })
      (h.of_cells rfl fun w => by cases w <;> rfl) .producer
  | putchar byte =>
    refine ⟨?_, Option.toList_nodup _, hb .consumer⟩
    exact IoqOk.signal (q := { q with buf := Function.update q.buf q.head byte
                                      head := nextPosGet q.head })
      (h.of_cells rfl fun w => by cases w <;> rfl) .consumer

variable [DecidableEq T]

/-- `mutex_lock` and `ioq_wait` by a thread that is awake. -/
lemma IoqOk.lockWait (h : IoqOk q pc blocked) {c : IoqCall} (ht : ¬ blocked t)
    (hpc : pc t = none ∨ pc t = some (c, .inLock)) :
    ∃ point, (ioqLockWait q t c.waiter).stop = .sleep point ∧
      (ioqLockWait q t c.waiter).unblocked = [] ∧
      IoqOk (ioqLockWait q t c.waiter).q (Function.update pc t (some (c, point)))
        fun u => blocked u ∨ u = t := by
  have hnot : t ∉ q.mtx.sem.waiters := fun hm => ht ((h.waiters t).mp hm).1
  have hslot : ∀ w u, q.waiter w = some u → u ≠ t := fun w u hu he =>
    ht (he ▸ (h.slot w u hu).1)
  have hw : ∀ d, pc t ≠ some (d, .inWait) := by
    intro d
    rcases hpc with hpc | hpc <;> simp [hpc]
  rcases h.mutex with ⟨hv, hn⟩ | ⟨hv, v, d, hd, hh, hu⟩
  · -- the mutex is free: `t` takes it and registers
    refine ⟨.inWait, by simp [ioqLockWait, semDown, hv], by simp [ioqLockWait, semDown, hv], ?_⟩
    simp only [ioqLockWait, semDown, hv, one_ne_zero, ↓reduceIte]
    constructor
    case nodup => simpa using h.nodup
    case waiters =>
      intro u
      rw [setWaiter_mtx, h.waiters u]
      by_cases he : u = t
      · simpa [he] using fun hb => absurd hb ht
      · simp [he]
    case slot =>
      intro w u hwu
      by_cases he : w = c.waiter
      · subst he
        obtain rfl : t = u := by simpa using hwu
        exact ⟨.inr rfl, c, rfl, by simp⟩
      · rw [setWaiter_waiter_of_ne _ _ _ he, waiter_mtx] at hwu
        obtain ⟨_, d, _, hd⟩ := h.slot w u hwu
        exact absurd hd (hn u d)
    case mutex =>
      refine .inr ⟨by simp, t, c, by simp, by simp, fun u d hd => ?_⟩
      by_contra he
      exact hn u d (by simpa [he] using hd)
  · -- the mutex is taken: `t` queues itself
    have hvt : v ≠ t := fun he => hw d (he ▸ hd)
    refine ⟨.inLock, by simp [ioqLockWait, semDown, hv, hnot],
      by simp [ioqLockWait, semDown, hv, hnot], ?_⟩
    simp only [ioqLockWait, semDown, hv, ↓reduceIte, hnot]
    constructor
    case nodup =>
      refine List.nodup_append.mpr ⟨h.nodup, by simp, fun a ha b hb => ?_⟩
      rintro rfl
      exact hnot (List.mem_singleton.mp hb ▸ ha)
    case waiters =>
      intro u
      rw [List.mem_append, h.waiters u, List.mem_singleton]
      by_cases he : u = t
      · simp [he]
      · simp [he]
    case slot =>
      intro w u hwu
      obtain ⟨hb, d, hdw, hd⟩ := h.slot w u (by cases w <;> exact hwu)
      have hne : u ≠ t := fun he => hw d (he ▸ hd)
      exact ⟨.inl hb, d, hdw, by simpa [hne] using hd⟩
    case mutex =>
      refine .inr ⟨rfl, v, d, by simpa [hvt] using hd, hh, fun u e he => ?_⟩
      have hne : u ≠ t := by
        rintro rfl
        simp at he
      exact hu u e (by simpa [hne] using he)

/-- `mutex_unlock` after `ioq_wait`: the assertion holds and the first waiter is woken. -/
lemma IoqOk.unlock (h : IoqOk q pc blocked) {c : IoqCall} (ht : ¬ blocked t)
    (hpc : pc t = some (c, .inWait)) :
    ∃ mtx woken, mutexUnlock q.mtx = some (mtx, woken) ∧
      (∀ u ∈ woken.toList, blocked u ∧ pc u ≠ none) ∧
      IoqOk { q with mtx := mtx } (Function.update pc t none)
        fun u => blocked u ∧ u ∉ woken.toList := by
  obtain ⟨hv, _, hu⟩ := h.owner hpc
  have hslot : ∀ w u, q.waiter w ≠ some u := by
    intro w u hwu
    obtain ⟨hb, d, _, hd⟩ := h.slot w u hwu
    exact ht (hu u d hd ▸ hb)
  have hother : ∀ u d, Function.update pc t none u ≠ some (d, .inWait) := by
    intro u d hd
    by_cases he : u = t
    · simp [he] at hd
    · exact he (hu u d (by simpa [he] using hd))
  cases hws : q.mtx.sem.waiters with
  | nil =>
    refine ⟨⟨none, ⟨1, []⟩⟩, none, by simp [mutexUnlock, semUp, hv, hws], by simp, ?_⟩
    constructor
    case nodup => simp
    case waiters =>
      intro u
      have hw := h.waiters u
      rw [hws] at hw
      by_cases he : u = t
      · simp [he]
      · simpa [he] using hw
    case slot =>
      intro w u hwu
      exact absurd (by simpa using hwu) (hslot w u)
    case mutex => exact .inl ⟨rfl, hother⟩
  | cons a ws =>
    have hnd := h.nodup
    rw [hws, List.nodup_cons] at hnd
    obtain ⟨ha, d, hd⟩ := (h.waiters a).mp (by simp [hws])
    refine ⟨⟨none, ⟨1, ws⟩⟩, some a, by simp [mutexUnlock, semUp, hv, hws], by simp [ha, hd], ?_⟩
    constructor
    case nodup => exact hnd.2
    case waiters =>
      intro u
      have hw := h.waiters u
      rw [hws, List.mem_cons] at hw
      by_cases hea : u = a
      · subst hea
        simpa using hnd.1
      · by_cases he : u = t
        · subst he
          simpa [hpc, hea] using hw
        · simpa [he, hea] using hw
    case slot =>
      intro w u hwu
      exact absurd (by simpa using hwu) (hslot w u)
    case mutex => exact .inl ⟨rfl, hother⟩

/-- Where the thread is after a segment of its call `c`. -/
def stopPc (c : IoqCall) : IoqStop → Option (IoqCall × IoqPoint)
  | .sleep point => some (c, point)
  | .done _ => none

/-- What a segment of the thread `t` does to a queue: it wakes blocked threads, each once, and
`t` is blocked afterwards if the segment ends in `thread_block`. -/
structure SegmentOk (pc : T → Option (IoqCall × IoqPoint)) (blocked : T → Prop) (t : T)
    (c : IoqCall) (r : IoqSegment T) : Prop where
  nodup : r.unblocked.Nodup
  wakes : ∀ u ∈ r.unblocked, blocked u ∧ pc u ≠ none
  ok : IoqOk r.q (Function.update pc t (stopPc c r.stop))
    fun u => (blocked u ∧ u ∉ r.unblocked) ∨ u = t ∧ ∃ point, r.stop = .sleep point

lemma IoqOk.segment_lockWait (h : IoqOk q pc blocked) {c : IoqCall} (ht : ¬ blocked t)
    (hpc : pc t = none ∨ pc t = some (c, .inLock)) :
    SegmentOk pc blocked t c (ioqLockWait q t c.waiter) := by
  obtain ⟨point, hstop, hnil, hok⟩ := h.lockWait ht hpc
  constructor
  case nodup => simp [hnil]
  case wakes => simp [hnil]
  case ok => simpa [hstop, hnil, stopPc] using hok

lemma IoqOk.segment_loop (h : IoqOk q pc blocked) (ht : ¬ blocked t) (hpc : pc t = none)
    (c : IoqCall) : SegmentOk pc blocked t c (ioqLoop q t c) := by
  unfold ioqLoop
  cases hc : c.mustWait q with
  | true => simpa using h.segment_lockWait ht (.inl hpc)
  | false =>
    obtain ⟨hok, hnd, hb⟩ := h.finish c
    have hself : Function.update pc t none = pc := by rw [← hpc, Function.update_eq_self]
    have hstop : ∃ byte, (ioqFinish q c).stop = .done byte := by cases c <;> exact ⟨_, rfl⟩
    obtain ⟨byte, hstop⟩ := hstop
    exact ⟨hnd, hb, by simpa [hstop, stopPc, hself] using hok⟩

lemma IoqOk.segment_resume (h : IoqOk q pc blocked) {c : IoqCall} {point : IoqPoint}
    (ht : ¬ blocked t) (hpc : pc t = some (c, point)) :
    ∃ r, ioqResume q t c point = some r ∧ SegmentOk pc blocked t c r := by
  cases point with
  | inLock => exact ⟨_, rfl, h.segment_lockWait ht (.inr hpc)⟩
  | inWait =>
    obtain ⟨mtx, woken, hu, hb, hok⟩ := h.unlock ht hpc
    have hloop := hok.segment_loop (t := t) (fun hn => ht hn.1) (by simp) c
    refine ⟨_, by rw [ioqResume, hu]; rfl, ?_⟩
    constructor
    case nodup =>
      refine List.nodup_append.mpr ⟨Option.toList_nodup _, hloop.nodup, ?_⟩
      rintro a ha b hbm rfl
      exact (hloop.wakes a hbm).1.2 ha
    case wakes =>
      intro u hm
      rcases List.mem_append.mp hm with hm | hm
      · exact hb u hm
      · obtain ⟨hu, hpu⟩ := hloop.wakes u hm
        have hne : u ≠ t := fun he => hpu (by simp [he])
        exact ⟨hu.1, by simpa [hne] using hpu⟩
    case ok =>
      have h2 := hloop.ok
      rw [Function.update_idem] at h2
      refine h2.congr fun u _ => ?_
      simp only [List.mem_append, not_or]
      tauto

end Ioq

variable {T M Q : Type} [DecidableEq Q]

namespace SyncSystem

variable (s : SyncSystem T M Q)

/-- Where a thread is in its call on the queue `q`. -/
def callOn (q : Q) (t : T) : Option (IoqCall × IoqPoint) :=
  match s.ioqPc t with
  | some (q', cp) => if q' = q then some cp else none
  | none => none

/-- The thread is in code in which only `sem_up` or `ioq_signal` wakes it. -/
def InCall (t : T) : Prop := s.ioqPc t ≠ none ∨ ∃ m, s.mutexPc t = .inDown m

def Asleep (t : T) : Prop := (s.sched.tcb t).status = .blocked

end SyncSystem

open SyncSystem

/-- What mutexes and queues keep about the threads, when `blocked` says which of them sleep. -/
structure CallsOk (s : SyncSystem T M Q) (blocked : T → Prop) : Prop where
  created : ∀ t, s.InCall t → t ∈ s.sched.allList
  apart : ∀ t m, s.mutexPc t = .inDown m → s.ioqPc t = none
  nodup : ∀ m, (s.mutex m).sem.waiters.Nodup
  waiters : ∀ m t, t ∈ (s.mutex m).sem.waiters ↔ blocked t ∧ s.mutexPc t = .inDown m
  ioq : ∀ q, IoqOk (s.ioq q) (s.callOn q) blocked

variable {s s' : SyncSystem T M Q} {blocked blocked' : T → Prop} {t : T}

lemma callOn_ne_none {q : Q} (h : s.callOn q t ≠ none) : s.ioqPc t ≠ none := by
  intro hn
  simp [callOn, hn] at h

/-- Only the threads in calls matter. -/
lemma CallsOk.congr (h : CallsOk s blocked)
    (hb : ∀ u, s.InCall u → (blocked' u ↔ blocked u)) : CallsOk s blocked' where
  created := h.created
  apart := h.apart
  nodup := h.nodup
  waiters m u := by
    rw [h.waiters m u]
    exact and_congr_left fun hm => (hb u (.inr ⟨m, hm⟩)).symm
  ioq q := (h.ioq q).congr fun u hu => hb u (.inl (callOn_ne_none hu))

/-- Another scheduler state with the same threads. -/
lemma CallsOk.of_sched (h : CallsOk s blocked) {σ : Scheduler T} {b : Bool}
    (hall : ∀ u ∈ s.sched.allList, u ∈ σ.allList) :
    CallsOk { s with sched := σ, lost := b } blocked :=
  ⟨fun u hu => hall u (h.created u hu), h.apart, h.nodup, h.waiters, h.ioq⟩

variable [DecidableEq T] [DecidableEq M]

/-- A section of the running thread `t` is sound: it wakes blocked threads in calls, each once,
and leaves the records right for the threads asleep after it. -/
structure SectionOk (s : SyncSystem T M Q) (blocked : T → Prop) (r : SyncSegment T M Q) : Prop where
  nodup : r.unblocked.Nodup
  wakes : ∀ u ∈ r.unblocked, blocked u ∧ s.InCall u
  next : CallsOk r.next fun u => (blocked u ∧ u ∉ r.unblocked) ∨ u = s.running ∧ r.sleep ≠ none
  sleep : ∀ st, r.sleep = some st → st = .blocked ∨ st.Sleeping ∧ ¬ r.next.InCall s.running
  sched : r.next.sched = s.sched
  lost : r.next.lost = s.lost

/-- A section of the code of the mutex `m`: the threads `us` leave its waiters, and the running
thread joins them if it goes to sleep. -/
lemma CallsOk.mutexSection (h : CallsOk s blocked) {m : M} {mtx : Mutex T} {pc : MutexPc M}
    {us : List T} {sleep : Option TaskStatus} (hrun : ¬ blocked s.running)
    (hmem : s.running ∈ s.sched.allList) (hioq : s.ioqPc s.running = none)
    (hpc : ∀ n, s.mutexPc s.running = .inDown n → n = m) (hpc' : ∀ n, pc = .inDown n → n = m)
    (hsleep : ∀ st, sleep = some st → st = .blocked ∧ pc = .inDown m) (hus : us.Nodup)
    (hold : ∀ u ∈ us, u ∈ (s.mutex m).sem.waiters) (hnd : mtx.sem.waiters.Nodup)
    (hw : ∀ u, u ∈ mtx.sem.waiters ↔
      (u ∈ (s.mutex m).sem.waiters ∧ u ∉ us) ∨ u = s.running ∧ sleep ≠ none) :
    SectionOk s blocked
      ⟨{ s with mutex := Function.update s.mutex m mtx
                mutexPc := Function.update s.mutexPc s.running pc }, us, sleep⟩ := by
  have hdown : ∀ u ∈ us, blocked u ∧ s.mutexPc u = .inDown m := fun u hu =>
    (h.waiters m u).mp (hold u hu)
  refine ⟨hus, fun u hu => ⟨(hdown u hu).1, .inr ⟨m, (hdown u hu).2⟩⟩, ?_,
    fun st hst => .inl (hsleep st hst).1, rfl, rfl⟩
  constructor
  case created =>
    intro u hu
    by_cases he : u = s.running
    · exact he ▸ hmem
    · exact h.created u (by simpa [InCall, he] using hu)
  case apart =>
    intro u n hn
    by_cases he : u = s.running
    · exact he ▸ hioq
    · exact h.apart u n (by simpa [he] using hn)
  case nodup =>
    intro n
    by_cases he : n = m
    · subst he
      simpa using hnd
    · simpa [he] using h.nodup n
  case waiters =>
    intro n u
    by_cases hn : n = m
    · subst hn
      simp only [Function.update_self, hw, h.waiters n]
      by_cases he : u = s.running
      · subst he
        have hpcm : sleep ≠ none → pc = .inDown n := by
          cases sleep with
          | none => simp
          | some st => exact fun _ => (hsleep st rfl).2
        simpa [hrun] using hpcm
      · simp [he]
        tauto
    · simp only [Function.update_of_ne hn, h.waiters n]
      by_cases he : u = s.running
      · subst he
        have h1 : s.mutexPc s.running ≠ .inDown n := fun hc => hn (hpc n hc)
        have h2 : pc ≠ .inDown n := fun hc => hn (hpc' n hc)
        simp [h1, h2]
      · have h1 : u ∈ us → s.mutexPc u ≠ .inDown n := by
          intro hu hc
          rw [(hdown u hu).2] at hc
          exact hn (MutexPc.inDown.inj hc).symm
        simp only [Function.update_of_ne he, he, false_and, or_false]
        tauto
  case ioq =>
    intro q
    refine (h.ioq q).congr fun u hu => ?_
    have hcall := callOn_ne_none hu
    have h1 : u ≠ s.running := fun he => hcall (he ▸ hioq)
    have h2 : u ∉ us := fun hm => hcall (h.apart u m (hdown u hm).2)
    simp [h1, h2]

/-- The loop test of `sem_down`, on entry or after a wake-up. -/
lemma CallsOk.lockSegment (h : CallsOk s blocked) {m : M} (hrun : ¬ blocked s.running)
    (hmem : s.running ∈ s.sched.allList) (hioq : s.ioqPc s.running = none)
    (hpc : ∀ n, s.mutexPc s.running = .inDown n → n = m) : SectionOk s blocked (s.lockSegment m) := by
  have hnot : s.running ∉ (s.mutex m).sem.waiters := fun hm => hrun ((h.waiters m _).mp hm).1
  unfold SyncSystem.lockSegment semDown
  by_cases hv : (s.mutex m).sem.val = 0
  · simp only [hv, ↓reduceIte, hnot]
    apply h.mutexSection hrun hmem hioq hpc
    case hus => exact List.nodup_nil
    case hnd =>
      refine List.nodup_append.mpr ⟨h.nodup m, by simp, fun a ha b hb => ?_⟩
      rintro rfl
      exact hnot (List.mem_singleton.mp hb ▸ ha)
    all_goals simp
  · simp only [hv, ↓reduceIte]
    apply h.mutexSection hrun hmem hioq hpc
    case hus => exact List.nodup_nil
    case hnd => exact h.nodup m
    all_goals simp

/-- `sem_up` where its own assertion holds. -/
lemma CallsOk.unlockSegment (h : CallsOk s blocked) {m : M} {r : SyncSegment T M Q}
    (hrun : ¬ blocked s.running) (hmem : s.running ∈ s.sched.allList) (hfree : s.Free)
    (hr : s.unlockSegment m = some r) : SectionOk s blocked r := by
  obtain ⟨⟨sem, woken⟩, hup, hr⟩ := Option.bind_eq_some_iff.mp hr
  obtain rfl := Option.some.inj hr
  obtain ⟨hv, hup⟩ : (s.mutex m).sem.val = 0 ∧ _ := Option.ite_none_right_eq_some.mp hup
  cases hws : (s.mutex m).sem.waiters with
  | nil =>
    simp only [hws, Option.some.injEq, Prod.mk.injEq] at hup
    obtain ⟨rfl, rfl⟩ := hup
    apply h.mutexSection hrun hmem hfree.1
    case hus => exact List.nodup_nil
    all_goals simp [hfree.2, hws]
  | cons w ws =>
    have hnd := h.nodup m
    rw [hws, List.nodup_cons] at hnd
    simp only [hws, Option.some.injEq, Prod.mk.injEq] at hup
    obtain ⟨rfl, rfl⟩ := hup
    apply h.mutexSection hrun hmem hfree.1
    case hus => exact List.nodup_singleton w
    case hnd => exact hnd.2
    case hw =>
      intro u
      by_cases he : u = w
      · subst he
        simpa using hnd.1
      · simp [hws, he]
    all_goals simp [hfree.2, hws]

/-- The stores to the holder field. -/
lemma CallsOk.holderSegment (h : CallsOk s blocked) {m : M} (holder : Option T)
    (hrun : ¬ blocked s.running) (hmem : s.running ∈ s.sched.allList)
    (hioq : s.ioqPc s.running = none) (hpc : ∀ n, s.mutexPc s.running ≠ .inDown n) :
    SectionOk s blocked (s.holderSegment m holder) := by
  apply h.mutexSection hrun hmem hioq
  case hus => exact List.nodup_nil
  case hnd => exact h.nodup m
  all_goals simp [hpc]

omit [DecidableEq M] in
/-- A segment of a call on the queue `q`. -/
lemma CallsOk.ioqSegment (h : CallsOk s blocked) {q : Q} {c : IoqCall} {r : IoqSegment T}
    (hmem : s.running ∈ s.sched.allList) (hother : ∀ q' ≠ q, s.callOn q' s.running = none)
    (hdown : ∀ m, s.mutexPc s.running ≠ .inDown m)
    (hseg : SegmentOk (s.callOn q) blocked s.running c r) :
    SectionOk s blocked (s.ioqSegment q c r) := by
  have hcalls : ∀ u ∈ r.unblocked, s.ioqPc u ≠ none := fun u hu =>
    callOn_ne_none (hseg.wakes u hu).2
  have hr : s.ioqSegment q c r =
      ⟨{ s with ioq := Function.update s.ioq q r.q
                ioqPc := Function.update s.ioqPc s.running ((stopPc c r.stop).map (q, ·)) },
        r.unblocked, (stopPc c r.stop).map fun _ => .blocked⟩ := by
    unfold SyncSystem.ioqSegment
    cases r.stop <;> rfl
  have hsleep : (stopPc c r.stop).map (fun _ => TaskStatus.blocked) ≠ none ↔
      ∃ point, r.stop = .sleep point := by
    cases r.stop <;> simp [stopPc]
  rw [hr]
  refine ⟨hseg.nodup, fun u hu => ⟨(hseg.wakes u hu).1, .inl (hcalls u hu)⟩, ?_, ?_, rfl, rfl⟩
  swap
  · intro st hst
    cases hstop : r.stop <;> simp_all [stopPc]
  constructor
  case created =>
    intro u hu
    by_cases he : u = s.running
    · exact he ▸ hmem
    · exact h.created u (by simpa [InCall, he] using hu)
  case apart =>
    intro u n hn
    by_cases he : u = s.running
    · exact absurd (he ▸ hn) (hdown n)
    · simpa [he] using h.apart u n hn
  case nodup => exact h.nodup
  case waiters =>
    intro m u
    rw [h.waiters m u]
    by_cases he : u = s.running
    · subst he
      simp [hdown m]
    · have h1 : u ∈ r.unblocked → s.mutexPc u ≠ .inDown m := fun hu hc =>
        hcalls u hu (h.apart u m hc)
      simp only [he, false_and, or_false]
      tauto
  case ioq =>
    intro q'
    by_cases hq : q' = q
    · subst hq
      have hcall : callOn { s with
          ioq := Function.update s.ioq q' r.q
          ioqPc := Function.update s.ioqPc s.running ((stopPc c r.stop).map (q', ·)) } q' =
          Function.update (s.callOn q') s.running (stopPc c r.stop) := by
        funext u
        by_cases he : u = s.running
        · subst he
          cases r.stop <;> simp [callOn, stopPc]
        · simp [callOn, he]
      rw [hcall]
      simpa [hsleep] using hseg.ok
    · have hcall : callOn { s with
          ioq := Function.update s.ioq q r.q
          ioqPc := Function.update s.ioqPc s.running ((stopPc c r.stop).map (q, ·)) } q' =
          s.callOn q' := by
        funext u
        by_cases he : u = s.running
        · subst he
          rw [hother q' hq]
          cases r.stop <;> simp [callOn, stopPc, Ne.symm hq]
        · simp [callOn, he]
      rw [hcall]
      simp only [Function.update_of_ne hq]
      refine (h.ioq q').congr fun u hu => ?_
      have h1 : u ≠ s.running := fun he => hu (he ▸ hother q' hq)
      have h2 : u ∉ r.unblocked := by
        intro hm
        have hcu := (hseg.wakes u hm).2
        simp only [callOn] at hu hcu
        cases hp : s.ioqPc u with
        | none => simp [hp] at hu
        | some p =>
          simp only [hp, ne_eq, ite_eq_right_iff, not_forall] at hu hcu
          exact hq (hu.1.symm.trans hcu.1)
      simp [h1, h2]

end OsI386
