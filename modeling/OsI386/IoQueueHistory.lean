import OsI386.IoQueue

/-!
# The bytes of an ioqueue, in storing order

A segment either sleeps and leaves the cells alone, or ends its call with the queue
neither empty (for a get) nor full (for a put). This holds wherever the call was
suspended, since the loop test runs again before a byte moves.
-/
namespace OsI386
open TransitionSystem RingBuffer

variable {T : Type}

/-- What a segment of call `c` does to the cells and the indices. -/
inductive CellChange (q q' : Ioqueue T) : IoqCall → IoqStop → Prop
  | sleep {c : IoqCall} {point : IoqPoint} (buf : q'.buf = q.buf) (head : q'.head = q.head)
      (tail : q'.tail = q.tail) : CellChange q q' c (.sleep point)
  | getchar (some_byte : q.head ≠ q.tail) (buf : q'.buf = q.buf) (head : q'.head = q.head)
      (tail : q'.tail = nextPosGet q.tail) : CellChange q q' .getchar (.done (q.buf q.tail))
  | putchar {byte : Byte} (room : nextPosGet q.head ≠ q.tail)
      (buf : q'.buf = Function.update q.buf q.head byte) (head : q'.head = nextPosGet q.head)
      (tail : q'.tail = q.tail) : CellChange q q' (.putchar byte) (.done byte)

section Waiters

variable (q : Ioqueue T) (w : Waiter) (t : Option T)

@[simp] lemma setWaiter_buf : (q.setWaiter w t).buf = q.buf := by cases w <;> rfl
@[simp] lemma setWaiter_head : (q.setWaiter w t).head = q.head := by cases w <;> rfl
@[simp] lemma setWaiter_tail : (q.setWaiter w t).tail = q.tail := by cases w <;> rfl
@[simp] lemma setWaiter_mtx : (q.setWaiter w t).mtx = q.mtx := by cases w <;> rfl

@[simp] lemma waiter_mtx (mtx : Mutex T) :
    Ioqueue.waiter { q with mtx := mtx } w = q.waiter w := by cases w <;> rfl

@[simp] lemma setWaiter_waiter : (q.setWaiter w t).waiter w = t := by cases w <;> rfl

lemma setWaiter_waiter_of_ne {v : Waiter} (h : v ≠ w) :
    (q.setWaiter w t).waiter v = q.waiter v := by
  cases v <;> cases w <;> simp_all [Ioqueue.setWaiter, Ioqueue.waiter]

end Waiters

@[simp] lemma mustWait_getchar (q : Ioqueue T) : IoqCall.getchar.mustWait q = (q.head == q.tail) :=
  rfl

@[simp] lemma mustWait_putchar (q : Ioqueue T) (byte : Byte) :
    (IoqCall.putchar byte).mustWait q = (nextPosGet q.head == q.tail) := rfl

lemma ioqFinish_cells {q : Ioqueue T} {c : IoqCall} (h : c.mustWait q = false) :
    CellChange q (ioqFinish q c).q c (ioqFinish q c).stop := by
  cases c with
  | getchar =>
    have hne : q.head ≠ q.tail := by simpa using h
    exact .getchar hne (by simp [ioqFinish, ioqSignal]) (by simp [ioqFinish, ioqSignal])
      (by simp [ioqFinish, ioqSignal])
  | putchar byte =>
    have hne : nextPosGet q.head ≠ q.tail := by simpa using h
    exact .putchar hne (by simp [ioqFinish, ioqSignal]) (by simp [ioqFinish, ioqSignal])
      (by simp [ioqFinish, ioqSignal])

/-- The cells do not depend on the mutex. -/
lemma CellChange.of_mtx {q q' : Ioqueue T} {mtx : Mutex T} {c : IoqCall} {stop : IoqStop}
    (h : CellChange { q with mtx := mtx } q' c stop) : CellChange q q' c stop := by
  cases h with
  | sleep hb hh ht => exact .sleep hb hh ht
  | getchar hne hb hh ht => exact .getchar hne hb hh ht
  | putchar hne hb hh ht => exact .putchar hne hb hh ht

variable [DecidableEq T]

lemma ioqLockWait_cells (q : Ioqueue T) (t : T) (c : IoqCall) :
    CellChange q (ioqLockWait q t c.waiter).q c (ioqLockWait q t c.waiter).stop := by
  unfold ioqLockWait
  cases semDown q.mtx.sem t with
  | taken sem => exact .sleep (by simp) (by simp) (by simp)
  | sleep sem => exact .sleep rfl rfl rfl

lemma ioqLoop_cells (q : Ioqueue T) (t : T) (c : IoqCall) :
    CellChange q (ioqLoop q t c).q c (ioqLoop q t c).stop := by
  unfold ioqLoop
  cases h : c.mustWait q with
  | true => simpa using ioqLockWait_cells q t c
  | false => simpa using ioqFinish_cells h

lemma ioqResume_cells {q : Ioqueue T} {t : T} {c : IoqCall} {point : IoqPoint} {r : IoqSegment T}
    (h : ioqResume q t c point = some r) : CellChange q r.q c r.stop := by
  cases point with
  | inLock =>
    obtain rfl := Option.some.inj h
    exact ioqLockWait_cells q t c
  | inWait =>
    obtain ⟨⟨mtx, woken⟩, _, hr⟩ := Option.bind_eq_some_iff.mp h
    obtain rfl := Option.some.inj hr
    exact (ioqLoop_cells { q with mtx := mtx } t c).of_mtx

variable {s s' : IoqSystem T}

/-- The segment thread `t` executes next in a call of `c`. -/
def IoqSystem.Segment (s : IoqSystem T) (t : T) (c : IoqCall) (r : IoqSegment T) : Prop :=
  (s.pc t = none ∧ r = ioqLoop s.q t c) ∨
    ∃ point, s.pc t = some (c, point) ∧ ioqResume s.q t c point = some r

lemma IoqSystem.Segment.cells {t : T} {c : IoqCall} {r : IoqSegment T} (h : s.Segment t c r) :
    CellChange s.q r.q c r.stop := by
  rcases h with ⟨_, rfl⟩ | ⟨point, _, hr⟩
  · exact ioqLoop_cells s.q t c
  · exact ioqResume_cells hr

/-- A step is one segment of one runnable thread, or concerns no call. -/
lemma IoqSystem.step_cases {e : IoqEvent T} (h : s.step e = some s') :
    (∃ t c r, (e = .call t c ∨ e = .resume t) ∧ (s.status t).Runnable ∧ s.Segment t c r ∧
      s.commit t c r = some s') ∨
    ∃ t st, s.pc t = none ∧ s' = { s with status := Function.update s.status t st } := by
  cases e with
  | call t c =>
    simp only [step, Option.ite_none_right_eq_some] at h
    obtain ⟨⟨hrun, hpc⟩, hc⟩ := h
    refine .inl ⟨t, c, ioqLoop s.q t c, .inl rfl, hrun, .inl ⟨hpc, rfl⟩, ?_⟩
    cases c <;> exact hc
  | resume t =>
    cases hpc : s.pc t with
    | none => simp [step, hpc] at h
    | some cp =>
      obtain ⟨c, point⟩ := cp
      simp only [step, hpc, Option.ite_none_right_eq_some, Option.bind_eq_some_iff] at h
      obtain ⟨hrun, r, hr, hc⟩ := h
      exact .inl ⟨t, c, r, .inr rfl, hrun, .inr ⟨point, hpc, hr⟩, hc⟩
  | sleep t st =>
    simp only [step, Option.ite_none_right_eq_some, Option.some.injEq] at h
    obtain ⟨⟨_, hpc, _⟩, rfl⟩ := h
    exact .inr ⟨t, st, hpc, rfl⟩
  | wake t =>
    simp only [step, Option.ite_none_right_eq_some, Option.some.injEq] at h
    obtain ⟨⟨_, hpc⟩, rfl⟩ := h
    exact .inr ⟨t, .ready, hpc, rfl⟩

/-- How a segment that sleeps is committed. -/
lemma commit_sleep {t : T} {c : IoqCall} {r : IoqSegment T} {point : IoqPoint}
    (hstop : r.stop = .sleep point) (h : s.commit t c r = some s') :
    ∃ status, unblockAll s.status r.unblocked = some status ∧
      s' = { s with q := r.q, status := Function.update status t .blocked,
                    pc := Function.update s.pc t (some (c, point)) } := by
  simp only [IoqSystem.commit, hstop] at h
  obtain ⟨status, hst, hs⟩ := Option.bind_eq_some_iff.mp h
  exact ⟨status, hst, (Option.some.inj hs).symm⟩

/-- How a segment that ends its call is committed. -/
lemma commit_done {t : T} {c : IoqCall} {r : IoqSegment T} {byte : Byte}
    (hstop : r.stop = .done byte) (h : s.commit t c r = some s') :
    ∃ status, unblockAll s.status r.unblocked = some status ∧
      s'.q = r.q ∧ s'.status = status ∧ s'.pc = Function.update s.pc t none ∧
      (c = .getchar → s'.stored = s.stored ∧ s'.returned = s.returned ++ [byte]) ∧
      (c ≠ .getchar → s'.stored = s.stored ++ [byte] ∧ s'.returned = s.returned) := by
  cases c with
  | getchar =>
    simp only [IoqSystem.commit, hstop] at h
    obtain ⟨status, hst, hs⟩ := Option.bind_eq_some_iff.mp h
    obtain rfl := Option.some.inj hs
    exact ⟨status, hst, rfl, rfl, rfl, fun _ => ⟨rfl, rfl⟩, fun hn => absurd rfl hn⟩
  | putchar b =>
    simp only [IoqSystem.commit, hstop] at h
    obtain ⟨status, hst, hs⟩ := Option.bind_eq_some_iff.mp h
    obtain rfl := Option.some.inj hs
    exact ⟨status, hst, rfl, rfl, rfl, nofun, fun _ => ⟨rfl, rfl⟩⟩

/-- The bytes stored are those returned followed by those in the cells. -/
structure IoqHistory (s : IoqSystem T) : Prop where
  head_lt : s.q.head < bufSize
  tail_lt : s.q.tail < bufSize
  stored : s.stored = s.returned ++ cells s.q.buf bufSize s.q.tail s.q.head

omit [DecidableEq T] in
lemma IoqHistory.init (buf : ℕ → Byte) : IoqHistory (IoqSystem.init (T := T) buf) := by
  constructor
  case head_lt => simp [IoqSystem.init, ioqueueInit, bufSize]
  case tail_lt => simp [IoqSystem.init, ioqueueInit, bufSize]
  case stored => simp [IoqSystem.init, ioqueueInit, cells, count]

lemma IoqHistory.commit {t : T} {c : IoqCall} {r : IoqSegment T} (h : IoqHistory s)
    (hr : CellChange s.q r.q c r.stop) (hs : s.commit t c r = some s') : IoqHistory s' := by
  generalize hstop : r.stop = stop at hr
  cases hr with
  | sleep hb hh ht =>
    obtain ⟨status, _, rfl⟩ := commit_sleep hstop hs
    constructor
    case head_lt => simpa only [hh] using h.head_lt
    case tail_lt => simpa only [ht] using h.tail_lt
    case stored => simpa only [hb, hh, ht] using h.stored
  | getchar hne hb hh ht =>
    obtain ⟨status, _, hq, _, _, hget, _⟩ := commit_done hstop hs
    obtain ⟨hst, hret⟩ := hget rfl
    constructor
    case head_lt => rw [hq, hh]; exact h.head_lt
    case tail_lt => rw [hq, ht]; exact next_lt (by decide)
    case stored =>
      rw [hst, hret, h.stored, hq, hb, hh, ht, cells_pop s.q.buf h.tail_lt h.head_lt hne]
      simp [nextPosGet]
  | putchar hroom hb hh ht =>
    obtain ⟨status, _, hq, _, _, _, hput⟩ := commit_done hstop hs
    obtain ⟨hst, hret⟩ := hput nofun
    constructor
    case head_lt => rw [hq, hh]; exact next_lt (by decide)
    case tail_lt => rw [hq, ht]; exact h.tail_lt
    case stored =>
      have hpush := cells_push s.q.buf ‹Byte› h.tail_lt h.head_lt hroom
      rw [hst, hret, h.stored, hq, hb, hh, ht, nextPosGet, hpush, List.append_assoc]

lemma IoqHistory.step (h : IoqHistory s) {e : IoqEvent T} (hs : s.step e = some s') :
    IoqHistory s' := by
  rcases IoqSystem.step_cases hs with ⟨t, c, r, _, _, hseg, hc⟩ | ⟨t, st, _, rfl⟩
  · exact h.commit hseg.cells hc
  · exact ⟨h.head_lt, h.tail_lt, h.stored⟩

lemma reach_ioqHistory {buf : ℕ → Byte}
    (h : Reach IoqSystem.step (fun _ _ => True) (IoqSystem.init buf) s) : IoqHistory s :=
  h.invariant (IoqHistory.init buf) fun _ _ _ hI _ hs => hI.step hs

/-- In every interleaving the bytes returned are a prefix of the bytes stored, and the
rest is in the buffer. -/
theorem ioqueue_fifo {buf : ℕ → Byte}
    (h : Reach IoqSystem.step (fun _ _ => True) (IoqSystem.init buf) s) :
    s.returned <+: s.stored ∧
    s.stored.drop s.returned.length =
      (List.range ((s.q.head + bufSize - s.q.tail) % bufSize)).map
        (fun i => s.q.buf ((s.q.tail + i) % bufSize)) ∧
    (s.stored.drop s.returned.length).length ≤ bufSize - 1 ∧
    s.q.head < bufSize ∧ s.q.tail < bufSize := by
  have hh := reach_ioqHistory h
  have hdrop : s.stored.drop s.returned.length = cells s.q.buf bufSize s.q.tail s.q.head := by
    rw [hh.stored, List.drop_left]
  refine ⟨⟨_, hh.stored.symm⟩, hdrop, ?_, hh.head_lt, hh.tail_lt⟩
  rw [hdrop, length_cells]
  exact Nat.le_pred_of_lt (count_lt (by decide))

/-- Consumer 0 sleeps on the empty queue, 1 and 2 store, and 3 takes the first byte before
the woken 0 takes the second. -/
theorem ioqueue_fifo_overtaken :
    ∃ s : IoqSystem ℕ,
      run IoqSystem.step (IoqSystem.init fun _ => 0)
        [.call 0 .getchar, .call 1 (.putchar 7), .call 2 (.putchar 8), .call 2 (.putchar 9),
          .call 3 .getchar, .resume 0] = some s ∧
      s.returned = [7, 8] ∧ s.stored.drop s.returned.length = [9] ∧
      s.returned <+: s.stored := by
  obtain ⟨s, hs, hret, hst⟩ : ∃ s : IoqSystem ℕ,
      run IoqSystem.step (IoqSystem.init fun _ => 0)
        [.call 0 .getchar, .call 1 (.putchar 7), .call 2 (.putchar 8), .call 2 (.putchar 9),
          .call 3 .getchar, .resume 0] = some s ∧ s.returned = [7, 8] ∧ s.stored = [7, 8, 9] :=
    ⟨_, rfl, rfl, rfl⟩
  exact ⟨s, hs, hret, by rw [hst, hret]; rfl, (ioqueue_fifo (Reach.of_run hs)).1⟩

end OsI386
