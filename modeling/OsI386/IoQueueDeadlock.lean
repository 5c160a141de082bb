import OsI386.IoQueueWaiters

/-!
# One producer and one consumer: when both block

With two threads a state is described by where each of them is in its call. Only the
mutex holder can be registered, so both block in one way: a thread woken inside
`mutex_lock` goes on while the queue is at the end the other one sleeps for.
-/
namespace OsI386
open TransitionSystem

/-- Where a thread is in its call: asleep or woken, in `mutex_lock` or in `ioq_wait`. -/
inductive CallPhase
  | idle | lockBlocked | lockReady | waitBlocked | waitReady
  deriving DecidableEq

namespace CallPhase

def locking (a : CallPhase) : Prop := a = .lockBlocked ∨ a = .lockReady

/-- The thread holds the mutex. -/
def holds (a : CallPhase) : Prop := a = .waitBlocked ∨ a = .waitReady

instance (a : CallPhase) : Decidable a.locking := inferInstanceAs (Decidable (_ ∨ _))
instance (a : CallPhase) : Decidable a.holds := inferInstanceAs (Decidable (_ ∨ _))

def status : CallPhase → TaskStatus
  | .lockBlocked | .waitBlocked => .blocked
  | _ => .ready

/-- After `sem_up` by the other thread. -/
def unlocked : CallPhase → CallPhase
  | .lockBlocked => .lockReady
  | a => a

/-- After `ioq_signal` by the other thread. -/
def signalled : CallPhase → CallPhase
  | .waitBlocked => .waitReady
  | a => a

/-- The pairs of phases that occur; `wait` and `wait'` are the tests of the two calls. -/
structure Compatible (a b : CallPhase) (wait wait' : Bool) : Prop where
  holder : ¬ (a.holds ∧ b.holds)
  locking : ¬ (a.locking ∧ b.locking)
  lockBlocked : a = .lockBlocked → b = .waitReady
  lockBlocked' : b = .lockBlocked → a = .waitReady
  lockReady : a = .lockReady → b ≠ .waitReady
  lockReady' : b = .lockReady → a ≠ .waitReady
  waitBlocked : a = .waitBlocked → wait' = false ∧ (b.locking → wait = true)
  waitBlocked' : b = .waitBlocked → wait = false ∧ (a.locking → wait' = true)

variable {a b : CallPhase} {wait wait' : Bool}

lemma Compatible.symm (h : Compatible a b wait wait') : Compatible b a wait' wait where
  holder := fun hb => h.holder hb.symm
  locking := fun hb => h.locking hb.symm
  lockBlocked := h.lockBlocked'
  lockBlocked' := h.lockBlocked
  lockReady := h.lockReady'
  lockReady' := h.lockReady
  waitBlocked := h.waitBlocked'
  waitBlocked' := h.waitBlocked

/-- The two threads never sleep at once. -/
lemma Compatible.not_both_blocked (h : Compatible a b wait wait') :
    ¬ (a.status = .blocked ∧ b.status = .blocked) := by
  obtain ⟨h1, _, h3, h4, _, _, _, _⟩ := h
  cases a <;> cases b <;> simp_all [CallPhase.status, CallPhase.holds]

end CallPhase

open CallPhase

def Waiter.other : Waiter → Waiter
  | .producer => .consumer
  | .consumer => .producer

@[simp] lemma other_other (w : Waiter) : w.other.other = w := by cases w <;> rfl

@[simp] lemma other_ne (w : Waiter) : w.other ≠ w := by cases w <;> simp [Waiter.other]

/-- A queue is not full and empty at once. -/
lemma cond_other {T : Type} {q : Ioqueue T} {w : Waiter} (h : w.cond q = true) : w.other.cond q = false := by
  have hnext : nextPosGet q.tail ≠ q.tail := by
    unfold nextPosGet bufSize
    omega
  cases w with
  | producer =>
    simp only [Waiter.cond, ioqFull, beq_iff_eq, Waiter.other, ioqEmpty, beq_eq_false_iff_ne] at *
    intro he
    exact hnext (he ▸ h)
  | consumer =>
    simp only [Waiter.cond, ioqFull, beq_iff_eq, Waiter.other, ioqEmpty, beq_eq_false_iff_ne] at *
    rwa [h]

variable {T : Type}

/-- The thread in its role: the producer `p` only puts and the consumer `c` only gets. -/
def inRole (p c : T) : Waiter → T
  | .producer => p
  | .consumer => c

/-- Thread `t` is in phase `a` of a call in role `w`. -/
def InPhase (s : IoqSystem T) (t : T) (w : Waiter) (a : CallPhase) : Prop :=
  s.status t = a.status ∧
  match a with
  | .idle => s.pc t = none
  | .lockBlocked | .lockReady => ∃ k, k.waiter = w ∧ s.pc t = some (k, .inLock)
  | .waitBlocked | .waitReady => ∃ k, k.waiter = w ∧ s.pc t = some (k, .inWait)

/-- The state in terms of the phases `a` of the thread `x` in role `w` and `b` of the
other thread `y`. -/
structure Pair (s : IoqSystem T) (x y : T) (w : Waiter) (a b : CallPhase) : Prop where
  self : InPhase s x w a
  other : InPhase s y w.other b
  slot : s.q.waiter w = if a = .waitBlocked then some x else none
  slot' : s.q.waiter w.other = if b = .waitBlocked then some y else none
  val : s.q.mtx.sem.val = if a.holds ∨ b.holds then 0 else 1
  waiters : s.q.mtx.sem.waiters =
    if a = .lockBlocked then [x] else if b = .lockBlocked then [y] else []

variable {s s' : IoqSystem T} {x y : T} {w : Waiter} {a b : CallPhase}

lemma Pair.symm (h : Pair s x y w a b) (hab : ¬ (a.locking ∧ b.locking)) :
    Pair s y x w.other b a where
  self := h.other
  other := by simpa using h.self
  slot := h.slot'
  slot' := by simpa using h.slot
  val := by simpa only [or_comm] using h.val
  waiters := by
    rw [h.waiters]
    cases a <;> cases b <;> simp_all [CallPhase.locking]

variable [DecidableEq T]

lemma commit_of_sleep {t : T} {k : IoqCall} {r : IoqSegment T} {point : IoqPoint}
    {status : T → TaskStatus} (hstop : r.stop = .sleep point)
    (hst : unblockAll s.status r.unblocked = some status) :
    s.commit t k r = some { s with q := r.q, status := Function.update status t .blocked,
                                   pc := Function.update s.pc t (some (k, point)) } := by
  simp [IoqSystem.commit, hstop, hst]

/-- The phase of `y` after a segment of `x`. -/
lemma InPhase.of_update {q : Ioqueue T} {status : T → TaskStatus} {st : TaskStatus}
    {pt : Option (IoqCall × IoqPoint)} {pd pd' : List Byte} (h : InPhase s y w b) (hxy : x ≠ y)
    (hst : status y = s.status y := by rfl) :
    InPhase ⟨q, Function.update status x st, Function.update s.pc x pt, pd, pd'⟩ y w b := by
  unfold InPhase at h ⊢
  simpa only [Function.update_of_ne hxy.symm, hst] using h

/-- `x` goes through the loop test of `sem_down` while `y` is in phase `b`. -/
lemma Pair.lockWait {k : IoqCall} (h : Pair s x y w a b) (hxy : x ≠ y) (hk : k.waiter = w)
    (ha : a = .idle ∨ a = .lockReady) (hb : b ≠ .lockBlocked) :
    ∃ s', s.commit x k (ioqLockWait s.q x k.waiter) = some s' ∧
      Pair s' x y w (if b.holds then .lockBlocked else .waitBlocked) b ∧
      s'.q.head = s.q.head ∧ s'.q.tail = s.q.tail := by
  have hah : ¬ a.holds := by rcases ha with rfl | rfl <;> decide
  have hal : a ≠ .lockBlocked := by rcases ha with rfl | rfl <;> decide
  have haw : a ≠ .waitBlocked := by rcases ha with rfl | rfl <;> decide
  have hws : s.q.mtx.sem.waiters = [] := by rw [h.waiters, if_neg hal, if_neg hb]
  have hslot : s.q.waiter w = none := by rw [h.slot, if_neg haw]
  subst hk
  by_cases hh : b.holds
  · have hv : s.q.mtx.sem.val = 0 := by rw [h.val, if_pos (.inr hh)]
    have hr : ioqLockWait s.q x k.waiter =
        ⟨{ s.q with mtx.sem.waiters := [x] }, [], .sleep .inLock⟩ := by
      simp [ioqLockWait, semDown, hv, hws]
    rw [hr, if_pos hh]
    refine ⟨_, commit_of_sleep rfl rfl, ?_, rfl, rfl⟩
    constructor
    case self => simp [InPhase, CallPhase.status]
    case other => exact h.other.of_update hxy
    case slot => simpa using hslot
    case slot' => simpa using h.slot'
    case val => simpa [hh] using hv
    case waiters => simp
  · have hv : s.q.mtx.sem.val = 1 := by rw [h.val, if_neg (by simp [hah, hh])]
    have hr : ioqLockWait s.q x k.waiter =
        ⟨{ s.q with mtx := ⟨some x, ⟨0, []⟩⟩ }.setWaiter k.waiter (some x), [], .sleep .inWait⟩ := by
      simp [ioqLockWait, semDown, hv, hws]
    rw [hr, if_neg hh]
    refine ⟨_, commit_of_sleep rfl rfl, ?_, by simp, by simp⟩
    constructor
    case self => simp [InPhase, CallPhase.status]
    case other => exact h.other.of_update hxy
    case slot => simp
    case slot' =>
      rw [setWaiter_waiter_of_ne _ _ _ (other_ne _)]
      exact h.slot'
    case val => simp [CallPhase.holds]
    case waiters => simp [hb]

lemma commit_of_done {t : T} {k : IoqCall} {r : IoqSegment T} {byte : Byte}
    {status : T → TaskStatus} (hstop : r.stop = .done byte)
    (hst : unblockAll s.status r.unblocked = some status) :
    ∃ stored returned, s.commit t k r =
      some ⟨r.q, status, Function.update s.pc t none, stored, returned⟩ := by
  cases k with
  | getchar => exact ⟨s.stored, s.returned ++ [byte], by simp [IoqSystem.commit, hstop, hst]⟩
  | putchar b => exact ⟨s.stored ++ [byte], s.returned, by simp [IoqSystem.commit, hstop, hst]⟩

omit [DecidableEq T] in
lemma ioqFinish_eq (q : Ioqueue T) (k : IoqCall) : ∃ q' byte,
    ioqFinish q k = ioqSignal q' k.waiter.other byte ∧ q'.mtx = q.mtx ∧
      ∀ v, q'.waiter v = q.waiter v := by
  cases k with
  | getchar => exact ⟨_, _, rfl, rfl, fun _ => rfl⟩
  | putchar byte => exact ⟨_, _, rfl, rfl, fun _ => rfl⟩

/-- `x` completes its call and signals `y` if it is registered. -/
lemma Pair.finish {k : IoqCall} (h : Pair s x y w .idle b) (hxy : x ≠ y) (hk : k.waiter = w) :
    ∃ s', s.commit x k (ioqFinish s.q k) = some s' ∧ Pair s' x y w .idle b.signalled := by
  subst hk
  obtain ⟨q', byte, hr, hmtx, hw⟩ := ioqFinish_eq s.q k
  have hslot : s.q.waiter k.waiter = none := h.slot
  have hst : unblockAll s.status (ioqSignal q' k.waiter.other byte).unblocked =
      some (if b = .waitBlocked then Function.update s.status y .ready else s.status) := by
    have hsy : s.status y = b.status := h.other.1
    simp only [ioqSignal, hw, h.slot']
    split_ifs with hb
    · simp [unblockAll, unblock, hsy, hb, CallPhase.status, TaskStatus.Sleeping]
    · rfl
  rw [hr]
  obtain ⟨stored, returned, hc⟩ := commit_of_done (s := s) (t := x) (k := k) rfl hst
  refine ⟨_, hc, ?_⟩
  have hself := h.self
  have hother := h.other
  have hval := h.val
  have hws := h.waiters
  constructor
  case self =>
    unfold InPhase at hself ⊢
    split_ifs <;> simpa [hxy] using hself.1
  case other =>
    unfold InPhase at hother ⊢
    cases b with
    | waitBlocked => simpa [hxy.symm, CallPhase.signalled, CallPhase.status] using hother.2
    | _ => simpa [hxy.symm, CallPhase.signalled, CallPhase.status] using hother
  case slot =>
    simp only [ioqSignal]
    rw [setWaiter_waiter_of_ne _ _ _ (other_ne _).symm, hw, hslot]
    simp
  case slot' => cases b <;> simp [ioqSignal, CallPhase.signalled]
  case val =>
    simp only [ioqSignal, setWaiter_mtx, hmtx]
    cases b <;> simpa [CallPhase.holds, CallPhase.signalled] using hval
  case waiters =>
    simp only [ioqSignal, setWaiter_mtx, hmtx]
    cases b <;> simpa [CallPhase.signalled] using hws

/-- The threads a segment wakes before its loop test can be woken before the segment. -/
lemma commit_unblocked_append {q : Ioqueue T} {t : T} {k : IoqCall} {r : IoqSegment T}
    {ts : List T} {status : T → TaskStatus} (hst : unblockAll s.status ts = some status) :
    s.commit t k { r with unblocked := ts ++ r.unblocked } =
      IoqSystem.commit ⟨q, status, Function.update s.pc t none, s.stored, s.returned⟩ t k r := by
  have happ : unblockAll s.status (ts ++ r.unblocked) = unblockAll status r.unblocked := by
    unfold unblockAll at hst ⊢
    rw [List.foldlM_append, hst]
    rfl
  cases hr : r.stop <;> cases k <;> simp [IoqSystem.commit, hr, happ]

/-- `x` gives the mutex up, which wakes `y` if it sleeps for it. -/
lemma Pair.unlock (h : Pair s x y w .waitReady b) (hxy : x ≠ y) (hb : ¬ b.holds) :
    ∃ mtx woken status,
      mutexUnlock s.q.mtx = some (mtx, woken) ∧
      unblockAll s.status woken.toList = some status ∧
      Pair ⟨{ s.q with mtx := mtx }, status, Function.update s.pc x none, s.stored, s.returned⟩
        x y w .idle b.unlocked := by
  have hv : s.q.mtx.sem.val = 0 := by simp [h.val, CallPhase.holds]
  have hself := h.self
  have hother := h.other
  have hsy : s.status y = b.status := hother.1
  have hslot := h.slot
  have hslot' := h.slot'
  have hws := h.waiters
  by_cases hl : b = .lockBlocked
  · subst hl
    refine ⟨⟨none, ⟨1, []⟩⟩, some y, Function.update s.status y .ready, ?_, ?_, ?_⟩
    · simp [mutexUnlock, semUp, hv, hws]
    · simp [unblockAll, unblock, hsy, CallPhase.status, TaskStatus.Sleeping]
    · constructor
      case self =>
        unfold InPhase at hself ⊢
        simpa [hxy, CallPhase.status] using hself.1
      case other =>
        unfold InPhase at hother ⊢
        simpa [hxy.symm, CallPhase.unlocked, CallPhase.status] using hother.2
      case slot => simpa using hslot
      case slot' => simpa [CallPhase.unlocked] using hslot'
      case val => simp [CallPhase.holds, CallPhase.unlocked]
      case waiters => simp [CallPhase.unlocked]
  · have hun : b.unlocked = b := by cases b <;> simp_all [CallPhase.unlocked]
    rw [hun]
    refine ⟨⟨none, ⟨1, []⟩⟩, none, s.status, ?_, rfl, ?_⟩
    · simp [mutexUnlock, semUp, hv, hws, hl]
    · constructor
      case self =>
        unfold InPhase at hself ⊢
        simpa [hxy, CallPhase.status] using hself.1
      case other =>
        unfold InPhase at hother ⊢
        simpa [hxy.symm] using hother
      case slot => simpa using hslot
      case slot' => simpa using hslot'
      case val => simp [CallPhase.holds] at hb ⊢; simp [hb]
      case waiters => simp [hl]

/-- The two threads are in compatible phases. -/
def TwoPhases (s : IoqSystem T) (x y : T) (w : Waiter) : Prop :=
  ∃ a b, Pair s x y w a b ∧ Compatible a b (w.cond s.q) (w.other.cond s.q)

omit [DecidableEq T] in
lemma TwoPhases.symm (h : TwoPhases s x y w) : TwoPhases s y x w.other := by
  obtain ⟨a, b, hp, hc⟩ := h
  exact ⟨b, a, hp.symm hc.locking, by simpa using hc.symm⟩

omit [DecidableEq T] in
lemma TwoPhases.not_both_blocked (h : TwoPhases s x y w) :
    ¬ (s.status x = .blocked ∧ s.status y = .blocked) := by
  obtain ⟨a, b, hp, hc⟩ := h
  rw [hp.self.1, hp.other.1]
  exact hc.not_both_blocked

/-- `x` runs from the test of its `while`, having no call or one woken in `ioq_wait`. -/
lemma Pair.loop {k : IoqCall} (h : Pair s x y w .idle b) (hxy : x ≠ y) (hk : k.waiter = w)
    (hc : Compatible .idle b (w.cond s.q) (w.other.cond s.q)) :
    ∃ s', s.commit x k (ioqLoop s.q x k) = some s' ∧ TwoPhases s' x y w := by
  have hb : b ≠ .lockBlocked := fun he => by simpa using hc.lockBlocked' he
  unfold ioqLoop
  cases hw : k.mustWait s.q with
  | true =>
    have hcond : w.cond s.q = true := by rw [← hk, ← mustWait_eq_cond, hw]
    have hcond' := cond_other hcond
    obtain ⟨s', hs, hp, hh, ht⟩ := h.lockWait hxy hk (.inl rfl) hb
    refine ⟨s', hs, _, b, hp, ?_⟩
    rw [cond_congr hh ht, cond_congr hh ht, hcond, hcond']
    rw [hcond, hcond'] at hc
    obtain ⟨_, _, _, _, _, _, _, h8⟩ := hc
    cases b <;> constructor <;> simp_all [CallPhase.holds, CallPhase.locking]
  | false =>
    obtain ⟨s', hs, hp⟩ := h.finish hxy hk
    refine ⟨s', hs, _, _, hp, ?_⟩
    obtain ⟨_, _, _, _, _, _, _, _⟩ := hc
    cases b <;> constructor <;>
      simp_all [CallPhase.holds, CallPhase.locking, CallPhase.signalled]

/-- `x` goes on inside `mutex_lock` with the queue not at the end `y` waits for. -/
lemma Pair.resumeLock {k : IoqCall} (h : Pair s x y w .lockReady b) (hxy : x ≠ y)
    (hk : k.waiter = w) (hc : Compatible .lockReady b (w.cond s.q) (w.other.cond s.q))
    (hend : w.other.cond s.q = false) :
    ∃ s', s.commit x k (ioqLockWait s.q x k.waiter) = some s' ∧ TwoPhases s' x y w := by
  have hb : b ≠ .lockBlocked := fun he => by simpa using hc.lockBlocked' he
  obtain ⟨s', hs, hp, hh, ht⟩ := h.lockWait hxy hk (.inr rfl) hb
  refine ⟨s', hs, _, b, hp, ?_⟩
  rw [cond_congr hh ht, cond_congr hh ht]
  obtain ⟨_, _, _, _, _, _, _, _⟩ := hc
  cases b <;> constructor <;> simp_all [CallPhase.holds, CallPhase.locking]

/-- `x` goes on after `ioq_wait`. -/
lemma Pair.resumeWait {k : IoqCall} (h : Pair s x y w .waitReady b) (hxy : x ≠ y)
    (hk : k.waiter = w) (hc : Compatible .waitReady b (w.cond s.q) (w.other.cond s.q)) :
    ∃ s', (ioqResume s.q x k .inWait).bind (s.commit x k) = some s' ∧ TwoPhases s' x y w := by
  have hb : ¬ b.holds := fun he => hc.holder ⟨.inr rfl, he⟩
  obtain ⟨mtx, woken, status, hu, hst, hp⟩ := h.unlock hxy hb
  have hcomp : Compatible .idle b.unlocked (w.cond s.q) (w.other.cond s.q) := by
    obtain ⟨_, _, _, _, _, _, _, _⟩ := hc
    cases b <;> constructor <;>
      simp_all [CallPhase.holds, CallPhase.locking, CallPhase.unlocked]
  have hmtx : ∀ v : Waiter, v.cond { s.q with mtx := mtx } = v.cond s.q :=
    fun v => cond_congr rfl rfl v
  rw [← hmtx w, ← hmtx w.other] at hcomp
  obtain ⟨s', hs, htwo⟩ := hp.loop hxy hk hcomp
  refine ⟨s', ?_, htwo⟩
  simp only [ioqResume, hu, Option.bind_eq_bind, Option.bind_some]
  rw [← hs]
  exact commit_unblocked_append hst

/-- The events of a producer `p` that only puts and a consumer `c` that only gets. -/
def TwoThreads (p c : T) : IoqEvent T → Prop
  | .call t k => t = inRole p c k.waiter
  | .resume t => t = p ∨ t = c
  | .sleep _ _ | .wake _ => False

instance (p c : T) (e : IoqEvent T) : Decidable (TwoThreads p c e) := by
  cases e <;> unfold TwoThreads <;> infer_instance

/-- A thread woken inside `mutex_lock` goes on only while the queue is not at the opposite
end: a producer not while it is empty, a consumer not while it is full. -/
def NotAtOtherEnd (s : IoqSystem T) : IoqEvent T → Prop
  | .resume t => ∀ k ∈ (s.pc t).toList, k.2 = .inLock → k.1.waiter.other.cond s.q = false
  | _ => True

instance (s : IoqSystem T) (e : IoqEvent T) : Decidable (NotAtOtherEnd s e) := by
  cases e <;> unfold NotAtOtherEnd <;> infer_instance

lemma TwoPhases.call {k : IoqCall} (h : TwoPhases s x y k.waiter) (hxy : x ≠ y)
    (hs : s.step (.call x k) = some s') : TwoPhases s' x y k.waiter := by
  obtain ⟨a, b, hp, hc⟩ := h
  simp only [IoqSystem.step, Option.ite_none_right_eq_some] at hs
  obtain ⟨⟨_, hpc⟩, hcommit⟩ := hs
  have ha : a = .idle := by
    have hself := hp.self.2
    cases a <;> simp_all
  subst ha
  obtain ⟨s1, h1, htwo⟩ := hp.loop hxy rfl hc
  have heq : s1 = s' := by
    cases k <;> exact Option.some.inj (h1.symm.trans hcommit)
  exact heq ▸ htwo

lemma TwoPhases.resume (h : TwoPhases s x y w) (hxy : x ≠ y)
    (ok : NotAtOtherEnd s (.resume x)) (hs : s.step (.resume x) = some s') :
    TwoPhases s' x y w := by
  obtain ⟨a, b, hp, hc⟩ := h
  obtain ⟨hst, hself⟩ := hp.self
  cases a with
  | idle => simp [IoqSystem.step, show s.pc x = none from hself] at hs
  | lockBlocked =>
    obtain ⟨k, _, hpc⟩ := hself
    simp [IoqSystem.step, hpc, hst, CallPhase.status, TaskStatus.Runnable] at hs
  | waitBlocked =>
    obtain ⟨k, _, hpc⟩ := hself
    simp [IoqSystem.step, hpc, hst, CallPhase.status, TaskStatus.Runnable] at hs
  | lockReady =>
    obtain ⟨k, hk, hpc⟩ := hself
    obtain ⟨s1, h1, htwo⟩ := hp.resumeLock hxy hk hc (hk ▸ ok (k, .inLock) (by simp [hpc]) rfl)
    simp only [IoqSystem.step, hpc, hst, CallPhase.status, runnable_ready, ↓reduceIte, ioqResume,
      Option.bind_some] at hs
    exact Option.some.inj (h1.symm.trans hs) ▸ htwo
  | waitReady =>
    obtain ⟨k, hk, hpc⟩ := hself
    obtain ⟨s1, h1, htwo⟩ := hp.resumeWait hxy hk hc
    simp only [IoqSystem.step, hpc, hst, CallPhase.status, runnable_ready, ↓reduceIte] at hs
    exact Option.some.inj (h1.symm.trans hs) ▸ htwo

variable {p c : T}

lemma TwoPhases.step (hpc : p ≠ c) {e : IoqEvent T} (h : TwoPhases s p c .producer)
    (he : TwoThreads p c e) (ok : NotAtOtherEnd s e) (hs : s.step e = some s') :
    TwoPhases s' p c .producer := by
  cases e with
  | call t k =>
    obtain rfl : t = inRole p c k.waiter := he
    cases k with
    | putchar byte => exact TwoPhases.call (k := .putchar byte) h hpc hs
    | getchar => exact (TwoPhases.call (k := .getchar) h.symm hpc.symm hs).symm
  | resume t =>
    rcases he with rfl | rfl
    · exact h.resume hpc ok hs
    · exact (h.symm.resume hpc.symm ok hs).symm
  | sleep t st => exact he.elim
  | wake t => exact he.elim

omit [DecidableEq T] in
lemma TwoPhases.init (buf : ℕ → Byte) : TwoPhases (IoqSystem.init buf) p c .producer := by
  refine ⟨.idle, .idle, ?_, ?_⟩
  · constructor <;> simp [InPhase, IoqSystem.init, ioqueueInit, mutexInit, semInit,
      CallPhase.status, CallPhase.holds, Ioqueue.waiter, Waiter.other]
  · constructor <;> simp [CallPhase.holds, CallPhase.locking]

lemma step_call (hst : s.status x = .ready) (hpc : s.pc x = none) (k : IoqCall) :
    s.step (.call x k) = s.commit x k (ioqLoop s.q x k) := by
  cases k <;> simp [IoqSystem.step, hst, hpc, ioqGetchar, ioqPutchar]

/-- The call a thread makes in a role. -/
def Waiter.call : Waiter → IoqCall
  | .producer => .putchar 0
  | .consumer => .getchar

@[simp] lemma waiter_call (w : Waiter) : w.call.waiter = w := by cases w <;> rfl

/-- Both threads sleep at once, or as soon as `y` makes another call. -/
def DeadlockNext (s : IoqSystem T) (x y : T) (w : Waiter) : Prop :=
  (s.status x = .blocked ∧ s.status y = .blocked) ∨
    ∃ s', s.step (.call y w.other.call) = some s' ∧
      s'.status x = .blocked ∧ s'.status y = .blocked

/-- A thread that goes on inside `mutex_lock` at the opposite end makes both sleep. -/
lemma TwoPhases.deadlockNext (h : TwoPhases s x y w) (hxy : x ≠ y)
    (bad : ¬ NotAtOtherEnd s (.resume x)) (hs : s.step (.resume x) = some s') :
    DeadlockNext s' x y w := by
  simp only [NotAtOtherEnd, not_forall, Bool.not_eq_false] at bad
  obtain ⟨⟨k, _⟩, hpc, rfl, hcond⟩ := bad
  rw [Option.mem_toList] at hpc
  obtain ⟨a, b, hp, hc⟩ := h
  have hself := hp.self
  have hk : k.waiter = w := by
    have hself := hp.self.2
    cases a <;> simp_all
  have hrun : (s.status x).Runnable := by
    by_contra hn
    simp [IoqSystem.step, hpc, hn] at hs
  have ha : a = .lockReady := by
    rw [hself.1] at hrun
    have hself := hp.self.2
    cases a <;> simp_all [CallPhase.status, TaskStatus.Runnable]
  subst ha
  have hb : b ≠ .lockBlocked := fun he => by simpa using hc.lockBlocked' he
  obtain ⟨s1, h1, hp1, hh, ht⟩ := hp.lockWait hxy hk (.inr rfl) hb
  simp only [IoqSystem.step, hpc, hrun, ↓reduceIte, ioqResume, Option.bind_some] at hs
  obtain rfl := Option.some.inj (h1.symm.trans hs)
  have hbs : b = .waitBlocked ∨ b = .idle := by
    obtain ⟨_, _, _, _, _, _, _, _⟩ := hc
    cases b <;> simp_all [CallPhase.locking]
  rcases hbs with rfl | rfl
  · exact .inl ⟨hp1.self.1, hp1.other.1⟩
  · right
    have hp2 := hp1.symm (by simp [CallPhase.locking, CallPhase.holds])
    have hmust : w.other.call.mustWait s1.q = true := by
      rw [mustWait_eq_cond, waiter_call, cond_congr hh ht, ← hk, hcond]
    obtain ⟨s2, h2, hp3, _, _⟩ :=
      hp2.lockWait hxy.symm (waiter_call w.other) (.inl rfl) (by simp [CallPhase.holds])
    refine ⟨s2, ?_, hp3.other.1, hp3.self.1⟩
    rw [step_call hp1.other.1 hp1.other.2, ioqLoop, if_pos hmust, h2]

/-- One producer and one consumer never sleep at once while each thread woken inside
`mutex_lock` goes on away from the opposite end of the queue, and they do, at the latest
at the next call, when one does not. -/
theorem ioqueue_two_threads (hpc : p ≠ c) {buf : ℕ → Byte}
    (h : Reach IoqSystem.step (fun s e => TwoThreads p c e ∧ NotAtOtherEnd s e)
      (IoqSystem.init buf) s) :
    ¬ (s.status p = .blocked ∧ s.status c = .blocked) ∧
    (∀ s', ¬ NotAtOtherEnd s (.resume p) → s.step (.resume p) = some s' →
      DeadlockNext s' p c .producer) ∧
    (∀ s', ¬ NotAtOtherEnd s (.resume c) → s.step (.resume c) = some s' →
      DeadlockNext s' c p .consumer) := by
  have htwo : TwoPhases s p c .producer := by
    apply h.invariant (I := fun a => TwoPhases a p c .producer) (TwoPhases.init buf)
    exact fun _ _ _ hI ok hs => hI.step hpc ok.1 ok.2 hs
  refine ⟨htwo.not_both_blocked, ?_, ?_⟩
  · exact fun s' bad hs => htwo.deadlockNext hpc bad hs
  · exact fun s' bad hs => htwo.symm.deadlockNext hpc.symm bad hs

/-- Consumer 1 sleeps on the empty queue; producer 0 fills it and sleeps for the mutex; 1
wakes it, drains the queue and sleeps again before 0 goes on. -/
def fillAndDrain : List (IoqEvent ℕ) :=
  .call 1 .getchar :: List.replicate 64 (.call 0 (.putchar 7)) ++
    .resume 1 :: List.replicate 63 (.call 1 .getchar) ++ [.resume 0]

theorem both_blocked_after_fill_and_drain :
    (∀ e ∈ fillAndDrain, TwoThreads 0 1 e) ∧
    ∃ s, run IoqSystem.step (IoqSystem.init fun _ => 0) fillAndDrain = some s ∧
      s.status 0 = .blocked ∧ s.status 1 = .blocked := by
  have hrun : (run IoqSystem.step (IoqSystem.init fun _ => 0) fillAndDrain).map
      (fun s => (s.status 0, s.status 1)) = some (.blocked, .blocked) := by
    decide +kernel
  obtain ⟨s, hs, hst⟩ := Option.map_eq_some_iff.mp hrun
  exact ⟨by decide +kernel, s, hs, congrArg Prod.fst hst, congrArg Prod.snd hst⟩

/-- As `fillAndDrain`, but 0 goes on with 62 bytes in the queue. -/
def fillAndRefill : List (IoqEvent ℕ) :=
  .call 1 .getchar :: List.replicate 64 (.call 0 (.putchar 7)) ++ [.resume 1, .resume 0]

theorem ioqueue_two_threads_refill :
    ∃ s, run IoqSystem.step (IoqSystem.init fun _ => 0) fillAndRefill = some s ∧
      ¬ (s.status 0 = .blocked ∧ s.status 1 = .blocked) := by
  have hok : RunAllowed IoqSystem.step (fun s e => TwoThreads 0 1 e ∧ NotAtOtherEnd s e)
      (IoqSystem.init fun _ => 0) fillAndRefill := by
    decide +kernel
  obtain ⟨s, hs, hreach⟩ := hok.reach
  exact ⟨s, hs, (ioqueue_two_threads (by decide) hreach).1⟩

end OsI386
