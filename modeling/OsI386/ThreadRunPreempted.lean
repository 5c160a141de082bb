import OsI386.SchedulerRuns

/-!
# thread_run with interrupts on

`thread_run` links the new thread with interrupts off for that moment only, and then sets its bit
in the mask: the byte of the mask is loaded, and stored with one more bit. An interrupt can come
between any two of these accesses, and other threads run then.
-/
namespace OsI386
open Scheduler TransitionSystem

section Queues

variable {T : Type}

/-- Like `QueuesOf` with an upper bound for the queued threads only, and with queues that the
mask may fail to show. -/
structure QueuesWithin (s : Scheduler T) (Q : T → Prop) (hidden : ℕ → Prop) : Prop where
  mem : ∀ p < prioNum, ∀ u ∈ s.rq p, Q u ∧ (s.tcb u).priority = p
  nodup : ∀ p < prioNum, (s.rq p).Nodup
  shown : ∀ p < prioNum, s.rqMask.bit p = true → s.rq p ≠ []
  mask : ∀ p < prioNum, s.rq p ≠ [] → s.rqMask.bit p = true ∨ hidden p

/-- The mask shows the non-empty queues. -/
def MaskRight (s : Scheduler T) : Prop :=
  ∀ p < prioNum, s.rqMask.bit p = true ↔ s.rq p ≠ []

variable {s s' : Scheduler T} {t : T} {Q : T → Prop} {hidden : ℕ → Prop}

lemma QueuesWithin.maskRight (h : QueuesWithin s Q fun _ => False) : MaskRight s :=
  fun p hp => ⟨h.shown p hp, fun hne => (h.mask p hp hne).resolve_right id⟩

lemma QueuesOf.within {Q' : T → Prop} (h : QueuesOf s Q') (hQ : ∀ u, Q' u → Q u) :
    QueuesWithin s Q hidden where
  mem p hp u hu :=
    have hm := (h.mem p hp u).mp hu
    ⟨hQ u hm.1, hm.2⟩
  nodup := h.nodup
  shown p hp := (h.mask p hp).mp
  mask p hp hne := .inl ((h.mask p hp).mpr hne)

lemma QueuesWithin.mono {Q' : T → Prop} {hidden' : ℕ → Prop} (h : QueuesWithin s Q hidden)
    (hQ : ∀ u, Q u → Q' u) (hh : ∀ p, hidden p → hidden' p) : QueuesWithin s Q' hidden' where
  mem p hp u hu := (h.mem p hp u hu).imp_left (hQ u)
  nodup := h.nodup
  shown := h.shown
  mask p hp hne := (h.mask p hp hne).imp_right (hh p)

/-- The tcbs matter through the priorities of queued threads only. -/
lemma QueuesWithin.of_tcb (h : QueuesWithin s Q hidden) (hrq : s'.rq = s.rq)
    (hmask : s'.rqMask = s.rqMask)
    (hprio : ∀ p < prioNum, ∀ u ∈ s.rq p, (s'.tcb u).priority = (s.tcb u).priority) :
    QueuesWithin s' Q hidden where
  mem p hp u hu := by
    rw [hrq] at hu
    rw [hprio p hp u hu]
    exact h.mem p hp u hu
  nodup := by
    rw [hrq]
    exact h.nodup
  shown := by
    rw [hrq, hmask]
    exact h.shown
  mask := by
    rw [hrq, hmask]
    exact h.mask

/-- The queues after a tag is linked, whatever happens to the mask. -/
lemma QueuesWithin.link (h : QueuesWithin s Q hidden) {link : List T → List T}
    (hl : ∀ l, (link l).Perm (t :: l)) (hQ : Q t) (hout : ¬ s.Linked t) :
    let rq := Function.update s.rq (s.tcb t).priority (link (s.rq (s.tcb t).priority))
    (∀ p < prioNum, ∀ u ∈ rq p, Q u ∧ (s.tcb u).priority = p) ∧
      (∀ p < prioNum, (rq p).Nodup) ∧ ∀ p, rq p ≠ [] ↔ s.rq p ≠ [] ∨ p = (s.tcb t).priority := by
  intro rq
  have hat : ∀ p, p = (s.tcb t).priority → (rq p).Perm (t :: s.rq p) := by
    rintro p rfl
    simp only [rq, Function.update_self]
    exact hl _
  have hne : ∀ p, p ≠ (s.tcb t).priority → rq p = s.rq p := fun p he =>
    Function.update_of_ne he _ _
  refine ⟨fun p hp u hu => ?_, fun p hp => ?_, fun p => ?_⟩
  · by_cases he : p = (s.tcb t).priority
    · rcases List.mem_cons.mp ((hat p he).mem_iff.mp hu) with rfl | hu
      · exact ⟨hQ, he.symm⟩
      · exact h.mem p hp u hu
    · exact h.mem p hp u (hne p he ▸ hu)
  · by_cases he : p = (s.tcb t).priority
    · rw [(hat p he).nodup_iff, List.nodup_cons]
      exact ⟨fun hm => hout ⟨p, hp, hm⟩, h.nodup p hp⟩
    · rw [hne p he]
      exact h.nodup p hp
  · by_cases he : p = (s.tcb t).priority
    · refine ⟨fun _ => .inr he, fun _ hnil => ?_⟩
      have hperm := hat p he
      rw [hnil] at hperm
      exact absurd hperm.symm.eq_nil (List.cons_ne_nil _ _)
    · rw [hne p he]
      exact ⟨.inl, fun hor => hor.resolve_right he⟩

variable [DecidableEq T]

/-- A field other than the priority. -/
lemma QueuesWithin.setTcb (h : QueuesWithin s Q hidden) (f : Tcb → Tcb)
    (hf : ∀ c, (f c).priority = c.priority) (t : T) : QueuesWithin (s.setTcb t f) Q hidden := by
  refine h.of_tcb rfl rfl fun p hp u hu => ?_
  by_cases he : u = t
  · subst he
    exact (congrArg Tcb.priority (Function.update_self _ _ _)).trans (hf _)
  · exact congrArg Tcb.priority (Function.update_of_ne he _ _)

/-- Any change to the tcb of a thread that is in no queue. -/
lemma QueuesWithin.setTcb_out (h : QueuesWithin s Q hidden) (f : Tcb → Tcb)
    (hout : ∀ p < prioNum, t ∉ s.rq p) : QueuesWithin (s.setTcb t f) Q hidden := by
  refine h.of_tcb rfl rfl fun p hp u hu => congrArg Tcb.priority (Function.update_of_ne ?_ _ _)
  rintro rfl
  exact hout p hp hu

lemma QueuesWithin.insert (h : QueuesWithin s Q hidden) {link : List T → List T}
    (hl : ∀ l, (link l).Perm (t :: l)) (hQ : Q t)
    (hs : schedulerRqInsert s t link = some s') : QueuesWithin s' Q hidden := by
  simp only [schedulerRqInsert, Option.ite_none_right_eq_some, Option.some.injEq] at hs
  obtain ⟨⟨-, hout⟩, rfl⟩ := hs
  obtain ⟨hmem, hnodup, hempty⟩ := h.link hl hQ hout
  refine ⟨hmem, hnodup, fun p hp hbit => (hempty p).mpr ?_, fun p hp hne => ?_⟩
  · rw [bit_bitmapSet, Bool.or_eq_true, decide_eq_true_iff] at hbit
    exact hbit.symm.imp_left (h.shown p hp)
  · rw [bit_bitmapSet, Bool.or_eq_true, decide_eq_true_iff]
    rcases (hempty p).mp hne with hne | he
    · exact (h.mask p hp hne).imp_left .inr
    · exact .inl (.inl he)

lemma QueuesWithin.leaveOnly (h : QueuesWithin s Q hidden)
    (hs : schedulerRqLeaveOnly s t = some s') :
    QueuesWithin s' Q hidden ∧ Q t ∧ ∀ p < prioNum, t ∉ s'.rq p := by
  simp only [schedulerRqLeaveOnly, Option.ite_none_right_eq_some, Option.some.injEq] at hs
  obtain ⟨⟨-, q, hq, hlinked⟩, rfl⟩ := hs
  have hout : ∀ p < prioNum, t ∉ (s.rq p).erase t := fun p hp => (h.nodup p hp).not_mem_erase
  have hkept : ∀ p < prioNum, p ≠ (s.tcb t).priority → (s.rq p).erase t = s.rq p := fun p hp hne =>
    List.erase_of_not_mem fun hm => hne (h.mem p hp t hm).2.symm
  have hmem : ∀ p < prioNum, ∀ u ∈ (s.rq p).erase t, Q u ∧ (s.tcb u).priority = p :=
    fun p hp u hu => h.mem p hp u (List.mem_of_mem_erase hu)
  have hnodup : ∀ p < prioNum, ((s.rq p).erase t).Nodup := fun p hp => (h.nodup p hp).erase t
  have hne : ∀ p, (s.rq p).erase t ≠ [] → s.rq p ≠ [] := fun p hn hnil => hn (by simp [hnil])
  split_ifs with hempty
  · refine ⟨⟨hmem, hnodup, fun p hp hbit => ?_, fun p hp hn => ?_⟩, (h.mem q hq t hlinked).1, hout⟩
    · rw [bit_bitmapClear, Bool.and_eq_true, Bool.not_eq_true', decide_eq_false_iff_not] at hbit
      change (s.rq p).erase t ≠ []
      rw [hkept p hp hbit.1]
      exact h.shown p hp hbit.2
    · have hother : p ≠ (s.tcb t).priority := by
        rintro rfl
        exact hn hempty
      rw [bit_bitmapClear, decide_eq_false hother, Bool.not_false, Bool.true_and]
      exact h.mask p hp (hne p hn)
  · refine ⟨⟨hmem, hnodup, fun p hp hbit => ?_, fun p hp hn => h.mask p hp (hne p hn)⟩,
      (h.mem q hq t hlinked).1, hout⟩
    by_cases he : p = (s.tcb t).priority
    · exact he ▸ hempty
    · change (s.rq p).erase t ≠ []
      rw [hkept p hp he]
      exact h.shown p hp hbit

end Queues

section Operations

variable {T : Type} [DecidableEq T] {s s' : Scheduler T} {t : T} {Q : T → Prop} {hidden : ℕ → Prop}

omit [DecidableEq T] in
lemma QueuesWithin.preemptCheck (h : QueuesWithin s Q hidden) (t : T) :
    QueuesWithin (preemptCheck s t) Q hidden := by
  unfold OsI386.preemptCheck
  split_ifs
  · exact h.of_tcb rfl rfl fun _ _ _ _ => rfl
  · exact h

lemma QueuesWithin.sliceExpire (h : QueuesWithin s Q hidden) (hs : sliceExpire s t = some s') :
    QueuesWithin s' Q hidden := by
  obtain ⟨s1, h1, hs⟩ := Option.bind_eq_some_iff.mp hs
  obtain ⟨s2, h2, hs⟩ := Option.bind_eq_some_iff.mp hs
  obtain rfl := Option.some.inj hs
  obtain ⟨hleft, hQ, hout⟩ := h.leaveOnly h1
  have hjoined := (hleft.setTcb_out _ hout).insert (fun l => List.perm_append_comm) hQ h2
  have hticks := hjoined.setTcb (fun c => { c with ticks := ticksGet c.priority }) (fun _ => rfl) t
  exact hticks.setTcb (fun c => { c with status := .ready }) (fun _ => rfl) t

lemma QueuesWithin.mainSchedule (h : QueuesWithin s Q hidden) (hs : mainSchedule s = some s') :
    QueuesWithin s' Q hidden := by
  have hflag : QueuesWithin { s with needSchedule := false } Q hidden :=
    h.of_tcb rfl rfl fun _ _ _ _ => rfl
  have hswitch : ∀ (a : Scheduler T) (next : T), QueuesWithin a Q hidden → QueuesWithin
      { a.setTcb next (fun c => { c with status := .running }) with runningThread := next }
      Q hidden := fun a next ha =>
    (ha.setTcb (fun c => { c with status := .running }) (fun _ => rfl) next).of_tcb rfl rfl
      fun _ _ _ _ => rfl
  simp only [OsI386.mainSchedule] at hs
  split_ifs at hs
  · obtain ⟨s1, h1, hs⟩ := Option.bind_eq_some_iff.mp hs
    obtain ⟨next, -, hs⟩ := Option.bind_eq_some_iff.mp hs
    exact Option.some.inj hs ▸ hswitch s1 next (hflag.sliceExpire h1)
  · obtain ⟨s1, h1, hs⟩ := Option.bind_eq_some_iff.mp hs
    obtain ⟨next, -, hs⟩ := Option.bind_eq_some_iff.mp hs
    exact Option.some.inj hs ▸ hswitch s1 next (Option.some.inj h1 ▸ hflag)
  · exact Option.some.inj hs ▸ h

lemma QueuesWithin.timerInterrupt (h : QueuesWithin s Q hidden)
    (hs : timerInterrupt s = some s') : QueuesWithin s' Q hidden := by
  obtain ⟨s1, h1, hs⟩ := Option.bind_eq_some_iff.mp hs
  refine QueuesWithin.mainSchedule ?_ hs
  have htick : QueuesWithin { s.setTcb s.runningThread (fun c =>
      { c with elapsedTicks := c.elapsedTicks + 1 }) with ticks := s.ticks + 1 } Q hidden :=
    (h.setTcb (fun c => { c with elapsedTicks := c.elapsedTicks + 1 }) (fun _ => rfl) _).of_tcb
      rfl rfl fun _ _ _ _ => rfl
  simp only [intrTimerHandler] at h1
  split_ifs at h1
  · exact Option.some.inj h1 ▸ htick.of_tcb rfl rfl fun _ _ _ _ => rfl
  · exact Option.some.inj h1 ▸ htick.setTcb (fun c => { c with ticks := c.ticks - 1 })
      (fun _ => rfl) _

lemma QueuesWithin.threadBlock {st : TaskStatus} (h : QueuesWithin s Q hidden)
    (hs : threadBlock s st = some s') : QueuesWithin s' Q hidden := by
  obtain ⟨s1, h1, hs⟩ := Option.bind_eq_some_iff.mp hs
  have hslept : QueuesWithin s1 Q hidden := by
    simp only [threadSleep, Option.ite_none_right_eq_some] at h1
    obtain ⟨s2, h2, rfl⟩ := Option.map_eq_some_iff.mp h1.2
    have hstatus := h.setTcb (fun c => { c with status := st }) (fun _ => rfl) s.runningThread
    obtain ⟨hleft, -, -⟩ := hstatus.leaveOnly h2
    split_ifs
    · exact hleft.of_tcb rfl rfl fun _ _ _ _ => rfl
    · exact hleft
  unfold schedule at hs
  split_ifs at hs
  · exact hslept.mainSchedule hs
  · exact Option.some.inj hs ▸ hslept

lemma QueuesWithin.threadUnblock (h : QueuesWithin s Q hidden) (hQ : Q t)
    (hs : threadUnblock s t = some s') : QueuesWithin s' Q hidden := by
  simp only [OsI386.threadUnblock, Option.ite_none_right_eq_some] at hs
  obtain ⟨s1, h1, rfl⟩ := Option.map_eq_some_iff.mp hs.2
  have hstatus := h.setTcb (fun c => { c with status := .ready }) (fun _ => rfl) t
  have hjumped := hstatus.insert (fun _ => List.Perm.refl _) hQ h1
  exact hjumped.preemptCheck t

end Operations

section System

variable {T : Type}

/-- The read and the write of `btmp->base_addr[byte_off] |= (1 << bit_off)`. -/
def maskLoad (btmp : Bitmap) (idx : ℕ) : BitVec 8 := btmp.bytes (idx / 8)

def maskStore (btmp : Bitmap) (idx : ℕ) (byte : BitVec 8) : Bitmap :=
  { btmp with
    bytes := Function.update btmp.bytes (idx / 8) (byte ||| (1#8 <<< (idx % 8))) }

lemma maskStore_maskLoad (btmp : Bitmap) (idx : ℕ) :
    maskStore btmp idx (maskLoad btmp idx) = bitmapSet btmp idx := rfl

/-- The next access of a call of `thread_run`: `thread_create`, `list_push_back` of the ready
queue, the two halves of `bitmap_set`, the test of the priorities, the store into
`need_schedule`, `list_push_back` of `all_list`. -/
inductive JoinPoint
  | create
  | push
  | load (prio : ℕ)
  | store (prio : ℕ) (byte : BitVec 8)
  | compare
  | flag
  | list
  | returned
  deriving DecidableEq

structure JoinSystem (T : Type) where
  sched : Scheduler T
  point : JoinPoint

/-- `caller` is the next access of the thread in `thread_run`; `timer` interrupts whichever
thread runs; `block` and `unblock` are calls of other threads. -/
inductive JoinEvent (T : Type)
  | caller
  | timer
  | block (status : TaskStatus)
  | unblock (thread : T)

namespace JoinSystem

variable [DecidableEq T]

/-- `t` is the new tcb. -/
def access (t : T) (prio : ℕ) (s : JoinSystem T) : Option (JoinSystem T) :=
  match s.point with
  | .create => some ⟨threadTcbInit s.sched t prio, .push⟩
  | .push =>
    let p := (s.sched.tcb t).priority
    if p < prioNum ∧ ¬ s.sched.Linked t then
      some ⟨{ s.sched with rq := Function.update s.sched.rq p (s.sched.rq p ++ [t]) }, .load p⟩
    else none
  | .load p => some { s with point := .store p (maskLoad s.sched.rqMask p) }
  | .store p byte =>
    some ⟨{ s.sched with rqMask := maskStore s.sched.rqMask p byte }, .compare⟩
  | .compare =>
    let lower := (s.sched.tcb t).priority < (s.sched.tcb s.sched.runningThread).priority
    some { s with point := if lower then .flag else .list }
  | .flag => some ⟨{ s.sched with needSchedule := true }, .list⟩
  | .list => (allListPushBack s.sched t).map fun sched => ⟨sched, .returned⟩
  | .returned => none

/-- `c` is the thread in `thread_run`. Before `thread_create` the page at `t` is no thread. -/
def step (c t : T) (prio : ℕ) (s : JoinSystem T) : JoinEvent T → Option (JoinSystem T)
  | .caller => if s.sched.runningThread = c then s.access t prio else none
  | .timer => (timerInterrupt s.sched).map fun sched => { s with sched := sched }
  | .block st =>
    if s.sched.runningThread = c then none
    else (threadBlock s.sched st).map fun sched => { s with sched := sched }
  | .unblock u =>
    if s.sched.runningThread = c ∨ (s.point = .create ∧ u = t) then none
    else (threadUnblock s.sched u).map fun sched => { s with sched := sched }

end JoinSystem

/-- When the mask is stored, the queue of the new bit has a thread, and the other bits of the
byte are as the queues are now. -/
def StoreFits (s : Scheduler T) (prio : ℕ) (byte : BitVec 8) : Prop :=
  s.rq prio ≠ [] ∧ ∀ q < prioNum, q / 8 = prio / 8 → q ≠ prio →
    (byte.getLsbD (q % 8) = true ↔ s.rq q ≠ [])

instance (s : Scheduler T) (prio : ℕ) (byte : BitVec 8) : Decidable (StoreFits s prio byte) := by
  have : ∀ q, Decidable (s.rq q ≠ []) := fun q =>
    decidable_of_iff ((s.rq q).isEmpty = false) (by simp)
  unfold StoreFits
  infer_instance

def JoinAllowed (s : JoinSystem T) (e : JoinEvent T) : Prop :=
  match s.point, e with
  | .store prio byte, .caller => StoreFits s.sched prio byte
  | _, _ => True

instance (s : JoinSystem T) (e : JoinEvent T) : Decidable (JoinAllowed s e) := by
  unfold JoinAllowed
  split <;> infer_instance

lemma bit_maskStore (btmp : Bitmap) (idx i : ℕ) (byte : BitVec 8) :
    (maskStore btmp idx byte).bit i =
      if i / 8 = idx / 8 then decide (i = idx) || byte.getLsbD (i % 8) else btmp.bit i := by
  by_cases hd : i / 8 = idx / 8
  · have hset := bit_bitmapSet { btmp with bytes := fun _ => byte } idx i
    rw [if_pos hd, ← show ({ btmp with bytes := fun _ => byte } : Bitmap).bit i =
      byte.getLsbD (i % 8) from rfl, ← hset]
    simp only [Bitmap.bit, maskStore, bitmapSet, hd, Function.update_self]
  · rw [if_neg hd]
    simp only [Bitmap.bit, maskStore, Function.update_of_ne hd]

/-- The store leaves the mask right exactly if the byte fits. -/
lemma maskRight_store_iff {s : Scheduler T} {Q : T → Prop} {prio : ℕ} {byte : BitVec 8}
    (h : QueuesWithin s Q (· = prio)) (hp : prio < prioNum) :
    MaskRight { s with rqMask := maskStore s.rqMask prio byte } ↔ StoreFits s prio byte := by
  constructor
  · intro hright
    constructor
    · have hbit := (hright prio hp).mp
      rw [bit_maskStore, if_pos rfl, decide_eq_true rfl, Bool.true_or] at hbit
      exact hbit rfl
    · intro q hq hd hne
      have hbit := hright q hq
      rwa [bit_maskStore, if_pos hd, decide_eq_false hne, Bool.false_or] at hbit
  · rintro ⟨hself, hothers⟩ q hq
    rw [bit_maskStore]
    by_cases hd : q / 8 = prio / 8
    · rw [if_pos hd]
      by_cases he : q = prio
      · subst he
        simpa using hself
      · rw [decide_eq_false he, Bool.false_or]
        exact hothers q hq hd he
    · rw [if_neg hd]
      refine ⟨h.shown q hq, fun hne => (h.mask q hq hne).resolve_right ?_⟩
      rintro rfl
      exact hd rfl

end System

section Runs

variable {T : Type} {c t : T} {prio : ℕ} {s s' : JoinSystem T}

namespace JoinPoint

/-- The threads the queues can hold. -/
def Queued (t : T) : JoinPoint → T → Prop
  | .create, u => u ≠ t
  | _, _ => True

/-- The queue the mask need not show. -/
def Hidden : JoinPoint → ℕ → Prop
  | .load p, q => q = p
  | .store p _, q => q = p
  | _, _ => False

end JoinPoint

structure JoinInv (t : T) (s : JoinSystem T) : Prop where
  queues : QueuesWithin s.sched (s.point.Queued t) s.point.Hidden
  prio : ∀ p, s.point.Hidden p → p < prioNum

lemma JoinInv.push (h : JoinInv t s) (hp : s.point = .push)
    (hlt : (s.sched.tcb t).priority < prioNum) (hout : ¬ s.sched.Linked t) :
    JoinInv t ⟨{ s.sched with
      rq := Function.update s.sched.rq (s.sched.tcb t).priority
        (s.sched.rq (s.sched.tcb t).priority ++ [t]) }, .load (s.sched.tcb t).priority⟩ := by
  obtain ⟨hqueues, -⟩ := h
  rw [hp] at hqueues
  have happend : ∀ l : List T, (l ++ [t]).Perm (t :: l) := fun l => List.perm_append_comm
  obtain ⟨hmem, hnodup, hne⟩ := hqueues.link happend trivial hout
  refine ⟨⟨hmem, hnodup, fun p hpn hbit => ?_, fun p hpn hn => ?_⟩, ?_⟩
  · exact (hne p).mpr (.inl (hqueues.shown p hpn hbit))
  · rcases (hne p).mp hn with hn | he
    · exact .inl ((hqueues.mask p hpn hn).resolve_right id)
    · exact .inr he
  · rintro p rfl
    exact hlt

lemma JoinInv.store {p : ℕ} {byte : BitVec 8} (h : JoinInv t s) (hp : s.point = .store p byte)
    (hfits : StoreFits s.sched p byte) :
    JoinInv t ⟨{ s.sched with rqMask := maskStore s.sched.rqMask p byte }, .compare⟩ := by
  obtain ⟨hqueues, hlt⟩ := h
  rw [hp] at hqueues hlt
  have hright := (maskRight_store_iff hqueues (hlt p rfl)).mpr hfits
  refine ⟨⟨hqueues.mem, hqueues.nodup, fun q hq => (hright q hq).mp, fun q hq hne => ?_⟩,
    fun _ => False.elim⟩
  exact .inl ((hright q hq).mpr hne)

variable [DecidableEq T]

lemma JoinInv.create (h : JoinInv t s) (hp : s.point = .create) :
    JoinInv t ⟨threadTcbInit s.sched t prio, .push⟩ := by
  obtain ⟨hqueues, -⟩ := h
  rw [hp] at hqueues
  have hi := threadTcbInit_spec s.sched t prio
  have hinit := hqueues.of_tcb hi.rq hi.rqMask fun p hpn u hu =>
    congrArg Tcb.priority (hi.other u (hqueues.mem p hpn u hu).1)
  exact ⟨hinit.mono (fun _ _ => trivial) fun _ => id, fun _ => False.elim⟩

/-- An access of the caller. -/
lemma JoinInv.access (h : JoinInv t s) (ok : JoinAllowed s .caller)
    (hs : s.access t prio = some s') : JoinInv t s' := by
  unfold JoinSystem.access at hs
  split at hs
  case h_1 hp => exact Option.some.inj hs ▸ h.create hp
  case h_2 hp =>
    simp only [Option.ite_none_right_eq_some, Option.some.injEq] at hs
    obtain ⟨⟨hlt, hout⟩, rfl⟩ := hs
    exact h.push hp hlt hout
  case h_3 p hp =>
    obtain rfl := Option.some.inj hs
    obtain ⟨hqueues, hlt⟩ := h
    rw [hp] at hqueues hlt
    exact ⟨hqueues, hlt⟩
  case h_4 p byte hp =>
    obtain rfl := Option.some.inj hs
    have hfits : StoreFits s.sched p byte := by
      unfold JoinAllowed at ok
      rw [hp] at ok
      exact ok
    exact h.store hp hfits
  case h_5 hp =>
    obtain rfl := Option.some.inj hs
    obtain ⟨hqueues, -⟩ := h
    rw [hp] at hqueues
    split_ifs
    · exact ⟨hqueues, fun _ => False.elim⟩
    · exact ⟨hqueues, fun _ => False.elim⟩
  case h_6 hp =>
    obtain rfl := Option.some.inj hs
    obtain ⟨hqueues, -⟩ := h
    rw [hp] at hqueues
    exact ⟨hqueues.of_tcb rfl rfl fun _ _ _ _ => rfl, fun _ => False.elim⟩
  case h_7 hp =>
    obtain ⟨sched, h1, rfl⟩ := Option.map_eq_some_iff.mp hs
    obtain ⟨hqueues, -⟩ := h
    rw [hp] at hqueues
    unfold allListPushBack at h1
    split_ifs at h1
    obtain rfl := Option.some.inj h1
    exact ⟨hqueues.of_tcb rfl rfl fun _ _ _ _ => rfl, fun _ => False.elim⟩
  case h_8 => cases hs

lemma JoinInv.step {e : JoinEvent T} (h : JoinInv t s) (ok : JoinAllowed s e)
    (hs : s.step c t prio e = some s') : JoinInv t s' := by
  cases e with
  | caller =>
    simp only [JoinSystem.step, Option.ite_none_right_eq_some] at hs
    exact h.access ok hs.2
  | timer =>
    obtain ⟨sched, h1, rfl⟩ := Option.map_eq_some_iff.mp hs
    exact ⟨h.queues.timerInterrupt h1, h.prio⟩
  | block st =>
    simp only [JoinSystem.step, Option.ite_none_left_eq_some, Option.map_eq_some_iff] at hs
    obtain ⟨-, sched, h1, rfl⟩ := hs
    exact ⟨h.queues.threadBlock h1, h.prio⟩
  | unblock u =>
    simp only [JoinSystem.step, Option.ite_none_left_eq_some, Option.map_eq_some_iff] at hs
    obtain ⟨hother, sched, h1, rfl⟩ := hs
    have hQ : s.point.Queued t u := by
      cases hp : s.point with
      | create => exact fun he => hother (.inr ⟨hp, he⟩)
      | _ => trivial
    exact ⟨h.queues.threadUnblock hQ h1, h.prio⟩

/-- Without interrupts the accesses are `thread_run`. -/
lemma run_callers {s s' : Scheduler T} (h : threadRun s t prio = some s') :
    ∃ n, run (JoinSystem.step s.runningThread t prio) ⟨s, .create⟩ (List.replicate n .caller) =
      some ⟨s', .returned⟩ := by
  obtain ⟨s2, h2, h3⟩ := Option.bind_eq_some_iff.mp h
  obtain ⟨s1, h1, rfl⟩ := Option.map_eq_some_iff.mp h2
  have hi := threadTcbInit_spec s t prio
  set s0 := threadTcbInit s t prio with hs0
  simp only [schedulerRqJoinOnly, schedulerRqInsert, Option.ite_none_right_eq_some,
    Option.some.injEq] at h1
  obtain ⟨hguard, rfl⟩ := h1
  have hrun : s0.runningThread = s.runningThread := hi.runningThread
  by_cases hlower : (s0.tcb t).priority < (s0.tcb s.runningThread).priority
  · refine ⟨7, ?_⟩
    simp only [preemptCheck, hrun, hlower, ↓reduceIte] at h3
    simp only [List.replicate, run, JoinSystem.step, JoinSystem.access, ↓reduceIte, ← hs0, hrun,
      Option.bind_some, hguard, not_false_eq_true, and_self, hlower, maskStore_maskLoad, h3,
      Option.map_some]
  · refine ⟨6, ?_⟩
    simp only [preemptCheck, hrun, hlower, ↓reduceIte] at h3
    simp only [List.replicate, run, JoinSystem.step, JoinSystem.access, ↓reduceIte, ← hs0, hrun,
      Option.bind_some, hguard, not_false_eq_true, and_self, hlower, maskStore_maskLoad, h3,
      Option.map_some]

/-- `thread_run` leaves the mask right in every run in which each store into the mask finds the
new queue occupied and the rest of its byte up to date. -/
theorem threadRun_maskRight {s₀ : Scheduler T} (h₀ : SchedInv s₀) (ht : t ∉ s₀.allList)
    (h : Reach (JoinSystem.step s₀.runningThread t prio) JoinAllowed ⟨s₀, .create⟩ s)
    (hr : s.point = .returned) : MaskRight s.sched := by
  have hstart : JoinInv t ⟨s₀, .create⟩ := by
    refine ⟨h₀.queues.within fun u hu he => ?_, fun _ => False.elim⟩
    exact ht (he ▸ hu.1)
  have hinv : JoinInv t s := h.invariant hstart fun _ _ _ hI ok hs => hI.step ok hs
  have hqueues := hinv.queues
  rw [hr] at hqueues
  exact hqueues.maskRight

/-- The boot thread creates thread 1 with priority 5 and blocks. -/
def callerStart : Option (Scheduler ℕ) :=
  (threadAllInit 0 (fun _ => 0xff) fun _ => ⟨0, .died, 0, 0, 0, 0⟩).bind fun s =>
    run schedStep s [.threadRun 1 5, .threadBlock .blocked]

lemma callerStart_inv : ∃ s₀, callerStart = some s₀ ∧ SchedInv s₀ ∧ 2 ∉ s₀.allList := by
  obtain ⟨s1, h1, hi1, hall1⟩ := threadAllInit_spec (0 : ℕ) (fun _ => 0xff)
    fun _ => ⟨0, .died, 0, 0, 0, 0⟩
  have hnew : (1 : ℕ) ∉ s1.allList := by simp [hall1]
  obtain ⟨s2, h2, hi2, hall2, -⟩ := threadRun_spec hi1 hnew (show 5 < prioNum by decide)
  have hother : ∀ s ∈ threadAllInit 0 (fun _ => 0xff) fun _ => (⟨0, .died, 0, 0, 0, 0⟩ : Tcb),
      ∀ s' ∈ threadRun s 1 5, (1 : ℕ) ≠ s'.runningThread ∧ s'.Linked 1 := by
    decide +kernel
  obtain ⟨s3, h3, hi3, hall3⟩ := threadBlock_spec hi2 (.inl rfl) ⟨1, hother s1 h1 s2 h2⟩
  refine ⟨s3, ?_, hi3, ?_⟩
  · rw [callerStart, h1, Option.bind_some, run, schedStep, h2, Option.bind_some, run, schedStep, h3]
    rfl
  · simp [hall3, hall2, hall1]

/-- Thread 1 creates thread 2 with its own priority; `n` timer interrupts arrive after the
push. -/
def joinEvents (n : ℕ) : List (JoinEvent ℕ) :=
  [.caller, .caller] ++ List.replicate n .timer ++ List.replicate 4 .caller

theorem threadRun_maskRight_ticked : ∃ s₀ s, callerStart = some s₀ ∧
    run (JoinSystem.step s₀.runningThread 2 5) ⟨s₀, .create⟩ (joinEvents 2) = some s ∧
    s.point = .returned ∧ MaskRight s.sched := by
  obtain ⟨s₀, h₀, hinv, hnew⟩ := callerStart_inv
  have hok : ∀ s₀ ∈ callerStart, RunAllowed (JoinSystem.step s₀.runningThread 2 5) JoinAllowed
      ⟨s₀, .create⟩ (joinEvents 2) := by
    decide +kernel
  obtain ⟨s, hs, hreach⟩ := (hok s₀ h₀).reach
  have hend : ∀ s₀ ∈ callerStart, ∀ s ∈ run (JoinSystem.step s₀.runningThread 2 5) ⟨s₀, .create⟩
      (joinEvents 2), s.point = .returned := by
    decide +kernel
  have hret := hend s₀ h₀ s hs
  exact ⟨s₀, s, h₀, hs, hret, threadRun_maskRight hinv hnew hreach hret⟩

/-- After six, thread 1 and then thread 2 have used up their slices and left the queue whose bit
`bitmap_set` then sets. -/
theorem threadRun_stale_mask : ∃ s₀ s, callerStart = some s₀ ∧ SchedInv s₀ ∧ 2 ∉ s₀.allList ∧
    run (JoinSystem.step s₀.runningThread 2 5) ⟨s₀, .create⟩ (joinEvents 6) = some s ∧
    s.point = .returned ∧ s.sched.rqMask.bit 5 = true ∧ s.sched.rq 5 = [] := by
  obtain ⟨s₀, h₀, hinv, hnew⟩ := callerStart_inv
  have hend : ∀ s₀ ∈ callerStart, ∃ s ∈ run (JoinSystem.step s₀.runningThread 2 5) ⟨s₀, .create⟩
      (joinEvents 6), s.point = .returned ∧ s.sched.rqMask.bit 5 = true ∧ s.sched.rq 5 = [] := by
    decide +kernel
  obtain ⟨s, hs, hret, hbit, hempty⟩ := hend s₀ h₀
  exact ⟨s₀, s, h₀, hinv, hnew, hs, hret, hbit, hempty⟩

end Runs

end OsI386
