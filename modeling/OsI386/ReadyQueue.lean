import OsI386.Scheduler

/-!
# The ready queues and their mask

`QueuesOf s Q` says that the threads satisfying `Q` are exactly the linked ones, each
once and in the queue of its priority, and that the mask shows the non-empty queues.
Every queue operation is described by how it changes `Q`.
-/
namespace OsI386
open Scheduler

variable {T : Type}

structure QueuesOf (s : Scheduler T) (Q : T → Prop) : Prop where
  mem : ∀ p < prioNum, ∀ t, t ∈ s.rq p ↔ Q t ∧ (s.tcb t).priority = p
  prio : ∀ t, Q t → (s.tcb t).priority < prioNum
  nodup : ∀ p < prioNum, (s.rq p).Nodup
  mask : ∀ p < prioNum, s.rqMask.bit p = true ↔ s.rq p ≠ []
  bits : s.rqMask.bitNum = prioNum

/-- Two states that differ in the queues, the mask and the schedule flag only. -/
structure SameThreads (s s' : Scheduler T) : Prop where
  tcb : s'.tcb = s.tcb
  allList : s'.allList = s.allList
  runningThread : s'.runningThread = s.runningThread
  idleThread : s'.idleThread = s.idleThread

lemma SameThreads.rfl {s : Scheduler T} : SameThreads s s := ⟨.refl _, .refl _, .refl _, .refl _⟩

lemma SameThreads.trans {a b c : Scheduler T} (h : SameThreads a b) (g : SameThreads b c) :
    SameThreads a c :=
  ⟨g.tcb.trans h.tcb, g.allList.trans h.allList, g.runningThread.trans h.runningThread,
    g.idleThread.trans h.idleThread⟩

variable {s : Scheduler T} {Q Q' : T → Prop} {t : T}

lemma QueuesOf.congr (h : QueuesOf s Q) (hQ : ∀ u, Q u ↔ Q' u) : QueuesOf s Q' where
  mem p hp u := by rw [h.mem p hp u, hQ u]
  prio u hu := h.prio u ((hQ u).mpr hu)
  nodup := h.nodup
  mask := h.mask
  bits := h.bits

lemma QueuesOf.linked_iff (h : QueuesOf s Q) (t : T) : s.Linked t ↔ Q t := by
  constructor
  · rintro ⟨p, hp, hm⟩
    exact ((h.mem p hp t).mp hm).1
  · intro hq
    exact ⟨_, h.prio t hq, (h.mem _ (h.prio t hq) t).mpr ⟨hq, rfl⟩⟩

lemma QueuesOf.prio_eq (h : QueuesOf s Q) {p : ℕ} (hp : p < prioNum) (ht : t ∈ s.rq p) :
    (s.tcb t).priority = p := ((h.mem p hp t).mp ht).2

/-- The tcbs matter to the queues only through the priorities of queued threads. -/
lemma QueuesOf.of_tcb {s' : Scheduler T} (h : QueuesOf s Q) (hrq : s'.rq = s.rq)
    (hmask : s'.rqMask = s.rqMask)
    (hprio : ∀ u, Q u → (s'.tcb u).priority = (s.tcb u).priority) : QueuesOf s' Q where
  mem p hp u := by
    rw [hrq, h.mem p hp u]
    constructor <;> rintro ⟨hq, he⟩ <;> refine ⟨hq, ?_⟩
    · rw [hprio u hq, he]
    · rw [← hprio u hq, he]
  prio u hu := by rw [hprio u hu]; exact h.prio u hu
  nodup := by rw [hrq]; exact h.nodup
  mask := by rw [hrq, hmask]; exact h.mask
  bits := by rw [hmask]; exact h.bits

/-- With a thread queued, the scan finds the lowest-numbered non-empty queue. -/
lemma QueuesOf.highest (h : QueuesOf s Q) (hq : Q t) :
    highestRqGet s < prioNum ∧ s.rq (highestRqGet s) ≠ [] ∧
      ∀ p < highestRqGet s, s.rq p = [] := by
  have hrun : ∀ p, RunAt s.rqMask 1 1 p ↔ p < prioNum ∧ s.rq p ≠ [] := by
    intro p
    have hone : (∀ i < 1, bitmapGet s.rqMask (p + i) = 1) ↔ s.rqMask.bit p = true := by
      constructor
      · intro hi
        exact (bitmapGet_eq_one _ _).mp (hi 0 (by omega))
      · intro hb i hi
        obtain rfl : i = 0 := by omega
        exact (bitmapGet_eq_one _ _).mpr hb
    unfold RunAt
    rw [hone, h.bits]
    constructor
    · rintro ⟨hlt, hb⟩
      exact ⟨by omega, (h.mask p (by omega)).mp hb⟩
    · rintro ⟨hlt, hb⟩
      exact ⟨by omega, (h.mask p hlt).mpr hb⟩
  have hbits : s.rqMask.bitNum ≤ 2 ^ 31 := by rw [h.bits]; decide
  have hp := h.prio t hq
  have hne : s.rq (s.tcb t).priority ≠ [] :=
    List.ne_nil_of_mem ((h.mem _ hp t).mpr ⟨hq, rfl⟩)
  rcases bitmapScan_spec (le_refl 1) hbits with ⟨p, hat, hleast, hscan⟩ | ⟨hnone, _⟩
  · obtain ⟨hlt, hpne⟩ := (hrun p).mp hat
    have hget : highestRqGet s = p := by
      have h32 : p < 2 ^ 32 := hlt.trans (by decide)
      rw [highestRqGet, hscan, BitVec.ofInt_natCast, BitVec.toNat_ofNat, Nat.mod_eq_of_lt h32]
    rw [hget]
    refine ⟨hlt, hpne, fun r hr => ?_⟩
    by_contra hrne
    exact hleast r hr ((hrun r).mpr ⟨hr.trans hlt, hrne⟩)
  · exact absurd ((hrun _).mpr ⟨hp, hne⟩) (hnone _)

/-- The pick is a queued thread, and none has a smaller priority number. -/
lemma QueuesOf.pick (h : QueuesOf s Q) (hq : Q t) :
    ∃ n, nextThreadPick s = some n ∧ Q n ∧ ∀ u, Q u → (s.tcb n).priority ≤ (s.tcb u).priority := by
  obtain ⟨hlt, hne, hlow⟩ := h.highest hq
  obtain ⟨n, rest, hcons⟩ := List.exists_cons_of_ne_nil hne
  have hn := (h.mem _ hlt n).mp (by rw [hcons]; exact List.mem_cons_self)
  refine ⟨n, ?_, hn.1, fun u hu => ?_⟩
  · simp [nextThreadPick, hlt, hcons]
  · rw [hn.2]
    by_contra hless
    have hempty := hlow _ (Nat.lt_of_not_le hless)
    have hmem := (h.mem _ (h.prio u hu) u).mpr ⟨hu, rfl⟩
    rw [hempty] at hmem
    exact absurd hmem List.not_mem_nil

private lemma preemptCheck_spec (h : QueuesOf s Q) (t : T) :
    QueuesOf (preemptCheck s t) Q ∧ SameThreads s (preemptCheck s t) := by
  unfold preemptCheck
  split_ifs
  · exact ⟨h.of_tcb rfl rfl fun _ _ => rfl, rfl, rfl, rfl, rfl⟩
  · exact ⟨h, .rfl⟩

variable [DecidableEq T]

lemma QueuesOf.setTcb_of_not (h : QueuesOf s Q) (hq : ¬ Q t) (f : Tcb → Tcb) :
    QueuesOf (s.setTcb t f) Q := by
  refine h.of_tcb rfl rfl fun u hu => ?_
  have hne : u ≠ t := fun he => hq (he ▸ hu)
  simp [setTcb, hne]

lemma QueuesOf.setTcb_prio (h : QueuesOf s Q) (f : Tcb → Tcb)
    (hf : (f (s.tcb t)).priority = (s.tcb t).priority) : QueuesOf (s.setTcb t f) Q := by
  refine h.of_tcb rfl rfl fun u _ => ?_
  by_cases he : u = t
  · subst he; simpa [setTcb] using hf
  · simp [setTcb, he]

/-- Linking an unlinked tag adds its thread to the queued ones. -/
lemma QueuesOf.insert (h : QueuesOf s Q) (hq : ¬ Q t) (hp : (s.tcb t).priority < prioNum)
    {link : List T → List T} (hl : ∀ l, (link l).Perm (t :: l)) :
    ∃ s', schedulerRqInsert s t link = some s' ∧ QueuesOf s' (fun u => u = t ∨ Q u) ∧
      SameThreads s s' ∧ s'.needSchedule = s.needSchedule := by
  have hlink : ¬ s.Linked t := fun hl => hq ((h.linked_iff t).mp hl)
  have hnew : ∀ p < prioNum, t ∉ s.rq p := fun p hp hm => hlink ⟨p, hp, hm⟩
  have hmem : ∀ l u, u ∈ link l ↔ u = t ∨ u ∈ l := fun l u => by
    rw [(hl l).mem_iff, List.mem_cons]
  refine ⟨_, if_pos ⟨hp, hlink⟩, ?_, ⟨rfl, rfl, rfl, rfl⟩, rfl⟩
  constructor
  case prio =>
    rintro u (rfl | hu)
    · exact hp
    · exact h.prio u hu
  case bits => exact h.bits
  case mem =>
    intro p hpn u
    by_cases he : p = (s.tcb t).priority
    · subst he
      simp only [Function.update_self, hmem, h.mem _ hpn u]
      constructor
      · rintro (rfl | ⟨hu, hpu⟩)
        · exact ⟨.inl rfl, rfl⟩
        · exact ⟨.inr hu, hpu⟩
      · rintro ⟨rfl | hu, hpu⟩
        · exact .inl rfl
        · exact .inr ⟨hu, hpu⟩
    · simp only [Function.update_of_ne he, h.mem p hpn u]
      constructor
      · rintro ⟨hu, hpu⟩
        exact ⟨.inr hu, hpu⟩
      · rintro ⟨rfl | hu, hpu⟩
        · exact absurd hpu.symm he
        · exact ⟨hu, hpu⟩
  case nodup =>
    intro p hpn
    by_cases he : p = (s.tcb t).priority
    · subst he
      simpa [(hl _).nodup_iff] using ⟨hnew _ hpn, h.nodup _ hpn⟩
    · simpa [Function.update_of_ne he] using h.nodup p hpn
  case mask =>
    intro p hpn
    by_cases he : p = (s.tcb t).priority
    · subst he
      have hne : link (s.rq (s.tcb t).priority) ≠ [] :=
        List.ne_nil_of_mem ((hmem _ t).mpr (.inl rfl))
      simp [hne]
    · simpa [Function.update_of_ne he, he] using h.mask p hpn

lemma QueuesOf.joinOnly (h : QueuesOf s Q) (hq : ¬ Q t) (hp : (s.tcb t).priority < prioNum) :
    ∃ s', schedulerRqJoinOnly s t = some s' ∧ QueuesOf s' (fun u => u = t ∨ Q u) ∧
      SameThreads s s' ∧ s'.needSchedule = s.needSchedule :=
  h.insert hq hp fun l => @List.perm_append_comm _ l [t]

lemma QueuesOf.jumpOnly (h : QueuesOf s Q) (hq : ¬ Q t) (hp : (s.tcb t).priority < prioNum) :
    ∃ s', schedulerRqJumpOnly s t = some s' ∧ QueuesOf s' (fun u => u = t ∨ Q u) ∧
      SameThreads s s' ∧ s'.needSchedule = s.needSchedule :=
  h.insert hq hp fun _ => List.Perm.refl _

lemma QueuesOf.join (h : QueuesOf s Q) (hq : ¬ Q t) (hp : (s.tcb t).priority < prioNum) :
    ∃ s', schedulerRqJoin s t = some s' ∧ QueuesOf s' (fun u => u = t ∨ Q u) ∧
      SameThreads s s' := by
  obtain ⟨s', hs, hQ, hsame, _⟩ := h.joinOnly hq hp
  obtain ⟨hQ', hsame'⟩ := preemptCheck_spec hQ t
  exact ⟨_, by rw [schedulerRqJoin, hs]; rfl, hQ', hsame.trans hsame'⟩

lemma QueuesOf.jump (h : QueuesOf s Q) (hq : ¬ Q t) (hp : (s.tcb t).priority < prioNum) :
    ∃ s', schedulerRqJump s t = some s' ∧ QueuesOf s' (fun u => u = t ∨ Q u) ∧
      SameThreads s s' := by
  obtain ⟨s', hs, hQ, hsame, _⟩ := h.jumpOnly hq hp
  obtain ⟨hQ', hsame'⟩ := preemptCheck_spec hQ t
  exact ⟨_, by rw [schedulerRqJump, hs]; rfl, hQ', hsame.trans hsame'⟩

/-- Unlinking a linked tag takes its thread out of the queued ones. -/
lemma QueuesOf.leaveOnly (h : QueuesOf s Q) (hq : Q t) :
    ∃ s', schedulerRqLeaveOnly s t = some s' ∧ QueuesOf s' (fun u => Q u ∧ u ≠ t) ∧
      SameThreads s s' ∧ s'.needSchedule = s.needSchedule := by
  have hp := h.prio t hq
  have herase : ∀ p < prioNum, ∀ u, u ∈ (s.rq p).erase t ↔ u ≠ t ∧ u ∈ s.rq p :=
    fun p hpn u => (h.nodup p hpn).mem_erase_iff
  have hother : ∀ p < prioNum, p ≠ (s.tcb t).priority → (s.rq p).erase t = s.rq p :=
    fun p hpn he => List.erase_of_not_mem fun hm => he ((h.mem p hpn t).mp hm).2.symm
  unfold schedulerRqLeaveOnly
  rw [if_pos ⟨hp, (h.linked_iff t).mpr hq⟩]
  refine ⟨_, rfl, ?_, ?_, ?_⟩
  · have hmem : ∀ p < prioNum, ∀ u, u ∈ (s.rq p).erase t ↔
        (Q u ∧ u ≠ t) ∧ (s.tcb u).priority = p := by
      intro p hpn u
      rw [herase p hpn, h.mem p hpn u]
      tauto
    split_ifs with hnil
    · refine ⟨hmem, fun u hu => h.prio u hu.1, fun p hpn => (h.nodup p hpn).erase t, ?_, h.bits⟩
      intro p hpn
      by_cases he : p = (s.tcb t).priority
      · subst he
        have hempty : (s.rq (s.tcb t).priority).erase t = [] := hnil
        simp only [hempty, bit_bitmapClear]
        simp
      · simpa [he, hother p hpn he] using h.mask p hpn
    · refine ⟨hmem, fun u hu => h.prio u hu.1, fun p hpn => (h.nodup p hpn).erase t, ?_, h.bits⟩
      intro p hpn
      by_cases he : p = (s.tcb t).priority
      · subst he
        have hm : t ∈ s.rq (s.tcb t).priority := (h.mem _ hp t).mpr ⟨hq, rfl⟩
        have hbit := (h.mask _ hp).mpr (List.ne_nil_of_mem hm)
        exact ⟨fun _ => hnil, fun _ => hbit⟩
      · simpa [hother p hpn he] using h.mask p hpn
  · split_ifs <;> exact ⟨rfl, rfl, rfl, rfl⟩
  · split_ifs <;> rfl

lemma QueuesOf.leave (h : QueuesOf s Q) (hq : Q t) :
    ∃ s', schedulerRqLeave s t = some s' ∧ QueuesOf s' (fun u => Q u ∧ u ≠ t) ∧
      SameThreads s s' ∧ (t = s.runningThread → s'.needSchedule = true) := by
  obtain ⟨s', hs, hQ, hsame, _⟩ := h.leaveOnly hq
  unfold schedulerRqLeave
  rw [hs, Option.map_some]
  by_cases he : t = s'.runningThread
  · rw [if_pos he]
    exact ⟨_, rfl, hQ.of_tcb rfl rfl fun _ _ => rfl,
      ⟨hsame.tcb, hsame.allList, hsame.runningThread, hsame.idleThread⟩, fun _ => rfl⟩
  · rw [if_neg he]
    exact ⟨_, rfl, hQ, hsame, fun hr => absurd (hr.trans hsame.runningThread.symm) he⟩

variable {s' : Scheduler T}

/-- What unlinking stores. -/
lemma schedulerRqLeaveOnly_eq (hs : schedulerRqLeaveOnly s t = some s') :
    s'.rq = (fun p => (s.rq p).erase t) ∧ s'.tcb = s.tcb := by
  simp only [schedulerRqLeaveOnly] at hs
  split_ifs at hs <;> exact Option.some.inj hs ▸ ⟨rfl, rfl⟩

lemma schedulerRqJoinOnly_eq (hs : schedulerRqJoinOnly s t = some s') :
    s'.rq = Function.update s.rq (s.tcb t).priority (s.rq (s.tcb t).priority ++ [t]) ∧
      s'.tcb = s.tcb := by
  simp only [schedulerRqJoinOnly, schedulerRqInsert] at hs
  split_ifs at hs
  exact Option.some.inj hs ▸ ⟨rfl, rfl⟩

/-- What linking and the test after it store. -/
lemma schedulerRqInsert_eq {link : List T → List T}
    (hs : (schedulerRqInsert s t link).map (preemptCheck · t) = some s') : SameThreads s s' := by
  obtain ⟨s1, h1, rfl⟩ := Option.map_eq_some_iff.mp hs
  simp only [schedulerRqInsert] at h1
  split_ifs at h1
  obtain rfl := Option.some.inj h1
  unfold preemptCheck
  split_ifs <;> exact ⟨rfl, rfl, rfl, rfl⟩

end OsI386
