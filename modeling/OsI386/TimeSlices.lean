import OsI386.ThreadRecords

/-!
# Time slices

The timer takes the ticks of the running thread down to 0 and raises the flag with the next
interrupt. A demotion gives the thread the ticks of its new priority, whatever it had left.
-/
namespace OsI386
open Scheduler TransitionSystem

variable {T : Type} [DecidableEq T] {s s' s1 s₀ : Scheduler T} {t u : T} {e : SchedEvent T}

section Slices

lemma priority_demote (c : Slice) : c.demote.priority ≠ c.priority := by
  change (c.priority + 1) % 32 ≠ c.priority
  omega

lemma priority_tick (c : Slice) : c.tick.priority = c.priority := by
  unfold Slice.tick
  split_ifs <;> rfl

/-- No more ticks than the priority gives. -/
def Slice.Ok (c : Slice) : Prop := c.ticks.toNat ≤ c.priority / 3 + 1

lemma ok_ticksGet (pid prio : ℕ) : Slice.Ok ⟨pid, prio, ticksGet prio⟩ := by
  change (BitVec.ofNat 32 (prio / 3 + 1)).toNat ≤ prio / 3 + 1
  rw [BitVec.toNat_ofNat]
  exact Nat.mod_le _ _

lemma toNat_tick {c : Slice} (h : c.ticks ≠ 0) : c.tick.ticks.toNat + 1 = c.ticks.toNat := by
  have hpos : c.ticks.toNat ≠ 0 := fun h0 => h (BitVec.eq_of_toNat_eq h0)
  have h1 : (1 : BitVec 32).toNat = 1 := rfl
  rw [Slice.tick, if_neg h]
  change (c.ticks - 1).toNat + 1 = _
  rw [BitVec.toNat_sub, h1]
  omega

lemma Slice.Ok.tick {c : Slice} (h : c.Ok) : c.tick.Ok := by
  by_cases h0 : c.ticks = 0
  · rwa [Slice.tick, if_pos h0]
  · have hless := toNat_tick h0
    have hle : c.ticks.toNat ≤ c.priority / 3 + 1 := h
    rw [Slice.Ok, priority_tick]
    omega

end Slices

section Steps

/-- The state `main_schedule` is called in. -/
def atMainSchedule (s : Scheduler T) : SchedEvent T → Option (Scheduler T)
  | .timerInterrupt => intrTimerHandler s
  | .mainSchedule => some s
  | .threadBlock st => threadSleep s st
  | _ => none

/-- The step changes a priority only where `main_schedule` demotes the running thread, and then
the slice of that thread is used up. -/
structure SliceUsed (s : Scheduler T) (e : SchedEvent T) : Prop where
  demoted : ∀ s1, atMainSchedule s e = some s1 → Demotes s1 →
    (s1.tcb s1.runningThread).ticks = 0
  others : ∀ s', schedStep s e = some s' → ∀ t ∈ s.allList,
    (s'.tcb t).priority ≠ (s.tcb t).priority →
      ∃ s1, atMainSchedule s e = some s1 ∧ Demotes s1 ∧ t = s1.runningThread

/-- An interrupt does not find `need_schedule` raised while the running thread has ticks left
beyond the one the interrupt may use. -/
def NoEarlySwitch (s : Scheduler T) (e : SchedEvent T) : Prop :=
  s.needSchedule = true → match e with
    | .timerInterrupt => (s.tcb s.runningThread).ticks.toNat ≤ 1
    | .mainSchedule => (s.tcb s.runningThread).ticks = 0
    | _ => True

/-- The slice after `main_schedule`. -/
lemma slice_mainSchedule (hs : mainSchedule s = some s') (t : T) : s'.slice t = s.slice t ∨
    Demotes s ∧ t = s.runningThread ∧ s'.slice t = (s.slice t).demote := by
  rw [(mainSchedule_records hs).2.2]
  split_ifs with hd
  · by_cases ht : t = s.runningThread
    · subst ht
      exact .inr ⟨hd, rfl, Function.update_self _ _ _⟩
    · exact .inl (Function.update_of_ne ht _ _)
  · exact .inl rfl

/-- A timer interrupt. -/
def SchedEvent.Ticks : SchedEvent T → Bool
  | .timerInterrupt => true
  | _ => false

/-- The slice of `t` after the handler. -/
def turnSlice (s : Scheduler T) (e : SchedEvent T) (t : T) : Slice :=
  if e.Ticks ∧ s.runningThread = t then (s.slice t).tick else s.slice t

lemma priority_turnSlice (s : Scheduler T) (e : SchedEvent T) (t : T) :
    (turnSlice s e t).priority = (s.tcb t).priority := by
  unfold turnSlice
  split_ifs
  · exact priority_tick _
  · rfl

/-- What a step does to the slice of a thread there was before. -/
lemma slice_step (hs : schedStep s e = some s') (ht : t ∈ s.allList) :
    s'.slice t = turnSlice s e t ∨ ∃ s1, atMainSchedule s e = some s1 ∧ Demotes s1 ∧
      t = s1.runningThread ∧ s'.slice t = (turnSlice s e t).demote := by
  have hsame : e.Ticks = false → turnSlice s e t = s.slice t := fun he => by
    rw [turnSlice, if_neg (by simp [he])]
  have hnew : ∀ u prio, Created s s' u prio → s'.slice t = s.slice t := by
    intro u prio hc
    rw [hc.slice]
    exact Function.update_of_ne (fun he : t = u => hc.fresh (he ▸ ht)) _ _
  cases e with
  | threadRun u prio => exact .inl ((hnew u prio (threadRun_records hs)).trans (hsame rfl).symm)
  | processRun u => exact .inl ((hnew u 31 (processRun_records hs)).trans (hsame rfl).symm)
  | threadBlock st =>
    exact .inl ((congrFun (threadBlock_records hs).2.2 t).trans (hsame rfl).symm)
  | threadUnblock u =>
    exact .inl ((congrFun (threadUnblock_records hs).2 t).trans (hsame rfl).symm)
  | mainSchedule =>
    rw [hsame rfl]
    refine (slice_mainSchedule hs t).imp_right ?_
    rintro ⟨hd, hrun, hslice⟩
    exact ⟨s, rfl, hd, hrun, hslice⟩
  | timerInterrupt =>
    obtain ⟨s1, h1, hs⟩ := Option.bind_eq_some_iff.mp hs
    obtain ⟨-, htick, -⟩ := intrTimerHandler_records h1
    have hturn : s1.slice t = turnSlice s .timerInterrupt t := by
      rw [htick, turnSlice]
      by_cases hrun : s.runningThread = t
      · subst hrun
        rw [if_pos ⟨rfl, rfl⟩, Function.update_self]
      · rw [if_neg fun h => hrun h.2, Function.update_of_ne (Ne.symm hrun)]
    rw [← hturn]
    refine (slice_mainSchedule hs t).imp_right ?_
    rintro ⟨hd, hrun, hslice⟩
    exact ⟨s1, h1, hd, hrun, hslice⟩

/-- Only a demotion changes a priority. -/
lemma priority_step (hs : schedStep s e = some s') (ht : t ∈ s.allList)
    (hne : (s'.tcb t).priority ≠ (s.tcb t).priority) :
    ∃ s1, atMainSchedule s e = some s1 ∧ Demotes s1 ∧ t = s1.runningThread := by
  rcases slice_step hs ht with hkept | ⟨s1, h1, hd, hrun, -⟩
  · exact absurd ((congrArg Slice.priority hkept).trans (priority_turnSlice s e t)) hne
  · exact ⟨s1, h1, hd, hrun⟩

lemma sliceUsed_iff (h : SchedInv s) : SliceUsed s e ↔ NoEarlySwitch s e := by
  have hothers : ∀ s', schedStep s e = some s' → ∀ t ∈ s.allList,
      (s'.tcb t).priority ≠ (s.tcb t).priority →
        ∃ s1, atMainSchedule s e = some s1 ∧ Demotes s1 ∧ t = s1.runningThread :=
    fun s' hs t ht => priority_step hs ht
  refine ⟨fun hused hneed => ?_, fun hsw => ⟨fun s1 h1 hd => ?_, hothers⟩⟩
  · cases e with
    | timerInterrupt =>
      obtain ⟨s1, h1, -⟩ := intrTimerHandler_spec h
      obtain ⟨hsame, hslice, hflag, hstatus⟩ := intrTimerHandler_records h1
      have hcur : (s1.tcb s1.runningThread).status = .running := by
        rw [hsame.runningThread, hstatus]
        exact h.current
      have hzero := hused.demoted s1 h1 ⟨hflag.mpr (.inl hneed), hcur⟩
      rw [hsame.runningThread] at hzero
      have htick : (s.slice s.runningThread).tick.ticks = 0 := by
        rw [← hzero]
        exact congrArg Slice.ticks ((congrFun hslice _).trans (Function.update_self _ _ _)).symm
      by_contra hgt
      have hne : (s.slice s.runningThread).ticks ≠ 0 := by
        intro h0
        refine hgt ?_
        have hnat : (s.tcb s.runningThread).ticks = 0 := h0
        simp [hnat]
      have hless := toNat_tick hne
      rw [htick] at hless
      exact hgt hless.symm.le
    | mainSchedule => exact hused.demoted s rfl ⟨hneed, h.current⟩
    | _ => trivial
  · cases e with
    | timerInterrupt =>
      obtain ⟨hsame, hslice, hflag, -⟩ := intrTimerHandler_records h1
      have hticks : (s1.tcb s1.runningThread).ticks = (s.slice s.runningThread).tick.ticks := by
        rw [hsame.runningThread]
        exact congrArg Slice.ticks ((congrFun hslice _).trans (Function.update_self _ _ _))
      rw [hticks]
      by_cases h0 : (s.slice s.runningThread).ticks = 0
      · rwa [Slice.tick, if_pos h0]
      · have hneed := (hflag.mp hd.1).resolve_right h0
        have hone : (s.slice s.runningThread).ticks.toNat ≤ 1 := hsw hneed
        have hless := toNat_tick h0
        refine BitVec.eq_of_toNat_eq ?_
        change _ = 0
        omega
    | mainSchedule =>
      obtain rfl := Option.some.inj h1
      exact hsw hd.1
    | threadBlock st =>
      obtain ⟨hsame, -, -, hst, hcur⟩ := threadSleep_records h1
      have hrun := hd.2
      rw [hsame.runningThread, hcur] at hrun
      simp [hrun, TaskStatus.Sleeping] at hst
    | _ => cases h1

lemma schedInv_known (h : SchedInv s) (hk : Known s e) (hs : schedStep s e = some s') :
    SchedInv s' := by
  obtain ⟨s1, h1, hinv⟩ := schedStep_spec h (schedAllowed_of_taken h hk hs)
  exact Option.some.inj (h1.symm.trans hs) ▸ hinv

end Steps

section Runs

variable {boot : T} {page : ℕ → BitVec 8} {garbage : T → Tcb} {es : List (SchedEvent T)} {p : ℕ}

/-- In a run each change of a priority comes at the end of a slice exactly if no interrupt of the
run finds the flag raised early. -/
theorem slices_used_iff (h₀ : threadAllInit boot page garbage = some s₀) :
    RunAllowed schedStep (fun s e => Known s e ∧ SliceUsed s e) s₀ es ↔
      RunAllowed schedStep (fun s e => Known s e ∧ NoEarlySwitch s e) s₀ es := by
  obtain ⟨s1, h1, hinv, -⟩ := threadAllInit_spec boot page garbage
  obtain rfl := Option.some.inj (h1.symm.trans h₀)
  constructor <;> refine fun h => h.imp hinv fun s e t hI ok hs => ?_
  · exact ⟨schedInv_known hI ok.1 hs, ok.1, (sliceUsed_iff hI).mp ok.2⟩
  · exact ⟨schedInv_known hI ok.1 hs, ok.1, (sliceUsed_iff hI).mpr ok.2⟩

/-- The idle thread alone, over its first slice and the next. -/
theorem slices_used_iff_idle : ∃ s₀ : Scheduler ℕ,
    threadAllInit 0 (fun _ => 0xff) (fun _ => ⟨0, .died, 0, 0, 0, 0⟩) = some s₀ ∧
      RunAllowed schedStep (fun s e => Known s e ∧ SliceUsed s e) s₀
        (List.replicate 14 .timerInterrupt) := by
  have hd : (threadAllInit (0 : ℕ) (fun _ => 0xff) (fun _ => ⟨0, .died, 0, 0, 0, 0⟩)).map
      (fun s => decide (RunAllowed schedStep (fun x e => e.Ticks ∧ x.needSchedule = false) s
        (List.replicate 14 .timerInterrupt))) = some true := by decide +kernel
  obtain ⟨s₀, h₀, hend⟩ := Option.map_eq_some_iff.mp hd
  have hrun := of_decide_eq_true hend
  refine ⟨s₀, h₀, (slices_used_iff h₀).mpr ?_⟩
  refine hrun.imp (J := fun _ => True) trivial fun s e t _ ok _ => ⟨trivial, ?_, fun hneed => ?_⟩
  · rintro u rfl
    cases ok.1
  · rw [ok.2] at hneed
    cases hneed

/-- The idle thread has 10 ticks left when a thread of priority 8 it created overtakes it. -/
theorem slices_not_used : ∃ s₀ s : Scheduler ℕ,
    threadAllInit 0 (fun _ => 0xff) (fun _ => ⟨0, .died, 0, 0, 0, 0⟩) = some s₀ ∧
      Reach schedStep Known s₀ s ∧ ¬ SliceUsed s .timerInterrupt := by
  have hd : ((threadAllInit (0 : ℕ) (fun _ => 0xff) (fun _ => ⟨0, .died, 0, 0, 0, 0⟩)).bind
      (threadRun · 1 8)).map (fun s => (s.needSchedule, (s.tcb s.runningThread).ticks)) =
      some (true, 11) := by decide
  obtain ⟨s, hs, hend⟩ := Option.map_eq_some_iff.mp hd
  obtain ⟨s₀, h₀, hs⟩ := Option.bind_eq_some_iff.mp hs
  obtain ⟨hneed, hticks⟩ := Prod.mk.inj hend
  have hreach : Reach schedStep Known s₀ s := .snoc (e := .threadRun 1 8) .refl (by simp [Known]) hs
  refine ⟨s₀, s, h₀, hreach, fun hused => ?_⟩
  have hone := (sliceUsed_iff (reach_prioOrder h₀ hreach).1).mp hused hneed
  simp only [hticks] at hone
  exact absurd hone (by decide)

/-- The timer interrupts of a run that find `t` running. -/
def timerTurns (t : T) : Scheduler T → List (SchedEvent T) → ℕ
  | _, [] => 0
  | s, e :: es => (if e.Ticks ∧ s.runningThread = t then 1 else 0) +
      match schedStep s e with
      | some s' => timerTurns t s' es
      | none => 0

/-- No thread has more ticks than its priority gives. -/
lemma ok_step (h : ∀ t ∈ s.allList, (s.slice t).Ok) (hs : schedStep s e = some s') :
    ∀ t ∈ s'.allList, (s'.slice t).Ok := by
  have hold : ∀ t ∈ s.allList, (s'.slice t).Ok := by
    intro t ht
    have hturn : (turnSlice s e t).Ok := by
      unfold turnSlice
      split_ifs
      · exact (h t ht).tick
      · exact h t ht
    rcases slice_step hs ht with hkept | ⟨-, -, -, -, hdemoted⟩
    · rwa [hkept]
    · rw [hdemoted]
      exact ok_ticksGet _ _
  intro t ht
  rcases schedStep_allList hs with hall | ⟨u, prio, hc⟩
  · exact hold t (hall ▸ ht)
  · rcases List.mem_append.mp (hc.allList ▸ ht) with ht | ht
    · exact hold t ht
    · obtain rfl := List.mem_singleton.mp ht
      rw [hc.slice, Function.update_self]
      exact ok_ticksGet _ _

/-- With no tick left the interrupt ends the slice. -/
lemma priority_timerInterrupt (h : SchedInv s) (hs : timerInterrupt s = some s')
    (h0 : (s.tcb s.runningThread).ticks = 0) :
    (s'.tcb s.runningThread).priority ≠ (s.tcb s.runningThread).priority := by
  obtain ⟨s1, h1, hs⟩ := Option.bind_eq_some_iff.mp hs
  obtain ⟨hsame, hslice, hflag, hstatus⟩ := intrTimerHandler_records h1
  have hd : Demotes s1 := by
    refine ⟨hflag.mpr (.inr h0), ?_⟩
    rw [hsame.runningThread, hstatus]
    exact h.current
  have hend := congrFun (mainSchedule_records hs).2.2 s.runningThread
  rw [if_pos hd, hsame.runningThread, Function.update_self, hslice, Function.update_self] at hend
  have hprio : (s'.tcb s.runningThread).priority = _ := congrArg Slice.priority hend
  rw [hprio]
  intro heq
  exact priority_demote _ (heq.trans (priority_tick (s.slice s.runningThread)).symm)

/-- A step that keeps the priority of `t` uses a tick of it if it is an interrupt in its turn. -/
lemma ticks_step (h : SchedInv s) (ht : t ∈ s.allList) (hs : schedStep s e = some s')
    (hp : (s'.tcb t).priority = (s.tcb t).priority) :
    (s'.tcb t).ticks.toNat + (if e.Ticks ∧ s.runningThread = t then 1 else 0) =
      (s.tcb t).ticks.toNat := by
  rcases slice_step hs ht with hkept | ⟨-, -, -, -, hdemoted⟩
  · have hticks : (s'.tcb t).ticks = (turnSlice s e t).ticks := congrArg Slice.ticks hkept
    rw [hticks, turnSlice]
    split_ifs with hturn
    · obtain ⟨he, rfl⟩ := hturn
      cases e with
      | timerInterrupt => exact toNat_tick fun h0 => priority_timerInterrupt h hs h0 hp
      | _ => cases he
    · rfl
  · have hprio : (s'.tcb t).priority = _ := congrArg Slice.priority hdemoted
    exact absurd (hprio.symm.trans (hp.trans (priority_turnSlice s e t).symm)) (priority_demote _)

lemma timerTurns_le (h : SchedInv s) (ht : t ∈ s.allList)
    (hrun : RunAllowed schedStep (fun x e => Known x e ∧ (x.tcb t).priority = p) s es) :
    timerTurns t s es ≤ (s.tcb t).ticks.toNat + 1 := by
  induction es generalizing s with
  | nil => exact Nat.zero_le _
  | cons e es ih =>
    obtain ⟨⟨hk, hp⟩, s', hs, hrest⟩ := hrun
    simp only [timerTurns, hs]
    cases es with
    | nil =>
      simp only [timerTurns]
      split_ifs <;> omega
    | cons e' es =>
      -- the priority is the same after the step, as the next one is taken with it
      have hp' : (s'.tcb t).priority = p := hrest.1.2
      have hone := ticks_step h ht hs (hp'.trans hp.symm)
      have ht' : t ∈ s'.allList := by
        rcases schedStep_allList hs with hall | ⟨u, prio, hc⟩
        · exact hall ▸ ht
        · rw [hc.allList]
          exact List.mem_append_left _ ht
      have hrec := ih (schedInv_known h hk hs) ht' hrest
      omega

lemma reach_ok (h₀ : threadAllInit boot page garbage = some s₀)
    (h : Reach schedStep Known s₀ s) : ∀ t ∈ s.allList, (s.slice t).Ok := by
  refine h.invariant (I := fun s => ∀ t ∈ s.allList, (s.slice t).Ok) (fun t ht => ?_)
    fun _ _ _ hI _ hs => ok_step hI hs
  have hc := threadAllInit_records h₀
  rw [hc.allList] at ht
  obtain rfl : t = boot := List.mem_singleton.mp ht
  rw [hc.slice, Function.update_self]
  exact ok_ticksGet _ _

/-- From any moment of a thread on, as long as its priority stays `p`, at most `ticks_get(p) + 1`
timer interrupts find it running, blocked or overtaken in between or not; and its ticks stay
within `ticks_get(p)`. -/
theorem slice_bounded (h₀ : threadAllInit boot page garbage = some s₀)
    (h : Reach schedStep Known s₀ s) (ht : t ∈ s.allList) (hp : (s.tcb t).priority = p)
    (hrun : RunAllowed schedStep (fun x e => Known x e ∧ (x.tcb t).priority = p) s es) :
    timerTurns t s es ≤ (ticksGet p).toNat + 1 ∧
      (s.tcb t).ticks.toNat ≤ (ticksGet p).toNat := by
  have hinv := (reach_prioOrder h₀ h).1
  have hok : (s.tcb t).ticks.toNat ≤ (s.tcb t).priority / 3 + 1 := reach_ok h₀ h t ht
  have hlt : (s.tcb t).priority < 32 := (hinv.tcbs t ht).prio
  have hticks : (ticksGet p).toNat = p / 3 + 1 := by
    rw [ticksGet, BitVec.toNat_ofNat]
    omega
  have hturns := timerTurns_le hinv ht hrun
  rw [hticks]
  omega

instance decidableKnown (s : Scheduler T) : ∀ e, Decidable (Known s e)
  | .threadUnblock t => decidable_of_iff (t ∈ s.allList)
      ⟨fun h _ he => SchedEvent.threadUnblock.inj he ▸ h, fun h => h t rfl⟩
  | .threadRun _ _ | .processRun _ | .threadBlock _ | .timerInterrupt | .mainSchedule => .isTrue nofun

/-- A slice of the idle thread, which sleeps for two ticks of another one. -/
def sleptSlice : List (SchedEvent ℕ) :=
  List.replicate 3 .timerInterrupt ++ [.threadBlock .blocked, .timerInterrupt, .threadUnblock 0,
    .timerInterrupt, .threadBlock .blocked] ++ List.replicate 9 .timerInterrupt

theorem slice_bounded_slept : ∃ s₀ s : Scheduler ℕ,
    threadAllInit 0 (fun _ => 0xff) (fun _ => ⟨0, .died, 0, 0, 0, 0⟩) = some s₀ ∧
      schedStep s₀ (.threadRun 1 31) = some s ∧ timerTurns 0 s sleptSlice = 12 ∧
      timerTurns 0 s sleptSlice ≤ (ticksGet 31).toNat + 1 := by
  have hd : (threadAllInit (0 : ℕ) (fun _ => 0xff) (fun _ => ⟨0, .died, 0, 0, 0, 0⟩)).bind
      (fun s₀ => (schedStep s₀ (.threadRun 1 31)).map fun s => decide ((s.tcb 0).priority = 31 ∧
        0 ∈ s.allList ∧ timerTurns 0 s sleptSlice = 12 ∧
        RunAllowed schedStep (fun x e => Known x e ∧ (x.tcb 0).priority = 31) s sleptSlice)) =
      some true := by decide +kernel
  obtain ⟨s₀, h₀, hd⟩ := Option.bind_eq_some_iff.mp hd
  obtain ⟨s, hs, hend⟩ := Option.map_eq_some_iff.mp hd
  obtain ⟨hprio, hmem, hturns, hrun⟩ := of_decide_eq_true hend
  have hreach : Reach schedStep Known s₀ s := .snoc (e := .threadRun 1 31) .refl nofun hs
  exact ⟨s₀, s, h₀, hs, hturns, (slice_bounded h₀ hreach hmem hprio hrun).1⟩

end Runs

end OsI386
