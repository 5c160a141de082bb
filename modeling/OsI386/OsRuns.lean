import OsI386.Directories
import OsI386.TargetMalloc
import OsI386.ThreadRecords

/-!
# Runs of threads, scheduler and memory

A switch finds the directory of the next thread through the window of the active one, which
gives the right frame because all directories agree on the kernel heap. A call that was switched
away is continued in the very memory it left, as long as no other call runs meanwhile.
-/
namespace OsI386
open Prog TransitionSystem

section Switch

variable {m : Phys} {s : MemState} {f : FrameNo} {t : ℕ}

/-- The frame of the page directory thread `t` runs in. -/
def dirFrame (s : MemState) (t : ℕ) : FrameNo :=
  if s.pgDir t = 0 then 0x100 else (translate s.phys 0x100 (s.pgDir t)).getD 0

def MemState.resumed (s : MemState) (t : ℕ) : MemState :=
  { s with running := t, cr3 := dirFrame s t }

lemma DirAt.dirFrame (h : DirAt m s (s.pgDir t) f) (ht : s.pgDir t ≠ 0) : dirFrame s t = f := by
  rw [OsI386.dirFrame, if_neg ht, h.walk]
  rfl

lemma DirInv.dirFrame (h : DirInv m s) (t : ℕ) : DirFrame m s (dirFrame s t) := by
  by_cases ht : s.pgDir t = 0
  · rw [OsI386.dirFrame, if_pos ht]
    exact h.kernel
  · obtain ⟨f, hf⟩ := h.threads t ht
    rw [hf.dirFrame ht]
    exact hf.dir

/-- Only the running pointer and cr3 change. -/
lemma DirInv.resumed (h : DirInv m s) (t : ℕ) : DirInv m (s.resumed t) where
  pools := ⟨h.pools.shape, h.pools.apart⟩
  low := h.low
  heap := h.heap
  heapBase := h.heapBase
  kernel := ⟨h.kernel.toKernelHalf, h.kernel.nonzero, h.kernel.taken⟩
  threads u hu := by
    obtain ⟨f, hf⟩ := h.threads u hu
    exact ⟨f, hf.walk, ⟨hf.dir.toKernelHalf, hf.dir.nonzero, hf.dir.taken⟩, hf.low, hf.high⟩

/-- `process_activate` finds the directory through any active directory. -/
lemma runs_processActivate (hi : DirInv m s) (hd : DirFrame m s s.cr3) (t : ℕ) :
    (processActivate t).Runs s [] (s.resumed t) () := by
  apply Runs.bind_silent (runs_read _ s)
  by_cases ht : s.pgDir t = 0
  · rw [if_neg (not_not.mpr ht)]
    have hframe : dirFrame s t = frameOf pageDirStartAddr := if_pos ht
    rw [MemState.resumed, hframe]
    exact runs_modify _ s
  · obtain ⟨f, hf⟩ := hi.threads t ht
    have hwalk : translate s.phys s.cr3 (s.pgDir t) = some f := by
      rw [← hf.walk]
      exact hd.toKernelHalf.translate_eq hi.kernel.toKernelHalf hf.low hf.high
    rw [if_pos ht]
    apply Runs.bind_silent (runs_addrV2p hd.window hwalk)
    rw [frameOf_add_offset, MemState.resumed, hf.dirFrame ht]
    exact runs_modify _ s

end Switch

section Invariant

/-- The threads in the scheduler and the directories returned, in memory `x`. -/
structure Listed (m : Phys) (threads : List ℕ) (dirs : List Word) (x : MemState) : Prop where
  threads : ∀ t ∈ threads, Settled x t
  dirs : ∀ d ∈ dirs, ∃ f, DirAt m x d f

/-- What the value of a call is good for. -/
def OsCall.Post (c : OsCall) (x : MemState) (a : Word) : Prop :=
  match c with
  | .threadRun _ => Settled x a.toNat
  | .mem .processRun => Settled x a.toNat
  | .mem _ => True

/-- Call `c` of thread `t` is the only one, and began in a state `s₀`. -/
structure InCall (m : Phys) (s : OsState) (t : ℕ) (c : Call) : Prop where
  alone : ∀ u, u ≠ t → s.calls u = none
  thread : t ∈ s.sched.allList
  safe : ∃ s₀ tr, DirInv m s₀ ∧ s₀.running = t ∧ s₀.cr3 = dirFrame s₀ t ∧
    Listed m s.sched.allList s.dirs s₀ ∧
    c.rest.Safe (fun _ x => CallInv m s₀ x) (fun _ x a => c.kind.Post x a) tr (s.mem.resumed t)

structure OsInv (m : Phys) (s : OsState) : Prop where
  sched : SchedInv s.sched
  mem : DirInv m s.mem
  running : s.mem.running = s.sched.runningThread
  cr3 : s.mem.cr3 = dirFrame s.mem s.sched.runningThread
  esp0 : s.mem.pgDir s.sched.runningThread ≠ 0 → s.esp0 = tssEsp0Update s.sched.runningThread
  listed : Listed m s.sched.allList s.dirs s.mem
  calls : ∀ t c, s.calls t = some c → InCall m s t c

/-- The page that `target_vaddr_malloc` is asked for is one of the pool it takes it from. -/
def OsCall.InMap : OsCall → MemState → Prop
  | .mem (.targetVaddrMalloc pf v), x => TargetInMap pf v x
  | _, _ => True

/-- A call begins when no other call is in progress; `thread_unblock` is given a thread. -/
def OsAllowed (s : OsState) : OsEvent → Prop
  | .call c => (∀ t, s.calls t = none) ∧ c.InMap s.mem
  | .threadUnblock t => t ∈ s.sched.allList
  | _ => True

variable {m : Phys} {s s' : OsState} {x x' s₀ : MemState} {t : ℕ} {c : Call} {a : Word}
  {e : OsEvent}

lemma OsAllowed.known (ok : OsAllowed s e) (t : ℕ) (he : e = .threadUnblock t) :
    t ∈ s.sched.allList := by
  subst he
  exact ok

lemma OsInv.active (h : OsInv m s) : DirFrame m s.mem s.mem.cr3 := by
  rw [h.cr3]
  exact h.mem.dirFrame _

/-- The running thread finds the memory as it left it. -/
lemma OsInv.resumed (h : OsInv m s) : s.mem.resumed s.sched.runningThread = s.mem := by
  unfold MemState.resumed
  rw [← h.cr3, ← h.running]

lemma Listed.resumed {threads : List ℕ} {dirs : List Word} (h : Listed m threads dirs x)
    (t : ℕ) : Listed m threads dirs (x.resumed t) where
  threads u hu := Settled.of_pool (h.threads u hu) rfl
  dirs d hd := by
    obtain ⟨f, hf⟩ := h.dirs d hd
    exact ⟨f, hf.walk, ⟨hf.dir.toKernelHalf, hf.dir.nonzero, hf.dir.taken⟩, hf.low, hf.high⟩

lemma CallInv.listed {threads : List ℕ} {dirs : List Word} (h : CallInv m s₀ x)
    (hr : Listed m threads dirs s₀) : Listed m threads dirs x where
  threads u hu := h.settled u (hr.threads u hu)
  dirs d hd := by
    obtain ⟨f, hf⟩ := hr.dirs d hd
    exact ⟨f, h.dirs d f hf⟩

/-- In a call the caller keeps its directory. -/
lemma CallInv.dirFrame (h : CallInv m s₀ x) (hi : DirInv m s₀) (ht : Settled s₀ t) :
    dirFrame x t = dirFrame s₀ t := by
  have hdir := h.pgDir t ht
  by_cases h0 : s₀.pgDir t = 0
  · rw [OsI386.dirFrame, OsI386.dirFrame, hdir, if_pos h0, if_pos h0]
  · obtain ⟨f, hf⟩ := hi.threads t h0
    rw [hf.dirFrame h0]
    have hat : DirAt m x (x.pgDir t) f := hdir ▸ h.dirs _ f hf
    exact hat.dirFrame (hdir ▸ h0)

end Invariant

section Switches

variable {m : Phys} {s s' : OsState} {sched : Scheduler ℕ} {e : OsEvent}

/-- The state after a switch to the thread `sched` runs. -/
def OsState.switched (s : OsState) (sched : Scheduler ℕ) : OsState :=
  { s with
    sched := sched
    mem := s.mem.resumed sched.runningThread
    esp0 := if s.mem.pgDir sched.runningThread ≠ 0 then tssEsp0Update sched.runningThread
      else s.esp0 }

/-- A step of the scheduler, which switches to another thread or does not. -/
inductive Rescheduled (s : OsState) : OsState → Prop
  | switched {sched : Scheduler ℕ} (hinv : SchedInv sched)
      (hall : sched.allList = s.sched.allList) : Rescheduled s (s.switched sched)
  | stays {sched : Scheduler ℕ} (hinv : SchedInv sched) (hall : sched.allList = s.sched.allList)
      (hrun : sched.runningThread = s.sched.runningThread) :
      Rescheduled s { s with sched := sched }

/-- `main_schedule`, from any state it may find the scheduler in. -/
lemma osMainSchedule_rescheduled (hmem : DirInv m s.mem) (hact : DirFrame m s.mem s.mem.cr3)
    (hall : sched.allList = s.sched.allList) (hrun : sched.runningThread = s.sched.runningThread)
    (hinv : ∀ s1, mainSchedule sched = some s1 → SchedInv s1 ∧ s1.allList = sched.allList)
    (hs : osMainSchedule { s with sched := sched } = some s') : Rescheduled s s' := by
  obtain ⟨s1, h1, hs⟩ := Option.bind_eq_some_iff.mp hs
  obtain ⟨hi, ha⟩ := hinv s1 h1
  by_cases hneed : sched.needSchedule = true
  · rw [if_pos hneed] at hs
    have hactivate : (processActivate s1.runningThread).run s.mem = _ :=
      runs_processActivate hmem hact s1.runningThread
    simp only [activate, hactivate] at hs
    exact Option.some.inj hs ▸ .switched hi (ha.trans hall)
  · rw [if_neg hneed] at hs
    have hsame : s1 = sched := by
      simpa [mainSchedule, hneed] using h1.symm
    exact Option.some.inj hs ▸ .stays hi (ha.trans hall) (hsame ▸ hrun)

/-- What a step of the system can be. -/
lemma osStep_cases (hmem : DirInv m s.mem) (hact : DirFrame m s.mem s.mem.cr3)
    (hsched : SchedInv s.sched) (known : ∀ t, e = .threadUnblock t → t ∈ s.sched.allList)
    (hs : osStep s e = some s') :
    (∃ c, e = .call c ∧ s.calls s.sched.runningThread = none ∧ s' = { s with
      calls := Function.update s.calls s.sched.runningThread (some ⟨c, c.prog⟩) }) ∨
    (e = .access ∧ osAccess s s.sched.runningThread = some s') ∨ Rescheduled s s' := by
  have hmain : ∀ sched : Scheduler ℕ, SchedInv sched →
      ∀ s1, mainSchedule sched = some s1 → SchedInv s1 ∧ s1.allList = sched.allList := by
    intro sched hi s1 h1
    obtain ⟨s2, h2, hi2, ha2⟩ := mainSchedule_spec hi.toSchedWeak (.inl hi.current)
    obtain rfl := Option.some.inj (h1.symm.trans h2)
    exact ⟨hi2, ha2⟩
  cases e with
  | call c =>
    simp only [osStep, Option.isNone_iff_eq_none] at hs
    split_ifs at hs with hnone
    exact .inl ⟨c, rfl, hnone, (Option.some.inj hs).symm⟩
  | access => exact .inr (.inl ⟨rfl, hs⟩)
  | threadUnblock t =>
    obtain ⟨sched, hu, hs⟩ := Option.bind_eq_some_iff.mp hs
    have hsleep : (s.sched.tcb t).status.Sleeping := by
      by_contra hn
      simp [OsI386.threadUnblock, hn] at hu
    obtain ⟨s1, h1, hi, ha, hr, -⟩ := threadUnblock_spec hsched (known t rfl) hsleep
    obtain rfl := Option.some.inj (h1.symm.trans hu)
    exact .inr (.inr (Option.some.inj hs ▸ .stays hi ha hr))
  | timerInterrupt =>
    obtain ⟨sched, ht, hs⟩ := Option.bind_eq_some_iff.mp hs
    obtain ⟨s1, h1, hi, ha⟩ := intrTimerHandler_spec hsched
    obtain rfl := Option.some.inj (h1.symm.trans ht)
    exact .inr (.inr (osMainSchedule_rescheduled hmem hact ha
      (intrTimerHandler_records ht).1.runningThread (hmain s1 hi) hs))
  | mainSchedule =>
    exact .inr (.inr (osMainSchedule_rescheduled hmem hact rfl rfl (hmain _ hsched) hs))
  | threadBlock st =>
    obtain ⟨sched, hb, hs⟩ := Option.bind_eq_some_iff.mp hs
    have hst : st.Sleeping := by
      by_contra hn
      simp [threadSleep, hn] at hb
    obtain ⟨s1, h1, hw, hneed, ha, hr, -⟩ := threadSleep_spec hsched hst
    obtain rfl := Option.some.inj (h1.symm.trans hb)
    simp only [hneed, if_true] at hs
    refine .inr (.inr (osMainSchedule_rescheduled hmem hact ha hr (fun s2 h2 => ?_) hs))
    have hstep : schedStep s.sched (.threadBlock st) = some s2 := by
      simp [schedStep, threadBlock, h1, schedule, hneed, h2]
    have hok : SchedAllowed s.sched (.threadBlock st) :=
      schedAllowed_of_taken hsched (fun _ he => by cases he) hstep
    obtain ⟨s3, h3, hi3, ha3⟩ := threadBlock_spec hsched hok.1 hok.2
    obtain rfl := Option.some.inj (h3.symm.trans hstep)
    exact ⟨hi3, ha3.trans ha.symm⟩

/-- A call in progress does not see who ran meanwhile. -/
lemma InCall.setSched {t : ℕ} {c : Call} {x : MemState} {esp0 : Word} (h : InCall m s t c)
    (hall : sched.allList = s.sched.allList) (hres : x.resumed t = s.mem.resumed t) :
    InCall m { s with sched := sched, mem := x, esp0 := esp0 } t c := by
  obtain ⟨halone, hmem, s₀, tr, hi, hrun, hcr3, hlisted, hsafe⟩ := h
  refine ⟨halone, hall ▸ hmem, s₀, tr, hi, hrun, hcr3, ?_, ?_⟩
  · rw [hall]
    exact hlisted
  · rw [hres]
    exact hsafe

lemma OsInv.rescheduled (h : OsInv m s) (hs : Rescheduled s s') : OsInv m s' := by
  cases hs with
  | @switched sched hinv hall =>
    constructor
    case sched => exact hinv
    case mem => exact h.mem.resumed _
    case running => rfl
    case cr3 => rfl
    case esp0 => exact fun hne => if_pos hne
    case listed =>
      have hlisted := h.listed.resumed sched.runningThread
      rw [← hall] at hlisted
      exact hlisted
    case calls => exact fun t c hc => (h.calls t c hc).setSched hall rfl
  | @stays sched hinv hall hrun =>
    constructor
    case sched => exact hinv
    case mem => exact h.mem
    case running => exact h.running.trans hrun.symm
    case cr3 =>
      change s.mem.cr3 = dirFrame s.mem sched.runningThread
      rw [hrun, h.cr3]
    case esp0 =>
      change s.mem.pgDir sched.runningThread ≠ 0 → s.esp0 = tssEsp0Update sched.runningThread
      rw [hrun]
      exact h.esp0
    case listed =>
      change Listed m sched.allList s.dirs s.mem
      rw [hall]
      exact h.listed
    case calls => exact fun t c hc => (h.calls t c hc).setSched hall rfl

end Switches

section Steps

variable {m : Phys} {s s' : OsState} {x : MemState} {sched sched' : Scheduler ℕ} {a : Word}
  {t prio : ℕ} {kind c : OsCall}

lemma threadRun_taken (h : SchedInv sched) (hs : threadRun sched t prio = some sched') :
    SchedInv sched' ∧ sched'.allList = sched.allList ++ [t] ∧
      sched'.runningThread = sched.runningThread := by
  have ok : SchedAllowed sched (.threadRun t prio) :=
    schedAllowed_of_taken h (fun _ he => by cases he) hs
  obtain ⟨s1, h1, hinv, hall, hrun⟩ := threadRun_spec h ok.1 ok.2
  obtain rfl := Option.some.inj (h1.symm.trans hs)
  exact ⟨hinv, hall, hrun⟩

/-- A new thread, or a new directory, while no call is in progress. -/
lemma OsInv.join (h : OsInv m s) (hnone : ∀ t, s.calls t = none) (ht : Settled s.mem t)
    {dirs : List Word} (hd : ∀ d ∈ dirs, ∃ f, DirAt m s.mem d f)
    (hs : threadRun s.sched t prio = some sched) :
    OsInv m { s with sched := sched, dirs := dirs } := by
  obtain ⟨hinv, hall, hrun⟩ := threadRun_taken h.sched hs
  constructor
  case sched => exact hinv
  case mem => exact h.mem
  case running => exact h.running.trans hrun.symm
  case cr3 =>
    change s.mem.cr3 = dirFrame s.mem sched.runningThread
    rw [hrun, h.cr3]
  case esp0 =>
    change s.mem.pgDir sched.runningThread ≠ 0 → s.esp0 = tssEsp0Update sched.runningThread
    rw [hrun]
    exact h.esp0
  case listed =>
    refine ⟨fun u hu => ?_, hd⟩
    rcases List.mem_append.mp (hall ▸ hu) with hu | hu
    · exact h.listed.threads u hu
    · exact List.mem_singleton.mp hu ▸ ht
  case calls =>
    intro u c hc
    exact absurd hc (by simp [hnone u])

lemma OsInv.osReturn (h : OsInv m s) (hnone : ∀ t, s.calls t = none) (hp : kind.Post s.mem a)
    (hs : osReturn s kind a = some s') : OsInv m s' := by
  cases kind with
  | threadRun prio =>
    obtain ⟨sched, hrun, rfl⟩ := Option.map_eq_some_iff.mp hs
    exact h.join hnone hp h.listed.dirs hrun
  | mem c =>
    cases c with
    | processRun =>
      obtain ⟨sched, hrun, rfl⟩ := Option.map_eq_some_iff.mp hs
      refine h.join hnone hp (fun d hd => ?_) hrun
      split_ifs at hd with h0
      · exact h.listed.dirs d hd
      · rcases List.mem_cons.mp hd with rfl | hd
        · exact h.mem.threads _ h0
        · exact h.listed.dirs d hd
    | kernelPagesMalloc n => exact Option.some.inj hs ▸ h
    | userPagesMalloc n => exact Option.some.inj hs ▸ h
    | targetVaddrMalloc pf v => exact Option.some.inj hs ▸ h

lemma osReturn_frame (hs : osReturn s kind a = some s') :
    s'.mem = s.mem ∧ s'.calls = s.calls ∧ s'.trace = s.trace := by
  cases kind with
  | threadRun prio =>
    obtain ⟨sched, -, rfl⟩ := Option.map_eq_some_iff.mp hs
    exact ⟨rfl, rfl, rfl⟩
  | mem c =>
    cases c with
    | processRun =>
      obtain ⟨sched, -, rfl⟩ := Option.map_eq_some_iff.mp hs
      exact ⟨rfl, rfl, rfl⟩
    | _ => exact Option.some.inj hs ▸ ⟨rfl, rfl, rfl⟩

/-- Each call of memory management keeps what holds of the directories. -/
lemma CallInv.osCall (h : CallInv m x x) {c : OsCall} (hc : c.InMap x) :
    c.prog.Safe (fun _ y => CallInv m x y) (fun _ y a => c.Post y a) [] x := by
  cases c with
  | threadRun prio => exact h.threadCreateMemory
  | mem c =>
    cases c with
    | kernelPagesMalloc n => exact h.call (grows_of_steady (steady_mallocPage .kernel n))
    | userPagesMalloc n => exact h.call (grows_userPagesMalloc n)
    | targetVaddrMalloc pf v => exact h.call (grows_targetVaddrMalloc hc)
    | processRun => exact h.processRunMemory

/-- The first moment of a call. -/
lemma OsInv.startCall (h : OsInv m s) (hnone : ∀ t, s.calls t = none) (hc : c.InMap s.mem) :
    OsInv m { s with
      calls := Function.update s.calls s.sched.runningThread (some ⟨c, c.prog⟩) } where
  sched := h.sched
  mem := h.mem
  running := h.running
  cr3 := h.cr3
  esp0 := h.esp0
  listed := h.listed
  calls t d hd := by
    obtain ⟨rfl, rfl⟩ := update_call (fun u _ => hnone u) hd
    refine ⟨fun u hu => ?_, h.sched.running, s.mem, [], h.mem, h.running, h.cr3, h.listed, ?_⟩
    · exact (Function.update_of_ne hu _ _).trans (hnone u)
    · have hres := h.resumed
      rw [show ({ s with calls := _ } : OsState).mem.resumed s.sched.runningThread = s.mem from hres]
      exact (CallInv.start h.mem h.active).osCall hc

lemma osAccess_cases (hs : osAccess s t = some s') : ∃ c, s.calls t = some c ∧
    ((∃ a, c.rest = .ret a ∧
        osReturn { s with calls := Function.update s.calls t none } c.kind a = some s') ∨
      ∃ ls mem rest, c.rest.advance s.mem = some (ls, mem, rest) ∧ s' = { s with
        mem := mem
        calls := Function.update s.calls t (some { c with rest := rest })
        trace := s.trace ++ ls.map fun x => (t, x) }) := by
  obtain ⟨c, hc, hs⟩ := Option.bind_eq_some_iff.mp hs
  refine ⟨c, hc, ?_⟩
  cases hr : c.rest with
  | ret a =>
    simp only [hr] at hs
    exact .inl ⟨a, rfl, hs⟩
  | act _ _ | emit _ _ | stop _ =>
    simp only [hr] at hs
    obtain ⟨⟨ls, mem, rest⟩, ha, hs⟩ := Option.bind_eq_some_iff.mp hs
    exact .inr ⟨ls, mem, rest, ha, (Option.some.inj hs).symm⟩

lemma OsInv.access (h : OsInv m s) (hs : osAccess s s.sched.runningThread = some s') :
    OsInv m s' := by
  obtain ⟨c, hc, hcases⟩ := osAccess_cases hs
  obtain ⟨halone, hmem, s₀, tr, hi, hrun, hcr3, hlisted, hsafe⟩ := h.calls _ c hc
  rw [h.resumed] at hsafe
  rcases hcases with ⟨a, hr, hs⟩ | ⟨ls, mem, rest, hadv, rfl⟩
  · rw [hr] at hsafe
    have hnone : ∀ u, Function.update s.calls s.sched.runningThread none u = none := by
      intro u
      by_cases hu : u = s.sched.runningThread
      · rw [hu, Function.update_self]
      · rw [Function.update_of_ne hu, halone u hu]
    have hend : OsInv m
        { s with calls := Function.update s.calls s.sched.runningThread none } :=
      ⟨h.sched, h.mem, h.running, h.cr3, h.esp0, h.listed, fun u c hu => by
        simp [hnone u] at hu⟩
    exact hend.osReturn hnone hsafe.2 hs
  · have hrest := hsafe.advance hadv
    have hcall : CallInv m s₀ mem := hrest.start
    have hset : Settled s₀ s.sched.runningThread := hlisted.threads _ hmem
    have hdir : dirFrame mem s.sched.runningThread = dirFrame s₀ s.sched.runningThread :=
      hcall.dirFrame hi hset
    have hbefore : CallInv m s₀ s.mem := hsafe.start
    constructor
    case sched => exact h.sched
    case mem => exact hcall.inv
    case running => exact hcall.running.trans hrun
    case cr3 => exact hcall.cr3.trans (hcr3.trans hdir.symm)
    case esp0 =>
      change mem.pgDir _ ≠ 0 → _
      rw [hcall.pgDir _ hset, ← hbefore.pgDir _ hset]
      exact h.esp0
    case listed => exact hcall.listed hlisted
    case calls =>
      intro u d hd
      obtain ⟨rfl, rfl⟩ := update_call halone hd
      refine ⟨fun v hv => ?_, hmem, s₀, tr ++ ls, hi, hrun, hcr3, hlisted, ?_⟩
      · exact (Function.update_of_ne hv _ _).trans (halone v hv)
      · have hres : mem.resumed s.sched.runningThread = mem := by
          unfold MemState.resumed
          rw [hdir, ← hcr3, ← hcall.cr3, ← hrun, ← hcall.running]
        change rest.Safe _ _ _ (mem.resumed s.sched.runningThread)
        rw [hres]
        exact hrest

lemma OsInv.step (h : OsInv m s) {e : OsEvent} (ok : OsAllowed s e) (hs : osStep s e = some s') :
    OsInv m s' := by
  rcases osStep_cases h.mem h.active h.sched ok.known hs with
    ⟨c, rfl, -, rfl⟩ | ⟨rfl, hs⟩ | hs
  · exact h.startCall ok.1 ok.2
  · exact h.access hs
  · exact h.rescheduled hs

end Steps

section Start

variable {m : Phys} {s0 : MemState} {allMem : Word} {page : ℕ → BitVec 8} {garbage : ℕ → Tcb}
  {s : OsState}

/-- The pools above the tables of the loader, and one directory. -/
lemma DirInv.init (hphys : s0.phys = setupPage m) (hdir : ∀ t, s0.pgDir t = 0)
    (htop : 0xc0100000 + ((memPoolInit s0 allMem).btmp .kernelVir).bitNum * 4096 ≤ 0xffc00000) :
    DirInv m (memPoolInit s0 allMem) := by
  have h21 : 2 ^ 21 ≤ allMem.toNat := by
    by_contra hsmall
    have hnum : ((memPoolInit s0 allMem).btmp .kernelVir).bitNum =
        (2 ^ 32 - 0x200000 + allMem.toNat) % 2 ^ 32 / 4096 / 2 := by
      simp only [MemState.btmp, memPoolInit, poolInit, bitmapInit_bitNum, BitVec.toNat_udiv,
        BitVec.toNat_sub]
      rfl
    rw [hnum] at htop
    omega
  have hinv : PhysInv allMem [] (memPoolInit s0 allMem) := PhysInv.init h21
  have hlow : ∀ f, FreeFrame (memPoolInit s0 allMem) f → 0x200 ≤ f.toNat := by
    rintro f ⟨pf, i, hi, rfl⟩
    exact bootFrame_ge hinv hi.1
  constructor
  case pools => exact hinv.phyPools h21
  case low => exact hlow
  case heap =>
    have hbase : ((memPoolInit s0 allMem).pool .kernelVir).addrBase.toNat = 0xc0100000 := rfl
    constructor <;> rw [hbase]
    · intro _
      omega
    · exact htop
  case heapBase => rfl
  case threads => exact fun t ht => absurd (hdir t) ht
  case kernel =>
    refine ⟨⟨fun i _ _ => ?_, ?_⟩, by decide, fun hf => absurd (hlow _ hf) (by decide)⟩
    · exact congrFun (congrFun hphys _) _
    · change Window s0.phys 0x100
      rw [hphys]
      exact setupPage_window m

/-- The page the boot thread runs in lies below the heap. -/
lemma settled_bootThread (hi : DirInv m s0) : Settled s0 bootThread := by
  intro i hfree he
  have haddr := toNat_pageAddr hi.heap (by norm_num) hfree.1
  rw [hi.heapBase, ← he] at haddr
  have hb : kHeapStart.toNat = 0xc0100000 := rfl
  unfold bootThread at haddr
  omega

/-- While no thread has a directory the kernel's is active. -/
lemma resumed_eq {x : MemState} (hdir : ∀ t, x.pgDir t = 0) (hcr3 : x.cr3 = 0x100) (t : ℕ) :
    x.resumed t = { x with running := t } := by
  unfold MemState.resumed
  rw [dirFrame, if_pos (hdir t), ← hcr3]

/-- The tcb of the boot thread, which runs in it. -/
def Booted (x y : MemState) : Prop := ∃ q, y = { x with
  running := bootThread
  pool := Function.update x.pool (.userVir bootThread) q
  pgDir := Function.update x.pgDir bootThread 0 }

/-- `thread_all_init` takes a page for the map of the ready queues and makes the tcb of the boot
thread. -/
lemma safe_threadAllInit {x : MemState} {P : List MemLabel → MemState → Prop}
    (h : (kernelPagesMalloc 1).Safe (anywhere { x with running := 0 }) (fun t y _ => P t y) []
      { x with running := 0 }) :
    threadAllInitMemory.Safe (anywhere x) (fun t y _ => ∃ z, P t z ∧ Booted z y) [] x := by
  refine .bind (P := fun t y _ => P t y) ?_ ?_
  · refine .bind (P := fun t y _ => t = [] ∧ y = { x with running := 0 })
      (.modify trivial trivial ⟨rfl, rfl⟩) ?_
    rintro _ _ _ - ⟨rfl, rfl⟩
    refine Safe.bind h fun t y base _ hy => ?_
    split_ifs
    · exact .stop trivial
    · exact .ret trivial hy
  · intro t z _ _ hz
    refine .bind (P := fun u y _ => u = t ∧ y = { z with running := bootThread })
      (.modify trivial trivial ⟨rfl, rfl⟩) ?_
    rintro _ _ _ - ⟨rfl, rfl⟩
    unfold OsI386.threadInit
    rw [if_neg (by decide)]
    exact .modify trivial trivial ⟨z, hz, _, rfl⟩

lemma DirInv.running {x : MemState} (h : DirInv m x) (hcr3 : x.cr3 = 0x100) (hdir : ∀ t, x.pgDir t = 0) (t : ℕ) :
    DirInv m { x with running := t } ∧ Ready { x with running := t } := by
  have h1 : DirInv m { x with running := t } := resumed_eq hdir hcr3 t ▸ h.resumed t
  have hd : DirFrame m { x with running := t } x.cr3 := hcr3 ▸ h1.kernel
  exact ⟨h1, h1.ready hd⟩

lemma DirInv.booted {x y : MemState} (h : DirInv m x) (hcr3 : x.cr3 = 0x100)
    (hdir : ∀ t, x.pgDir t = 0) (hy : Booted x y) :
    DirInv m y ∧ y.running = bootThread ∧ y.cr3 = 0x100 ∧ ∀ t, y.pgDir t = 0 := by
  obtain ⟨q, rfl⟩ := hy
  have h1 : DirInv m { x with running := bootThread } := (h.running hcr3 hdir bootThread).1
  have hd1 : DirFrame m { x with running := bootThread } x.cr3 := hcr3 ▸ h1.kernel
  have hdir1 : ∀ t, Function.update x.pgDir bootThread 0 t = 0 := by
    intro t
    by_cases ht : t = bootThread
    · rw [ht, Function.update_self]
    · exact (Function.update_of_ne ht _ _).trans (hdir t)
  refine ⟨?_, rfl, hcr3, hdir1⟩
  exact ((CallInv.start h1 hd1).setThread (fun p hp => Function.update_of_ne hp _ _)
    (fun t ht => Function.update_of_ne ht _ _) (fun hne => absurd (hdir1 _) hne)
    fun _ => (hdir1 _).trans (hdir _).symm).inv

/-- `scheduler_init` takes a page, and no directory changes. -/
lemma threadAllInit_booted {x y : MemState} {tr : List MemLabel}
    (hr : threadAllInitMemory.Runs x tr y ()) :
    ∃ z, Steady { x with running := 0 } z ∧ Booted z y :=
  (safe_threadAllInit (P := fun _ z => Steady { x with running := 0 } z)
    (Safe.mono (steady_mallocPage .kernel 1) (fun _ _ _ => trivial) fun _ _ _ hs _ => hs)).runs hr

lemma DirInv.threadAllInit {x y : MemState} {tr : List MemLabel} (h : DirInv m x)
    (hcr3 : x.cr3 = 0x100) (hdir : ∀ t, x.pgDir t = 0) (hr : threadAllInitMemory.Runs x tr y ()) :
    DirInv m y ∧ y.running = bootThread ∧ y.cr3 = 0x100 ∧ ∀ t, y.pgDir t = 0 := by
  obtain ⟨h1, hready⟩ := h.running hcr3 hdir 0
  obtain ⟨z, hz, hy⟩ := threadAllInit_booted hr
  exact (h1.grows hready hz.toGrows).booted (hz.cr3.trans hcr3)
    (fun t => (congrFun hz.pgDir t).trans (hdir t)) hy

lemma OsInv.init (h₀ : osInit s0 allMem page garbage = some s) (hphys : s0.phys = setupPage m)
    (hcr3 : s0.cr3 = 0x100) (hdir : ∀ t, s0.pgDir t = 0)
    (htop : 0xc0100000 + ((memPoolInit s0 allMem).btmp .kernelVir).bitNum * 4096 ≤ 0xffc00000) :
    OsInv m s := by
  obtain ⟨sched, tr, x, hsched, hr, rfl⟩ := osInit_cases h₀
  obtain ⟨hmem, hrun, hcr3, hdir⟩ := (DirInv.init hphys hdir htop).threadAllInit hcr3 hdir hr
  obtain ⟨s1, h1, hinv, hall⟩ := threadAllInit_spec bootThread page garbage
  obtain rfl := Option.some.inj (h1.symm.trans hsched)
  have hboot : s1.runningThread = bootThread := List.mem_singleton.mp (hall ▸ hinv.running)
  constructor
  case sched => exact hinv
  case mem => exact hmem
  case running => exact hrun.trans hboot.symm
  case cr3 => exact hcr3.trans (if_pos (hdir _)).symm
  case esp0 => exact fun hne => absurd (hdir _) hne
  case listed =>
    refine ⟨fun t ht => ?_, fun d hd => absurd hd List.not_mem_nil⟩
    change t ∈ s1.allList at ht
    rw [hall, List.mem_singleton] at ht
    exact ht ▸ settled_bootThread hmem
  case calls => exact fun t c hc => by cases hc

end Start

end OsI386
