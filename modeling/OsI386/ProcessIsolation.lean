import OsI386.Isolation
import OsI386.ProcessFailure

/-!
# Processes do not share frames

While the kernel pool has a frame whenever one is needed, each frame keeps its owner over every
run, and what the walks of two directories go through below 0xc0000000 are frames of two owners.
-/
namespace OsI386
open Prog TransitionSystem

section Runs

variable {m : Phys} {s s' : OsState} {x s₀ : MemState} {own : FrameNo → Owner} {kind : OsCall}
  {a : Word} {e : OsEvent}

lemma inIsolation_osCall (h : inIsolation m x [] x) {c : OsCall} (hc : c.InMap x) :
    c.prog.Safe (inIsolation m x) (fun _ _ _ => True) [] x := by
  cases c with
  | threadRun prio => exact inIsolation_threadCreateMemory h
  | mem c =>
    cases c with
    | kernelPagesMalloc n => exact inIsolation_kernelPagesMalloc h
    | userPagesMalloc n => exact inIsolation_userPagesMalloc h
    | targetVaddrMalloc pf v => exact inIsolation_targetVaddrMalloc h hc
    | processRun => exact inIsolation_processRunMemory h

lemma Owned.resumed (h : Owned m own x) (hi : DirInv m x) (t : ℕ) :
    Owned m own (x.resumed t) where
  free := h.free
  low := h.low
  zero := h.zero
  entries := h.entries
  active := by
    by_cases ht : x.pgDir t = 0
    · exact .inl (if_pos ht)
    · obtain ⟨f, hf⟩ := hi.threads t ht
      have hframe : (x.resumed t).cr3 = f := hf.dirFrame ht
      rw [hframe]
      exact .inr (h.dirs t f ht hf.walk)
  dirs := h.dirs
  inj := h.inj

/-- No call has found the kernel pool without a frame. -/
def Spared (s : OsState) : Prop := ∀ t, (t, MemLabel.noFrame .kernelPhy) ∉ s.trace

structure OsIsolated (m : Phys) (s : OsState) : Prop where
  mem : ∃ own, Owned m own s.mem
  calls : ∀ t c, s.calls t = some c → ∃ s₀ tr, (∀ l ∈ tr, (t, l) ∈ s.trace) ∧
    c.rest.Safe (inIsolation m s₀) (fun _ _ _ => True) tr (s.mem.resumed t)

/-- A step of the scheduler alone. -/
def Switched (s s' : OsState) : Prop :=
  s'.calls = s.calls ∧ s'.trace = s.trace ∧ (s'.mem = s.mem ∨ ∃ t, s'.mem = s.mem.resumed t)

lemma Rescheduled.frame (h : Rescheduled s s') : Switched s s' := by
  cases h with
  | switched => exact ⟨rfl, rfl, .inr ⟨_, rfl⟩⟩
  | stays => exact ⟨rfl, rfl, .inl rfl⟩

lemma OsIsolated.switched (h : OsIsolated m s) (hI : OsInv m s) (hs : Switched s s') :
    OsIsolated m s' := by
  obtain ⟨hcalls, htrace, hmem⟩ := hs
  obtain ⟨own, hown⟩ := h.mem
  constructor
  case mem =>
    rcases hmem with hmem | ⟨t, hmem⟩
    · exact ⟨own, hmem ▸ hown⟩
    · exact ⟨own, hmem ▸ hown.resumed hI.mem t⟩
  case calls =>
    intro u c hc
    obtain ⟨s₀, tr, htr, hsafe⟩ := h.calls u c (hcalls ▸ hc)
    -- what a thread goes on in does not depend on who ran meanwhile
    have hres : s'.mem.resumed u = s.mem.resumed u := by
      rcases hmem with hmem | ⟨t, hmem⟩
      · rw [hmem]
      · rw [hmem]
        rfl
    rw [htrace, hres]
    exact ⟨s₀, tr, htr, hsafe⟩

lemma OsInv.switchedStep (h : OsInv m s) (ok : OsAllowed s e) (hs : osStep s e = some s') :
    Switched s s' ∨ e = .access ∨ ∃ c, e = .call c := by
  rcases osStep_cases h.mem h.active h.sched ok.known hs with ⟨c, he, -⟩ | ⟨he, -⟩ | hs
  · exact .inr (.inr ⟨c, he⟩)
  · exact .inr (.inl he)
  · exact .inl hs.frame

/-- The running thread is given memory as its call left it. -/
lemma OsIsolated.access (h : OsIsolated m s) (hI : OsInv m s) (hI' : OsInv m s')
    (hs : osAccess s s.sched.runningThread = some s') (hsp : Spared s') : OsIsolated m s' := by
  obtain ⟨c, hc, ⟨a, -, hret⟩ | ⟨ls, mem, rest, hadv, rfl⟩⟩ := osAccess_cases hs
  · obtain ⟨hmem, hcalls, htrace⟩ := osReturn_frame hret
    refine ⟨hmem ▸ h.mem, fun u d hd => ?_⟩
    rw [hcalls] at hd
    have hu : u ≠ s.sched.runningThread := by
      rintro rfl
      simp at hd
    have hd' : s.calls u = some d := by
      rw [← hd]
      exact (Function.update_of_ne hu _ _).symm
    rw [hmem, htrace]
    exact h.calls u d hd'
  · obtain ⟨s₀, tr, htr, hsafe⟩ := h.calls _ c hc
    rw [hI.resumed] at hsafe
    have hrest := hsafe.advance hadv
    have htr' : ∀ l ∈ tr ++ ls, (s.sched.runningThread, l) ∈
        s.trace ++ ls.map fun x => (s.sched.runningThread, x) := by
      intro l hl
      rcases List.mem_append.mp hl with hl | hl
      · exact List.mem_append_left _ (htr l hl)
      · exact List.mem_append_right _ (List.mem_map_of_mem hl)
    constructor
    case mem => exact hrest.start.2 fun hn => hsp _ (htr' _ hn)
    case calls =>
      intro u d hd
      obtain ⟨rfl, rfl⟩ := update_call (hI.calls _ c hc).alone hd
      refine ⟨s₀, tr ++ ls, htr', ?_⟩
      have hres : mem.resumed s.sched.runningThread = mem := hI'.resumed
      exact hres.symm ▸ hrest

lemma OsIsolated.startCall (h : OsIsolated m s) (hI : OsInv m s) (hnone : ∀ t, s.calls t = none)
    {c : OsCall} (hc : c.InMap s.mem) : OsIsolated m { s with
      calls := Function.update s.calls s.sched.runningThread (some ⟨c, c.prog⟩) } := by
  refine ⟨h.mem, fun u d hd => ?_⟩
  obtain ⟨rfl, rfl⟩ := update_call (fun u _ => hnone u) hd
  refine ⟨s.mem, [], fun _ hl => absurd hl List.not_mem_nil, ?_⟩
  have hres : s.mem.resumed s.sched.runningThread = s.mem := hI.resumed
  have hstart : inIsolation m s.mem [] s.mem := ⟨CallInv.start hI.mem hI.active, fun _ => h.mem⟩
  exact hres.symm ▸ inIsolation_osCall hstart hc

lemma osStep_trace (h : OsInv m s) (ok : OsAllowed s e) (hs : osStep s e = some s') :
    ∃ ls, s'.trace = s.trace ++ ls := by
  rcases h.switchedStep ok hs with ⟨-, htrace, -⟩ | rfl | ⟨c, rfl⟩
  · exact ⟨[], by rw [htrace, List.append_nil]⟩
  · obtain ⟨c, -, ⟨a, -, hret⟩ | ⟨ls, mem, rest, -, rfl⟩⟩ := osAccess_cases hs
    · exact ⟨[], by rw [(osReturn_frame hret).2.2, List.append_nil]⟩
    · exact ⟨_, rfl⟩
  · simp only [osStep] at hs
    split_ifs at hs
    obtain rfl := Option.some.inj hs
    exact ⟨[], (List.append_nil _).symm⟩

lemma OsIsolated.step (h : Spared s → OsIsolated m s) (hI : OsInv m s) (ok : OsAllowed s e)
    (hs : osStep s e = some s') (hsp : Spared s') : OsIsolated m s' := by
  have hprior : OsIsolated m s := by
    obtain ⟨ls, htrace⟩ := osStep_trace hI ok hs
    exact h fun t ht => hsp t (htrace ▸ List.mem_append_left ls ht)
  rcases hI.switchedStep ok hs with hsw | rfl | ⟨c, rfl⟩
  · exact hprior.switched hI hsw
  · exact hprior.access hI (hI.step ok hs) hs hsp
  · obtain ⟨hnone, hmap⟩ := ok
    simp only [osStep, hnone, Option.isNone_none, if_true] at hs
    exact Option.some.inj hs ▸ hprior.startCall hI hnone hmap

end Runs

section Start

variable {m : Phys} {s0 : MemState} {allMem : Word} {page : ℕ → BitVec 8} {garbage : ℕ → Tcb}
  {s : OsState}

open Classical in
/-- After the loader the frames of the pools are free, and all others in no pool. -/
lemma Owned.init (hi : DirInv m (memPoolInit s0 allMem)) (hphys : s0.phys = setupPage m)
    (hcr3 : s0.cr3 = 0x100) (hdir : ∀ t, s0.pgDir t = 0)
    (hzero : ∀ f i, FreeFrame (memPoolInit s0 allMem) f → s0.phys f i = 0) :
    Owned m (fun f => if FreeFrame (memPoolInit s0 allMem) f then .free else .outside)
      (memPoolInit s0 allMem) where
  free f hf := if_pos hf
  low f hf := if_neg fun hfree => absurd (hi.low f hfree) (by omega)
  zero f i hf := by
    refine hzero f i ?_
    by_contra hn
    simp [hn] at hf
  entries p i hp := by
    have hn : ¬ FreeFrame (memPoolInit s0 allMem) p := by
      intro hf
      change present (s0.phys p i) = true at hp
      rw [hzero p i hf] at hp
      exact Bool.false_ne_true hp
    exact .inl ⟨if_neg hn, congrFun (congrFun hphys p) i⟩
  active := .inl hcr3
  dirs t f ht := absurd (hdir t) ht
  inj t u f ht := absurd (hdir t) ht

/-- What `init_all` takes gets owners too. -/
lemma Owned.threadAllInit {x y : MemState} {own : FrameNo → Owner} {tr : List MemLabel}
    (h : Owned m own x) (hi : DirInv m x) (hcr3 : x.cr3 = 0x100) (hdir : ∀ t, x.pgDir t = 0)
    (hr : threadAllInitMemory.Runs x tr y ()) (hn : MemLabel.noFrame .kernelPhy ∉ tr) :
    ∃ own, Owned m own y := by
  have h0 : Owned m own { x with running := 0 } := h.of_phys rfl rfl (fun _ _ => rfl) fun _ => id
  have hi0 : DirInv m { x with running := 0 } := (hi.running hcr3 hdir 0).1
  have hstart : inIsolation m { x with running := 0 } [] { x with running := 0 } :=
    ⟨CallInv.start hi0 (hcr3 ▸ hi0.kernel), fun _ => ⟨own, h0⟩⟩
  have hall := safe_threadAllInit
    (P := fun t z => MemLabel.noFrame .kernelPhy ∉ t → ∃ own, Owned m own z)
    (Safe.mono (inIsolation_kernelPagesMalloc hstart) (fun _ _ _ => trivial)
      fun _ _ _ hz _ => hz.2)
  obtain ⟨z, hz, q, rfl⟩ := hall.runs hr
  obtain ⟨own', hown⟩ := hz hn
  have hset : Owned m own' { z with
      pool := Function.update z.pool (.userVir bootThread) q
      pgDir := Function.update z.pgDir bootThread 0 } := by
    refine hown.setThread (fun p hp => Function.update_of_ne hp _ _) fun t ht => ?_
    refine Function.update_of_ne ?_ _ _
    rintro rfl
    exact ht (Function.update_self _ _ _)
  exact ⟨own', hset.of_phys rfl rfl (fun _ _ => rfl) fun _ => id⟩

lemma OsIsolated.init (h₀ : osInit s0 allMem page garbage = some s) (hphys : s0.phys = setupPage m)
    (hcr3 : s0.cr3 = 0x100) (hdir : ∀ t, s0.pgDir t = 0)
    (htop : 0xc0100000 + ((memPoolInit s0 allMem).btmp .kernelVir).bitNum * 4096 ≤ 0xffc00000)
    (hzero : ∀ f i, FreeFrame (memPoolInit s0 allMem) f → s0.phys f i = 0) (hsp : Spared s) :
    OsIsolated m s := by
  obtain ⟨sched, tr, y, -, hr, rfl⟩ := osInit_cases h₀
  have hi := DirInv.init hphys hdir htop
  refine ⟨(Owned.init hi hphys hcr3 hdir hzero).threadAllInit hi hcr3 hdir hr fun hl => ?_,
    fun t c hc => by cases hc⟩
  exact hsp bootThread (List.mem_map.mpr ⟨_, hl, rfl⟩)

end Start

section Results

/-- The frames the walk of `v` from directory `d` goes through. -/
inductive Walked (phys : Phys) (d : FrameNo) (v : Word) : FrameNo → Prop
  | table (hd : present (phys d (pdeIdx v)) = true) : Walked phys d v (frameOf (phys d (pdeIdx v)))
  | page {f : FrameNo} (hf : translate phys d v = some f) : Walked phys d v f

def userFrames (phys : Phys) (d : FrameNo) : Set FrameNo :=
  {f | ∃ v : Word, v.toNat < 0xc0000000 ∧ Walked phys d v f}

/-- The frames of the kernel heap. A page the loader's tables map already is not one of the heap:
`v2p_mapping` panics on it. -/
def heapFrames (m : Phys) (s : MemState) : Set FrameNo :=
  {f | ∃ i < (s.btmp .kernelVir).bitNum,
    translate (setupPage m) 0x100 (s.pageAddr .kernelVir i) = none ∧
      translate s.phys 0x100 (s.pageAddr .kernelVir i) = some f}

/-- The directories `d` and `e` of two processes have nothing in common below 0xc0000000. -/
structure Apart (m : Phys) (s : MemState) (d e : FrameNo) : Prop where
  processes : Disjoint (userFrames s.phys d) (userFrames s.phys e)
  left : Disjoint (userFrames s.phys d) (heapFrames m s)
  right : Disjoint (userFrames s.phys e) (heapFrames m s)

variable {m : Phys} {x : MemState} {own : FrameNo → Owner} {d f : FrameNo} {v : Word}

lemma translate_some {phys : Phys} (h : translate phys d v = some f) :
    present (phys d (pdeIdx v)) = true ∧
      present (phys (frameOf (phys d (pdeIdx v))) (pteIdx v)) = true ∧
      f = frameOf (phys (frameOf (phys d (pdeIdx v))) (pteIdx v)) := by
  dsimp only [translate] at h
  split_ifs at h with hd ht
  exact ⟨hd, ht, (Option.some.inj h).symm⟩

/-- What hangs under the low half of a directory is its process's. -/
lemma Owned.userFrames (h : Owned m own x) (hd : own d = .heap) (hf : f ∈ userFrames x.phys d) :
    own f = .process d := by
  obtain ⟨v, hv, hwalk⟩ := hf
  have hlow : (pdeIdx v).toNat < 768 := by
    rw [toNat_pdeIdx]
    omega
  have htable : present (x.phys d (pdeIdx v)) = true →
      own (frameOf (x.phys d (pdeIdx v))) = .process d := by
    intro hp
    rcases h.entries d _ hp with ⟨hout, -⟩ | ⟨-, hhigh⟩ | hchild
    · simp [hd] at hout
    · omega
    · rwa [hd] at hchild
  cases hwalk with
  | table hp => exact htable hp
  | page hf =>
    obtain ⟨hp, ht, rfl⟩ := translate_some hf
    have hown := htable hp
    rcases h.entries _ _ ht with ⟨hout, -⟩ | ⟨hheap, -⟩ | hchild
    · simp [hown] at hout
    · simp [hown] at hheap
    · rwa [hown] at hchild

lemma Owned.heapFrames (h : Owned m own x) (hi : DirInv m x) (ha : DirFrame m x x.cr3)
    (hf : f ∈ heapFrames m x) : own f = .heap := by
  obtain ⟨i, hlt, hnone, hwalk⟩ := hf
  obtain ⟨hlow, hhigh⟩ := (hi.ready ha).heap_pdeIdx hlt
  obtain ⟨hd, ht, rfl⟩ := translate_some hwalk
  obtain ⟨hout, hne⟩ := h.kernelTable hi.kernel hlow hhigh
  rcases h.entries _ _ ht with ⟨-, hentry⟩ | ⟨hheap, -⟩ | hchild
  · -- an entry of the loader
    have hdir := hi.kernel.entries _ hlow hhigh
    rw [hdir] at hd ht hentry
    rw [hentry] at ht
    dsimp only [translate] at hnone
    rw [if_pos hd, if_pos ht] at hnone
    cases hnone
  · exact absurd (hout.symm.trans hheap) (by simp)
  · rw [hchild, hout, Owner.child, if_neg hne]

/-- Two processes, under two directories. -/
lemma Owned.apart (h : Owned m own x) (hi : DirInv m x) (ha : DirFrame m x x.cr3) {t u : ℕ}
    (hne : t ≠ u) (ht : x.pgDir t ≠ 0) (hu : x.pgDir u ≠ 0) : ∃ d e,
      translate x.phys 0x100 (x.pgDir t) = some d ∧ translate x.phys 0x100 (x.pgDir u) = some e ∧
        Apart m x d e := by
  obtain ⟨d, hd⟩ := hi.threads t ht
  obtain ⟨e, he⟩ := hi.threads u hu
  have hdown := h.dirs t d ht hd.walk
  have heown := h.dirs u e hu he.walk
  have hde : d ≠ e := by
    rintro rfl
    exact hne (h.inj t u d ht hu hd.walk he.walk)
  refine ⟨d, e, hd.walk, he.walk, ?_, ?_, ?_⟩ <;> rw [Set.disjoint_left] <;> intro f hf hg
  · have hboth := (h.userFrames hdown hf).symm.trans (h.userFrames heown hg)
    exact hde (by simpa using hboth)
  · exact absurd ((h.userFrames hdown hf).symm.trans (h.heapFrames hi ha hg)) (by simp)
  · exact absurd ((h.userFrames heown hf).symm.trans (h.heapFrames hi ha hg)) (by simp)

variable {s0 : MemState} {allMem : Word} {page : ℕ → BitVec 8} {garbage : ℕ → Tcb}
  {s₀ s : OsState}

end Results

section TwoProcesses

variable {m : Phys} {s₀ s s' : OsState} {sc sched : Scheduler ℕ} {st : TaskStatus}

lemma runCall_frame {c : OsCall} (hs : runCall s c = some s') : s'.calls = s.calls := by
  unfold runCall at hs
  dsimp only at hs
  cases ho : (c.prog.run s.mem).outcome with
  | done a =>
    rw [ho] at hs
    exact (osReturn_frame hs).2.1
  | _ =>
    rw [ho] at hs
    cases hs

/-- `thread_block` hands the cpu over. -/
lemma OsInv.threadBlock (h : OsInv m s) (hsleep : threadSleep s.sched st = some sc)
    (hmain : mainSchedule sc = some sched) (hneed : sc.needSchedule = true) :
    osStep s (.threadBlock st) = some (s.switched sched) := by
  have hrun : (processActivate sched.runningThread).run s.mem = _ :=
    runs_processActivate h.mem h.active sched.runningThread
  simp [osStep, OsI386.osMainSchedule, activate, hsleep, hmain, hneed, hrun, OsState.switched]

/-- A state between two calls. -/
structure BetweenCalls (m : Phys) (s₀ s : OsState) : Prop where
  reach : Reach osStep OsAllowed s₀ s
  inv : OsInv m s
  idle : ∀ t, s.calls t = none

lemma BetweenCalls.boot {allMem : Word} (h₀ : bootSystem allMem = some s)
    (htop : 0xc0100000 + ((memPoolInit bootMem allMem).btmp .kernelVir).bitNum * 4096 ≤
      0xffc00000) : BetweenCalls (fun _ _ => 0) s s where
  reach := .refl
  inv := (osInv_bootSystem h₀ htop).1
  idle := by
    obtain ⟨_, _, _, -, -, rfl⟩ := osInit_cases h₀
    exact fun _ => rfl

lemma BetweenCalls.call (h : BetweenCalls m s₀ s) {c : OsCall} (hc : c.InMap s.mem)
    (hs : runCall s c = some s') : BetweenCalls m s₀ s' := by
  have hrun : Reach osStep OsAllowed s s' :=
    reach_runCall (c := c) ⟨h.idle, hc⟩ (fun _ => trivial) (h.idle _) hs
  refine ⟨h.reach.trans hrun, ?_, fun t => ?_⟩
  · exact hrun.invariant h.inv fun _ _ _ hI ok ht => hI.step ok ht
  · rw [runCall_frame hs]
    exact h.idle t

lemma BetweenCalls.threadBlock (h : BetweenCalls m s₀ s) (hs : osStep s (.threadBlock st) = some s') :
    BetweenCalls m s₀ s' := by
  have hsw : Switched s s' :=
    (h.inv.switchedStep (e := .threadBlock st) trivial hs).resolve_right (by simp)
  exact ⟨h.reach.snoc (e := .threadBlock st) trivial hs, h.inv.step (e := .threadBlock st) trivial hs,
    fun t => hsw.1 ▸ h.idle t⟩

lemma BetweenCalls.threadUnblock (h : BetweenCalls m s₀ s) {t : ℕ} (ht : t ∈ s.sched.allList)
    (hs : osStep s (.threadUnblock t) = some s') : BetweenCalls m s₀ s' := by
  have hsw : Switched s s' :=
    (h.inv.switchedStep (e := .threadUnblock t) ht hs).resolve_right (by simp)
  exact ⟨h.reach.snoc (e := .threadUnblock t) ht hs, h.inv.step (e := .threadUnblock t) ht hs,
    fun t => hsw.1 ▸ h.idle t⟩

end TwoProcesses

end OsI386
