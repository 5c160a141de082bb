import OsI386.InterruptTables
import OsI386.Syscall

/-!
# pid_get, from a user program and back

`syscall0` of lib/user/syscall.c with `PID_GET` in `eax`, the gate of `int 0x80`, `syscall_entry`,
`sys_pid_get` of user/syscall_init.c, and `hwi_ret`.
-/
namespace OsI386
open X86

/-- The addresses of the table, of `sys_pid_get`, of `cur_scheduler` and of the scheduler. -/
structure SyscallSymbols where
  syscallTable : Word
  sysPidGet : Word
  curScheduler : Word
  scheduler : Word

/-- `RUNNING_THREAD->pid`, a `uint16_t` after `stack_top`. -/
def sysPidGet (m : Mem) (curScheduler : Word) : Word :=
  (load16 m (load32 m (load32 m curScheduler) + 4)).setWidth 32

/-- `r` is where `sys_pid_get`, called in `q`, may return: it has used at most `depth` bytes of the
stack. -/
structure PidReturn (curScheduler : Word) (depth : ℕ) (q r : State) : Prop where
  cdecl : CdeclReturn q r
  ring : r.cpl = 0
  eax : r.eax = sysPidGet q.mem curScheduler
  mem : ∀ b : Word, depth ≤ (q.esp - 1 - b).toNat → r.mem b = q.mem b

/-- The process with its tcb at `tcb` runs, after `syscall_init`: the scheduler has its address, and
the state segment has the end of its page. -/
structure ProcessRuns (k : SyscallSymbols) (tss tcb : Word) (m : Mem) : Prop where
  table : TableReady m k.syscallTable k.sysPidGet
  cur : load32 m k.curScheduler = k.scheduler
  running : load32 m k.scheduler = tcb
  esp0 : load32 m (tss + 4) = tcb + 4096
  tableApart : RangesApart tcb 4096 k.syscallTable (4 * syscallNum)
  curApart : RangesApart tcb 4096 k.curScheduler 4
  schedulerApart : RangesApart tcb 4096 k.scheduler 4

section Pid

variable {k : SyscallSymbols} {tss tcb next : Word} {m : Mem} {u q r : State} {g : State.Gate}
  {depth : ℕ}

/-- What the entry has pushed when it calls the function. -/
lemma syscallEntry_pushed (hring : u.cpl ≠ 0) :
    State.Pushed u.mem g.esp0 96 (syscallEntry k.syscallTable next (u.interrupt g none)) := by
  have hcall := (beforeCall_pushed (g := g) hring).push next
  exact ⟨hcall.esp, hcall.mem⟩

lemma load16_congr {m m' : Mem} {a : Word}
    (h : ∀ i < 2, m' (a + BitVec.ofNat 32 i) = m (a + BitVec.ofNat 32 i)) :
    load16 m' a = load16 m a := by
  have h0 := h 0 (by norm_num)
  have h1 : m' (a + 1) = m (a + 1) := h 1 (by norm_num)
  rw [BitVec.add_zero] at h0
  rw [load16, load16, h0, h1]

/-- The frame is far above the tcb. -/
lemma ProcessRuns.pid_pushed (h : ProcessRuns k tss tcb m) (hq : State.Pushed m (tcb + 4096) 96 q) :
    sysPidGet q.mem k.curScheduler = (load16 m (tcb + 4)).setWidth 32 := by
  have hpage := outsidePage_of_pushed hq (by norm_num)
  have hcur := hpage.load32 h.curApart (j := 0) (le_refl 4)
  have hrunning := hpage.load32 h.schedulerApart (j := 0) (le_refl 4)
  rw [BitVec.add_zero] at hcur hrunning
  rw [sysPidGet, hcur, h.cur, hrunning, h.running]
  congr 1
  refine load16_congr fun i hi => hq.mem _ ?_
  have hoff : tcb + 4096 - 1 - (tcb + 4 + BitVec.ofNat 32 i) = 4091 - BitVec.ofNat 32 i := by
    bv_omega
  rw [hoff, BitVec.toNat_sub, BitVec.toNat_ofNat]
  change 96 ≤ (2 ^ 32 - i % 2 ^ 32 + 4091) % 2 ^ 32
  omega

lemma iret_mem (s : State) : s.iret.mem = s.mem := by
  unfold State.iret
  dsimp only
  split_ifs <;> rfl

/-- The words above the arguments are not the function's. -/
lemma PidReturn.frame (h : PidReturn k.curScheduler depth q r) (hdepth : depth + 96 ≤ 4096) {n : ℕ}
    (hn : n ≤ 80) (b : Word) (hb : (b - (q.esp + 16)).toNat < n) : r.mem b = q.mem b := by
  refine h.mem b ?_
  have hoff : q.esp - 1 - b = 4294967279 - (b - (q.esp + 16)) := by bv_omega
  rw [hoff, BitVec.toNat_sub]
  change depth ≤ (2 ^ 32 - (b - (q.esp + 16)).toNat + 4294967279) % 2 ^ 32
  omega

/-- The pid is stored over the `eax` of the frame, within the page. -/
lemma PidReturn.outside (h : PidReturn k.curScheduler depth q r) (hdepth : depth + 96 ≤ 4096)
    (hq : State.Pushed m (tcb + 4096) 96 q) : OutsidePage tcb m (syscallExit r).mem := by
  have hesp : r.esp = tcb + 4004 := by
    rw [h.cdecl.esp, hq.esp]
    bv_omega
  have hslot : (r.addEsp 12).esp + 9 * 4 = tcb + BitVec.ofNat 32 4052 := by
    change r.esp + 12 + 36 = _
    rw [hesp, add_assoc, add_assoc]
    rfl
  have hmem : (syscallExit r).mem = store32 r.mem ((r.addEsp 12).esp + 9 * 4) r.eax := iret_mem _
  rw [hmem, hslot]
  refine OutsidePage.store (fun b hb => ?_) (by norm_num) r.eax
  have hlt := (b - tcb).isLt
  have hreturn : q.esp - 1 - b = 3999 - (b - tcb) := by
    rw [hq.esp]
    bv_omega
  refine (h.mem b ?_).trans (outsidePage_of_pushed hq (by norm_num) b hb)
  rw [hreturn, BitVec.toNat_sub]
  change depth ≤ (2 ^ 32 - (b - tcb).toNat + 3999) % 2 ^ 32
  omega

lemma PidReturn.restored {c : State} (hdepth : depth + 96 ≤ 4096)
    (h : PidReturn k.curScheduler depth
      (syscallEntry k.syscallTable next (c.interrupt g none)) r) :
    Restored { c with eax := r.eax } (syscallExit r) := by
  obtain ⟨-, -, -, hback⟩ := syscallUndone c r g k.syscallTable next
  have hbytes : 4 + contextBytes c ≤ 80 := by
    unfold contextBytes
    split_ifs <;> norm_num
  exact hback h.cdecl h.ring (h.frame hdepth hbytes)

end Pid

section Calls

variable {c : IntrSymbols} {k : SyscallSymbols} {tss tcb next : Word} {m : Mem} {t : TableRegisters}
  {s : VectorState} {u : State} {depth : ℕ}

/-- In every state after `tss_init` and `syscall_init`: `int 0x80` with `PID_GET` in a process calls
`sys_pid_get` in ring 0, and whenever that returns the process goes on behind `int` with its pid in
`eax`, the other registers as they were, and no memory but its kernel stack written. -/
theorem pid_get_returns (hl : c.LinkedWith tss) (hgdt : Holds m gdtBaseAddr Loader.gdt)
    (hreach : TransitionSystem.Reach (vectorStep c tss) (VectorAllowed c tss)
      (afterIdtInit c m t) s) (hloaded : s.loaded = true) (hruns : ProcessRuns k tss tcb s.mem)
    (hmem : u.mem = s.mem) (hring : u.cpl = 3) (heax : u.eax = BitVec.ofNat 32 pidGet)
    (hdepth : depth + 96 ≤ 4096) :
    ∃ e, int u s.tables 0x80 = some e ∧ e.eip = c.syscallEntry ∧ e.cpl = 0 ∧
      (syscallEntry k.syscallTable next e).eip = k.sysPidGet ∧
      ∀ r, PidReturn k.curScheduler depth (syscallEntry k.syscallTable next e) r →
        Restored { u with eax := (load16 s.mem (tcb + 4)).setWidth 32, eip := u.eip + 2 }
          (syscallExit r) ∧ OutsidePage tcb s.mem (syscallExit r).mem := by
  have hinv := reach_vectorInv hl (loaderGdt_of_holds hgdt) hreach
  have hdpl : (idtGate c m intSyscall).dpl = 3 := by rw [idtGate, if_pos rfl]
  have hgate : X86.deliver u.mem s.tables u.cpl true intSyscall =
      .enter (ring0Gate c tss m s intSyscall) := by
    rw [hmem, hring]
    exact hinv.deliver hloaded (by decide) fun _ => hdpl ▸ BitVec.le_refl 3
  set c' : State := { u with eip := u.eip + 2 } with hc'
  set g := ring0Gate c tss m s intSyscall with hg
  have hesp0 : g.esp0 = tcb + 4096 := hruns.esp0
  have huser : c'.cpl ≠ 0 := by
    change u.cpl ≠ 0
    rw [hring]
    decide
  have hpushed : State.Pushed s.mem (tcb + 4096) 96
      (syscallEntry k.syscallTable next (c'.interrupt g none)) := by
    rw [← hesp0, ← hmem]
    exact syscallEntry_pushed huser
  have hslot : k.syscallTable + c'.eax * 4 = syscallSlot k.syscallTable 0 := by
    rw [hc', heax]
    rfl
  refine ⟨_, int_enter hgate, rfl, show (8 : BitVec 16).setWidth 2 = 0 by decide, ?_, ?_⟩
  · have hentry : load32 s.mem (syscallSlot k.syscallTable 0) = k.sysPidGet :=
      hruns.table 0 (by decide)
    rw [syscallEntry_eip, hslot, ← hentry]
    have hbefore : State.Pushed s.mem (tcb + 4096) 92 (beforeCall c' g) := by
      rw [← hesp0, ← hmem]
      exact beforeCall_pushed huser
    have hpage := outsidePage_of_pushed hbefore (by norm_num)
    have hzero : 0 + 4 ≤ 4 * syscallNum := by decide
    exact hpage.load32 hruns.tableApart hzero
  · intro r hr
    have hrestored := hr.restored hdepth
    have hpid : r.eax = (load16 s.mem (tcb + 4)).setWidth 32 :=
      hr.eax.trans (hruns.pid_pushed hpushed)
    rw [hpid] at hrestored
    exact ⟨hrestored, hr.outside hdepth hpushed⟩

/-- The places of kernel.map. -/
def linkedCalls : SyscallSymbols := ⟨0xc0007fc0, 0xc00049f1, 0xc00072cc, 0xc0007a40⟩

/-- Memory with the zeros of `syscall_table`, `syscall_init`, the word of `cur_scheduler`, and 3 as
the pid of the first thread. -/
def callsMem (m : Mem) : Mem :=
  store32 (store32 (syscallInit (fun b => if (b - 0xc0007fc0).toNat < 128 then 0 else m b)
    0xc0007fc0 0xc00049f1) 0xc00072cc 0xc0007a40) 0xc009e004 3

lemma callsMem_of_apart {b : Word} (htable : 128 ≤ (b - 0xc0007fc0).toNat)
    (hcur : 4 ≤ (b - 0xc00072cc).toNat) (hpid : 4 ≤ (b - 0xc009e004).toNat) :
    callsMem m b = m b := by
  refine (store32_of_apart hpid).trans ((store32_of_apart hcur).trans ?_)
  have hslot : 4 ≤ (b - syscallSlot 0xc0007fc0 pidGet).toNat := by
    change 4 ≤ (b - 0xc0007fc0).toNat
    omega
  exact (store32_of_apart hslot).trans (if_neg (not_lt.mpr htable))

/-- What `callsMem` leaves of a range. -/
lemma callsMem_range {a : Word} {n j : ℕ} (htable : RangesApart 0xc0007fc0 128 a n)
    (hcur : RangesApart 0xc00072cc 4 a n) (hpid : RangesApart 0xc009e004 4 a n) (hj : j < n) :
    callsMem m (a + BitVec.ofNat 32 j) = m (a + BitVec.ofNat 32 j) :=
  callsMem_of_apart (htable.far hj) (hcur.far hj) (hpid.far hj)

lemma processRuns_callsMem (hrunning : load32 m 0xc0007a40 = 0xc009e000)
    (hesp0 : load32 m (0xc00079c0 + 4) = 0xc009e000 + 4096) :
    ProcessRuns linkedCalls 0xc00079c0 0xc009e000 (callsMem m) where
  table := by
    have hzero : ∀ i < syscallNum, load32 (fun b => if (b - 0xc0007fc0).toNat < 128 then 0 else m b)
        (syscallSlot 0xc0007fc0 i) = 0 := by
      intro i hi
      unfold syscallNum at hi
      have hnone : load32 (fun _ => 0) (syscallSlot 0xc0007fc0 i) = 0 := by
        change ((0 : BitVec 8) ++ (0 : BitVec 8) ++ (0 : BitVec 8) ++ (0 : BitVec 8) : Word) = 0
        decide
      rw [← hnone]
      refine load32_congr fun j hj => if_pos ?_
      rw [syscallSlot, add_assoc, ← BitVec.ofNat_add, add_sub_cancel_left, BitVec.toNat_ofNat]
      omega
    intro i hi
    rw [← tableReady_syscallInit hzero i hi]
    refine load32_congr fun j hj => ?_
    unfold syscallNum at hi
    have hcur : RangesApart 0xc00072cc 4 0xc0007fc0 128 := by decide
    have hpid : RangesApart 0xc009e004 4 0xc0007fc0 128 := by decide
    change callsMem m (syscallSlot 0xc0007fc0 i + BitVec.ofNat 32 j) = syscallInit
      (fun b => if (b - 0xc0007fc0).toNat < 128 then 0 else m b) 0xc0007fc0 0xc00049f1
      (syscallSlot 0xc0007fc0 i + BitVec.ofNat 32 j)
    rw [syscallSlot, add_assoc, ← BitVec.ofNat_add]
    have hj' : 4 * i + j < 128 := by omega
    exact (store32_of_apart (hpid.far hj')).trans (store32_of_apart (hcur.far hj'))
  cur := (load32_store32_of_apart (by decide) (by decide)).trans (load32_store32 _ _ _)
  running := by
    rw [← hrunning]
    refine load32_congr fun j hj => ?_
    exact callsMem_range (n := 4) (by decide) (by decide) (by decide) hj
  esp0 := by
    rw [← hesp0]
    refine load32_congr fun j hj => ?_
    exact callsMem_range (n := 4) (by decide) (by decide) (by decide) hj
  tableApart := by decide
  curApart := by decide
  schedulerApart := by decide

lemma callsMem_pid (m : Mem) : (load16 (callsMem m) (0xc009e000 + 4)).setWidth 32 = (3 : Word) := by
  have hlow : callsMem m (0xc009e000 + 4) = 3 := rfl
  have hhigh : callsMem m (0xc009e000 + 4 + 1) = 0 := rfl
  rw [load16, hlow, hhigh]
  rfl

lemma push_cs (s : State) (w : Word) : (s.push w).cs = s.cs := rfl

lemma pushContext_cs (s : State) : (pushContext s).cs = s.cs := by
  simp only [pushContext, State.pushSeg, State.pushad, push_cs]

lemma syscallEntry_cpl (table : Word) (e : State) : (syscallEntry table next e).cpl = e.cpl := by
  have hcs : ∀ q : State, (q.call (load32 q.mem (table + q.eax * 4)) next).cs = q.cs :=
    fun _ => rfl
  rw [State.cpl, State.cpl, syscallEntry, syscallCall, hcs]
  simp only [pushArgs, push_cs, pushContext_cs]

/-- `sys_pid_get` that uses no stack. -/
lemma exists_pidReturn (curScheduler : Word) {q : State} (hring : q.cpl = 0) :
    ∃ r, PidReturn curScheduler 0 q r :=
  ⟨{ q with eip := load32 q.mem q.esp, esp := q.esp + 4, eax := sysPidGet q.mem curScheduler },
    ⟨rfl, rfl, rfl, rfl, rfl, rfl⟩, hring, rfl, fun _ _ => rfl⟩

/-- The first thread, as a process, with `syscall_init` behind it. -/
lemma exists_process : ∃ s, TransitionSystem.Reach (vectorStep linkedSymbols 0xc00079c0)
      (VectorAllowed linkedSymbols 0xc00079c0)
      (afterIdtInit linkedSymbols runningMem ⟨⟨0, 0⟩, ⟨0, 0⟩, tssSegment 0 true, fun _ => none⟩) s ∧
    s.loaded = true ∧ ProcessRuns linkedCalls 0xc00079c0 0xc009e000 s.mem ∧
      (load16 s.mem (0xc009e000 + 4)).setWidth 32 = (3 : Word) := by
  obtain ⟨s, hreach, hloaded, -, hrunning, hesp0⟩ :=
    exists_activated ⟨⟨0, 0⟩, ⟨0, 0⟩, tssSegment 0 true, fun _ => none⟩
  have hallowed : VectorAllowed linkedSymbols 0xc00079c0 s (.other (callsMem s.mem)) := by
    refine ⟨⟨fun i hlow hhigh => segmentAt_congr fun j hj => ?_, fun j hj => ?_⟩, fun j hj => ?_,
      fun j hj => ?_⟩
    · rw [gdtEntry_add]
      exact callsMem_range (n := 56) (by decide) (by decide) (by decide) (by omega)
    · exact callsMem_range (by decide) (by decide) (by decide) hj
    · exact callsMem_range (n := 0x408) (by decide) (by decide) (by decide) hj
    · exact callsMem_range (n := 0x204) (by decide) (by decide) (by decide) hj
  exact ⟨_, hreach.snoc hallowed rfl, hloaded, processRuns_callsMem hrunning hesp0,
    callsMem_pid s.mem⟩

/-- The first thread has the pid 3. -/
theorem pid_get_returns_three : ∃ (s : VectorState) (e r : State),
    int (userState s.mem) s.tables 0x80 = some e ∧
      PidReturn linkedCalls.curScheduler 0
        (syscallEntry linkedCalls.syscallTable 0xc0002390 e) r ∧
      Restored { userState s.mem with eax := 3, eip := (userState s.mem).eip + 2 }
        (syscallExit r) := by
  obtain ⟨s, hreach, hloaded, hruns, hpid⟩ := exists_process
  obtain ⟨e, hint, -, hring, -, hback⟩ : ∃ e, int (userState s.mem) s.tables 0x80 = some e ∧
      e.eip = linkedSymbols.syscallEntry ∧ e.cpl = 0 ∧
      (syscallEntry linkedCalls.syscallTable 0xc0002390 e).eip = linkedCalls.sysPidGet ∧
      ∀ r, PidReturn linkedCalls.curScheduler 0
          (syscallEntry linkedCalls.syscallTable 0xc0002390 e) r →
        Restored { userState s.mem with eax := (load16 s.mem (0xc009e000 + 4)).setWidth 32
                                        eip := (userState s.mem).eip + 2 } (syscallExit r) ∧
          OutsidePage 0xc009e000 s.mem (syscallExit r).mem :=
    pid_get_returns linkedSymbols_linked holds_runningMem hreach hloaded hruns rfl
      (userState_cpl s.mem) rfl (by norm_num)
  have hcpl : (syscallEntry linkedCalls.syscallTable 0xc0002390 e).cpl = 0 :=
    (syscallEntry_cpl _ e).trans hring
  obtain ⟨r, hr⟩ := exists_pidReturn linkedCalls.curScheduler hcpl
  obtain ⟨hrestored, -⟩ := hback r hr
  rw [hpid] at hrestored
  exact ⟨s, e, r, hint, hr, hrestored⟩

end Calls

end OsI386
