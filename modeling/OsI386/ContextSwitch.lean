import OsI386.X86

/-!
# Contexts saved and resumed, instruction by instruction

The stubs of kernel/kernel.s, `task_trap` and `context_load` of thread/switch.s, and the frame
`thread_stack_init` writes. Between a save and the resumption anything may run, as long as it
leaves the frame and the `stack_top` of its thread alone.
-/
namespace OsI386

section Code

def allSaveFlag : BitVec 32 := 0
def fastSaveFlag : BitVec 32 := 1

/-- The segment registers, the general registers and the flag. -/
def pushContext (s : X86.State) : X86.State :=
  ((((s.pushSeg s.ds).pushSeg s.es).pushSeg s.fs).pushSeg s.gs).pushad.push allSaveFlag

/-- The vectors with `ERROR_CODE`; the others have `ZERO`. -/
def errorCodeVectors : List ℕ := [0x08, 0x0a, 0x0b, 0x0c, 0x0d, 0x0e, 0x11, 0x1e]

/-- `VECTOR` up to the call of the handler. `scheduler` is the address of `running_thread`, and
the first word of a tcb its `stack_top`. -/
def vectorEntry (scheduler : BitVec 32) (vector : ℕ) (s : X86.State) : X86.State :=
  let s := pushContext (if vector ∈ errorCodeVectors then s else s.push 0)
  let s := { s with eax := X86.load32 s.mem scheduler }
  { s with mem := X86.store32 s.mem s.eax s.esp }

/-- `pop gs`, `pop fs`, `pop es`, `pop ds`. -/
def popSegs (s : X86.State) : X86.State :=
  let s := { s.drop with gs := s.topSeg }
  let s := { s.drop with fs := s.topSeg }
  let s := { s.drop with es := s.topSeg }
  { s.drop with ds := s.topSeg }

/-- `all_load` of `context_load`. -/
def allLoad (s : X86.State) : X86.State := ((popSegs s.popad).addEsp 4).iret

/-- `fast_load`. -/
def fastLoad (s : X86.State) : X86.State :=
  let s := { s.drop with ebp := s.top }
  let s := { s.drop with ebx := s.top }
  let s := { s.drop with edi := s.top }
  let s := { s.drop with esi := s.top }
  s.ret

def contextLoad (s : X86.State) : X86.State :=
  let s := { s with eax := X86.load32 s.mem (s.esp + 4) }
  let s := { s with esp := X86.load32 s.mem s.eax }
  let s := { s.drop with eax := s.top }
  let s := { s with eflags := X86.subFlags s.eflags s.eax allSaveFlag }
  if X86.zf s.eflags then allLoad s else fastLoad s

def hwiRet (s : X86.State) : X86.State := ((popSegs (s.addEsp 4).popad).addEsp 4).iret

/-- The registers a cdecl function keeps, and the flag. -/
def pushKept (s : X86.State) : X86.State :=
  ((((s.push s.esi).push s.edi).push s.ebx).push s.ebp).push fastSaveFlag

/-- `task_trap` up to the call of `main_schedule`. -/
def taskTrapEntry (s : X86.State) : X86.State :=
  let s := pushKept s
  let s := { s with eax := X86.load32 s.mem (s.esp + 24) }
  { s with mem := X86.store32 s.mem s.eax s.esp }

/-- `thread_stack_init`, field by field of the `struct thread_stack`. -/
def threadStackInitAt (m : X86.Mem) (pthread func funcArg kernelThreadEntry : BitVec 32) : X86.Mem :=
  let kstackTmp := X86.load32 m pthread - 76 - 36
  let m := X86.store32 m pthread kstackTmp
  let kthreadStack := X86.load32 m pthread
  let m := X86.store32 m (kthreadStack + 20) kernelThreadEntry
  let m := X86.store32 m (kthreadStack + 28) func
  let m := X86.store32 m (kthreadStack + 32) funcArg
  let m := X86.store32 m (kthreadStack + 0) fastSaveFlag
  let m := X86.store32 m (kthreadStack + 4) 0
  let m := X86.store32 m (kthreadStack + 8) 0
  let m := X86.store32 m (kthreadStack + 16) 0
  X86.store32 m (kthreadStack + 12) 0

/-- The arguments of a system call. -/
def pushArgs (s : X86.State) : X86.State := ((s.push s.edx).push s.ecx).push s.ebx

/-- `call [syscall_table + eax * 4]`; `next` is the address after it. -/
def syscallCall (syscallTable next : BitVec 32) (s : X86.State) : X86.State :=
  s.call (X86.load32 s.mem (syscallTable + s.eax * 4)) next

/-- `syscall_entry` up to its call. -/
def syscallEntry (syscallTable next : BitVec 32) (s : X86.State) : X86.State :=
  syscallCall syscallTable next (pushArgs ((pushContext (s.push 0)).push 0x80))

/-- `syscall_entry` after the call. -/
def syscallExit (s : X86.State) : X86.State :=
  let s := s.addEsp 12
  let s := { s with mem := X86.store32 s.mem (s.esp + 9 * 4) s.eax }
  hwiRet (s.addEsp 4)

end Code

section Loads

variable {s c : X86.State} {ws : List (BitVec 32)}

lemma popSegs_eq {gs fs es ds : BitVec 16} (h : s.Stack (gs.setWidth 32 :: fs.setWidth 32 ::
    es.setWidth 32 :: ds.setWidth 32 :: ws)) :
    popSegs s = { s with gs := gs, fs := fs, es := es, ds := ds, esp := s.esp + 16 } ∧
      (popSegs s).Stack ws := by
  have hseg : ∀ r : BitVec 16, (r.setWidth 32).setWidth 16 = r := fun r => by simp
  have h0 : X86.load32 s.mem s.esp = gs.setWidth 32 := h.1
  have h1 : X86.load32 s.mem (s.esp + 4) = fs.setWidth 32 := h.2.1
  have h2 : X86.load32 s.mem (s.esp + 4 + 4) = es.setWidth 32 := h.2.2.1
  have h3 : X86.load32 s.mem (s.esp + 4 + 4 + 4) = ds.setWidth 32 := h.2.2.2.1
  have hsum : s.esp + 4 + 4 + 4 + 4 = s.esp + 16 := by
    simp only [BitVec.add_assoc]
    rfl
  have heq : popSegs s = { s with gs := gs, fs := fs, es := es, ds := ds, esp := s.esp + 16 } := by
    simp only [popSegs, X86.State.drop, X86.State.topSeg, X86.State.top, h0, h1, h2, h3, hseg, hsum]
  refine ⟨heq, ?_⟩
  rw [heq, X86.State.Stack, ← hsum]
  exact h.2.2.2.2

/-- The words `popad` and the instructions after it take from the stack to get back to `c`. -/
def contextWords (c : X86.State) (espDummy errCode : BitVec 32) : List (BitVec 32) :=
  c.edi :: c.esi :: c.ebp :: espDummy :: c.ebx :: c.edx :: c.ecx :: c.eax ::
    c.gs.setWidth 32 :: c.fs.setWidth 32 :: c.es.setWidth 32 :: c.ds.setWidth 32 :: errCode ::
    c.intrFrame none

/-- `r` goes on where `c` was interrupted. -/
structure Restored (c r : X86.State) : Prop extends c.SameData r where
  eip : r.eip = c.eip
  cs : r.cs = c.cs
  eflags : r.eflags = c.eflags
  esp : r.esp = c.esp
  ss : c.cpl ≠ 0 → r.ss = c.ss

/-- The common end of `context_load` and `hwi_ret`, in ring 0. -/
lemma allLoad_restored {d e : BitVec 32} (h : s.Stack (contextWords c d e)) (hring : s.cpl = 0)
    (hesp : c.cpl = 0 → s.esp + 64 = c.esp) : Restored c (allLoad s) := by
  obtain ⟨hpop, h⟩ := X86.State.Stack.popad h
  obtain ⟨hsegs, h⟩ := popSegs_eq h
  have hiret := X86.State.Stack.iret (X86.State.Stack.addEsp h)
    (show ((popSegs s.popad).addEsp 4).cpl = 0 by rw [hsegs, hpop]; exact hring)
  rw [allLoad, hiret, X86.State.addEsp, hsegs, hpop]
  have hsum : s.esp + 32 + 16 + 4 + 12 = s.esp + 64 := by
    simp only [BitVec.add_assoc]
    rfl
  constructor
  case toSameData => constructor <;> rfl
  case eip => rfl
  case cs => rfl
  case eflags => rfl
  case esp =>
    by_cases hc : c.cpl = 0
    · exact (if_pos hc).trans (hsum.trans (hesp hc))
    · exact if_neg hc
  case ss => exact fun hc => if_neg hc

end Loads

section Saves

variable {s c : X86.State} {ws : List (BitVec 32)}

lemma pushContext_stack {d : BitVec 32} (hs : c.SameData s) (h : s.Stack (d :: c.intrFrame none)) :
    (pushContext s).Stack (allSaveFlag :: contextWords c (s.esp - 4 - 4 - 4 - 4) d) := by
  have hlen : (c.intrFrame none).length ≤ 0 + 5 := X86.State.length_intrFrame c none
  have h1 := h.pushSeg (r := s.ds) (by rw [List.length_cons]; omega)
  have h2 := h1.pushSeg (r := s.es) (by simp only [List.length_cons]; omega)
  have h3 := h2.pushSeg (r := s.fs) (by simp only [List.length_cons]; omega)
  have h4 := h3.pushSeg (r := s.gs) (by simp only [List.length_cons]; omega)
  have h5 := h4.pushad (by simp only [List.length_cons]; omega)
  have h6 := h5.push (w := allSaveFlag) (by simp only [List.length_cons]; omega)
  have hx := (((hs.trans (s.sameData_pushSeg s.ds)).trans (X86.State.sameData_pushSeg _ s.es)).trans
    (X86.State.sameData_pushSeg _ s.fs)).trans (X86.State.sameData_pushSeg _ s.gs)
  rw [hx.edi, hx.esi, hx.ebp, hx.ebx, hx.edx, hx.ecx, hx.eax] at h6
  rw [contextWords, ← hs.gs, ← hs.fs, ← hs.es, ← hs.ds]
  exact h6

lemma pushContext_esp (s : X86.State) : (pushContext s).esp = s.esp - 52 := by
  change s.esp - 4 - 4 - 4 - 4 - 4 - 4 - 4 - 4 - 4 - 4 - 4 - 4 - 4 = s.esp - 52
  simp only [sub_sub]
  rfl

/-- The bytes of a frame of `pushContext`, for an interrupt in ring 0 and from another ring. -/
def contextBytes (c : X86.State) : ℕ := if c.cpl = 0 then 68 else 76

lemma length_contextWords (c : X86.State) (f d e : BitVec 32) :
    4 * (f :: contextWords c d e).length = contextBytes c := by
  rw [contextWords, contextBytes, X86.State.intrFrame]
  by_cases hc : c.cpl = 0
  · rw [if_pos hc, if_pos hc]
    rfl
  · rw [if_neg hc, if_neg hc]
    rfl

/-- The `n` bytes from `esp` up do not meet the first word of the tcb. -/
def AboveTcb (tcb esp : BitVec 32) (n : ℕ) : Prop :=
  4 ≤ (esp - tcb).toNat ∧ (esp - tcb).toNat + n ≤ 2 ^ 32

/-- The table of kernel.s is that of the cpu. -/
lemma mem_errorCodeVectors (vector : ℕ) :
    vector ∈ errorCodeVectors ↔ X86.State.pushesErrorCode vector = true :=
  decide_eq_true_iff.symm

/-- `VECTOR` has an error code on the stack whether the cpu pushes one or not. -/
lemma errorSlot (c : X86.State) (g : X86.State.Gate) {err : Option (BitVec 32)} {vector : ℕ}
    (herr : err.isSome = X86.State.pushesErrorCode vector)
    (hs : s = if vector ∈ errorCodeVectors then c.interrupt g err
      else (c.interrupt g err).push 0) :
    c.SameData s ∧ s.Stack (err.getD 0 :: c.intrFrame none) ∧
      (c.cpl = 0 → s.esp = c.esp - 16) := by
  have hdata := X86.State.interrupt_sameData c g err
  have hstack := X86.State.interrupt_stack c g err
  have hlen : (c.intrFrame none).length ≤ 0 + 5 := X86.State.length_intrFrame c none
  subst hs
  cases err with
  | none =>
    have hzero : vector ∉ errorCodeVectors := by
      rw [mem_errorCodeVectors, ← herr]
      exact Bool.false_ne_true
    rw [if_neg hzero]
    refine ⟨hdata.trans (X86.State.sameData_push _ 0), hstack.push (by omega), fun hc => ?_⟩
    have hesp := X86.State.interrupt_esp hc g none
    change (c.interrupt g none).esp - 4 = c.esp - 16
    rw [hesp, sub_sub]
    rfl
  | some e =>
    have hcode : vector ∈ errorCodeVectors := (mem_errorCodeVectors vector).mpr herr.symm
    rw [if_pos hcode]
    exact ⟨hdata, hstack, fun hc => X86.State.interrupt_esp hc g (some e)⟩

/-- `vectorEntry` leaves the context on the stack, and its address in `stack_top`. -/
lemma vectorEntry_saves {scheduler : BitVec 32} {vector : ℕ} {g : X86.State.Gate}
    {err : Option (BitVec 32)} (herr : err.isSome = X86.State.pushesErrorCode vector)
    (hs : s = vectorEntry scheduler vector (c.interrupt g err))
    (htcb : AboveTcb s.eax s.esp (contextBytes c)) :
    (∃ d, s.Stack (allSaveFlag :: contextWords c d (err.getD 0))) ∧
      X86.load32 s.mem s.eax = s.esp ∧ (c.cpl = 0 → s.esp = c.esp - 68) := by
  obtain ⟨hdata, hstack, hesp⟩ := errorSlot c g herr rfl
  have hsaved := pushContext_stack hdata hstack
  subst hs
  refine ⟨⟨_, X86.Holds.store hsaved htcb.1 ?_⟩, X86.load32_store32 _ _ _, fun hc => ?_⟩
  · rw [length_contextWords]
    exact htcb.2
  · change (pushContext _).esp = c.esp - 68
    rw [pushContext_esp, hesp hc, sub_sub]
    rfl

end Saves

section Resume

variable {s c r : X86.State} {tcb sp : BitVec 32}

/-- `r` calls `context_load(tcb)` in ring 0, with `stack_top` at `sp` and the `n` bytes there as
they were in `m`. -/
structure Resumes (r : X86.State) (tcb sp : BitVec 32) (n : ℕ) (m : X86.Mem) : Prop where
  ring : r.cpl = 0
  arg : X86.load32 r.mem (r.esp + 4) = tcb
  stackTop : X86.load32 r.mem tcb = sp
  frame : ∀ b : BitVec 32, (b - sp).toNat < n → r.mem b = m b

/-- The state in which `context_load` has read the flag. -/
def flagRead (r : X86.State) (sp flag : BitVec 32) : X86.State :=
  { r with esp := sp + 4, eax := flag, eflags := X86.subFlags r.eflags flag allSaveFlag }

lemma contextLoad_eq {n : ℕ} {m : X86.Mem} {flag : BitVec 32} (h : Resumes r tcb sp n m)
    (hflag : X86.load32 r.mem sp = flag) :
    contextLoad r = if flag = allSaveFlag then allLoad (flagRead r sp flag)
      else fastLoad (flagRead r sp flag) := by
  have hstate : contextLoad r = if X86.zf (X86.subFlags r.eflags flag allSaveFlag) then
      allLoad (flagRead r sp flag) else fastLoad (flagRead r sp flag) := by
    simp only [contextLoad, h.arg, h.stackTop, X86.State.drop, X86.State.top, hflag]
    rfl
  rw [hstate]
  by_cases hf : flag = allSaveFlag
  · rw [if_pos hf, if_pos ((X86.zf_subFlags _ _ _).mpr hf)]
  · rw [if_neg hf, if_neg (mt (X86.zf_subFlags _ _ _).mp hf)]

/-- A context saved by a stub comes back. -/
lemma contextLoad_all {d e : BitVec 32} {m : X86.Mem} (h : Resumes r tcb sp (contextBytes c) m)
    (hm : X86.Holds m sp (allSaveFlag :: contextWords c d e))
    (hesp : c.cpl = 0 → sp = c.esp - 68) : Restored c (contextLoad r) := by
  have hbytes : contextBytes c ≤ 2 ^ 32 := by
    unfold contextBytes
    split_ifs <;> norm_num
  have hlen := length_contextWords c allSaveFlag d e
  have hframe : X86.Holds r.mem sp (allSaveFlag :: contextWords c d e) :=
    hm.congr (hlen.trans_le hbytes) fun b hb => h.frame b (hlen ▸ hb)
  rw [contextLoad_eq h hframe.1, if_pos rfl]
  refine allLoad_restored hframe.2 h.ring fun hc => ?_
  change sp + 4 + 64 = c.esp
  rw [hesp hc, BitVec.add_assoc]
  exact sub_add_cancel c.esp 68

end Resume

section Calls

variable {s c r : X86.State} {tcb sp ret : BitVec 32}

/-- `r` is where a cdecl function called with `c` on its entry returns to. -/
structure CdeclReturn (c r : X86.State) : Prop where
  eip : r.eip = X86.load32 c.mem c.esp
  esp : r.esp = c.esp + 4
  ebp : r.ebp = c.ebp
  ebx : r.ebx = c.ebx
  esi : r.esi = c.esi
  edi : r.edi = c.edi

lemma pushKept_stack (hc : c.Stack [ret, tcb]) :
    (pushKept c).Stack [fastSaveFlag, c.ebp, c.ebx, c.edi, c.esi, ret, tcb] :=
  ((((hc.push (w := c.esi) (by simp)).push (w := c.edi) (by simp)).push (w := c.ebx)
    (by simp)).push (w := c.ebp) (by simp)).push (w := fastSaveFlag) (by simp)

lemma pushKept_esp (c : X86.State) : (pushKept c).esp = c.esp - 20 := by
  change c.esp - 4 - 4 - 4 - 4 - 4 = c.esp - 20
  simp only [sub_sub]
  rfl

lemma taskTrapEntry_saves (hc : c.Stack [ret, tcb])
    (htcb : AboveTcb (taskTrapEntry c).eax (taskTrapEntry c).esp 24) :
    (taskTrapEntry c).Stack [fastSaveFlag, c.ebp, c.ebx, c.edi, c.esi, ret] := by
  obtain ⟨h0, h1, h2, h3, h4, h5, -⟩ := pushKept_stack hc
  have hframe : (pushKept c).Stack [fastSaveFlag, c.ebp, c.ebx, c.edi, c.esi, ret] :=
    ⟨h0, h1, h2, h3, h4, h5, trivial⟩
  exact X86.Holds.store hframe htcb.1 htcb.2

lemma fastLoad_eq {ebp ebx edi esi : BitVec 32} (h : s.Stack [ebp, ebx, edi, esi, ret]) :
    fastLoad s = { s with
      ebp := ebp, ebx := ebx, edi := edi, esi := esi, eip := ret, esp := s.esp + 20 } := by
  obtain ⟨h0, h1, h2, h3, h4, -⟩ := h
  have hsum : s.esp + 4 + 4 + 4 + 4 + 4 = s.esp + 20 := by
    simp only [BitVec.add_assoc]
    rfl
  simp only [fastLoad, X86.State.ret, X86.State.drop, X86.State.top, h0, h1, h2, h3, h4, hsum]

/-- A frame of the fast kind, of `task_trap` or of `thread_stack_init`. -/
lemma contextLoad_fast {ebp ebx edi esi : BitVec 32} {m : X86.Mem} {n : ℕ}
    (h : Resumes r tcb sp n m) (hn : 24 ≤ n)
    (hm : X86.Holds m sp [fastSaveFlag, ebp, ebx, edi, esi, ret]) :
    let r' := contextLoad r
    r'.eip = ret ∧ r'.esp = sp + 24 ∧ r'.ebp = ebp ∧ r'.ebx = ebx ∧ r'.esi = esi ∧ r'.edi = edi ∧
      r'.mem = r.mem := by
  have hframe : X86.Holds r.mem sp [fastSaveFlag, ebp, ebx, edi, esi, ret] :=
    hm.congr (by simp) fun b hb => h.frame b (lt_of_lt_of_le hb hn)
  have hne : fastSaveFlag ≠ allSaveFlag := by decide
  have hfast : fastLoad (flagRead r sp fastSaveFlag) = _ := fastLoad_eq hframe.2
  have hsum : sp + 4 + 20 = sp + 24 := by
    rw [BitVec.add_assoc]
    rfl
  rw [contextLoad_eq h hframe.1, if_neg hne, hfast]
  exact ⟨rfl, hsum, rfl, rfl, rfl, rfl, rfl⟩

/-- The words of `thread_stack_init`; the one it leaves out is the return address of
`kernel_thread_entry`. -/
lemma threadStackInitAt_holds (m : X86.Mem) (pthread func funcArg entry : BitVec 32)
    (htop : X86.load32 m pthread = pthread + 4096) :
    let m' := threadStackInitAt m pthread func funcArg entry
    X86.load32 m' pthread = pthread + 3984 ∧
      ∃ unused, X86.Holds m' (pthread + 3984)
        [fastSaveFlag, 0, 0, 0, 0, entry, unused, func, funcArg] := by
  have hbase : pthread + 4096 - 76 - 36 = pthread + 3984 := by bv_omega
  simp only [threadStackInitAt, htop, hbase, X86.load32_store32, BitVec.add_assoc,
    BitVec.reduceAdd]
  constructor
  · simp (disch := decide) only [X86.load32_store32_base, X86.load32_store32]
  · refine ⟨X86.load32 (X86.store32 m pthread (pthread + 3984)) (pthread + 4008), ?_⟩
    simp (disch := decide) only [X86.Holds, BitVec.add_assoc, BitVec.reduceAdd,
      BitVec.ofNat_eq_ofNat, X86.load32_store32_add, X86.load32_store32, and_true]

end Calls

section Syscall

variable {s c r : X86.State} {syscallTable next : BitVec 32} {g : X86.State.Gate}

lemma sameData_pushContext (s : X86.State) : s.SameData (pushContext s) := by
  have hsegs := (((s.sameData_pushSeg s.ds).trans (X86.State.sameData_pushSeg _ s.es)).trans
    (X86.State.sameData_pushSeg _ s.fs)).trans (X86.State.sameData_pushSeg _ s.gs)
  exact (hsegs.trans (X86.State.sameData_pushad _)).trans (X86.State.sameData_push _ allSaveFlag)

lemma sameData_pushArgs (s : X86.State) : s.SameData (pushArgs s) :=
  ((s.sameData_push s.edx).trans (X86.State.sameData_push _ s.ecx)).trans
    (X86.State.sameData_push _ s.ebx)

lemma pushContext_pushed {m : X86.Mem} {top : BitVec 32} {n : ℕ} (h : X86.State.Pushed m top n s) :
    X86.State.Pushed m top (n + 52) (pushContext s) := by
  have hsegs := (((h.push (s.ds.setWidth 32)).push (s.es.setWidth 32)).push
    (s.fs.setWidth 32)).push (s.gs.setWidth 32)
  exact hsegs.pushad.push allSaveFlag

lemma pushArgs_pushed {m : X86.Mem} {top : BitVec 32} {n : ℕ} (h : X86.State.Pushed m top n s) :
    X86.State.Pushed m top (n + 12) (pushArgs s) :=
  ((h.push s.edx).push s.ecx).push s.ebx

lemma syscallCall_stack (syscallTable next : BitVec 32) {ws : List (BitVec 32)} (hs : c.SameData s)
    (h : s.Stack ws) (hlen : 4 * ws.length + 16 ≤ 2 ^ 32) :
    (syscallCall syscallTable next (pushArgs s)).Stack (next :: c.ebx :: c.ecx :: c.edx :: ws) ∧
      (syscallCall syscallTable next (pushArgs s)).esp = s.esp - 16 := by
  have h1 := h.push (w := s.edx) (by omega)
  have h2 := h1.push (w := s.ecx) (by rw [List.length_cons]; omega)
  have h3 := h2.push (w := s.ebx) (by rw [List.length_cons, List.length_cons]; omega)
  have h4 := h3.push (w := next) (by simp only [List.length_cons]; omega)
  rw [hs.ebx, hs.ecx, hs.edx] at h4
  refine ⟨?_, ?_⟩
  · rw [pushArgs, hs.ebx, hs.ecx, hs.edx]
    exact h4
  · change s.esp - 4 - 4 - 4 - 4 = s.esp - 16
    simp only [sub_sub]
    rfl

/-- The stack on which the handler of a system call starts. -/
lemma syscallEntry_stack (hs : s = syscallEntry syscallTable next (c.interrupt g none)) :
    (∃ d, s.Stack (next :: c.ebx :: c.ecx :: c.edx :: 0x80 :: allSaveFlag ::
      contextWords c d 0)) ∧ (c.cpl = 0 → s.esp + 88 = c.esp) := by
  have hzero : (0x80 : ℕ) ∉ errorCodeVectors := by decide
  obtain ⟨hdata, hstack, hesp⟩ := errorSlot c g (show none.isSome = X86.State.pushesErrorCode 0x80
    by decide) (s := (c.interrupt g none).push 0) (if_neg hzero).symm
  rw [Option.getD_none] at hstack
  have hsaved := pushContext_stack hdata hstack
  have hx := (hdata.trans (sameData_pushContext _)).trans (X86.State.sameData_push _ 0x80)
  have hlen := length_contextWords c allSaveFlag
    (((c.interrupt g none).push 0).esp - 4 - 4 - 4 - 4) 0
  have hbytes : contextBytes c ≤ 76 := by
    unfold contextBytes
    split_ifs <;> norm_num
  obtain ⟨h, hcall⟩ := syscallCall_stack syscallTable next hx (hsaved.push (by omega))
    (by rw [List.length_cons]; omega)
  subst hs
  refine ⟨⟨_, h⟩, fun hc => ?_⟩
  rw [syscallEntry, hcall, X86.State.push_esp, pushContext_esp, hesp hc]
  simp only [sub_sub]
  exact sub_add_cancel c.esp 88

lemma hwiRet_eq (s : X86.State) : hwiRet s = allLoad (s.addEsp 4) := rfl

/-- `syscall_entry` after the handler, and `hwi_ret`. -/
lemma syscallExit_restores {d w0 w1 w2 w3 : BitVec 32} {m : X86.Mem} {sp : BitVec 32}
    (hm : X86.Holds m sp (w0 :: w1 :: w2 :: w3 :: 0x80 :: allSaveFlag :: contextWords c d 0))
    (hesp : c.cpl = 0 → sp + 88 = c.esp) (hring : r.cpl = 0) (hr : r.esp = sp + 4)
    (hframe : ∀ b : BitVec 32, (b - (sp + 16)).toNat < 4 + contextBytes c → r.mem b = m b) :
    Restored { c with eax := r.eax } (syscallExit r) := by
  have hlen := length_contextWords c allSaveFlag d 0
  have hbytes : contextBytes c ≤ 76 := by
    unfold contextBytes
    split_ifs <;> norm_num
  have hsaved : X86.Holds r.mem (sp + 16) (0x80 :: allSaveFlag :: contextWords c d 0) := by
    refine (hm.drop 4).congr ?_ fun b hb => hframe b ?_
    · simp only [List.drop_succ_cons, List.drop_zero, List.length_cons] at hlen ⊢
      omega
    · simp only [List.drop_succ_cons, List.drop_zero, List.length_cons] at hb hlen
      change (b - (sp + 16)).toNat < _ at hb
      omega
  have hslot := hsaved.set (w := r.eax) (i := 9) (by
    simp only [List.length_cons] at hlen ⊢
    omega) (by
    simp only [contextWords, List.length_cons]
    omega)
  have hadd : (r.addEsp 12).esp = sp + 16 := by
    change r.esp + 12 = sp + 16
    rw [hr, BitVec.add_assoc]
    rfl
  have haddr : (r.addEsp 12).esp + 9 * 4 = sp + 16 + BitVec.ofNat 32 (4 * 9) := by
    rw [hadd]
    rfl
  rw [syscallExit, haddr, hwiRet_eq]
  refine allLoad_restored (d := d) (e := 0) ?_ hring fun hc => ?_
  · apply X86.State.Stack.addEsp
    apply X86.State.Stack.addEsp
    change X86.Holds _ (r.addEsp 12).esp _
    rw [hadd]
    exact hslot
  · change (r.addEsp 12).esp + 4 + 4 + 64 = c.esp
    rw [hadd, ← hesp hc]
    bv_omega

end Syscall

section Results

/-- An interrupt, with or without an error code, and `context_load` of its frame. -/
def InterruptUndone : Prop :=
  ∀ (c r : X86.State) (g : X86.State.Gate) (scheduler : BitVec 32) (vector : ℕ)
    (err : Option (BitVec 32)), vector < 0x30 → err.isSome = X86.State.pushesErrorCode vector →
    let s := vectorEntry scheduler vector (c.interrupt g err)
    AboveTcb s.eax s.esp (contextBytes c) →
    Resumes r s.eax (X86.load32 s.mem s.eax) (contextBytes c) s.mem → Restored c (contextLoad r)

/-- `task_trap` and `context_load` of its frame: a call and its return. -/
def TaskTrapUndone : Prop :=
  ∀ c r : X86.State, let s := taskTrapEntry c
    AboveTcb s.eax s.esp 24 → Resumes r s.eax (X86.load32 s.mem s.eax) 24 s.mem →
    CdeclReturn c (contextLoad r)

/-- The first `context_load` of a thread whose tcb `thread_tcb_init` has set up. -/
def NewThreadEntered : Prop :=
  ∀ (m : X86.Mem) (r : X86.State) (pthread func funcArg kernelThreadEntry : BitVec 32),
    X86.load32 m pthread = pthread + 4096 →
    let m' := threadStackInitAt m pthread func funcArg kernelThreadEntry
    Resumes r pthread (X86.load32 m' pthread) 36 m' →
    let r' := contextLoad r
    r'.eip = kernelThreadEntry ∧ X86.load32 r'.mem (r'.esp + 4) = func ∧
      X86.load32 r'.mem (r'.esp + 8) = funcArg

/-- `int 0x80` with a handler that returns as a cdecl function does, in ring 0, and leaves the
words above its arguments alone. -/
def SyscallUndone : Prop :=
  ∀ (c r : X86.State) (g : X86.State.Gate) (syscallTable next : BitVec 32),
    let s := syscallEntry syscallTable next (c.interrupt g none)
    X86.load32 s.mem (s.esp + 4) = c.ebx ∧ X86.load32 s.mem (s.esp + 8) = c.ecx ∧
      X86.load32 s.mem (s.esp + 12) = c.edx ∧
      (CdeclReturn s r → r.cpl = 0 →
        (∀ b : BitVec 32, (b - (s.esp + 16)).toNat < 4 + contextBytes c → r.mem b = s.mem b) →
        Restored { c with eax := r.eax } (syscallExit r))

lemma interruptUndone : InterruptUndone := by
  intro c r g scheduler vector err _ herr s htcb hr
  obtain ⟨⟨d, hsaved⟩, htop, hesp⟩ := vectorEntry_saves herr rfl htcb
  rw [htop] at hr
  exact contextLoad_all hr hsaved hesp

lemma taskTrapUndone : TaskTrapUndone := by
  intro c r s htcb hr
  have hc : c.Stack [X86.load32 c.mem c.esp, X86.load32 c.mem (c.esp + 4)] := ⟨rfl, rfl, trivial⟩
  have htop : X86.load32 s.mem s.eax = s.esp := X86.load32_store32 _ _ _
  rw [htop] at hr
  obtain ⟨heip, hesp, hebp, hebx, hesi, hedi, -⟩ :=
    contextLoad_fast hr le_rfl (taskTrapEntry_saves hc htcb)
  refine ⟨heip, ?_, hebp, hebx, hesi, hedi⟩
  have hs : s.esp = c.esp - 20 := pushKept_esp c
  rw [hesp, hs]
  bv_omega

lemma newThreadEntered : NewThreadEntered := by
  intro m r pthread func funcArg entry htop m' hr
  obtain ⟨hstack, unused, hm⟩ := threadStackInitAt_holds m pthread func funcArg entry htop
  rw [hstack] at hr
  have hfirst : X86.Holds m' (pthread + 3984) [fastSaveFlag, 0, 0, 0, 0, entry] :=
    ⟨hm.1, hm.2.1, hm.2.2.1, hm.2.2.2.1, hm.2.2.2.2.1, hm.2.2.2.2.2.1, trivial⟩
  obtain ⟨heip, hesp, -, -, -, -, hmem⟩ := contextLoad_fast hr (by norm_num) hfirst
  have hframe : X86.Holds r.mem (pthread + 3984) _ := hm.congr (by simp) fun b hb => hr.frame b hb
  refine ⟨heip, ?_, ?_⟩
  · rw [hmem, hesp, BitVec.add_assoc]
    exact hframe.get 7 rfl
  · rw [hmem, hesp, BitVec.add_assoc]
    exact hframe.get 8 rfl

lemma syscallUndone : SyscallUndone := by
  intro c r g syscallTable next s
  obtain ⟨⟨d, h⟩, hesp⟩ := syscallEntry_stack (c := c) (g := g) (s := s) rfl
  refine ⟨h.get 1 rfl, h.get 2 rfl, h.get 3 rfl, fun hr hring hframe => ?_⟩
  exact syscallExit_restores h hesp hring hr.esp hframe

/-- Each of the four ways a context is saved is undone by the way it is resumed. -/
theorem contexts_undone :
    InterruptUndone ∧ TaskTrapUndone ∧ NewThreadEntered ∧ SyscallUndone :=
  ⟨interruptUndone, taskTrapUndone, newThreadEntered, syscallUndone⟩

/-- `context_load(tcb)` called on a stack elsewhere. -/
lemma resumes_of_call {s : X86.State} {tcb sp x : BitVec 32} {n : ℕ} (hring : s.cpl = 0)
    (htop : X86.load32 s.mem tcb = sp) (hlow : 4 ≤ (tcb - (x + 4)).toNat)
    (hhigh : (tcb - (x + 4)).toNat + 4 ≤ 2 ^ 32)
    (hout : ∀ b : BitVec 32, (b - sp).toNat < n → ¬ (b - (x + 4)).toNat < 4) :
    Resumes { s with esp := x, mem := X86.store32 s.mem (x + 4) tcb } tcb sp n s.mem where
  ring := hring
  arg := X86.load32_store32 _ _ _
  stackTop := (X86.load32_store32_of_apart hlow hhigh).trans htop
  frame b hb := if_neg (hout b hb)

/-- A timer interrupt of a thread with its tcb at 0xc0101000, resumed from a stack elsewhere. -/
theorem contexts_undone_timer : ∃ c r : X86.State, c.esp = 0xc0101f00 ∧
    Restored c (contextLoad r) ∧ (contextLoad r).edx = 5 := by
  set c : X86.State :=
    { eax := 1, ebx := 2, ecx := 4, edx := 5, esi := 6, edi := 7, ebp := 8, esp := 0xc0101f00
      eip := 0xc0001500, eflags := 0x202, cs := 8, ds := 16, es := 16, fs := 16, gs := 24, ss := 16
      mem := X86.store32 (fun _ => 0) 0xc0008000 0xc0101000 } with hc
  set g : X86.State.Gate := ⟨0xc0102000, 16, 8, 0xc0001600⟩ with hg
  have hback := contexts_undone.1 c
  set s := vectorEntry 0xc0008000 0x20 (c.interrupt g none) with hs
  have htcb : s.eax = 0xc0101000 := by decide +kernel
  have hesp : s.esp = 0xc0101ebc := by decide +kernel
  have htop : X86.load32 s.mem 0xc0101000 = 0xc0101ebc := by decide +kernel
  have hring : s.cpl = 0 := by decide +kernel
  have hkernel : c.cpl = 0 := by decide +kernel
  have hbytes : contextBytes c = 68 := if_pos hkernel
  have habove : AboveTcb s.eax s.esp (contextBytes c) := by
    rw [htcb, hesp, hbytes]
    exact ⟨by decide, by decide⟩
  have hresumes := resumes_of_call (n := 68) (x := 0x1000) hring htop (by decide) (by decide)
    fun b hb => by bv_omega
  rw [← htop, ← htcb, ← hbytes] at hresumes
  have hrestored := hback _ g 0xc0008000 0x20 none (by norm_num) (by decide) habove hresumes
  exact ⟨c, _, rfl, hrestored, hrestored.edx⟩

end Results

end OsI386
