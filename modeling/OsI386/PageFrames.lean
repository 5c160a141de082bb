import OsI386.MemoryRuns
import OsI386.TransitionSystem

/-!
# The frames handed out by completed calls

Each `frame` label of a call is a bit of a physical pool that was clear before and is never
cleared again, so a frame is handed out once and lies in the range of its pool.
-/
namespace OsI386
open Prog TransitionSystem

section Frames

variable {s : MemState}

/-- The physical addresses `paddr_get` returned, `NULL` apart. -/
def framesOf (tr : List MemLabel) : List Word :=
  tr.filterMap fun
    | .frame _ a => some a
    | _ => none

lemma mem_framesOf {tr : List MemLabel} {a : Word} :
    a ∈ framesOf tr ↔ ∃ p, .frame p a ∈ tr := by
  rw [framesOf, List.mem_filterMap]
  constructor
  · rintro ⟨l, hl, hla⟩
    cases l with
    | frame p b => exact ⟨p, by simpa [Option.some.inj hla] using hl⟩
    | _ => simp at hla
  · rintro ⟨p, hp⟩
    exact ⟨_, hp, rfl⟩

def freePages (allMem : Word) : ℕ := (allMem.toNat - 0x200000) / 4096
def kernelPages (allMem : Word) : ℕ := freePages allMem / 2
def userPages (allMem : Word) : ℕ := freePages allMem - kernelPages allMem

/-- The shared pools of a machine with `allMem` bytes, and the frames taken from them. -/
structure PhysInv (allMem : Word) (tr : List MemLabel) (s : MemState) : Prop where
  kernelNum : (s.btmp .kernelPhy).bitNum = kernelPages allMem
  userNum : (s.btmp .userPhy).bitNum = userPages allMem
  kernelBase : (s.pool .kernelPhy).addrBase = 0x200000
  userBase : (s.pool .userPhy).addrBase = BitVec.ofNat 32 (0x200000 + kernelPages allMem * 4096)
  heapNum : (s.btmp .kernelVir).bitNum = kernelPages allMem
  heapBase : (s.pool .kernelVir).addrBase = kHeapStart
  taken : ∀ p a, .frame p a ∈ tr → (p = .kernelPhy ∨ p = .userPhy) ∧
    ∃ i < (s.btmp p).bitNum, (s.btmp p).bit i = true ∧ a = s.pageAddr p i
  nodup : (framesOf tr).Nodup

variable {allMem : Word} {tr : List MemLabel} {s' : MemState}

lemma PhysInv.kernelPhy_toNat (h : PhysInv allMem tr s) {i : ℕ}
    (hi : i < (s.btmp .kernelPhy).bitNum) :
    (s.pageAddr .kernelPhy i).toNat = 0x200000 + i * 4096 := by
  have hlt := allMem.isLt
  rw [h.kernelNum] at hi
  unfold kernelPages freePages at hi
  rw [MemState.pageAddr, h.kernelBase, BitVec.toNat_add, BitVec.toNat_ofNat]
  change (i * 4096 % 2 ^ 32 + 0x200000) % 2 ^ 32 = _
  omega

lemma PhysInv.userPhy_toNat (h : PhysInv allMem tr s) {i : ℕ}
    (hi : i < (s.btmp .userPhy).bitNum) :
    (s.pageAddr .userPhy i).toNat = 0x200000 + kernelPages allMem * 4096 + i * 4096 := by
  have hlt := allMem.isLt
  have hk : kernelPages allMem = freePages allMem / 2 := rfl
  have hf : freePages allMem = (allMem.toNat - 0x200000) / 4096 := rfl
  rw [h.userNum, userPages] at hi
  rw [MemState.pageAddr, h.userBase, BitVec.toNat_add, BitVec.toNat_ofNat, BitVec.toNat_ofNat]
  omega

/-- Different bits of the physical pools stand for different pages. -/
lemma PhysInv.pageAddr_inj (h : PhysInv allMem tr s) {p q : PoolId} {i j : ℕ}
    (hp : p = .kernelPhy ∨ p = .userPhy) (hq : q = .kernelPhy ∨ q = .userPhy)
    (hi : i < (s.btmp p).bitNum) (hj : j < (s.btmp q).bitNum)
    (he : s.pageAddr p i = s.pageAddr q j) : p = q ∧ i = j := by
  have hnat := congrArg BitVec.toNat he
  have hk := h.kernelNum
  rcases hp with rfl | rfl <;> rcases hq with rfl | rfl
  · rw [h.kernelPhy_toNat hi, h.kernelPhy_toNat hj] at hnat
    exact ⟨rfl, by omega⟩
  · rw [h.kernelPhy_toNat hi, h.userPhy_toNat hj] at hnat
    omega
  · rw [h.userPhy_toNat hi, h.kernelPhy_toNat hj] at hnat
    omega
  · rw [h.userPhy_toNat hi, h.userPhy_toNat hj] at hnat
    exact ⟨rfl, by omega⟩

/-- The maps and bases of the physical pools are the same, and so are the size and the base of the
kernel heap. -/
structure SameFrames (s s' : MemState) : Prop where
  physical : ∀ p, p = .kernelPhy ∨ p = .userPhy →
    s'.btmp p = s.btmp p ∧ (s'.pool p).addrBase = (s.pool p).addrBase
  heap : (s'.btmp .kernelVir).bitNum = (s.btmp .kernelVir).bitNum ∧
    (s'.pool .kernelVir).addrBase = (s.pool .kernelVir).addrBase

lemma PhysInv.same (h : PhysInv allMem tr s) (hs : SameFrames s s') :
    PhysInv allMem tr s' := by
  obtain ⟨hkb, hka⟩ := hs.physical .kernelPhy (.inl rfl)
  obtain ⟨hub, hua⟩ := hs.physical .userPhy (.inr rfl)
  constructor
  case kernelNum => rw [hkb]; exact h.kernelNum
  case userNum => rw [hub]; exact h.userNum
  case kernelBase => rw [hka]; exact h.kernelBase
  case userBase => rw [hua]; exact h.userBase
  case heapNum => rw [hs.heap.1]; exact h.heapNum
  case heapBase => rw [hs.heap.2]; exact h.heapBase
  case nodup => exact h.nodup
  case taken =>
    intro p a ha
    obtain ⟨hp, i, hi, hbit, haddr⟩ := h.taken p a ha
    obtain ⟨hb, hbase⟩ := hs.physical p hp
    refine ⟨hp, i, by rwa [hb], by rwa [hb], ?_⟩
    rw [haddr, MemState.pageAddr, MemState.pageAddr, hbase]

/-- Labels other than `frame` do not matter. -/
lemma PhysInv.append_other {ls : List MemLabel} (h : PhysInv allMem tr s)
    (hl : ∀ p a, .frame p a ∉ ls) : PhysInv allMem (tr ++ ls) s := by
  have hnone : framesOf ls = [] := by
    apply List.filterMap_eq_nil_iff.mpr
    intro l hmem
    cases l with
    | frame p a => exact absurd hmem (hl p a)
    | _ => rfl
  have hframes : framesOf (tr ++ ls) = framesOf tr := by
    rw [framesOf, List.filterMap_append]
    exact (congrArg (framesOf tr ++ ·) hnone).trans (List.append_nil _)
  constructor
  case kernelNum => exact h.kernelNum
  case userNum => exact h.userNum
  case kernelBase => exact h.kernelBase
  case userBase => exact h.userBase
  case heapNum => exact h.heapNum
  case heapBase => exact h.heapBase
  case nodup => exact hframes ▸ h.nodup
  case taken =>
    intro p a ha
    exact h.taken p a ((List.mem_append.mp ha).resolve_right (hl p a))

/-- A free bit of a physical pool is taken and its page handed out. -/
lemma PhysInv.take {p : PoolId} {i : ℕ} (h : PhysInv allMem tr s)
    (hp : p = .kernelPhy ∨ p = .userPhy) (hi : FreeBit (s.btmp p) i) :
    PhysInv allMem (tr ++ [.scan p, .frame p (s.pageAddr p i)])
      (s.setBtmp p (bitmapSet (s.btmp p) i)) := by
  set s' := s.setBtmp p (bitmapSet (s.btmp p) i) with hs'
  have hnum : ∀ q, (s'.btmp q).bitNum = (s.btmp q).bitNum := fun q => by
    by_cases hq : q = p
    · simp [hs', hq]
    · rw [hs', setBtmp_btmp_of_ne _ hq]
  have hmono : ∀ q j, (s.btmp q).bit j = true → (s'.btmp q).bit j = true := fun q j hj => by
    by_cases hq : q = p
    · subst hq
      simp [hs', hj]
    · rw [hs', setBtmp_btmp_of_ne _ hq, hj]
  have haddr : ∀ q j, s'.pageAddr q j = s.pageAddr q j := fun q j => by
    simp [MemState.pageAddr, hs']
  have hframes : framesOf (tr ++ [.scan p, .frame p (s.pageAddr p i)]) =
      framesOf tr ++ [s.pageAddr p i] := by
    simp [framesOf]
  constructor
  case kernelNum => rw [hnum]; exact h.kernelNum
  case userNum => rw [hnum]; exact h.userNum
  case kernelBase => simpa [hs'] using h.kernelBase
  case userBase => simpa [hs'] using h.userBase
  case heapNum => rw [hnum]; exact h.heapNum
  case heapBase => simpa [hs'] using h.heapBase
  case nodup =>
    rw [hframes]
    refine List.nodup_append.mpr ⟨h.nodup, by simp, ?_⟩
    intro a ha b hb he
    obtain ⟨q, hl⟩ := mem_framesOf.mp ha
    obtain ⟨hq, j, hj, hbit, hc⟩ := h.taken q a hl
    have heq : s.pageAddr q j = s.pageAddr p i := by
      rw [← hc, he, List.mem_singleton.mp hb]
    obtain ⟨rfl, rfl⟩ := h.pageAddr_inj hq hp hj hi.1 heq
    simp [hi.2] at hbit
  case taken =>
    intro q a ha
    rcases List.mem_append.mp ha with ha | ha
    · obtain ⟨hq, j, hj, hbit, hc⟩ := h.taken q a ha
      exact ⟨hq, j, by rwa [hnum], hmono q j hbit, by rw [haddr, hc]⟩
    · obtain ⟨rfl, rfl⟩ : q = p ∧ a = s.pageAddr p i := by simpa using ha
      exact ⟨hp, i, by rw [hnum]; exact hi.1, by simp [hs'], (haddr q i).symm⟩

end Frames

section Calls

variable {allMem : Word}

private lemma sameFrames_of_shared {s s' : MemState}
    (h : ∀ q, (∀ t, q ≠ .userVir t) → s'.pool q = s.pool q) : SameFrames s s' where
  physical p hp := by
    have hq : s'.pool p = s.pool p := h p (by rcases hp with rfl | rfl <;> exact nofun)
    exact ⟨congrArg Pool.btmp hq, congrArg Pool.addrBase hq⟩
  heap := by
    have hq : s'.pool .kernelVir = s.pool .kernelVir := h _ nofun
    exact ⟨congrArg (fun q => q.btmp.bitNum) hq, congrArg Pool.addrBase hq⟩

private lemma sameFrames_setMtx (s : MemState) (p : PoolId) (m : Mutex ℕ) :
    SameFrames s (s.setMtx p m) := by
  have hpool : ∀ q, ((s.setMtx p m).pool q).btmp = (s.pool q).btmp ∧
      ((s.setMtx p m).pool q).addrBase = (s.pool q).addrBase := fun q => by
    by_cases hq : q = p
    · simp [MemState.setMtx, hq]
    · simp [MemState.setMtx, hq]
  exact ⟨fun q _ => hpool q, congrArg Bitmap.bitNum (hpool _).1, (hpool _).2⟩

/-- The pools of virtual addresses. -/
def PoolId.Virtual : PoolId → Prop
  | .kernelPhy | .userPhy => False
  | .kernelVir | .userVir _ => True

private lemma sameFrames_setBtmp (s : MemState) {p : PoolId} (hp : p.Virtual) {b : Bitmap}
    (hb : b.bitNum = (s.btmp p).bitNum) : SameFrames s (s.setBtmp p b) := by
  refine ⟨fun q hq => ?_, ?_, setBtmp_addrBase b⟩
  · have hne : q ≠ p := by
      rintro rfl
      rcases hq with rfl | rfl <;> exact hp
    exact ⟨setBtmp_btmp_of_ne _ hne, setBtmp_addrBase b⟩
  · by_cases hk : PoolId.kernelVir = p
    · subst hk
      rw [setBtmp_btmp_self, hb]
    · rw [setBtmp_btmp_of_ne _ hk]

private lemma keeps_label {l : MemLabel} (hl : ∀ p a, l ≠ .frame p a) :
    Preserves (PhysInv allMem) (label l : MemProg Unit) :=
  .label fun _ _ h => h.append_other fun p a hmem => hl p a (List.mem_singleton.mp hmem).symm

private lemma keeps_modify {f : MemState → MemState} (hf : ∀ s, SameFrames s (f s)) :
    Preserves (PhysInv allMem) (modify f : MemProg Unit) :=
  .modify fun _ s h => h.same (hf s)

private lemma keeps_modifyOr {f : MemState → Option MemState} {e : Fault}
    (hf : ∀ s s', f s = some s' → SameFrames s s') :
    Preserves (PhysInv allMem) (modifyOr f e : MemProg Unit) :=
  .modifyOr fun _ s s' h hs => h.same (hf s s' hs)

lemma keeps_bitmapScanAt (p : PoolId) (val cnt : ℕ) :
    Preserves (PhysInv allMem) (bitmapScanAt p val cnt) :=
  .of_pure fun _ => ⟨_, runs_bitmapScanAt val cnt⟩

lemma keeps_bitmapSetAt {p : PoolId} (hp : p.Virtual) (idx : ℕ) :
    Preserves (PhysInv allMem) (bitmapSetAt p idx) := by
  refine .bind (.read _) fun byte => ?_
  cases byte with
  | some byte => exact keeps_modify fun s => sameFrames_setBtmp s hp rfl
  | none => exact keeps_modifyOr fun s s' hs => sameFrames_of_shared (orBehind_frame hs).1

lemma keeps_bitmapSetRun {p : PoolId} (hp : p.Virtual) (idx cnt : ℕ) :
    Preserves (PhysInv allMem) (bitmapSetRun p idx cnt) := by
  induction cnt generalizing idx with
  | zero => exact .ret ()
  | succ cnt ih => exact .bind (keeps_bitmapSetAt hp idx) fun _ => ih (idx + 1)

lemma vaddrPool_virtual (pf : PoolFlags) (t : ℕ) : (vaddrPool pf t).Virtual := by
  cases pf <;> exact trivial

lemma phyPool_cases (pf : PoolFlags) : phyPool pf = .kernelPhy ∨ phyPool pf = .userPhy := by
  cases pf <;> simp [phyPool]

lemma keeps_vaddrGet (pf : PoolFlags) (pgCnt : ℕ) :
    Preserves (PhysInv allMem) (vaddrGet pf pgCnt) := by
  refine .bind (.read _) fun t => .bind (keeps_label (by simp)) fun _ =>
    .bind (keeps_bitmapScanAt _ 0 pgCnt) fun r => ?_
  split_ifs
  · exact .bind (keeps_label (by simp)) fun _ => .ret 0
  · exact .bind (keeps_bitmapSetRun (vaddrPool_virtual pf t) _ pgCnt) fun _ =>
      .bind (.read _) fun _ => .bind (keeps_label (by simp)) fun _ => .ret _

/-- The step of the invariant: one frame is taken, or none is left. -/
lemma keeps_paddrGet {p : PoolId} (hp : p = .kernelPhy ∨ p = .userPhy) :
    Preserves (PhysInv allMem) (paddrGet p) := by
  intro tr s h
  have hn : (s.btmp p).bitNum ≤ 2 ^ 31 := by
    have hlt := allMem.isLt
    have hk : kernelPages allMem = freePages allMem / 2 := rfl
    have hu : userPages allMem = freePages allMem - kernelPages allMem := rfl
    have hf : freePages allMem = (allMem.toNat - 0x200000) / 4096 := rfl
    rcases hp with rfl | rfl
    · rw [h.kernelNum]
      omega
    · rw [h.userNum]
      omega
  rcases paddrGet_cases hn with ⟨i, hfree, hruns⟩ | ⟨_, hruns⟩
  · rw [hruns]
    exact h.take hp hfree
  · rw [hruns]
    exact h.append_other (by simp)

lemma keeps_loadAt (v : Word) : Preserves (PhysInv allMem) (loadAt v) := .readOr _ _

private lemma sameFrames_phys (s : MemState) (m : Phys) :
    SameFrames s { s with phys := m } := sameFrames_of_shared fun _ _ => rfl

private lemma keeps_physOr {f : MemState → Option Phys} {e : Fault} :
    Preserves (PhysInv allMem)
      (modifyOr (fun s => (f s).map fun m => { s with phys := m }) e : MemProg Unit) := by
  refine keeps_modifyOr fun s s' hs => ?_
  obtain ⟨m, _, rfl⟩ := Option.map_eq_some_iff.mp hs
  exact sameFrames_phys s m

lemma keeps_storeAt (v w : Word) : Preserves (PhysInv allMem) (storeAt v w) := keeps_physOr

lemma keeps_clearPage (page : Word) : Preserves (PhysInv allMem) (clearPage page) := by
  refine keeps_modifyOr fun s s' hs => ?_
  obtain ⟨f, _, rfl⟩ := Option.map_eq_some_iff.mp hs
  exact sameFrames_phys s _

private lemma keeps_setEntry (pte paddr : Word) : Preserves (PhysInv allMem)
    (do
      let pteVal ← loadAt pte
      if pteVal &&& 1 ≠ 0 then .stop .panic else storeAt pte (entryOf paddr) : MemProg Unit) := by
  refine .bind (keeps_loadAt _) fun v => ?_
  split_ifs
  · exact .stop _
  · exact keeps_storeAt _ _

lemma keeps_v2pMapping (vaddr paddr : Word) :
    Preserves (PhysInv allMem) (v2pMapping vaddr paddr) := by
  refine .bind (keeps_label (by simp)) fun _ => .bind (keeps_loadAt _) fun v => ?_
  split_ifs
  · refine .bind (keeps_loadAt _) fun w => ?_
    split_ifs
    · exact .stop _
    · exact keeps_setEntry _ _
  · exact .bind (keeps_paddrGet (.inl rfl)) fun _ => .bind (keeps_storeAt _ _) fun _ =>
      .bind (keeps_clearPage _) fun _ => keeps_setEntry _ _

lemma keeps_mallocPages {p : PoolId} (hp : p = .kernelPhy ∨ p = .userPhy) (start : Word)
    (cnt : ℕ) (vaddr : Word) : Preserves (PhysInv allMem) (mallocPages p start cnt vaddr) := by
  induction cnt generalizing vaddr with
  | zero => exact .ret start
  | succ cnt ih =>
    refine .bind (keeps_paddrGet hp) fun a => ?_
    split_ifs
    · exact .ret 0
    · exact .bind (keeps_v2pMapping _ _) fun _ => ih _

lemma keeps_mallocPage (pf : PoolFlags) (pgCnt : ℕ) :
    Preserves (PhysInv allMem) (mallocPage pf pgCnt) := by
  unfold mallocPage
  split_ifs
  · refine .bind (keeps_vaddrGet pf pgCnt) fun a => ?_
    split_ifs
    · exact .ret 0
    · exact keeps_mallocPages (phyPool_cases pf) _ _ _
  · exact .stop _

lemma keeps_mutexLockAt (p : PoolId) : Preserves (PhysInv allMem) (mutexLockAt p) := by
  refine .await fun tr s s' h hs => ?_
  cases hd : semDown (s.pool p).mtx.sem s.running with
  | taken sem =>
    simp only [hd, Option.some.injEq] at hs
    exact hs ▸ h.same (sameFrames_setMtx s p _)
  | sleep sem => simp [hd] at hs

lemma keeps_mutexUnlockAt (p : PoolId) : Preserves (PhysInv allMem) (mutexUnlockAt p) := by
  refine keeps_modifyOr fun s s' hs => ?_
  obtain ⟨m, _, rfl⟩ := Option.map_eq_some_iff.mp hs
  exact sameFrames_setMtx s p _

lemma keeps_kernelPagesMalloc (pgCnt : ℕ) :
    Preserves (PhysInv allMem) (kernelPagesMalloc pgCnt) := keeps_mallocPage .kernel pgCnt

lemma keeps_userPagesMalloc (pgCnt : ℕ) :
    Preserves (PhysInv allMem) (userPagesMalloc pgCnt) :=
  .bind (keeps_mutexLockAt _) fun _ => .bind (keeps_mallocPage .user pgCnt) fun _ =>
    .bind (keeps_mutexUnlockAt _) fun _ => .ret _

lemma keeps_targetMalloc {mem p : PoolId} (hmem : mem = .kernelPhy ∨ mem = .userPhy)
    (hp : p.Virtual) (vaddr : Word) :
    Preserves (PhysInv allMem) (targetMalloc mem p vaddr) := by
  have hreserve : Preserves (PhysInv allMem) (targetReserve p vaddr) :=
    .bind (.read _) fun _ => .bind (keeps_label (by simp)) fun _ =>
      .bind (keeps_bitmapSetAt hp _) fun _ => keeps_label (by simp)
  refine .bind hreserve fun _ => .bind (keeps_paddrGet hmem) fun a => ?_
  split_ifs
  · exact .ret 0
  · exact .bind (keeps_v2pMapping _ _) fun _ => .bind (keeps_mutexUnlockAt _) fun _ => .ret _

lemma keeps_targetVaddrMalloc (pf : PoolFlags) (vaddr : Word) :
    Preserves (PhysInv allMem) (targetVaddrMalloc pf vaddr) := by
  refine .bind (.read _) fun t => .bind (keeps_mutexLockAt _) fun _ => .bind (.read _) fun d => ?_
  split_ifs
  · exact keeps_targetMalloc (p := .userVir t) (phyPool_cases pf) trivial _
  · exact keeps_targetMalloc (p := .kernelVir) (phyPool_cases pf) trivial _
  · exact .stop _

private lemma sameFrames_userVir (s s' : MemState) (t : ℕ) (q : Pool)
    (h : s'.pool = Function.update s.pool (.userVir t) q) : SameFrames s s' :=
  sameFrames_of_shared fun p hp => by
    rw [h]
    exact Function.update_of_ne (hp t) _ _

lemma keeps_addrV2p (vaddr : Word) : Preserves (PhysInv allMem) (addrV2p vaddr) :=
  .bind (keeps_loadAt _) fun _ => .ret _

lemma keeps_copyKernelEntries (src dst : Word) :
    Preserves (PhysInv allMem) (copyKernelEntries src dst) := by
  refine keeps_modifyOr fun s s' hs => ?_
  obtain ⟨f, _, hs⟩ := Option.bind_eq_some_iff.mp hs
  obtain ⟨g, _, hs⟩ := Option.bind_eq_some_iff.mp hs
  exact Option.some.inj hs ▸ sameFrames_phys s _

lemma keeps_pageDirCreate : Preserves (PhysInv allMem) pageDirCreate := by
  refine .bind (keeps_kernelPagesMalloc 1) fun a => ?_
  split_ifs
  · exact .ret 0
  · exact .bind (keeps_copyKernelEntries _ _) fun _ => .bind (keeps_addrV2p _) fun _ =>
      .bind (keeps_storeAt _ _) fun _ => .ret _

lemma keeps_userVaddrBitmapCreate (task : ℕ) :
    Preserves (PhysInv allMem) (userVaddrBitmapCreate task) := by
  refine .bind (keeps_kernelPagesMalloc _) fun a => ?_
  split_ifs
  · exact .stop _
  · exact keeps_modify fun s => sameFrames_userVir s _ task _ rfl

lemma keeps_threadInit (task : ℕ) : Preserves (PhysInv allMem) (threadInit task) := by
  unfold threadInit
  split_ifs
  · exact .stop _
  · exact keeps_modify fun s => sameFrames_userVir s _ task _ rfl

lemma keeps_processRunMemory : Preserves (PhysInv allMem) processRunMemory :=
  .bind (keeps_kernelPagesMalloc 1) fun task =>
    .bind (keeps_threadInit _) fun _ =>
      .bind (keeps_userVaddrBitmapCreate _) fun _ => .bind keeps_pageDirCreate fun _ =>
        .bind (keeps_modify fun _ => sameFrames_of_shared fun _ _ => rfl) fun _ => .ret task

lemma keeps_processActivate (thread : ℕ) :
    Preserves (PhysInv allMem) (processActivate thread) := by
  refine .bind (.read _) fun d => ?_
  split_ifs
  · exact .bind (keeps_addrV2p _) fun _ => keeps_modify fun _ => sameFrames_of_shared fun _ _ => rfl
  · exact keeps_modify fun _ => sameFrames_of_shared fun _ _ => rfl

end Calls

section Machine

/-- The memory and the labels of all calls so far. -/
structure SeqState where
  mem : MemState
  trace : List MemLabel

inductive MemCall
  | kernelPagesMalloc (pgCnt : ℕ)
  | userPagesMalloc (pgCnt : ℕ)
  | targetVaddrMalloc (pf : PoolFlags) (vaddr : Word)
  | processRun

def MemCall.prog : MemCall → MemProg Word
  | .kernelPagesMalloc pgCnt => OsI386.kernelPagesMalloc pgCnt
  | .userPagesMalloc pgCnt => OsI386.userPagesMalloc pgCnt
  | .targetVaddrMalloc pf vaddr => OsI386.targetVaddrMalloc pf vaddr
  | .processRun => processRunMemory

/-- A call of the running thread, or a switch to another one. -/
inductive MemEvent
  | call (c : MemCall)
  | switch (thread : ℕ)

def seqRun {α : Type} (s : SeqState) (p : MemProg α) : SeqState :=
  ⟨(p.run s.mem).state, s.trace ++ (p.run s.mem).trace⟩

/-- The call runs alone until it returns. -/
def seqComplete {α : Type} (s : SeqState) (p : MemProg α) : Option SeqState :=
  match (p.run s.mem).outcome with
  | .done _ => some (seqRun s p)
  | _ => none

def seqStep (s : SeqState) : MemEvent → Option SeqState
  | .call c => seqComplete s c.prog
  | .switch t => seqComplete s (processActivate t)

variable {allMem : Word} {s0 : MemState} {s t : SeqState}

lemma keeps_call (c : MemCall) : Preserves (PhysInv allMem) c.prog := by
  cases c with
  | kernelPagesMalloc n => exact keeps_kernelPagesMalloc n
  | userPagesMalloc n => exact keeps_userPagesMalloc n
  | targetVaddrMalloc pf v => exact keeps_targetVaddrMalloc pf v
  | processRun => exact keeps_processRunMemory

lemma seqComplete_eq {α : Type} {p : MemProg α} (h : seqComplete s p = some t) :
    t = seqRun s p := by
  unfold seqComplete at h
  split at h
  · exact (Option.some.inj h).symm
  · exact absurd h (by simp)

lemma PhysInv.step {e : MemEvent} (h : PhysInv allMem s.trace s.mem) (hs : seqStep s e = some t) :
    PhysInv allMem t.trace t.mem := by
  cases e with
  | call c =>
    rw [seqComplete_eq hs]
    exact keeps_call c _ _ h
  | switch u =>
    rw [seqComplete_eq hs]
    exact keeps_processActivate u _ _ h

/-- The division of memory is exact from 2 MiB on. -/
lemma toNat_freePages (hmem : 2 ^ 21 ≤ allMem.toNat) :
    let free : Word := (allMem - (4096 * (1 + 255) + pageDirStartAddr)) / 4096
    free.toNat = freePages allMem ∧ (free / 2).toNat = kernelPages allMem ∧
      (free - free / 2).toNat = userPages allMem := by
  intro free
  have hlt := allMem.isLt
  have hused : (4096 * (1 + 255) + pageDirStartAddr : Word) = 0x200000 := by decide
  have hfree : free.toNat = freePages allMem := by
    have hf : freePages allMem = (allMem.toNat - 0x200000) / 4096 := rfl
    rw [BitVec.toNat_udiv, BitVec.toNat_sub, hused, hf]
    change (2 ^ 32 - 0x200000 + allMem.toNat) % 2 ^ 32 / 4096 = _
    omega
  have hkernel : (free / 2).toNat = kernelPages allMem := by
    rw [BitVec.toNat_udiv, hfree]
    rfl
  refine ⟨hfree, hkernel, ?_⟩
  have hk : kernelPages allMem = freePages allMem / 2 := rfl
  have hfb := free.isLt
  rw [BitVec.toNat_sub, hfree, hkernel, userPages]
  omega

lemma PhysInv.init (hmem : 2 ^ 21 ≤ allMem.toNat) :
    PhysInv allMem [] (memPoolInit s0 allMem) := by
  obtain ⟨-, hkernel, huser⟩ := toNat_freePages hmem
  have hlt := allMem.isLt
  have hk : kernelPages allMem = freePages allMem / 2 := rfl
  have hf : freePages allMem = (allMem.toNat - 0x200000) / 4096 := rfl
  have hused : (4096 * (1 + 255) + pageDirStartAddr : Word) = 0x200000 := by decide
  constructor
  case kernelNum => exact hkernel
  case userNum => exact huser
  case kernelBase => exact hused
  case userBase =>
    rw [hused] at hkernel
    simp only [memPoolInit, poolInit, hused]
    apply BitVec.eq_of_toNat_eq
    rw [BitVec.toNat_add, BitVec.toNat_mul, hkernel, BitVec.toNat_ofNat]
    change (0x200000 + kernelPages allMem * 4096 % 2 ^ 32) % 2 ^ 32 = _
    omega
  case heapNum => exact hkernel
  case heapBase => rfl
  case taken => simp
  case nodup => exact List.nodup_nil

/-- A machine as the loader leaves it; each thread has 4 pages of user addresses. -/
def bootMem : MemState where
  pool _ :=
    { btmp := bitmapInit (fun _ => 0) 4
      btmpBase := 0
      addrBase := userVaddrStart
      poolSize := 0
      mtx := mutexInit }
  phys := setupPage fun _ _ => 0
  cr3 := frameOf pageDirStartAddr
  running := 0
  pgDir _ := 0

end Machine

end OsI386
