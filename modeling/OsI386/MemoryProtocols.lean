import OsI386.Interference
import OsI386.OsSystem

/-!
# kernel/memory.c under preemption

Most accesses of memory management leave the maps of the shared pools alone. A protocol that
allows these is kept by every call, provided that `paddr_get` and, for addresses of the kernel,
`vaddr_get` and the reservation of `target_vaddr_malloc` keep to it.
-/
namespace OsI386
open Prog

section Protocol

/-- The pools of which there is one. -/
def PoolId.Shared (p : PoolId) : Prop := ∀ t, p ≠ .userVir t

def PoolId.Physical (p : PoolId) : Prop := p = .kernelPhy ∨ p = .userPhy

lemma PoolId.Physical.shared {p : PoolId} (h : p.Physical) : p.Shared := by
  rcases h with rfl | rfl <;> exact fun _ => nofun

lemma phyPool_physical (pf : PoolFlags) : (phyPool pf).Physical := phyPool_cases pf

/-- The access leaves the shared maps alone. -/
def Quiet (f : MemState → Option MemState) : Prop :=
  ∀ s s', f s = some s' → ∀ p : PoolId, p.Shared →
    s'.btmp p = s.btmp p ∧ (s'.pool p).addrBase = (s.pool p).addrBase

/-- The label announces no page of a shared pool. -/
def MemLabel.Silent : MemLabel → Prop
  | .frame _ _ => False
  | .range p _ _ => ¬ p.Shared
  | _ => True

variable {ρ α β : Type}

/-- From a state with `I` on, the program keeps to the protocol, and `I` holds at its end. -/
def Obedient (P : Protocol MemState MemLabel ρ) (I : MemState → Prop) (p : MemProg α) : Prop :=
  ∀ s D, I s → p.Obeys P (fun s' _ _ => I s') s D

/-- Quiet accesses and silent labels are allowed at any time. -/
structure Tolerant (P : Protocol MemState MemLabel ρ) (I : MemState → Prop) : Prop where
  others : ∀ {D s s'}, P.others D s s' → I s → I s'
  quiet : ∀ {f s s'} D, Quiet f → f s = some s' → P.access f s D s' D ∧ (I s → I s')
  silent : ∀ {x : MemLabel} s D, x.Silent → P.tells x s D D

structure Reserving (P : Protocol MemState MemLabel ρ) (I : MemState → Prop) : Prop
    extends Tolerant P I where
  vaddrGet : ∀ pgCnt, 0 < pgCnt → Obedient P I (vaddrGet .kernel pgCnt)
  paddrGet : ∀ {p : PoolId}, p.Physical → Obedient P I (paddrGet p)

end Protocol

section Accesses

variable {ρ α β : Type} {P : Protocol MemState MemLabel ρ} {I : MemState → Prop}
  {s s' : MemState} {D : ρ} {p : PoolId} {f : MemState → Option MemState}
  {Q : MemState → ρ → α → Prop}

lemma quiet_of_pool (h : ∀ s s', f s = some s' → s'.pool = s.pool) : Quiet f := by
  intro s s' hs p _
  rw [MemState.btmp, MemState.btmp, h s s' hs]
  exact ⟨rfl, rfl⟩

lemma quiet_some : Quiet some := quiet_of_pool fun _ _ hs => Option.some.inj hs ▸ rfl

/-- A map that only one thread has. -/
lemma quiet_setBtmp (hp : ¬ p.Shared) (g : MemState → Bitmap) :
    Quiet fun s => some (s.setBtmp p (g s)) := by
  intro s s' hs q hq
  obtain rfl := Option.some.inj hs
  have hne : q ≠ p := fun he => hp (he ▸ hq)
  exact ⟨setBtmp_btmp_of_ne _ hne, setBtmp_addrBase _⟩

lemma quiet_orBehind (p : PoolId) (idx : ℕ) : Quiet fun s => s.orBehind p idx := by
  intro s s' hs q hq
  have hpool := (orBehind_frame hs).1 q hq
  rw [MemState.btmp, MemState.btmp, hpool]
  exact ⟨rfl, rfl⟩

namespace Tolerant

lemma obeys_quiet (hT : Tolerant P I) {next : MemState → MemProg α} (hf : Quiet f)
    (h : ∀ s₁ s', P.others D s s₁ → f s₁ = some s' → (next s₁).Obeys P Q s' D) :
    (Prog.act f next).Obeys P Q s D :=
  fun s₁ h₁ _ s' hs => ⟨D, (hT.quiet D hf hs).1, h s₁ s' h₁ hs⟩

lemma reads (hT : Tolerant P I) : P.Reads := fun _ D => (hT.quiet D quiet_some rfl).1

lemma obeys_read (hT : Tolerant P I) {g : MemState → β} {k : β → MemProg α}
    (h : ∀ s₁, P.others D s s₁ → (k (g s₁)).Obeys P Q s₁ D) :
    (Prog.read g >>= k).Obeys P Q s D := hT.reads.obeys h

lemma obeys_label (hT : Tolerant P I) {x : MemLabel} {k : Unit → MemProg α} (hx : x.Silent)
    (h : (k ()).Obeys P Q s D) : (Prog.label x >>= k).Obeys P Q s D :=
  fun s₁ h₁ => ⟨D, hT.silent s₁ D hx, h.others h₁⟩

lemma ret (hT : Tolerant P I) (a : α) : Obedient P I (.ret a) := fun _ _ hs _ h₁ => hT.others h₁ hs

lemma act (hT : Tolerant P I) {next : MemState → MemProg α} (hf : Quiet f)
    (h : ∀ s, Obedient P I (next s)) : Obedient P I (.act f next) :=
  fun _ D hs => hT.obeys_quiet hf fun s₁ s' h₁ hf' =>
    h s₁ s' D ((hT.quiet D hf hf').2 (hT.others h₁ hs))

lemma read (hT : Tolerant P I) (g : MemState → α) : Obedient P I (Prog.read g) :=
  hT.act quiet_some fun _ => hT.ret _

lemma readOr (hT : Tolerant P I) (g : MemState → Option α) (e : Fault) :
    Obedient P I (Prog.readOr g e) := by
  refine hT.act quiet_some fun s => ?_
  cases g s with
  | none => exact fun _ _ _ => trivial
  | some a => exact hT.ret a

lemma modify (hT : Tolerant P I) {g : MemState → MemState} (hg : Quiet fun s => some (g s)) :
    Obedient P I (Prog.modify g) := hT.act hg fun _ => hT.ret ()

lemma modifyOr (hT : Tolerant P I) {e : Fault} (hf : Quiet f) :
    Obedient P I (Prog.modifyOr f e) := by
  refine hT.act (fun s s' hs => ?_) fun s => ?_
  · obtain rfl := Option.some.inj hs
    cases hfs : f s with
    | none => exact fun _ _ => ⟨rfl, rfl⟩
    | some t => exact hf s t hfs
  · split_ifs
    · exact hT.ret ()
    · exact fun _ _ _ => trivial

lemma await (hT : Tolerant P I) (hf : Quiet f) : Obedient P I (Prog.await f) :=
  hT.act hf fun _ => hT.ret ()

lemma label (hT : Tolerant P I) {x : MemLabel} (hx : x.Silent) : Obedient P I (Prog.label x) :=
  fun _ D hs s₁ h₁ => ⟨D, hT.silent s₁ D hx, hT.ret () s₁ D (hT.others h₁ hs)⟩

end Tolerant

lemma Obedient.bind {p : MemProg α} {k : α → MemProg β} (hp : Obedient P I p)
    (hk : ∀ a, Obedient P I (k a)) : Obedient P I (p >>= k) :=
  fun s D hs => Obeys.bind (hp s D hs) fun s' _ a hs' => hk a s' _ hs'

lemma Obedient.stop (e : Fault) : Obedient P I (.stop e : MemProg α) := fun _ _ _ => trivial

end Accesses

section Calls

variable {ρ : Type} {P : Protocol MemState MemLabel ρ} {I : MemState → Prop}

lemma obedient_loadAt (hT : Tolerant P I) (v : Word) : Obedient P I (loadAt v) := hT.readOr _ _

/-- An update of physical memory. -/
lemma obedient_physOr (hT : Tolerant P I) {g : MemState → Option Phys} {e : Fault} :
    Obedient P I (modifyOr (fun s => (g s).map fun m => { s with phys := m }) e) := by
  refine hT.modifyOr (quiet_of_pool fun s s' hs => ?_)
  obtain ⟨m, -, rfl⟩ := Option.map_eq_some_iff.mp hs
  rfl

lemma obedient_storeAt (hT : Tolerant P I) (v w : Word) : Obedient P I (storeAt v w) :=
  obedient_physOr hT

lemma obedient_clearPage (hT : Tolerant P I) (page : Word) : Obedient P I (clearPage page) := by
  refine hT.modifyOr (quiet_of_pool fun s s' hs => ?_)
  obtain ⟨f, -, rfl⟩ := Option.map_eq_some_iff.mp hs
  rfl

lemma obedient_v2pMapping (hR : Reserving P I) (vaddr paddr : Word) :
    Obedient P I (v2pMapping vaddr paddr) := by
  have hT := hR.toTolerant
  refine .bind (hT.label trivial) fun _ => .bind (obedient_loadAt hT _) fun pdeVal => ?_
  split_ifs
  · refine .bind (obedient_loadAt hT _) fun _ => ?_
    split_ifs
    · exact .stop _
    · refine .bind (obedient_loadAt hT _) fun _ => ?_
      split_ifs
      · exact .stop _
      · exact obedient_storeAt hT _ _
  · refine .bind (hR.paddrGet (.inl rfl)) fun _ => .bind (obedient_storeAt hT _ _) fun _ =>
      .bind (obedient_clearPage hT _) fun _ => .bind (obedient_loadAt hT _) fun _ => ?_
    split_ifs
    · exact .stop _
    · exact obedient_storeAt hT _ _

lemma obedient_scanRounds (hT : Tolerant P I) (p : PoolId) (val cnt fuel left right : ℕ) :
    Obedient P I (scanRounds p val cnt fuel left right) := by
  induction fuel generalizing left right with
  | zero => exact hT.ret _
  | succ fuel ih =>
    refine .bind (hT.read _) fun bit => ?_
    dsimp only
    split_ifs
    · exact hT.ret _
    · exact ih _ _
    · exact hT.ret _
    · exact ih _ _

/-- The outcome of a scan is inside the map, whatever the bits were when they were read, and in a
map that stays as it is the one of `scanLoop`. -/
lemma obeys_scanRounds (hP : P.Reads) {p : PoolId} {s₀ s : MemState} {D : ρ}
    {val cnt fuel left right : ℕ} (hle : left ≤ right) (h₀ : P.others D s₀ s) :
    (scanRounds p val cnt fuel left right).Obeys P (fun s' D' r => D' = D ∧ P.others D s₀ s' ∧
      (r = -1 ∨ ∃ i, r = toInt32 i ∧ i + cnt ≤ right + fuel) ∧
      ((∀ x, P.others D s₀ x → x.btmp p = s₀.btmp p) →
        r = match scanLoop (s₀.btmp p) val cnt fuel left right with
          | some l => toInt32 l
          | none => -1)) s D := by
  induction fuel generalizing left right s with
  | zero => exact fun s₁ h₁ => ⟨rfl, P.trans h₀ h₁, .inl rfl, fun _ => rfl⟩
  | succ fuel ih =>
    refine hP.obeys fun s₁ h₁ => ?_
    have h01 := P.trans h₀ h₁
    have hleft : (if bitmapGet (s₁.btmp p) right ≠ val then right + 1 else left) ≤ right + 1 := by
      split_ifs <;> omega
    by_cases hlen : right + 1 - (if bitmapGet (s₁.btmp p) right ≠ val then right + 1 else left) = cnt
    · simp only [hlen, ↓reduceIte]
      refine fun s₂ h₂ => ⟨rfl, P.trans h01 h₂, .inr ⟨_, rfl, by omega⟩, fun hstill => ?_⟩
      rw [hstill s₁ h01] at hlen ⊢
      simp only [scanLoop, hlen, ↓reduceIte]
    · simp only [hlen, ↓reduceIte]
      refine Obeys.post (ih hleft h01) fun s' D' r hr => ⟨hr.1, hr.2.1, hr.2.2.1.imp_right ?_,
        fun hstill => ?_⟩
      · rintro ⟨i, hi, hfit⟩
        exact ⟨i, hi, by omega⟩
      · have hrest := hr.2.2.2 hstill
        rw [hstill s₁ h01] at hlen hrest
        simp only [scanLoop, hlen, ↓reduceIte]
        exact hrest

/-- The scan of a map whose size stays. -/
lemma obeys_bitmapScanAt (hP : P.Reads) {p : PoolId} {s : MemState} {D : ρ}
    (hsize : ∀ s', P.others D s s' → (s'.btmp p).bitNum = (s.btmp p).bitNum) (val cnt : ℕ) :
    (bitmapScanAt p val cnt).Obeys P (fun s' D' r => D' = D ∧ P.others D s s' ∧
      (r = -1 ∨ ∃ i, r = toInt32 i ∧ i + cnt ≤ (s.btmp p).bitNum) ∧
      ((∀ x, P.others D s x → x.btmp p = s.btmp p) → r = bitmapScan (s.btmp p) val cnt)) s D := by
  refine hP.obeys fun s₁ h₁ => ?_
  refine Obeys.post (obeys_scanRounds hP le_rfl h₁) fun s' D' r hr => ?_
  rwa [Nat.zero_add, hsize s₁ h₁] at hr

/-- `bitmap_set` on the map of a thread's own addresses. -/
lemma obedient_bitmapSetAt (hT : Tolerant P I) {p : PoolId} (hp : ¬ p.Shared) (idx : ℕ) :
    Obedient P I (bitmapSetAt p idx) := by
  refine .bind (hT.read _) fun byte => ?_
  cases byte with
  | some byte => exact hT.modify (quiet_setBtmp hp _)
  | none => exact hT.modifyOr (quiet_orBehind p idx)

lemma obedient_bitmapSetRun (hT : Tolerant P I) {p : PoolId} (hp : ¬ p.Shared) (idx cnt : ℕ) :
    Obedient P I (bitmapSetRun p idx cnt) := by
  induction cnt generalizing idx with
  | zero => exact hT.ret ()
  | succ cnt ih => exact .bind (obedient_bitmapSetAt hT hp idx) fun _ => ih _

lemma userVir_not_shared (t : ℕ) : ¬ (PoolId.userVir t).Shared := fun hp => hp t rfl

/-- The addresses of a thread are its own. -/
lemma obedient_vaddrGet_user (hT : Tolerant P I) (pgCnt : ℕ) :
    Obedient P I (vaddrGet .user pgCnt) := by
  refine .bind (hT.read _) fun t => .bind (hT.label trivial) fun _ =>
    .bind (.bind (hT.read _) fun n => obedient_scanRounds hT _ 0 pgCnt n 0 0) fun r => ?_
  split_ifs
  · exact .bind (hT.label trivial) fun _ => hT.ret 0
  · exact .bind (obedient_bitmapSetRun hT (userVir_not_shared t) _ _) fun _ =>
      .bind (hT.read _) fun _ => .bind (hT.label (userVir_not_shared t)) fun _ => hT.ret _

lemma obedient_mallocPages (hR : Reserving P I) {p : PoolId} (hp : p.Physical) (start : Word)
    (cnt : ℕ) (vaddr : Word) : Obedient P I (mallocPages p start cnt vaddr) := by
  induction cnt generalizing vaddr with
  | zero => exact hR.ret start
  | succ cnt ih =>
    refine .bind (hR.paddrGet hp) fun a => ?_
    split_ifs
    · exact hR.ret 0
    · exact .bind (obedient_v2pMapping hR _ _) fun _ => ih _

lemma obedient_mallocPage (hR : Reserving P I) (pf : PoolFlags) (pgCnt : ℕ) :
    Obedient P I (mallocPage pf pgCnt) := by
  unfold mallocPage
  split_ifs with hcnt
  · have hget : Obedient P I (vaddrGet pf pgCnt) := by
      cases pf with
      | kernel => exact hR.vaddrGet pgCnt hcnt.1
      | user => exact obedient_vaddrGet_user hR.toTolerant pgCnt
    refine .bind hget fun start => ?_
    split_ifs
    · exact hR.ret 0
    · exact obedient_mallocPages hR (phyPool_physical pf) _ _ _
  · exact .stop _

lemma quiet_setMtx (p : PoolId) (m : MemState → Option (Mutex ℕ)) :
    Quiet fun s => (m s).map fun x => s.setMtx p x := by
  intro s s' hs q _
  obtain ⟨x, -, rfl⟩ := Option.map_eq_some_iff.mp hs
  by_cases he : q = p
  · subst he
    simp [MemState.setMtx, MemState.btmp]
  · simp [MemState.setMtx, MemState.btmp, he]

lemma obedient_mutexUnlockAt (hT : Tolerant P I) (p : PoolId) :
    Obedient P I (mutexUnlockAt p) := by
  refine hT.modifyOr fun s s' hs => ?_
  obtain ⟨m, hm, rfl⟩ := Option.map_eq_some_iff.mp hs
  exact quiet_setMtx p (fun _ => some m.1) s _ rfl

lemma obedient_mutexLockAt (hT : Tolerant P I) (p : PoolId) : Obedient P I (mutexLockAt p) := by
  refine hT.await fun s s' hs => ?_
  split at hs
  · rename_i sem _
    exact quiet_setMtx p (fun _ => some ⟨some s.running, sem⟩) s s' hs
  · cases hs

lemma obedient_targetMalloc (hR : Reserving P I) {mem p : PoolId} (hmem : mem.Physical)
    (vaddr : Word) (hreserve : Obedient P I (targetReserve p vaddr)) :
    Obedient P I (targetMalloc mem p vaddr) := by
  refine .bind hreserve fun _ => .bind (hR.paddrGet hmem) fun a => ?_
  split_ifs
  · exact hR.ret 0
  · exact .bind (obedient_v2pMapping hR _ _) fun _ =>
      .bind (obedient_mutexUnlockAt hR.toTolerant mem) fun _ => hR.ret _

lemma obedient_targetVaddrMalloc (hR : Reserving P I) {pf : PoolFlags} (vaddr : Word)
    (hreserve : pf = .kernel → Obedient P I (targetReserve .kernelVir vaddr)) :
    Obedient P I (targetVaddrMalloc pf vaddr) := by
  have hT := hR.toTolerant
  refine .bind (hT.read _) fun t => .bind (obedient_mutexLockAt hT _) fun _ =>
    .bind (hT.read _) fun d => ?_
  split_ifs with huser hkernel
  · have hown := userVir_not_shared t
    exact obedient_targetMalloc hR (phyPool_physical pf) vaddr
      (.bind (hT.read _) fun idx => .bind (hT.label trivial) fun _ =>
        .bind (obedient_bitmapSetAt hT hown idx) fun _ => hT.label hown)
  · exact obedient_targetMalloc hR (phyPool_physical pf) vaddr (hreserve hkernel.2)
  · exact .stop _

lemma obedient_userPagesMalloc (hR : Reserving P I) (pgCnt : ℕ) :
    Obedient P I (userPagesMalloc pgCnt) :=
  .bind (obedient_mutexLockAt hR.toTolerant _) fun _ =>
    .bind (obedient_mallocPage hR .user pgCnt) fun _ =>
      .bind (obedient_mutexUnlockAt hR.toTolerant _) fun _ => hR.ret _

lemma obedient_addrV2p (hT : Tolerant P I) (vaddr : Word) : Obedient P I (addrV2p vaddr) :=
  .bind (obedient_loadAt hT _) fun _ => hT.ret _

/-- The records of a thread are its own. -/
lemma quiet_userVir (g : MemState → MemState) {task : ℕ} {q : MemState → Pool}
    (hg : ∀ s, (g s).pool = Function.update s.pool (.userVir task) (q s)) :
    Quiet fun s => some (g s) := by
  intro s s' hs p hp
  obtain rfl := Option.some.inj hs
  have hpool : (g s).pool p = s.pool p := by
    rw [hg]
    exact Function.update_of_ne (hp task) _ _
  rw [MemState.btmp, MemState.btmp, hpool]
  exact ⟨rfl, rfl⟩

lemma obedient_threadInit (hT : Tolerant P I) (task : ℕ) : Obedient P I (threadInit task) := by
  unfold threadInit
  split_ifs
  · exact .stop _
  · exact hT.modify (quiet_userVir _ fun _ => rfl)

lemma obedient_userVaddrBitmapCreate (hR : Reserving P I) (task : ℕ) :
    Obedient P I (userVaddrBitmapCreate task) := by
  refine .bind (obedient_mallocPage hR .kernel _) fun base => ?_
  split_ifs
  · exact .stop _
  · exact hR.modify (quiet_userVir _ fun _ => rfl)

lemma obedient_copyKernelEntries (hT : Tolerant P I) (src dst : Word) :
    Obedient P I (copyKernelEntries src dst) := by
  refine hT.modifyOr (quiet_of_pool fun s s' hs => ?_)
  obtain ⟨f, -, hs⟩ := Option.bind_eq_some_iff.mp hs
  obtain ⟨g, -, hs⟩ := Option.bind_eq_some_iff.mp hs
  exact Option.some.inj hs ▸ rfl

lemma obedient_pageDirCreate (hR : Reserving P I) : Obedient P I pageDirCreate := by
  have hT := hR.toTolerant
  refine .bind (obedient_mallocPage hR .kernel 1) fun d => ?_
  split_ifs
  · exact hT.ret 0
  · exact .bind (obedient_copyKernelEntries hT _ _) fun _ => .bind (obedient_addrV2p hT _) fun _ =>
      .bind (obedient_storeAt hT _ _) fun _ => hT.ret d

lemma obedient_processRunMemory (hR : Reserving P I) : Obedient P I processRunMemory :=
  .bind (obedient_mallocPage hR .kernel 1) fun task =>
    .bind (obedient_threadInit hR.toTolerant _) fun _ =>
      .bind (obedient_userVaddrBitmapCreate hR _) fun _ => .bind (obedient_pageDirCreate hR) fun _ =>
        .bind (hR.modify (quiet_of_pool fun _ _ hs => Option.some.inj hs ▸ rfl)) fun _ =>
          hR.ret task

lemma obedient_threadAllInitMemory (hR : Reserving P I) : Obedient P I threadAllInitMemory := by
  have hrunning : ∀ t, Obedient P I (modify fun s => { s with running := t }) := fun t =>
    hR.modify (quiet_of_pool fun _ _ hs => Option.some.inj hs ▸ rfl)
  refine .bind (.bind (hrunning 0) fun _ => .bind (obedient_mallocPage hR .kernel 1) fun base => ?_)
    fun _ => .bind (hrunning bootThread) fun _ => obedient_threadInit hR.toTolerant _
  split_ifs
  · exact .stop _
  · exact hR.ret ()

/-- The virtual page of the kernel a call chooses itself. -/
def OsCall.target : OsCall → Option Word
  | .mem (.targetVaddrMalloc .kernel vaddr) => some vaddr
  | _ => none

lemma obedient_osCall (hR : Reserving P I) {c : OsCall}
    (hreserve : ∀ vaddr, c.target = some vaddr → Obedient P I (targetReserve .kernelVir vaddr)) :
    Obedient P I c.prog := by
  cases c with
  | threadRun prio =>
    exact .bind (obedient_mallocPage hR .kernel 1) fun _ =>
      .bind (obedient_threadInit hR.toTolerant _) fun _ => hR.ret _
  | mem c =>
    cases c with
    | kernelPagesMalloc pgCnt => exact obedient_mallocPage hR .kernel pgCnt
    | userPagesMalloc pgCnt => exact obedient_userPagesMalloc hR pgCnt
    | processRun => exact obedient_processRunMemory hR
    | targetVaddrMalloc pf vaddr =>
      exact obedient_targetVaddrMalloc hR vaddr fun hk => hreserve vaddr (hk ▸ rfl)

end Calls

end OsI386
