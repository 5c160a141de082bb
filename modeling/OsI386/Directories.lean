import OsI386.LoaderTables
import OsI386.OsSystem
import OsI386.ProcessEffects

/-!
# Page directories share the kernel half

The loader makes the page tables of all kernel addresses below the window, so no call ever
writes an entry of that half of a directory: `page_dir_create` copies the same 255 entries
whichever directory is active, and a page of the kernel heap is mapped in all directories at
once.
-/
namespace OsI386
open Prog

section Invariant

variable {m : Phys} {s s' s₀ : MemState} {f : FrameNo} {d : Word}

/-- The entries of the loader above 0xc0000000, and the directory itself as the last one. -/
structure KernelHalf (m phys : Phys) (f : FrameNo) : Prop where
  entries : ∀ i : Slot, 768 ≤ i.toNat → i.toNat < 1023 → phys f i = setupPage m 0x100 i
  window : Window phys f

structure DirFrame (m : Phys) (s : MemState) (f : FrameNo) : Prop extends
    KernelHalf m s.phys f where
  nonzero : f ≠ 0
  taken : ¬ FreeFrame s f

/-- The page at `d` of the kernel heap is a directory, in frame `f`. -/
structure DirAt (m : Phys) (s : MemState) (d : Word) (f : FrameNo) : Prop where
  walk : translate s.phys 0x100 d = some f
  dir : DirFrame m s f
  low : 768 ≤ (pdeIdx d).toNat
  high : (pdeIdx d).toNat < 1023

/-- The pools lie above the tables of the loader, and all directories of threads have the kernel
half. -/
structure DirInv (m : Phys) (s : MemState) : Prop where
  pools : PhyPools s
  low : ∀ f, FreeFrame s f → 0x200 ≤ f.toNat
  heap : (s.pool .kernelVir).Shape 0xffc00000
  heapBase : (s.pool .kernelVir).addrBase = kHeapStart
  kernel : DirFrame m s 0x100
  threads : ∀ t, s.pgDir t ≠ 0 → ∃ f, DirAt m s (s.pgDir t) f

/-- The page tables of the kernel half are those of the loader. -/
lemma DirInv.table (h : DirInv m s) (hf : KernelHalf m s.phys f) {i : Slot} (hlow : 768 ≤ i.toNat)
    (hhigh : i.toNat < 1023) : present (s.phys f i) = true ∧ frameOf (s.phys f i) ≠ 0 ∧
      ¬ FreeFrame s (frameOf (s.phys f i)) := by
  obtain ⟨hp, hframe⟩ := setupPage_kernel m hlow hhigh
  rw [hf.entries i hlow hhigh]
  refine ⟨hp, fun h0 => ?_, fun hfree => ?_⟩
  · rw [h0] at hframe
    change 0 = _ at hframe
    omega
  · have := h.low _ hfree
    omega

lemma DirInv.ready (h : DirInv m s) (hd : DirFrame m s s.cr3) : Ready s where
  pools := h.pools
  heap := h.heap
  heapBase := by
    rw [h.heapBase]
    decide
  window := hd.window
  nullDir := hd.nonzero
  ownDir := hd.taken
  tables _ hlow hhigh := h.table hd.toKernelHalf hlow hhigh

lemma DirFrame.grows (hd : DirFrame m s f) (hr : Ready s) (h : Grows s s') : DirFrame m s' f := by
  have hkept := h.kept hr f hd.nonzero hd.taken
  have hlast := hkept 1023 hd.window.present
  refine ⟨⟨fun i hlow hhigh => ?_, hd.window.of_last hlast⟩, hd.nonzero,
    fun hf => hd.taken (h.free hf)⟩
  have hentry := hd.entries i hlow hhigh
  rw [hkept i (hentry ▸ (setupPage_kernel m hlow hhigh).1), hentry]

lemma DirAt.grows (hd : DirAt m s d f) (hi : DirInv m s) (hr : Ready s) (h : Grows s s') :
    DirAt m s' d f := by
  obtain ⟨-, ht0, htf⟩ := hi.table hi.kernel.toKernelHalf hd.low hd.high
  exact ⟨(h.kept hr).translate hi.kernel.nonzero hi.kernel.taken ht0 htf hd.walk,
    hd.dir.grows hr h, hd.low, hd.high⟩

lemma DirInv.grows (hi : DirInv m s) (hr : Ready s) (h : Grows s s') : DirInv m s' := by
  constructor
  case pools => exact h.phyPools hi.pools
  case low => exact fun f hf => hi.low f (h.free hf)
  case heap => exact h.shape hi.heap
  case heapBase => rw [h.addrBase]; exact hi.heapBase
  case kernel => exact hi.kernel.grows hr h
  case threads =>
    intro t ht
    rw [h.pgDir] at ht ⊢
    obtain ⟨f, hf⟩ := hi.threads t ht
    exact ⟨f, hf.grows hi hr h⟩

/-- Kernel addresses are mapped alike in all directories. -/
lemma KernelHalf.translate_eq {phys : Phys} {g : FrameNo} {v : Word} (hf : KernelHalf m phys f)
    (hg : KernelHalf m phys g) (hlow : 768 ≤ (pdeIdx v).toNat) (hhigh : (pdeIdx v).toNat < 1023) :
    translate phys f v = translate phys g v := by
  simp only [translate, hf.entries _ hlow hhigh, hg.entries _ hlow hhigh]

end Invariant

section Calls

variable {m : Phys} {s s' s₀ : MemState} {f : FrameNo} {d a : Word} {tr : List MemLabel}

/-- `t` is no page the kernel heap can still hand out. -/
def Settled (s : MemState) (t : ℕ) : Prop :=
  ∀ i, FreeBit (s.btmp .kernelVir) i → t ≠ (s.pageAddr .kernelVir i).toNat

lemma Settled.of_pool {t : ℕ} (h : Settled s t) (hp : s'.pool .kernelVir = s.pool .kernelVir) :
    Settled s' t := by
  intro i hi
  have hbtmp : s'.btmp .kernelVir = s.btmp .kernelVir := congrArg Pool.btmp hp
  have haddr : s'.pageAddr .kernelVir i = s.pageAddr .kernelVir i := by
    simp only [MemState.pageAddr, hp]
  rw [haddr]
  exact h i (hbtmp ▸ hi)

/-- What holds at every moment of a call that began in `s₀`. -/
structure CallInv (m : Phys) (s₀ s : MemState) : Prop where
  inv : DirInv m s
  active : DirFrame m s s.cr3
  running : s.running = s₀.running
  cr3 : s.cr3 = s₀.cr3
  dirs : ∀ d f, DirAt m s₀ d f → DirAt m s d f
  settled : ∀ t, Settled s₀ t → Settled s t
  pgDir : ∀ t, Settled s₀ t → s.pgDir t = s₀.pgDir t

lemma CallInv.start (hi : DirInv m s) (hd : DirFrame m s s.cr3) : CallInv m s s :=
  ⟨hi, hd, rfl, rfl, fun _ _ h => h, fun _ h => h, fun _ _ => rfl⟩

lemma Grows.settled (h : Grows s s') {t : ℕ} (ht : Settled s t) : Settled s' t := by
  intro i hi
  rw [h.pageAddr]
  refine ht i ⟨h.bitNum _ ▸ hi.1, ?_⟩
  cases hb : (s.btmp .kernelVir).bit i with
  | false => rfl
  | true => exact absurd (h.bits _ i hb) (by simp [hi.2])

lemma CallInv.ready (h : CallInv m s₀ s) : Ready s := h.inv.ready h.active

lemma CallInv.grows (h : CallInv m s₀ s) (g : Grows s s') : CallInv m s₀ s' where
  inv := h.inv.grows h.ready g
  active := by
    rw [g.cr3]
    exact h.active.grows h.ready g
  running := g.running.trans h.running
  cr3 := g.cr3.trans h.cr3
  dirs d f hd := (h.dirs d f hd).grows h.inv h.ready g
  settled t ht := g.settled (h.settled t ht)
  pgDir t ht := by rw [g.pgDir, h.pgDir t ht]

/-- The pool of user addresses and the directory of one thread are set. -/
lemma CallInv.setThread {task : ℕ} (h : CallInv m s₀ s) {q : PoolId → Pool} {e : ℕ → Word}
    (hq : ∀ p, p ≠ .userVir task → q p = s.pool p) (he : ∀ t, t ≠ task → e t = s.pgDir t)
    (hd : e task ≠ 0 → ∃ f, DirAt m s (e task) f)
    (ht : Settled s₀ task → e task = s₀.pgDir task) :
    CallInv m s₀ { s with pool := q, pgDir := e } := by
  set x : MemState := { s with pool := q, pgDir := e } with hx
  have hphy : ∀ pf, x.pool (phyPool pf) = s.pool (phyPool pf) := fun pf =>
    hq _ (by cases pf <;> simp [phyPool])
  have hvir : x.pool .kernelVir = s.pool .kernelVir := hq _ (by simp)
  have hfree : ∀ f, FreeFrame x f ↔ FreeFrame s f := by
    intro f
    simp only [FreeFrame, MemState.btmp, MemState.pageAddr, hphy]
  have hdir : ∀ f, DirFrame m s f → DirFrame m x f := fun f hf =>
    ⟨hf.toKernelHalf, hf.nonzero, fun hfx => hf.taken ((hfree f).mp hfx)⟩
  have hat : ∀ d f, DirAt m s d f → DirAt m x d f := fun d f hf =>
    ⟨hf.walk, hdir f hf.dir, hf.low, hf.high⟩
  constructor
  case active => exact hdir _ h.active
  case running => exact h.running
  case cr3 => exact h.cr3
  case dirs => exact fun d f hf => hat d f (h.dirs d f hf)
  case settled => exact fun t hs => (h.settled t hs).of_pool hvir
  case pgDir =>
    intro t hs
    by_cases hte : t = task
    · subst hte
      exact ht hs
    · exact (he t hte).trans (h.pgDir t hs)
  case inv =>
    constructor
    case pools =>
      refine ⟨fun pf => ?_, ?_⟩
      · rw [hphy]
        exact h.inv.pools.shape pf
      · have hk := hphy .kernel
        have hu := hphy .user
        simp only [phyPool] at hk hu
        rw [hk, hu]
        exact h.inv.pools.apart
    case low => exact fun f hf => h.inv.low f ((hfree f).mp hf)
    case heap => rw [hvir]; exact h.inv.heap
    case heapBase => rw [hvir]; exact h.inv.heapBase
    case kernel => exact hdir _ h.inv.kernel
    case threads =>
      intro t hte
      by_cases htt : t = task
      · subst htt
        obtain ⟨f, hf⟩ := hd hte
        exact ⟨f, hat _ _ hf⟩
      · have het : x.pgDir t = s.pgDir t := he t htt
        rw [het] at hte ⊢
        obtain ⟨f, hf⟩ := h.inv.threads t hte
        exact ⟨f, hat _ _ hf⟩

/-- A part of the call that only takes pages. -/
lemma CallInv.bind {α β : Type} {c : MemProg α} {k : α → MemProg β}
    {P : List MemLabel → MemState → α → Prop} {Q : List MemLabel → MemState → β → Prop}
    (h : CallInv m s₀ s) (hc : Within OsI386.grows c s P)
    (hk : ∀ t t' x a, Grows s x → CallInv m s₀ x → P t' x a →
      (k a).Safe (fun _ x => CallInv m s₀ x) Q t x) :
    (c >>= k).Safe (fun _ x => CallInv m s₀ x) Q tr s := by
  refine Safe.bind (P := fun _ x a => Grows s x ∧ ∃ t', P t' x a) ?_ ?_
  · have hmid : c.Safe (fun _ x => CallInv m s₀ x) (fun _ x a => Grows s x ∧ ∃ t', P t' x a) [] s :=
      Safe.mono hc (fun _ _ g => h.grows g) fun t _ _ g hp => ⟨g, t, hp⟩
    have happ : c.Safe (fun _ x => CallInv m s₀ x) (fun _ x a => Grows s x ∧ ∃ t', P t' x a)
        (tr ++ []) s := Safe.append hmid
    rwa [List.append_nil] at happ
  · rintro t x a hx ⟨g, t', hp⟩
    exact hk t t' x a g hx hp

/-- A call that only takes pages. -/
lemma CallInv.call {c : MemProg Word} {P : List MemLabel → MemState → Word → Prop}
    (h : CallInv m s s) (hc : Within OsI386.grows c s P) :
    c.Safe (fun _ x => CallInv m s x) (fun _ _ _ => True) [] s :=
  Safe.mono hc (fun _ _ g => h.grows g) fun _ _ _ _ _ => trivial

lemma HeapPage.not_settled (h : HeapPage s s' a) : ¬ Settled s a.toNat := by
  obtain ⟨i, hi, rfl, -⟩ := h.page
  exact fun hs => hs i hi rfl

lemma HeapPage.settled (hr : Ready s) (g : Grows s s') (h : HeapPage s s' a) :
    Settled s' a.toNat := by
  obtain ⟨i, hi, rfl, hbit⟩ := h.page
  intro j hj he
  have hj0 : j < (s.btmp .kernelVir).bitNum := g.bitNum _ ▸ hj.1
  rw [g.pageAddr] at he
  obtain rfl := pageAddr_inj hr.heap (by norm_num) hi.1 hj0 (BitVec.eq_of_toNat_eq he)
  rw [hj.2] at hbit
  exact Bool.false_ne_true hbit

/-- `page_dir_create` returns the address of a directory. -/
lemma CallInv.newDir (h : CallInv m s₀ s) (h' : CallInv m s₀ s') (hd : NewDir s s' a) :
    ∃ f, DirAt m s' a f := by
  obtain ⟨i, hi, rfl, -⟩ := hd.page
  obtain ⟨f, hfree, htaken, hwalk, hwin, hentries⟩ := hd.frame
  obtain ⟨hlow, hhigh⟩ := h.ready.heap_pdeIdx hi.1
  refine ⟨f, ?_, ⟨⟨fun j hjlow hjhigh => ?_, hwin⟩, ?_, htaken⟩, hlow, hhigh⟩
  · rw [← hwalk]
    exact h'.inv.kernel.toKernelHalf.translate_eq h'.active.toKernelHalf hlow hhigh
  · rw [hentries j hjlow hjhigh, h.active.entries j hjlow hjhigh]
  · rintro rfl
    exact h.inv.pools.not_freeFrame_zero hfree

/-- The tcb of a new thread: its page was free when the call began. -/
lemma CallInv.threadInit (h : CallInv m s₀ s) (ha : a = 0 ∨ ¬ Settled s₀ a.toNat) :
    (threadInit a.toNat).Safe (fun _ x => CallInv m s₀ x)
      (fun _ x _ => a ≠ 0 ∧ ∀ p, p ≠ .userVir a.toNat → x.pool p = s.pool p) tr s := by
  unfold OsI386.threadInit
  split_ifs with h0
  · exact .stop h
  have ha0 : a ≠ 0 := fun he => h0 (by rw [he]; rfl)
  refine .modify h ?_ ⟨ha0, fun p hp => Function.update_of_ne hp _ _⟩
  exact h.setThread (fun p hp => Function.update_of_ne hp _ _)
    (fun t ht => Function.update_of_ne ht _ _) (fun hne => absurd (Function.update_self _ _ _) hne)
    fun hs => absurd hs (ha.resolve_left ha0)

lemma CallInv.threadCreateMemory (h : CallInv m s s) :
    threadCreateMemory.Safe (fun _ x => CallInv m s x) (fun _ x a => Settled x a.toNat) [] s := by
  refine h.bind (grows_of_steady (steady_kernelPage h.ready)) ?_
  rintro _ _ s1 a g1 h1 ⟨-, hpage⟩
  refine .bind (h1.threadInit (hpage.imp And.left fun hp => hp.2.not_settled)) ?_
  rintro _ s2 _ h2 ⟨ha, hpool⟩
  obtain ⟨-, hpage⟩ := hpage.resolve_left fun hx => ha hx.1
  have hset : Settled s1 a.toNat := hpage.settled h.ready g1
  exact .ret h2 (hset.of_pool (hpool .kernelVir (by simp)))

lemma CallInv.processRunMemory (h : CallInv m s s) :
    processRunMemory.Safe (fun _ x => CallInv m s x) (fun _ x a => Settled x a.toNat) [] s := by
  refine h.bind (grows_of_steady (steady_kernelPage h.ready)) ?_
  rintro _ _ s1 a g1 h1 ⟨-, hpage⟩
  refine .bind (h1.threadInit (hpage.imp And.left fun hp => hp.2.not_settled)) ?_
  rintro _ s2 _ h2 ⟨ha, hpool⟩
  obtain ⟨-, hpage⟩ := hpage.resolve_left fun hx => ha hx.1
  have hns : ¬ Settled s a.toNat := hpage.not_settled
  have hset2 : Settled s2 a.toNat :=
    (hpage.settled h.ready g1).of_pool (hpool .kernelVir (by simp))
  refine .bind (P := fun _ x _ => Settled x a.toNat) ?_ ?_
  · refine h2.bind (grows_of_steady (steady_mallocPage .kernel _)) ?_
    rintro _ _ s3 base g3 h3 -
    split_ifs
    · exact .stop h3
    have hne : PoolId.kernelVir ≠ .userVir a.toNat := by simp
    refine .modify h3 ?_ ((g3.settled hset2).of_pool ?_)
    · exact h3.setThread (e := s3.pgDir) (fun p hp => Function.update_of_ne hp _ _)
        (fun _ _ => rfl) (h3.inv.threads _) (h3.pgDir _)
    · simp only [Function.update_of_ne hne]
  rintro _ s4 _ h4 hset
  refine h4.bind grows_pageDirCreate ?_
  rintro _ _ s5 d g5 h5 hdir
  refine .bind (P := fun _ x _ => Settled x a.toNat)
    (.modify h5 ?_ ((g5.settled hset).of_pool rfl)) fun _ _ _ hx hs => .ret hx hs
  refine h5.setThread (q := s5.pool) (fun _ _ => rfl) (fun t ht => Function.update_of_ne ht _ _)
    (fun hne => ?_) fun hs => absurd hs hns
  rw [Function.update_self] at hne ⊢
  exact h4.newDir h5 ((hdir h4.ready).resolve_left fun h0 => hne h0.1).2

end Calls

end OsI386
