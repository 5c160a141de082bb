import OsI386.ProcessDirectory

/-!
# `process_run` when memory runs out

Without a page for the tcb or for the map of the user pool the call does not come to the ready
queue. A directory that is missing is not noticed.
-/
namespace OsI386
open Prog

section Tcbs

variable {s s' : MemState} {i t : ℕ} {f : FrameNo}

/-- Between `s` and `s'` only the memory fields of the tcb at `t` changed. -/
structure TcbOnly (t : ℕ) (s s' : MemState) : Prop where
  pool : ∀ p, p ≠ .userVir t → s'.pool p = s.pool p
  pgDir : ∀ u, u ≠ t → s'.pgDir u = s.pgDir u
  phys : s'.phys = s.phys
  cr3 : s'.cr3 = s.cr3

lemma TcbOnly.vir (h : TcbOnly t s s') : s'.pool .kernelVir = s.pool .kernelVir :=
  h.pool _ (by simp)

lemma TcbOnly.phy (h : TcbOnly t s s') (pf : PoolFlags) :
    s'.pool (phyPool pf) = s.pool (phyPool pf) :=
  h.pool _ (by cases pf <;> simp [phyPool])

lemma TcbOnly.freeFrame (h : TcbOnly t s s') : FreeFrame s' f ↔ FreeFrame s f := by
  simp only [FreeFrame, MemState.btmp, MemState.pageAddr, h.phy]

lemma TcbOnly.unmapped (h : TcbOnly t s s') : Unmapped s' i ↔ Unmapped s i := by
  simp only [Unmapped, MemState.pageAddr, h.vir, h.phys, h.cr3]

lemma TcbOnly.kernelHeap (h : TcbOnly t s s') (hs : KernelHeap s) : KernelHeap s' := by
  constructor
  case inj =>
    rw [h.phys, h.cr3]
    exact hs.inj
  case toReady =>
    constructor
    case pools =>
      refine ⟨fun pf => ?_, ?_⟩
      · rw [h.phy]
        exact hs.pools.shape pf
      · have hk := h.phy .kernel
        have hu := h.phy .user
        simp only [phyPool] at hk hu
        rw [hk, hu]
        exact hs.pools.apart
    case heap => rw [h.vir]; exact hs.heap
    case heapBase => rw [h.vir]; exact hs.heapBase
    case window => rw [h.phys, h.cr3]; exact hs.window
    case nullDir => rw [h.cr3]; exact hs.nullDir
    case ownDir => rw [h.cr3, h.freeFrame]; exact hs.ownDir
    case tables =>
      simp only [h.phys, h.cr3, h.freeFrame]
      exact hs.tables

lemma TcbOnly.update {e : ℕ → Word} (p : Pool) (he : ∀ u, u ≠ t → e u = s.pgDir u) :
    TcbOnly t s { s with pool := Function.update s.pool (.userVir t) p, pgDir := e } :=
  ⟨fun _ hq => Function.update_of_ne hq _ _, he, rfl, rfl⟩

end Tcbs

section Supply

variable {s s1 s2 : MemState} {i j n t : ℕ}

/-- What the heap has left after it has supplied `n` pages. -/
lemma Supplied.left (h : KernelHeap s) (hn : 1 ≤ n) (hs : Supplies s n i)
    (hg : Supplied s s1 n i) : KernelHeap s1 ∧
      s1.btmp .kernelVir = setRun (s.btmp .kernelVir) i n ∧
      freeFrames (s1.btmp .kernelVir) + n = freeFrames (s.btmp .kernelVir) ∧
      freeFrames (s1.btmp .kernelPhy) + n = freeFrames (s.btmp .kernelPhy) ∧
      ∀ k < (s.btmp .kernelVir).bitNum, k < i ∨ i + n ≤ k → (Unmapped s1 k ↔ Unmapped s k) := by
  have hsteady := steady_reserve s .kernelVir i n
  have hphy : (s.reserve .kernelVir i n).btmp .kernelPhy = s.btmp .kernelPhy :=
    reserve_phy s .kernel .kernel 0 i n
  have hvir : s1.btmp .kernelVir = setRun (s.btmp .kernelVir) i n :=
    hg.vir.trans (setBtmp_btmp_self _)
  have hrun := runAt_of_scan (h.heap.bitNum_le (by norm_num)) hn hs.1
  have hcount := hg.count
  rw [hphy] at hcount
  refine ⟨h.grows (hsteady.toGrows.trans hg.steady.toGrows), hvir, ?_, hcount, fun k hk hout => ?_⟩
  · rw [hvir]
    exact freeFrames_setRun hrun
  · have hothers := hg.others k (by rw [hsteady.bitNum]; exact hk) hout
    rw [hothers, unmapped_reserve]

/-- After the page of the tcb, what it takes to supply the map. -/
lemma supplies_map (h : KernelHeap s) (hs : Supplies s 1 i) (hg : Supplied s s1 1 i)
    (ht : TcbOnly t s1 s2) : Supplies s2 23 j ↔
      bitmapScan (bitmapSet (s.btmp .kernelVir) i) 0 23 = j ∧
      (∀ k, j ≤ k → k < j + 23 → Unmapped s k) ∧ 24 ≤ freeFrames (s.btmp .kernelPhy) := by
  obtain ⟨h1, hvir, -, hphy, hothers⟩ := hg.left h le_rfl hs
  have hvir2 : s2.btmp .kernelVir = bitmapSet (s.btmp .kernelVir) i :=
    (congrArg Pool.btmp ht.vir).trans hvir
  have hphy2 : s2.btmp .kernelPhy = s1.btmp .kernelPhy := congrArg Pool.btmp (ht.phy .kernel)
  have hbound : (s2.btmp .kernelVir).bitNum ≤ 2 ^ 31 :=
    (ht.kernelHeap h1).heap.bitNum_le (by norm_num)
  unfold Supplies Fits
  rw [hvir2, hphy2]
  refine and_congr_right fun hscan => ?_
  rw [hvir2] at hbound
  obtain ⟨hfit, hclear⟩ := (runAt_iff _ _ _).mp (runAt_of_scan hbound (by norm_num) hscan)
  rw [bitmapSet_bitNum] at hfit
  -- the page of the tcb is not in the run
  have hpages : ∀ k, j ≤ k → k < j + 23 → (Unmapped s2 k ↔ Unmapped s k) := by
    intro k hk hk'
    have hbit := hclear k hk hk'
    have hne : k ≠ i := by
      rintro rfl
      simp at hbit
    rw [ht.unmapped, hothers k (by omega) (by omega)]
  constructor
  · rintro ⟨hcount, hall⟩
    exact ⟨fun k hk hk' => (hpages k hk hk').mp (hall k hk hk'), by omega⟩
  · rintro ⟨hall, hcount⟩
    exact ⟨by omega, fun k hk hk' => (hpages k hk hk').mpr (hall k hk hk')⟩

end Supply

section Call

variable {s s1 s2 s3 s4 s' : MemState} {i j t : ℕ} {a base d : Word} {tr : List MemLabel}

/-- `bitmap_init` and the base address of the user pool. -/
def UserPoolReady (s : MemState) (t : ℕ) : Prop :=
  (s.pool (.userVir t)).addrBase = userVaddrStart ∧ (s.pool (.userVir t)).btmpBase ≠ 0 ∧
    (s.btmp (.userVir t)).bitNum = 753592 ∧ ∀ i < 753592, (s.btmp (.userVir t)).bit i = false

/-- `task` with the map of its pool in place. -/
def withUserPool (s : MemState) (t : ℕ) (base : Word) : MemState :=
  { s with
    pool := Function.update s.pool (.userVir t)
      { s.pool (.userVir t) with
        btmp := bitmapInit (s.btmp (.userVir t)).bytes 753592
        btmpBase := base
        addrBase := userVaddrStart } }

lemma userPoolReady_withUserPool (hb : base ≠ 0) : UserPoolReady (withUserPool s t base) t := by
  have hself : (withUserPool s t base).pool (.userVir t) =
      { s.pool (.userVir t) with
        btmp := bitmapInit (s.btmp (.userVir t)).bytes 753592
        btmpBase := base
        addrBase := userVaddrStart } := Function.update_self _ _ _
  rw [UserPoolReady, MemState.btmp, hself]
  exact ⟨rfl, hb, rfl, fun _ hi => bit_bitmapInit _ hi⟩

lemma tcbOnly_withUserPool (s : MemState) (t : ℕ) (base : Word) :
    TcbOnly t s (withUserPool s t base) := TcbOnly.update _ fun _ _ => rfl

lemma UserPoolReady.of_pool (h : UserPoolReady s t)
    (hp : s'.pool (.userVir t) = s.pool (.userVir t)) : UserPoolReady s' t := by
  rw [UserPoolReady, MemState.btmp, hp]
  exact h

/-- The parts of a run of `process_run`. -/
structure CallParts (s : MemState) (a : Word) (s1 s2 s3 : MemState) (base : Word) (s4 : MemState)
    (d : Word) : Prop where
  tcb : ∃ tr, (kernelPagesMalloc 1).Runs s tr s1 a
  tcbNonnull : a ≠ 0
  init : TcbOnly a.toNat s1 s2
  map : ∃ tr, (kernelPagesMalloc 23).Runs s2 tr s3 base
  mapNonnull : base ≠ 0
  dir : ∃ tr, pageDirCreate.Runs (withUserPool s3 a.toNat base) tr s4 d

lemma mapPages : ((((0xc0000000 - userVaddrStart) / 4096 : Word) / 8 + 1) / 4096 + 1 : Word).toNat =
    23 := by decide

lemma userPages_eq : ((0xc0000000 - userVaddrStart) / 4096 : Word).toNat = 753592 := by decide

/-- `memset` asserts that there is a tcb. -/
lemma tcbOnly_of_threadInit (hr : (threadInit a.toNat).Runs s tr s' ()) :
    a ≠ 0 ∧ TcbOnly a.toNat s s' := by
  unfold threadInit at hr
  split_ifs at hr with h0
  · cases hr
  · obtain ⟨rfl, -⟩ := hr.det (runs_modify _ s)
    exact ⟨fun ha => h0 (congrArg BitVec.toNat ha), TcbOnly.update _ fun _ hu => Function.update_of_ne hu _ _⟩

lemma runs_threadInit (ha : a ≠ 0) (s : MemState) :
    ∃ s', (threadInit a.toNat).Runs s [] s' () ∧ TcbOnly a.toNat s s' := by
  have h0 : a.toNat ≠ 0 := fun h0 => ha (BitVec.eq_of_toNat_eq h0)
  unfold threadInit
  rw [if_neg h0]
  exact ⟨_, runs_modify _ s, TcbOnly.update _ fun _ hu => Function.update_of_ne hu _ _⟩

lemma callParts_of_runs (hr : processRunMemory.Runs s tr s' a) : ∃ s1 s2 s3 base s4 d,
    CallParts s a s1 s2 s3 base s4 d ∧
      s' = { s4 with pgDir := Function.update s4.pgDir a.toNat d } := by
  obtain ⟨_, s1, a1, _, htcb, hr⟩ := hr.bind_inv
  obtain ⟨_, s2, _, _, hinit, hr⟩ := hr.bind_inv
  obtain ⟨ha, htcbs⟩ := tcbOnly_of_threadInit hinit
  obtain ⟨_, x, _, _, hmap, hr⟩ := hr.bind_inv
  obtain ⟨_, s4, d, _, hdir, hr⟩ := hr.bind_inv
  obtain ⟨_, hr⟩ := hr.of_bind (runs_modify _ s4)
  obtain ⟨rfl, rfl⟩ := hr.det (Runs.ret a1 _)
  -- the map
  obtain ⟨_, s3, base, _, hmalloc, hset⟩ := hmap.bind_inv
  rw [mapPages] at hmalloc
  by_cases hb : base = 0
  · rw [if_pos hb] at hset
    cases hset
  · rw [if_neg hb, userPages_eq] at hset
    obtain ⟨rfl, -⟩ := hset.det (runs_modify _ s3)
    exact ⟨s1, s2, s3, base, s4, d, ⟨⟨_, htcb⟩, ha, htcbs, ⟨_, hmalloc⟩, hb, ⟨_, hdir⟩⟩, rfl⟩

/-- The kernel has the pages of the tcb and of the map, and none after them. -/
def LastPages (s : MemState) : Prop :=
  ∃ i j : ℕ, bitmapScan (s.btmp .kernelVir) 0 1 = i ∧
    bitmapScan (bitmapSet (s.btmp .kernelVir) i) 0 23 = j ∧
    Unmapped s i ∧ (∀ k, j ≤ k → k < j + 23 → Unmapped s k) ∧
    24 ≤ freeFrames (s.btmp .kernelPhy) ∧
    (freeFrames (s.btmp .kernelPhy) = 24 ∨ freeFrames (s.btmp .kernelVir) = 24)

/-- The pages the parts took, and what was left of the heap for the directory. -/
lemma CallParts.pages (h : KernelHeap s) (c : CallParts s a s1 s2 s3 base s4 d) :
    ∃ i j, a = s.pageAddr .kernelVir i ∧ i + 1 ≤ (s.btmp .kernelVir).bitNum ∧ Supplies s 1 i ∧
      Supplied s s1 1 i ∧ Supplies s2 23 j ∧ KernelHeap (withUserPool s3 a.toNat base) ∧
      freeFrames (s3.btmp .kernelVir) + 24 = freeFrames (s.btmp .kernelVir) ∧
      freeFrames (s3.btmp .kernelPhy) + 24 = freeFrames (s.btmp .kernelPhy) := by
  obtain ⟨_, htcb⟩ := c.tcb
  obtain ⟨_, hmap⟩ := c.map
  obtain ⟨i, hs, hi, ha, hg⟩ := htcb.supplied h le_rfl (by norm_num) c.tcbNonnull
  obtain ⟨h1, -, hvir1, hphy1, -⟩ := hg.left h le_rfl hs
  have h2 := c.init.kernelHeap h1
  obtain ⟨j, hs2, -, -, hg2⟩ := hmap.supplied h2 (by norm_num) (by norm_num) c.mapNonnull
  obtain ⟨h3, -, hvir3, hphy3, -⟩ := hg2.left h2 (by norm_num) hs2
  have hv : s2.btmp .kernelVir = s1.btmp .kernelVir := congrArg Pool.btmp c.init.vir
  have hp : s2.btmp .kernelPhy = s1.btmp .kernelPhy := congrArg Pool.btmp (c.init.phy .kernel)
  rw [hv] at hvir3
  rw [hp] at hphy3
  exact ⟨i, j, ha, hi, hs, hg, hs2, (tcbOnly_withUserPool s3 _ _).kernelHeap h3, by omega, by omega⟩

/-- The task is complete, unless the heap held the pages of tcb and map only. -/
lemma CallParts.complete (h : KernelHeap s) (c : CallParts s a s1 s2 s3 base s4 d) :
    UserPoolReady s4 a.toNat ∧ d ≠ 0 ∨ LastPages s := by
  obtain ⟨i, j, rfl, hi, hs, hg, hs2, h3, hvir, hphy⟩ := c.pages h
  obtain ⟨_, hdir⟩ := c.dir
  rcases pageDirCreate_cases h3 hdir with ⟨-, hnone⟩ | ⟨hd, s5, -, -, rfl, -, huser, -⟩
  · right
    obtain ⟨hscan, hall, hcount⟩ := (supplies_map h hs hg c.init).mp hs2
    refine ⟨i, j, hs.1, hscan, hs.2.2 i le_rfl (by omega), hall, hcount, ?_⟩
    have hleft : freeFrames (s3.btmp .kernelVir) = 0 ∨ freeFrames (s3.btmp .kernelPhy) = 0 := hnone
    omega
  · exact .inl ⟨(userPoolReady_withUserPool c.mapNonnull).of_pool (huser _), hd⟩

/-- `process_run` after tcb and map. -/
lemma runs_processRunMemory {tr' : List MemLabel}
    (hfront : (do
      let task ← kernelPagesMalloc 1
      threadInit task.toNat
      userVaddrBitmapCreate task.toNat
      return task : MemProg Word).Runs s tr s' a) (hdir : pageDirCreate.Runs s' tr' s4 d) :
    processRunMemory.Runs s (tr ++ tr')
      { s4 with pgDir := Function.update s4.pgDir a.toNat d } a := by
  have hrest : (do
      let pgDir ← pageDirCreate
      modify fun x => { x with pgDir := Function.update x.pgDir a.toNat pgDir }
      return a : MemProg Word).Runs s' tr'
        { s4 with pgDir := Function.update s4.pgDir a.toNat d } a :=
    hdir.bind_end (Runs.bind_silent (runs_modify _ s4) (Runs.ret a _))
  have hrun := hfront.bind (k := fun task => (do
      let pgDir ← pageDirCreate
      modify fun x => { x with pgDir := Function.update x.pgDir task.toNat pgDir }
      return task : MemProg Word)) hrest
  simp only [bind_assoc, pure_def, ret_bind] at hrun
  exact hrun

/-- What `process_run` for the task at `t` leaves as it was. -/
structure Spares (t : ℕ) (s s' : MemState) : Prop where
  cr3 : s'.cr3 = s.cr3
  free : ∀ f, FreeFrame s' f → FreeFrame s f
  kept : Kept s s'
  tcbs : ∀ u, u ≠ t → s'.pool (.userVir u) = s.pool (.userVir u) ∧ s'.pgDir u = s.pgDir u
  mtx : (s'.pool .userPhy).mtx = (s.pool .userPhy).mtx
  heap : (s'.btmp .kernelVir).bitNum = (s.btmp .kernelVir).bitNum

lemma Spares.trans (h : Spares t s s') (g : Spares t s' s4) : Spares t s s4 where
  cr3 := g.cr3.trans h.cr3
  free f hf := h.free f (g.free f hf)
  kept f h0 hf k hk := by
    have hfirst := h.kept f h0 hf k hk
    rw [g.kept f h0 (fun hn => hf (h.free f hn)) k (hfirst ▸ hk), hfirst]
  tcbs u hu := ⟨(g.tcbs u hu).1.trans (h.tcbs u hu).1, (g.tcbs u hu).2.trans (h.tcbs u hu).2⟩
  mtx := g.mtx.trans h.mtx
  heap := g.heap.trans h.heap

lemma Steady.spares (h : Steady s s') (hr : Ready s)
    (huser : ∀ u, s'.pool (.userVir u) = s.pool (.userVir u)) : Spares t s s' :=
  ⟨h.cr3, fun _ => h.free, h.kept hr, fun u _ => ⟨huser u, congrFun h.pgDir u⟩, h.mtx _, h.bitNum _⟩

lemma TcbOnly.spares (h : TcbOnly t s s') : Spares t s s' where
  cr3 := h.cr3
  free _ := h.freeFrame.mp
  kept _ _ _ _ _ := by rw [h.phys]
  tcbs u hu := ⟨h.pool _ (by simpa using hu), h.pgDir u hu⟩
  mtx := congrArg Pool.mtx (h.pool _ (by simp))
  heap := congrArg (fun p => p.btmp.bitNum) h.vir

/-- The directory is written to a frame that was free. -/
lemma Fills.spares (h : Fills s s' d) (hr : Ready s) : Spares t s s' := by
  obtain ⟨s1, -, -, rfl, -, huser, hsteady, hf⟩ := h
  have hfirst : Spares t s s1 := hsteady.spares hr huser
  refine ⟨hfirst.cr3, hfirst.free, fun f h0 hnf k hk => ?_, hfirst.tcbs, hfirst.mtx, hfirst.heap⟩
  have hne : f ≠ nextFrame s := fun he => hnf (he ▸ hf)
  dsimp only
  rw [Function.update_of_ne hne]
  exact hfirst.kept f h0 hnf k hk

lemma Supplied.spares (h : KernelHeap s) (hg : Supplied s s' n i) : Spares t s s' :=
  ((steady_reserve s .kernelVir i n).trans hg.steady).spares h.toReady fun u =>
    (hg.user u).trans (reserve_user s i n u)

/-- The state before `page_dir_create`, when the heap supplied page `i` for the tcb and those
from `j` on for the map. -/
structure TcbAndMap (s : MemState) (i j : ℕ) (s' : MemState) : Prop where
  heap : KernelHeap s'
  vir : s'.btmp .kernelVir = setRun (bitmapSet (s.btmp .kernelVir) i) j 23
  virLeft : freeFrames (s'.btmp .kernelVir) + 24 = freeFrames (s.btmp .kernelVir)
  phyLeft : freeFrames (s'.btmp .kernelPhy) + 24 = freeFrames (s.btmp .kernelPhy)
  unmapped : ∀ k < (s.btmp .kernelVir).bitNum, k ≠ i → k < j ∨ j + 23 ≤ k →
    (Unmapped s' k ↔ Unmapped s k)
  page : ∀ k, s'.pageAddr .kernelVir k = s.pageAddr .kernelVir k
  spares : Spares (s.pageAddr .kernelVir i).toNat s s'
  tcb : translate s'.phys s'.cr3 (s.pageAddr .kernelVir i) = some (nextFrame s)
  free : FreeBit (s.btmp .kernelVir) i

/-- The kernel has a page for the tcb, at `i`, and those of the map, from `j` on. -/
def SuppliesBoth (s : MemState) (i j : ℕ) : Prop :=
  Supplies s 1 i ∧ bitmapScan (bitmapSet (s.btmp .kernelVir) i) 0 23 = j ∧
    (∀ k, j ≤ k → k < j + 23 → Unmapped s k) ∧ 24 ≤ freeFrames (s.btmp .kernelPhy)

lemma runs_tcbAndMap (h : KernelHeap s) (hb : SuppliesBoth s i j) : ∃ tr s3,
    (do
      let task ← kernelPagesMalloc 1
      threadInit task.toNat
      userVaddrBitmapCreate task.toNat
      return task : MemProg Word).Runs s tr s3 (s.pageAddr .kernelVir i) ∧
    TcbAndMap s i j s3 ∧ MemLabel.noFrame .kernelPhy ∉ tr := by
  obtain ⟨hs, hscan2, hall, hcount⟩ := hb
  obtain ⟨tr1, s1, htcb, hg, hi, hspared1⟩ := hs.runs h le_rfl (by norm_num)
  obtain ⟨h1, hvir1, hv1, hp1, hothers1⟩ := hg.left h le_rfl hs
  set a := s.pageAddr .kernelVir i
  -- the tcb
  obtain ⟨s2, hinit, honly⟩ := runs_threadInit (kernelPages_ne_zero h hi le_rfl) s1
  have h2 := honly.kernelHeap h1
  have hs2 : Supplies s2 23 j := (supplies_map h hs hg honly).mpr ⟨hscan2, hall, hcount⟩
  -- the map
  obtain ⟨tr2, s3, hmap, hg2, hj, hspared2⟩ := hs2.runs h2 (by norm_num) (by norm_num)
  obtain ⟨h3, hvir3, hv3, hp3, hothers3⟩ := hg2.left h2 (by norm_num) hs2
  set base := s2.pageAddr .kernelVir j
  have hne : base ≠ 0 := kernelPages_ne_zero h2 hj (by norm_num)
  have hpool := tcbOnly_withUserPool s3 a.toNat base
  have hcreate : (userVaddrBitmapCreate a.toNat).Runs s2 tr2 (withUserPool s3 a.toNat base) () := by
    refine Runs.bind_end (a := base) (by rw [mapPages]; exact hmap) ?_
    rw [if_neg hne, userPages_eq]
    exact runs_modify _ s3
  have hvir : s2.btmp .kernelVir = s1.btmp .kernelVir := congrArg Pool.btmp honly.vir
  have hphy : s2.btmp .kernelPhy = s1.btmp .kernelPhy := congrArg Pool.btmp (honly.phy .kernel)
  have hpage2 : ∀ k, s2.pageAddr .kernelVir k = s.pageAddr .kernelVir k := fun k => by
    rw [MemState.pageAddr, honly.vir]
    exact ((steady_reserve s .kernelVir i 1).trans hg.steady).toSameShape.pageAddr _ _
  have hpage3 : ∀ k, s3.pageAddr .kernelVir k = s2.pageAddr .kernelVir k :=
    ((steady_reserve s2 .kernelVir j 23).trans hg2.steady).toSameShape.pageAddr _
  have hspares1 : Spares a.toNat s s2 := (hg.spares h).trans honly.spares
  have hspares : Spares a.toNat s (withUserPool s3 a.toNat base) :=
    hspares1.trans ((hg2.spares h2).trans hpool.spares)
  have hfree : FreeBit (s.btmp .kernelVir) i :=
    (runAt_one_iff _ i).mp (runAt_of_scan (h.heap.bitNum_le (by norm_num)) le_rfl hs.1)
  refine ⟨_, _, htcb.bind (hinit.bind_silent (hcreate.bind_end (Runs.ret a _))), ?_, ?_⟩
  · constructor
    case heap => exact hpool.kernelHeap h3
    case vir => rw [MemState.btmp, hpool.vir, ← MemState.btmp, hvir3, hvir, hvir1]; rfl
    case virLeft =>
      rw [hvir] at hv3
      rw [MemState.btmp, hpool.vir]
      change freeFrames (s3.btmp .kernelVir) + 24 = _
      omega
    case phyLeft =>
      rw [hphy] at hp3
      rw [MemState.btmp, hpool.pool _ (by simp)]
      change freeFrames (s3.btmp .kernelPhy) + 24 = _
      omega
    case unmapped =>
      intro k hk hki hout
      have hbits : (s2.btmp .kernelVir).bitNum = (s.btmp .kernelVir).bitNum := by
        rw [hvir, hvir1]
        rfl
      rw [hpool.unmapped, hothers3 k (by omega) hout, honly.unmapped, hothers1 k hk (by omega)]
    case page =>
      intro k
      rw [MemState.pageAddr, hpool.vir]
      exact (hpage3 k).trans (hpage2 k)
    case spares => exact hspares
    case free => exact hfree
    case tcb =>
      obtain ⟨-, hwalk, -⟩ := hg.heapPage h
      obtain ⟨hlow, hhigh⟩ := h.heap_pdeIdx hfree.1
      have hrest : Spares a.toNat s1 (withUserPool s3 a.toNat base) :=
        honly.spares.trans ((hg2.spares h2).trans hpool.spares)
      obtain ⟨-, h0, htaken⟩ := h1.tables _ hlow hhigh
      rw [hrest.cr3]
      exact Kept.translate hrest.kept h1.nullDir h1.ownDir h0 htaken hwalk
  · simp [hspared1, hspared2]

/-- With the last pages gone `page_dir_create` returns `NULL`, and `process_run` goes on. -/
lemma runs_processRunMemory_last (h : KernelHeap s) (hl : LastPages s) :
    ∃ tr s' a, processRunMemory.Runs s tr s' a ∧ s'.pgDir a.toNat = 0 ∧ ¬ Settled s a.toNat := by
  obtain ⟨i, j, hscan, hscan2, hz, hall, hcount, hleft⟩ := hl
  have hs : Supplies s 1 i := by
    refine ⟨hscan, by omega, fun k hk hk' => ?_⟩
    obtain rfl : k = i := by omega
    exact hz
  obtain ⟨_, s3, hfront, hp, -⟩ := runs_tcbAndMap h ⟨hs, hscan2, hall, hcount⟩
  have hv := hp.virLeft
  have hf := hp.phyLeft
  obtain ⟨_, s4, hpage⟩ := runs_kernelPages_full hp.heap (by omega)
  have hdir : pageDirCreate.Runs s3 _ s4 0 := hpage.bind_end (Runs.ret 0 s4)
  exact ⟨_, _, _, runs_processRunMemory hfront hdir, Function.update_self _ _ _,
    fun hset => hset i hp.free rfl⟩

end Call

section Process

variable {m : Phys} {s s' : OsState} {t : ℕ}

/-- A call of `process_run` that nothing interrupts. -/
def processRunCall (s : OsState) : Option OsState :=
  let r := processRunMemory.run s.mem
  match r.outcome with
  | .done task => osReturn { s with mem := r.state } (.mem .processRun) task
  | _ => none

/-- A ready queue or the list of all threads has it. -/
def Enqueued (s : OsState) (t : ℕ) : Prop := s.sched.Linked t ∨ t ∈ s.sched.allList

/-- What joins the scheduler has a page directory and a pool of user addresses. -/
def NewTasksComplete (s s' : OsState) : Prop :=
  ∀ t, Enqueued s' t → ¬ Enqueued s t → s'.mem.pgDir t ≠ 0 ∧ UserPoolReady s'.mem t

lemma OsInv.kernelHeap (h : OsInv m s) : KernelHeap s.mem := h.mem.kernelHeap h.active

lemma enqueued_iff {sched : Scheduler ℕ} (h : SchedInv sched) (x : MemState) (dirs : List Word) :
    Enqueued { s with sched := sched, mem := x, dirs := dirs } t ↔ t ∈ sched.allList :=
  or_iff_right_of_imp fun hl => ((h.queues.linked_iff t).mp hl).1

/-- A task whose page was free joins the scheduler, and nothing else does. -/
lemma OsInv.processRun (h : OsInv m s) (ht : ¬ Settled s.mem t) :
    ∃ sched, OsI386.processRun s.sched t = some sched ∧ SchedInv sched ∧
      sched.allList = s.sched.allList ++ [t] ∧ t ∉ s.sched.allList := by
  have hnew : t ∉ s.sched.allList := fun hmem => ht (h.listed.threads t hmem)
  obtain ⟨sched, hrun, hinv, hall, -⟩ := threadRun_spec h.sched hnew (show 31 < prioNum by decide)
  exact ⟨sched, hrun, hinv, hall, hnew⟩

lemma processRunCall_of_runs {tr : List MemLabel} {x : MemState} {a : Word}
    (hr : processRunMemory.Runs s.mem tr x a) :
    processRunCall s = osReturn { s with mem := x } (.mem .processRun) a := by
  unfold Runs at hr
  rw [processRunCall, hr]

lemma runs_of_processRunCall (hs : processRunCall s = some s') :
    ∃ tr x a, processRunMemory.Runs s.mem tr x a := by
  unfold processRunCall at hs
  dsimp only at hs
  cases ho : (processRunMemory.run s.mem).outcome with
  | done a => exact ⟨_, _, a, runs_of_outcome ho⟩
  | stopped e =>
    rw [ho] at hs
    cases hs
  | blocked =>
    rw [ho] at hs
    cases hs

lemma OsInv.newTasksComplete (h : OsInv m s) (hl : ¬ LastPages s.mem)
    (hs : processRunCall s = some s') : NewTasksComplete s s' := by
  obtain ⟨_, x, a, hr⟩ := runs_of_processRunCall hs
  rw [processRunCall_of_runs hr] at hs
  obtain ⟨sched, hrun, rfl⟩ := Option.map_eq_some_iff.mp hs
  obtain ⟨s1, s2, s3, base, s4, d, hc, rfl⟩ := callParts_of_runs hr
  obtain ⟨hpool, hd⟩ := (hc.complete h.kernelHeap).resolve_right hl
  obtain ⟨i, -, ha, hi, hfirst, -⟩ := hc.pages h.kernelHeap
  have hfree : FreeBit (s.mem.btmp .kernelVir) i := (runAt_one_iff _ i).mp
    (runAt_of_scan (h.kernelHeap.heap.bitNum_le (by norm_num)) le_rfl hfirst.1)
  obtain ⟨sched', hrun', hinv, hall, hnew⟩ :=
    h.processRun (t := a.toNat) fun hset => hset i hfree (congrArg BitVec.toNat ha)
  obtain rfl : sched' = sched := Option.some.inj (hrun'.symm.trans hrun)
  intro t ht hold
  have hmem := (enqueued_iff hinv _ _).mp ht
  rw [hall, List.mem_append, List.mem_singleton] at hmem
  obtain rfl := hmem.resolve_left fun ht => hold (.inr ht)
  refine ⟨?_, hpool⟩
  dsimp only
  rw [Function.update_self]
  exact hd

lemma OsInv.half_built (h : OsInv m s) (hl : LastPages s.mem) :
    ∃ s', processRunCall s = some s' ∧ ¬ NewTasksComplete s s' := by
  obtain ⟨_, x, a, hr, hdir, hset⟩ := runs_processRunMemory_last h.kernelHeap hl
  obtain ⟨sched, hrun, hinv, hall, hnew⟩ := h.processRun hset
  refine ⟨_, (processRunCall_of_runs hr).trans (Option.map_eq_some_iff.mpr ⟨sched, hrun, rfl⟩), ?_⟩
  intro hcomplete
  have hmem : a.toNat ∈ sched.allList := by simp [hall]
  have hold : ¬ Enqueued s a.toNat := by
    rintro (hl | hl)
    · exact hnew ((h.sched.queues.linked_iff _).mp hl).1
    · exact hnew hl
  exact (hcomplete a.toNat (.inr hmem) hold).1 hdir

/-- A process reaches the scheduler complete, except where the kernel can supply the 24 pages of
its tcb and its map and nothing after them. -/
theorem processRun_complete_iff (h : OsInv m s) :
    (∀ s', processRunCall s = some s' → NewTasksComplete s s') ↔ ¬ LastPages s.mem := by
  constructor
  · intro hall hl
    obtain ⟨s', hs, hno⟩ := h.half_built hl
    exact hno (hall s' hs)
  · exact fun hl s' hs => h.newTasksComplete hl hs

end Process

section Boot

lemma osInv_bootSystem {allMem : Word} {s : OsState} (h : bootSystem allMem = some s)
    (htop : 0xc0100000 + ((memPoolInit bootMem allMem).btmp .kernelVir).bitNum * 4096 ≤
      0xffc00000) :
    OsInv (fun _ _ => 0) s ∧
      s.mem = (threadAllInitMemory.run (memPoolInit bootMem allMem)).state := by
  refine ⟨OsInv.init h rfl rfl (fun _ => rfl) htop, ?_⟩
  obtain ⟨sched, tr, x, -, hr, rfl⟩ := osInit_cases h
  rw [hr]

theorem processRun_complete_iff_boot : ∃ s s', bootSystem 0x234000 = some s ∧
    processRunCall s = some s' ∧ NewTasksComplete s s' := by
  have hrun : ((bootSystem 0x234000).bind processRunCall).isSome = true := by decide +kernel
  obtain ⟨s', hs'⟩ := Option.isSome_iff_exists.mp hrun
  obtain ⟨s, hs, hcall⟩ := Option.bind_eq_some_iff.mp hs'
  obtain ⟨hinv, hmem⟩ := osInv_bootSystem hs (by decide)
  refine ⟨s, s', hs, hcall, (processRun_complete_iff hinv).mpr ?_ s' hcall⟩
  rw [hmem]
  rintro ⟨_, _, -, -, -, -, -, hlast⟩
  revert hlast
  decide +kernel

/-- With 50 free pages, 25 of them the kernel's and one of these the scheduler's, a process
without a directory is queued. -/
theorem processRun_half_built : ∃ s s', bootSystem 0x232000 = some s ∧
    OsInv (fun _ _ => 0) s ∧ processRunCall s = some s' ∧ ¬ NewTasksComplete s s' := by
  have hboot : (bootSystem 0x232000).isSome = true := by decide +kernel
  obtain ⟨s, hs⟩ := Option.isSome_iff_exists.mp hboot
  obtain ⟨hinv, hmem⟩ := osInv_bootSystem hs (by decide)
  have hlast : LastPages s.mem := by
    rw [hmem]
    have hall : ∀ k < 25, 1 ≤ k →
        Unmapped (threadAllInitMemory.run (memPoolInit bootMem 0x232000)).state k := by
      unfold Unmapped
      decide +kernel
    exact ⟨1, 2, by decide +kernel, by decide +kernel, hall 1 (by norm_num) le_rfl,
      fun k hk hk' => hall k hk' (by omega), by decide +kernel, .inl (by decide +kernel)⟩
  obtain ⟨s', hcall, hno⟩ := hinv.half_built hlast
  exact ⟨s, s', hs, hinv, hcall, hno⟩

end Boot

end OsI386
