import OsI386.MallocContents

/-!
# `user_pages_malloc` and the zero bytes it should return

The call to clear the pages, `(vaddr, 0, pg_cnt * PG_SIZE);`, has lost its `memset` and is an
expression without effect. A page of the range therefore reads as what its frame held before.
-/
namespace OsI386
open Prog

section Bytes

/-- A load of one byte; the words of memory are little endian. -/
def loadByte (m : Phys) (cr3 : FrameNo) (a : Word) : Option (BitVec 8) :=
  (loadWord m cr3 a).map fun w => w.extractLsb' (8 * (a.toNat % 4)) 8

/-- Each of the `len` bytes at `a` can be read, and is 0. -/
def ReadsZero (s : MemState) (a : Word) (len : ℕ) : Prop :=
  ∀ k < len, loadByte s.phys s.cr3 (a + BitVec.ofNat 32 k) = some 0

variable {s s' : MemState} {v w : Word} {m : Phys} {cr3 : FrameNo}

lemma word_eq_zero {x : Word} (h : ∀ j < 4, x.extractLsb' (8 * j) 8 = 0) : x = 0 := by
  apply BitVec.eq_of_getLsbD_eq
  intro i hi
  have hj : i / 8 < 4 := by omega
  have hbit := congrArg (BitVec.getLsbD · (i % 8)) (h (i / 8) hj)
  have hpos : 8 * (i / 8) + i % 8 = i := Nat.div_add_mod i 8
  have hlt : i % 8 < 8 := Nat.mod_lt i (by norm_num)
  simpa [BitVec.getLsbD_extractLsb', hpos, hlt] using hbit

lemma loadByte_add (hw : w.toNat % 4096 = 0) {k : ℕ} (hk : k < 4096) :
    loadByte m cr3 (w + BitVec.ofNat 32 k) = (translate m cr3 w).map fun f =>
      (m f (BitVec.ofNat 10 (k / 4))).extractLsb' (8 * (k % 4)) 8 := by
  have hlt := w.isLt
  have hoff : (BitVec.ofNat 32 k).toNat = k := by
    rw [BitVec.toNat_ofNat]
    omega
  have hsum : (w + BitVec.ofNat 32 k).toNat = w.toNat + k := by
    rw [BitVec.toNat_add, hoff]
    omega
  have hword : wordIdx (w + BitVec.ofNat 32 k) = BitVec.ofNat 10 (k / 4) := by
    apply BitVec.eq_of_toNat_eq
    rw [toNat_wordIdx, hsum, BitVec.toNat_ofNat]
    omega
  have hbyte : (w + BitVec.ofNat 32 k).toNat % 4 = k % 4 := by
    rw [hsum]
    omega
  have hpage : translate m cr3 (w + BitVec.ofNat 32 k) = translate m cr3 w := by
    rw [translate, pdeIdx_add hw (by omega), pteIdx_add hw (by omega), translate]
  rw [loadByte, loadWord, hpage, hword, hbyte, Option.map_map]
  rfl

/-- A page reads as 0 if and only if it is mapped to a frame full of zeros. -/
lemma page_readsZero (hw : w.toNat % 4096 = 0) : ReadsZero s w 4096 ↔
    ∃ f, translate s.phys s.cr3 w = some f ∧ s.phys f = fun _ => 0 := by
  constructor
  · intro h
    have hfirst := h 0 (by norm_num)
    rw [loadByte_add hw (by norm_num)] at hfirst
    obtain ⟨f, hf, _⟩ := Option.map_eq_some_iff.mp hfirst
    refine ⟨f, hf, ?_⟩
    funext i
    apply word_eq_zero
    intro j hj
    have hi := i.isLt
    have hbyte := h (4 * i.toNat + j) (by omega)
    rw [loadByte_add hw (by omega), hf, Option.map_some] at hbyte
    have hslot : BitVec.ofNat 10 ((4 * i.toNat + j) / 4) = i := by
      apply BitVec.eq_of_toNat_eq
      rw [BitVec.toNat_ofNat]
      omega
    have hoff : (4 * i.toNat + j) % 4 = j := by omega
    rw [hslot, hoff] at hbyte
    exact Option.some.inj hbyte
  · rintro ⟨f, hf, hzero⟩ k hk
    rw [loadByte_add hw hk, hf, Option.map_some, hzero]
    simp

/-- By induction on the pages. -/
lemma readsZero_pages (s : MemState) (v : Word) (cnt : ℕ) :
    ReadsZero s v (cnt * 4096) ↔ ∀ w ∈ pagesFrom v cnt, ReadsZero s w 4096 := by
  induction cnt generalizing v with
  | zero => simp [ReadsZero, pagesFrom]
  | succ cnt ih =>
    rw [pagesFrom, List.forall_mem_cons, ← ih]
    have hnext : ∀ k, v + BitVec.ofNat 32 (4096 + k) = v + 4096 + BitVec.ofNat 32 k := fun k => by
      rw [BitVec.ofNat_add, BitVec.add_assoc]
      rfl
    constructor
    · intro h
      refine ⟨fun k hk => h k (by omega), fun k hk => ?_⟩
      rw [← hnext]
      exact h (4096 + k) (by omega)
    · rintro ⟨hhead, htail⟩ k hk
      by_cases hlow : k < 4096
      · exact hhead k hlow
      · have hlater := htail (k - 4096) (by omega)
        rwa [← hnext, Nat.add_sub_cancel' (by omega)] at hlater

end Bytes

section Locked

variable {s s' : MemState} {p : PoolId} {l : Mutex ℕ}

lemma btmp_setMtx (s : MemState) (p : PoolId) (l : Mutex ℕ) (q : PoolId) :
    (s.setMtx p l).btmp q = s.btmp q := by
  by_cases hq : q = p
  · rw [hq]
    simp [MemState.setMtx, MemState.btmp]
  · simp [MemState.setMtx, MemState.btmp, hq]

lemma setMtx_sameShape (s : MemState) (p : PoolId) (l : Mutex ℕ) : SameShape s (s.setMtx p l) where
  running := rfl
  cr3 := rfl
  bitNum q := by rw [btmp_setMtx]
  addrBase q := by
    by_cases hq : q = p
    · rw [hq]
      simp [MemState.setMtx]
    · simp [MemState.setMtx, hq]

/-- The state after `user_pages_malloc` has taken the mutex. -/
def MemState.lockUser (s : MemState) : MemState :=
  s.setMtx .userPhy ⟨some s.running, { (s.pool .userPhy).mtx.sem with val := 0 }⟩

lemma lockUser_sameShape (s : MemState) : SameShape s s.lockUser := setMtx_sameShape s _ _

lemma lockUser_btmp (s : MemState) (q : PoolId) : s.lockUser.btmp q = s.btmp q :=
  btmp_setMtx s _ _ q

lemma freeBit_lockUser (s : MemState) (q : PoolId) (i : ℕ) :
    FreeBit (s.lockUser.btmp q) i ↔ FreeBit (s.btmp q) i := by rw [lockUser_btmp]

lemma pageAddr_lockUser (s : MemState) (q : PoolId) (i : ℕ) :
    s.lockUser.pageAddr q i = s.pageAddr q i := (lockUser_sameShape s).pageAddr q i

lemma region_lockUser (s : MemState) : Region s.lockUser = Region s := by
  funext i
  simp only [Region, lockUser_btmp, pageAddr_lockUser]
  rfl

lemma clearPage_lockUser (s : MemState) : ClearPage s.lockUser = ClearPage s := by
  funext v
  simp only [ClearPage, lockUser_btmp, pageAddr_lockUser]
  rfl

lemma AddressSpace.lockUser (h : AddressSpace s (Region s) (ClearPage s)) :
    AddressSpace s.lockUser (Region s.lockUser) (ClearPage s.lockUser) := by
  rw [region_lockUser, clearPage_lockUser]
  constructor
  case geometry => exact (lockUser_sameShape s).geometry h.geometry
  case tables => exact h.tables
  case owned =>
    intro f hf
    refine h.owned f ?_
    simpa only [FreeFrame, freeBit_lockUser, pageAddr_lockUser] using hf
  case unmapped => exact h.unmapped

/-- A call that returns has found the mutex free, and has run `malloc_page` with it. -/
lemma userPagesMalloc_inv {pgCnt : ℕ} {tr : List MemLabel} {a : Word}
    (h : (userPagesMalloc pgCnt).Runs s tr s' a) : (s.pool .userPhy).mtx.sem.val = 1 ∧
      ∃ tr' s2 l, (mallocPage .user pgCnt).Runs s.lockUser tr' s2 a ∧
        s' = s2.setMtx .userPhy l := by
  obtain ⟨_, s1, _, _, hlock, hrest⟩ := h.bind_inv
  obtain ⟨tr1, s2, b, _, hmalloc, hrest1⟩ := hrest.bind_inv
  obtain ⟨_, s3, _, _, hunlock, hret⟩ := hrest1.bind_inv
  obtain ⟨rfl, rfl⟩ := hret.det (Runs.ret b s3)
  obtain ⟨hpos, hs1⟩ := (grows_mutexLockAt .userPhy).runs hlock
  obtain ⟨hzero, ws, hs3⟩ := (grows_mutexUnlockAt .userPhy).runs hunlock
  have hsteady : Steady s1 s2 := ((steady_mallocPage (s := s1) .user pgCnt).post
    (Q := fun _ x _ => Steady s1 x) fun _ _ _ hI _ => hI).runs hmalloc
  have hval : (s.pool .userPhy).mtx.sem.val = 1 := by
    rw [hsteady.mtx, hs1] at hzero
    simp only [MemState.setMtx, Function.update_self] at hzero
    omega
  have hlocked : s1 = s.lockUser := by
    rw [hs1, hval]
    rfl
  exact ⟨hval, tr1, s2, _, hlocked ▸ hmalloc, hs3⟩

lemma runs_userPagesMalloc {pgCnt : ℕ} {tr : List MemLabel} {a : Word}
    (hval : (s.pool .userPhy).mtx.sem.val = 1)
    (h : (mallocPage .user pgCnt).Runs s.lockUser tr s' a) :
    ∃ tr' l, (userPagesMalloc pgCnt).Runs s tr' (s'.setMtx .userPhy l) a := by
  have hlock : (mutexLockAt .userPhy).Runs s [] s.lockUser () := by
    apply runs_await
    simp [semDown, hval, MemState.lockUser]
  have hsteady : Steady s.lockUser s' := ((steady_mallocPage (s := s.lockUser) .user pgCnt).post
    (Q := fun _ x _ => Steady s.lockUser x) fun _ _ _ hI _ => hI).runs h
  have hzero : (s'.pool .userPhy).mtx.sem.val = 0 := by
    rw [hsteady.mtx]
    simp [MemState.lockUser, MemState.setMtx]
  obtain ⟨l, hl⟩ : ∃ l, mutexUnlock (s'.pool .userPhy).mtx = some l := by
    simp only [mutexUnlock, semUp, if_pos hzero]
    cases (s'.pool .userPhy).mtx.sem.waiters with
    | nil => exact ⟨_, rfl⟩
    | cons w ws => exact ⟨_, rfl⟩
  have hunlock : (mutexUnlockAt .userPhy).Runs s' [] (s'.setMtx .userPhy l.1) () := by
    apply runs_modifyOr
    rw [hl]
    rfl
  exact ⟨_, l.1, hlock.bind (h.bind (hunlock.bind (Runs.ret a _)))⟩

end Locked

section Zeroed

/-- The frames that the pages of a range will show are full of zeros already. -/
def ShowsZero (s : MemState) (v : Word) (cnt : ℕ) : Prop :=
  ∀ w ∈ pagesFrom v cnt, ∃ x ∈ pageFrames s v cnt,
    ShownBy s v cnt w x.1 ∧ s.phys (frameOf x.2) = fun _ => 0

/-- Every range that `user_pages_malloc` returns reads as 0. -/
def MallocZeroes (pgCnt : ℕ) (s : MemState) : Prop :=
  ∀ tr s' a, (userPagesMalloc pgCnt).Runs s tr s' a → a ≠ 0 → ReadsZero s' a (pgCnt * 4096)

/-- Whenever the call returns a range, the frames it takes are full of zeros already. -/
def FramesZero (pgCnt : ℕ) (s : MemState) : Prop :=
  ∀ i : ℕ, (s.pool .userPhy).mtx.sem.val = 1 →
    bitmapScan (s.btmp (.userVir s.running)) 0 pgCnt = i → pgCnt ≤ freeFrames (s.btmp .userPhy) →
    ShowsZero s (s.pageAddr (.userVir s.running) i) pgCnt

variable {s s' : MemState} {v : Word} {cnt pgCnt : ℕ}

lemma freeUserFrames_congr (hsame : SameShape s s') (hb : s'.btmp .userPhy = s.btmp .userPhy) :
    freeUserFrames s' = freeUserFrames s := by
  have haddr : s'.pageAddr .userPhy = s.pageAddr .userPhy := funext (hsame.pageAddr .userPhy)
  rw [freeUserFrames, hb, haddr, freeUserFrames]

/-- The virtual pools and the mutexes play no part. -/
lemma showsZero_congr (hsame : SameShape s s') (hphys : s'.phys = s.phys)
    (huser : s'.btmp .userPhy = s.btmp .userPhy)
    (hkernel : s'.btmp .kernelPhy = s.btmp .kernelPhy) :
    ShowsZero s' v cnt ↔ ShowsZero s v cnt := by
  have hdir : dirPresent s' = dirPresent s := by
    funext i
    rw [dirPresent, hphys, hsame.cr3, dirPresent]
  have hregions : nullRegions s' v cnt = nullRegions s v cnt := by
    rw [nullRegions, hdir, hkernel, nullRegions]
  simp only [ShowsZero, ShownBy, pageFrames, freeUserFrames_congr hsame huser, hregions, hphys]

lemma Rounds.readsZero (h : Rounds s v cnt s') (hready : LoopReady s v cnt)
    (hn : cnt ≤ freeFrames (s.btmp .userPhy))
    (hclean : ∀ w ∈ pagesFrom v cnt, ¬ NullTable s (pdeIdx w)) :
    ReadsZero s' v (cnt * 4096) ↔ ShowsZero s v cnt := by
  have hlen : cnt ≤ (freeUserFrames s).length := by
    rwa [freeUserFrames, List.length_map, length_clearBits]
  rw [readsZero_pages]
  refine forall₂_congr fun w hw => ?_
  rw [page_readsZero (hready.space.unmapped w hw).2.1]
  constructor
  · rintro ⟨f, hf, hzero⟩
    obtain ⟨x, hx, hshown, rfl⟩ := (h.translate_iff hlen (hclean w hw) hw).mp hf
    exact ⟨x, hx, hshown, by rw [← h.contents hready hx, hzero]⟩
  · rintro ⟨x, hx, hshown, hzero⟩
    refine ⟨frameOf x.2, (h.translate_iff hlen (hclean w hw) hw).mpr ⟨x, hx, hshown, rfl⟩, ?_⟩
    rw [h.contents hready hx, hzero]

/-- `malloc_page(PF_USER, pg_cnt)` run alone: what the range it returns reads as. -/
lemma mallocPage_readsZero (h : AddressSpace s (Region s) (ClearPage s))
    (hnull : NoTable s.phys s.cr3 (Region s) 0) (hpos : 0 < pgCnt) (hmax : pgCnt < 3840) :
    (∃ i : ℕ, bitmapScan (s.btmp (.userVir s.running)) 0 pgCnt = i ∧
      pgCnt ≤ freeFrames (s.btmp .userPhy) ∧ ∃ tr s',
        (mallocPage .user pgCnt).Runs s tr s' (s.pageAddr (.userVir s.running) i) ∧
        s.pageAddr (.userVir s.running) i ≠ 0 ∧
        (ReadsZero s' (s.pageAddr (.userVir s.running) i) (pgCnt * 4096) ↔
          ShowsZero s (s.pageAddr (.userVir s.running) i) pgCnt)) ∨
    (∃ tr s', (mallocPage .user pgCnt).Runs s tr s' 0) ∧
      ∀ i : ℕ, bitmapScan (s.btmp (.userVir s.running)) 0 pgCnt = i →
        ¬ pgCnt ≤ freeFrames (s.btmp .userPhy) := by
  have hshape := h.geometry.vir .user
  have htop : (0xffc00000 : ℕ) ≤ 2 ^ 32 := by norm_num
  have hcall : mallocPage .user pgCnt = (vaddrGet .user pgCnt >>= fun a =>
      if a = 0 then return 0 else mallocPages .userPhy a pgCnt a) := by
    unfold mallocPage
    rw [if_pos ⟨hpos, hmax⟩]
    rfl
  rw [hcall]
  rcases vaddrGet_cases rfl hpos (hshape.bitNum_le htop) with ⟨i, hrun, hscan, hr⟩ | ⟨_, hscan, hr⟩
  · have hfit := hrun.1
    have hne : s.pageAddr (vaddrPool .user s.running) i ≠ 0 :=
      pageAddr_ne_zero hshape htop (show i < _ by omega)
    have hready := loopReady_reserve h hnull hrun hpos
    set s1 := s.reserve (vaddrPool .user s.running) i pgCnt with hs1
    have hsame : SameShape s s1 := reserve_sameShape _ _ _ _
    have huser : s1.btmp .userPhy = s.btmp .userPhy := reserve_phy s .user .user _ _ _
    have hkernel : s1.btmp .kernelPhy = s.btmp .kernelPhy := reserve_phy s .user .kernel _ _ _
    by_cases hn : pgCnt ≤ freeFrames (s.btmp .userPhy)
    · have hn1 : pgCnt ≤ freeFrames (s1.btmp .userPhy) := huser ▸ hn
      obtain ⟨tr, s', hloop, hrounds⟩ := mallocPages_rounds
        (s.pageAddr (vaddrPool .user s.running) i) hready
        (by rwa [freeUserFrames, List.length_map, length_clearBits])
      have hclean : ∀ w ∈ pagesFrom (s.pageAddr (vaddrPool .user s.running) i) pgCnt,
          ¬ NullTable s1 (pdeIdx w) := by
        rintro w hw ⟨hp, htable⟩
        obtain ⟨j, _, hhigh, rfl⟩ := mem_pagesFrom.mp hw
        exact hnull.2 _ ⟨.user, j, lt_of_lt_of_le hhigh hfit, rfl⟩ hp htable
      refine .inl ⟨i, hscan, hn, _, s', hr.bind (k := fun a => if a = 0 then (return 0) else
        mallocPages .userPhy a pgCnt a) (by rw [if_neg hne]; exact hloop), hne, ?_⟩
      exact (hrounds.readsZero hready hn1 hclean).trans (showsZero_congr hsame rfl huser hkernel)
    · obtain ⟨tr, s', hloop, _⟩ := mallocPages_runs .user
        (s.pageAddr (vaddrPool .user s.running) i) hready
      have hshort : ¬ framesNeeded .user (dirPresent s1) (s.pageAddr (vaddrPool .user s.running) i)
          pgCnt ≤ freeFrames (s1.btmp (phyPool .user)) := by
        rw [show s1.btmp (phyPool .user) = s.btmp .userPhy from huser]
        exact hn
      rw [if_neg hshort] at hloop
      exact .inr ⟨⟨_, s', hr.bind (k := fun a => if a = 0 then (return 0) else
        mallocPages .userPhy a pgCnt a) (by rw [if_neg hne]; exact hloop)⟩, fun _ _ => hn⟩
  · refine .inr ⟨⟨_, s, hr.bind_end (k := fun a => if a = 0 then (return 0) else
      mallocPages .userPhy a pgCnt a) (by rw [if_pos rfl]; exact Runs.ret 0 s)⟩, fun j hj => ?_⟩
    have hscan' : bitmapScan (s.btmp (.userVir s.running)) 0 pgCnt = -1 := hscan
    rw [hscan'] at hj
    omega

/-- `user_pages_malloc` clears nothing: the range it returns reads as 0 if and only if the
frames taken were full of zeros. -/
theorem userPagesMalloc_zero_iff (h : AddressSpace s (Region s) (ClearPage s))
    (hnull : NoTable s.phys s.cr3 (Region s) 0) (hpos : 0 < pgCnt) (hmax : pgCnt < 3840) :
    MallocZeroes pgCnt s ↔ FramesZero pgCnt s := by
  have hnull1 : NoTable s.lockUser.phys s.lockUser.cr3 (Region s.lockUser) 0 := by
    rw [region_lockUser]
    exact hnull
  have hrunning : s.lockUser.running = s.running := rfl
  have hzero : ∀ v, ShowsZero s.lockUser v pgCnt ↔ ShowsZero s v pgCnt := fun v =>
    showsZero_congr (lockUser_sameShape s) rfl (lockUser_btmp s .userPhy)
      (lockUser_btmp s .kernelPhy)
  have hcases := mallocPage_readsZero h.lockUser hnull1 hpos hmax
  simp only [lockUser_btmp, pageAddr_lockUser, hrunning, hzero] at hcases
  rcases hcases with ⟨i, hscan, hn, tr, s2, hrun, hne, hiff⟩ | ⟨⟨tr, s2, hrun⟩, hshort⟩
  · constructor
    · intro hmalloc j hval hj _
      obtain rfl : i = j := Int.ofNat.inj (hscan.symm.trans hj)
      obtain ⟨tr', l, hcall⟩ := runs_userPagesMalloc hval hrun
      have hbytes : ReadsZero (s2.setMtx .userPhy l) _ _ := hmalloc _ _ _ hcall hne
      exact hiff.mp hbytes
    · intro hframes tr' s' a hr _
      obtain ⟨hval, tr1, s3, l, hmalloc, rfl⟩ := userPagesMalloc_inv hr
      obtain ⟨rfl, rfl⟩ := hmalloc.det hrun
      exact hiff.mpr (hframes i hval hscan hn)
  · constructor
    · intro _ j _ hj hn
      exact absurd hn (hshort j hj)
    · intro _ tr' s' a hr ha
      obtain ⟨_, tr1, s3, l, hmalloc, _⟩ := userPagesMalloc_inv hr
      exact absurd (hmalloc.det hrun).2 ha

/-- Three user pages are all there are, with zeros in them. -/
theorem userPagesMalloc_zero_iff_small : MallocZeroes 3 smallMem ∧ FramesZero 3 smallMem := by
  have hiff := @userPagesMalloc_zero_iff smallMem 3 smallMem_ready.1 smallMem_ready.2
    (by norm_num) (by norm_num)
  have hframes : FramesZero 3 smallMem := by
    intro i _ hi _
    have hscan : bitmapScan (smallMem.btmp (.userVir smallMem.running)) 0 3 = 0 := by
      decide +kernel
    obtain rfl : i = 0 := by omega
    have hphys : ∀ f : FrameNo, f ≠ 0x100 → f ≠ 0x101 → smallMem.phys f = fun _ => 0 := by
      intro f hdir htable
      funext q
      change setupPage (fun _ _ => 0) f q = 0
      rw [setupPage, if_neg hdir, if_neg fun h => htable h.1]
    have hregions :
        nullRegions smallMem (smallMem.pageAddr (.userVir smallMem.running) 0) 3 = [] := by
      decide +kernel
    have hpages : pageFrames smallMem (smallMem.pageAddr (.userVir smallMem.running) 0) 3 =
        [(0x8048000, 0x203000), (0x8049000, 0x204000), (0x804a000, 0x205000)] := by
      decide +kernel
    intro w hw
    have hlen : 3 ≤ (freeUserFrames smallMem).length := by decide +kernel
    obtain ⟨a, hx⟩ := exists_pageFrame hlen hw
    refine ⟨_, hx, ?_, ?_⟩
    · rw [ShownBy, hregions]
      simp
    · rw [hpages] at hx
      simp only [List.mem_cons, Prod.mk.injEq, List.not_mem_nil, or_false] at hx
      rcases hx with ⟨_, rfl⟩ | ⟨_, rfl⟩ | ⟨_, rfl⟩ 
      · exact hphys (frameOf 0x203000) (by decide) (by decide)
      · exact hphys (frameOf 0x204000) (by decide) (by decide)
      · exact hphys (frameOf 0x205000) (by decide) (by decide)
  exact ⟨hiff.mpr hframes, hframes⟩

/-- The same state of the pools, but the first user frame holds other bytes. -/
def staleMem : MemState :=
  memPoolInit { bootMem with
    phys := setupPage fun f _ => if f = 0x203 then 0xff else 0
    pool := Function.update bootMem.pool (.userVir 0)
      { bootMem.pool (.userVir 0) with btmp := bitmapInit (fun _ => 0) 753592 } } 0x206000

/-- One user page: its first byte reads as 0xff. -/
theorem userPagesMalloc_dirty : AddressSpace staleMem (Region staleMem) (ClearPage staleMem) ∧
    NoTable staleMem.phys staleMem.cr3 (Region staleMem) 0 ∧ ¬ MallocZeroes 1 staleMem := by
  refine ⟨?_, ?_, ?_⟩
  · apply FreshSpace.space
    apply freshSpace_boot (m := fun f _ => if f = 0x203 then 0xff else 0)
    · decide
    · decide
    · rfl
    · rfl
    · rfl
    · decide +kernel
    · decide +kernel
  · apply noTable_null_boot (m := fun f _ => if f = 0x203 then 0xff else 0)
    · decide
    · decide
    · rfl
    · rfl
    · rfl
    · decide +kernel
  · have hrun : ∃ tr s', (userPagesMalloc 1).Runs staleMem tr s' 0x8048000 ∧
        loadByte s'.phys s'.cr3 (0x8048000 + BitVec.ofNat 32 0) = some 0xff :=
      ⟨_, _, rfl, by decide +kernel⟩
    intro hzero
    obtain ⟨tr, s', hr, hbyte⟩ := hrun
    rw [hzero _ _ _ hr (by decide) 0 (by norm_num)] at hbyte
    exact absurd hbyte (by decide)

end Zeroed

end OsI386
