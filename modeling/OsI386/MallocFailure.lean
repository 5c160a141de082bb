import OsI386.MallocRuns

/-!
# When `malloc_page` fails

`malloc_page` returns `NULL` with nothing changed when no range is free. When it runs out of
frames it returns `NULL` too, but then the range stays reserved and the pages before the
failure stay mapped. A page table that cannot be allocated is not noticed: the frame at
address 0 is taken for it.
-/
namespace OsI386
open Prog TransitionSystem

section Counting

def freeBits (b : Bitmap) : Finset ℕ := (Finset.range b.bitNum).filter fun i => b.bit i = false

def freeFrames (b : Bitmap) : ℕ := (freeBits b).card

lemma mem_freeBits {b : Bitmap} {i : ℕ} : i ∈ freeBits b ↔ FreeBit b i := by
  simp [freeBits, FreeBit]

lemma freeFrames_eq_zero {b : Bitmap} (h : ∀ i, ¬ FreeBit b i) : freeFrames b = 0 := by
  rw [freeFrames, Finset.card_eq_zero, Finset.eq_empty_iff_forall_notMem]
  exact fun i hi => h i (mem_freeBits.mp hi)

lemma freeFrames_bitmapSet {b : Bitmap} {i : ℕ} (h : FreeBit b i) :
    freeFrames (bitmapSet b i) = freeFrames b - 1 ∧ 0 < freeFrames b := by
  have herase : freeBits (bitmapSet b i) = (freeBits b).erase i := by
    ext j
    simp only [freeBits, bitmapSet_bitNum, bit_bitmapSet, Finset.mem_filter, Finset.mem_range,
      Finset.mem_erase, Bool.or_eq_false_iff, decide_eq_false_iff_not]
    tauto
  have hmem := mem_freeBits.mpr h
  refine ⟨?_, Finset.card_pos.mpr ⟨i, hmem⟩⟩
  rw [freeFrames, herase, Finset.card_erase_of_mem hmem, freeFrames]

/-- The page tables that mapping `cnt` pages from `v` on has to add. -/
def tablesMissing (d : Slot → Bool) (v : Word) : ℕ → ℕ
  | 0 => 0
  | cnt + 1 => (if d (pdeIdx v) then 0 else 1) +
      tablesMissing (Function.update d (pdeIdx v) true) (v + 4096) cnt

/-- The frames of its own pool a loop over `cnt` pages needs: page tables come from the kernel's
pool, and only those added before the last page are missed. -/
def framesNeeded (pf : PoolFlags) (d : Slot → Bool) (v : Word) (cnt : ℕ) : ℕ :=
  match pf with
  | .kernel => cnt + tablesMissing d v (cnt - 1)
  | .user => cnt

def dirPresent (s : MemState) (i : Slot) : Bool := present (s.phys s.cr3 i)

lemma framesNeeded_user (d : Slot → Bool) (v : Word) (cnt : ℕ) :
    framesNeeded .user d v (cnt + 1) =
      1 + framesNeeded .user (Function.update d (pdeIdx v) true) (v + 4096) cnt := by
  simp only [framesNeeded]
  omega

/-- One round takes a frame for the page and, if need be, one for the page table. -/
lemma framesNeeded_kernel_le (d : Slot → Bool) (v : Word) (cnt n : ℕ) (hn : 0 < n) :
    framesNeeded .kernel d v (cnt + 1) ≤ n ↔
      framesNeeded .kernel (Function.update d (pdeIdx v) true) (v + 4096) cnt ≤
        n - 1 - (if d (pdeIdx v) then 0 else 1) := by
  cases cnt with
  | zero =>
    change 0 + 1 + 0 ≤ n ↔ 0 + 0 ≤ n - 1 - _
    omega
  | succ cnt =>
    simp only [framesNeeded, Nat.add_sub_cancel, tablesMissing]
    split_ifs <;> omega

end Counting

section Loop

variable {s s' : MemState} {v a : Word} {cnt : ℕ} {pf : PoolFlags}

lemma toNat_mem_pagesFrom {w : Word} (hfit : v.toNat + cnt * 4096 ≤ 2 ^ 32)
    (hw : w ∈ pagesFrom v cnt) : v.toNat ≤ w.toNat := by
  induction cnt generalizing v with
  | zero => exact absurd hw List.not_mem_nil
  | succ cnt ih =>
    rcases List.mem_cons.mp hw with rfl | hw
    · exact le_rfl
    · have hfour : (4096 : Word).toNat = 4096 := rfl
      have hnext : (v + 4096).toNat = (v.toNat + 4096) % 2 ^ 32 := by
        rw [BitVec.toNat_add, hfour]
      have hcnt : cnt ≠ 0 := by
        rintro rfl
        exact absurd hw List.not_mem_nil
      have := ih (by omega) hw
      omega

/-- The pages still to map lie in regions with tables of their own, and the frame at address 0
is not the directory and no table of a later region. -/
structure LoopReady (s : MemState) (v : Word) (cnt : ℕ) : Prop where
  space : AddressSpace s (fun i => ∃ w ∈ pagesFrom v cnt, pdeIdx w = i) (· ∈ pagesFrom v cnt)
  nullDir : s.cr3 ≠ 0
  nullTable : ∀ w ∈ pagesFrom v cnt, pdeIdx w ≠ pdeIdx v → dirPresent s (pdeIdx w) = true →
    frameOf (s.phys s.cr3 (pdeIdx w)) ≠ 0
  fit : v.toNat + cnt * 4096 ≤ 2 ^ 32
  nodup : (pagesFrom v cnt).Nodup

/-- The loop goes on after the head page is mapped and no other directory entry has changed. -/
lemma LoopReady.next (h : LoopReady s v (cnt + 1))
    (hspace : AddressSpace s' (fun i => ∃ w ∈ pagesFrom v (cnt + 1), pdeIdx w = i)
      fun w => w ∈ pagesFrom v (cnt + 1) ∧ w ≠ v)
    (hcr3 : s'.cr3 = s.cr3)
    (hdir : ∀ i, i ≠ pdeIdx v → s'.phys s'.cr3 i = s.phys s.cr3 i) :
    LoopReady s' (v + 4096) cnt := by
  obtain ⟨hnotin, hrest⟩ := List.nodup_cons.mp h.nodup
  have hfit := h.fit
  have hfour : (4096 : Word).toNat = 4096 := rfl
  have hadd : (v + 4096).toNat = (v.toNat + 4096) % 2 ^ 32 := by rw [BitVec.toNat_add, hfour]
  have hnext : (v + 4096).toNat + cnt * 4096 ≤ 2 ^ 32 := by omega
  constructor
  case space =>
    refine hspace.weaken ?_ fun w hw => ⟨⟨List.mem_cons_of_mem v hw, ?_⟩, w, hw, rfl⟩
    · rintro i ⟨w, hw, rfl⟩
      exact ⟨w, List.mem_cons_of_mem v hw, rfl⟩
    · exact ne_of_mem_of_not_mem hw hnotin
  case nullDir => exact hcr3 ▸ h.nullDir
  case nullTable =>
    intro w hw hne hp
    have hle := toNat_mem_pagesFrom hnext hw
    -- a page past the region of the next page is past the region of this one
    have hold : pdeIdx w ≠ pdeIdx v := by
      intro he
      apply hne
      have hcnt : cnt ≠ 0 := by
        rintro rfl
        exact absurd hw List.not_mem_nil
      have hwv := congrArg BitVec.toNat he
      rw [toNat_pdeIdx, toNat_pdeIdx] at hwv
      apply BitVec.eq_of_toNat_eq
      rw [toNat_pdeIdx, toNat_pdeIdx]
      omega
    rw [dirPresent, hdir _ hold] at hp
    rw [hdir _ hold]
    exact h.nullTable w (List.mem_cons_of_mem v hw) hold hp
  case fit => exact hnext
  case nodup => exact hrest

/-- The effect of one `v2p_mapping` on directory, bitmaps and free frames. -/
structure MapStep (s : MemState) (v : Word) (s' : MemState) : Prop where
  dir : dirPresent s' = Function.update (dirPresent s) (pdeIdx v) true
  vir : ∀ pf t, s'.btmp (vaddrPool pf t) = s.btmp (vaddrPool pf t)
  user : s'.btmp .userPhy = s.btmp .userPhy
  kernel : freeFrames (s'.btmp .kernelPhy) =
    freeFrames (s.btmp .kernelPhy) - if dirPresent s (pdeIdx v) then 0 else 1

lemma dirPresent_of_eq (hdir : ∀ i, i ≠ pdeIdx v → s'.phys s'.cr3 i = s.phys s.cr3 i)
    (hv : present (s'.phys s'.cr3 (pdeIdx v)) = true) :
    dirPresent s' = Function.update (dirPresent s) (pdeIdx v) true := by
  funext i
  by_cases hi : i = pdeIdx v
  · subst hi
    rw [Function.update_self]
    exact hv
  · rw [Function.update_of_ne hi, dirPresent, hdir i hi, dirPresent]

/-- `v2p_mapping` with a page table added, its frame free or `NULL`. -/
private lemma LoopReady.map_noTable {s1 : MemState} {t : Word} {tr : List MemLabel}
    (h : LoopReady s v (cnt + 1)) (hp : dirPresent s (pdeIdx v) = false)
    (hr : (paddrGet .kernelPhy).Runs s tr s1 t) (hphys : s1.phys = s.phys) (hcr3 : s1.cr3 = s.cr3)
    (hspace : AddressSpace s1 (fun i => ∃ w ∈ pagesFrom v (cnt + 1), pdeIdx w = i)
      (· ∈ pagesFrom v (cnt + 1)))
    (hf : NoTable s.phys s.cr3 (fun i => ∃ w ∈ pagesFrom v (cnt + 1), pdeIdx w = i) (frameOf t))
    (htaken : ¬ FreeFrame s1 (frameOf t)) :
    ∃ tr' s', (v2pMapping v a).Runs s tr' s' () ∧ LoopReady s' (v + 4096) cnt ∧
      dirPresent s' = Function.update (dirPresent s) (pdeIdx v) true ∧
      ∀ p, s'.btmp p = s1.btmp p := by
  have hv : v ∈ pagesFrom v (cnt + 1) := List.mem_cons_self
  have hrun := runs_v2pMapping_noTable a h.space.tables ⟨v, hv, rfl⟩ hp hr hphys hcr3 hf
  have hp1 : present (s1.phys s1.cr3 (pdeIdx v)) = false := by rwa [hphys, hcr3]
  rw [← hphys, ← hcr3] at hf hrun
  have hf1 : frameOf (entryOf t) ≠ s1.cr3 := by
    rw [frameOf_entryOf]
    exact hf.1
  obtain ⟨hspace', _⟩ := hspace.map_noTable (a := a) hv hp1 hf htaken
  have htables := hspace.tables.addTable (e := entryOf t) ⟨v, hv, rfl⟩
    (by rwa [frameOf_entryOf])
  set m := addTable s1.phys s1.cr3 (pdeIdx v) (entryOf t) with hm
  have hhere : present (m s1.cr3 (pdeIdx v)) = true := by
    rw [hm, addTable_dir hf1, if_pos rfl, present_entryOf]
  have hentry := htables.setEntry_dir (e := entryOf a) ⟨v, hv, rfl⟩ hhere
  have hdir : ∀ i, i ≠ pdeIdx v →
      setEntry m s1.cr3 v (entryOf a) s1.cr3 i = s.phys s.cr3 i := fun i hi => by
    rw [hentry, hm, addTable_dir hf1, if_neg hi, hphys, hcr3]
  refine ⟨_, _, hrun, h.next hspace' hcr3 hdir, dirPresent_of_eq hdir ?_, fun _ => rfl⟩
  exact (congrArg present (hentry (pdeIdx v))).trans hhere

/-- In the loop `v2p_mapping` always returns. -/
lemma LoopReady.v2pMapping (h : LoopReady s v (cnt + 1)) : ∃ tr s',
    (v2pMapping v a).Runs s tr s' () ∧ LoopReady s' (v + 4096) cnt ∧ MapStep s v s' := by
  have hv : v ∈ pagesFrom v (cnt + 1) := List.mem_cons_self
  obtain ⟨hR, hva, hnone⟩ := h.space.unmapped v hv
  by_cases hp : dirPresent s (pdeIdx v) = true
  · have hrun := runs_v2pMapping_table a h.space.tables.window hp hnone
    obtain ⟨hspace, _⟩ := h.space.map_table (a := a) hv hp
    have hentry := h.space.tables.setEntry_dir (e := entryOf a) hR hp
    refine ⟨_, _, hrun, h.next hspace rfl fun i _ => hentry i, ?_, fun _ _ => rfl, rfl, ?_⟩
    · refine dirPresent_of_eq (fun i _ => hentry i) ?_
      exact (congrArg present (hentry (pdeIdx v))).trans hp
    · rw [if_pos hp]
      rfl
  · rw [Bool.not_eq_true] at hp
    rcases h.space.paddrGet_cases .kernel with ⟨i, hi, _, hr⟩ | ⟨hfull, hr⟩
    · have hfree : FreeFrame s (frameOf (s.pageAddr (phyPool .kernel) i)) :=
        ⟨.kernel, i, hi, rfl⟩
      have htaken : ¬ FreeFrame (s.takeFrame .kernel i)
          (frameOf (s.pageAddr (phyPool .kernel) i)) := fun hf =>
        ((freeFrame_takeFrame h.space.geometry.phyPools hi).mp hf).2 rfl
      obtain ⟨tr, s', hrun, hready, hdir, hsame⟩ := h.map_noTable (a := a) hp hr rfl rfl
        (h.space.takeFrame hi) (h.space.owned _ hfree) htaken
      refine ⟨tr, s', hrun, hready, hdir, fun pf t => ?_, ?_, ?_⟩
      · rw [hsame, takeFrame_vir]
      · rw [hsame]
        exact setBtmp_btmp_of_ne _ (by simp [phyPool])
      · have hset : s'.btmp .kernelPhy = bitmapSet (s.btmp .kernelPhy) i := by
          rw [hsame]
          exact setBtmp_btmp_self _
        have hcount : freeFrames (bitmapSet (s.btmp .kernelPhy) i) =
            freeFrames (s.btmp .kernelPhy) - 1 := (freeFrames_bitmapSet hi).1
        rw [hset, hcount, hp]
        rfl
    · have hnull : NoTable s.phys s.cr3 (fun i => ∃ w ∈ pagesFrom v (cnt + 1), pdeIdx w = i)
          (frameOf 0) := by
        refine ⟨h.nullDir.symm, ?_⟩
        rintro i ⟨w, hw, rfl⟩ hpw
        have hne : pdeIdx w ≠ pdeIdx v := by
          intro he
          rw [he] at hpw
          exact Bool.false_ne_true (hp.symm.trans hpw)
        exact h.nullTable w hw hne hpw
      obtain ⟨tr, s', hrun, hready, hdir, hsame⟩ := h.map_noTable (a := a) hp hr rfl rfl
        h.space hnull h.space.geometry.phyPools.not_freeFrame_zero
      refine ⟨tr, s', hrun, hready, hdir, fun pf t => hsame _, hsame _, ?_⟩
      have hzero : freeFrames (s.btmp .kernelPhy) = 0 := freeFrames_eq_zero hfull
      rw [hsame, hzero, Nat.zero_sub]

lemma LoopReady.takeFrame {i : ℕ} (h : LoopReady s v cnt)
    (hi : FreeBit (s.btmp (phyPool pf)) i) : LoopReady (s.takeFrame pf i) v cnt :=
  ⟨h.space.takeFrame hi, h.nullDir, h.nullTable, h.fit, h.nodup⟩

/-- One frame for the page and, from the kernel's pool, one for its page table. -/
lemma framesNeeded_succ_le {i : ℕ} (hi : FreeBit (s.btmp (phyPool pf)) i)
    (hmap : MapStep (s.takeFrame pf i) v s') :
    framesNeeded pf (dirPresent s) v (cnt + 1) ≤ freeFrames (s.btmp (phyPool pf)) ↔
      framesNeeded pf (dirPresent s') (v + 4096) cnt ≤ freeFrames (s'.btmp (phyPool pf)) := by
  have htake : (s.takeFrame pf i).btmp (phyPool pf) = bitmapSet (s.btmp (phyPool pf)) i :=
    setBtmp_btmp_self _
  obtain ⟨hcount, hpos⟩ := freeFrames_bitmapSet hi
  have hdir : dirPresent s' = Function.update (dirPresent s) (pdeIdx v) true := hmap.dir
  rw [← htake] at hcount
  rw [hdir]
  cases pf with
  | kernel =>
    have hkernel : freeFrames (s'.btmp (phyPool .kernel)) =
        freeFrames ((s.takeFrame .kernel i).btmp (phyPool .kernel)) -
          if dirPresent s (pdeIdx v) then 0 else 1 := hmap.kernel
    rw [framesNeeded_kernel_le _ _ _ _ hpos, hkernel, hcount]
  | user =>
    have huser : s'.btmp (phyPool .user) = (s.takeFrame .user i).btmp (phyPool .user) := hmap.user
    rw [framesNeeded_user, huser, hcount]
    omega

/-- The loop of `malloc_page` returns, and whether with `NULL` is known beforehand. By
induction on the pages left. -/
lemma mallocPages_runs (pf : PoolFlags) (start : Word) (h : LoopReady s v cnt) : ∃ tr s',
    (mallocPages (phyPool pf) start cnt v).Runs s tr s'
      (if framesNeeded pf (dirPresent s) v cnt ≤ freeFrames (s.btmp (phyPool pf)) then start
        else 0) ∧
      ∀ pf' t, s'.btmp (vaddrPool pf' t) = s.btmp (vaddrPool pf' t) := by
  induction cnt generalizing s v with
  | zero =>
    have hzero : framesNeeded pf (dirPresent s) v 0 = 0 := by cases pf <;> rfl
    rw [if_pos (by rw [hzero]; exact Nat.zero_le _)]
    exact ⟨[], s, Runs.ret start s, fun _ _ => rfl⟩
  | succ cnt ih =>
    rcases h.space.paddrGet_cases pf with ⟨i, hi, hne, hr⟩ | ⟨hfull, hr⟩
    · obtain ⟨tr, s2, hmap, hready, hstep⟩ :=
        (h.takeFrame hi).v2pMapping (a := s.pageAddr (phyPool pf) i)
      obtain ⟨tr', s', hrest, hvir⟩ := ih hready
      simp only [framesNeeded_succ_le hi hstep]
      have hround := hmap.bind (k := fun _ => mallocPages (phyPool pf) start cnt (v + 4096)) hrest
      have hrun := hr.bind (k := fun a => if a = 0 then (return 0) else do
        v2pMapping v a
        mallocPages (phyPool pf) start cnt (v + 4096)) (by rw [if_neg hne]; exact hround)
      refine ⟨_, s', hrun, fun pf' t => ?_⟩
      rw [hvir, hstep.vir, takeFrame_vir]
    · have hshort : ¬ framesNeeded pf (dirPresent s) v (cnt + 1) ≤
          freeFrames (s.btmp (phyPool pf)) := by
        rw [freeFrames_eq_zero hfull]
        cases pf <;> simp only [framesNeeded] <;> omega
      rw [if_neg hshort]
      refine ⟨_, s, hr.bind_end ?_, fun _ _ => rfl⟩
      rw [if_pos rfl]
      exact Runs.ret 0 s

end Loop

section Failure

/-- A call of `malloc_page` that returns `NULL` has changed neither bitmaps nor memory. -/
def FailsClean (pf : PoolFlags) (pgCnt : ℕ) (s : MemState) : Prop :=
  ∀ tr s', (mallocPage pf pgCnt).Runs s tr s' 0 → (∀ p, s'.btmp p = s.btmp p) ∧ s'.phys = s.phys

/-- Whenever `bitmap_scan` finds a range of virtual pages, there are frames for it. -/
def FramesForRange (pf : PoolFlags) (pgCnt : ℕ) (s : MemState) : Prop :=
  ∀ i : ℕ, bitmapScan (s.btmp (vaddrPool pf s.running)) 0 pgCnt = i →
    framesNeeded pf (dirPresent s) (s.pageAddr (vaddrPool pf s.running) i) pgCnt ≤
      freeFrames (s.btmp (phyPool pf))

variable {s : MemState} {pf : PoolFlags} {pgCnt : ℕ}

lemma loopReady_reserve {i : ℕ} (h : AddressSpace s (Region s) (ClearPage s))
    (hnull : NoTable s.phys s.cr3 (Region s) 0)
    (hrun : RunAt (s.btmp (vaddrPool pf s.running)) 0 pgCnt i) (hpos : 0 < pgCnt) :
    LoopReady (s.reserve (vaddrPool pf s.running) i pgCnt)
      (s.pageAddr (vaddrPool pf s.running) i) pgCnt := by
  have hshape := h.geometry.vir pf
  obtain ⟨hfit, hclear⟩ := (runAt_iff _ _ _).mp hrun
  have hpage : ∀ w ∈ pagesFrom (s.pageAddr (vaddrPool pf s.running) i) pgCnt,
      ClearPage s w ∧ Region s (pdeIdx w) := by
    intro w hw
    obtain ⟨j, hlow, hhigh, rfl⟩ := mem_pagesFrom.mp hw
    exact ⟨⟨pf, j, ⟨lt_of_lt_of_le hhigh hfit, hclear j hlow hhigh⟩, rfl⟩,
      ⟨pf, j, lt_of_lt_of_le hhigh hfit, rfl⟩⟩
  have hspace : AddressSpace (s.reserve (vaddrPool pf s.running) i pgCnt) (Region s)
      (ClearPage s) :=
    h.setBtmp_vir (fun pf' => phyPool_ne_vaddrPool pf' pf _) (setRun_bitNum _ _ _)
  constructor
  case space =>
    refine hspace.weaken ?_ fun w hw => ⟨(hpage w hw).1, w, hw, rfl⟩
    rintro j ⟨w, hw, rfl⟩
    exact (hpage w hw).2
  case nullDir => exact hnull.1.symm
  case nullTable => exact fun w hw _ hp => hnull.2 _ (hpage w hw).2 hp
  case fit =>
    have haddr := toNat_pageAddr hshape (by norm_num) (show i < _ by omega)
    have hbelow := hshape.below
    change i + pgCnt ≤ (s.pool (vaddrPool pf s.running)).btmp.bitNum at hfit
    omega
  case nodup => exact h.geometry.pagesFrom_nodup hfit

/-- A state of the pools: three frames in each, and as many user addresses as a process has. -/
def smallMem : MemState :=
  memPoolInit { bootMem with
    pool := Function.update bootMem.pool (.userVir 0)
      { bootMem.pool (.userVir 0) with btmp := bitmapInit (fun _ => 0) 753592 } } 0x206000

lemma smallMem_ready : AddressSpace smallMem (Region smallMem) (ClearPage smallMem) ∧
    NoTable smallMem.phys smallMem.cr3 (Region smallMem) 0 := by
  constructor
  · apply FreshSpace.space
    apply freshSpace_boot (m := fun _ _ => 0)
    · decide
    · decide
    · rfl
    · rfl
    · rfl
    · decide +kernel
    · decide +kernel
  · apply noTable_null_boot (m := fun _ _ => 0)
    · decide
    · decide
    · rfl
    · rfl
    · rfl
    · decide +kernel

/-- In an address space, a failing `malloc_page` takes nothing if and only if it fails for want
of a range of virtual pages, or does not fail. -/
theorem malloc_fails_clean_iff (h : AddressSpace s (Region s) (ClearPage s))
    (hnull : NoTable s.phys s.cr3 (Region s) 0) (hpos : 0 < pgCnt) (hmax : pgCnt < 3840) :
    FailsClean pf pgCnt s ↔ FramesForRange pf pgCnt s := by
  have hshape := h.geometry.vir pf
  have htop : (0xffc00000 : ℕ) ≤ 2 ^ 32 := by norm_num
  have hcall : mallocPage pf pgCnt = (vaddrGet pf pgCnt >>= fun a =>
      if a = 0 then return 0 else mallocPages (phyPool pf) a pgCnt a) := by
    unfold mallocPage
    rw [if_pos ⟨hpos, hmax⟩]
  unfold FailsClean FramesForRange
  rw [hcall]
  rcases vaddrGet_cases rfl hpos (hshape.bitNum_le htop) with ⟨i, hrun, hscan, hr⟩ | ⟨_, hscan, hr⟩
  · have hfit := hrun.1
    have hne : s.pageAddr (vaddrPool pf s.running) i ≠ 0 :=
      pageAddr_ne_zero hshape htop (show i < _ by omega)
    obtain ⟨tr, s', hloop, hvir⟩ := mallocPages_runs pf
      (s.pageAddr (vaddrPool pf s.running) i) (loopReady_reserve h hnull hrun hpos)
    have hdir : dirPresent (s.reserve (vaddrPool pf s.running) i pgCnt) = dirPresent s := rfl
    have hruns := hr.bind (k := fun a => if a = 0 then (return 0) else
      mallocPages (phyPool pf) a pgCnt a) (by rw [if_neg hne]; exact hloop)
    rw [reserve_phy, hdir] at hruns
    constructor
    · intro hclean j hj
      obtain rfl : i = j := Int.ofNat.inj (hscan.symm.trans hj)
      by_contra hshort
      rw [if_neg hshort] at hruns
      -- the first bit of the range was clear and is set
      have hclear := (runAt_iff _ _ _).mp hrun
      have hbit := hclear.2 i le_rfl (by omega)
      rw [← (hclean _ _ hruns).1, hvir, MemState.reserve, setBtmp_btmp_self, bit_setRun,
        decide_eq_true ⟨le_rfl, by omega⟩, Bool.true_or] at hbit
      exact Bool.false_ne_true hbit.symm
    · intro hframes tr2 s2 hr2
      rw [if_pos (hframes i hscan)] at hruns
      exact absurd (hruns.det hr2).2 hne
  · have hruns := hr.bind_end (k := fun a => if a = 0 then (return 0) else
      mallocPages (phyPool pf) a pgCnt a) (by rw [if_pos rfl]; exact Runs.ret 0 s)
    constructor
    · intro _ j hj
      rw [hscan] at hj
      omega
    · intro _ tr2 s2 hr2
      obtain rfl := (hruns.det hr2).1
      exact ⟨fun _ => rfl, rfl⟩

/-- Three kernel pages are all there are, and they need no page table. -/
theorem malloc_fails_clean_iff_kernel :
    FailsClean .kernel 3 smallMem ∧ FramesForRange .kernel 3 smallMem := by
  have hiff := @malloc_fails_clean_iff smallMem .kernel 3 smallMem_ready.1 smallMem_ready.2
    (by norm_num) (by norm_num)
  have hframes : FramesForRange .kernel 3 smallMem := by
    intro i hi
    have hscan : bitmapScan (smallMem.btmp (vaddrPool .kernel smallMem.running)) 0 3 = 0 := by
      decide +kernel
    obtain rfl : i = 0 := by omega
    decide +kernel
  exact ⟨hiff.mpr hframes, hframes⟩

/-- Four user pages, three frames: the call fails and has taken the three frames, a frame for
their page table and the whole range. -/
theorem malloc_fails_dirty : ¬ FailsClean .user 4 smallMem := by
  have hnull : ∃ tr s', (mallocPage .user 4).Runs smallMem tr s' 0 ∧
      (s'.btmp .userPhy).bit 0 = true ∧ (s'.btmp .kernelPhy).bit 0 = true ∧
      (s'.btmp (.userVir 0)).bit 3 = true :=
    ⟨_, _, runs_of_outcome (by decide +kernel), by decide +kernel⟩
  intro hclean
  obtain ⟨tr, s', hr, huser, _⟩ := hnull
  rw [(hclean tr s' hr).1] at huser
  exact absurd huser (by decide +kernel)

end Failure

end OsI386
