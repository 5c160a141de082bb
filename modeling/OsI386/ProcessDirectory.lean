import OsI386.KernelPages
import OsI386.OsRuns

/-!
# The directory `page_dir_create` returns

`kernel_pages_malloc` hands out a frame as it finds it and `page_dir_create` writes its upper
half only, so the user half of a new directory is what the frame held before.
-/
namespace OsI386
open Prog

section Page

variable {s : MemState} {f : FrameNo} {v : Word}

/-- What `page_dir_create` makes of frame `f`. -/
def dirPage (s : MemState) (f : FrameNo) : Slot → Word :=
  Function.update (fun i => if 768 ≤ i.toNat then s.phys s.cr3 i else s.phys f i) 1023
    (entryOf (frameAddr f))

/-- `page_dir_create` after `kernel_pages_malloc`. -/
lemma runs_fillDirectory (hw : Window s.phys s.cr3) (hf : f ≠ s.cr3) (hv : v.toNat % 4096 = 0)
    (hwalk : translate s.phys s.cr3 v = some f)
    (hkept : ∀ page, translate (Function.update s.phys f page) s.cr3 v =
      translate s.phys s.cr3 v) :
    (do
      copyKernelEntries 0xfffff000 v
      let pageDirPhyAddr ← addrV2p v
      storeAt (v + 1023 * 4) (entryOf pageDirPhyAddr)
      return v : MemProg Word).Runs
      s [] { s with phys := Function.update s.phys f (dirPage s f) } v := by
  set page : Slot → Word := fun i => if 768 ≤ i.toNat then s.phys s.cr3 i else s.phys f i
  set s1 : MemState := { s with phys := Function.update s.phys f page }
  have hcopy : (copyKernelEntries 0xfffff000 v).Runs s [] s1 () := by
    apply runs_modifyOr
    simp only [hw.translate_last, hwalk, Option.bind_eq_bind, Option.bind_some, Option.pure_def]
    rfl
  have hdir : s1.phys s1.cr3 = s.phys s.cr3 := Function.update_of_ne hf.symm _ _
  have hw1 : Window s1.phys s1.cr3 := hw.of_last (congrFun hdir 1023)
  have hwalk1 : translate s1.phys s1.cr3 v = some f := (hkept page).trans hwalk
  have haddr := runs_addrV2p hw1 hwalk1
  rw [and_offsetMask_of_aligned hv, add_zero] at haddr
  obtain ⟨hd, ht, hlast⟩ := idx_add_offset hv (show (1023 * 4 : Word).toNat < 4096 by decide)
  have hslot : wordIdx (1023 * 4) = 1023 := by decide
  have hstore := runs_storeAt (w := entryOf (frameAddr f)) ((translate_congr hd ht).trans hwalk1)
  have hpage : s1.phys f = page := Function.update_self f page s.phys
  rw [hlast, hslot, writeSlot, hpage, Function.update_idem] at hstore
  exact hcopy.bind_silent (haddr.bind_silent (hstore.bind_silent (Runs.ret v _)))

/-- The directory of frame `f` describes an empty user space, the kernel half of the active
directory, and itself as its last entry, writable and open to user mode. -/
structure EmptyUserDir (s : MemState) (f : FrameNo) : Prop where
  user : ∀ i : Slot, i.toNat < 768 → present (s.phys f i) = false
  kernel : ∀ i : Slot, 768 ≤ i.toNat → i.toNat < 1023 → s.phys f i = s.phys s.cr3 i
  self : s.phys f 1023 = frameAddr f ||| 7

def EmptyUserSpace (s : MemState) (d : Word) : Prop :=
  ∃ f, translate s.phys s.cr3 d = some f ∧ EmptyUserDir s f

lemma entryOf_eq (p : Word) : entryOf p = p ||| 7 := by
  rw [entryOf, BitVec.or_assoc, BitVec.or_assoc]
  rfl

lemma emptyUserDir_dirPage (hf : f ≠ s.cr3) :
    EmptyUserDir { s with phys := Function.update s.phys f (dirPage s f) } f ↔
      ∀ i : Slot, i.toNat < 768 → present (s.phys f i) = false := by
  have hlast : ∀ i : Slot, i.toNat < 1023 → i ≠ 1023 := by
    rintro _ h rfl
    exact absurd h (by decide)
  have hlow : ∀ i : Slot, i.toNat < 768 → dirPage s f i = s.phys f i := fun i hi => by
    rw [dirPage, Function.update_of_ne (hlast i (by omega)), if_neg (by omega)]
  constructor
  · intro h i hi
    have hclear := h.user i hi
    dsimp only at hclear
    rwa [Function.update_self, hlow i hi] at hclear
  · intro h
    constructor
    case user =>
      intro i hi
      dsimp only
      rw [Function.update_self, hlow i hi]
      exact h i hi
    case kernel =>
      intro i hi hi'
      dsimp only
      rw [Function.update_self, Function.update_of_ne hf.symm, dirPage,
        Function.update_of_ne (hlast i hi'), if_pos hi]
    case self =>
      dsimp only
      rw [Function.update_self, dirPage, Function.update_self, entryOf_eq]

end Page

section Create

variable {s s' : MemState} {f : FrameNo} {d : Word} {tr : List MemLabel}

/-- The frame the next `paddr_get` takes from the kernel pool. -/
def nextFrame (s : MemState) : FrameNo :=
  frameOf (s.pageAddr .kernelPhy (bitmapScan (s.btmp .kernelPhy) 0 1).toNat)

/-- A page of the heap, and the frame it was given. -/
lemma Supplied.heapPage (h : KernelHeap s) {i : ℕ} (hg : Supplied s s' 1 i) :
    FreeFrame s (nextFrame s) ∧
      translate s'.phys s'.cr3 (s.pageAddr .kernelVir i) = some (nextFrame s) ∧
      s'.phys (nextFrame s) = s.phys (nextFrame s) := by
  have hsteady := steady_reserve s .kernelVir i 1
  have hphy : (s.reserve .kernelVir i 1).btmp .kernelPhy = s.btmp .kernelPhy :=
    reserve_phy s .kernel .kernel 0 i 1
  obtain ⟨k, hscan, hwalk⟩ := hg.first one_pos
  have hbound : (s.btmp .kernelPhy).bitNum ≤ 2 ^ 31 := (h.pools.shape .kernel).bitNum_le le_rfl
  rw [hphy] at hscan
  have hfree := (runAt_one_iff _ k).mp (runAt_of_scan hbound le_rfl hscan)
  have hnext : nextFrame s = frameOf (s.pageAddr .kernelPhy k) := by
    rw [nextFrame, hscan]
    rfl
  have hf : FreeFrame s (nextFrame s) := ⟨.kernel, k, hfree, hnext⟩
  rw [hsteady.toSameShape.pageAddr, hsteady.toSameShape.pageAddr] at hwalk
  refine ⟨hf, hnext ▸ hwalk, ?_⟩
  have hrest := hg.rest (nextFrame s) fun ht =>
    h.not_kernelTable hf ((h.kernelTable hsteady.toGrows).mp ht)
  exact hrest

/-- `page_dir_create` made its directory at `d` of the next frame. -/
def Fills (s s' : MemState) (d : Word) : Prop :=
  ∃ s1 : MemState, s1.phys (nextFrame s) = s.phys (nextFrame s) ∧ nextFrame s ≠ s1.cr3 ∧
    s' = { s1 with phys := Function.update s1.phys (nextFrame s) (dirPage s1 (nextFrame s)) } ∧
    translate s'.phys s'.cr3 d = some (nextFrame s) ∧
    (∀ t, s1.pool (.userVir t) = s.pool (.userVir t)) ∧ Steady s s1 ∧ FreeFrame s (nextFrame s)

/-- `page_dir_create` goes on with a page of the heap. -/
lemma Supplied.fills (h : KernelHeap s) {i : ℕ} (hi : i < (s.btmp .kernelVir).bitNum)
    (hg : Supplied s s' 1 i) : ∃ x,
    (do
      copyKernelEntries 0xfffff000 (s.pageAddr .kernelVir i)
      let pageDirPhyAddr ← addrV2p (s.pageAddr .kernelVir i)
      storeAt (s.pageAddr .kernelVir i + 1023 * 4) (entryOf pageDirPhyAddr)
      return s.pageAddr .kernelVir i : MemProg Word).Runs s' [] x (s.pageAddr .kernelVir i) ∧
    Fills s x (s.pageAddr .kernelVir i) := by
  obtain ⟨hfree, hwalk, hsame⟩ := hg.heapPage h
  have hsteady : Steady s s' := (steady_reserve s .kernelVir i 1).trans hg.steady
  have hgrows := hsteady.toGrows
  obtain ⟨hlow, hhigh⟩ := h.heap_pdeIdx hi
  have hne : nextFrame s ≠ s'.cr3 := by
    rw [hgrows.cr3]
    exact fun he => h.ownDir (he ▸ hfree)
  have hkept := h.toReady.translate_update hgrows hfree hlow hhigh
  have hfill := runs_fillDirectory (h.grows hgrows).window hne
    (aligned_pageAddr h.heap (by norm_num) hi) hwalk hkept
  exact ⟨_, hfill, s', hsame, hne, rfl, (hkept _).trans hwalk,
    fun t => (hg.user t).trans (reserve_user s i 1 t), hsteady, hfree⟩

lemma pageDirCreate_cases (h : KernelHeap s) (hr : pageDirCreate.Runs s tr s' d) :
    d = 0 ∧ (freeFrames (s.btmp .kernelVir) = 0 ∨ freeFrames (s.btmp .kernelPhy) = 0) ∨
      d ≠ 0 ∧ Fills s s' d := by
  obtain ⟨_, s1, a, _, hmalloc, hrest⟩ := hr.bind_inv
  by_cases ha : a = 0
  · rw [if_pos ha] at hrest
    obtain ⟨-, rfl⟩ := hrest.det (Runs.ret 0 s1)
    refine .inl ⟨rfl, ?_⟩
    rcases kernelPages_cases h le_rfl (by norm_num) with ⟨i, -, hi, _, x, hx, -⟩ | ⟨-, hnull⟩
    · obtain ⟨-, rfl⟩ := hmalloc.det hx
      exact absurd ha (kernelPages_ne_zero h hi le_rfl)
    · refine (hnull _ _ _ hmalloc).2.imp (fun hscan => ?_) fun hlt => by omega
      exact (bitmapScan_freeFrames (h.heap.bitNum_le (by norm_num))).mp hscan
  · rw [if_neg ha] at hrest
    obtain ⟨i, -, hi, rfl, hg⟩ := hmalloc.supplied h le_rfl (by norm_num) ha
    obtain ⟨x, hfill, hfills⟩ := hg.fills h (by omega)
    obtain ⟨rfl, rfl⟩ := hrest.det hfill
    exact .inr ⟨ha, hfills⟩

lemma emptyUserSpace_iff (h : KernelHeap s) (hr : pageDirCreate.Runs s tr s' d) (hd : d ≠ 0) :
    EmptyUserSpace s' d ↔
      ∀ i : Slot, i.toNat < 768 → present (s.phys (nextFrame s) i) = false := by
  obtain ⟨s1, hsame, hne, rfl, hwalk, -⟩ :=
    ((pageDirCreate_cases h hr).resolve_left fun h0 => hd h0.1).2
  rw [← hsame, ← emptyUserDir_dirPage hne, EmptyUserSpace]
  simp only [hwalk, Option.some.injEq]
  exact ⟨fun ⟨_, he, hf⟩ => he ▸ hf, fun hf => ⟨_, rfl, hf⟩⟩

/-- With a page for it the call returns it. -/
lemma runs_pageDirCreate (h : KernelHeap s) {i : ℕ} (hs : Supplies s 1 i) :
    ∃ tr s', pageDirCreate.Runs s tr s' (s.pageAddr .kernelVir i) ∧
      s.pageAddr .kernelVir i ≠ 0 ∧ Fills s s' (s.pageAddr .kernelVir i) ∧
      MemLabel.noFrame .kernelPhy ∉ tr := by
  obtain ⟨tr, s1, hmalloc, hg, hfit, hspared⟩ := hs.runs h le_rfl (by norm_num)
  have hne := kernelPages_ne_zero h hfit le_rfl
  obtain ⟨s', hfill, hfills⟩ := hg.fills h (by omega)
  exact ⟨tr ++ [], s', Runs.bind hmalloc (by rw [if_neg hne]; exact hfill), hne, hfills,
    by rwa [List.append_nil]⟩

/-- The directory is empty below 0xc0000000 exactly if the frame it is made of held no present
entry there. -/
theorem pageDirCreate_emptyUserSpace (h : KernelHeap s) (hr : pageDirCreate.Runs s tr s' d)
    (hd : d ≠ 0) : EmptyUserSpace s' d ↔
      ∀ i : Slot, i.toNat < 768 → present (s.phys (nextFrame s) i) = false :=
  emptyUserSpace_iff h hr hd

end Create

section Boot

/-- Memory that is zero but for the frame at 0x200000. -/
def dirt (w : Word) : Phys := fun f _ => if f = 0x200 then w else 0

/-- The machine with 3 free frames for the kernel, the first filled with `w`. -/
def dirtyMem (w : Word) : MemState :=
  memPoolInit { bootMem with phys := setupPage (dirt w) } 0x206000

lemma dirtyMem_btmp (w : Word) (p : PoolId) :
    (dirtyMem w).btmp p = (memPoolInit bootMem 0x206000).btmp p := by
  cases p <;> rfl

lemma kernelHeap_dirtyMem (w : Word) : KernelHeap (dirtyMem w) := by
  have htop : 0xc0100000 + ((dirtyMem w).btmp .kernelVir).bitNum * 4096 ≤ 0xffc00000 := by
    rw [dirtyMem_btmp]
    decide
  have hinv : DirInv _ (dirtyMem w) := DirInv.init rfl (fun _ => rfl) htop
  exact hinv.kernelHeap hinv.kernel

lemma dirtyMem_phys (w : Word) (i : Slot) : (dirtyMem w).phys 0x200 i = w := by
  change setupPage (dirt w) 0x200 i = w
  rw [setupPage, if_neg (by decide), if_neg fun h => absurd h.1 (by decide), dirt, if_pos rfl]

lemma dirtyMem_phys_of_ne (w : Word) {f : FrameNo} (hf : f ≠ 0x200) :
    (dirtyMem w).phys f = bootMem.phys f := by
  funext i
  change setupPage (dirt w) f i = setupPage (fun _ _ => 0) f i
  simp only [setupPage, dirt, if_neg hf]

lemma nextFrame_dirtyMem (w : Word) : nextFrame (dirtyMem w) = 0x200 := by
  have hscan : bitmapScan ((dirtyMem w).btmp .kernelPhy) 0 1 = 0 := by
    rw [dirtyMem_btmp]
    decide
  have hbase : ((dirtyMem w).pool .kernelPhy).addrBase = 0x200000 := rfl
  rw [nextFrame, hscan, MemState.pageAddr, hbase]
  decide

lemma supplies_dirtyMem (w : Word) : Supplies (dirtyMem w) 1 0 := by
  have hscan : bitmapScan ((dirtyMem w).btmp .kernelVir) 0 1 = 0 := by
    rw [dirtyMem_btmp]
    decide
  have hfree : FreeBit ((dirtyMem w).btmp .kernelPhy) 0 := by
    rw [dirtyMem_btmp]
    exact ⟨by decide, by decide⟩
  refine ⟨hscan, (freeFrames_bitmapSet hfree).2, fun j _ hj => ?_⟩
  obtain rfl : j = 0 := by omega
  have hbase : ((dirtyMem w).pool .kernelVir).addrBase = 0xc0100000 := rfl
  have haddr : (dirtyMem w).pageAddr .kernelVir 0 = 0xc0100000 := by
    rw [MemState.pageAddr, hbase]
    decide
  have hcr3 : (dirtyMem w).cr3 = 0x100 := rfl
  have htable : frameOf (bootMem.phys 0x100 (pdeIdx 0xc0100000)) = 0x101 := by decide
  rw [Unmapped, haddr, hcr3, translate, dirtyMem_phys_of_ne w (by decide)]
  dsimp only
  rw [htable, dirtyMem_phys_of_ne w (by decide)]
  decide

theorem pageDirCreate_emptyUserSpace_boot : ∃ tr s' d, pageDirCreate.Runs (dirtyMem 0) tr s' d ∧
    d ≠ 0 ∧ EmptyUserSpace s' d := by
  obtain ⟨tr, s', hr, hd, -⟩ := runs_pageDirCreate (kernelHeap_dirtyMem 0) (supplies_dirtyMem 0)
  refine ⟨tr, s', _, hr, hd, ?_⟩
  refine (pageDirCreate_emptyUserSpace (kernelHeap_dirtyMem 0) hr hd).mpr fun i _ => ?_
  rw [nextFrame_dirtyMem, dirtyMem_phys]
  rfl

/-- On memory that is not zero at the start the process finds what was left there. -/
theorem pageDirCreate_not_emptyUserSpace : ∃ s tr s' d, KernelHeap s ∧
    pageDirCreate.Runs s tr s' d ∧ d ≠ 0 ∧ ¬ EmptyUserSpace s' d := by
  have hheap := kernelHeap_dirtyMem 0x87
  obtain ⟨tr, s', hr, hd, -⟩ := runs_pageDirCreate hheap (supplies_dirtyMem 0x87)
  refine ⟨_, tr, s', _, hheap, hr, hd, fun hempty => ?_⟩
  have hclear := (emptyUserSpace_iff hheap hr hd).mp hempty 0 (by decide)
  rw [nextFrame_dirtyMem, dirtyMem_phys] at hclear
  exact absurd hclear (by decide)

end Boot

end OsI386
