import OsI386.FrameOwners
import OsI386.MallocFailure

/-!
# What `kernel_pages_malloc` returns

Above 0xc0000000 every page has its page table, so a call needs exactly its pages: it takes the
first run of clear bits and a frame for each page, panics on a page that is mapped already, and
returns `NULL` when the run or a frame is missing.
-/
namespace OsI386
open Prog

section Heap

/-- The kernel page tables of the active directory are different frames. -/
structure KernelHeap (s : MemState) : Prop extends Ready s where
  inj : ∀ i j : Slot, 768 ≤ i.toNat → i.toNat < 1023 → 768 ≤ j.toNat → j.toNat < 1023 →
    frameOf (s.phys s.cr3 i) = frameOf (s.phys s.cr3 j) → i = j

def KernelTable (s : MemState) (f : FrameNo) : Prop :=
  ∃ i : Slot, 768 ≤ i.toNat ∧ i.toNat < 1023 ∧ f = frameOf (s.phys s.cr3 i)

/-- Page `i` of the kernel heap is not mapped. -/
def Unmapped (s : MemState) (i : ℕ) : Prop :=
  translate s.phys s.cr3 (s.pageAddr .kernelVir i) = none

variable {m : Phys} {s s' : MemState} {i j n cnt : ℕ} {f : FrameNo} {a : Word}

lemma DirInv.kernelHeap (h : DirInv m s) (hd : DirFrame m s s.cr3) : KernelHeap s where
  toReady := h.ready hd
  inj i j hi hi' hj hj' he := by
    rw [hd.entries i hi hi', hd.entries j hj hj'] at he
    have hfi := (setupPage_kernel m hi hi').2
    have hfj := (setupPage_kernel m hj hj').2
    have hnat := congrArg BitVec.toNat he
    apply BitVec.eq_of_toNat_eq
    omega

lemma KernelHeap.entry (h : KernelHeap s) (g : Grows s s') {i : Slot} (hlow : 768 ≤ i.toNat)
    (hhigh : i.toNat < 1023) : s'.phys s'.cr3 i = s.phys s.cr3 i := by
  rw [g.cr3]
  exact g.kept h.toReady _ h.nullDir h.ownDir i (h.tables i hlow hhigh).1

lemma KernelHeap.grows (h : KernelHeap s) (g : Grows s s') : KernelHeap s' where
  toReady := g.ready h.toReady
  inj i j hi hi' hj hj' he := by
    rw [h.entry g hi hi', h.entry g hj hj'] at he
    exact h.inj i j hi hi' hj hj' he

lemma KernelHeap.kernelTable (h : KernelHeap s) (g : Grows s s') :
    KernelTable s' f ↔ KernelTable s f := by
  refine exists_congr fun i => and_congr_right fun hlow => and_congr_right fun hhigh => ?_
  rw [h.entry g hlow hhigh]

lemma KernelHeap.not_kernelTable (h : KernelHeap s) (hf : FreeFrame s f) : ¬ KernelTable s f := by
  rintro ⟨i, hlow, hhigh, rfl⟩
  exact (h.tables i hlow hhigh).2.2 hf

/-- The entry of page `i` in its page table. -/
lemma KernelHeap.unmapped_iff (h : KernelHeap s) (hi : i < (s.btmp .kernelVir).bitNum) :
    Unmapped s i ↔ present (s.phys (frameOf (s.phys s.cr3 (pdeIdx (s.pageAddr .kernelVir i))))
      (pteIdx (s.pageAddr .kernelVir i))) = false := by
  obtain ⟨hlow, hhigh⟩ := h.heap_pdeIdx hi
  obtain ⟨hp, -, -⟩ := h.tables _ hlow hhigh
  rw [Unmapped, translate]
  dsimp only
  rw [if_pos hp]
  split_ifs with hq <;> simp [hq]

/-- `v2p_mapping` of a page of the heap that is not mapped. -/
lemma KernelHeap.map (h : KernelHeap s) (hi : i < (s.btmp .kernelVir).bitNum)
    (hz : Unmapped s i) (a : Word) : ∃ s',
    (v2pMapping (s.pageAddr .kernelVir i) a).Runs s [.map (s.pageAddr .kernelVir i) a] s' () ∧
      Steady s s' ∧ s'.pool = s.pool ∧
      translate s'.phys s'.cr3 (s.pageAddr .kernelVir i) = some (frameOf a) ∧
      (∀ j < (s.btmp .kernelVir).bitNum, j ≠ i → (Unmapped s' j ↔ Unmapped s j)) ∧
      ∀ f, ¬ KernelTable s f → s'.phys f = s.phys f := by
  obtain ⟨hlow, hhigh⟩ := h.heap_pdeIdx hi
  obtain ⟨hp, -, -⟩ := h.tables _ hlow hhigh
  have hpte := (h.unmapped_iff hi).mp hz
  have hrun := runs_v2pMapping_table a h.window hp hz
  set s' : MemState :=
    { s with phys := setEntry s.phys s.cr3 (s.pageAddr .kernelVir i) (entryOf a) }
  have hsteady : Steady s s' := (Steady.refl s).store hpte
  have hphys : s'.phys = setEntry s.phys s.cr3 (s.pageAddr .kernelVir i) (entryOf a) := rfl
  have hsame : ∀ k, s'.pageAddr .kernelVir k = s.pageAddr .kernelVir k := fun _ => rfl
  refine ⟨s', hrun, hsteady, rfl, ?_, fun j hj hji => ?_, fun f hf => ?_⟩
  · exact ((steady_v2pMapping _ a).runs hrun).2 h.toReady
  · -- two pages of the heap share no entry
    obtain ⟨hlow', hhigh'⟩ := h.heap_pdeIdx hj
    rw [(h.grows hsteady.toGrows).unmapped_iff hj, h.unmapped_iff hj, hsame,
      h.entry hsteady.toGrows hlow' hhigh', hphys, setEntry]
    by_cases hframe : frameOf (s.phys s.cr3 (pdeIdx (s.pageAddr .kernelVir j))) =
        frameOf (s.phys s.cr3 (pdeIdx (s.pageAddr .kernelVir i)))
    · have hd := h.inj _ _ hlow' hhigh' hlow hhigh hframe
      have ht : pteIdx (s.pageAddr .kernelVir j) ≠ pteIdx (s.pageAddr .kernelVir i) := by
        intro ht
        have htop : (0xffc00000 : ℕ) ≤ 2 ^ 32 := by norm_num
        have haddr := eq_of_idx (aligned_pageAddr h.heap htop hj) (aligned_pageAddr h.heap htop hi)
          hd ht
        exact hji (pageAddr_inj h.heap htop hj hi haddr)
      rw [writeSlot_of_slot_ne _ _ ht]
    · rw [writeSlot_of_frame_ne _ _ _ hframe]
  · refine writeSlot_of_frame_ne _ _ _ ?_
    rintro rfl
    exact hf ⟨_, hlow, hhigh, rfl⟩

/-- On a page that is mapped it stops. -/
lemma KernelHeap.map_mapped (h : KernelHeap s) (hi : i < (s.btmp .kernelVir).bitNum)
    (hz : ¬ Unmapped s i) (a : Word) :
    (v2pMapping (s.pageAddr .kernelVir i) a).Safe (fun _ _ => True) (fun _ _ _ => False) [] s := by
  obtain ⟨hlow, hhigh⟩ := h.heap_pdeIdx hi
  obtain ⟨hp, -, -⟩ := h.tables _ hlow hhigh
  refine safe_v2pMapping h.toReady (fun _ => trivial) (fun _ hn => ?_) fun hn => ?_
  · exact absurd ((h.unmapped_iff hi).mpr hn) hz
  · rw [hp] at hn
    cases hn

end Heap

section Loop

variable {s s' s'' : MemState} {i j n cnt : ℕ} {f : FrameNo} {a : Word}

/-- There is a frame for each of `cnt` pages from page `i` on, and none of them is mapped. -/
def Fits (s : MemState) (i cnt : ℕ) : Prop :=
  cnt ≤ freeFrames (s.btmp .kernelPhy) ∧ ∀ j, i ≤ j → j < i + cnt → Unmapped s j

/-- Between `s` and `s'` the pages from `i` on were mapped. -/
structure PagesMapped (s s' : MemState) (i cnt : ℕ) : Prop where
  steady : Steady s s'
  vir : s'.btmp .kernelVir = s.btmp .kernelVir
  user : ∀ t, s'.pool (.userVir t) = s.pool (.userVir t)
  count : freeFrames (s'.btmp .kernelPhy) + cnt = freeFrames (s.btmp .kernelPhy)
  others : ∀ j < (s.btmp .kernelVir).bitNum, j < i ∨ i + cnt ≤ j → (Unmapped s' j ↔ Unmapped s j)
  rest : ∀ f, ¬ KernelTable s f → s'.phys f = s.phys f
  first : 0 < cnt → ∃ k : ℕ, bitmapScan (s.btmp .kernelPhy) 0 1 = k ∧
    translate s'.phys s'.cr3 (s.pageAddr .kernelVir i) = some (frameOf (s.pageAddr .kernelPhy k))

lemma PagesMapped.refl (s : MemState) (i : ℕ) : PagesMapped s s i 0 where
  steady := Steady.refl s
  vir := rfl
  user _ := rfl
  count := rfl
  others _ _ _ := Iff.rfl
  rest _ _ := rfl
  first h := absurd h (lt_irrefl 0)

lemma Prog.Runs.of_bind {σ l ε α β : Type} {p : Prog σ l ε α} {k : α → Prog σ l ε β}
    {x x' x'' : σ} {tr tr' : List l} {a : α} {b : β} (h : (p >>= k).Runs x tr x'' b)
    (hp : p.Runs x tr' x' a) : ∃ tr'', (k a).Runs x' tr'' x'' b := by
  obtain ⟨_, x1, a1, tr2, hp1, hk⟩ := h.bind_inv
  obtain ⟨rfl, rfl⟩ := hp1.det hp
  exact ⟨tr2, hk⟩

/-- The first page and the pages after it. -/
lemma PagesMapped.cons (h : KernelHeap s) {k : ℕ} (hk : FreeBit (s.btmp .kernelPhy) k)
    (hscan : bitmapScan (s.btmp .kernelPhy) 0 1 = k) (hi : i + (cnt + 1) ≤ (s.btmp .kernelVir).bitNum)
    (hsteady : Steady (s.takeFrame .kernel k) s') (hpool : s'.pool = (s.takeFrame .kernel k).pool)
    (hfirst : translate s'.phys s'.cr3 (s.pageAddr .kernelVir i) =
      some (frameOf (s.pageAddr .kernelPhy k)))
    (hothers : ∀ j < (s.btmp .kernelVir).bitNum, j ≠ i → (Unmapped s' j ↔ Unmapped s j))
    (hrest : ∀ f, ¬ KernelTable s f → s'.phys f = s.phys f)
    (hg : PagesMapped s' s'' (i + 1) cnt) : PagesMapped s s'' i (cnt + 1) := by
  have htake : Steady s (s.takeFrame .kernel k) := (Steady.refl s).setBit _ _
  have hmid : Steady s s' := htake.trans hsteady
  have hheap : KernelHeap s' := h.grows hmid.toGrows
  have hbtmp : ∀ p, s'.btmp p = (s.takeFrame .kernel k).btmp p := fun p => by
    rw [MemState.btmp, hpool, MemState.btmp]
  have hvir : s'.btmp .kernelVir = s.btmp .kernelVir :=
    (hbtmp _).trans (takeFrame_vir s .kernel .kernel k 0)
  obtain ⟨hcount, hpos⟩ := freeFrames_bitmapSet hk
  constructor
  case steady => exact hmid.trans hg.steady
  case vir => rw [hg.vir, hvir]
  case user =>
    intro t
    rw [hg.user, hpool]
    have hne : PoolId.userVir t ≠ phyPool .kernel := by simp [phyPool]
    rw [MemState.takeFrame, MemState.setBtmp]
    dsimp only
    rw [Function.update_of_ne hne]
  case count =>
    have hphy : s'.btmp .kernelPhy = bitmapSet (s.btmp .kernelPhy) k :=
      (hbtmp _).trans (setBtmp_btmp_self _)
    have hrec := hg.count
    rw [hphy] at hrec
    omega
  case others =>
    intro j hj hout
    rw [hg.others j (hvir ▸ hj) (by omega), hothers j hj (by omega)]
  case rest =>
    intro f hf
    rw [hg.rest f (mt (h.kernelTable hmid.toGrows).mp hf), hrest f hf]
  case first =>
    intro _
    refine ⟨k, hscan, ?_⟩
    obtain ⟨hlow, hhigh⟩ := h.heap_pdeIdx (show i < _ by omega)
    obtain ⟨-, h0, htaken⟩ := hheap.tables _ hlow hhigh
    have hkept := hg.steady.kept hheap.toReady
    rw [hg.steady.cr3]
    exact hkept.translate hheap.nullDir hheap.ownDir h0 htaken hfirst

/-- The loop of `malloc_page` on pages of the heap. -/
lemma mallocPages_kernel (h : KernelHeap s) (hi : i + cnt ≤ (s.btmp .kernelVir).bitNum)
    (start : Word) :
    (Fits s i cnt ∧ ∃ tr s', (mallocPages .kernelPhy start cnt (s.pageAddr .kernelVir i)).Runs
      s tr s' start ∧ PagesMapped s s' i cnt ∧ MemLabel.noFrame .kernelPhy ∉ tr) ∨
    ¬ Fits s i cnt ∧ ∀ tr s' a, (mallocPages .kernelPhy start cnt (s.pageAddr .kernelVir i)).Runs
      s tr s' a → a = 0 ∧ freeFrames (s.btmp .kernelPhy) < cnt := by
  induction cnt generalizing s i with
  | zero =>
    exact .inl ⟨⟨Nat.zero_le _, fun j hj hj' => by omega⟩, [], s, rfl, PagesMapped.refl s i,
      List.not_mem_nil⟩
  | succ cnt ih =>
    have hbound : (s.btmp .kernelPhy).bitNum ≤ 2 ^ 31 := (h.pools.shape .kernel).bitNum_le le_rfl
    have hin : i < (s.btmp .kernelVir).bitNum := by omega
    rcases @bitmapScan_spec (s.btmp .kernelPhy) 0 1 le_rfl hbound with
      ⟨k, hrun, -, hscan⟩ | ⟨hnone, hscan⟩
    · have hk := (runAt_one_iff _ k).mp hrun
      obtain ⟨hcount, hpos⟩ := freeFrames_bitmapSet hk
      have hget := runs_paddrGet_free (lt_of_lt_of_le hk.1 hbound) hk.1 hscan
      have hne : s.pageAddr .kernelPhy k ≠ 0 :=
        pageAddr_ne_zero (h.pools.shape .kernel) le_rfl hk.1
      have htake : Steady s (s.takeFrame .kernel k) := (Steady.refl s).setBit _ _
      have hheap : KernelHeap (s.takeFrame .kernel k) := h.grows htake.toGrows
      have hvir : (s.takeFrame .kernel k).btmp .kernelVir = s.btmp .kernelVir :=
        takeFrame_vir s .kernel .kernel k 0
      have hpage : ∀ j, (s.takeFrame .kernel k).pageAddr .kernelVir j = s.pageAddr .kernelVir j :=
        (takeFrame_sameShape s .kernel k).pageAddr _
      have hsame : ∀ j, Unmapped (s.takeFrame .kernel k) j ↔ Unmapped s j := by
        intro j
        rw [Unmapped, hpage]
        rfl
      by_cases hz : Unmapped s i
      · obtain ⟨s', hmap, hsteady, hpool, hfirst, hothers, hrest⟩ :=
          hheap.map (hvir ▸ hin) ((hsame i).mpr hz) (s.pageAddr .kernelPhy k)
        rw [hpage] at hmap hfirst
        have hmid : Steady s s' := htake.trans hsteady
        have hbtmp : ∀ p, s'.btmp p = (s.takeFrame .kernel k).btmp p := fun p => by
          rw [MemState.btmp, hpool, MemState.btmp]
        have hphy : s'.btmp .kernelPhy = bitmapSet (s.btmp .kernelPhy) k :=
          (hbtmp _).trans (setBtmp_btmp_self _)
        have hothers' : ∀ j < (s.btmp .kernelVir).bitNum, j ≠ i → (Unmapped s' j ↔ Unmapped s j) :=
          fun j hj hji => (hothers j (hvir ▸ hj) hji).trans (hsame j)
        have hbits : (s'.btmp .kernelVir).bitNum = (s.btmp .kernelVir).bitNum := hmid.bitNum _
        -- the other pages, and the frames left for them
        have hfits : Fits s' (i + 1) cnt ↔ Fits s i (cnt + 1) := by
          unfold Fits
          rw [hphy, hcount]
          refine and_congr (by omega) ⟨fun hall j hj hj' => ?_, fun hall j hj hj' => ?_⟩
          · by_cases hji : j = i
            · exact hji ▸ hz
            · exact (hothers' j (by omega) hji).mp (hall j (by omega) (by omega))
          · exact (hothers' j (by omega) (by omega)).mpr (hall j (by omega) (by omega))
        have hstep : s.pageAddr .kernelVir i + 4096 = s'.pageAddr .kernelVir (i + 1) := by
          rw [pageAddr_succ, hmid.toSameShape.pageAddr]
        rcases ih (i := i + 1) (h.grows hmid.toGrows) (by rw [hbits]; omega) with
          ⟨hyes, tr, s'', hloop, hg, hspared⟩ | ⟨hno, hloop⟩
        · have hmapped := PagesMapped.cons h hk hscan hi hsteady hpool hfirst hothers' hrest hg
          rw [← hstep] at hloop
          have hbody := Runs.bind (k := fun _ => mallocPages .kernelPhy start cnt _) hmap hloop
          refine .inl ⟨hfits.mp hyes, ?_⟩
          refine ⟨_, s'', Runs.bind hget (by rw [if_neg hne]; exact hbody), hmapped, ?_⟩
          simpa using hspared
        · refine .inr ⟨mt hfits.mpr hno, fun tr x a hr => ?_⟩
          obtain ⟨_, hr⟩ := hr.of_bind hget
          rw [if_neg hne] at hr
          obtain ⟨_, hr⟩ := hr.of_bind hmap
          rw [hstep] at hr
          obtain ⟨ha, hlt⟩ := hloop _ _ _ hr
          rw [hphy, hcount] at hlt
          exact ⟨ha, by omega⟩
      · refine .inr ⟨fun hfit => hz (hfit.2 i le_rfl (by omega)), fun tr x a hr => ?_⟩
        obtain ⟨_, hr⟩ := hr.of_bind hget
        rw [if_neg hne] at hr
        have hstop := hheap.map_mapped (hvir ▸ hin) (mt (hsame i).mp hz) (s.pageAddr .kernelPhy k)
        rw [hpage] at hstop
        obtain ⟨_, x, a, _, hmap, -⟩ := hr.bind_inv
        exact absurd (hstop.runs hmap) id
    · have hzero : freeFrames (s.btmp .kernelPhy) = 0 :=
        freeFrames_eq_zero fun k hk => hnone k ((runAt_one_iff _ k).mpr hk)
      refine .inr ⟨fun hfit => absurd hfit.1 (by omega), fun tr x a hr => ?_⟩
      obtain ⟨_, hr⟩ := hr.of_bind (runs_paddrGet_full hscan)
      rw [if_pos rfl] at hr
      obtain ⟨-, rfl⟩ := hr.det (Runs.ret 0 s)
      exact ⟨rfl, by omega⟩

end Loop

section Calls

variable {s s' : MemState} {i n : ℕ} {a : Word}

lemma steady_reserve (s : MemState) (p : PoolId) (i cnt : ℕ) : Steady s (s.reserve p i cnt) := by
  induction cnt generalizing s i with
  | zero =>
    have hsame : s.reserve p i 0 = s := by
      simp [MemState.reserve, MemState.setBtmp, setRun, MemState.btmp]
    rw [hsame]
    exact Steady.refl s
  | succ cnt ih =>
    have hstep : s.reserve p i (cnt + 1) =
        (s.setBtmp p (bitmapSet (s.btmp p) i)).reserve p (i + 1) cnt := by
      rw [MemState.reserve, MemState.reserve, setBtmp_btmp_self, setBtmp_setBtmp]
      rfl
    rw [hstep]
    exact ((Steady.refl s).setBit p i).trans (ih _ _)

lemma reserve_user (s : MemState) (i cnt t : ℕ) :
    (s.reserve .kernelVir i cnt).pool (.userVir t) = s.pool (.userVir t) := by
  have hne : PoolId.userVir t ≠ .kernelVir := by simp
  rw [MemState.reserve, MemState.setBtmp]
  dsimp only
  rw [Function.update_of_ne hne]

lemma unmapped_reserve (s : MemState) (j i cnt : ℕ) :
    Unmapped (s.reserve .kernelVir i cnt) j ↔ Unmapped s j := by
  rw [Unmapped, (reserve_sameShape s _ _ _).pageAddr]
  rfl

lemma fits_reserve (s : MemState) (j i n cnt : ℕ) :
    Fits (s.reserve .kernelVir i n) j cnt ↔ Fits s j cnt := by
  have hphy : (s.reserve .kernelVir i n).btmp .kernelPhy = s.btmp .kernelPhy :=
    reserve_phy s .kernel .kernel 0 i n
  unfold Fits
  simp only [hphy, unmapped_reserve]

lemma runAt_of_scan {b : Bitmap} (hb : b.bitNum ≤ 2 ^ 31) (hn : 1 ≤ n)
    (h : bitmapScan b 0 n = i) : RunAt b 0 n i := by
  rcases @bitmapScan_spec b 0 n hn hb with ⟨j, hrun, -, hj⟩ | ⟨-, hj⟩
  · obtain rfl : j = i := by
      rw [hj] at h
      exact_mod_cast h
    exact hrun
  · rw [hj] at h
    omega

/-- `kernel_pages_malloc(n)` finds its pages from page `i` on. -/
def Supplies (s : MemState) (n i : ℕ) : Prop :=
  bitmapScan (s.btmp .kernelVir) 0 n = i ∧ Fits s i n

/-- Between `s` and `s'` it took them. -/
def Supplied (s s' : MemState) (n i : ℕ) : Prop :=
  PagesMapped (s.reserve .kernelVir i n) s' i n

lemma kernelPages_cases (h : KernelHeap s) (hn : 1 ≤ n) (hn' : n < 3840) :
    (∃ i, Supplies s n i ∧ i + n ≤ (s.btmp .kernelVir).bitNum ∧ ∃ tr s',
      (kernelPagesMalloc n).Runs s tr s' (s.pageAddr .kernelVir i) ∧ Supplied s s' n i ∧
        MemLabel.noFrame .kernelPhy ∉ tr) ∨
    (∀ i, ¬ Supplies s n i) ∧ ∀ tr s' a, (kernelPagesMalloc n).Runs s tr s' a → a = 0 ∧
      (bitmapScan (s.btmp .kernelVir) 0 n = -1 ∨ freeFrames (s.btmp .kernelPhy) < n) := by
  have htop : (0xffc00000 : ℕ) ≤ 2 ^ 32 := by norm_num
  have hcall : kernelPagesMalloc n = (vaddrGet .kernel n >>= fun a =>
      if a = 0 then return 0 else mallocPages .kernelPhy a n a) := if_pos ⟨hn, hn'⟩
  have hp : PoolId.kernelVir = vaddrPool .kernel s.running := rfl
  rw [hcall]
  rcases vaddrGet_cases hp hn (h.heap.bitNum_le htop) with
    ⟨i, hrun, hscan, hget⟩ | ⟨-, hscan, hget⟩
  · have hfit := hrun.1
    have hne : s.pageAddr .kernelVir i ≠ 0 := pageAddr_ne_zero h.heap htop (by omega)
    have hsteady := steady_reserve s .kernelVir i n
    have hpage : (s.reserve .kernelVir i n).pageAddr .kernelVir i = s.pageAddr .kernelVir i :=
      hsteady.toSameShape.pageAddr _ _
    have hfit' : i + n ≤ ((s.reserve .kernelVir i n).btmp .kernelVir).bitNum := by
      rw [hsteady.bitNum]
      exact hfit
    have hloop := mallocPages_kernel (h.grows hsteady.toGrows) hfit' (s.pageAddr .kernelVir i)
    rw [fits_reserve, hpage] at hloop
    rcases hloop with ⟨hyes, tr, s', hloop, hg, hspared⟩ | ⟨hno, hloop⟩
    · refine .inl ⟨i, ⟨hscan, hyes⟩, hfit, ?_⟩
      refine ⟨_, s', Runs.bind hget (by rw [if_neg hne]; exact hloop), hg, ?_⟩
      simpa using hspared
    · refine .inr ⟨?_, fun tr x a hr => ?_⟩
      · rintro j ⟨hj, hfits⟩
        obtain rfl : i = j := by
          rw [hscan] at hj
          exact_mod_cast hj
        exact hno hfits
      · obtain ⟨_, hr⟩ := hr.of_bind hget
        rw [if_neg hne] at hr
        obtain ⟨ha, hlt⟩ := hloop _ _ _ hr
        have hphy : (s.reserve .kernelVir i n).btmp .kernelPhy = s.btmp .kernelPhy :=
          reserve_phy s .kernel .kernel 0 i n
        exact ⟨ha, .inr (hphy ▸ hlt)⟩
  · refine .inr ⟨?_, fun tr x a hr => ?_⟩
    · rintro j ⟨hj, -⟩
      rw [hscan] at hj
      omega
    · obtain ⟨_, hr⟩ := hr.of_bind hget
      rw [if_pos rfl] at hr
      exact ⟨(hr.det (Runs.ret 0 s)).2, .inl hscan⟩

/-- The addresses it returns are never `NULL`. -/
lemma kernelPages_ne_zero (h : KernelHeap s) (hi : i + n ≤ (s.btmp .kernelVir).bitNum)
    (hn : 1 ≤ n) : s.pageAddr .kernelVir i ≠ 0 := by
  have htop : (0xffc00000 : ℕ) ≤ 2 ^ 32 := by norm_num
  exact pageAddr_ne_zero h.heap htop (by omega)

/-- A call that returns a page found it. -/
lemma Prog.Runs.supplied {tr : List MemLabel} (h : KernelHeap s) (hn : 1 ≤ n) (hn' : n < 3840)
    (hr : (kernelPagesMalloc n).Runs s tr s' a) (ha : a ≠ 0) :
    ∃ i, Supplies s n i ∧ i + n ≤ (s.btmp .kernelVir).bitNum ∧ a = s.pageAddr .kernelVir i ∧
      Supplied s s' n i := by
  rcases kernelPages_cases h hn hn' with ⟨i, hs, hfit, _, x, hx, hg, -⟩ | ⟨-, hnull⟩
  · obtain ⟨rfl, rfl⟩ := hr.det hx
    exact ⟨i, hs, hfit, rfl, hg⟩
  · exact absurd (hnull _ _ _ hr).1 ha

lemma Supplies.runs (hs : Supplies s n i) (h : KernelHeap s) (hn : 1 ≤ n) (hn' : n < 3840) :
    ∃ tr s', (kernelPagesMalloc n).Runs s tr s' (s.pageAddr .kernelVir i) ∧ Supplied s s' n i ∧
      i + n ≤ (s.btmp .kernelVir).bitNum ∧ MemLabel.noFrame .kernelPhy ∉ tr := by
  rcases kernelPages_cases h hn hn' with ⟨j, hj, hfit, tr, x, hx, hg, hspared⟩ | ⟨hnone, -⟩
  · obtain rfl : i = j := by
      have he := hs.1.symm.trans hj.1
      exact_mod_cast he
    exact ⟨tr, x, hx, hg, hfit, hspared⟩
  · exact absurd hs (hnone i)

/-- A page supplied is taken from the pages and from the frames. -/
lemma freeFrames_setRun {b : Bitmap} (h : RunAt b 0 n i) :
    freeFrames (setRun b i n) + n = freeFrames b := by
  rw [runAt_iff] at h
  obtain ⟨hfit, hclear⟩ := h
  induction n generalizing b i with
  | zero => rfl
  | succ n ih =>
    have hbit : FreeBit b i := ⟨by omega, hclear i le_rfl (by omega)⟩
    obtain ⟨hcount, hpos⟩ := freeFrames_bitmapSet hbit
    have hrest : freeFrames (setRun (bitmapSet b i) (i + 1) n) + n = freeFrames (bitmapSet b i) := by
      refine ih (by rw [bitmapSet_bitNum]; omega) fun j hj hj' => ?_
      rw [bit_bitmapSet, hclear j (by omega) (by omega)]
      simp
      omega
    rw [setRun]
    omega

lemma bitmapScan_freeFrames {b : Bitmap} (hb : b.bitNum ≤ 2 ^ 31) :
    bitmapScan b 0 1 = -1 ↔ freeFrames b = 0 := by
  rcases @bitmapScan_spec b 0 1 le_rfl hb with ⟨i, hrun, -, hscan⟩ | ⟨hnone, hscan⟩
  · have hpos := (freeFrames_bitmapSet ((runAt_one_iff _ i).mp hrun)).2
    rw [hscan]
    omega
  · have hzero := freeFrames_eq_zero fun i hi => hnone i ((runAt_one_iff _ i).mpr hi)
    exact iff_of_true hscan hzero

/-- With no page or no frame left it returns `NULL`. -/
lemma runs_kernelPages_full (h : KernelHeap s)
    (hx : freeFrames (s.btmp .kernelVir) = 0 ∨ freeFrames (s.btmp .kernelPhy) = 0) :
    ∃ tr s', (kernelPagesMalloc 1).Runs s tr s' 0 := by
  have htop : (0xffc00000 : ℕ) ≤ 2 ^ 32 := by norm_num
  have hbound : (s.btmp .kernelPhy).bitNum ≤ 2 ^ 31 := (h.pools.shape .kernel).bitNum_le le_rfl
  have hcall : kernelPagesMalloc 1 = (vaddrGet .kernel 1 >>= fun a =>
      if a = 0 then return 0 else mallocPages .kernelPhy a 1 a) := rfl
  have hp : PoolId.kernelVir = vaddrPool .kernel s.running := rfl
  rw [hcall]
  rcases vaddrGet_cases hp le_rfl (h.heap.bitNum_le htop) with
    ⟨i, hrun, -, hget⟩ | ⟨-, -, hget⟩
  · have hfree := (runAt_one_iff _ i).mp hrun
    have hne : s.pageAddr .kernelVir i ≠ 0 := pageAddr_ne_zero h.heap htop hfree.1
    have hphy : (s.reserve .kernelVir i 1).btmp .kernelPhy = s.btmp .kernelPhy :=
      reserve_phy s .kernel .kernel 0 i 1
    have hzero : freeFrames (s.btmp .kernelPhy) = 0 := hx.resolve_left fun hv => by
      have hpos := (freeFrames_bitmapSet hfree).2
      omega
    have hscan : bitmapScan ((s.reserve .kernelVir i 1).btmp .kernelPhy) 0 1 = -1 := by
      rw [hphy, bitmapScan_freeFrames hbound]
      exact hzero
    have hloop : (mallocPages .kernelPhy (s.pageAddr .kernelVir i) 1 (s.pageAddr .kernelVir i)).Runs
        (s.reserve .kernelVir i 1) [.scan .kernelPhy, .noFrame .kernelPhy] _ 0 :=
      (runs_paddrGet_full hscan).bind_end (Runs.ret 0 _)
    exact ⟨_, _, Runs.bind hget (by rw [if_neg hne]; exact hloop)⟩
  · exact ⟨_, _, hget.bind_end (Runs.ret 0 s)⟩

end Calls

end OsI386
