import OsI386.DirectoryProtocol
import OsI386.OsRuns

/-!
# The calls of the allocators under preemption

Whatever other calls do between its accesses, each call takes frames that are free, sets entries
that are not present, and clears and fills no frame but those it holds. A directory that
`process_run` makes is one in use from the store of `pg_dir` on. The only call in progress finds
what it tested as it was, so its stores are fresh by themselves.
-/
namespace OsI386
open Prog

section Maps

variable {m : Phys} {lone : Prop} {D : Hold} {s s' : MemState} {p : PoolId} {pf : PoolFlags} {idx cnt : ℕ}

/-- The map of the addresses of the kernel, or of the thread's own. -/
def VirtualMap (s : MemState) (p : PoolId) : Prop := p = .kernelVir ∨ p = .userVir s.running

lemma VirtualMap.not_physical (hp : VirtualMap s p) : ¬ p.Physical := by
  rcases hp with rfl | rfl <;> rintro (h | h) <;> cases h

lemma Others.size (h : Others lone D s s') (hp : VirtualMap s p) :
    (s'.btmp p).bitNum = (s.btmp p).bitNum := by
  rcases hp with rfl | rfl
  · exact (h.taken.sizes _ kernelVir_shared).1
  · exact congrArg (fun q : Pool => q.btmp.bitNum) h.own

lemma Others.base (h : Others lone D s s') (hp : VirtualMap s p) :
    (s'.pool p).addrBase = (s.pool p).addrBase := by
  rcases hp with rfl | rfl
  · exact (h.taken.sizes _ kernelVir_shared).2
  · exact congrArg Pool.addrBase h.own

lemma Acts.setBtmp {b : Bitmap} (hp : VirtualMap s p) (hb : b.bitNum = (s.btmp p).bitNum) :
    Acts m D D s (s.setBtmp p b) := by
  have hshape : SameShape s (s.setBtmp p b) := .setBtmp hb
  refine .records ⟨fun q _ => ⟨hshape.bitNum q, hshape.addrBase q⟩, fun pf j hj => ?_⟩ rfl rfl rfl
    (fun t ht _ => Function.update_of_ne ?_ _ _) fun _ => .inl rfl
  · rwa [setBtmp_btmp_of_ne]
    rcases hp with rfl | rfl <;> cases pf <;> simp [phyPool]
  · rcases hp with rfl | rfl
    · simp
    · simpa using ht

/-- `bitmap_set` on a virtual page of the map. -/
lemma obeys_setBit (hp : VirtualMap s p) (hI : Inside m D s) (hin : (s.btmp p).Holds idx) :
    (bitmapSetAt p idx).Obeys (dirsProtocol m lone) (fun s' D' _ => D' = D ∧ Inside m D s' ∧
      s'.running = s.running ∧ (s'.btmp p).bitNum = (s.btmp p).bitNum) s D := by
  refine (dirs_reads m lone).obeys fun s₁ h₁ => ?_
  have hsize : (s₁.btmp p).bitNum = (s.btmp p).bitNum := Others.size h₁ hp
  rw [if_pos (by rwa [Bitmap.Holds, hsize])]
  refine obeys_modify (plain_modify s (fun x q hq => setBtmp_btmp_of_ne _ ?_) fun _ => rfl)
    fun s₂ h₂ => ?_
  · rintro rfl
    exact hp.not_physical hq
  have h02 := Others.trans h₁ h₂
  have hp₂ : VirtualMap s₂ p := by rwa [VirtualMap, h02.running]
  have hacts := Acts.setBtmp (m := m) (D := D) (b := { s₂.btmp p with
    bytes := Function.update (s₂.btmp p).bytes (idx / 8)
      ((s₁.btmp p).bytes (idx / 8) ||| (1#8 <<< (idx % 8))) }) hp₂ rfl
  refine ⟨D, hacts, fun s₃ h₃ => ⟨rfl, (hacts.inside (hI.others h02)).others h₃,
    h₃.running.trans h02.running, ?_⟩⟩
  have hp₃ : VirtualMap (s₂.setBtmp p { s₂.btmp p with
    bytes := Function.update (s₂.btmp p).bytes (idx / 8)
      ((s₁.btmp p).bytes (idx / 8) ||| (1#8 <<< (idx % 8))) }) p := hp₂
  rw [h₃.size hp₃, setBtmp_btmp_self]
  exact h02.size hp

lemma obeys_setRun (hp : VirtualMap s p) (hI : Inside m D s) (hfit : idx + cnt ≤ (s.btmp p).bitNum) :
    (bitmapSetRun p idx cnt).Obeys (dirsProtocol m lone) (fun s' D' _ => D' = D ∧ Inside m D s' ∧
      s'.running = s.running ∧ (s'.btmp p).bitNum = (s.btmp p).bitNum) s D := by
  induction cnt generalizing idx s with
  | zero => exact fun s₁ h₁ => ⟨rfl, hI.others h₁, h₁.running, Others.size h₁ hp⟩
  | succ cnt ih =>
    have hin : (s.btmp p).Holds idx := Bitmap.holds_of_lt (by omega)
    refine Obeys.bind (obeys_setBit hp hI hin) ?_
    rintro s₁ _ _ ⟨rfl, hI₁, hrun, hsize⟩
    have hp₁ : VirtualMap s₁ p := by rwa [VirtualMap, hrun]
    refine Obeys.post (ih hp₁ hI₁ (by omega)) fun _ _ _ h => ?_
    exact ⟨h.1, h.2.1, h.2.2.1.trans hrun, h.2.2.2.trans hsize⟩

/-- The address of a page found by a scan, with the index as the program has it. -/
lemma pageAddr_scan (s : MemState) (p : PoolId) (i : ℕ) :
    BitVec.ofInt 32 (toInt32 i) * 4096 + (s.pool p).addrBase =
      s.pageAddr p (BitVec.ofInt 32 (toInt32 i)).toNat := by
  rw [MemState.pageAddr, ← ofInt_mul_pgSize, BitVec.ofInt_natCast, BitVec.ofNat_toNat]
  simp

lemma scan_lt {i n : ℕ} (hcnt : 0 < cnt) (hfit : i + cnt ≤ n) :
    (BitVec.ofInt 32 (toInt32 i)).toNat + cnt ≤ n ∧ (BitVec.ofInt 32 (toInt32 i)).toNat < n := by
  have hmod := Nat.mod_le i (2 ^ 32)
  rw [toNat_ofInt_toInt32]
  omega

/-- The pages of the kernel heap lie below the window. -/
lemma Inside.heapPage (hI : Inside m D s) (hidx : idx < (s.btmp .kernelVir).bitNum) :
    KernelPage (s.pageAddr .kernelVir idx) ∧ (s.pageAddr .kernelVir idx).toNat % 4096 = 0 := by
  have hbelow := hI.heap.below
  have haddr := toNat_pageAddr hI.heap (by norm_num) hidx
  have hbase : kHeapStart.toNat = 0xc0100000 := rfl
  refine ⟨?_, aligned_pageAddr hI.heap (by norm_num) hidx⟩
  change idx < (s.pool .kernelVir).btmp.bitNum at hidx
  rw [KernelPage, toNat_pdeIdx, haddr]
  rw [hI.heapBase, hbase] at hbelow haddr ⊢
  omega

lemma part_vaddrGet (pf : PoolFlags) (pgCnt : ℕ) : CallPart lone m (vaddrGet pf pgCnt) fun _ _ a =>
    pf = .kernel → 0 < pgCnt → a = 0 ∨ KernelPage a ∧ a.toNat % 4096 = 0 := by
  intro D s hI
  refine (dirs_reads m lone).obeys fun s₁ h₁ => obeys_label ?_
  have hI₁ := hI.others h₁
  have hp : VirtualMap s₁ (vaddrPool pf s₁.running) := by
    cases pf
    · exact .inl rfl
    · exact .inr rfl
  refine Obeys.bind (obeys_bitmapScanAt (dirs_reads m lone) (fun _ h => Others.size h hp) 0 pgCnt) ?_
  rintro s₂ _ r ⟨rfl, h₂, hr⟩
  have hI₂ := hI₁.others h₂
  split_ifs with hfull
  · exact obeys_label fun s₃ h₃ => ⟨hI₂.others h₃, Hold.le_refl _, fun _ _ => .inl rfl⟩
  obtain ⟨i, rfl, hfit⟩ := hr.1.resolve_left hfull
  have hp₂ : VirtualMap s₂ (vaddrPool pf s₁.running) := by rwa [VirtualMap, h₂.running]
  have hmod := Nat.mod_le i (2 ^ 32)
  rw [← Others.size h₂ hp] at hfit
  have hrun : (BitVec.ofInt 32 (toInt32 i)).toNat + pgCnt ≤
      (s₂.btmp (vaddrPool pf s₁.running)).bitNum := by
    rw [toNat_ofInt_toInt32]
    omega
  refine Obeys.bind (obeys_setRun hp₂ hI₂ hrun) ?_
  rintro s₃ _ _ ⟨rfl, hI₃, -, hsize⟩
  refine (dirs_reads m lone).obeys fun s₄ h₄ => obeys_label fun s₅ h₅ => ?_
  refine ⟨(hI₃.others h₄).others h₅, Hold.le_refl _, fun hpf hcnt => .inr ?_⟩
  subst hpf
  have hI₄ := hI₃.others h₄
  have hlt : (BitVec.ofInt 32 (toInt32 i)).toNat < (s₄.btmp .kernelVir).bitNum := by
    have hsame := Others.size h₄ (.inl rfl : VirtualMap s₃ .kernelVir)
    change _ ≤ (s₂.btmp .kernelVir).bitNum at hrun
    change (s₃.btmp .kernelVir).bitNum = (s₂.btmp .kernelVir).bitNum at hsize
    omega
  have haddr := pageAddr_scan s₄ .kernelVir i
  have hpage := hI₄.heapPage hlt
  rw [← haddr, BitVec.add_comm] at hpage
  exact hpage

/-- Neither memory nor the directory in use changes. -/
def SameMemory (s s' : MemState) : Prop := s'.phys = s.phys ∧ s'.cr3 = s.cr3

/-- The frame whose bit `paddr_get` sets is held. -/
lemma obeys_takeFrame (hI : Inside m D s) (hidx : idx < (s.btmp (phyPool pf)).bitNum)
    (hlone : lone → (s.btmp (phyPool pf)).bit idx = false) :
    (bitmapSetAt (phyPool pf) idx).Obeys (dirsProtocol m lone)
      (Keeps m D fun s' D' _ => frameOf (s'.pageAddr (phyPool pf) idx) ∈ D'.frames ∧
        (lone → SameMemory s s')) s D := by
  have hshared := (phyPool_physical pf).shared
  refine (dirs_reads m lone).obeys fun s₁ h₁ => ?_
  have hsize : ∀ x, Others lone D s x → (x.btmp (phyPool pf)).bitNum = (s.btmp (phyPool pf)).bitNum :=
    fun x h => (h.taken.sizes _ hshared).1
  rw [if_pos (Bitmap.holds_of_lt ((hsize s₁ h₁).symm ▸ hidx))]
  intro s₂ h₂ hok s' hs
  have h02 := Others.trans h₁ h₂
  have hI₂ := hI.others h02
  have halone : lone → StoreFresh (byteStore (phyPool pf) (idx / 8)
      ((s₁.btmp (phyPool pf)).bytes (idx / 8) ||| (1#8 <<< (idx % 8)))) s₂ := fun hl => by
    rw [Others.still h₂ hl, Others.still h₁ hl]
    exact storeFresh_bitmapSet (hlone hl)
  have hfresh := (em lone).elim halone hok
  obtain ⟨hclear, hstore⟩ := byteStore_eq hshared (StoreFresh.fitStore hfresh (phyPool_physical pf))
    fun k => byte_of_bits (h₂.taken.bits pf)
  obtain rfl := Option.some.inj (hstore.symm.trans hs)
  have hfree : FreeBit (s₂.btmp (phyPool pf)) idx := ⟨(hsize s₂ h02).symm ▸ hidx, hclear⟩
  have hacts := Acts.takeFrame hI₂ hfree
  refine ⟨_, ⟨hacts, halone⟩, fun s₃ h₃ => ⟨(hacts.inside hI₂).others h₃,
    ⟨Set.subset_insert _ _, Set.Subset.rfl⟩, ?_, fun hl => ?_⟩⟩
  · have haddr := (h₃.taken.pageAddr pf idx).trans (hacts.taken.pageAddr pf idx)
    dsimp only
    rw [haddr]
    exact Set.mem_insert _ _
  · rw [Others.still h₃ hl, h02.still hl]
    exact ⟨rfl, rfl⟩

/-- The indices of a physical pool fit into an `int32_t`. -/
lemma Inside.small (hI : Inside m D s) (pf : PoolFlags) :
    (s.btmp (phyPool pf)).bitNum ≤ 2 ^ 31 := by
  have hbelow := (hI.pools.shape pf).below
  change _ + (s.btmp (phyPool pf)).bitNum * 4096 ≤ _ at hbelow
  omega

lemma obeys_paddrGet (pf : PoolFlags) (hI : Inside m D s) :
    (paddrGet (phyPool pf)).Obeys (dirsProtocol m lone) (Keeps m D fun s' D' a =>
      (a = 0 ∨ frameOf a ∈ D'.frames) ∧ (lone → SameMemory s s')) s D := by
  have hshared := (phyPool_physical pf).shared
  refine obeys_label (Obeys.bind (obeys_bitmapScanAt (dirs_reads m lone)
    (fun _ h => (h.taken.sizes _ hshared).1) 0 1) ?_)
  rintro s₁ _ r ⟨rfl, h₁, hr, hscan⟩
  have hI₁ := hI.others h₁
  split_ifs with hfull
  · refine obeys_label fun s₂ h₂ => ⟨hI₁.others h₂, Hold.le_refl _, .inl rfl, fun hl => ?_⟩
    rw [Others.still h₂ hl, Others.still h₁ hl]
    exact ⟨rfl, rfl⟩
  obtain ⟨i, rfl, hfit⟩ := hr.resolve_left hfull
  have hidx := (scan_lt Nat.one_pos hfit).2
  rw [← (h₁.taken.sizes _ hshared).1] at hidx
  have hlone : lone →
      (s₁.btmp (phyPool pf)).bit (BitVec.ofInt 32 (toInt32 i)).toNat = false := fun hl => by
    have halone := hscan fun x hx => by rw [Others.still hx hl]
    rw [halone] at hfull ⊢
    obtain ⟨j, -, hj, -, hclear⟩ := (bitmapScan_clear le_rfl (hI.small pf)).resolve_left hfull
    rw [hj, Others.still h₁ hl]
    exact hclear j le_rfl (Nat.lt_succ_self j)
  refine Obeys.bind (obeys_takeFrame hI₁ hidx hlone) ?_
  rintro s₂ D₂ _ ⟨hI₂, hle, hframe, hsame⟩
  refine (dirs_reads m lone).obeys fun s₃ h₃ => obeys_label fun s₄ h₄ => ?_
  refine ⟨(hI₂.others h₃).others h₄, hle, .inr ?_, fun hl => ?_⟩
  · rw [pageAddr_scan, h₃.taken.pageAddr]
    exact hframe
  · rw [Others.still h₄ hl, Others.still h₃ hl, ← Others.still h₁ hl]
    exact hsame hl

lemma part_paddrGet (pf : PoolFlags) : CallPart lone m (paddrGet (phyPool pf)) fun _ D' a =>
    a = 0 ∨ frameOf a ∈ D'.frames :=
  fun _ _ hI => Obeys.post (obeys_paddrGet pf hI) fun _ _ _ h => ⟨h.1, h.2.1, h.2.2.1⟩

end Maps

section Mapping

variable {m : Phys} {lone : Prop} {D : Hold} {s s' : MemState} {v a pa pt : Word} {f : FrameNo}

/-- The page at `v`, if it is one of the kernel, is mapped to `pa` and held. -/
def MapsTo (v pa : Word) (s : MemState) (D : Hold) : Prop :=
  KernelPage v → v.toNat ∈ D.pages ∧ translate s.phys 0x100 v = some (frameOf pa)

lemma MapsTo.others (h : MapsTo v pa s D) (hI : Inside m D s) (g : Others lone D s s') :
    MapsTo v pa s' D := fun hv =>
  ⟨(h hv).1, hI.kernel.walk_kept (fun k hk => g.kept k (.inl hk)) hv (h hv).2⟩

/-- The entry that the word at `v` is, if it is mapped, is not present. -/
def NotPresent (s : MemState) (v : Word) : Prop :=
  ∀ g, translate s.phys s.cr3 v = some g → present (s.phys g (wordIdx v)) = false

lemma NotPresent.of_load {w : Word} (hload : loadWord s.phys s.cr3 v = some w) (hw : ¬ w &&& 1 ≠ 0) :
    NotPresent s v := by
  intro g hg
  simp only [loadWord, hg, Option.map_some, Option.some.injEq] at hload
  rw [hload]
  exact (not_present_iff w).mpr hw

lemma NotPresent.same (h : NotPresent s v) (hs : SameMemory s s') : NotPresent s' v := by
  rw [NotPresent, hs.1, hs.2]
  exact h

/-- A store through the window. -/
lemma obeys_windowStore {w : Word} {R : MemState → Hold → Unit → Prop} (hv : pdeIdx v = 1023)
    (hlone : lone → NotPresent s v) (h : ∀ s₁ g, Others lone D s s₁ → translate s₁.phys s₁.cr3 v = some g →
      present (s₁.phys g (wordIdx v)) = false →
      ∃ D', Acts m D D' s₁ { s₁ with phys := writeSlot s₁.phys g (wordIdx v) w } ∧
        ∀ s₂, Others lone D' { s₁ with phys := writeSlot s₁.phys g (wordIdx v) w } s₂ → R s₂ D' ()) :
    (storeAt v w).Obeys (dirsProtocol m lone) R s D := by
  refine obeys_store (fun hl => storeFresh_entryStore (w := w) (hlone hl)) fun s₁ s' h₁ hfresh hs => ?_
  obtain ⟨x, hx, rfl⟩ := Option.map_eq_some_iff.mp hs
  obtain ⟨g, hg, rfl⟩ := Option.map_eq_some_iff.mp hx
  exact h s₁ g h₁ hg (hfresh.entry v w hv rfl g hg)

/-- The entry of the page in its table. -/
lemma obeys_storePte (hI : Inside m D s) (hlone : lone → NotPresent s (pteVaddrGet v)) :
    (storeAt (pteVaddrGet v) (entryOf pa)).Obeys (dirsProtocol m lone)
      (Keeps m D fun s' D' _ => MapsTo v pa s' D') s D := by
  refine obeys_windowStore (pdeIdx_pteVaddrGet v) hlone fun s₁ g h₁ hg hz => ?_
  have hI₁ := hI.others h₁
  rw [wordIdx_pteVaddrGet] at hz ⊢
  by_cases hv : KernelPage v
  · -- the table is the one of the loader
    have hsame : s₁.phys s₁.cr3 (pdeIdx v) = s₁.phys 0x100 (pdeIdx v) := by
      rw [hI₁.active.entries _ hv.1 hv.2, hI₁.kernel.entries _ hv.1 hv.2]
    have hp := (hI₁.kernel.table hv).1
    rw [translate_pteVaddrGet hI₁.active.window (hsame ▸ hp), hsame] at hg
    obtain rfl := Option.some.inj hg
    have hwalk : translate (setEntry s₁.phys 0x100 v (entryOf pa)) 0x100 v = some (frameOf pa) := by
      rw [translate_setEntry_self hp hz (present_entryOf pa), frameOf_entryOf]
    have hacts : Acts m D { D with pages := insert v.toNat D.pages } s₁
        { s₁ with phys := setEntry s₁.phys 0x100 v (entryOf pa) } := by
      refine .memory (fun g _ _ => frameKept_writeSlot hz _ g) rfl fun t ht => ?_
      rcases ht with rfl | ht
      · refine .inr ⟨?_, v, _, rfl, hv, hwalk⟩
        rintro ⟨u, f, hu, -, hf⟩
        obtain rfl := BitVec.eq_of_toNat_eq hu
        simp only [translate, hp, if_true, hz, Bool.false_eq_true, if_false, reduceCtorEq] at hf
      · exact .inl ht
    have hmaps : MapsTo v pa { s₁ with phys := setEntry s₁.phys 0x100 v (entryOf pa) }
        { D with pages := insert v.toNat D.pages } := fun _ => ⟨Set.mem_insert _ _, hwalk⟩
    have hI₂ := hacts.inside hI₁
    exact ⟨_, hacts, fun s₂ h₂ => ⟨hI₂.others h₂, ⟨Set.Subset.rfl, Set.subset_insert _ _⟩,
      hmaps.others hI₂ h₂⟩⟩
  · have hacts := Acts.entry (m := m) (D := D) hz (entryOf pa)
    exact ⟨D, hacts, fun s₂ h₂ => ⟨(hacts.inside hI₁).others h₂, D.le_refl, fun hk => absurd hk hv⟩⟩

/-- The end of `v2p_mapping`. -/
lemma obeys_mapEntry (hI : Inside m D s) :
    (do
      let pteVal ← loadAt (pteVaddrGet v)
      if pteVal &&& 1 ≠ 0 then .stop .panic
      else storeAt (pteVaddrGet v) (entryOf pa) : MemProg Unit).Obeys (dirsProtocol m lone)
      (Keeps m D fun s' D' _ => MapsTo v pa s' D') s D := by
  refine obeys_readOr fun s₁ _ h₁ hload => ?_
  split_ifs with hset
  · trivial
  · exact obeys_storePte (hI.others h₁) fun _ => .of_load hload hset

/-- The entry of a new table in the directory. -/
lemma obeys_storePde (hI : Inside m D s) (hlone : lone → NotPresent s (pdeVaddrGet v)) :
    (storeAt (pdeVaddrGet v) (entryOf pt)).Obeys (dirsProtocol m lone) (fun s' D' _ => D' = D ∧
      Inside m D s' ∧ s'.phys s'.cr3 (pdeIdx v) = entryOf pt) s D := by
  refine obeys_windowStore (pdeIdx_pdeVaddrGet v) hlone fun s₁ g h₁ hg hz => ?_
  have hI₁ := hI.others h₁
  rw [translate_pdeVaddrGet hI₁.active.window] at hg
  obtain rfl := Option.some.inj hg
  rw [wordIdx_pdeVaddrGet] at hz ⊢
  have hacts := Acts.entry (m := m) (D := D) hz (entryOf pt)
  refine ⟨D, hacts, fun s₂ h₂ => ⟨rfl, (hacts.inside hI₁).others h₂, ?_⟩⟩
  have hentry := writeSlot_self s₁.phys s₁.cr3 (pdeIdx v) (entryOf pt)
  have hkept := h₂.kept _ (.inr (.inl rfl)) (pdeIdx v)
    ((congrArg present hentry).trans (present_entryOf pt))
  rw [h₂.cr3]
  exact hkept.trans hentry

/-- The new table, which the directory shows by then. -/
lemma obeys_clearTable (hI : Inside m D s) (hpt : pt = 0 ∨ frameOf pt ∈ D.frames)
    (hentry : s.phys s.cr3 (pdeIdx v) = entryOf pt) :
    (clearPage (pteVaddrGet v &&& 0xfffff000)).Obeys (dirsProtocol m lone)
      (fun s' D' _ => D' = D ∧ Inside m D s') s D := by
  refine obeys_modifyOr (plain_clearPage s _) fun s₁ s' h₁ hs => ?_
  have hI₁ := hI.others h₁
  have hentry₁ : s₁.phys s₁.cr3 (pdeIdx v) = entryOf pt := by
    rw [h₁.cr3, h₁.kept _ (.inr (.inl rfl)) _ (hentry ▸ present_entryOf pt), hentry]
  rw [hI₁.active.window.translate_tablePage hentry₁] at hs
  obtain rfl := Option.some.inj hs
  have hframe : frameOf pt = 0 ∨ frameOf pt ∈ D.frames := hpt.imp_left fun h => by rw [h]; rfl
  have hacts := Acts.fill (m := m) (s := s₁) hframe fun _ => 0
  exact ⟨D, hacts, fun s₂ h₂ => ⟨rfl, (hacts.inside hI₁).others h₂⟩⟩

lemma part_v2pMapping (v pa : Word) :
    CallPart lone m (v2pMapping v pa) fun s' D' _ => MapsTo v pa s' D' := by
  intro D s hI
  refine obeys_label (obeys_readOr fun s₁ pdeVal h₁ hload => ?_)
  have hI₁ := hI.others h₁
  split_ifs with hset
  · refine obeys_readOr fun s₂ _ h₂ _ => ?_
    split_ifs
    · trivial
    · exact obeys_mapEntry (hI₁.others h₂)
  · refine Obeys.bind (obeys_paddrGet .kernel hI₁) ?_
    rintro s₂ D₂ pt ⟨hI₂, hle, hpt, hsame⟩
    refine Obeys.bind (obeys_storePde hI₂ fun hl => (NotPresent.of_load hload hset).same (hsame hl)) ?_
    rintro s₃ _ _ ⟨rfl, hI₃, hentry⟩
    refine Obeys.bind (obeys_clearTable hI₃ hpt hentry) ?_
    rintro s₄ _ _ ⟨rfl, hI₄⟩
    exact Obeys.post (obeys_mapEntry hI₄) fun _ _ _ h => ⟨h.1, Hold.le_trans hle h.2.1, h.2.2⟩

lemma part_mallocPages (pf : PoolFlags) (start : Word) (cnt : ℕ) (v : Word) :
    CallPart lone m (mallocPages (phyPool pf) start cnt v) fun _ _ _ => True := by
  induction cnt generalizing v with
  | zero => exact (CallPart.ret start).post fun _ _ _ _ _ => trivial
  | succ cnt ih =>
    refine (part_paddrGet pf).bind fun D s a hI _ => ?_
    split_ifs
    · exact (CallPart.ret 0).post (fun _ _ _ _ _ => trivial) D s hI
    · exact (part_v2pMapping v a).bind (fun D s _ hI _ => ih _ D s hI) D s hI

lemma part_mallocPage (pf : PoolFlags) (pgCnt : ℕ) :
    CallPart lone m (mallocPage pf pgCnt) fun _ _ _ => True := by
  unfold mallocPage
  split_ifs
  · refine (part_vaddrGet pf pgCnt).bind fun D s a hI _ => ?_
    split_ifs
    · exact (CallPart.ret 0).post (fun _ _ _ _ _ => trivial) D s hI
    · exact part_mallocPages pf _ _ _ D s hI
  · exact fun _ _ _ => trivial

/-- A page of the kernel that the call mapped, to a frame it took. -/
structure NewPage (s : MemState) (D : Hold) (a : Word) (f : FrameNo) : Prop where
  page : KernelPage a
  aligned : a.toNat % 4096 = 0
  held : a.toNat ∈ D.pages
  frame : f ∈ D.frames
  walk : translate s.phys 0x100 a = some f

lemma NewPage.others (h : NewPage s D a f) (hI : Inside m D s) (g : Others lone D s s') :
    NewPage s' D a f :=
  ⟨h.page, h.aligned, h.held, h.frame,
    hI.kernel.walk_kept (fun k hk => g.kept k (.inl hk)) h.page h.walk⟩

lemma part_kernelPage : CallPart lone m (kernelPagesMalloc 1) fun s' D' a =>
    a = 0 ∨ ∃ f, NewPage s' D' a f := by
  have hcall : kernelPagesMalloc 1 = (vaddrGet .kernel 1 >>= fun a =>
      if a = 0 then return 0 else mallocPages (phyPool .kernel) a 1 a) := rfl
  rw [hcall]
  refine (part_vaddrGet .kernel 1).bind fun D s a hI hpage => ?_
  rcases hpage rfl Nat.one_pos with rfl | ⟨hk, halign⟩
  · rw [if_pos rfl]
    exact (CallPart.ret 0).post (fun _ _ _ _ h => .inl h) D s hI
  split_ifs
  · exact (CallPart.ret 0).post (fun _ _ _ _ h => .inl h) D s hI
  refine (part_paddrGet .kernel).bind (fun D s pa hI hpa => ?_) D s hI
  split_ifs with h0
  · exact (CallPart.ret 0).post (fun _ _ _ _ h => .inl h) D s hI
  refine Obeys.bind (part_v2pMapping a pa D s hI) ?_
  rintro s₁ D₁ _ ⟨hI₁, hle, hmaps⟩
  have hnew : NewPage s₁ D₁ a (frameOf pa) :=
    ⟨hk, halign, (hmaps hk).1, hle.1 (hpa.resolve_left h0), (hmaps hk).2⟩
  exact fun s₂ h₂ => ⟨hI₁.others h₂, hle, .inr ⟨_, hnew.others hI₁ h₂⟩⟩

end Mapping

section Process

variable {m : Phys} {lone : Prop} {D : Hold} {s s' : MemState} {a pa : Word} {f : FrameNo} {task : ℕ}

/-- The frame has the entries of the loader, its last one aside. -/
def KernelCopied (m : Phys) (s : MemState) (f : FrameNo) : Prop :=
  ∀ i : Slot, 768 ≤ i.toNat → i.toNat < 1023 → s.phys f i = setupPage m 0x100 i

lemma KernelCopied.kept (h : KernelCopied m s f) (hk : FrameKept s s' f) : KernelCopied m s' f := by
  intro i hlow hhigh
  have hentry := h i hlow hhigh
  rw [hk i (hentry ▸ (setupPage_kernel m hlow hhigh).1), hentry]

/-- Under the active directory the page is mapped to the same frame. -/
lemma NewPage.active (h : NewPage s D a f) (hI : Inside m D s) :
    translate s.phys s.cr3 a = some f := (hI.active.walk_eq hI.kernel h.page).trans h.walk

lemma NewPage.acts {D' : Hold} (h : NewPage s D a f) (hI : Inside m D s)
    (hacts : Acts m D D' s s') (hle : D ≤ D') : NewPage s' D' a f :=
  ⟨h.page, h.aligned, hle.2 h.held, hle.1 h.frame,
    hI.kernel.walk_kept (fun _ hk => hacts.loader hI hk) h.page h.walk⟩

/-- The kernel half of the active directory goes to the new page. -/
lemma obeys_copyKernelEntries (hI : Inside m D s) (hnew : NewPage s D a f) :
    (copyKernelEntries 0xfffff000 a).Obeys (dirsProtocol m lone) (fun s' D' _ => D' = D ∧
      Inside m D s' ∧ NewPage s' D a f ∧ KernelCopied m s' f) s D := by
  refine obeys_modifyOr (plain_copyKernelEntries s _ _) fun s₁ s' h₁ hs => ?_
  have hI₁ := hI.others h₁
  have hnew₁ := hnew.others hI h₁
  rw [hI₁.active.window.translate_last, hnew₁.active hI₁] at hs
  obtain rfl := Option.some.inj hs
  have hacts := Acts.fill (m := m) (s := s₁) (.inr hnew.frame) fun i =>
    if 768 ≤ i.toNat then s₁.phys s₁.cr3 i else s₁.phys f i
  have hI₂ := hacts.inside hI₁
  have hnew₂ := hnew₁.acts hI₁ hacts D.le_refl
  refine ⟨D, hacts, fun s₂ h₂ => ⟨rfl, hI₂.others h₂, hnew₂.others hI₂ h₂, ?_⟩⟩
  refine KernelCopied.kept (fun i hlow hhigh => ?_) (h₂.kept f (.inr (.inr hnew.frame)))
  refine (congrFun (Function.update_self f _ s₁.phys) i).trans ?_
  rw [if_pos hlow, hI₁.active.entries i hlow hhigh]

/-- The new page shows itself in its last entry, and is a directory. -/
lemma obeys_storeLast (hI : Inside m D s) (hnew : NewPage s D a f) (hcopy : KernelCopied m s f)
    (hpa : frameOf pa = f) :
    (storeAt (a + 1023 * 4) (entryOf pa)).Obeys (dirsProtocol m lone) (fun s' D' _ => D' = D ∧
      Inside m D s' ∧ DirMade m s' a f) s D := by
  obtain ⟨hd, ht, hw⟩ := idx_add_offset hnew.aligned (show (1023 * 4 : Word).toNat < 4096 by decide)
  have hwindow : pdeIdx (a + 1023 * 4) ≠ 1023 := by
    rw [hd]
    intro he
    exact absurd hnew.page.2 (by rw [he]; decide)
  refine obeys_modifyOr (plain_storeAt s hwindow) fun s₁ s' h₁ hs => ?_
  have hI₁ := hI.others h₁
  have hnew₁ := hnew.others hI h₁
  have hword : wordIdx (a + 1023 * 4) = 1023 := hw
  simp only [storeWord, translate_congr hd ht, hnew₁.active hI₁, hword, Option.map_some,
    Option.some.injEq] at hs
  subst hs
  have hacts := Acts.fill (m := m) (s := s₁) (.inr hnew.frame)
    (Function.update (s₁.phys f) 1023 (entryOf pa))
  have hI₂ := hacts.inside hI₁
  have hmade : DirMade m { s₁ with phys := writeSlot s₁.phys f 1023 (entryOf pa) } a f := by
    refine ⟨hnew.page, (hnew₁.acts hI₁ hacts D.le_refl).walk, fun i hlow hhigh => ?_, ?_, ?_⟩
    · have hne : i ≠ 1023 := by
        rintro rfl
        exact absurd hhigh (by decide)
      exact (writeSlot_of_slot_ne _ _ hne f).trans
        (hcopy.kept (h₁.kept f (.inr (.inr hnew.frame))) i hlow hhigh)
    · exact (congrArg present (writeSlot_self _ _ _ _)).trans (present_entryOf pa)
    · exact (congrArg frameOf (writeSlot_self _ _ _ _)).trans ((frameOf_entryOf pa).trans hpa)
  exact ⟨D, hacts, fun s₂ h₂ => ⟨rfl, hI₂.others h₂, hmade.others hI₂ hnew.frame h₂⟩⟩

/-- `addr_v2p` gives the frame of the new page. -/
lemma obeys_addrV2p (hI : Inside m D s) (hnew : NewPage s D a f) :
    (addrV2p a).Obeys (dirsProtocol m lone)
      (fun s' D' pa => D' = D ∧ Others lone D s s' ∧ frameOf pa = f) s D := by
  refine obeys_readOr fun s₁ pte h₁ hload => fun s₂ h₂ => ⟨rfl, h₁.trans h₂, ?_⟩
  have hI₁ := hI.others h₁
  have hp := (hI₁.active.table hnew.page).1
  have hwalk := (hnew.others hI h₁).active hI₁
  simp only [loadWord, translate_pteVaddrGet hI₁.active.window hp, wordIdx_pteVaddrGet,
    Option.map_some, Option.some.injEq] at hload
  simp only [translate, hp, if_true, hload] at hwalk
  split_ifs at hwalk
  rw [and_pageMask, frameOf_add_offset]
  exact Option.some.inj hwalk

lemma part_pageDirCreate : CallPart lone m pageDirCreate fun s' D' a =>
    a = 0 ∨ ∃ f ∈ D'.frames, DirMade m s' a f := by
  refine part_kernelPage.bind fun D s a hI hpage => ?_
  split_ifs with h0
  · exact (CallPart.ret 0).post (fun _ _ _ _ h => .inl h) D s hI
  obtain ⟨f, hnew⟩ := hpage.resolve_left h0
  refine Obeys.bind (obeys_copyKernelEntries hI hnew) ?_
  rintro s₁ _ _ ⟨rfl, hI₁, hnew₁, hcopy⟩
  refine Obeys.bind (obeys_addrV2p hI₁ hnew₁) ?_
  rintro s₂ _ pa ⟨rfl, h₂, hpa⟩
  have hI₂ := hI₁.others h₂
  have hnew₂ := hnew₁.others hI₁ h₂
  refine Obeys.bind (obeys_storeLast hI₂ hnew₂
    (hcopy.kept (h₂.kept f (.inr (.inr hnew.frame)))) hpa) ?_
  rintro s₃ _ _ ⟨rfl, hI₃, hmade⟩
  exact fun s₄ h₄ => ⟨hI₃.others h₄, Hold.le_refl _,
    .inr ⟨f, hnew.frame, hmade.others hI₃ hnew.frame h₄⟩⟩

/-- A record of a page that the call holds is written. -/
lemma Acts.setThread {q : Pool} {d : Word} (ht : task ∈ D.pages)
    (hd : d = s.pgDir task ∨ d = 0) :
    Acts m D D s { s with
      pool := Function.update s.pool (.userVir task) q
      pgDir := Function.update s.pgDir task d } := by
  have hpool : ∀ p : PoolId, p.Shared →
      Function.update s.pool (.userVir task) q p = s.pool p := fun p hp =>
    Function.update_of_ne (hp task) _ _
  refine .records ⟨fun p hp => ?_, fun pf i hi => ?_⟩ rfl rfl rfl (fun t _ hD => ?_) fun t => ?_
  · simp only [MemState.btmp, hpool p hp, and_self]
  · simpa only [MemState.btmp, hpool _ (phyPool_physical pf).shared] using hi
  · refine Function.update_of_ne ?_ _ _
    rintro he
    obtain rfl := PoolId.userVir.inj he
    exact hD ht
  · by_cases he : t = task
    · subst he
      simp only [Function.update_self]
      exact hd.imp_right fun h => ⟨ht, h⟩
    · exact .inl (Function.update_of_ne he _ _)

/-- A record is written that no other call has. -/
lemma plain_setThread (s : MemState) (q : MemState → Pool) (d : MemState → ℕ → Word) :
    Plain fun x => some { x with
      pool := Function.update x.pool (.userVir task) (q x)
      pgDir := d x } :=
  plain_modify s (fun _ _ hp => congrArg Pool.btmp (Function.update_of_ne (hp.shared task) _ _))
    fun _ => rfl

lemma obeys_threadInit (hI : Inside m D s) (ht : task = 0 ∨ task ∈ D.pages) :
    (threadInit task).Obeys (dirsProtocol m lone) (fun s' D' _ => D' = D ∧ Inside m D s' ∧
      task ∈ D.pages) s D := by
  unfold OsI386.threadInit
  split_ifs with h0
  · trivial
  have hheld := ht.resolve_left h0
  refine obeys_modify (plain_setThread s _ _) fun s₁ h₁ => ?_
  have hacts := Acts.setThread (m := m) (s := s₁) (q :=
    { btmp := { s₁.btmp (.userVir task) with bitNum := 0, byteLen := 0 }
      btmpBase := 0
      addrBase := 0
      poolSize := 0
      mtx := ⟨none, semInit 0⟩ }) (d := 0) hheld (.inr rfl)
  exact ⟨D, hacts, fun s₂ h₂ => ⟨rfl, (hacts.inside (hI.others h₁)).others h₂, hheld⟩⟩

lemma obeys_userVaddrBitmapCreate (hI : Inside m D s) (ht : task ∈ D.pages) :
    (userVaddrBitmapCreate task).Obeys (dirsProtocol m lone) (Keeps m D fun _ _ _ => True) s D := by
  refine Obeys.bind (part_mallocPage .kernel _ D s hI) ?_
  rintro s₁ D₁ base ⟨hI₁, hle, -⟩
  split_ifs
  · trivial
  refine obeys_modify (plain_setThread s _ _) fun s₂ h₂ => ?_
  have hsame : Function.update s₂.pgDir task (s₂.pgDir task) = s₂.pgDir :=
    Function.update_eq_self _ _
  have hacts := Acts.setThread (m := m) (s := s₂) (q := { s₂.pool (.userVir task) with
    btmp := bitmapInit (s₂.btmp (.userVir task)).bytes
      ((0xc0000000 - userVaddrStart : Word) / 4096).toNat
    btmpBase := base
    addrBase := userVaddrStart }) (d := s₂.pgDir task) (hle.2 ht) (.inl rfl)
  rw [hsame] at hacts
  exact ⟨D₁, hacts, fun s₃ h₃ => ⟨(hacts.inside (hI₁.others h₂)).others h₃, hle, trivial⟩⟩

/-- The directory of the process is one in use from then on, and no longer held. -/
lemma Acts.setDir {d : Word} (ht : task ∈ D.pages) (hf : f ∈ D.frames) (hmade : DirMade m s d f) :
    Acts m D { D with frames := D.frames \ {f} } s
      { s with pgDir := Function.update s.pgDir task d } where
  taken := ⟨fun _ _ => ⟨rfl, rfl⟩, fun _ _ => id⟩
  running := rfl
  cr3 := rfl
  own _ _ _ := rfl
  pgDir t := by
    by_cases he : t = task
    · subst he
      refine .inr ⟨ht, .inr ⟨f, hf, fun h => h.2 rfl, ?_⟩⟩
      simp only [Function.update_self]
      exact ⟨hmade.page, hmade.walk, hmade.half⟩
    · exact .inl (Function.update_of_ne he _ _)
  kept _ _ _ _ _ := rfl
  frames _ h := .inl h.1
  pages _ := .inl

lemma obeys_setDir {d : Word} (hI : Inside m D s) (ht : task ∈ D.pages)
    (hd : d = 0 ∨ ∃ f ∈ D.frames, DirMade m s d f) :
    (modify fun s => { s with pgDir := Function.update s.pgDir task d } : MemProg Unit).Obeys
      (dirsProtocol m lone) (fun _ D' _ => task ∈ D'.pages) s D := by
  refine obeys_modify (plain_modify s (fun _ _ _ => rfl) fun _ => rfl) fun s₁ h₁ => ?_
  rcases hd with rfl | ⟨f, hf, hmade⟩
  · have hacts := Acts.setThread (m := m) (s := s₁) (q := s₁.pool (.userVir task)) (d := 0) ht
      (.inr rfl)
    rw [Function.update_eq_self] at hacts
    exact ⟨D, hacts, fun _ _ => ht⟩
  · exact ⟨_, Acts.setDir ht hf (hmade.others hI hf h₁), fun _ _ => ht⟩

/-- The tcb of the new thread is in a page that the call holds. -/
lemma obeys_threadCreateMemory (hI : Inside m D s) :
    threadCreateMemory.Obeys (dirsProtocol m lone) (fun _ D' a => a.toNat ∈ D'.pages) s D := by
  refine Obeys.bind (part_kernelPage D s hI) ?_
  rintro s₁ D₁ a ⟨hI₁, -, hpage⟩
  have ht : a.toNat = 0 ∨ a.toNat ∈ D₁.pages :=
    hpage.imp (fun h => by rw [h]; rfl) fun ⟨_, h⟩ => h.held
  refine Obeys.bind (obeys_threadInit hI₁ ht) ?_
  rintro s₂ _ _ ⟨rfl, -, hheld⟩
  exact fun _ _ => hheld

lemma obeys_processRunMemory (hI : Inside m D s) :
    processRunMemory.Obeys (dirsProtocol m lone) (fun _ D' a => a.toNat ∈ D'.pages) s D := by
  refine Obeys.bind (part_kernelPage D s hI) ?_
  rintro s₁ D₁ a ⟨hI₁, -, hpage⟩
  have ht : a.toNat = 0 ∨ a.toNat ∈ D₁.pages :=
    hpage.imp (fun h => by rw [h]; rfl) fun ⟨_, h⟩ => h.held
  refine Obeys.bind (obeys_threadInit hI₁ ht) ?_
  rintro s₂ _ _ ⟨rfl, hI₂, hheld⟩
  refine Obeys.bind (obeys_userVaddrBitmapCreate hI₂ hheld) ?_
  rintro s₃ D₃ _ ⟨hI₃, hle₃, -⟩
  refine Obeys.bind (part_pageDirCreate D₃ s₃ hI₃) ?_
  rintro s₄ D₄ d ⟨hI₄, hle₄, hdir⟩
  refine Obeys.bind (obeys_setDir hI₄ (hle₄.2 (hle₃.2 hheld)) hdir) ?_
  exact fun s₅ D₅ _ hmem _ _ => hmem

end Process

section Locks

variable {m : Phys} {lone : Prop} {D : Hold} {s s' : MemState} {p : PoolId} {pf : PoolFlags} {v : Word}

/-- What a mutex guards it does not change. -/
lemma Others.setMtx (D : Hold) (s : MemState) (pf : PoolFlags) (l : Mutex ℕ) :
    Others False D s (s.setMtx (phyPool pf) l) where
  still := False.elim
  taken := by
    refine ⟨fun p _ => ?_, fun pf' i hi => ?_⟩
    · by_cases hp : p = phyPool pf
      · subst hp
        simp [MemState.setMtx, MemState.btmp]
      · simp [MemState.setMtx, MemState.btmp, Function.update_of_ne hp]
    · rwa [setMtx_btmp]
  running := rfl
  cr3 := rfl
  own := Function.update_of_ne ((phyPool_physical pf).shared _).symm _ _
  pgDir := rfl
  kept _ _ _ _ := rfl

lemma Acts.setMtx (m : Phys) (D : Hold) (s : MemState) (pf : PoolFlags) (l : Mutex ℕ) :
    Acts m D D s (s.setMtx (phyPool pf) l) :=
  .records (Others.setMtx D s pf l).taken rfl rfl rfl
    (fun t _ _ => Function.update_of_ne ((phyPool_physical pf).shared t).symm _ _) fun _ => .inl rfl

lemma obeys_mutexLockAt : (mutexLockAt (phyPool pf)).Obeys (dirsProtocol m lone)
    (fun s' D' _ => D' = D ∧ Others False D s s') s D := by
  refine obeys_await (plain_records s (fun x y hxy p _ => ?_) fun x y hxy => ?_)
    fun s₁ s' h₁ hs => ?_
  · split at hxy
    · exact Option.some.inj hxy ▸ setMtx_btmp _ _
    · cases hxy
  · split at hxy
    · exact Option.some.inj hxy ▸ rfl
    · cases hxy
  · split at hs
    · obtain rfl := Option.some.inj hs
      exact ⟨D, Acts.setMtx m D s₁ pf _, fun s₂ h₂ =>
        ⟨rfl, (Others.weaken h₁).trans (.trans (.setMtx D s₁ pf _) (Others.weaken h₂))⟩⟩
    · cases hs

lemma obeys_mutexUnlockAt : (mutexUnlockAt (phyPool pf)).Obeys (dirsProtocol m lone)
    (fun _ _ _ => True) s D := by
  refine obeys_modifyOr (plain_modify s (fun x p _ => ?_) fun x => ?_) fun s₁ s' _ hs => ?_
  · cases mutexUnlock (x.pool (phyPool pf)).mtx with
    | none => rfl
    | some l => exact setMtx_btmp _ _
  · cases mutexUnlock (x.pool (phyPool pf)).mtx <;> rfl
  · obtain ⟨l, -, rfl⟩ := Option.map_eq_some_iff.mp hs
    exact ⟨D, Acts.setMtx m D s₁ pf l.1, fun _ _ => trivial⟩

lemma obeys_userPagesMalloc (pgCnt : ℕ) (hI : Inside m D s) :
    (userPagesMalloc pgCnt).Obeys (dirsProtocol m lone) (fun _ _ _ => True) s D := by
  refine Obeys.bind (@obeys_mutexLockAt m lone D s .user) ?_
  rintro s₁ _ _ ⟨rfl, h₁⟩
  refine Obeys.bind (part_mallocPage .user pgCnt _ s₁ (hI.others h₁)) ?_
  rintro s₂ D₂ a -
  exact Obeys.bind (@obeys_mutexUnlockAt m lone D₂ s₂ .user) fun _ _ _ _ _ _ => trivial

lemma Others.targetInMap (h : Others False D s s') (hin : TargetInMap pf v s) : TargetInMap pf v s' := by
  have hp : VirtualMap s (vaddrPool pf s.running) := by
    cases pf
    · exact .inl rfl
    · exact .inr rfl
  intro hkind
  rw [h.running, h.pgDir] at hkind
  have hbit := hin hkind
  rw [h.running, Bitmap.Holds, h.size hp, MemState.targetBit, h.base hp]
  exact hbit

lemma obeys_targetMalloc (hp : VirtualMap s p) (hI : Inside m D s)
    (hin : (s.btmp p).Holds (s.targetBit p v)) :
    (targetMalloc (phyPool pf) p v).Obeys (dirsProtocol m lone) (fun _ _ _ => True) s D := by
  refine Obeys.bind (Q := fun s' D' _ => D' = D ∧ Inside m D s') ?_ ?_
  · refine (dirs_reads m lone).obeys fun s₁ h₁ => obeys_label ?_
    have hbit : s₁.targetBit p v = s.targetBit p v := by
      rw [MemState.targetBit, MemState.targetBit, Others.base h₁ hp]
    have hin₁ : (s₁.btmp p).Holds (s₁.targetBit p v) := by
      rw [hbit, Bitmap.Holds, Others.size h₁ hp]
      exact hin
    have hp₁ : VirtualMap s₁ p := by rwa [VirtualMap, Others.running h₁]
    refine Obeys.bind (obeys_setBit hp₁ (hI.others h₁) hin₁) ?_
    rintro s₂ _ _ ⟨rfl, hI₂, -⟩
    exact fun s₃ h₃ => ⟨_, rfl, fun s₄ h₄ => ⟨rfl, (hI₂.others h₃).others h₄⟩⟩
  rintro s₁ _ _ ⟨rfl, hI₁⟩
  refine Obeys.bind (part_paddrGet pf _ s₁ hI₁) ?_
  rintro s₂ D₂ a ⟨hI₂, -⟩
  split_ifs
  · exact fun _ _ => trivial
  · refine Obeys.bind (part_v2pMapping v a D₂ s₂ hI₂) ?_
    rintro s₃ D₃ _ -
    exact Obeys.bind obeys_mutexUnlockAt fun _ _ _ _ _ _ => trivial

lemma obeys_targetVaddrMalloc (hI : Inside m D s) (hin : TargetInMap pf v s) :
    (targetVaddrMalloc pf v).Obeys (dirsProtocol m lone) (fun _ _ _ => True) s D := by
  refine (dirs_reads m lone).obeys fun s₁ h₁ => Obeys.bind obeys_mutexLockAt ?_
  rintro s₂ _ _ ⟨rfl, h₂⟩
  refine (dirs_reads m lone).obeys fun s₃ h₃ => ?_
  have h03 := ((Others.weaken h₁).trans h₂).trans (Others.weaken h₃)
  have hI₃ := hI.others h03
  have hin₃ := h03.targetInMap hin
  have hrun : s₃.running = s₁.running := (h₂.trans (Others.weaken h₃)).running
  rw [TargetInMap, hrun] at hin₃
  split_ifs with huser hkernel
  · obtain ⟨hdir, rfl⟩ := huser
    exact obeys_targetMalloc (.inr (by rw [hrun])) hI₃ (hin₃ (iff_of_true hdir rfl))
  · obtain ⟨hdir, rfl⟩ := hkernel
    exact obeys_targetMalloc (.inl rfl) hI₃ (hin₃ (iff_of_false (not_not.mpr hdir) (by decide)))
  · trivial

end Locks

section Calls

variable {m : Phys} {lone : Prop} {s : MemState} {c : OsCall}

/-- The tcb of the thread that a call made is in a page that the call holds. -/
def OsCall.Held (c : OsCall) (D : Hold) (a : Word) : Prop :=
  match c with
  | .threadRun _ => a.toNat ∈ D.pages
  | .mem .processRun => a.toNat ∈ D.pages
  | .mem _ => True

/-- Each call keeps to the protocol, from a state in which it holds nothing. -/
lemma OsCall.obeys_dirs (hI : Inside m ⟨∅, ∅⟩ s) (hin : c.InMap s) :
    c.prog.Obeys (dirsProtocol m lone) (fun _ D a => c.Held D a) s ⟨∅, ∅⟩ := by
  cases c with
  | threadRun prio => exact obeys_threadCreateMemory hI
  | mem c =>
    cases c with
    | kernelPagesMalloc n =>
      exact Obeys.post (part_mallocPage .kernel n _ s hI) fun _ _ _ _ => trivial
    | userPagesMalloc n => exact obeys_userPagesMalloc n hI
    | targetVaddrMalloc pf v => exact obeys_targetVaddrMalloc hI hin
    | processRun => exact obeys_processRunMemory hI

end Calls

end OsI386
