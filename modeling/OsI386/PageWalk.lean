import OsI386.CallEffects

/-!
# The walk of the MMU after `v2p_mapping`

The walk gives the physical address and the rights, those that both entries grant. Nothing is
assumed of the directory but its last entry, so that page tables may be shared and a table may be
the directory itself.
-/
namespace OsI386
open Prog

section Walk

/-- The `RW` bit and the `US` bit. -/
def writable (entry : Word) : Bool := entry &&& 2 != 0

def userMode (entry : Word) : Bool := entry &&& 4 != 0

structure Access where
  addr : Word
  writable : Bool
  user : Bool
  deriving DecidableEq

def walk (m : Phys) (cr3 : FrameNo) (v : Word) : Option Access :=
  let pde := m cr3 (pdeIdx v)
  if present pde then
    let pte := m (frameOf pde) (pteIdx v)
    if present pte then
      some ⟨frameAddr (frameOf pte) + (v &&& 0xfff), writable pde && writable pte,
        userMode pde && userMode pte⟩
    else none
  else none

/-- The entry of page `v` in its page table. -/
def entrySlot (m : Phys) (cr3 : FrameNo) (v : Word) : FrameNo × Slot :=
  (frameOf (m cr3 (pdeIdx v)), pteIdx v)

/-- The walk of `v` reads slot `x`. -/
def WalkReads (m : Phys) (cr3 : FrameNo) (v : Word) (x : FrameNo × Slot) : Prop :=
  (cr3, pdeIdx v) = x ∨ present (m cr3 (pdeIdx v)) = true ∧ entrySlot m cr3 v = x

/-- The slot `v2p_mapping` writes for page `v`, in a table or, without one, in the directory. -/
def mappingSlot (m : Phys) (cr3 : FrameNo) (v : Word) : FrameNo × Slot :=
  if present (m cr3 (pdeIdx v)) then entrySlot m cr3 v else (cr3, pdeIdx v)

variable {m m' : Phys} {cr3 : FrameNo} {v w e : Word} {i : Slot} {f : FrameNo} {x : FrameNo × Slot}

lemma walk_congr (hdir : m' cr3 (pdeIdx w) = m cr3 (pdeIdx w))
    (htable : present (m cr3 (pdeIdx w)) = true → m' (frameOf (m cr3 (pdeIdx w))) (pteIdx w) =
      m (frameOf (m cr3 (pdeIdx w))) (pteIdx w)) : walk m' cr3 w = walk m cr3 w := by
  unfold walk
  dsimp only
  rw [hdir]
  by_cases hp : present (m cr3 (pdeIdx w)) = true
  · rw [if_pos hp, if_pos hp, htable hp]
  · rw [if_neg hp, if_neg hp]

lemma walk_eq_none (h : translate m cr3 v = none) : walk m cr3 v = none := by
  unfold translate at h
  unfold walk
  dsimp only at h ⊢
  split_ifs at h ⊢ <;> rfl

lemma walk_of_entries {pde pte : Word} (hdir : m cr3 (pdeIdx v) = pde) (hp : present pde = true)
    (htable : m (frameOf pde) (pteIdx v) = pte) (hp' : present pte = true) :
    walk m cr3 v = some ⟨frameAddr (frameOf pte) + (v &&& 0xfff), writable pde && writable pte,
      userMode pde && userMode pte⟩ := by
  unfold walk
  dsimp only
  rw [hdir, if_pos hp, htable, if_pos hp']

/-- A write that the walk does not read. -/
lemma walk_writeSlot (h : ¬ WalkReads m cr3 w x) :
    walk (writeSlot m x.1 x.2 e) cr3 w = walk m cr3 w := by
  obtain ⟨hdir, htable⟩ := not_or.mp h
  refine walk_congr ?_ fun hp => ?_
  · exact (writeSlot_apply m x e (cr3, pdeIdx w)).trans (if_neg (Ne.symm hdir))
  · exact (writeSlot_apply m x e (entrySlot m cr3 w)).trans (if_neg fun he => htable ⟨hp, he.symm⟩)

lemma setEntry_self : setEntry m cr3 v e (frameOf (m cr3 (pdeIdx v))) (pteIdx v) = e :=
  writeSlot_self _ _ _ _

/-- The directory entry of a page stays when the entry of the page is set. -/
lemma walk_setEntry (hp : present (m cr3 (pdeIdx v)) = true)
    (hnew : present (m (frameOf (m cr3 (pdeIdx v))) (pteIdx v)) = false) (he : present e = true)
    (hdir : pdeIdx w = pdeIdx v) (hpte : pteIdx w = pteIdx v) :
    walk (setEntry m cr3 v e) cr3 w = some ⟨frameAddr (frameOf e) + (w &&& 0xfff),
      writable (m cr3 (pdeIdx v)) && writable e, userMode (m cr3 (pdeIdx v)) && userMode e⟩ := by
  refine walk_of_entries ?_ hp ?_ he
  · rw [hdir]
    exact setEntry_of_present hnew hp
  · rw [hpte]
    exact setEntry_self

end Walk

section Pages

variable {v w o : Word}

/-- The addresses of a page have its indices. -/
lemma pdeIdx_add (hv : v.toNat % 4096 = 0) (ho : o.toNat < 4096) : pdeIdx (v + o) = pdeIdx v := by
  have hlt := v.isLt
  apply BitVec.eq_of_toNat_eq
  rw [toNat_pdeIdx, toNat_pdeIdx, BitVec.toNat_add]
  omega

lemma pteIdx_add (hv : v.toNat % 4096 = 0) (ho : o.toNat < 4096) : pteIdx (v + o) = pteIdx v := by
  have hlt := v.isLt
  apply BitVec.eq_of_toNat_eq
  rw [toNat_pteIdx, toNat_pteIdx, BitVec.toNat_add]
  omega

lemma offset_add (hv : v.toNat % 4096 = 0) (ho : o.toNat < 4096) : (v + o) &&& 0xfff = o := by
  have hlt := v.isLt
  apply BitVec.eq_of_toNat_eq
  rw [toNat_and_offsetMask, BitVec.toNat_add]
  omega

lemma writable_entryOf (p : Word) : writable (entryOf p) = true := by
  have hbit : (entryOf p &&& 2).getLsbD 1 = true := by simp [entryOf]
  rw [writable, bne_iff_ne]
  intro h
  rw [h] at hbit
  simp at hbit

lemma userMode_entryOf (p : Word) : userMode (entryOf p) = true := by
  have hbit : (entryOf p &&& 4).getLsbD 2 = true := by simp [entryOf]
  rw [userMode, bne_iff_ne]
  intro h
  rw [h] at hbit
  simp at hbit

end Pages

section Mapping

variable {s s' s1 : MemState} {v w o paddr t : Word}

/-- The access that `v2p_mapping` gives: with a page table there already, the rights of its
directory entry, and all rights otherwise. -/
def mappedAccess (s : MemState) (v addr : Word) : Access :=
  let pde := s.phys s.cr3 (pdeIdx v)
  if present pde then ⟨addr, writable pde, userMode pde⟩ else ⟨addr, true, true⟩

/-- The page table of `v` is there, or `paddr_get` has a frame for it that no entry of the
directory points to. -/
def TableSupplied (s : MemState) (v : Word) : Prop :=
  present (s.phys s.cr3 (pdeIdx v)) = true ∨
    ∃ tr s1 t, (paddrGet .kernelPhy).Runs s tr s1 t ∧
      ∀ i, present (s.phys s.cr3 i) = true → frameOf (s.phys s.cr3 i) ≠ frameOf t

/-- Between `s` and `s'` page `v` got mapped to `paddr`: the pages of its region, and those whose
walk does not read the slot that was written, are walked as before. -/
structure WalkMaps (s s' : MemState) (v paddr : Word) : Prop where
  walk : ∀ o : Word, o.toNat < 4096 →
    walk s'.phys s'.cr3 (v + o) = some (mappedAccess s v (paddr + o))
  addrV2p : ∀ o : Word, o.toNat < 4096 → (addrV2p (v + o)).Runs s' [] s' (paddr + o)
  others : ∀ w, pdeIdx w = pdeIdx v ∧ pteIdx w ≠ pteIdx v ∨
      ¬ WalkReads s.phys s.cr3 w (mappingSlot s.phys s.cr3 v) →
    OsI386.walk s'.phys s'.cr3 w = OsI386.walk s.phys s.cr3 w

lemma pdeIdx_ne_window (hlow : v.toNat < 0xffc00000) : pdeIdx v ≠ 1023 := by
  intro h
  have hnat := congrArg BitVec.toNat h
  rw [toNat_pdeIdx] at hnat
  change _ = 1023 at hnat
  omega

/-- `addr_v2p` agrees with the walk. -/
lemma runs_addrV2p_of_walk {access : Access} (hwin : Window s.phys s.cr3)
    (h : walk s.phys s.cr3 v = some access) : (addrV2p v).Runs s [] s access.addr := by
  unfold walk at h
  dsimp only at h
  split_ifs at h with hp hp'
  have hrun := runs_addrV2p (v := v) (f := frameOf (s.phys (frameOf (s.phys s.cr3 (pdeIdx v)))
    (pteIdx v))) hwin (by simp [translate, hp, hp'])
  rw [← Option.some.inj h]
  exact hrun

lemma walkMaps_of_entry {m : Phys} (hv : v.toNat % 4096 = 0) (ha : paddr.toNat % 4096 = 0)
    (hcr3 : s'.cr3 = s.cr3) (hphys : s'.phys = setEntry m s.cr3 v (entryOf paddr))
    (hwin : Window m s.cr3) (hp : present (m s.cr3 (pdeIdx v)) = true)
    (hnew : present (m (frameOf (m s.cr3 (pdeIdx v))) (pteIdx v)) = false)
    (hrights : mappedAccess s v =
      fun addr => ⟨addr, writable (m s.cr3 (pdeIdx v)), userMode (m s.cr3 (pdeIdx v))⟩)
    (hothers : ∀ w, pdeIdx w = pdeIdx v ∧ pteIdx w ≠ pteIdx v ∨
        ¬ WalkReads s.phys s.cr3 w (mappingSlot s.phys s.cr3 v) →
      ¬ WalkReads m s.cr3 w (entrySlot m s.cr3 v) ∧ walk m s.cr3 w = walk s.phys s.cr3 w) :
    WalkMaps s s' v paddr := by
  have hwin' : Window s'.phys s'.cr3 := by
    have hentry := setEntry_of_present (e := entryOf paddr) hnew hwin.present
    rw [hcr3, hphys]
    exact hwin.of_last hentry
  have hwalk : ∀ o : Word, o.toNat < 4096 →
      walk s'.phys s'.cr3 (v + o) = some (mappedAccess s v (paddr + o)) := by
    intro o ho
    rw [hcr3, hphys, walk_setEntry hp hnew (present_entryOf _) (pdeIdx_add hv ho) (pteIdx_add hv ho),
      frameOf_entryOf, frameAddr_frameOf ha, offset_add hv ho, writable_entryOf, userMode_entryOf,
      Bool.and_true, Bool.and_true, hrights]
  refine ⟨hwalk, fun o ho => ?_, fun w hw => ?_⟩
  · have hrun := runs_addrV2p_of_walk hwin' (hwalk o ho)
    rw [hrights] at hrun
    exact hrun
  · obtain ⟨hreads, hsame⟩ := hothers w hw
    rw [hcr3, hphys, ← hsame]
    exact walk_writeSlot hreads

/-- With a page table there. -/
lemma walkMaps_table (hwin : Window s.phys s.cr3) (hv : v.toNat % 4096 = 0)
    (ha : paddr.toNat % 4096 = 0) (hz : translate s.phys s.cr3 v = none)
    (hp : present (s.phys s.cr3 (pdeIdx v)) = true) :
    WalkMaps s { s with phys := setEntry s.phys s.cr3 v (entryOf paddr) } v paddr := by
  have hnew : present (s.phys (frameOf (s.phys s.cr3 (pdeIdx v))) (pteIdx v)) = false := by
    simpa [translate, hp] using hz
  refine walkMaps_of_entry hv ha rfl rfl hwin hp hnew ?_ fun w hw => ⟨?_, rfl⟩
  · funext addr
    exact if_pos hp
  · have hslot : mappingSlot s.phys s.cr3 v = entrySlot s.phys s.cr3 v := if_pos hp
    rw [hslot] at hw
    rcases hw with ⟨hdir, hpte⟩ | hw
    · -- the entry is no directory entry of its own region, which is present
      rintro (he | ⟨-, he⟩)
      · obtain ⟨htable, hidx⟩ := Prod.mk.inj he
        rw [← htable, ← hidx, hdir, hp] at hnew
        exact Bool.false_ne_true hnew.symm
      · exact hpte (Prod.mk.inj he).2
    · exact hw

/-- Without one, the table for it in a frame that no entry of the directory points to. -/
lemma walkMaps_noTable (hwin : Window s.phys s.cr3) (hv : v.toNat % 4096 = 0)
    (hlow : v.toNat < 0xffc00000) (ha : paddr.toNat % 4096 = 0)
    (hp : present (s.phys s.cr3 (pdeIdx v)) = false)
    (hunused : ∀ i, present (s.phys s.cr3 i) = true → frameOf (s.phys s.cr3 i) ≠ frameOf t)
    (hcr3 : s'.cr3 = s.cr3) (hphys : s'.phys =
      setEntry (addTable s.phys s.cr3 (pdeIdx v) (entryOf t)) s.cr3 v (entryOf paddr)) :
    WalkMaps s s' v paddr := by
  have hne : frameOf (entryOf t) ≠ s.cr3 := by
    rw [frameOf_entryOf]
    exact hwin.frame ▸ (hunused 1023 hwin.present).symm
  have hdir := addTable_dir (m := s.phys) (i := pdeIdx v) hne
  have hpde := (hdir (pdeIdx v)).trans (if_pos rfl)
  have hslot : mappingSlot s.phys s.cr3 v = (s.cr3, pdeIdx v) := if_neg (by simp [hp])
  set m := addTable s.phys s.cr3 (pdeIdx v) (entryOf t) with hm
  have htable : m (frameOf (m s.cr3 (pdeIdx v))) = fun _ => 0 := by
    rw [hpde]
    exact addTable_table
  have hwin' : Window m s.cr3 :=
    hwin.of_last ((hdir 1023).trans (if_neg (pdeIdx_ne_window hlow).symm))
  refine walkMaps_of_entry hv ha hcr3 hphys hwin' (hpde ▸ present_entryOf t) ?_ ?_ fun w hw => ?_
  · rw [htable]
    exact not_present_zero
  · funext addr
    have hnot : ¬ present (s.phys s.cr3 (pdeIdx v)) = true := by simp [hp]
    rw [hpde, writable_entryOf, userMode_entryOf]
    exact if_neg hnot
  · rw [hslot] at hw
    by_cases hregion : pdeIdx w = pdeIdx v
    · have hpte : pteIdx w ≠ pteIdx v := by
        rcases hw with hw | hw
        · exact hw.2
        · exact absurd (.inl (by rw [hregion])) hw
      refine ⟨?_, ?_⟩
      · rintro (he | ⟨-, he⟩)
        · refine hne ?_
          rw [(Prod.mk.inj he).1, hpde]
        · exact hpte (Prod.mk.inj he).2
      · have hbefore : translate s.phys s.cr3 w = none := by simp [translate, hregion, hp]
        have hafter : translate m s.cr3 w = none := by simp [translate, hregion, htable]
        rw [walk_eq_none hbefore, walk_eq_none hafter]
    · have hreads := hw.resolve_left fun h => hregion h.1
      have hpdew : m s.cr3 (pdeIdx w) = s.phys s.cr3 (pdeIdx w) :=
        (hdir (pdeIdx w)).trans (if_neg hregion)
      refine ⟨?_, walk_congr hpdew fun hpw => ?_⟩
      · rintro (he | ⟨hpw, he⟩)
        · refine hne ?_
          rw [(Prod.mk.inj he).1, hpde]
        · rw [hpdew] at hpw
          refine hunused _ hpw ?_
          have hframe := (Prod.mk.inj he).1
          rwa [hpdew, hpde, frameOf_entryOf] at hframe
      · by_cases hself : frameOf (s.phys s.cr3 (pdeIdx w)) = s.cr3
        · have hidx : pteIdx w ≠ pdeIdx v := fun hi => hreads (.inr ⟨hpw, Prod.ext hself hi⟩)
          rw [hself, hdir, if_neg hidx]
        · refine congrFun (addTable_other hself ?_) _
          rw [frameOf_entryOf]
          exact hunused _ hpw

/-- `v2p_mapping` without a page table, with any frame for it but the directory's. -/
lemma runs_v2pMapping_absent {tr : List MemLabel} (paddr : Word) (hwin : Window s.phys s.cr3)
    (hp : present (s.phys s.cr3 (pdeIdx v)) = false) (hr : (paddrGet .kernelPhy).Runs s tr s1 t)
    (hne : frameOf t ≠ s.cr3) :
    s1.cr3 = s.cr3 ∧ (v2pMapping v paddr).Runs s (.map v paddr :: tr)
      { s1 with
        phys := setEntry (addTable s.phys s.cr3 (pdeIdx v) (entryOf t)) s.cr3 v (entryOf paddr) }
      () := by
  have hpost := (steady_paddrGet (s := s) .kernelPhy).post
    (Q := fun _ x _ => Steady s x ∧ x.phys = s.phys) fun _ _ _ hI hQ => ⟨hI, hQ.1.1⟩
  obtain ⟨hsteady, hphys⟩ := hpost.runs hr
  have htables : Tables s.phys s.cr3 (· = pdeIdx v) := by
    refine ⟨hwin, ?_, ?_, ?_⟩
    · intro h
      rw [← h, hwin.present] at hp
      contradiction
    · rintro i rfl hpi
      rw [hp] at hpi
      contradiction
    · rintro i j rfl rfl _ _ _
      rfl
  have hfree : NoTable s.phys s.cr3 (· = pdeIdx v) (frameOf t) := by
    refine ⟨hne, ?_⟩
    rintro i rfl hpi
    rw [hp] at hpi
    contradiction
  exact ⟨hsteady.cr3, runs_v2pMapping_noTable paddr htables rfl hp hr hphys hsteady.cr3 hfree⟩

/-- `v2p_mapping` of a page that is not mapped returns. The page then translates to `paddr`, for
the MMU and for `addr_v2p`, and no walk changes that does not read the slot it writes. -/
theorem v2pMapping_walk (hwin : Window s.phys s.cr3) (hv : v.toNat % 4096 = 0)
    (hlow : v.toNat < 0xffc00000) (hz : translate s.phys s.cr3 v = none)
    (ha : paddr.toNat % 4096 = 0) (ht : TableSupplied s v) :
    ∃ tr s', (v2pMapping v paddr).Runs s tr s' () ∧ s'.cr3 = s.cr3 ∧ WalkMaps s s' v paddr := by
  by_cases hp : present (s.phys s.cr3 (pdeIdx v)) = true
  · exact ⟨_, _, runs_v2pMapping_table paddr hwin hp hz, rfl, walkMaps_table hwin hv ha hz hp⟩
  · obtain ⟨tr, s1, t, hr, hunused⟩ := ht.resolve_left hp
    rw [Bool.not_eq_true] at hp
    have hne := hwin.frame ▸ (hunused 1023 hwin.present).symm
    obtain ⟨hcr3, hrun⟩ := runs_v2pMapping_absent paddr hwin hp hr hne
    exact ⟨_, _, hrun, hcr3, walkMaps_noTable hwin hv hlow ha hp hunused hcr3 rfl⟩

end Mapping

section Directories

variable {dir : Slot → Word}

/-- A machine with one free frame for page tables, and directory `dir` in frame 0x100. -/
def directoryMem (dir : Slot → Word) : MemState where
  pool _ := ⟨bitmapInit (fun _ => 0) 1, 0, 0x200000, 0x1000, mutexInit⟩
  phys := fun f => if f = 0x100 then dir else fun _ => 0
  cr3 := 0x100
  running := 0
  pgDir _ := 0

lemma window_directoryMem (h : dir 1023 = 0x100007) :
    Window (directoryMem dir).phys (directoryMem dir).cr3 := by
  have hentry : (directoryMem dir).phys (directoryMem dir).cr3 1023 = 0x100007 := h
  constructor
  · rw [hentry]
    decide
  · rw [hentry]
    rfl

lemma runs_paddrGet_directoryMem (dir : Slot → Word) : ∃ tr s1,
    (paddrGet .kernelPhy).Runs (directoryMem dir) tr s1 0x200000 := by
  have hscan : bitmapScan (bitmapInit (fun _ => 0) 1) 0 1 = 0 := by decide
  have haddr : (directoryMem dir).pageAddr .kernelPhy 0 = 0x200000 := by
    simp [MemState.pageAddr, directoryMem]
  have hin : 0 < ((directoryMem dir).btmp .kernelPhy).bitNum := Nat.one_pos
  have hr := runs_paddrGet_free (s := directoryMem dir) (p := .kernelPhy) (by norm_num) hin hscan
  rw [haddr] at hr
  exact ⟨_, _, hr⟩

/-- The page table of region 0 is not for writing, nor for user mode. -/
def readOnlyRegion : MemState := directoryMem fun i =>
  if i = 1023 then 0x100007 else if i = 0 then 0x101001 else 0

/-- The directory is the page table of region 5, too. -/
def secondWindow : MemState := directoryMem fun i =>
  if i = 1023 ∨ i = 5 then 0x100007 else 0

lemma unused_secondWindow : ∀ i, present (secondWindow.phys secondWindow.cr3 i) = true →
    frameOf (secondWindow.phys secondWindow.cr3 i) ≠ frameOf 0x200000 := by
  intro i hp
  have hentry : secondWindow.phys secondWindow.cr3 i = if i = 1023 ∨ i = 5 then 0x100007 else 0 :=
    rfl
  rw [hentry] at hp ⊢
  split_ifs at hp ⊢
  · decide
  · exact absurd hp (by decide)

theorem v2pMapping_walk_secondWindow :
    ∃ tr s', (v2pMapping 0x1c00000 0x300000).Runs secondWindow tr s' () ∧
      s'.cr3 = secondWindow.cr3 ∧ WalkMaps secondWindow s' 0x1c00000 0x300000 := by
  obtain ⟨tr, s1, hr⟩ := runs_paddrGet_directoryMem _
  exact v2pMapping_walk (window_directoryMem rfl) (by decide) (by decide) (by decide) (by decide)
    (.inr ⟨tr, s1, _, hr, unused_secondWindow⟩)

/-- After every mapping of a page that was not mapped, `P` holds. -/
def MappingGives (P : MemState → MemState → Word → Word → Prop) : Prop :=
  ∀ s v paddr, Window s.phys s.cr3 → v.toNat % 4096 = 0 → v.toNat < 0xffc00000 →
    translate s.phys s.cr3 v = none → paddr.toNat % 4096 = 0 → TableSupplied s v →
    ∀ tr s', (v2pMapping v paddr).Runs s tr s' () → P s s' v paddr

/-- The page can be written, and in user mode. -/
def AllRights (_ s' : MemState) (v paddr : Word) : Prop :=
  ∀ o : Word, o.toNat < 4096 → walk s'.phys s'.cr3 (v + o) = some ⟨paddr + o, true, true⟩

/-- The pages with another entry in a page table are walked as before. -/
def OthersKept (s s' : MemState) (v _ : Word) : Prop :=
  ∀ w, w.toNat < 0xffc00000 → (pdeIdx w, pteIdx w) ≠ (pdeIdx v, pteIdx v) →
    ¬ (present (s'.phys s'.cr3 (pdeIdx w)) = true ∧
      entrySlot s'.phys s'.cr3 w = entrySlot s'.phys s'.cr3 v) →
    walk s'.phys s'.cr3 w = walk s.phys s.cr3 w

theorem v2pMapping_rights : ¬ MappingGives AllRights ∧ ¬ MappingGives OthersKept := by
  constructor
  · intro h
    have hwin : Window readOnlyRegion.phys readOnlyRegion.cr3 := window_directoryMem rfl
    have hrun := runs_v2pMapping_table (v := 0) 0x300000 hwin (by decide) (by decide)
    have hwalk := h _ _ _ hwin (by decide) (by decide) (by decide) (by decide)
      (.inl (by decide)) _ _ hrun 0 (by decide)
    revert hwalk
    decide
  · intro h
    have hwin : Window secondWindow.phys secondWindow.cr3 := window_directoryMem rfl
    obtain ⟨tr, s1, hr⟩ := runs_paddrGet_directoryMem fun i =>
      if i = 1023 ∨ i = 5 then 0x100007 else 0
    obtain ⟨hcr3, hrun⟩ := runs_v2pMapping_absent (v := 0x1c00000) 0x300000 hwin (by decide) hr
      (by decide)
    have hkept := h _ _ _ hwin (by decide) (by decide) (by decide) (by decide)
      (.inr ⟨tr, s1, _, hr, unused_secondWindow⟩) _ _ hrun 0x1407000 (by decide) (by decide)
    dsimp only at hkept
    rw [hcr3] at hkept
    revert hkept
    decide

end Directories

end OsI386
