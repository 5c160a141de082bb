import OsI386.MappingRuns

/-!
# Allocations in one address space

The pools divide addresses into pages, the directory has a window and a page table for each
region, and no page table is a free frame. Each mapping then maps one page to the frame just
taken and leaves all other pages of the pools as they were.
-/
namespace OsI386
open Prog

section Pools

/-- The pages of a pool lie below `top`, and none of them is at address 0. -/
structure Pool.Shape (p : Pool) (top : ℕ) : Prop where
  aligned : p.addrBase.toNat % 4096 = 0
  nonzero : 0 < p.btmp.bitNum → 0 < p.addrBase.toNat
  below : p.addrBase.toNat + p.btmp.bitNum * 4096 ≤ top

def Pool.Apart (p q : Pool) : Prop :=
  p.addrBase.toNat + p.btmp.bitNum * 4096 ≤ q.addrBase.toNat ∨
    q.addrBase.toNat + q.btmp.bitNum * 4096 ≤ p.addrBase.toNat

variable {s s' : MemState} {p q : PoolId} {top i j : ℕ}

lemma Pool.Shape.bitNum_le {p : Pool} (h : p.Shape top) (ht : top ≤ 2 ^ 32) :
    p.btmp.bitNum ≤ 2 ^ 31 := by
  have := h.below
  omega

lemma toNat_pageAddr (h : (s.pool p).Shape top) (ht : top ≤ 2 ^ 32)
    (hi : i < (s.btmp p).bitNum) :
    (s.pageAddr p i).toNat = (s.pool p).addrBase.toNat + i * 4096 := by
  have hb := h.below
  change i < (s.pool p).btmp.bitNum at hi
  rw [MemState.pageAddr, BitVec.toNat_add, BitVec.toNat_ofNat]
  omega

lemma aligned_pageAddr (h : (s.pool p).Shape top) (ht : top ≤ 2 ^ 32)
    (hi : i < (s.btmp p).bitNum) : (s.pageAddr p i).toNat % 4096 = 0 := by
  have := h.aligned
  rw [toNat_pageAddr h ht hi]
  omega

lemma pageAddr_ne_zero (h : (s.pool p).Shape top) (ht : top ≤ 2 ^ 32)
    (hi : i < (s.btmp p).bitNum) : s.pageAddr p i ≠ 0 := by
  intro hz
  have hnat := congrArg BitVec.toNat hz
  have hpos := h.nonzero (Nat.zero_lt_of_lt hi)
  rw [toNat_pageAddr h ht hi] at hnat
  change _ = 0 at hnat
  omega

lemma pageAddr_inj (h : (s.pool p).Shape top) (ht : top ≤ 2 ^ 32)
    (hi : i < (s.btmp p).bitNum) (hj : j < (s.btmp p).bitNum)
    (he : s.pageAddr p i = s.pageAddr p j) : i = j := by
  have hnat := congrArg BitVec.toNat he
  rw [toNat_pageAddr h ht hi, toNat_pageAddr h ht hj] at hnat
  omega

lemma pageAddr_ne (hp : (s.pool p).Shape top) (hq : (s.pool q).Shape top) (ht : top ≤ 2 ^ 32)
    (ha : (s.pool p).Apart (s.pool q)) (hi : i < (s.btmp p).bitNum)
    (hj : j < (s.btmp q).bitNum) : s.pageAddr p i ≠ s.pageAddr q j := by
  intro he
  have hnat := congrArg BitVec.toNat he
  rw [toNat_pageAddr hp ht hi, toNat_pageAddr hq ht hj] at hnat
  change i < (s.pool p).btmp.bitNum at hi
  change j < (s.pool q).btmp.bitNum at hj
  rcases ha with ha | ha <;> omega

/-- The two pools physical memory is divided into. -/
structure PhyPools (s : MemState) : Prop where
  shape : ∀ pf, (s.pool (phyPool pf)).Shape (2 ^ 32)
  apart : (s.pool .kernelPhy).Apart (s.pool .userPhy)

/-- The pools an address space allocates from. -/
structure Geometry (s : MemState) : Prop where
  phy : ∀ pf, (s.pool (phyPool pf)).Shape (2 ^ 32)
  phyApart : (s.pool .kernelPhy).Apart (s.pool .userPhy)
  vir : ∀ pf, (s.pool (vaddrPool pf s.running)).Shape 0xffc00000
  virApart : (s.pool .kernelVir).Apart (s.pool (.userVir s.running))

/-- Everything but bits and memory is the same. -/
structure SameShape (s s' : MemState) : Prop where
  running : s'.running = s.running
  cr3 : s'.cr3 = s.cr3
  bitNum : ∀ p, (s'.btmp p).bitNum = (s.btmp p).bitNum
  addrBase : ∀ p, (s'.pool p).addrBase = (s.pool p).addrBase

lemma SameShape.refl (s : MemState) : SameShape s s := ⟨rfl, rfl, fun _ => rfl, fun _ => rfl⟩

lemma SameShape.trans {s'' : MemState} (h : SameShape s s') (g : SameShape s' s'') :
    SameShape s s'' where
  running := g.running.trans h.running
  cr3 := g.cr3.trans h.cr3
  bitNum p := (g.bitNum p).trans (h.bitNum p)
  addrBase p := (g.addrBase p).trans (h.addrBase p)

lemma SameShape.setBtmp {b : Bitmap} (hb : b.bitNum = (s.btmp p).bitNum) :
    SameShape s (s.setBtmp p b) where
  running := rfl
  cr3 := rfl
  bitNum q := by
    by_cases hq : q = p
    · rw [hq, setBtmp_btmp_self, hb]
    · rw [setBtmp_btmp_of_ne b hq]
  addrBase q := setBtmp_addrBase b

lemma SameShape.phys (m : Phys) : SameShape s { s with phys := m } :=
  ⟨rfl, rfl, fun _ => rfl, fun _ => rfl⟩

lemma SameShape.pageAddr (h : SameShape s s') (p : PoolId) (i : ℕ) :
    s'.pageAddr p i = s.pageAddr p i := by
  rw [MemState.pageAddr, h.addrBase, MemState.pageAddr]

lemma SameShape.shape (h : SameShape s s') (hp : (s.pool p).Shape top) :
    (s'.pool p).Shape top := by
  have hb : (s'.pool p).btmp.bitNum = (s.pool p).btmp.bitNum := h.bitNum p
  constructor
  · rw [h.addrBase]
    exact hp.aligned
  · rw [h.addrBase, hb]
    exact hp.nonzero
  · rw [h.addrBase, hb]
    exact hp.below

lemma SameShape.apart (h : SameShape s s') (ha : (s.pool p).Apart (s.pool q)) :
    (s'.pool p).Apart (s'.pool q) := by
  have hb : ∀ r, (s'.pool r).btmp.bitNum = (s.pool r).btmp.bitNum := h.bitNum
  unfold Pool.Apart at ha ⊢
  rwa [h.addrBase, h.addrBase, hb, hb]

lemma SameShape.geometry (h : SameShape s s') (hg : Geometry s) : Geometry s' where
  phy pf := h.shape (hg.phy pf)
  phyApart := h.apart hg.phyApart
  vir pf := by
    rw [h.running]
    exact h.shape (hg.vir pf)
  virApart := by
    rw [h.running]
    exact h.apart hg.virApart

lemma Geometry.phyPools (h : Geometry s) : PhyPools s := ⟨h.phy, h.phyApart⟩

/-- Different bits of the physical pools stand for different frames. -/
lemma PhyPools.inj (h : PhyPools s) {pf pf' : PoolFlags}
    (hi : i < (s.btmp (phyPool pf)).bitNum) (hj : j < (s.btmp (phyPool pf')).bitNum)
    (he : s.pageAddr (phyPool pf) i = s.pageAddr (phyPool pf') j) : pf = pf' ∧ i = j := by
  cases pf <;> cases pf'
  case kernel.kernel => exact ⟨rfl, pageAddr_inj (h.shape .kernel) le_rfl hi hj he⟩
  case user.user => exact ⟨rfl, pageAddr_inj (h.shape .user) le_rfl hi hj he⟩
  case kernel.user =>
    exact absurd he (pageAddr_ne (h.shape .kernel) (h.shape .user) le_rfl h.apart hi hj)
  case user.kernel =>
    exact absurd he.symm (pageAddr_ne (h.shape .kernel) (h.shape .user) le_rfl h.apart hj hi)

lemma PhyPools.frame_inj (h : PhyPools s) {pf pf' : PoolFlags}
    (hi : i < (s.btmp (phyPool pf)).bitNum) (hj : j < (s.btmp (phyPool pf')).bitNum)
    (he : frameOf (s.pageAddr (phyPool pf) i) = frameOf (s.pageAddr (phyPool pf') j)) :
    pf = pf' ∧ i = j := by
  have haddr := congrArg frameAddr he
  rw [frameAddr_frameOf (aligned_pageAddr (h.shape pf) le_rfl hi),
    frameAddr_frameOf (aligned_pageAddr (h.shape pf') le_rfl hj)] at haddr
  exact h.inj hi hj haddr

/-- Different bits of the virtual pools stand for different pages. -/
lemma Geometry.vir_inj (h : Geometry s) {pf pf' : PoolFlags}
    (hi : i < (s.btmp (vaddrPool pf s.running)).bitNum)
    (hj : j < (s.btmp (vaddrPool pf' s.running)).bitNum)
    (he : s.pageAddr (vaddrPool pf s.running) i = s.pageAddr (vaddrPool pf' s.running) j) :
    pf = pf' ∧ i = j := by
  have ht : (0xffc00000 : ℕ) ≤ 2 ^ 32 := by norm_num
  cases pf <;> cases pf'
  case kernel.kernel => exact ⟨rfl, pageAddr_inj (h.vir .kernel) ht hi hj he⟩
  case user.user => exact ⟨rfl, pageAddr_inj (h.vir .user) ht hi hj he⟩
  case kernel.user =>
    exact absurd he (pageAddr_ne (h.vir .kernel) (h.vir .user) ht h.virApart hi hj)
  case user.kernel =>
    exact absurd he.symm (pageAddr_ne (h.vir .kernel) (h.vir .user) ht h.virApart hj hi)

end Pools

section Space

def FreeFrame (s : MemState) (f : FrameNo) : Prop :=
  ∃ pf i, FreeBit (s.btmp (phyPool pf)) i ∧ f = frameOf (s.pageAddr (phyPool pf) i)

/-- An address `paddr_get` may have returned. -/
def TakenFrame (s : MemState) (a : Word) : Prop :=
  ∃ pf, ∃ i < (s.btmp (phyPool pf)).bitNum,
    (s.btmp (phyPool pf)).bit i = true ∧ a = s.pageAddr (phyPool pf) i

variable {s : MemState}

lemma PhyPools.not_freeFrame_zero (h : PhyPools s) : ¬ FreeFrame s 0 := by
  rintro ⟨pf, i, hi, he⟩
  have hne := pageAddr_ne_zero (h.shape pf) le_rfl hi.1
  have haddr := frameAddr_frameOf (aligned_pageAddr (h.shape pf) le_rfl hi.1)
  rw [← he] at haddr
  exact hne haddr.symm

/-- The regions `R` are mapped through tables of their own, no free frame is one of them, and
the pages `U` are not mapped. -/
structure AddressSpace (s : MemState) (R : Slot → Prop) (U : Word → Prop) : Prop where
  geometry : Geometry s
  tables : Tables s.phys s.cr3 R
  owned : ∀ f, FreeFrame s f → NoTable s.phys s.cr3 R f
  unmapped : ∀ v, U v → R (pdeIdx v) ∧ v.toNat % 4096 = 0 ∧ translate s.phys s.cr3 v = none

variable {s' : MemState} {R : Slot → Prop} {U V : Word → Prop} {pf : PoolFlags} {i : ℕ}

lemma AddressSpace.weaken {S : Slot → Prop} (h : AddressSpace s R U) (hs : ∀ i, S i → R i)
    (hv : ∀ v, V v → U v ∧ S (pdeIdx v)) : AddressSpace s S V where
  geometry := h.geometry
  tables := h.tables.mono hs
  owned f hf := ⟨(h.owned f hf).1, fun i hi => (h.owned f hf).2 i (hs i hi)⟩
  unmapped v hU := ⟨(hv v hU).2, (h.unmapped v (hv v hU).1).2⟩

lemma AddressSpace.mono (h : AddressSpace s R U) (hv : ∀ v, V v → U v) : AddressSpace s R V :=
  h.weaken (fun _ => id) fun v hV => ⟨hv v hV, (h.unmapped v (hv v hV)).1⟩

/-- Setting bits of virtual pools. -/
lemma AddressSpace.setBtmp_vir (h : AddressSpace s R U) {p : PoolId} {b : Bitmap}
    (hp : ∀ pf, phyPool pf ≠ p) (hb : b.bitNum = (s.btmp p).bitNum) :
    AddressSpace (s.setBtmp p b) R U where
  geometry := (SameShape.setBtmp hb).geometry h.geometry
  tables := h.tables
  owned := by
    rintro f ⟨pf, i, hfree, rfl⟩
    rw [setBtmp_btmp_of_ne b (hp pf)] at hfree
    rw [(SameShape.setBtmp hb).pageAddr]
    exact h.owned _ ⟨pf, i, hfree, rfl⟩
  unmapped := h.unmapped

/-- The state after `paddr_get` has set the bit. -/
def MemState.takeFrame (s : MemState) (pf : PoolFlags) (i : ℕ) : MemState :=
  s.setBtmp (phyPool pf) (bitmapSet (s.btmp (phyPool pf)) i)

lemma takeFrame_sameShape (s : MemState) (pf : PoolFlags) (i : ℕ) :
    SameShape s (s.takeFrame pf i) := SameShape.setBtmp (bitmapSet_bitNum _ i)

lemma takeFrame_bit (s : MemState) (pf pf' : PoolFlags) (i j : ℕ) :
    ((s.takeFrame pf i).btmp (phyPool pf')).bit j =
      (decide (pf' = pf ∧ j = i) || (s.btmp (phyPool pf')).bit j) := by
  by_cases hpf : pf' = pf
  · subst hpf
    simp [MemState.takeFrame]
  · have hne : phyPool pf' ≠ phyPool pf := by
      cases pf <;> cases pf' <;> simp_all [phyPool]
    simp [MemState.takeFrame, setBtmp_btmp_of_ne _ hne, hpf]

lemma takeFrame_vir (s : MemState) (pf pf' : PoolFlags) (i t : ℕ) :
    (s.takeFrame pf i).btmp (vaddrPool pf' t) = s.btmp (vaddrPool pf' t) := by
  apply setBtmp_btmp_of_ne
  cases pf <;> cases pf' <;> simp [phyPool, vaddrPool]

/-- The frame taken is free no more; all others are as they were. -/
lemma freeFrame_takeFrame (hg : PhyPools s) (hi : FreeBit (s.btmp (phyPool pf)) i)
    {f : FrameNo} : FreeFrame (s.takeFrame pf i) f ↔
      FreeFrame s f ∧ f ≠ frameOf (s.pageAddr (phyPool pf) i) := by
  have hsame := takeFrame_sameShape s pf i
  constructor
  · rintro ⟨pf', j, ⟨hj, hbit⟩, rfl⟩
    rw [hsame.bitNum] at hj
    rw [takeFrame_bit] at hbit
    rw [hsame.pageAddr]
    obtain ⟨hne, hclear⟩ : ¬ (pf' = pf ∧ j = i) ∧ (s.btmp (phyPool pf')).bit j = false := by
      simpa only [Bool.or_eq_false_iff, decide_eq_false_iff_not] using hbit
    exact ⟨⟨pf', j, ⟨hj, hclear⟩, rfl⟩, fun he => hne (hg.frame_inj hj hi.1 he)⟩
  · rintro ⟨⟨pf', j, hfree, rfl⟩, hne⟩
    have hbit : ¬ (pf' = pf ∧ j = i) := fun ⟨hp, hj⟩ => hne (by rw [hp, hj])
    refine ⟨pf', j, ⟨?_, ?_⟩, by rw [hsame.pageAddr]⟩
    · rw [hsame.bitNum]
      exact hfree.1
    · rw [takeFrame_bit, hfree.2, decide_eq_false hbit]
      rfl

lemma AddressSpace.takeFrame (h : AddressSpace s R U) (hi : FreeBit (s.btmp (phyPool pf)) i) :
    AddressSpace (s.takeFrame pf i) R U where
  geometry := (takeFrame_sameShape s pf i).geometry h.geometry
  tables := h.tables
  owned f hf := h.owned f ((freeFrame_takeFrame h.geometry.phyPools hi).mp hf).1
  unmapped := h.unmapped

lemma TakenFrame.takeFrame {a : Word} (h : TakenFrame s a) (pf : PoolFlags) (i : ℕ) :
    TakenFrame (s.takeFrame pf i) a := by
  obtain ⟨pf', j, hj, hbit, rfl⟩ := h
  have hsame := takeFrame_sameShape s pf i
  refine ⟨pf', j, ?_, ?_, (hsame.pageAddr _ j).symm⟩
  · rwa [hsame.bitNum]
  · rw [takeFrame_bit, hbit, Bool.or_true]

lemma takenFrame_takeFrame (hi : FreeBit (s.btmp (phyPool pf)) i) :
    TakenFrame (s.takeFrame pf i) (s.pageAddr (phyPool pf) i) := by
  have hsame := takeFrame_sameShape s pf i
  refine ⟨pf, i, ?_, ?_, (hsame.pageAddr _ i).symm⟩
  · rw [hsame.bitNum]
    exact hi.1
  · simp [takeFrame_bit]

/-- A frame that is taken was not free. -/
lemma TakenFrame.ne_free {a : Word} (hg : PhyPools s) (h : TakenFrame s a)
    (hi : FreeBit (s.btmp (phyPool pf)) i) : a ≠ s.pageAddr (phyPool pf) i := by
  obtain ⟨pf', j, hj, hbit, rfl⟩ := h
  intro he
  obtain ⟨rfl, rfl⟩ := hg.inj hj hi.1 he
  rw [hi.2] at hbit
  exact Bool.false_ne_true hbit

/-- `paddr_get` in an address space: it never returns the address 0 for a free frame. -/
lemma AddressSpace.paddrGet_cases (h : AddressSpace s R U) (pf : PoolFlags) :
    (∃ i, FreeBit (s.btmp (phyPool pf)) i ∧ s.pageAddr (phyPool pf) i ≠ 0 ∧
      (paddrGet (phyPool pf)).Runs s
        [.scan (phyPool pf), .frame (phyPool pf) (s.pageAddr (phyPool pf) i)]
        (s.takeFrame pf i) (s.pageAddr (phyPool pf) i)) ∨
    (∀ i, ¬ FreeBit (s.btmp (phyPool pf)) i) ∧
      (paddrGet (phyPool pf)).Runs s [.scan (phyPool pf), .noFrame (phyPool pf)] s 0 := by
  have hshape := h.geometry.phy pf
  rcases OsI386.paddrGet_cases (hshape.bitNum_le le_rfl) with ⟨i, hi, hr⟩ | hnone
  · exact .inl ⟨i, hi, pageAddr_ne_zero hshape le_rfl hi.1, hr⟩
  · exact .inr hnone

end Space

section Mapping

variable {s s' : MemState} {R : Slot → Prop} {U : Word → Prop} {v a : Word}

lemma AddressSpace.addTable {i : Slot} {e : Word} (h : AddressSpace s R U) (hi : R i)
    (hnew : present (s.phys s.cr3 i) = false) (hf : NoTable s.phys s.cr3 R (frameOf e))
    (htaken : ¬ FreeFrame s (frameOf e)) :
    AddressSpace { s with phys := addTable s.phys s.cr3 i e } R U where
  geometry := (SameShape.phys _).geometry h.geometry
  tables := h.tables.addTable hi hf
  owned f hfree := (h.owned f hfree).addTable hf.1 fun he => htaken (he ▸ hfree)
  unmapped v hv := by
    obtain ⟨hR, ha, hw⟩ := h.unmapped v hv
    exact ⟨hR, ha, by rw [← hw]; exact h.tables.translate_addTable hnew hf hR⟩

lemma AddressSpace.setEntry {e : Word} (h : AddressSpace s R U) (hv : U v)
    (hp : present (s.phys s.cr3 (pdeIdx v)) = true) (he : present e = true) :
    AddressSpace { s with phys := setEntry s.phys s.cr3 v e } R fun w => U w ∧ w ≠ v where
  geometry := (SameShape.phys _).geometry h.geometry
  tables := h.tables.setEntry (h.unmapped v hv).1 hp
  owned f hfree := h.tables.noTable_setEntry (h.unmapped v hv).1 hp (h.owned f hfree)
  unmapped w hw := by
    obtain ⟨hR, ha, hnone⟩ := h.unmapped w hw.1
    obtain ⟨hRv, hav, _⟩ := h.unmapped v hv
    refine ⟨hR, ha, ?_⟩
    rw [← hnone]
    exact (h.tables.translate_setEntry hRv hp he hR hav ha).trans (if_neg hw.2)

/-- On the pages of the regions, the translations of `s'` are those of `s` updated at `v`. -/
structure MapsPage (s s' : MemState) (R : Slot → Prop) (v a : Word) : Prop where
  same : SameShape s s'
  vir : ∀ pf t, s'.btmp (vaddrPool pf t) = s.btmp (vaddrPool pf t)
  taken : ∀ b, TakenFrame s b → TakenFrame s' b
  walk : ∀ w, R (pdeIdx w) → w.toNat % 4096 = 0 → translate s'.phys s'.cr3 w =
    if w = v then some (frameOf a) else translate s.phys s.cr3 w

/-- `v2p_mapping` where the region has its page table. -/
lemma AddressSpace.map_table (h : AddressSpace s R U) (hv : U v)
    (hp : present (s.phys s.cr3 (pdeIdx v)) = true) :
    AddressSpace { s with phys := OsI386.setEntry s.phys s.cr3 v (entryOf a) } R
        (fun w => U w ∧ w ≠ v) ∧
      MapsPage s { s with phys := OsI386.setEntry s.phys s.cr3 v (entryOf a) } R v a := by
  obtain ⟨hRv, hav, _⟩ := h.unmapped v hv
  refine ⟨h.setEntry hv hp (present_entryOf a), SameShape.phys _, fun _ _ => rfl,
    fun _ hb => hb, fun w hw ha => ?_⟩
  rw [← frameOf_entryOf a]
  exact h.tables.translate_setEntry hRv hp (present_entryOf a) hw hav ha

/-- `v2p_mapping` after it has added the page table `t`. -/
lemma AddressSpace.map_noTable {t : Word} (h : AddressSpace s R U) (hv : U v)
    (hnew : present (s.phys s.cr3 (pdeIdx v)) = false)
    (hf : NoTable s.phys s.cr3 R (frameOf t)) (htaken : ¬ FreeFrame s (frameOf t)) :
    let m := OsI386.addTable s.phys s.cr3 (pdeIdx v) (entryOf t)
    AddressSpace { s with phys := OsI386.setEntry m s.cr3 v (entryOf a) } R
        (fun w => U w ∧ w ≠ v) ∧
      MapsPage s { s with phys := OsI386.setEntry m s.cr3 v (entryOf a) } R v a := by
  obtain ⟨hRv, hav, _⟩ := h.unmapped v hv
  rw [← frameOf_entryOf t] at hf htaken
  have hadd := h.addTable hRv hnew hf htaken
  have hp : present (OsI386.addTable s.phys s.cr3 (pdeIdx v) (entryOf t) s.cr3 (pdeIdx v)) =
      true := by
    rw [addTable_dir hf.1, if_pos rfl, present_entryOf]
  obtain ⟨hspace, hmaps⟩ := hadd.map_table (a := a) hv hp
  refine ⟨hspace, SameShape.phys _, fun _ _ => rfl, fun _ hb => hb, fun w hw ha => ?_⟩
  rw [hmaps.walk w hw ha]
  simp only [h.tables.translate_addTable hnew hf hw]

end Mapping

section Start

/-- The regions of the pools a thread allocates virtual addresses from. -/
def Region (s : MemState) (i : Slot) : Prop :=
  ∃ pf, ∃ j < (s.btmp (vaddrPool pf s.running)).bitNum,
    pdeIdx (s.pageAddr (vaddrPool pf s.running) j) = i

/-- An address space with nothing mapped in the virtual pools. -/
structure FreshSpace (s : MemState) : Prop where
  geometry : Geometry s
  tables : Tables s.phys s.cr3 (Region s)
  owned : ∀ f, FreeFrame s f → NoTable s.phys s.cr3 (Region s) f
  empty : ∀ pf, ∀ j < (s.btmp (vaddrPool pf s.running)).bitNum,
    translate s.phys s.cr3 (s.pageAddr (vaddrPool pf s.running) j) = none

end Start

end OsI386
