import OsI386.AddressSpace
import OsI386.PageFrames

/-!
# The tables of the loader and the pools of `mem_pool_init`

After `setup_page` and `mem_pool_init` the kernel's directory is an address space in which
nothing is mapped: each region of the kernel heap has a page table below the memory the pools
divide, and the regions of user addresses have none.
-/
namespace OsI386
open Prog TransitionSystem

section Directory

variable (m : Phys)

lemma frameOf_or_flags (x : Word) : frameOf (x ||| 7) = frameOf x := by
  apply BitVec.eq_of_toNat_eq
  rw [toNat_frameOf, toNat_frameOf, BitVec.toNat_or, ← Nat.shiftRight_eq_div_pow,
    ← Nat.shiftRight_eq_div_pow, Nat.shiftRight_or_distrib]
  simp

lemma present_or_flags (x : Word) : present (x ||| 7) = true := by
  rw [present_iff]
  intro h
  have hbit := congrArg (BitVec.getLsbD · 0) h
  simp at hbit

/-- The kernel's entries: tables 0x101000, 0x102000 and so on, from slot 768. -/
lemma setupPage_kernel {i : Slot} (hlow : 768 ≤ i.toNat) (hhigh : i.toNat < 1023) :
    present (setupPage m 0x100 i) = true ∧
      (frameOf (setupPage m 0x100 i)).toNat = 0x101 + (i.toNat - 768) := by
  have hne : i ≠ 1023 := fun h => by simp [h] at hhigh
  by_cases h768 : i = 768
  · subst h768
    have hentry : setupPage m 0x100 768 = 0x101007 := rfl
    rw [hentry]
    decide
  · have hnat : i.toNat ≠ 768 := fun h => h768 (BitVec.eq_of_toNat_eq h)
    have h0 : i ≠ 0 := fun h => by simp [h] at hlow
    have hle : (769 : Slot) ≤ i := by
      change 769 ≤ i.toNat
      omega
    have hentry : setupPage m 0x100 i = (0x102000 + (i - 769).setWidth 32 * 0x1000) ||| 7 := by
      rw [setupPage, if_pos rfl, if_neg (not_or.mpr ⟨h0, h768⟩), if_neg hne, if_pos hle]
    rw [hentry]
    refine ⟨present_or_flags _, ?_⟩
    have hsub : (i - 769).toNat = i.toNat - 769 := BitVec.toNat_sub_of_le hle
    have h1 : (0x102000 : Word).toNat = 0x102000 := rfl
    have h2 : (0x1000 : Word).toNat = 0x1000 := rfl
    rw [frameOf_or_flags, toNat_frameOf, BitVec.toNat_add, BitVec.toNat_mul,
      BitVec.toNat_setWidth, hsub, h1, h2]
    omega

lemma setupPage_user {i : Slot} (hlow : 0 < i.toNat) (hhigh : i.toNat < 768) :
    setupPage m 0x100 i = 0 := by
  have h0 : i ≠ 0 := fun h => by simp [h] at hlow
  have h768 : i ≠ 768 := fun h => by simp [h] at hhigh
  have h1023 : i ≠ 1023 := fun h => by simp [h] at hhigh
  have hle : ¬ (769 : Slot) ≤ i := by
    change ¬ 769 ≤ i.toNat
    omega
  rw [setupPage, if_pos rfl, if_neg (not_or.mpr ⟨h0, h768⟩), if_neg h1023, if_neg hle]

lemma translate_setupPage_user {v : Word} (hlow : 0 < (pdeIdx v).toNat)
    (hhigh : (pdeIdx v).toNat < 768) : translate (setupPage m) 0x100 v = none := by
  have hentry := setupPage_user m hlow hhigh
  simp only [translate, hentry]
  rfl

lemma setupPage_window : Window (setupPage m) 0x100 := by
  have hentry : setupPage m 0x100 1023 = 0x100007 := rfl
  constructor <;> rw [hentry] <;> decide

/-- An entry below the window that is present is one of the kernel's. -/
lemma setupPage_present {i : Slot} (hlow : 0 < i.toNat) (hhigh : i.toNat < 1023)
    (hp : present (setupPage m 0x100 i) = true) :
    (frameOf (setupPage m 0x100 i)).toNat = 0x101 + (i.toNat - 768) ∧ 768 ≤ i.toNat := by
  by_cases h768 : 768 ≤ i.toNat
  · exact ⟨(setupPage_kernel m h768 hhigh).2, h768⟩
  · rw [setupPage_user m hlow (by omega)] at hp
    exact absurd hp (by decide)

lemma tables_setupPage : Tables (setupPage m) 0x100 fun i => 0 < i.toNat ∧ i.toNat < 1023 := by
  constructor
  case window => exact setupPage_window m
  case notWindow =>
    rintro ⟨_, h⟩
    exact absurd h (by decide)
  case notDir =>
    rintro i ⟨hlow, hhigh⟩ hp he
    obtain ⟨hframe, _⟩ := setupPage_present m hlow hhigh hp
    rw [he] at hframe
    change 0x100 = _ at hframe
    omega
  case inj =>
    rintro i j ⟨hilow, hihigh⟩ ⟨hjlow, hjhigh⟩ hpi hpj he
    obtain ⟨hi, hi768⟩ := setupPage_present m hilow hihigh hpi
    obtain ⟨hj, hj768⟩ := setupPage_present m hjlow hjhigh hpj
    apply BitVec.eq_of_toNat_eq
    rw [he] at hi
    omega

/-- The memory the pools divide holds no table of the loader. -/
lemma noTable_setupPage {f : FrameNo} (hf : 0x200 ≤ f.toNat) :
    NoTable (setupPage m) 0x100 (fun i => 0 < i.toNat ∧ i.toNat < 1023) f := by
  constructor
  · rintro rfl
    exact absurd hf (by decide)
  · rintro i ⟨hlow, hhigh⟩ hp rfl
    obtain ⟨hframe, _⟩ := setupPage_present m hlow hhigh hp
    omega

end Directory

section Boot

variable {s : MemState} {allMem : Word}

lemma bootFrame_ge (hinv : PhysInv allMem [] s) {pf : PoolFlags} {i : ℕ}
    (hi : i < (s.btmp (phyPool pf)).bitNum) :
    0x200 ≤ (frameOf (s.pageAddr (phyPool pf) i)).toNat := by
  rw [toNat_frameOf]
  cases pf with
  | kernel =>
    have haddr : (s.pageAddr (phyPool .kernel) i).toNat = _ := hinv.kernelPhy_toNat hi
    rw [haddr]
    omega
  | user =>
    have haddr : (s.pageAddr (phyPool .user) i).toNat = _ := hinv.userPhy_toNat hi
    rw [haddr]
    omega

/-- The two physical pools, at any time. -/
lemma PhysInv.phyPools {tr : List MemLabel} (h21 : 2 ^ 21 ≤ allMem.toNat) (h : PhysInv allMem tr s) :
    PhyPools s := by
  have hlt := allMem.isLt
  have hk : kernelPages allMem = freePages allMem / 2 := rfl
  have hu : userPages allMem = freePages allMem - kernelPages allMem := rfl
  have hf : freePages allMem = (allMem.toNat - 0x200000) / 4096 := rfl
  have hkn : (s.pool .kernelPhy).btmp.bitNum = _ := h.kernelNum
  have hun : (s.pool .userPhy).btmp.bitNum = _ := h.userNum
  have hkb : (s.pool .kernelPhy).addrBase.toNat = 0x200000 := by
    rw [h.kernelBase]
    rfl
  have hub : (s.pool .userPhy).addrBase.toNat = 0x200000 + kernelPages allMem * 4096 := by
    rw [h.userBase, BitVec.toNat_ofNat]
    omega
  constructor
  case shape =>
    intro pf
    cases pf with
    | kernel =>
      change (s.pool .kernelPhy).Shape _
      constructor <;> rw [hkb]
      · intro _
        omega
      · rw [hkn]
        omega
    | user =>
      change (s.pool .userPhy).Shape _
      constructor <;> rw [hub]
      · omega
      · intro _
        omega
      · rw [hun]
        omega
  case apart =>
    left
    rw [hkb, hub, hkn]

/-- The pools `mem_pool_init` makes, next to the running thread's pool of user addresses. -/
lemma geometry_memPoolInit (h21 : 2 ^ 21 ≤ allMem.toNat)
    (htop : kernelPages allMem * 4096 ≤ 0x3fb00000)
    (hbase : (s.pool (.userVir s.running)).addrBase = userVaddrStart)
    (hnum : (s.btmp (.userVir s.running)).bitNum * 4096 ≤ 0xb7fb8000) :
    Geometry (memPoolInit s allMem) := by
  have hlt := allMem.isLt
  have hinv : PhysInv allMem [] (memPoolInit s allMem) := PhysInv.init h21
  have hpools := hinv.phyPools h21
  have hvn : ((memPoolInit s allMem).pool .kernelVir).btmp.bitNum = _ := hinv.kernelNum
  have hvb : ((memPoolInit s allMem).pool .kernelVir).addrBase.toNat = 0xc0100000 := rfl
  have hbn : (s.pool (.userVir s.running)).addrBase.toNat = 0x8048000 := by
    rw [hbase]
    rfl
  change (s.pool (.userVir s.running)).btmp.bitNum * 4096 ≤ _ at hnum
  constructor
  case phy => exact hpools.shape
  case phyApart => exact hpools.apart
  case vir =>
    intro pf
    cases pf with
    | kernel =>
      change ((memPoolInit s allMem).pool .kernelVir).Shape _
      constructor <;> rw [hvb]
      · intro _
        omega
      · rw [hvn]
        omega
    | user =>
      change (s.pool (.userVir s.running)).Shape _
      constructor <;> rw [hbn]
      · intro _
        omega
      · omega
  case virApart =>
    right
    change (s.pool (.userVir s.running)).addrBase.toNat +
      (s.pool (.userVir s.running)).btmp.bitNum * 4096 ≤ _
    rw [hbn, hvb]
    omega

lemma region_boot {i : Slot} (h21 : 2 ^ 21 ≤ allMem.toNat)
    (htop : kernelPages allMem * 4096 ≤ 0x3fb00000)
    (hbase : (s.pool (.userVir s.running)).addrBase = userVaddrStart)
    (hnum : (s.btmp (.userVir s.running)).bitNum * 4096 ≤ 0xb7fb8000)
    (hi : Region (memPoolInit s allMem) i) : 0 < i.toNat ∧ i.toNat < 1023 := by
  have hgeo := geometry_memPoolInit h21 htop hbase hnum
  obtain ⟨pf, j, hj, rfl⟩ := hi
  have hrunning : (memPoolInit s allMem).running = s.running := rfl
  have hshape := hgeo.vir pf
  rw [hrunning] at hshape hj ⊢
  have haddr := toNat_pageAddr hshape (by norm_num) hj
  have hbelow := hshape.below
  have hlow : 0x8048000 ≤
      ((memPoolInit s allMem).pool (vaddrPool pf s.running)).addrBase.toNat := by
    cases pf with
    | kernel => exact show (0x8048000 : ℕ) ≤ 0xc0100000 by norm_num
    | user =>
      change 0x8048000 ≤ (s.pool (.userVir s.running)).addrBase.toNat
      rw [hbase]
      decide
  change j < ((memPoolInit s allMem).pool (vaddrPool pf s.running)).btmp.bitNum at hj
  rw [toNat_pdeIdx, haddr]
  omega

/-- After `setup_page` and `mem_pool_init`, with no entry of the kernel heap present, the
kernel's directory is an address space to allocate in. -/
theorem freshSpace_boot {m : Phys} (h21 : 2 ^ 21 ≤ allMem.toNat)
    (htop : kernelPages allMem * 4096 ≤ 0x3fb00000) (hphys : s.phys = setupPage m)
    (hcr3 : s.cr3 = 0x100) (hbase : (s.pool (.userVir s.running)).addrBase = userVaddrStart)
    (hnum : (s.btmp (.userVir s.running)).bitNum * 4096 ≤ 0xb7fb8000)
    (hempty : ∀ j < kernelPages allMem,
      translate s.phys s.cr3 ((memPoolInit s allMem).pageAddr .kernelVir j) = none) :
    FreshSpace (memPoolInit s allMem) := by
  have hregion := fun i => region_boot (i := i) h21 htop hbase hnum
  have htables : Tables s.phys s.cr3 (Region (memPoolInit s allMem)) := by
    rw [hphys, hcr3]
    exact (tables_setupPage m).mono hregion
  constructor
  case geometry => exact geometry_memPoolInit h21 htop hbase hnum
  case tables => exact htables
  case owned =>
    rintro f ⟨pf, i, hi, rfl⟩
    have hfree := noTable_setupPage m (bootFrame_ge (PhysInv.init h21) hi.1)
    change NoTable s.phys s.cr3 _ _
    rw [hphys, hcr3]
    exact ⟨hfree.1, fun i hi => hfree.2 i (hregion i hi)⟩
  case empty =>
    intro pf j hj
    have hinv : PhysInv allMem [] (memPoolInit s allMem) := PhysInv.init h21
    cases pf with
    | kernel =>
      have hkn : ((memPoolInit s allMem).btmp .kernelVir).bitNum = _ := hinv.kernelNum
      exact hempty j (hkn ▸ hj)
    | user =>
      have haddr := toNat_pageAddr ((geometry_memPoolInit h21 htop hbase hnum).vir .user)
        (by norm_num) hj
      have hbn : ((memPoolInit s allMem).pool
          (vaddrPool .user (memPoolInit s allMem).running)).addrBase.toNat = 0x8048000 := by
        change (s.pool (.userVir s.running)).addrBase.toNat = _
        rw [hbase]
        rfl
      change j < (s.btmp (.userVir s.running)).bitNum at hj
      change translate s.phys s.cr3 _ = none
      rw [hphys, hcr3]
      apply translate_setupPage_user
      · rw [toNat_pdeIdx, haddr, hbn]
        omega
      · rw [toNat_pdeIdx, haddr, hbn]
        omega

/-- The frame at address 0 is no table of the loader either. -/
lemma noTable_null_boot {m : Phys} (h21 : 2 ^ 21 ≤ allMem.toNat)
    (htop : kernelPages allMem * 4096 ≤ 0x3fb00000) (hphys : s.phys = setupPage m)
    (hcr3 : s.cr3 = 0x100) (hbase : (s.pool (.userVir s.running)).addrBase = userVaddrStart)
    (hnum : (s.btmp (.userVir s.running)).bitNum * 4096 ≤ 0xb7fb8000) :
    NoTable (memPoolInit s allMem).phys (memPoolInit s allMem).cr3
      (Region (memPoolInit s allMem)) 0 := by
  change NoTable s.phys s.cr3 _ 0
  rw [hphys, hcr3]
  refine ⟨by decide, fun i hi hp he => ?_⟩
  obtain ⟨hlow, hhigh⟩ := region_boot h21 htop hbase hnum hi
  have hframe := (setupPage_present m hlow hhigh hp).1
  rw [he] at hframe
  change 0 = _ at hframe
  omega

end Boot

end OsI386
