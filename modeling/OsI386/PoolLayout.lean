import OsI386.PageFrames

/-!
# Where `mem_pool_init` puts the bitmaps

The bitmaps follow each other from 0xc009a000 on, and the page with the tcb and the stack of the
boot thread begins at 0xc009e000. Three quarters of a bit per page of memory have to fit between.
-/
namespace OsI386

/-- The bytes `bitmap_init` clears. -/
def Pool.bitmapRange (p : Pool) : Set ℕ :=
  Set.Ico p.btmpBase.toNat (p.btmpBase.toNat + p.btmp.byteLen)

/-- The bitmaps are apart and below the boot thread, and the heap ends below the window of page
tables. -/
structure SoundLayout (s : MemState) : Prop where
  kernelUser : Disjoint (s.pool .kernelPhy).bitmapRange (s.pool .userPhy).bitmapRange
  kernelHeap : Disjoint (s.pool .kernelPhy).bitmapRange (s.pool .kernelVir).bitmapRange
  userHeap : Disjoint (s.pool .userPhy).bitmapRange (s.pool .kernelVir).bitmapRange
  inside : ∀ p ∈ [PoolId.kernelPhy, .userPhy, .kernelVir],
    (s.pool p).bitmapRange ⊆ Set.Ico 0xc009a000 0xc009e000
  heapStart : (s.pool .kernelVir).addrBase = kHeapStart
  heapSize : (s.pool .kernelVir).poolSize.toNat = (s.pool .kernelVir).btmp.bitNum * 4096
  heapEnd : kHeapStart.toNat + (s.pool .kernelVir).poolSize.toNat ≤ 0xffc00000

section Layout

variable {allMem : Word} {s : MemState} {w : Word}

lemma toNat_btmpBytesLen4pages : (btmpBytesLen4pages w).toNat = bitNum2ByteLen w.toNat := by
  have h8 : (8 : Word).toNat = 8 := rfl
  have h1 : (1 : Word).toNat = 1 := rfl
  have hmod : w % 8 = 0 ↔ w.toNat % 8 = 0 := by
    rw [← BitVec.toNat_inj, BitVec.toNat_umod, h8]
    rfl
  have hlt := w.isLt
  unfold btmpBytesLen4pages bitNum2ByteLen
  by_cases h0 : w.toNat % 8 = 0
  · rw [if_pos (hmod.mpr h0), if_neg (not_not.mpr h0), BitVec.toNat_udiv, h8]
  · rw [if_neg (mt hmod.mp h0), if_pos h0, BitVec.toNat_add, BitVec.toNat_udiv, h8, h1]
    omega

lemma bitNum2ByteLen_bounds (n : ℕ) : n ≤ 8 * bitNum2ByteLen n ∧ 8 * bitNum2ByteLen n ≤ n + 7 := by
  unfold bitNum2ByteLen
  split_ifs <;> omega

lemma pages_le (allMem : Word) : kernelPages allMem ≤ 2 ^ 19 ∧ userPages allMem ≤ 2 ^ 19 := by
  have hlt := allMem.isLt
  unfold userPages kernelPages freePages
  omega

/-- The bitmaps of the three pools, one after the other. -/
lemma bitmapRange_memPoolInit (h21 : 2 ^ 21 ≤ allMem.toNat) :
    let k := bitNum2ByteLen (kernelPages allMem)
    let u := bitNum2ByteLen (userPages allMem)
    ((memPoolInit s allMem).pool .kernelPhy).bitmapRange = Set.Ico 0xc009a000 (0xc009a000 + k) ∧
      ((memPoolInit s allMem).pool .userPhy).bitmapRange =
        Set.Ico (0xc009a000 + k) (0xc009a000 + k + u) ∧
      ((memPoolInit s allMem).pool .kernelVir).bitmapRange =
        Set.Ico (0xc009a000 + k + u) (0xc009a000 + k + u + k) := by
  intro k u
  obtain ⟨-, hkernel, huser⟩ := toNat_freePages h21
  obtain ⟨hk, hu⟩ := pages_le allMem
  obtain ⟨-, hkb⟩ := bitNum2ByteLen_bounds (kernelPages allMem)
  obtain ⟨-, hub⟩ := bitNum2ByteLen_bounds (userPages allMem)
  have hlenk := (toNat_btmpBytesLen4pages (w := _)).trans (congrArg bitNum2ByteLen hkernel)
  have hlenu := (toNat_btmpBytesLen4pages (w := _)).trans (congrArg bitNum2ByteLen huser)
  have hbase : memBitmapBase.toNat = 0xc009a000 := rfl
  have hk0 : ((memPoolInit s allMem).pool .kernelPhy).btmp.byteLen = k :=
    congrArg bitNum2ByteLen hkernel
  have hu0 : ((memPoolInit s allMem).pool .userPhy).btmp.byteLen = u :=
    congrArg bitNum2ByteLen huser
  have hv0 : ((memPoolInit s allMem).pool .kernelVir).btmp.byteLen = k :=
    congrArg bitNum2ByteLen hkernel
  have hk1 : ((memPoolInit s allMem).pool .kernelPhy).btmpBase.toNat = 0xc009a000 := rfl
  have hu1 : ((memPoolInit s allMem).pool .userPhy).btmpBase.toNat = 0xc009a000 + k := by
    simp only [memPoolInit, poolInit]
    rw [BitVec.toNat_add, hlenk, hbase]
    omega
  have hv1 : ((memPoolInit s allMem).pool .kernelVir).btmpBase.toNat = 0xc009a000 + k + u := by
    simp only [memPoolInit, poolInit]
    rw [BitVec.toNat_add, BitVec.toNat_add, hlenk, hlenu, hbase]
    omega
  unfold Pool.bitmapRange
  rw [hk0, hu0, hv0, hk1, hu1, hv1]
  exact ⟨rfl, rfl, rfl⟩

/-- The first size at which the bitmaps do not fit. -/
def layoutLimit : ℕ := 0x200000 + 87378 * 4096

/-- The layout is sound exactly below 359997440 bytes. -/
theorem layout_sound_iff (s : MemState) (allMem : Word) (h21 : 2 ^ 21 ≤ allMem.toNat) :
    SoundLayout (memPoolInit s allMem) ↔ allMem.toNat < layoutLimit := by
  obtain ⟨hkr, hur, hvr⟩ := bitmapRange_memPoolInit (s := s) h21
  obtain ⟨hk1, hk2⟩ := bitNum2ByteLen_bounds (kernelPages allMem)
  obtain ⟨hu1, hu2⟩ := bitNum2ByteLen_bounds (userPages allMem)
  have hf : freePages allMem = (allMem.toNat - 0x200000) / 4096 := rfl
  have hk : kernelPages allMem = freePages allMem / 2 := rfl
  have hu : userPages allMem = freePages allMem - kernelPages allMem := rfl
  have hlimit : layoutLimit = 0x200000 + 87378 * 4096 := rfl
  constructor
  · intro h
    by_contra hlarge
    -- the last byte of the third bitmap
    have hlast := h.inside .kernelVir (by simp)
    rw [hvr] at hlast
    have hmem := hlast (a := 0xc009a000 + bitNum2ByteLen (kernelPages allMem) +
      bitNum2ByteLen (userPages allMem) + bitNum2ByteLen (kernelPages allMem) - 1)
      (Set.mem_Ico.mpr ⟨by omega, by omega⟩)
    have hend := (Set.mem_Ico.mp hmem).2
    omega
  · intro hsmall
    have hsize : ((memPoolInit s allMem).pool .kernelVir).poolSize.toNat =
        kernelPages allMem * 4096 := by
      obtain ⟨-, hkernel, -⟩ := toNat_freePages h21
      have h4096 : (4096 : Word).toNat = 4096 := rfl
      simp only [memPoolInit, poolInit]
      rw [BitVec.toNat_mul, hkernel, h4096]
      omega
    have hheap : kHeapStart.toNat = 0xc0100000 := rfl
    constructor
    case kernelUser =>
      rw [hkr, hur]
      exact Set.Ico_disjoint_Ico_same
    case kernelHeap =>
      rw [hkr, hvr, Set.disjoint_left]
      intro a ha hb
      have hend := (Set.mem_Ico.mp ha).2
      have hstart := (Set.mem_Ico.mp hb).1
      omega
    case userHeap =>
      rw [hur, hvr]
      exact Set.Ico_disjoint_Ico_same
    case inside =>
      intro p hp
      simp only [List.mem_cons, List.not_mem_nil, or_false] at hp
      rcases hp with rfl | rfl | rfl
      · rw [hkr]
        exact Set.Ico_subset_Ico (by omega) (by omega)
      · rw [hur]
        exact Set.Ico_subset_Ico (by omega) (by omega)
      · rw [hvr]
        exact Set.Ico_subset_Ico (by omega) (by omega)
    case heapStart => rfl
    case heapSize =>
      rw [hsize]
      exact congrArg (· * 4096) (@PhysInv.init _ s h21).kernelNum.symm
    case heapEnd =>
      rw [hheap, hsize]
      omega

/-- 32 MiB. -/
theorem layout_sound_iff_32 : SoundLayout (memPoolInit bootMem 0x2000000) ∧
    (0x2000000 : Word).toNat < layoutLimit := by
  have hlimit : (0x2000000 : Word).toNat < layoutLimit := by decide
  exact ⟨(layout_sound_iff bootMem 0x2000000 (by decide)).mpr hlimit, hlimit⟩

/-- 512 MiB. -/
theorem layout_not_sound_512 : ¬ ∀ (s : MemState) (allMem : Word), 2 ^ 21 ≤ allMem.toNat →
    SoundLayout (memPoolInit s allMem) := by
  intro h
  have hlast := (h bootMem 0x20000000 (by decide)).inside .kernelVir (by simp)
  rw [(bitmapRange_memPoolInit (by decide)).2.2] at hlast
  have hmem := hlast (a := 0xc009a000 + 24479) (Set.mem_Ico.mpr (by decide))
  exact absurd (Set.mem_Ico.mp hmem).2 (by decide)

end Layout

end OsI386
