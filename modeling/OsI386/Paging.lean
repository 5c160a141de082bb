import Mathlib

/-!
# Two-level paging and its recursive window

Physical memory is a word for each frame and each slot of a frame. A page directory whose
last entry points to itself shows each page table of the address space as a page of the
window above 0xffc00000, and itself as the last page of it.
-/
namespace OsI386

abbrev Word := BitVec 32
abbrev FrameNo := BitVec 20
abbrev Slot := BitVec 10
abbrev Phys := FrameNo → Slot → Word

def pdeIdx (v : Word) : Slot := v.extractLsb' 22 10
def pteIdx (v : Word) : Slot := v.extractLsb' 12 10

/-- The word of its page an address lies in. -/
def wordIdx (v : Word) : Slot := v.extractLsb' 2 10

def frameOf (entry : Word) : FrameNo := entry.extractLsb' 12 20

/-- The `P` bit. -/
def present (entry : Word) : Bool := entry &&& 1 != 0

def frameAddr (f : FrameNo) : Word := f ++ 0#12

/-- The walk of the MMU; `none` is a page fault. -/
def translate (m : Phys) (cr3 : FrameNo) (v : Word) : Option FrameNo :=
  let pde := m cr3 (pdeIdx v)
  if present pde then
    let pte := m (frameOf pde) (pteIdx v)
    if present pte then some (frameOf pte) else none
  else none

def loadWord (m : Phys) (cr3 : FrameNo) (v : Word) : Option Word :=
  (translate m cr3 v).map fun f => m f (wordIdx v)

def writeSlot (m : Phys) (f : FrameNo) (i : Slot) (w : Word) : Phys :=
  Function.update m f (Function.update (m f) i w)

def storeWord (m : Phys) (cr3 : FrameNo) (v w : Word) : Option Phys :=
  (translate m cr3 v).map fun f => writeSlot m f (wordIdx v) w

@[simp] lemma writeSlot_self (m : Phys) (f : FrameNo) (i : Slot) (w : Word) :
    writeSlot m f i w f i = w := by
  simp [writeSlot]

lemma writeSlot_of_slot_ne (m : Phys) {f : FrameNo} {i j : Slot} (w : Word) (h : j ≠ i)
    (g : FrameNo) : writeSlot m f i w g j = m g j := by
  unfold writeSlot
  by_cases hg : g = f
  · subst hg
    simp [h]
  · simp [hg]

lemma writeSlot_of_frame_ne (m : Phys) {f g : FrameNo} (i : Slot) (w : Word) (h : g ≠ f) :
    writeSlot m f i w g = m g := by
  simp [writeSlot, h]

lemma writeSlot_apply (m : Phys) (x : FrameNo × Slot) (e : Word) (y : FrameNo × Slot) :
    writeSlot m x.1 x.2 e y.1 y.2 = if x = y then e else m y.1 y.2 := by
  by_cases hxy : x = y
  · rw [if_pos hxy, hxy, writeSlot_self]
  · rw [if_neg hxy]
    by_cases hf : y.1 = x.1
    · refine writeSlot_of_slot_ne m e (fun hi => hxy ?_) _
      exact Prod.ext hf.symm hi.symm
    · exact congrFun (writeSlot_of_frame_ne m _ e hf) _

section Masks

private lemma toNat_and_mask {n : ℕ} (v mask : Word)
    (h : ∀ i < 32, mask.getLsbD i = decide (n ≤ i)) :
    (v &&& mask).toNat = v.toNat / 2 ^ n * 2 ^ n := by
  have hshift : v &&& mask = (v >>> n) <<< n := by
    apply BitVec.eq_of_getLsbD_eq
    intro i hi
    rw [BitVec.getLsbD_and, h i hi, BitVec.getLsbD_shiftLeft, BitVec.getLsbD_ushiftRight]
    by_cases hn : n ≤ i
    · simp [hn, hi]
    · simp [hn]
  have hle : v.toNat / 2 ^ n * 2 ^ n ≤ v.toNat := Nat.div_mul_le_self _ _
  have hlt := v.isLt
  rw [hshift, BitVec.toNat_shiftLeft, BitVec.toNat_ushiftRight, Nat.shiftRight_eq_div_pow,
    Nat.shiftLeft_eq, Nat.mod_eq_of_lt (by omega)]

lemma toNat_and_pdeMask (v : Word) : (v &&& 0xffc00000).toNat = v.toNat / 2 ^ 22 * 2 ^ 22 :=
  toNat_and_mask v _ (by decide)

lemma toNat_and_pageMask (v : Word) : (v &&& 0xfffff000).toNat = v.toNat / 2 ^ 12 * 2 ^ 12 :=
  toNat_and_mask v _ (by decide)

lemma toNat_and_offsetMask (v : Word) : (v &&& 0xfff).toNat = v.toNat % 2 ^ 12 := by
  rw [BitVec.toNat_and]
  exact Nat.and_two_pow_sub_one_eq_mod _ 12

lemma toNat_and_pteMask (v : Word) :
    (v &&& 0x003ff000).toNat = v.toNat / 2 ^ 12 % 2 ^ 10 * 2 ^ 12 := by
  have hsplit : v &&& 0x003ff000 = (v &&& 0xfffff000) &&& 0x3fffff := by
    rw [BitVec.and_assoc]
    rfl
  rw [hsplit, BitVec.toNat_and, toNat_and_pageMask,
    show (0x3fffff : Word).toNat = 2 ^ 22 - 1 from rfl, Nat.and_two_pow_sub_one_eq_mod]
  omega

end Masks

lemma toNat_pdeIdx (v : Word) : (pdeIdx v).toNat = v.toNat / 2 ^ 22 := by
  have := v.isLt
  rw [pdeIdx, BitVec.extractLsb'_toNat, Nat.shiftRight_eq_div_pow]
  omega

lemma toNat_pteIdx (v : Word) : (pteIdx v).toNat = v.toNat / 2 ^ 12 % 2 ^ 10 := by
  rw [pteIdx, BitVec.extractLsb'_toNat, Nat.shiftRight_eq_div_pow]

lemma toNat_wordIdx (v : Word) : (wordIdx v).toNat = v.toNat / 2 ^ 2 % 2 ^ 10 := by
  rw [wordIdx, BitVec.extractLsb'_toNat, Nat.shiftRight_eq_div_pow]

lemma toNat_frameOf (v : Word) : (frameOf v).toNat = v.toNat / 2 ^ 12 := by
  have := v.isLt
  rw [frameOf, BitVec.extractLsb'_toNat, Nat.shiftRight_eq_div_pow]
  omega

lemma toNat_frameAddr (f : FrameNo) : (frameAddr f).toNat = f.toNat * 2 ^ 12 := by
  rw [frameAddr, BitVec.toNat_append, Nat.shiftLeft_eq]
  simp

@[simp] lemma frameOf_frameAddr (f : FrameNo) : frameOf (frameAddr f) = f := by
  apply BitVec.eq_of_toNat_eq
  rw [toNat_frameOf, toNat_frameAddr]
  omega

lemma frameOf_add_offset (f : FrameNo) (v : Word) : frameOf (frameAddr f + (v &&& 0xfff)) = f := by
  have hoff := toNat_and_offsetMask v
  apply BitVec.eq_of_toNat_eq
  rw [toNat_frameOf, BitVec.toNat_add, toNat_frameAddr, hoff]
  omega

lemma and_pageMask (v : Word) : v &&& 0xfffff000 = frameAddr (frameOf v) := by
  apply BitVec.eq_of_toNat_eq
  rw [toNat_and_pageMask, toNat_frameAddr, toNat_frameOf]

lemma and_offsetMask_of_aligned {v : Word} (h : v.toNat % 4096 = 0) : v &&& 0xfff = 0 := by
  apply BitVec.eq_of_toNat_eq
  rw [toNat_and_offsetMask]
  exact h

/-- A page aligned address is the address of its frame. -/
lemma frameAddr_frameOf {p : Word} (h : p.toNat % 4096 = 0) : frameAddr (frameOf p) = p := by
  apply BitVec.eq_of_toNat_eq
  rw [toNat_frameAddr, toNat_frameOf]
  omega

end OsI386
