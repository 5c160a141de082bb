import OsI386.Paging
import OsI386.BitmapMemory
import OsI386.LoaderKernel
import OsI386.Segments
import OsI386.TransitionSystem

/-!
# user/tss.c and the GDT of mbr_and_loader/loader.s

The loader leaves four descriptors at 0x900. `tss_init` adds the task state segment and the
segments of user processes behind them, through the mapping of the kernel.
-/
namespace OsI386
open X86

section Constants

def selectorKCode : BitVec 16 := 1 <<< 3
def selectorKData : BitVec 16 := 2 <<< 3
def selectorKStack : BitVec 16 := selectorKData
def selectorTss : BitVec 16 := 4 <<< 3
def selectorUCode : BitVec 16 := 5 <<< 3 + 3
def selectorUData : BitVec 16 := 6 <<< 3 + 3

/-- `DESC_G_4K`, `DESC_D_32`, `DESC_L` and `DESC_AVL`. -/
def gdtAttrHigh : BitVec 8 := 1 <<< 7 + 1 <<< 6 + 0 <<< 5 + 0 <<< 4

def gdtCodeAttrLowDpl3 : BitVec 8 := 1 <<< 7 + 3 <<< 5 + 1 <<< 4 + 8

def gdtDataAttrLowDpl3 : BitVec 8 := 1 <<< 7 + 3 <<< 5 + 1 <<< 4 + 2

def tssAttrHigh : BitVec 8 := 1 <<< 7 + 0 <<< 6 + 0 <<< 5 + 0 <<< 4

def tssAttrLow : BitVec 8 := 1 <<< 7 + 0 <<< 5 + 0 <<< 4 + 9

def gdtBaseAddr : Word := 0xc0000900

/-- `sizeof(tss)`. -/
def tssSize : Word := 108

end Constants

namespace Loader

section Gdt

/-- `DESC_G_4K + DESC_D_32`, the high limit, `DESC_P` and `DESC_S_CODE + DESC_TYPE_CODE`. -/
def descCodeHigh4 : Word := 1 <<< 23 + 1 <<< 22 + 0xf <<< 16 + 1 <<< 15 + 1 <<< 12 + 8 <<< 8

def descDataHigh4 : Word := 1 <<< 23 + 1 <<< 22 + 0xf <<< 16 + 1 <<< 15 + 1 <<< 12 + 2 <<< 8

def descVideoHigh4 : Word :=
  1 <<< 23 + 1 <<< 22 + 0 <<< 16 + 1 <<< 15 + 1 <<< 12 + 2 <<< 8 + 0xb

/-- The words from `GDT_BASE` on. -/
def gdtBase : List Word :=
  [0, 0, 0x0000ffff, descCodeHigh4, 0x0000ffff, descDataHigh4, 0x80000007, descVideoHigh4]

/-- The video segment is moved to the kernel's half before paging is on. -/
def moveVideo (m : Mem) (gdt : Word) : Mem :=
  store32 m (gdt + 0x18 + 4) (load32 m (gdt + 0x18 + 4) ||| 0xc0000000)

/-- The table that `tss_init` finds. -/
def gdt : List Word :=
  [0, 0, 0x0000ffff, descCodeHigh4, 0x0000ffff, descDataHigh4, 0x80000007,
    descVideoHigh4 ||| 0xc0000000]

lemma holds_moveVideo {m : Mem} {a : Word} (h : Holds m a gdtBase) : Holds (moveVideo m a) a gdt := by
  have hword := h.get 7 rfl
  have haddr : a + 0x18 + 4 = a + BitVec.ofNat 32 (4 * 7) := by
    rw [add_assoc]
    rfl
  have hset := h.set (w := descVideoHigh4 ||| 0xc0000000) (by decide) (i := 7) (by decide)
  rwa [moveVideo, haddr, hword]

/-- The kernel finds at `gdt_base_addr` what the loader has at 0x900. -/
lemma holds_seen {p : Mem} (h : Holds p 0x900 gdtBase) :
    Holds (seen bootAddr (moveVideo p 0x900)) gdtBaseAddr gdt := by
  have haddr : ∀ k < 32, bootAddr (gdtBaseAddr + BitVec.ofNat 32 k) = 0x900 + BitVec.ofNat 32 k := by
    decide
  exact (holds_moveVideo h).move fun k hk => congrArg (moveVideo p 0x900) (haddr k hk)

/-- The loader's table and zeros. -/
def loaderMem : Mem := fun a =>
  (gdtBase.getD ((a - 0x900).toNat / 4) 0).extractLsb' (8 * ((a - 0x900).toNat % 4)) 8

def gdtMem : Mem := seen bootAddr (moveVideo loaderMem 0x900)

lemma holds_gdtMem : Holds gdtMem gdtBaseAddr gdt := holds_seen
  ⟨by decide, by decide, by decide, by decide, by decide, by decide, by decide, by decide, trivial⟩

end Gdt

end Loader

section TssInit

def gdtDescMake (m : Mem) (desc descAddr limit : Word) (attrLow attrHigh : BitVec 8) : Mem :=
  let m := store16 m desc (low16 (limit &&& 0xffff))
  let m := store16 m (desc + 2) (low16 (descAddr &&& 0xffff))
  let m := Function.update m (desc + 4) (low8 ((descAddr &&& 0x00ff0000) >>> 16))
  let m := Function.update m (desc + 5) attrLow
  let m := Function.update m (desc + 6)
    (low8 ((limit &&& 0x000f0000) >>> 16 + attrHigh.setWidth 32))
  Function.update m (desc + 7) (low8 (descAddr >>> 24))

/-- `&gdt_base[i]`. -/
def gdtEntry (i : ℕ) : Word := gdtBaseAddr + BitVec.ofNat 32 (8 * i)

/-- `memset` and the fields `ss0` and `io_base`. -/
def tssFields (m : Mem) (tss : Word) : Mem :=
  let m := filled m tss 0 tssSize 0
  let m := store32 m (tss + 8) (selectorKStack.setWidth 32)
  store32 m (tss + 104) tssSize

/-- The descriptors that `tss_init` makes. -/
def tssDescs (m : Mem) (tss : Word) : Mem :=
  let m := gdtDescMake m (gdtEntry 4) tss (tssSize - 1) tssAttrLow tssAttrHigh
  let m := gdtDescMake m (gdtEntry 5) 0 0xfffff gdtCodeAttrLowDpl3 gdtAttrHigh
  gdtDescMake m (gdtEntry 6) 0 0xfffff gdtDataAttrLowDpl3 gdtAttrHigh

/-- The pointer is extended with its sign. -/
def gdtOper : BitVec 64 := gdtBaseAddr.signExtend 64 <<< 16 ||| 55

def tssInit (m : Mem) (t : TableRegisters) (tss : Word) : Option (Mem × TableRegisters) :=
  ltr (tssDescs (tssFields m tss) tss) { t with gdtr := .ofOperand gdtOper } selectorTss

def tssEsp0UpdateAt (m : Mem) (tss thread : Word) : Mem := store32 m (tss + 4) (thread + 4096)

end TssInit

section GdtDescMake

variable {m : Mem} {desc base limit : Word} {lo hi : BitVec 8}

lemma extractLsb'_and_ffff (w : Word) :
    (low16 (w &&& 0xffff)).extractLsb' 0 8 = w.extractLsb' 0 8 ∧
      (low16 (w &&& 0xffff)).extractLsb' 8 8 = w.extractLsb' 8 8 := by
  rw [and_ffff, low16_append]
  constructor <;> ext i hi <;> simp [low16]

lemma low8_middle (w : Word) : low8 ((w &&& 0x00ff0000) >>> 16) = w.extractLsb' 16 8 := by
  apply BitVec.eq_of_getLsbD_eq
  intro i hi
  simp only [low8, BitVec.getLsbD_extractLsb', BitVec.getLsbD_ushiftRight, BitVec.getLsbD_and]
  interval_cases i <;> simp

/-- The high bits of the limit below those of `hi`. -/
def limitHigh (limit : Word) (hi : BitVec 8) : BitVec 8 :=
  low8 ((limit &&& 0x000f0000) >>> 16 + hi.setWidth 32)

lemma limitHigh_eq (hlow : hi.extractLsb' 0 4 = 0) :
    limitHigh limit hi = (hi.extractLsb' 4 4 ++ limit.extractLsb' 16 4 : BitVec 8) := by
  have hlimit : (limit &&& 0x000f0000) >>> 16 = (limit.extractLsb' 16 4).setWidth 32 := by
    apply BitVec.eq_of_getLsbD_eq
    intro i hi
    simp only [BitVec.getLsbD_ushiftRight, BitVec.getLsbD_and, BitVec.getLsbD_setWidth,
      BitVec.getLsbD_extractLsb']
    interval_cases i <;> simp
  have hhi : hi = (hi.extractLsb' 4 4 ++ 0#4 : BitVec 8) := by
    have hbit := fun i => congrArg (BitVec.getLsbD · i) hlow
    apply BitVec.eq_of_getLsbD_eq
    intro i hi
    have h := hbit i
    simp only [BitVec.getLsbD_extractLsb'] at h
    simp only [BitVec.getLsbD_append, BitVec.getLsbD_extractLsb']
    interval_cases i <;> simp_all
  rw [limitHigh, hlimit]
  generalize limit.extractLsb' 16 4 = l
  generalize hi.extractLsb' 4 4 = h at hhi
  subst hhi
  revert l h
  decide

/-- The bytes of a descriptor in their order. -/
def descBytes (base limit : Word) (lo hi : BitVec 8) : List (BitVec 8) :=
  [limit.extractLsb' 0 8, limit.extractLsb' 8 8, base.extractLsb' 0 8, base.extractLsb' 8 8,
    base.extractLsb' 16 8, lo, limitHigh limit hi, base.extractLsb' 24 8]

lemma gdtDescMake_eq : gdtDescMake m desc base limit lo hi =
    storeBytes m desc (descBytes base limit lo hi) := by
  have hlast : low8 (base >>> 24) = base.extractLsb' 24 8 := by
    ext i hi
    simp [low8]
  have htwo : desc + 1 + 1 = desc + 2 := add_assoc desc 1 1
  unfold gdtDescMake
  simp only [store16_eq_storeBytes, (extractLsb'_and_ffff _).1, (extractLsb'_and_ffff _).2,
    low8_middle, hlast]
  simp only [descBytes, storeBytes, add_assoc, limitHigh]
  rfl

lemma gdtDescMake_of_apart {b : Word} (h : 8 ≤ (b - desc).toNat) :
    gdtDescMake m desc base limit lo hi b = m b := by
  rw [gdtDescMake_eq]
  exact storeBytes_of_apart h

lemma segmentAt_gdtDescMake (hlow : hi.extractLsb' 0 4 = 0) :
    segmentAt (gdtDescMake m desc base limit lo hi) desc =
      ⟨base, limit.extractLsb' 0 20, kindOf lo, lo.extractLsb' 5 2, lo.getLsbD 7,
        hi.getLsbD 6, hi.getLsbD 7⟩ := by
  have hbyte : ∀ {k : ℕ} {c : BitVec 8}, (descBytes base limit lo hi)[k]? = some c →
      gdtDescMake m desc base limit lo hi (desc + BitVec.ofNat 32 k) = c := by
    intro k c hk
    rw [gdtDescMake_eq]
    exact storeBytes_get (by simp [descBytes]) hk
  have h0 := hbyte (k := 0) rfl
  have h1 := hbyte (k := 1) rfl
  have h2 := hbyte (k := 2) rfl
  have h3 := hbyte (k := 3) rfl
  have h4 := hbyte (k := 4) rfl
  have h5 := hbyte (k := 5) rfl
  have h6 := hbyte (k := 6) rfl
  have h7 := hbyte (k := 7) rfl
  rw [BitVec.add_zero] at h0
  rw [limitHigh_eq hlow] at h6
  unfold segmentAt
  congr 1
  · refine Eq.trans ?_ (append_extractLsb' base)
    exact congrArg₂ _ (congrArg₂ _ (congrArg₂ _ h7 h4) h3) h2
  · refine (congrArg₂ _ (congrArg₂ _ (congrArg _ h6) h1) h0).trans ?_
    apply BitVec.eq_of_getLsbD_eq
    intro i hi
    simp only [BitVec.getLsbD_append, BitVec.getLsbD_extractLsb']
    interval_cases i <;> simp
  · exact congrArg _ h5
  · exact congrArg _ h5
  · exact congrArg (BitVec.getLsbD · 7) h5
  · refine (congrArg (BitVec.getLsbD · 6) h6).trans ?_
    simp only [BitVec.getLsbD_append, BitVec.getLsbD_extractLsb']
    simp
  · refine (congrArg (BitVec.getLsbD · 7) h6).trans ?_
    simp only [BitVec.getLsbD_append, BitVec.getLsbD_extractLsb']
    simp

end GdtDescMake

section Gdt

def tssSegment (tss : Word) (busy : Bool) : Segment := ⟨tss, 107, .tss busy, 0, true, false, true⟩

/-- The segment of each index. -/
def gdtSegments (tss : Word) (busy : Bool) : ℕ → Option Segment
  | 1 => some ⟨0, 0xfffff, .code false false, 0, true, true, true⟩
  | 2 => some ⟨0, 0xfffff, .data false true, 0, true, true, true⟩
  | 3 => some ⟨0xc00b8000, 7, .data false true, 0, true, true, true⟩
  | 4 => some (tssSegment tss busy)
  | 5 => some ⟨0, 0xfffff, .code false false, 3, true, true, true⟩
  | 6 => some ⟨0, 0xfffff, .data false true, 3, true, true, true⟩
  | _ => none

structure GdtReady (tss : Word) (busy : Bool) (m : Mem) : Prop where
  entry : ∀ i, 1 ≤ i → i < 7 → some (segmentAt m (gdtEntry i)) = gdtSegments tss busy i

/-- The 108 bytes of the state segment do not meet the seven descriptors. -/
abbrev TssApart (tss : Word) : Prop := RangesApart gdtBaseAddr 56 tss 108

variable {m m' : Mem} {t : TableRegisters} {tss : Word} {busy : Bool}

lemma gdtEntry_add (i k : ℕ) :
    gdtEntry i + BitVec.ofNat 32 k = gdtBaseAddr + BitVec.ofNat 32 (8 * i + k) := by
  rw [gdtEntry, add_assoc, ← BitVec.ofNat_add]

lemma gdtEntry_sub {i j k : ℕ} (hij : i ≠ j) (hi : i < 7) (hj : j < 7) (hk : k < 8) :
    8 ≤ (gdtEntry i + BitVec.ofNat 32 k - gdtEntry j).toNat := by
  have hoff : gdtEntry i + BitVec.ofNat 32 k - gdtEntry j =
      BitVec.ofNat 32 (8 * i + k) - BitVec.ofNat 32 (8 * j) := by
    rw [gdtEntry_add, gdtEntry, add_sub_add_left_eq_sub]
  rw [hoff, BitVec.toNat_sub, BitVec.toNat_ofNat, BitVec.toNat_ofNat]
  omega

/-- A descriptor leaves the others. -/
lemma segmentAt_gdtDescMake_ne {i j : ℕ} (hij : i ≠ j) (hi : i < 7) (hj : j < 7)
    (base limit : Word) (lo hi' : BitVec 8) :
    segmentAt (gdtDescMake m (gdtEntry j) base limit lo hi') (gdtEntry i) =
      segmentAt m (gdtEntry i) :=
  segmentAt_congr fun _ hk => gdtDescMake_of_apart (gdtEntry_sub hij hi hj hk)

/-- The segments of the loader. -/
structure LoaderGdt (m : Mem) : Prop where
  entry : ∀ tss busy i, 1 ≤ i → i < 4 → some (segmentAt m (gdtEntry i)) = gdtSegments tss busy i

lemma Loader.segmentAt_gdt (h : Holds m gdtBaseAddr Loader.gdt) {i : ℕ} (hlow : 1 ≤ i)
    (hhigh : i < 4) : some (segmentAt m (gdtEntry i)) = gdtSegments tss busy i := by
  have hpair : ∀ {i : ℕ} {lo hi : Word}, Loader.gdt[2 * i]? = some lo →
      Loader.gdt[2 * i + 1]? = some hi → segmentAt m (gdtEntry i) = segmentOfWords lo hi := by
    intro i lo hi hlo hhi
    have hfirst := h.get (2 * i) hlo
    have hsecond := h.get (2 * i + 1) hhi
    rw [show 4 * (2 * i) = 8 * i by ring] at hfirst
    rw [show 4 * (2 * i + 1) = 8 * i + 4 by ring, BitVec.ofNat_add, ← add_assoc] at hsecond
    exact Holds.segmentAt ⟨hfirst, hsecond, trivial⟩
  interval_cases i
  · rw [hpair (i := 1) rfl rfl]
    exact congrArg some (by decide)
  · rw [hpair (i := 2) rfl rfl]
    exact congrArg some (by decide)
  · rw [hpair (i := 3) rfl rfl]
    exact congrArg some (by decide)

lemma loaderGdt_of_holds (h : Holds m gdtBaseAddr Loader.gdt) : LoaderGdt m :=
  ⟨fun _ _ _ hlow hhigh => Loader.segmentAt_gdt h hlow hhigh⟩

lemma LoaderGdt.congr (h : LoaderGdt m)
    (hgdt : ∀ i, 1 ≤ i → i < 7 → segmentAt m' (gdtEntry i) = segmentAt m (gdtEntry i)) :
    LoaderGdt m' where
  entry tss busy i hlow hhigh := by
    rw [hgdt i hlow (by omega)]
    exact h.entry tss busy i hlow hhigh

lemma gdtReady_tssDescs (h : ∀ i, 1 ≤ i → i < 4 →
    some (segmentAt m (gdtEntry i)) = gdtSegments tss false i) :
    GdtReady tss false (tssDescs m tss) where
  entry i hlow hhigh := by
    unfold tssDescs
    obtain hold | rfl | rfl | rfl : i < 4 ∨ i = 4 ∨ i = 5 ∨ i = 6 := by omega
    · rw [segmentAt_gdtDescMake_ne (by omega) hhigh (by norm_num),
        segmentAt_gdtDescMake_ne (by omega) hhigh (by norm_num),
        segmentAt_gdtDescMake_ne (by omega) hhigh (by norm_num)]
      exact h i hlow hold
    · rw [segmentAt_gdtDescMake_ne (by norm_num) hhigh (by norm_num),
        segmentAt_gdtDescMake_ne (by norm_num) hhigh (by norm_num),
        segmentAt_gdtDescMake (by decide)]
      rfl
    · rw [segmentAt_gdtDescMake_ne (by norm_num) hhigh (by norm_num),
        segmentAt_gdtDescMake (by decide)]
      rfl
    · rw [segmentAt_gdtDescMake (by decide)]
      rfl

lemma tssDescs_of_apart {b : Word} (h : 56 ≤ (b - gdtBaseAddr).toNat) : tssDescs m tss b = m b := by
  have hentry : ∀ i < 7, 8 ≤ (b - gdtEntry i).toNat := by
    intro i hi
    have hoff : (BitVec.ofNat 32 (8 * i)).toNat = 8 * i := by
      rw [BitVec.toNat_ofNat]
      omega
    have hlt := (b - gdtBaseAddr).isLt
    rw [gdtEntry, ← sub_sub, BitVec.toNat_sub, hoff]
    omega
  rw [tssDescs, gdtDescMake_of_apart (hentry 6 (by norm_num)),
    gdtDescMake_of_apart (hentry 5 (by norm_num)), gdtDescMake_of_apart (hentry 4 (by norm_num))]

end Gdt

section TaskState

/-- The words of the state segment, with the stack of ring 0 in it. -/
def tssWords (esp0 : Word) : List Word := [0, esp0, 0x10] ++ List.replicate 23 0 ++ [108]

variable {m : Mem} {tss esp0 b : Word}

lemma store32_of_apart {a w : Word} (h : 4 ≤ (b - a).toNat) : store32 m a w b = m b :=
  if_neg (not_lt.mpr h)

lemma tssFields_of_apart (h : 108 ≤ (b - tss).toNat) : tssFields m tss b = m b := by
  have hsub : ∀ k ≤ 104, 4 ≤ (b - (tss + BitVec.ofNat 32 k)).toNat := by
    intro k hk
    have hoff : (BitVec.ofNat 32 k).toNat = k := by
      rw [BitVec.toNat_ofNat]
      omega
    have hlt := (b - tss).isLt
    rw [← sub_sub, BitVec.toNat_sub, hoff]
    omega
  have hss0 : 4 ≤ (b - (tss + 8)).toNat := hsub 8 (by norm_num)
  have hio : 4 ≤ (b - (tss + 104)).toNat := hsub 104 (by norm_num)
  rw [tssFields, store32_of_apart hio, store32_of_apart hss0]
  have hsize : tssSize.toNat = 108 := rfl
  apply if_neg
  omega

lemma holds_tssFields : Holds (tssFields m tss) tss (tssWords 0) := by
  have hzero : Holds (filled m tss 0 tssSize 0) tss (List.replicate 27 0) := by
    refine holds_replicate_zero fun k hk => if_pos ?_
    have hsub : (tss + BitVec.ofNat 32 k - tss).toNat = k := by
      rw [add_sub_cancel_left, BitVec.toNat_ofNat]
      omega
    rw [hsub]
    exact ⟨Nat.zero_le k, hk⟩
  have hss0 := hzero.set (w := selectorKStack.setWidth 32) (by decide) (i := 2) (by decide)
  exact hss0.set (w := tssSize) (by decide) (i := 26) (by decide)

lemma length_tssWords (esp0 : Word) : (tssWords esp0).length = 27 := rfl

lemma holds_tssEsp0UpdateAt (h : Holds m tss (tssWords esp0)) (thread : Word) :
    Holds (tssEsp0UpdateAt m tss thread) tss (tssWords (thread + 4096)) := by
  have hlen := length_tssWords esp0
  exact h.set (w := thread + 4096) (by omega) (i := 1) (by omega)

lemma tssEsp0UpdateAt_of_apart (h : 108 ≤ (b - tss).toNat) (thread : Word) :
    tssEsp0UpdateAt m tss thread b = m b := by
  have hfour : (4 : Word).toNat = 4 := rfl
  have hlt := (b - tss).isLt
  apply store32_of_apart
  rw [← sub_sub, BitVec.toNat_sub, hfour]
  omega

end TaskState

section Ready

/-- The tables that `tss_init` leaves, with the stack of ring 0 set since. -/
structure TssReady (tss esp0 : Word) (m : Mem) (t : TableRegisters) : Prop where
  gdtr : t.gdtr = ⟨gdtBaseAddr, 55⟩
  gdt : GdtReady tss true m
  tr : t.tr = tssSegment tss true
  state : Holds m tss (tssWords esp0)

variable {m m' : Mem} {t t' : TableRegisters} {tss esp0 : Word}

lemma gdtSegments_bounds {i : ℕ} {busy : Bool} (h : ¬ (1 ≤ i ∧ i < 7)) :
    gdtSegments tss busy i = none := by
  unfold gdtSegments
  split <;> first | omega | rfl

lemma segmentOf_gdt (hgdtr : t.gdtr = ⟨gdtBaseAddr, 55⟩) {busy : Bool} (h : GdtReady tss busy m)
    {selector : BitVec 16} (hti : selector.getLsbD 2 = false) :
    segmentOf m t selector = gdtSegments tss busy (selector.toNat / 8) := by
  have hlimit : (55 : BitVec 16).toNat = 55 := rfl
  rw [segmentOf, hti, hgdtr, hlimit]
  by_cases hi : 1 ≤ selector.toNat / 8 ∧ selector.toNat / 8 < 7
  · rw [← h.entry _ hi.1 hi.2]
    simp only [Bool.false_eq_true, if_false]
    exact if_pos (by omega)
  · rw [gdtSegments_bounds hi]
    simp only [Bool.false_eq_true, if_false]
    exact if_neg (by omega)

/-- `ltr` changes the attributes of one descriptor. -/
lemma GdtReady.busy (h : GdtReady tss false m) (hattr : m (gdtEntry 4 + 5) = tssAttrLow) :
    GdtReady tss true (Function.update m (gdtEntry 4 + 5) (m (gdtEntry 4 + 5) ||| 2)) where
  entry i hlow hhigh := by
    by_cases hi : i = 4
    · have hold := Option.some.inj (h.entry 4 (by norm_num) (by norm_num))
      rw [hi, segmentAt_update, hold, hattr]
      rfl
    · have hsame : segmentAt (Function.update m (gdtEntry 4 + 5) (m (gdtEntry 4 + 5) ||| 2))
          (gdtEntry i) = segmentAt m (gdtEntry i) := by
        refine segmentAt_congr fun k hk => Function.update_of_ne (fun he => ?_) _ _
        have hfar := gdtEntry_sub hi hhigh (by norm_num : 4 < 7) hk
        have hfive : (gdtEntry 4 + 5 - gdtEntry 4).toNat = 5 := by decide
        rw [he, hfive] at hfar
        omega
      rw [hsame, h.entry i hlow hhigh]
      unfold gdtSegments
      split <;> first | omega | rfl

/-- `tss_init` over the loader's table: every selector of the table, what is in the task register,
the state segment, and nothing else. -/
lemma tssInit_ready (h : LoaderGdt m) (hapart : TssApart tss) (t : TableRegisters) :
    ∃ m' t', tssInit m t tss = some (m', t') ∧ TssReady tss 0 m' t' ∧ t'.idtr = t.idtr ∧
      ∀ a, 56 ≤ (a - gdtBaseAddr).toNat → 108 ≤ (a - tss).toNat → m' a = m a := by
  have hgdtr : TableRegister.ofOperand gdtOper = ⟨gdtBaseAddr, 55⟩ := by decide
  have hold : ∀ i, 1 ≤ i → i < 4 →
      some (segmentAt (tssFields m tss) (gdtEntry i)) = gdtSegments tss false i := by
    intro i hlow hhigh
    rw [← h.entry tss false i hlow hhigh]
    refine congrArg some (segmentAt_congr fun k hk => tssFields_of_apart ?_)
    rw [gdtEntry_add]
    exact (hapart.symm (by norm_num)).far (by omega)
  have hready := gdtReady_tssDescs hold
  have hattr : tssDescs (tssFields m tss) tss (gdtEntry 4 + 5) = tssAttrLow := by
    have hne5 : 8 ≤ (gdtEntry 4 + 5 - gdtEntry 5).toNat := by decide
    have hne6 : 8 ≤ (gdtEntry 4 + 5 - gdtEntry 6).toNat := by decide
    rw [tssDescs, gdtDescMake_of_apart hne6, gdtDescMake_of_apart hne5, gdtDescMake_eq]
    exact storeBytes_get (i := 5) (by simp [descBytes]) rfl
  have hbusy : ∀ b : Word, 56 ≤ (b - gdtBaseAddr).toNat → b ≠ gdtEntry 4 + 5 := by
    rintro b hb rfl
    exact absurd hb (by decide)
  have hsame : ∀ b : Word, 56 ≤ (b - gdtBaseAddr).toNat →
      Function.update (tssDescs (tssFields m tss) tss) (gdtEntry 4 + 5)
        (tssDescs (tssFields m tss) tss (gdtEntry 4 + 5) ||| 2) b = tssFields m tss b :=
    fun b hb => (Function.update_of_ne (hbusy b hb) _ _).trans (tssDescs_of_apart hb)
  let u : TableRegisters := { t with gdtr := .ofOperand gdtOper }
  have hltr := ltr_eq (t := u) (by decide : selectorTss.getLsbD 2 = false)
    (segmentOf_gdt hgdtr hready (by decide)) rfl rfl
  refine ⟨_, _, hltr, ⟨hgdtr, hready.busy hattr, rfl, ?_⟩, rfl, fun a hgdt htss => ?_⟩
  · have hlen := length_tssWords 0
    refine holds_tssFields.congr (by omega) fun b hb => hsame b ?_
    have hfar := hapart.far (j := (b - tss).toNat) (by omega)
    rwa [BitVec.ofNat_toNat, BitVec.setWidth_eq, add_sub_cancel] at hfar
  · exact (hsame a hgdt).trans (tssFields_of_apart htss)

lemma TssReady.congr (h : TssReady tss esp0 m t)
    (hgdt : ∀ i, 1 ≤ i → i < 7 → segmentAt m' (gdtEntry i) = segmentAt m (gdtEntry i))
    (htss : ∀ k < 108, m' (tss + BitVec.ofNat 32 k) = m (tss + BitVec.ofNat 32 k)) :
    TssReady tss esp0 m' t where
  gdtr := h.gdtr
  gdt := ⟨fun i hlow hhigh => by rw [hgdt i hlow hhigh, h.gdt.entry i hlow hhigh]⟩
  tr := h.tr
  state := by
    have hlen := length_tssWords esp0
    refine h.state.congr (by omega) fun b hb => ?_
    have hbyte := htss (b - tss).toNat (by omega)
    rwa [BitVec.ofNat_toNat, BitVec.setWidth_eq, add_sub_cancel] at hbyte

lemma TssReady.esp0Update (h : TssReady tss esp0 m t) (hapart : TssApart tss) (thread : Word) :
    TssReady tss (thread + 4096) (tssEsp0UpdateAt m tss thread) t := by
  have hgdt : GdtReady tss true (tssEsp0UpdateAt m tss thread) := by
    constructor
    intro i hlow hhigh
    rw [← h.gdt.entry i hlow hhigh]
    refine congrArg some (segmentAt_congr fun k hk => tssEsp0UpdateAt_of_apart ?_ thread)
    rw [gdtEntry_add]
    exact (hapart.symm (by norm_num)).far (by omega)
  exact ⟨h.gdtr, hgdt, h.tr, holds_tssEsp0UpdateAt h.state thread⟩

end Ready

section Rights

variable {m : Mem} {t : TableRegisters} {tss esp0 : Word}

/-- The map of the ports is where `trace` ends, not where `io_base` is, so that the state segment
is its own map. -/
lemma TssReady.portAllowed (h : TssReady tss esp0 m t) (port : BitVec 16) :
    X86.portAllowed m t 3 0 port =
      !(m (tss + BitVec.ofNat 32 (port.toNat / 8))).getLsbD (port.toNat % 8) := by
  have hlow := h.state.byte (k := 102) (w := 0) rfl
  have hhigh := h.state.byte (k := 103) (w := 0) rfl
  have hbase : load16 m (tss + 102) = 0 := by
    have hnext : tss + 102 + 1 = tss + BitVec.ofNat 32 103 := add_assoc tss 102 1
    rw [load16, hnext, hhigh]
    exact congrArg _ hlow
  have hzero : (0 : BitVec 16).toNat = 0 := rfl
  have hlimit : (tssSegment tss true).lastOffset = 442367 := by
    simp [Segment.lastOffset, tssSegment]
  rw [portAllowed_eq port (by decide) (by rw [h.tr]; omega), h.tr]
  simp only [tssSegment]
  rw [hbase, hzero, Nat.zero_add]

/-- Of the segments, ring 3 can load its data segment only. -/
lemma TssReady.loadsData_iff (h : TssReady tss esp0 m t) {selector : BitVec 16}
    (hti : selector.getLsbD 2 = false) :
    loadsData m t 3 selector = true ↔ selector.toNat / 8 = 6 := by
  have hrpl : rpl selector ≤ 3#2 := by
    have hlt := (rpl selector).isLt
    rw [BitVec.le_def]
    change _ ≤ 3
    omega
  rw [loadsData, segmentOf_gdt h.gdtr h.gdt hti]
  by_cases hi : 1 ≤ selector.toNat / 8 ∧ selector.toNat / 8 < 7
  · obtain ⟨hlow, hhigh⟩ := hi
    generalize selector.toNat / 8 = i at hlow hhigh
    interval_cases i <;> simp [gdtSegments, tssSegment, hrpl]
  · rw [gdtSegments_bounds hi]
    constructor
    · intro hfalse
      exact absurd hfalse Bool.false_ne_true
    · omega

end Rights

section Runs

open TransitionSystem

/-- `other` is any code, and the processor as it marks segments accessed. -/
inductive TssEvent
  | esp0Update (thread : Word)
  | other (m : Mem)

def tssStep (tss : Word) : Mem → TssEvent → Option Mem
  | m, .esp0Update thread => some (tssEsp0UpdateAt m tss thread)
  | _, .other m' => some m'

/-- A thread is at the start of its page, and other code leaves the descriptors and the state
segment. -/
def TssAllowed (tss : Word) : Mem → TssEvent → Prop
  | _, .esp0Update thread => thread.toNat % 4096 = 0
  | m, .other m' =>
    (∀ i, 1 ≤ i → i < 7 → segmentAt m' (gdtEntry i) = segmentAt m (gdtEntry i)) ∧
      ∀ k < 108, m' (tss + BitVec.ofNat 32 k) = m (tss + BitVec.ofNat 32 k)

variable {m n : Mem} {t : TableRegisters} {tss esp0 : Word}

/-- Whatever else runs, the tables stay and the stack of ring 0 ends a page. -/
def TssInv (tss : Word) (t : TableRegisters) (m : Mem) : Prop :=
  ∃ esp0 : Word, TssReady tss esp0 m t ∧ esp0.toNat % 4096 = 0

lemma tssInv_step (hapart : TssApart tss) {e : TssEvent} (h : TssInv tss t m)
    (ok : TssAllowed tss m e) (taken : tssStep tss m e = some n) : TssInv tss t n := by
  obtain ⟨esp0, hready, halign⟩ := h
  cases e with
  | esp0Update thread =>
    obtain rfl := Option.some.inj taken
    have hthread : thread.toNat % 4096 = 0 := ok
    have hpage : (4096 : Word).toNat = 4096 := rfl
    refine ⟨thread + 4096, hready.esp0Update hapart thread, ?_⟩
    rw [BitVec.toNat_add, hpage]
    omega
  | other m' =>
    obtain rfl := Option.some.inj taken
    exact ⟨esp0, hready.congr ok.1 ok.2, halign⟩

lemma reach_tssInv (hapart : TssApart tss) (h : TssInv tss t m)
    (hreach : Reach (tssStep tss) (TssAllowed tss) m n) : TssInv tss t n :=
  hreach.invariant h fun _ _ _ hs ok taken => tssInv_step hapart hs ok taken

/-- `tss_init` after the loader: what each selector names, in every later state; which of them a
user process can load, and the ones `start_process` gives it. -/
theorem tssInit_selectors (h : Holds m gdtBaseAddr Loader.gdt) (hapart : TssApart tss)
    (t : TableRegisters) : ∃ m' t', tssInit m t tss = some (m', t') ∧
      ∀ n, Reach (tssStep tss) (TssAllowed tss) m' n →
        (∀ selector : BitVec 16, selector.getLsbD 2 = false →
          segmentOf n t' selector = gdtSegments tss true (selector.toNat / 8) ∧
            (loadsData n t' 3 selector = true ↔ selector.toNat / 8 = 6)) ∧
        iretChecks n t' 0 selectorUCode selectorUData = true ∧
        loadsData n t' 0 selectorUData = true := by
  obtain ⟨m', t', hinit, hready, -, -⟩ := tssInit_ready (loaderGdt_of_holds h) hapart t
  refine ⟨m', t', hinit, fun n hn => ?_⟩
  obtain ⟨esp0, hn, -⟩ := reach_tssInv hapart ⟨0, hready, rfl⟩ hn
  have hcode := segmentOf_gdt hn.gdtr hn.gdt (by decide : selectorUCode.getLsbD 2 = false)
  have hdata := segmentOf_gdt hn.gdtr hn.gdt (by decide : selectorUData.getLsbD 2 = false)
  refine ⟨fun selector hti => ⟨segmentOf_gdt hn.gdtr hn.gdt hti, hn.loadsData_iff hti⟩, ?_, ?_⟩
  · rw [iretChecks, hcode, hdata]
    rfl
  · rw [loadsData, hdata]
    rfl

/-- The state segment at 0xc00079c0. -/
theorem tssInit_selectors_linked : ∃ m' t',
    tssInit Loader.gdtMem ⟨⟨0, 0⟩, ⟨0, 0⟩, tssSegment 0 true, fun _ => none⟩ 0xc00079c0 =
        some (m', t') ∧
      ∀ n, Reach (tssStep 0xc00079c0) (TssAllowed 0xc00079c0) m' n →
        (∀ selector : BitVec 16, selector.getLsbD 2 = false →
          segmentOf n t' selector = gdtSegments 0xc00079c0 true (selector.toNat / 8) ∧
            (loadsData n t' 3 selector = true ↔ selector.toNat / 8 = 6)) ∧
        iretChecks n t' 0 selectorUCode selectorUData = true ∧
        loadsData n t' 0 selectorUData = true :=
  tssInit_selectors Loader.holds_gdtMem (by decide) _

end Runs

end OsI386
