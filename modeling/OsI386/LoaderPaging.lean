import OsI386.LoaderTables
import OsI386.PageWalk
import OsI386.SubRegisters

/-!
# mbr_and_loader/loader.s: setup_page

Paging is off while the tables are built, so that memory is physical memory. The bytes of a frame
are seen as the words of its slots, and the routine makes of them what `setupPage` says. Of the
page tables only the first 256 entries are written, so the rest is what memory held before. The
flags that no jump reads are left out.
-/
namespace OsI386
open X86

def pageDirTablePos : Word := 0x100000

/-- `PG_US_U|PG_RW_W|PG_P`. -/
def pgAttrs : Word := 4 ||| 2 ||| 1

namespace Loader

section Code

/-- `.clear_page_dir`, up to the `loop`. -/
def clearPageDirPass (s : State) : State :=
  let s := { s with mem := Function.update s.mem (pageDirTablePos + s.esi) 0 }
  { s with esi := s.esi + 1 }

def clearPageDir (s : State) : State :=
  let s := { s with ecx := 4096 }
  let s := { s with esi := 0 }
  loopEcx clearPageDirPass (2 ^ 32) s

/-- `.creat_pde`, up to the entries of the first table. -/
def creatPde (s : State) : State :=
  let s := { s with eax := pageDirTablePos }
  let s := { s with eax := s.eax + 0x1000 }
  let s := { s with ebx := s.eax }
  let s := { s with eax := s.eax ||| pgAttrs }
  let s := { s with mem := store32 s.mem (pageDirTablePos + 0x0) s.eax }
  let s := { s with mem := store32 s.mem (pageDirTablePos + 0xc00) s.eax }
  let s := { s with eax := s.eax - 0x1000 }
  { s with mem := store32 s.mem (pageDirTablePos + 4092) s.eax }

/-- `.creat_pte`, up to the `loop`. -/
def creatPtePass (s : State) : State :=
  let s := { s with mem := store32 s.mem (s.ebx + s.esi * 4) s.edx }
  let s := { s with edx := s.edx + 4096 }
  { s with esi := s.esi + 1 }

def creatPte (s : State) : State :=
  let s := { s with ecx := 256 }
  let s := { s with esi := 0 }
  let s := { s with edx := pgAttrs }
  loopEcx creatPtePass (2 ^ 32) s

/-- `.create_kernel_pde`, up to the `loop`. -/
def createKernelPdePass (s : State) : State :=
  let s := { s with mem := store32 s.mem (s.ebx + s.esi * 4) s.eax }
  let s := { s with esi := s.esi + 1 }
  { s with eax := s.eax + 0x1000 }

def createKernelPde (s : State) : State :=
  let s := { s with eax := pageDirTablePos }
  let s := { s with eax := s.eax + 0x2000 }
  let s := { s with eax := s.eax ||| pgAttrs }
  let s := { s with ebx := pageDirTablePos }
  let s := { s with ecx := 254 }
  let s := { s with esi := 769 }
  loopEcx createKernelPdePass (2 ^ 32) s

def setupPage (s : State) : State :=
  (createKernelPde (creatPte (creatPde (clearPageDir s)))).ret

end Code

end Loader

section Slots

variable {m : Mem} {f g : FrameNo} {i j : Slot} {w : Word}

/-- The address of a slot of a frame. -/
def slotAddr (f : FrameNo) (i : Slot) : Word := f ++ i ++ 0#2

/-- Memory as the words of the slots. -/
def physOf (m : Mem) : Phys := fun f i => load32 m (slotAddr f i)

lemma toNat_slotAddr (f : FrameNo) (i : Slot) :
    (slotAddr f i).toNat = f.toNat * 4096 + i.toNat * 4 := by
  have hi := i.isLt
  rw [slotAddr, BitVec.toNat_append, BitVec.toNat_append, ← Nat.shiftLeft_add_eq_or_of_lt i.isLt,
    ← Nat.shiftLeft_add_eq_or_of_lt (by decide), Nat.shiftLeft_eq, Nat.shiftLeft_eq]
  have hzero : (0#2).toNat = 0 := rfl
  omega

lemma slotAddr_inj (h : slotAddr f i = slotAddr g j) : f = g ∧ i = j := by
  have hi := i.isLt
  have hj := j.isLt
  have hnat := congrArg BitVec.toNat h
  rw [toNat_slotAddr, toNat_slotAddr] at hnat
  exact ⟨BitVec.eq_of_toNat_eq (by omega), BitVec.eq_of_toNat_eq (by omega)⟩

/-- Two slots do not overlap. -/
lemma slotAddr_apart (h : (f, i) ≠ (g, j)) : 4 ≤ (slotAddr f i - slotAddr g j).toNat ∧
    (slotAddr f i - slotAddr g j).toNat + 4 ≤ 2 ^ 32 := by
  have hne : (slotAddr f i).toNat ≠ (slotAddr g j).toNat := by
    intro he
    obtain ⟨hf, hi⟩ := slotAddr_inj (BitVec.eq_of_toNat_eq he)
    exact h (Prod.ext hf hi)
  have hf := (slotAddr f i).isLt
  have hg := (slotAddr g j).isLt
  rw [BitVec.toNat_sub]
  rw [toNat_slotAddr] at hne hf ⊢
  rw [toNat_slotAddr] at hne hg ⊢
  omega

lemma physOf_store32 (m : Mem) (f : FrameNo) (i : Slot) (w : Word) :
    physOf (store32 m (slotAddr f i) w) = writeSlot (physOf m) f i w := by
  funext g j
  rw [writeSlot_apply (physOf m) (f, i) w (g, j)]
  by_cases h : (f, i) = (g, j)
  · rw [if_pos h]
    obtain ⟨rfl, rfl⟩ := Prod.mk.inj h
    exact load32_store32 _ _ _
  · rw [if_neg h]
    have hapart := slotAddr_apart (Ne.symm h)
    exact load32_store32_of_apart hapart.1 hapart.2

end Slots

section Passes

variable {m : Mem} {p : Phys} {f : FrameNo} {lo k : ℕ} {e : Slot → Word} {s : State}

/-- The first `k` bytes of the directory cleared. -/
def cleared (m : Mem) (k : ℕ) : Mem := fun a => if (a - pageDirTablePos).toNat < k then 0 else m a

lemma cleared_succ (m : Mem) (hk : k < 2 ^ 32) :
    Function.update (cleared m k) (pageDirTablePos + BitVec.ofNat 32 k) 0 = cleared m (k + 1) := by
  funext a
  by_cases ha : a = pageDirTablePos + BitVec.ofNat 32 k
  · have hoff : (a - pageDirTablePos).toNat = k := by
      rw [ha, add_sub_cancel_left, BitVec.toNat_ofNat, Nat.mod_eq_of_lt hk]
    rw [ha, Function.update_self, ← ha]
    exact (if_pos (by omega)).symm
  · have hne : (a - pageDirTablePos).toNat ≠ k := by
      intro hoff
      apply ha
      rw [← hoff, BitVec.ofNat_toNat, BitVec.setWidth_eq, add_sub_cancel]
    rw [Function.update_of_ne ha]
    exact if_congr (by omega) rfl rfl

/-- After `k` passes of `.clear_page_dir`. -/
def ClearInv (m : Mem) (k : ℕ) (s : State) : Prop :=
  s.esi = BitVec.ofNat 32 k ∧ s.mem = cleared m k

lemma passKeeps_clearPageDir (m : Mem) :
    PassKeeps Loader.clearPageDirPass 4096 (ClearInv m) := by
  rintro k s hk ⟨hesi, hmem⟩
  refine ⟨rfl, ?_, ?_⟩
  · change s.esi + 1 = _
    rw [hesi, BitVec.ofNat_add]
    rfl
  · change Function.update s.mem (pageDirTablePos + s.esi) 0 = _
    rw [hesi, hmem, cleared_succ m (by omega)]

lemma clearPageDir_mem (s : State) : (Loader.clearPageDir s).mem = cleared s.mem 4096 := by
  have hstart : ClearInv s.mem 0 { s with ecx := 4096, esi := 0 } :=
    ⟨rfl, (funext fun a => if_neg (Nat.not_lt_zero _)).symm⟩
  exact (loopEcx_rule (passKeeps_clearPageDir s.mem) (by norm_num) hstart rfl).2

/-- The slots of the directory are 0, the others as before. -/
lemma physOf_cleared (m : Mem) :
    physOf (cleared m 4096) = fun f i => if f = 0x100 then 0 else physOf m f i := by
  funext f i
  have hi := i.isLt
  have hflt := f.isLt
  have hbyte : ∀ k < 4, cleared m 4096 (slotAddr f i + BitVec.ofNat 32 k) =
      if f = 0x100 then 0 else m (slotAddr f i + BitVec.ofNat 32 k) := by
    intro k hk
    have haddr : (slotAddr f i + BitVec.ofNat 32 k).toNat = f.toNat * 4096 + i.toNat * 4 + k := by
      rw [BitVec.toNat_add, toNat_slotAddr, BitVec.toNat_ofNat]
      omega
    have hpos : pageDirTablePos.toNat = 0x100000 := rfl
    refine if_congr ?_ rfl rfl
    rw [BitVec.toNat_sub, haddr, hpos, ← BitVec.toNat_inj]
    change _ ↔ f.toNat = 0x100
    omega
  by_cases hf : f = 0x100
  · have hzero : physOf (cleared m 4096) f i = load32 (fun _ => 0) (slotAddr f i) := by
      refine load32_congr fun k hk => ?_
      rw [hbyte k hk, if_pos hf]
    rw [hzero, if_pos hf]
    change (0#8 ++ 0#8 ++ 0#8 ++ 0#8 : Word) = 0
    rfl
  · rw [if_neg hf]
    refine load32_congr fun k hk => ?_
    rw [hbyte k hk, if_neg hf]

/-- `k` slots of a frame filled, from slot `lo` on. -/
def filledSlots (p : Phys) (f : FrameNo) (lo k : ℕ) (e : Slot → Word) : Phys := fun g i =>
  if g = f ∧ lo ≤ i.toNat ∧ i.toNat < lo + k then e i else p g i

lemma filledSlots_zero (p : Phys) (f : FrameNo) (lo : ℕ) (e : Slot → Word) :
    filledSlots p f lo 0 e = p := by
  funext g i
  exact if_neg (by omega)

lemma filledSlots_succ (h : lo + k < 2 ^ 10) :
    writeSlot (filledSlots p f lo k e) f (BitVec.ofNat 10 (lo + k)) (e (BitVec.ofNat 10 (lo + k))) =
      filledSlots p f lo (k + 1) e := by
  have hnat : (BitVec.ofNat 10 (lo + k)).toNat = lo + k := by
    rw [BitVec.toNat_ofNat, Nat.mod_eq_of_lt h]
  funext g i
  rw [writeSlot_apply _ (f, _) _ (g, i)]
  by_cases heq : (f, BitVec.ofNat 10 (lo + k)) = (g, i)
  · obtain ⟨rfl, rfl⟩ := Prod.mk.inj heq
    rw [if_pos rfl]
    exact (if_pos ⟨rfl, by omega, by omega⟩).symm
  · rw [if_neg heq]
    have hne : g = f → i.toNat ≠ lo + k := by
      rintro rfl hi
      exact heq (Prod.ext rfl (BitVec.eq_of_toNat_eq (hnat.trans hi.symm)))
    refine if_congr (and_congr_right fun hg => ?_) rfl rfl
    have hi : i.toNat ≠ lo + k := hne hg
    change lo ≤ i.toNat ∧ i.toNat < lo + k ↔ _
    omega

/-- The attributes are below the address of a frame. -/
lemma or_pgAttrs {x : Word} (h : x.toNat % 4096 = 0) : x ||| 7 = x + 7 := by
  have hlt := x.isLt
  have hseven : (7 : Word).toNat = 7 := rfl
  have hx : x.toNat = 2 ^ 12 * (x.toNat / 4096) := by omega
  apply BitVec.eq_of_toNat_eq
  rw [BitVec.toNat_or, BitVec.toNat_add, hseven, hx, ← Nat.two_pow_add_eq_or_of_lt (by norm_num)]
  omega

/-- The entry of `.creat_pte` for a slot of the first table. -/
def lowEntry (i : Slot) : Word := i.setWidth 32 * 4096 ||| 7

/-- The entry of `.create_kernel_pde` for a slot of the directory. -/
def kernelEntry (i : Slot) : Word := (0x102000 + (i - 769).setWidth 32 * 0x1000) ||| 7

lemma lowEntry_eq (hk : k < 256) :
    lowEntry (BitVec.ofNat 10 k) = BitVec.ofNat 32 (7 + 4096 * k) := by
  have hmul : (BitVec.setWidth 32 (BitVec.ofNat 10 k) * 4096).toNat = 4096 * k := by
    rw [BitVec.toNat_mul, BitVec.toNat_setWidth, BitVec.toNat_ofNat]
    change k % 2 ^ 10 % 2 ^ 32 * 4096 % 2 ^ 32 = _
    omega
  rw [lowEntry, or_pgAttrs (by omega)]
  apply BitVec.eq_of_toNat_eq
  rw [BitVec.toNat_add, hmul, BitVec.toNat_ofNat]
  change (4096 * k + 7) % 2 ^ 32 = _
  omega

lemma kernelEntry_eq (hk : k < 254) :
    kernelEntry (BitVec.ofNat 10 (769 + k)) = BitVec.ofNat 32 (0x102007 + 0x1000 * k) := by
  have hsub : (BitVec.ofNat 10 (769 + k) - 769).toNat = k := by
    rw [BitVec.toNat_sub, BitVec.toNat_ofNat]
    change (2 ^ 10 - 769 + (769 + k) % 2 ^ 10) % 2 ^ 10 = _
    omega
  have hadd : (0x102000 + (BitVec.ofNat 10 (769 + k) - 769).setWidth 32 * 0x1000 : Word).toNat =
      0x102000 + 0x1000 * k := by
    rw [BitVec.toNat_add, BitVec.toNat_mul, BitVec.toNat_setWidth, hsub]
    change (0x102000 + k % 2 ^ 32 * 0x1000 % 2 ^ 32) % 2 ^ 32 = _
    omega
  rw [kernelEntry, or_pgAttrs (by omega)]
  apply BitVec.eq_of_toNat_eq
  rw [BitVec.toNat_add, hadd, BitVec.toNat_ofNat]
  change (0x102000 + 0x1000 * k + 7) % 2 ^ 32 = _
  omega

/-- A slot of a frame by its address. -/
lemma slotAddr_ofNat (f : FrameNo) (hk : k < 2 ^ 10) :
    frameAddr f + BitVec.ofNat 32 k * 4 = slotAddr f (BitVec.ofNat 10 k) := by
  have hf := f.isLt
  apply BitVec.eq_of_toNat_eq
  rw [toNat_slotAddr, BitVec.toNat_add, toNat_frameAddr, BitVec.toNat_mul, BitVec.toNat_ofNat,
    BitVec.toNat_ofNat]
  change (_ + k % 2 ^ 32 * 4 % 2 ^ 32) % 2 ^ 32 = _
  omega

/-- After `k` passes of `.creat_pte`. -/
structure CreatPteInv (p : Phys) (k : ℕ) (s : State) : Prop where
  esi : s.esi = BitVec.ofNat 32 k
  ebx : s.ebx = frameAddr 0x101
  edx : s.edx = BitVec.ofNat 32 (7 + 4096 * k)
  mem : physOf s.mem = filledSlots p 0x101 0 k lowEntry

lemma passKeeps_creatPte (p : Phys) : PassKeeps Loader.creatPtePass 256 (CreatPteInv p) := by
  intro k s hk h
  simp only [Loader.creatPtePass, true_and]
  constructor <;> dsimp only
  · rw [h.esi, BitVec.ofNat_add]
    rfl
  · exact h.ebx
  · rw [h.edx, Nat.mul_succ, ← Nat.add_assoc, BitVec.ofNat_add (7 + 4096 * k)]
    rfl
  · rw [h.ebx, h.esi, slotAddr_ofNat _ (by omega), physOf_store32, h.mem, h.edx, ← lowEntry_eq hk]
    have hfill := @filledSlots_succ p 0x101 0 k lowEntry (by omega)
    rwa [Nat.zero_add] at hfill

lemma creatPte_mem (hebx : s.ebx = frameAddr 0x101) : physOf (Loader.creatPte s).mem =
    filledSlots (physOf s.mem) 0x101 0 256 lowEntry := by
  have hstart : CreatPteInv (physOf s.mem) 0 { s with ecx := 256, esi := 0, edx := pgAttrs } :=
    ⟨rfl, hebx, rfl, (filledSlots_zero _ _ _ _).symm⟩
  exact (loopEcx_rule (passKeeps_creatPte (physOf s.mem)) (by norm_num) hstart rfl).mem

/-- After `k` passes of `.create_kernel_pde`. -/
structure KernelPdeInv (p : Phys) (k : ℕ) (s : State) : Prop where
  esi : s.esi = BitVec.ofNat 32 (769 + k)
  ebx : s.ebx = frameAddr 0x100
  eax : s.eax = BitVec.ofNat 32 (0x102007 + 0x1000 * k)
  mem : physOf s.mem = filledSlots p 0x100 769 k kernelEntry

lemma passKeeps_createKernelPde (p : Phys) :
    PassKeeps Loader.createKernelPdePass 254 (KernelPdeInv p) := by
  intro k s hk h
  simp only [Loader.createKernelPdePass, true_and]
  constructor <;> dsimp only
  · rw [h.esi, ← Nat.add_assoc, BitVec.ofNat_add (769 + k)]
    rfl
  · exact h.ebx
  · rw [h.eax, Nat.mul_succ, ← Nat.add_assoc, BitVec.ofNat_add (0x102007 + 0x1000 * k)]
    rfl
  · rw [h.ebx, h.esi, slotAddr_ofNat _ (by omega), physOf_store32, h.mem, h.eax,
      ← kernelEntry_eq hk]
    exact filledSlots_succ (by omega)

lemma createKernelPde_mem (s : State) : physOf (Loader.createKernelPde s).mem =
    filledSlots (physOf s.mem) 0x100 769 254 kernelEntry := by
  have heax : pageDirTablePos + 0x2000 ||| pgAttrs = BitVec.ofNat 32 (0x102007 + 0x1000 * 0) := by
    decide
  set start : State := { s with
    eax := pageDirTablePos + 0x2000 ||| pgAttrs, ebx := pageDirTablePos, ecx := 254, esi := 769 }
  have hstart : KernelPdeInv (physOf s.mem) 0 start :=
    ⟨rfl, rfl, heax, (filledSlots_zero _ _ _ _).symm⟩
  have hloop : Loader.createKernelPde s = loopEcx Loader.createKernelPdePass (2 ^ 32) start := rfl
  rw [hloop]
  exact (loopEcx_rule (passKeeps_createKernelPde (physOf s.mem)) (by norm_num) hstart rfl).mem

lemma creatPde_mem (s : State) : (Loader.creatPde s).mem =
    store32 (store32 (store32 s.mem (slotAddr 0x100 0) 0x101007) (slotAddr 0x100 768) 0x101007)
      (slotAddr 0x100 1023) 0x100007 := by
  have hfirst : pageDirTablePos + 0x0 = slotAddr 0x100 0 := by decide
  have hkernel : pageDirTablePos + 0xc00 = slotAddr 0x100 768 := by decide
  have hlast : pageDirTablePos + 4092 = slotAddr 0x100 1023 := by decide
  have htable : pageDirTablePos + 0x1000 ||| pgAttrs = 0x101007 := by decide
  have hself : (0x101007 : Word) - 0x1000 = 0x100007 := by decide
  simp only [Loader.creatPde]
  rw [htable, hself, hfirst, hkernel, hlast]

lemma creatPde_ebx (s : State) : (Loader.creatPde s).ebx = frameAddr 0x101 := by
  simp only [Loader.creatPde]
  decide

/-- `setup_page` makes the tables that the memory management starts from. -/
theorem loader_setupPage (s : State) :
    physOf (Loader.setupPage s).mem = setupPage (physOf s.mem) := by
  change physOf (Loader.createKernelPde _).mem = _
  rw [createKernelPde_mem, creatPte_mem (creatPde_ebx _), creatPde_mem, physOf_store32,
    physOf_store32, physOf_store32, clearPageDir_mem, physOf_cleared]
  funext f i
  have hrow : ∀ (q : Phys) (j : Slot) (w : Word), writeSlot q 0x100 j w f i =
      if f = 0x100 ∧ i.toNat = j.toNat then w else q f i := by
    intro q j w
    rw [writeSlot_apply q (0x100, j) w (f, i)]
    refine if_congr ?_ rfl rfl
    rw [Prod.mk.injEq, BitVec.toNat_inj, eq_comm, @eq_comm _ j]
  have hzero : i = 0 ↔ i.toNat = 0 := BitVec.toNat_inj.symm
  have hkernel : i = 768 ↔ i.toNat = 768 := BitVec.toNat_inj.symm
  have hlast : i = 1023 ↔ i.toNat = 1023 := BitVec.toNat_inj.symm
  have htables : (769 : Slot) ≤ i ↔ 769 ≤ i.toNat := Iff.rfl
  have hlow : i < 256 ↔ i.toNat < 256 := Iff.rfl
  have hslots : (0 : Slot).toNat = 0 ∧ (768 : Slot).toNat = 768 ∧ (1023 : Slot).toNat = 1023 := by
    decide
  have hi := i.isLt
  simp only [filledSlots, hrow, setupPage, hzero, hkernel, hlast, htables, hlow, hslots]
  by_cases hf : f = 0x100
  case pos =>
    have hfirst : ((0x100 : FrameNo) = 0x101) = False := eq_false (by decide)
    subst hf
    simp only [if_true, true_and, hfirst, false_and, if_false, kernelEntry]
    split_ifs <;> first | rfl | omega
  case neg => simp only [hf, false_and, if_false, Nat.zero_add, Nat.zero_le, true_and, lowEntry]

end Passes

section Mapping

variable {m p : Phys} {v : Word} {f : FrameNo} {i : Slot}

/-- The physical address of `v`; `none` is a page fault. -/
def pageWalk (m : Phys) (v : Word) : Option Word :=
  (translate m (frameOf pageDirTablePos) v).map fun f => frameAddr f + (v &&& 0xfff)

/-- The table that the entry of a region points to. -/
def regionTable (i : Slot) : FrameNo := BitVec.ofNat 20 (0x101 + (i.toNat - 768))

/-- The page of the window at a slot of the directory: a page table, or the directory. -/
def windowPage (i : Slot) : Option FrameNo :=
  if i = 1023 then some 0x100
  else if i = 0 then some 0x101
  else if 768 ≤ i.toNat then some (regionTable i)
  else none

/-- What is mapped when the loader turns paging on. -/
structure BootMapped (m : Phys) : Prop where
  low : ∀ v : Word, v.toNat < 0x100000 → pageWalk m v = some v
  high : ∀ v : Word, 0xc0000000 ≤ v.toNat → v.toNat < 0xc0100000 →
    pageWalk m v = some (v - 0xc0000000)
  window : ∀ v : Word, 0xffc00000 ≤ v.toNat →
    pageWalk m v = (windowPage (pteIdx v)).map fun f => frameAddr f + (v &&& 0xfff)
  tables : ∀ i : Slot, 768 ≤ i.toNat → i.toNat < 1023 → present (m 0x100 i) = true ∧
    0x101000 ≤ (frameAddr (frameOf (m 0x100 i))).toNat ∧
    (frameAddr (frameOf (m 0x100 i))).toNat < 0x200000
  distinct : ∀ i j : Slot, 768 ≤ i.toNat → i.toNat < 1023 → 768 ≤ j.toNat → j.toNat < 1023 →
    frameOf (m 0x100 i) = frameOf (m 0x100 j) → i = j
  others : ∀ v : Word, 0x100000 ≤ v.toNat → v.toNat < 0xffc00000 →
    ¬ (0xc0000000 ≤ v.toNat ∧ v.toNat < 0xc0100000) → pageWalk m v = none

/-- No `P` bit where the page tables will be, but in the entries that are filled. -/
def NoStaleEntry (p : Phys) : Prop := ∀ (f : FrameNo) (i : Slot), 0x101 ≤ f.toNat →
  f.toNat < 0x200 → ¬ (f = 0x101 ∧ i.toNat < 256) → present (p f i) = false

lemma translate_eq_none_iff {d : FrameNo} : translate m d v = none ↔
    (present (m d (pdeIdx v)) = true →
      present (m (frameOf (m d (pdeIdx v))) (pteIdx v)) = false) := by
  unfold translate
  dsimp only
  split_ifs with hd ht
  · simp [hd, ht]
  · simp [hd, ht]
  · simp [hd]

lemma pageWalk_eq_none_iff : pageWalk m v = none ↔ translate m 0x100 v = none :=
  Option.map_eq_none_iff

lemma setupPage_first (hi : i = 0 ∨ i = 768) : setupPage p 0x100 i = 0x101007 := by
  rw [setupPage, if_pos rfl, if_pos hi]

/-- Outside the directory and the filled entries, memory stays. -/
lemma setupPage_stale (hf : 0x101 ≤ f.toNat) (hlow : ¬ (f = 0x101 ∧ i.toNat < 256)) :
    setupPage p f i = p f i := by
  have hdir : f ≠ 0x100 := by
    rintro rfl
    exact absurd hf (by decide)
  rw [setupPage, if_neg hdir]
  exact if_neg hlow

/-- The first table maps the first MiB. -/
lemma pageWalk_first (hdir : pdeIdx v = 0 ∨ pdeIdx v = 768) (hlow : (pteIdx v).toNat < 256) :
    ∃ a : Word, pageWalk (setupPage p) v = some a ∧ a.toNat = v.toNat % 2 ^ 22 := by
  have hpde : setupPage p 0x100 (pdeIdx v) = 0x101007 := setupPage_first hdir
  have hpte : setupPage p 0x101 (pteIdx v) = (pteIdx v).setWidth 32 * 4096 ||| 7 := by
    rw [setupPage, if_neg (by decide)]
    exact if_pos ⟨rfl, hlow⟩
  have hwalk : translate (setupPage p) 0x100 v =
      some (frameOf ((pteIdx v).setWidth 32 * 4096 ||| 7)) := by
    have hframe : frameOf 0x101007 = 0x101 := by decide
    have hpresent : present 0x101007 = true := by decide
    simp only [translate, hpde, hpresent, hframe, hpte, present_or_flags, if_true]
  refine ⟨_, congrArg (Option.map _) hwalk, ?_⟩
  have hpage : (4096 : Word).toNat = 4096 := rfl
  rw [frameOf_or_flags, BitVec.toNat_add, toNat_frameAddr, toNat_frameOf, toNat_and_offsetMask,
    BitVec.toNat_mul, BitVec.toNat_setWidth, hpage, toNat_pteIdx]
  rw [toNat_pteIdx] at hlow
  omega

lemma toNat_regionTable (i : Slot) : (regionTable i).toNat = 0x101 + (i.toNat - 768) := by
  have hi := i.isLt
  rw [regionTable, BitVec.toNat_ofNat]
  omega

lemma frameOf_setupPage (hkernel : i = 0 ∨ 768 ≤ i.toNat) (hhigh : i.toNat < 1023) :
    present (setupPage p 0x100 i) = true ∧ frameOf (setupPage p 0x100 i) = regionTable i := by
  obtain rfl | hlow := hkernel
  · rw [setupPage_first (Or.inl rfl)]
    decide
  · obtain ⟨hp, hframe⟩ := setupPage_kernel p hlow hhigh
    exact ⟨hp, BitVec.eq_of_toNat_eq (hframe.trans (toNat_regionTable i).symm)⟩

/-- A page that a table of the kernel does not map on purpose. -/
lemma translate_table (hkernel : pdeIdx v = 0 ∨ 768 ≤ (pdeIdx v).toNat)
    (hhigh : (pdeIdx v).toNat < 1023)
    (hfill : ¬ (regionTable (pdeIdx v) = 0x101 ∧ (pteIdx v).toNat < 256)) :
    translate (setupPage p) 0x100 v = none ↔
      present (p (regionTable (pdeIdx v)) (pteIdx v)) = false := by
  obtain ⟨hp, hframe⟩ := frameOf_setupPage (p := p) hkernel hhigh
  have hlow : 0x101 ≤ (regionTable (pdeIdx v)).toNat := by
    rw [toNat_regionTable]
    omega
  rw [translate_eq_none_iff, hframe, setupPage_stale hlow hfill]
  exact ⟨fun h => h hp, fun h _ => h⟩

lemma pageWalk_window (hv : pdeIdx v = 1023) : pageWalk (setupPage p) v =
    (windowPage (pteIdx v)).map fun f => frameAddr f + (v &&& 0xfff) := by
  have hi := (pteIdx v).isLt
  refine congrArg (Option.map _) (((setupPage_window p).translate hv).trans ?_)
  unfold windowPage
  by_cases hlast : pteIdx v = 1023
  · rw [if_pos hlast, hlast, if_pos (setupPage_window p).present, (setupPage_window p).frame]
  · have hnat : (pteIdx v).toNat ≠ 1023 := fun h => hlast (BitVec.eq_of_toNat_eq h)
    rw [if_neg hlast]
    by_cases hkernel : pteIdx v = 0 ∨ 768 ≤ (pteIdx v).toNat
    · obtain ⟨hp, hframe⟩ := frameOf_setupPage (p := p) hkernel (by omega)
      rw [if_pos hp, hframe]
      obtain hzero | hlow := hkernel
      · rw [if_pos hzero, hzero]
        rfl
      · have hne : pteIdx v ≠ 0 := by
          rintro hzero
          rw [hzero] at hlow
          exact absurd hlow (by decide)
        rw [if_neg hne, if_pos hlow]
    · obtain ⟨hzero, hlow⟩ := not_or.mp hkernel
      have hpos : (pteIdx v).toNat ≠ 0 := fun h => hzero (BitVec.eq_of_toNat_eq h)
      rw [if_neg hzero, if_neg hlow, setupPage_user p (by omega) (by omega)]
      rfl

/-- The address of a page by its indices. -/
def pageAt (i j : Slot) : Word := i ++ j ++ 0#12

lemma toNat_pageAt (i j : Slot) : (pageAt i j).toNat = i.toNat * 2 ^ 22 + j.toNat * 2 ^ 12 := by
  have hj := j.isLt
  rw [pageAt, BitVec.toNat_append, BitVec.toNat_append, ← Nat.shiftLeft_add_eq_or_of_lt j.isLt,
    ← Nat.shiftLeft_add_eq_or_of_lt (by decide), Nat.shiftLeft_eq, Nat.shiftLeft_eq]
  have hzero : (0#12).toNat = 0 := rfl
  omega

lemma indices_pageAt (i j : Slot) : pdeIdx (pageAt i j) = i ∧ pteIdx (pageAt i j) = j := by
  have hi := i.isLt
  have hj := j.isLt
  constructor
  · apply BitVec.eq_of_toNat_eq
    rw [toNat_pdeIdx, toNat_pageAt]
    omega
  · apply BitVec.eq_of_toNat_eq
    rw [toNat_pteIdx, toNat_pageAt]
    omega

/-- A stale entry maps a page that nothing should map. -/
lemma noStaleEntry_of_others (h : ∀ v : Word, 0x100000 ≤ v.toNat → v.toNat < 0xffc00000 →
    ¬ (0xc0000000 ≤ v.toNat ∧ v.toNat < 0xc0100000) → pageWalk (setupPage p) v = none) :
    NoStaleEntry p := by
  intro f i hlow hhigh hfill
  set r : Slot := BitVec.ofNat 10 (768 + (f.toNat - 0x101)) with hr
  have hrnat : r.toNat = 768 + (f.toNat - 0x101) := by
    rw [hr, BitVec.toNat_ofNat]
    omega
  have htable : regionTable r = f := by
    apply BitVec.eq_of_toNat_eq
    rw [toNat_regionTable]
    omega
  have hfirst : f.toNat = 0x101 → 256 ≤ i.toNat := by
    intro hf
    by_contra hi
    exact hfill ⟨BitVec.eq_of_toNat_eq hf, not_le.mp hi⟩
  have hi := i.isLt
  obtain ⟨hpde, hpte⟩ := indices_pageAt r i
  have hnone := h (pageAt r i) (by rw [toNat_pageAt]; omega) (by rw [toNat_pageAt]; omega)
    (by rw [toNat_pageAt]; omega)
  have hkernel : 768 ≤ (pdeIdx (pageAt r i)).toNat ∧ (pdeIdx (pageAt r i)).toNat < 1023 := by
    rw [hpde]
    omega
  rw [pageWalk_eq_none_iff, translate_table (Or.inr hkernel.1) hkernel.2, hpde, hpte,
    htable] at hnone
  · exact hnone
  · rw [hpde, hpte, htable]
    exact hfill

/-- Without stale entries, nothing else is mapped. -/
lemma NoStaleEntry.others (h : NoStaleEntry p) (hlow : 0x100000 ≤ v.toNat)
    (hhigh : v.toNat < 0xffc00000) (hkernel : ¬ (0xc0000000 ≤ v.toNat ∧ v.toNat < 0xc0100000)) :
    pageWalk (setupPage p) v = none := by
  have hdir : (pdeIdx v).toNat = v.toNat / 2 ^ 22 := toNat_pdeIdx v
  rw [pageWalk_eq_none_iff]
  by_cases huser : 0 < (pdeIdx v).toNat ∧ (pdeIdx v).toNat < 768
  · exact translate_setupPage_user p huser.1 huser.2
  · have hregion : pdeIdx v = 0 ∨ 768 ≤ (pdeIdx v).toNat := by
      by_cases hzero : (pdeIdx v).toNat = 0
      · exact Or.inl (BitVec.eq_of_toNat_eq hzero)
      · exact Or.inr (by omega)
    have hfill : ¬ (regionTable (pdeIdx v) = 0x101 ∧ (pteIdx v).toNat < 256) := by
      rintro ⟨hfirst, hi⟩
      have hnat := congrArg BitVec.toNat hfirst
      rw [toNat_regionTable] at hnat
      change _ = 0x101 at hnat
      rw [toNat_pteIdx] at hi
      omega
    have htable := toNat_regionTable (pdeIdx v)
    rw [translate_table hregion (by omega) hfill]
    exact h _ _ (by omega) (by omega) hfill

lemma bootMapped_iff (p : Phys) : BootMapped (setupPage p) ↔ NoStaleEntry p := by
  refine ⟨fun h => noStaleEntry_of_others h.others, fun h => ?_⟩
  constructor
  case low =>
    intro v hv
    have hdir : pdeIdx v = 0 := by
      apply BitVec.eq_of_toNat_eq
      rw [toNat_pdeIdx]
      change _ = 0
      omega
    obtain ⟨a, ha, hnat⟩ := pageWalk_first (p := p) (Or.inl hdir) (by rw [toNat_pteIdx]; omega)
    rw [ha]
    exact congrArg some (BitVec.eq_of_toNat_eq (by omega))
  case high =>
    intro v hlow hhigh
    have hdir : pdeIdx v = 768 := by
      apply BitVec.eq_of_toNat_eq
      rw [toNat_pdeIdx]
      change _ = 768
      omega
    obtain ⟨a, ha, hnat⟩ := pageWalk_first (p := p) (Or.inr hdir) (by rw [toNat_pteIdx]; omega)
    rw [ha]
    refine congrArg some (BitVec.eq_of_toNat_eq ?_)
    rw [BitVec.toNat_sub]
    change _ = (2 ^ 32 - 0xc0000000 + v.toNat) % 2 ^ 32
    omega
  case window =>
    intro v hv
    have hlt := v.isLt
    have hdir : pdeIdx v = 1023 := by
      apply BitVec.eq_of_toNat_eq
      rw [toNat_pdeIdx]
      change _ = 1023
      omega
    exact pageWalk_window hdir
  case tables =>
    intro i hlow hhigh
    obtain ⟨hp, hframe⟩ := setupPage_kernel p hlow hhigh
    rw [toNat_frameAddr, hframe]
    exact ⟨hp, by omega, by omega⟩
  case distinct =>
    intro i j hilow hihigh hjlow hjhigh he
    have hi := (setupPage_kernel p hilow hihigh).2
    have hj := (setupPage_kernel p hjlow hjhigh).2
    apply BitVec.eq_of_toNat_eq
    rw [he] at hi
    omega
  case others => exact fun v => h.others

/-- The tables map what they should exactly when their memory held no `P` bit before. -/
theorem setupPage_maps_iff (s : State) : BootMapped (physOf (Loader.setupPage s).mem) ↔
    NoStaleEntry (physOf s.mem) := by
  rw [loader_setupPage]
  exact bootMapped_iff _

/-- With memory of ones, the first page of the kernel heap is mapped. -/
theorem setupPage_stale_heap : ¬ ∀ s : State, BootMapped (physOf (Loader.setupPage s).mem) := by
  intro h
  have hmapped := h ⟨0, 0, 0, 0, 0, 0, 0, 0, 0, 0, 0, 0, 0, 0, 0, 0, fun _ => 0xff⟩
  rw [loader_setupPage] at hmapped
  have hnone := hmapped.others 0xc0100000 (by decide) (by decide) (by decide)
  revert hnone
  decide

end Mapping

end OsI386
