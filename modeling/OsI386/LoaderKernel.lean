import OsI386.LoaderPaging
import OsI386.MappedMemory
import OsI386.Segments

/-!
# mbr_and_loader/loader.s: kernel_init

The segments of the kernel's image are copied to where its program headers want them. Paging is
on, with the first MiB mapped twice: `pa` takes the addresses of the code to bytes of memory. That
this is what the page tables say, and that no copy goes over them or over the code that runs, is
`Placed` and `RunsOn`. `next` is the address behind the call of `mem_cpy`. The flags that no jump
reads are left out.
-/
namespace OsI386
open X86

def kernelBinBaseAddr : Word := 0x70000

def ptNull : BitVec 8 := 0

namespace Loader

section Code

variable (pa : Word → Word) (memCpyAddr next : Word)

end Code

end Loader

/-- An `Elf32_Phdr`, without the fields that play no part. -/
structure Phdr where
  type : Word
  offset : Word
  vaddr : Word
  filesz : Word
  memsz : Word
  deriving DecidableEq

/-- The header at address `a`. -/
def phdrOf (v : Mem) (a : Word) : Phdr where
  type := load32 v a
  offset := load32 v (a + 4)
  vaddr := load32 v (a + 8)
  filesz := load32 v (a + 16)
  memsz := load32 v (a + 20)

section MemCpy

variable {pa : Word → Word} {top dst src len next : Word} {n : ℕ} {r : Mem} {ws : List Word}
  {s : State}

end MemCpy

section Image

variable (pa : Word → Word) (v m m' : Mem)

def ePhoff : Word := load32 v (kernelBinBaseAddr + 28)

def ePhentsize : BitVec 16 := load16 v (kernelBinBaseAddr + 42)

def ePhnum : BitVec 16 := load16 v (kernelBinBaseAddr + 44)

/-- Byte `l` of the image. -/
def imageAddr (l : ℕ) : Word := kernelBinBaseAddr + BitVec.ofNat 32 l

/-- Where header `i` is in the image. -/
def phdrPos (i : ℕ) : ℕ := (ePhoff v).toNat + i * (ePhentsize v).toNat

def programHeaders : List Phdr :=
  (List.range (ePhnum v).toNat).map fun i => phdrOf v (imageAddr (phdrPos v i))

/-- `PT_LOAD`. -/
def Phdr.Load (h : Phdr) : Prop := h.type = 1

/-- Byte `k` of the segment in memory. -/
def Phdr.target (h : Phdr) (k : ℕ) : Word := h.vaddr + BitVec.ofNat 32 k

/-- An image of `size` bytes, with at least one program header. -/
structure WellFormed (m : Mem) (size : ℕ) : Prop where
  header : 52 ≤ size
  fits : kernelBinBaseAddr.toNat + size ≤ 2 ^ 32
  phnum : 0 < (ePhnum (seen pa m)).toNat
  phentsize : 32 ≤ (ePhentsize (seen pa m)).toNat
  phdrs : phdrPos (seen pa m) (ePhnum (seen pa m)).toNat ≤ size
  files : ∀ h ∈ programHeaders (seen pa m), h.type ≠ 0 → h.offset.toNat + h.filesz.toNat ≤ size
  sizes : ∀ h ∈ programHeaders (seen pa m), h.Load → h.filesz.toNat ≤ h.memsz.toNat
  apart : ∀ h ∈ programHeaders (seen pa m), ∀ g ∈ programHeaders (seen pa m), h.Load → g.Load →
    ∀ k < h.memsz.toNat, ∀ l < g.memsz.toNat, pa (h.target k) = pa (g.target l) → h = g ∧ k = l
  image : ∀ h ∈ programHeaders (seen pa m), h.Load → ∀ k < h.memsz.toNat, ∀ l < size,
    pa (h.target k) ≠ pa (imageAddr l)

/-- The bytes that the loader copies for a header, whatever its type. -/
def Phdr.copies (h : Phdr) : List (Phdr × ℕ) :=
  if low8 h.type = ptNull then [] else (List.range h.filesz.toNat).map fun k => (h, k)

def copies (hs : List Phdr) : List (Phdr × ℕ) := hs.flatMap Phdr.copies

end Image

section Headers

variable {pa : Word → Word} {u v m : Mem} {size a b p i k l : ℕ} {h : Phdr} {hs gs : List Phdr}

lemma imageAddr_add (a b : ℕ) : imageAddr a + BitVec.ofNat 32 b = imageAddr (a + b) := by
  rw [imageAddr, imageAddr, BitVec.ofNat_add, add_assoc]

/-- A header is read from the bytes of the image. -/
lemma phdrOf_congr (h : ∀ l < size, u (imageAddr l) = v (imageAddr l)) (hp : p + 32 ≤ size) :
    phdrOf u (imageAddr p) = phdrOf v (imageAddr p) := by
  have hword : ∀ o : Word, o.toNat + 4 ≤ 32 →
      load32 u (imageAddr p + o) = load32 v (imageAddr p + o) := by
    intro o ho
    refine load32_congr fun j hj => ?_
    have haddr : imageAddr p + o + BitVec.ofNat 32 j = imageAddr (p + (o.toNat + j)) := by
      rw [← imageAddr_add, BitVec.ofNat_add, BitVec.ofNat_toNat, BitVec.setWidth_eq, add_assoc]
    rw [haddr]
    exact h _ (by omega)
  have htype := hword 0 (by decide)
  rw [add_zero] at htype
  unfold phdrOf
  rw [htype, hword 4 (by decide), hword 8 (by decide), hword 16 (by decide), hword 20 (by decide)]

lemma mem_copies {c : Phdr × ℕ} : c ∈ copies hs ↔
    c.1 ∈ hs ∧ low8 c.1.type ≠ ptNull ∧ c.2 < c.1.filesz.toNat := by
  rw [copies, List.mem_flatMap]
  constructor
  · rintro ⟨h, hh, hc⟩
    unfold Phdr.copies at hc
    split_ifs at hc with hnull
    · exact absurd hc List.not_mem_nil
    · obtain ⟨k, hk, rfl⟩ := List.mem_map.mp hc
      exact ⟨hh, hnull, List.mem_range.mp hk⟩
  · rintro ⟨hh, hnull, hk⟩
    refine ⟨c.1, hh, ?_⟩
    rw [Phdr.copies, if_neg hnull]
    exact List.mem_map.mpr ⟨c.2, List.mem_range.mpr hk, rfl⟩

end Headers

section Segments

variable {pa : Word → Word} {m : Mem} {size k : ℕ} {esp ret : Word}

lemma WellFormed.phdrPos_add (h : WellFormed pa m size)
    (hk : k < (ePhnum (seen pa m)).toNat) : phdrPos (seen pa m) k + 32 ≤ size := by
  have hmul : (k + 1) * (ePhentsize (seen pa m)).toNat ≤
      (ePhnum (seen pa m)).toNat * (ePhentsize (seen pa m)).toNat :=
    Nat.mul_le_mul_right _ hk
  have hall := h.phdrs
  have hsize := h.phentsize
  unfold phdrPos at hall ⊢
  rw [Nat.succ_mul] at hmul
  omega

end Segments

section Loads

variable {pa : Word → Word} {m m' : Mem} {size : ℕ} {esp y : Word} {c : Phdr × ℕ}

/-- All bytes that are copied. -/
def allCopies (pa : Word → Word) (m : Mem) : List (Phdr × ℕ) := copies (programHeaders (seen pa m))

/-- A segment of type `PT_LOAD` is copied. -/
lemma Phdr.Load.copied {h : Phdr} {k : ℕ} (hload : h.Load)
    (hmem : h ∈ programHeaders (seen pa m)) (hk : k < h.filesz.toNat) :
    (h, k) ∈ allCopies pa m := by
  refine mem_copies.mpr ⟨hmem, ?_, hk⟩
  rw [hload]
  decide

section Only

variable (honly : ∀ h ∈ programHeaders (seen pa m), low8 h.type ≠ ptNull → h.Load)

include honly

end Only

end Loads

section Boot

variable {v : Word} {size : ℕ}

/-- The first MiB, at its own addresses and at those of the kernel. -/
def bootAddr (v : Word) : Word := v &&& 0xfffff

lemma toNat_bootAddr (v : Word) : (bootAddr v).toNat = v.toNat % 2 ^ 20 := by
  rw [bootAddr, BitVec.toNat_and]
  exact Nat.and_two_pow_sub_one_eq_mod _ 20

lemma toNat_bootAddr_image {l : ℕ} (hl : l < 0x90000) :
    (bootAddr (imageAddr l)).toNat = 0x70000 + l := by
  rw [toNat_bootAddr, imageAddr, BitVec.toNat_add, BitVec.toNat_ofNat]
  change (0x70000 + l % 2 ^ 32) % 2 ^ 32 % 2 ^ 20 = _
  omega

/-- `bootAddr` is the map of the tables that `setup_page` builds. -/
theorem pageWalk_bootAddr {t : Phys} (h : BootMapped t)
    (hv : v.toNat < 0x100000 ∨ 0xc0000000 ≤ v.toNat ∧ v.toNat < 0xc0100000) :
    pageWalk t v = some (bootAddr v) := by
  obtain hlow | ⟨hlow, hhigh⟩ := hv
  · have hself : bootAddr v = v := by
      apply BitVec.eq_of_toNat_eq
      rw [toNat_bootAddr]
      omega
    rw [hself]
    exact h.low v hlow
  · have hsub : bootAddr v = v - 0xc0000000 := by
      apply BitVec.eq_of_toNat_eq
      rw [toNat_bootAddr, BitVec.toNat_sub]
      change _ = (2 ^ 32 - 0xc0000000 + v.toNat) % 2 ^ 32
      omega
    rw [hsub]
    exact h.high v hlow hhigh

end Boot

section Tables

variable {m m' : Mem} {a : Word} {s : State}

end Tables

section Image

variable {pa : Word → Word} {u v m m' : Mem} {size : ℕ}

lemma load32_image (h : ∀ l < size, u (imageAddr l) = v (imageAddr l)) {o : ℕ}
    (ho : o + 4 ≤ size) : load32 u (imageAddr o) = load32 v (imageAddr o) :=
  load32_congr fun k hk => by
    rw [imageAddr_add]
    exact h _ (by omega)

/-- The table of the program headers is read from the bytes of the image. -/
lemma programHeaders_congr (h : ∀ l < size, u (imageAddr l) = v (imageAddr l)) (hhead : 52 ≤ size)
    (hphdrs : ∀ i < (ePhnum v).toNat, phdrPos v i + 32 ≤ size) :
    ePhoff u = ePhoff v ∧ ePhentsize u = ePhentsize v ∧ ePhnum u = ePhnum v ∧
      programHeaders u = programHeaders v := by
  have hoff : ePhoff u = ePhoff v := load32_image h (o := 28) (by omega)
  have hentsize : ePhentsize u = ePhentsize v := by
    have hword := load32_image h (o := 42) (by omega)
    have hlow := congrArg low16 hword
    rwa [← load16_eq_low16, ← load16_eq_low16] at hlow
  have hnum : ePhnum u = ePhnum v := by
    have hword := load32_image h (o := 44) (by omega)
    have hlow := congrArg low16 hword
    rwa [← load16_eq_low16, ← load16_eq_low16] at hlow
  refine ⟨hoff, hentsize, hnum, ?_⟩
  rw [programHeaders, programHeaders, hnum]
  refine List.map_congr_left fun i hi => ?_
  have hpos : phdrPos u i = phdrPos v i := by rw [phdrPos, phdrPos, hoff, hentsize]
  rw [hpos]
  exact phdrOf_congr h (hphdrs i (List.mem_range.mp hi))

lemma wellFormed_congr (h : WellFormed pa m size)
    (hsame : ∀ l < size, seen pa m' (imageAddr l) = seen pa m (imageAddr l)) :
    WellFormed pa m' size ∧ programHeaders (seen pa m') = programHeaders (seen pa m) := by
  obtain ⟨hoff, hentsize, hnum, hheaders⟩ :=
    programHeaders_congr hsame h.header fun i hi => h.phdrPos_add hi
  have hpos : ∀ i, phdrPos (seen pa m') i = phdrPos (seen pa m) i := fun i => by
    rw [phdrPos, phdrPos, hoff, hentsize]
  refine ⟨?_, hheaders⟩
  constructor
  case header => exact h.header
  case fits => exact h.fits
  case phnum => exact hnum ▸ h.phnum
  case phentsize => exact hentsize ▸ h.phentsize
  case phdrs =>
    rw [hnum, hpos]
    exact h.phdrs
  case files => exact hheaders ▸ h.files
  case sizes => exact hheaders ▸ h.sizes
  case apart => exact hheaders ▸ h.apart
  case image => exact hheaders ▸ h.image

end Image

section Placed

variable {m m' : Mem} {size : ℕ}

/-- The addresses that the loader's tables map to the first MiB. -/
def FirstMiB (v : Word) : Prop :=
  v.toNat < 0x100000 ∨ 0xc0000000 ≤ v.toNat ∧ v.toNat < 0xc0100000

/-- The bytes of the code that runs, in the 1413 bytes of loader.bin from 0x900 on. -/
def LoaderCode (y : Word) : Prop := 0xc00 ≤ y.toNat ∧ y.toNat < 0x900 + 1413

/-- An address of memory that is mapped and holds no code of the loader; from 0xa0000 on there is
none that could be written. -/
structure Usable (v : Word) : Prop where
  mapped : FirstMiB v
  memory : (bootAddr v).toNat < 0xa0000
  code : ¬ LoaderCode (bootAddr v)

/-- All addresses that `kernel_init` copies to, and all that a segment wants, can be used. -/
structure Placed (m : Mem) (size : ℕ) : Prop where
  image : size ≤ 0x30000
  copied : ∀ c ∈ allCopies bootAddr m, Usable (c.1.target c.2)
  loads : ∀ h ∈ programHeaders (seen bootAddr m), h.Load → ∀ k < h.memsz.toNat,
    Usable (h.target k)

end Placed

section Kernel

variable {size : ℕ}

end Kernel

end OsI386
