import OsI386.DescriptorTables
import OsI386.LoaderDisk

/-!
# p_mode_start of mbr_and_loader/loader.s

The kernel's file is read from the drive, the page tables are built, the GDT moves to the kernel's
half, paging is turned on, and the segments of the file go to where the kernel is linked. The
segments of code and data are flat. `lgdt` and the control registers play a part only where the
table of the GDT is named.
-/
namespace OsI386
open X86 Ata

namespace Loader

def selectorVideo : BitVec 16 := 3 <<< 3 + 0 + 0

end Loader

def kernelStartSector : Word := 9
namespace Boot

section Code

variable (l : Labels) (x : Medium)

end Code

section File

variable (byte : ℕ → BitVec 8)

/-- The file from sector 9 on, at the address it is read to. -/
def fileMem : Mem := fun a => byte (512 * kernelStartSector.toNat + (a - kernelBinBaseAddr).toNat)

def fileHeaders : List Phdr := programHeaders (seen bootAddr (fileMem byte))

/-- A file of `size` bytes, which the 200 sectors hold, with nothing to copy but segments that lie
between the loader and the image. -/
structure KernelFile (size : ℕ) : Prop where
  wf : WellFormed bootAddr (fileMem byte) size
  size_le : size ≤ 512 * 200
  only : ∀ h ∈ fileHeaders byte, low8 h.type ≠ ptNull → h.Load
  placed : ∀ h ∈ fileHeaders byte, h.Load → ∀ k < h.memsz.toNat,
    0xc0001100 ≤ (h.target k).toNat ∧ (h.target k).toNat < 0xc0070000

end File

section Memory

variable {m m' : Mem} {a b : Word} {n : ℕ}

/-- Words at which two memories agree byte for byte. -/
lemma Holds.same {ws : List Word} (h : Holds m a ws) (hroom : a.toNat + 4 * ws.length ≤ 2 ^ 32)
    (hsame : ∀ b : Word, a.toNat ≤ b.toNat → b.toNat < a.toNat + 4 * ws.length → m' b = m b) :
    Holds m' a ws := by
  refine h.move fun k hk => hsame _ ?_ ?_ <;>
  · rw [BitVec.toNat_add, BitVec.toNat_ofNat]
    omega

end Memory

section Tables

variable {s : State}

end Tables

section Image

variable {pa : Word → Word} {u v m m' : Mem} {size : ℕ}

section Copies

variable (honly : ∀ h ∈ programHeaders (seen pa m), low8 h.type ≠ ptNull → h.Load)

include honly

end Copies

end Image

section Stages

variable {l : Labels} {x : Medium} {s : BootState} {size fuel : ℕ}

end Stages

section Start

variable {l : Labels} {x : Medium} {s : BootState} {size fuel j : ℕ} {byte : ℕ → BitVec 8} {m : Mem}

lemma toNat_imageAddr (hj : j < 0x90000) : (imageAddr j).toNat = 0x70000 + j := by
  rw [imageAddr, BitVec.toNat_add, BitVec.toNat_ofNat]
  change (0x70000 + j % 2 ^ 32) % 2 ^ 32 = _
  omega

lemma bootAddr_image (hj : j < 0x90000) : bootAddr (imageAddr j) = imageAddr j := by
  apply BitVec.eq_of_toNat_eq
  rw [toNat_bootAddr_image hj, toNat_imageAddr hj]

lemma fileMem_image (byte : ℕ → BitVec 8) (hj : j < 0x90000) :
    fileMem byte (imageAddr j) = byte (512 * kernelStartSector.toNat + j) := by
  have hlt : j < 2 ^ 32 := by omega
  rw [fileMem, imageAddr, add_sub_cancel_left, BitVec.toNat_ofNat, Nat.mod_eq_of_lt hlt]

/-- Memory with the bytes of the file has its program headers. -/
lemma KernelFile.inMemory (h : KernelFile byte size)
    (himage : ∀ j < size, m (imageAddr j) = byte (512 * kernelStartSector.toNat + j)) :
    WellFormed bootAddr m size ∧ programHeaders (seen bootAddr m) = fileHeaders byte := by
  have hsize := h.size_le
  refine wellFormed_congr h.wf fun j hj => ?_
  have hsmall : j < 0x90000 := by omega
  rw [seen, seen, bootAddr_image hsmall, himage j hj, fileMem_image byte hsmall]

/-- Where the segments lie in memory. -/
lemma KernelFile.target (h : KernelFile byte size) {g : Phdr} (hg : g ∈ fileHeaders byte)
    (hload : g.Load) {k : ℕ} (hk : k < g.memsz.toNat) :
    0x1100 ≤ (bootAddr (g.target k)).toNat ∧ (bootAddr (g.target k)).toNat < 0x70000 := by
  obtain ⟨hlow, hhigh⟩ := h.placed g hg hload k hk
  rw [toNat_bootAddr]
  omega

end Start

end Boot

end OsI386
