import OsI386.Paging
import OsI386.SubRegisters

/-!
# mbr_and_loader/loader.s: the size of the memory

`bios n` is what the `n`th `int 0x15` does to the machine. `ds` and `es` are 0, as mbr.s leaves
them, so that an offset is an address.
-/
namespace OsI386
open X86

def totalMemBytes : Word := 0xb00
def ardsBuf : Word := 0xb0a
section Fallbacks

/-- `.mem_get_ok`. -/
def memGetOk (s : State) : State := { s with mem := store32 s.mem totalMemBytes s.edx }

/-- `.e801_failed_so_try88`. The jump at `.error_hit` is to itself. -/
def e801FailedSoTry88 (bios : ℕ → State → State) (n : ℕ) (s : State) : Option State :=
  let s := bios n (s.setAh 0x88)
  if cf s.eflags then none
  else
    let s := { s with eax := s.eax &&& 0xffff }
    let s := s.setCx 0x400
    let s := s.mul16 s.cx
    let s := { s with eax := s.eax <<< 16 }
    let s := { s with edx := s.edx ||| s.eax }
    let s := { s with edx := s.edx + 0x100000 }
    some (memGetOk s)

/-- `.e820_failed_so_try_e801`. -/
def e820FailedSoTryE801 (bios : ℕ → State → State) (n : ℕ) (s : State) : Option State :=
  let s := bios n (s.setAx 0xe801)
  if cf s.eflags then e801FailedSoTry88 bios (n + 1) s
  else
    let s := s.setCx 0x400
    let s := s.mul16 s.cx
    let s := { s with edx := s.edx <<< 16 }
    let s := { s with eax := s.eax &&& 0xffff }
    let s := { s with edx := s.edx ||| s.eax }
    let s := { s with edx := s.edx + 0x100000 }
    let s := { s with esi := s.edx }
    let s := { s with eax := 0 }
    let s := s.setAx s.bx
    let s := { s with ecx := 0x10000 }
    let s := s.mul32 s.ecx
    let s := { s with esi := s.esi + s.eax }
    let s := { s with edx := s.esi }
    some (memGetOk s)

end Fallbacks

section AddressRanges

/-- `written` are the addresses that descriptors were stored to. -/
structure Loader where
  cpu : State
  written : List Word

/-- `n` bytes from `es:di` on. -/
def bytesAt (di : BitVec 16) (n : ℕ) : List Word :=
  (List.range n).map fun i => (di + BitVec.ofNat 16 i).setWidth 32

end AddressRanges

section Products

variable {s : State} {w : Word} {v : BitVec 16}

def kib (v : BitVec 16) : Word := v.setWidth 32 * 0x400

lemma toNat_kib (v : BitVec 16) : (kib v).toNat = v.toNat * 1024 := by
  have hlt := v.isLt
  have hk : (0x400 : Word).toNat = 1024 := rfl
  rw [kib, BitVec.toNat_mul, BitVec.toNat_setWidth, hk]
  omega

/-- The low half of `edx` and of `eax` after `mul cx`, by 0x400. -/
lemma mul16_kib (s : State) : s.mul16 0x400 =
    { s with eax := setLow16 s.eax (low16 (kib s.ax)), edx := setLow16 s.edx (high16 (kib s.ax)) } :=
  rfl

/-- Both halves of the product are put together. -/
lemma e801_product (d a : Word) (v : BitVec 16) :
    setLow16 d (high16 (kib v)) <<< 16 ||| setLow16 a (low16 (kib v)) &&& 0xffff = kib v := by
  rw [and_ffff, low16_setLow16, setLow16, append_shiftLeft, BitVec.or_append]
  simp only [BitVec.ofNat_eq_ofNat, BitVec.or_zero, BitVec.zero_or]
  exact high16_append_low16 _

/-- The shift drops the upper half of the product, and the lower one lands in the upper. -/
lemma e88_product (d a : Word) (v : BitVec 16) :
    setLow16 d (high16 (kib v)) ||| setLow16 a (low16 (kib v)) <<< 16 =
      (high16 d ||| low16 (kib v)) ++ high16 (kib v) := by
  rw [setLow16, setLow16, append_shiftLeft, BitVec.or_append]
  simp only [BitVec.ofNat_eq_ofNat, BitVec.or_zero]

/-- That is the product only if it is zero: its lower half is a multiple of 1024 and its upper
half is less than that. -/
lemma e88_product_eq_iff (d : Word) (v : BitVec 16) :
    (high16 d ||| low16 (kib v)) ++ high16 (kib v) = kib v ↔ v = 0 ∧ high16 d = 0 := by
  constructor
  · intro h
    have hhigh := congrArg high16 h
    have hlow := congrArg low16 h
    rw [high16_append] at hhigh
    rw [low16_append] at hlow
    have hv : v = 0 := by
      have hnat := congrArg BitVec.toNat hlow
      have hlt := v.isLt
      rw [toNat_high16, toNat_low16, toNat_kib] at hnat
      apply BitVec.eq_of_toNat_eq
      change v.toNat = 0
      omega
    subst hv
    exact ⟨rfl, (BitVec.or_zero (x := high16 d)).symm.trans hhigh⟩
  · rintro ⟨rfl, hd⟩
    rw [hd]
    rfl

end Products

section Answers

variable {bios : ℕ → State → State} {n : ℕ} {s : State}

lemma setLow16_zero (v : BitVec 16) : setLow16 0 v = v.setWidth 32 := by
  apply BitVec.eq_of_toNat_eq
  have hlt := v.isLt
  have hzero : (0 : Word).toNat = 0 := rfl
  rw [setLow16, toNat_append16, toNat_high16, BitVec.toNat_setWidth, hzero]
  omega

lemma low32_product (a b : Word) :
    (a.setWidth 64 * b.setWidth 64 : BitVec 64).extractLsb' 0 32 = a * b := by
  apply BitVec.eq_of_toNat_eq
  simp [BitVec.extractLsb'_toNat, BitVec.toNat_mul]

/-- The machine after the call of 0xe801, and after the call of 0x88 that follows a failure. -/
def afterE801 (bios : ℕ → State → State) (n : ℕ) (s : State) : State := bios n (s.setAx 0xe801)

def after88 (bios : ℕ → State → State) (n : ℕ) (s : State) : State :=
  bios (n + 1) ((afterE801 bios n s).setAh 0x88)

/-- `value` is stored in `total_mem_bytes`. -/
def Stores (r : Option State) (value : Word) : Prop :=
  ∃ t, r = some t ∧ load32 t.mem totalMemBytes = value

lemma stores_memGetOk_iff {value : Word} : Stores (some (memGetOk s)) value ↔ s.edx = value := by
  constructor
  · rintro ⟨_, ⟨⟩, hvalue⟩
    exact (load32_store32 _ _ _).symm.trans hvalue
  · rintro rfl
    exact ⟨_, rfl, load32_store32 _ _ _⟩

/-- The value after 0xe801, of the products of `ax` and of `bx`. -/
def e801Bytes (s : State) : Word := 0x100000 + kib s.ax + s.bx.setWidth 32 * 0x10000

lemma stores_e801 (h : cf (afterE801 bios n s).eflags = false) :
    Stores (e820FailedSoTryE801 bios n s) (e801Bytes (afterE801 bios n s)) := by
  unfold e820FailedSoTryE801
  rw [afterE801] at h ⊢
  set r := bios n (s.setAx 0xe801)
  simp only [h]
  rw [if_neg Bool.false_ne_true, stores_memGetOk_iff, State.setCx_cx, mul16_kib, State.setCx_ax]
  dsimp only [State.setCx, State.setAx, State.mul32]
  rw [e801_product, low32_product, setLow16_zero, BitVec.add_comm (kib r.ax)]
  rfl

/-- What is stored after 0x88, whatever was in the registers before. -/
def e88Bytes (s : State) : Word :=
  (high16 s.edx ||| low16 (kib s.ax)) ++ high16 (kib s.ax) + 0x100000

lemma stores_88 (h801 : cf (afterE801 bios n s).eflags = true)
    (h88 : cf (after88 bios n s).eflags = false) {value : Word} :
    Stores (e820FailedSoTryE801 bios n s) value ↔ e88Bytes (after88 bios n s) = value := by
  unfold e820FailedSoTryE801 e801FailedSoTry88
  rw [after88, afterE801] at h88
  rw [afterE801] at h801
  rw [after88, afterE801]
  simp only [h801]
  set r := bios (n + 1) ((bios n (s.setAx 0xe801)).setAh 0x88)
  simp only [h88]
  rw [if_pos trivial, if_neg Bool.false_ne_true, stores_memGetOk_iff]
  have hax : State.ax { r with eax := r.eax &&& 0xffff } = r.ax := by
    rw [State.ax, and_ffff, low16_append]
    rfl
  rw [State.setCx_cx, mul16_kib, State.setCx_ax, hax]
  dsimp only [State.setCx]
  rw [e88_product, e88Bytes]

end Answers

section Claim

/-- After a success of 0xe801 the memory is 1 MiB, `ax` KiB and `bx` blocks of 64 KiB, after one
of 0x88 it is 1 MiB and `ax` KiB. -/
def FallbackStores (bios : ℕ → State → State) (n : ℕ) (s : State) : Prop :=
  (cf (afterE801 bios n s).eflags = false →
    Stores (e820FailedSoTryE801 bios n s) (0x100000 + (afterE801 bios n s).ax.setWidth 32 * 1024 +
      (afterE801 bios n s).bx.setWidth 32 * 65536)) ∧
  (cf (afterE801 bios n s).eflags = true → cf (after88 bios n s).eflags = false →
    Stores (e820FailedSoTryE801 bios n s)
      (0x100000 + (after88 bios n s).ax.setWidth 32 * 1024))

/-- 0xe801 succeeds, or 0x88 fails, or it finds nothing and leaves the upper half of `edx` 0. -/
def FallbackFits (bios : ℕ → State → State) (n : ℕ) (s : State) : Prop :=
  cf (afterE801 bios n s).eflags = false ∨ cf (after88 bios n s).eflags = true ∨
    ((after88 bios n s).ax = 0 ∧ high16 (after88 bios n s).edx = 0)

lemma e88Bytes_eq_iff (s : State) :
    e88Bytes s = 0x100000 + s.ax.setWidth 32 * 1024 ↔ s.ax = 0 ∧ high16 s.edx = 0 := by
  rw [← e88_product_eq_iff, e88Bytes, BitVec.add_comm _ (0x100000 : Word)]
  exact add_right_inj _

theorem fallback_stores_iff (bios : ℕ → State → State) (n : ℕ) (s : State) :
    FallbackStores bios n s ↔ FallbackFits bios n s := by
  unfold FallbackStores FallbackFits
  cases h801 : cf (afterE801 bios n s).eflags with
  | false =>
    have hbytes := stores_e801 h801
    simp only [true_or, iff_true]
    exact ⟨fun _ => hbytes, nofun⟩
  | true =>
    cases h88 : cf (after88 bios n s).eflags with
    | true =>
      simp only [true_or, or_true, iff_true]
      exact ⟨nofun, nofun⟩
    | false =>
      have hbytes := e88Bytes_eq_iff (after88 bios n s)
      rw [← stores_88 h801 h88] at hbytes
      simp only [reduceCtorEq, false_or, false_implies, true_implies, true_and]
      exact hbytes

/-- A machine without 0xe801 and 0xe820, of 16 MiB. -/
def biosOf16MiB (n : ℕ) (s : State) : State :=
  if n = 0 then { s with eflags := 1 } else { s with eflags := 0, eax := 0x3c00, edx := 0 }

def zeroState : State := ⟨0, 0, 0, 0, 0, 0, 0, 0, 0, 0, 0, 0, 0, 0, 0, 0, fun _ => 0⟩

theorem fallback_loses_memory : ¬ ∀ bios n s, FallbackStores bios n s := by
  intro h
  have hstores := (h biosOf16MiB 0 zeroState).2 rfl rfl
  rw [stores_88 rfl rfl] at hstores
  revert hstores
  decide

end Claim

end OsI386
