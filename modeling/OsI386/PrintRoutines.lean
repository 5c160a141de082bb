import OsI386.Print
import OsI386.SubRegisters

/-!
# lib/kernel/print.s

The registers, the screen and the bytes from `put_int_buffer` on. The routines put only saved
registers and arguments on the stack, so the stack is kept apart: `popad` and `pop` give back what
was saved. `gs` is the video segment, whose base the loader has moved to `videoBaseAddr`.
-/
namespace OsI386
open TransitionSystem X86

structure PrintAsm where
  eax : Word
  ebx : Word
  ecx : Word
  edx : Word
  esi : Word
  edi : Word
  screen : Screen
  putIntBuffer : Word → Byte

def selectorVideo : BitVec 16 := 0x0003 <<< 3 + 0 + 0

/-- A word in memory, its lowest byte first. -/
def Screen.store32 (s : Screen) (a w : Word) : Screen :=
  (((s.store a (w.extractLsb' 0 8)).store (a + 1) (w.extractLsb' 8 8)).store
    (a + 2) (w.extractLsb' 16 8)).store (a + 3) (w.extractLsb' 24 8)

namespace PrintAsm

section Instructions

variable (x : PrintAsm)

def al : Byte := low8 x.eax

def ax : BitVec 16 := low16 x.eax

def bh : Byte := high8 x.ebx

def bl : Byte := low8 x.ebx

def bx : BitVec 16 := low16 x.ebx

def cl : Byte := low8 x.ecx

def dx : BitVec 16 := low16 x.edx

def si : BitVec 16 := low16 x.esi

def setAl (b : Byte) : PrintAsm := { x with eax := setLow8 x.eax b }

def setAh (b : Byte) : PrintAsm := { x with eax := setHigh8 x.eax b }

def setAx (v : BitVec 16) : PrintAsm := { x with eax := setLow16 x.eax v }

def setBx (v : BitVec 16) : PrintAsm := { x with ebx := setLow16 x.ebx v }

def setCl (b : Byte) : PrintAsm := { x with ecx := setLow8 x.ecx b }

def setDx (v : BitVec 16) : PrintAsm := { x with edx := setLow16 x.edx v }

def setSi (v : BitVec 16) : PrintAsm := { x with esi := setLow16 x.esi v }

/-- `out dx, al`. -/
def outDx : PrintAsm :=
  if x.dx = 0x03d4 then { x with screen := x.screen.outAddr x.al }
  else if x.dx = 0x03d5 then { x with screen := x.screen.outData x.al }
  else x

/-- `in al, dx` where `dx` is 0x3d5. -/
def inDx : PrintAsm := x.setAl x.screen.inData

/-- `mov [gs:offset], b`. -/
def storeGs (offset : Word) (b : Byte) : PrintAsm :=
  { x with screen := x.screen.store (videoBaseAddr + offset) b }

/-- `div si`. -/
def divSi : PrintAsm :=
  let dividend : Word := x.dx ++ x.ax
  (x.setAx (low16 (dividend / x.si.setWidth 32))).setDx (low16 (dividend % x.si.setWidth 32))

/-- `movsd` with the direction flag clear. -/
def movsd : PrintAsm :=
  { x with
    screen := x.screen.store32 x.edi (load32 x.screen.mem x.esi)
    esi := x.esi + 4
    edi := x.edi + 4 }

def popad (saved : PrintAsm) : PrintAsm :=
  { saved with screen := x.screen, putIntBuffer := x.putIntBuffer }

end Instructions

section PutChar

/-- From the first `mov dx` to `mov bx, ax`. -/
def readCursor (x : PrintAsm) : PrintAsm :=
  let x := ((x.setDx 0x03d4).setAl 0x0e).outDx
  let x := (x.setDx 0x03d5).inDx
  let x := x.setAh x.al
  let x := ((x.setDx 0x03d4).setAl 0x0f).outDx
  let x := (x.setDx 0x03d5).inDx
  x.setBx x.ax

/-- `rep movsd`, `n` in `ecx`. -/
def repMovsd (x : PrintAsm) : ℕ → PrintAsm
  | 0 => { x with ecx := 0 }
  | n + 1 => repMovsd x.movsd n

/-- `.cls`, `n` in `ecx`. -/
def cls (x : PrintAsm) : ℕ → PrintAsm
  | 0 => { x with ecx := 0 }
  | n + 1 =>
    let x := (x.storeGs x.ebx 0x20).storeGs (x.ebx + 1) 0x07
    cls { x with ebx := x.ebx + 2 } n

def rollScreen (x : PrintAsm) : PrintAsm :=
  let x := { x with ecx := 960, esi := 0xc00b80a0, edi := 0xc00b8000 }
  let x := x.repMovsd x.ecx.toNat
  let x := { x with ebx := 3840, ecx := 80 }
  let x := x.cls x.ecx.toNat
  x.setBx 1920

/-- `.is_line_feed` and `.is_carriage_return`. -/
def isLineFeed (x : PrintAsm) : PrintAsm :=
  let x := x.setDx 0
  let x := x.setAx x.bx
  let x := (x.setSi 80).divSi
  let x := x.setBx (x.bx - x.dx)
  let x := x.setBx (x.bx + 80)
  if x.bx.slt 2000 then x else x.rollScreen

def isBackspace (x : PrintAsm) : PrintAsm :=
  let x := x.setBx (x.bx - 1)
  let x := x.setBx (x.bx <<< 1)
  let x := x.storeGs (x.bx.setWidth 32) 0x20
  let x := x.setBx (x.bx + 1)
  let x := x.storeGs (x.bx.setWidth 32) 0x07
  x.setBx (x.bx >>> 1)

/-- A full screen falls through to `.is_line_feed`. -/
def putOther (x : PrintAsm) : PrintAsm :=
  let x := x.setBx (x.bx <<< 1)
  let x := x.storeGs (x.bx.setWidth 32) x.cl
  let x := x.setBx (x.bx + 1)
  let x := x.storeGs (x.bx.setWidth 32) 0x07
  let x := x.setBx (x.bx >>> 1)
  let x := x.setBx (x.bx + 1)
  if x.bx.slt 2000 then x else x.isLineFeed

def setCursor (x : PrintAsm) : PrintAsm :=
  let x := ((x.setDx 0x03d4).setAl 0x0e).outDx
  let x := x.setDx 0x03d5
  let x := (x.setAl x.bh).outDx
  let x := ((x.setDx 0x03d4).setAl 0x0f).outDx
  let x := x.setDx 0x03d5
  (x.setAl x.bl).outDx

/-- `asci` is the double word the caller has pushed. -/
def putChar (x : PrintAsm) (asci : Word) : PrintAsm :=
  let saved := x
  let x := (x.setAx selectorVideo).readCursor
  let x := { x with ecx := asci }
  let x :=
    if x.cl = 0x0d then x.isLineFeed
    else if x.cl = 0x0a then x.isLineFeed
    else if x.cl = 0x08 then x.isBackspace
    else x.putOther
  x.setCursor.popad saved

end PutChar

section PutStr

/-- `.goon`. -/
def goon (x : PrintAsm) : ℕ → Option PrintAsm
  | 0 => none
  | n + 1 =>
    let x := x.setCl (x.screen.mem x.ebx)
    if x.cl = 0 then some x
    else
      let x := x.putChar x.ecx
      goon { x with ebx := x.ebx + 1 } n

def putStr (x : PrintAsm) (message : Word) (n : ℕ) : Option PrintAsm :=
  (goon { x with ecx := 0, ebx := message } n).map fun y =>
    { y with ecx := x.ecx, ebx := x.ebx }

end PutStr

section PutInt

/-- `edx` at `.store`, after the jump to `.isA2F` or not. -/
def isA2F (edx : Word) : Word := if (9 : Word).slt edx then edx - 10 + 0x41 else edx + 0x30

/-- `.16based_4bits`, `n` in `ecx`. -/
def based4Bits (x : PrintAsm) : ℕ → PrintAsm
  | 0 => { x with ecx := 0 }
  | n + 1 =>
    based4Bits
      { x with
        putIntBuffer := Function.update x.putIntBuffer x.edi (low8 (isA2F (x.edx &&& 0xf)))
        edi := x.edi - 1
        eax := x.eax >>> 4
        edx := x.eax >>> 4 } n

/-- `.put_each_num`. -/
def putEachNum (x : PrintAsm) : ℕ → Option PrintAsm
  | 0 => none
  | n + 1 =>
    let x := x.putChar x.ecx
    let x := { x with edi := x.edi + 1 }
    let x := x.setCl (x.putIntBuffer x.edi)
    if x.edi.slt 8 then putEachNum x n else some x

/-- `.skip_prefix_0`, up to the jump to `.put_each_num`. -/
def skipPrefix0 (x : PrintAsm) : ℕ → Option PrintAsm
  | 0 => none
  | n + 1 =>
    if x.edi = 8 then some (x.setCl 0x30)
    else
      let x := x.setCl (x.putIntBuffer x.edi)
      let x := { x with edi := x.edi + 1 }
      if x.cl = 0x30 then skipPrefix0 x n else some { x with edi := x.edi - 1 }

def putInt (x : PrintAsm) (num : Word) : Option PrintAsm :=
  let saved := x
  let x := { x with eax := num, edx := num, edi := 7, ecx := 8 }
  let x := x.based4Bits x.ecx.toNat
  let x := { x with edi := x.edi + 1 }
  (x.skipPrefix0 9).bind fun x => (x.putEachNum 9).map fun x => x.popad saved

end PutInt

section Registers

variable {x : PrintAsm} {b : Byte} {v : BitVec 16}

@[simp] lemma dx_setDx : (x.setDx v).dx = v := low16_setLow16

@[simp] lemma dx_setAl : (x.setAl b).dx = x.dx := rfl

@[simp] lemma al_setAl : (x.setAl b).al = b := low8_setLow8

@[simp] lemma bx_setBx : (x.setBx v).bx = v := low16_setLow16

@[simp] lemma cl_setCl : (x.setCl b).cl = b := low8_setLow8

@[simp] lemma screen_setBx : (x.setBx v).screen = x.screen := rfl

@[simp] lemma bx_storeGs {o : Word} : (x.storeGs o b).bx = x.bx := rfl

@[simp] lemma screen_storeGs {o : Word} :
    (x.storeGs o b).screen = x.screen.store (videoBaseAddr + o) b := rfl

@[simp] lemma bh_setDx : (x.setDx v).bh = x.bh := rfl

@[simp] lemma bl_setDx : (x.setDx v).bl = x.bl := rfl

lemma outDx_addr : ((x.setDx 0x03d4).setAl b).outDx =
    { (x.setDx 0x03d4).setAl b with screen := x.screen.outAddr b } := by
  rw [outDx, dx_setAl, dx_setDx, if_pos rfl, al_setAl]
  rfl

lemma outDx_data : ((x.setDx 0x03d5).setAl b).outDx =
    { (x.setDx 0x03d5).setAl b with screen := x.screen.outData b } := by
  rw [outDx, dx_setAl, dx_setDx, if_neg (by decide), if_pos rfl, al_setAl]
  rfl

lemma append_bytes (h l : Byte) : (h ++ l : BitVec 16) =
    h.setWidth 16 <<< 8 &&& 0xff00 ||| l.setWidth 16 &&& 0x00ff := by
  apply BitVec.eq_of_getLsbD_eq
  intro i hi
  rw [BitVec.getLsbD_append]
  interval_cases i <;> simp

lemma high8_append_low8 (w : Word) : (high8 w ++ low8 w : BitVec 16) = low16 w := by
  apply BitVec.eq_of_getLsbD_eq
  intro i hi
  rw [BitVec.getLsbD_append, high8, low8, low16]
  simp only [BitVec.getLsbD_extractLsb']
  grind

lemma readCursor_buffer : x.readCursor.putIntBuffer = x.putIntBuffer := by
  simp only [readCursor, outDx_addr]
  rfl

lemma setCursor_buffer : x.setCursor.putIntBuffer = x.putIntBuffer := by
  simp only [setCursor, outDx_addr, outDx_data]
  rfl

lemma readCursor_bx : x.readCursor.bx = x.screen.cursor := by
  simp only [readCursor, outDx_addr, inDx, bx_setBx]
  have hhigh : ∀ {w v : Word} {h l : Byte},
      low16 (setLow8 (setLow8 (setHigh8 w (low8 (setLow8 v h))) 0x0f) l) = h ++ l := by
    intro w v h l
    rw [low16_setLow8, high8_setLow8, high8_setHigh8, low8_setLow8]
  exact hhigh.trans (append_bytes _ _)

lemma readCursor_screen :
    x.readCursor.screen = { x.screen with crtAddr := curPosLowIndex } := by
  simp only [readCursor, outDx_addr, inDx]
  rfl

lemma bytes_append (h l : Byte) : (((h ++ l : BitVec 16) >>> 8) &&& 0xff).setWidth 8 = h ∧
    ((h ++ l : BitVec 16) &&& 0xff).setWidth 8 = l := by
  constructor <;>
  · apply BitVec.eq_of_getLsbD_eq
    intro i hi
    rw [BitVec.getLsbD_setWidth, BitVec.getLsbD_and]
    first | rw [BitVec.getLsbD_ushiftRight, BitVec.getLsbD_append] | rw [BitVec.getLsbD_append]
    interval_cases i <;> simp

lemma setCursor_screen : x.setCursor.screen = OsI386.setCursor x.screen x.bx := by
  have hbytes := bytes_append x.bh x.bl
  have hbx : (x.bh ++ x.bl : BitVec 16) = x.bx := high8_append_low8 x.ebx
  rw [hbx] at hbytes
  simp only [setCursor, outDx_addr, outDx_data]
  unfold OsI386.setCursor
  rw [hbytes.1, hbytes.2]
  rfl

end Registers

section Scrolling

variable {x : PrintAsm} {s : Screen} {i n : ℕ}

lemma extract_load32 (m : Word → Byte) (a : Word) : (load32 m a).extractLsb' 0 8 = m a ∧
    (load32 m a).extractLsb' 8 8 = m (a + 1) ∧ (load32 m a).extractLsb' 16 8 = m (a + 2) ∧
    (load32 m a).extractLsb' 24 8 = m (a + 3) := by
  refine ⟨?_, ?_, ?_, ?_⟩ <;>
  · apply BitVec.eq_of_getLsbD_eq
    intro i hi
    rw [BitVec.getLsbD_extractLsb', load32, BitVec.getLsbD_append, BitVec.getLsbD_append,
      BitVec.getLsbD_append]
    interval_cases i <;> simp

/-- The source lies above the destination. -/
lemma source_ne_destination {k l : ℕ} (hk : k < 4) (hl : l < 4) :
    rollVideoSrcAddr + BitVec.ofNat 32 (i + k) ≠ rollVideoDstAddr + BitVec.ofNat 32 (i + l) := by
  intro h
  have hsrc : rollVideoSrcAddr.toNat = 0xc00b80a0 := rfl
  have hdst : rollVideoDstAddr.toNat = 0xc00b8000 := rfl
  have hmod := congrArg BitVec.toNat h
  rw [BitVec.toNat_add, BitVec.toNat_add, BitVec.toNat_ofNat, BitVec.toNat_ofNat, hsrc,
    hdst] at hmod
  omega

/-- The first `k` bytes of four, all read from `s`. -/
def copied (s : Screen) (i : ℕ) : ℕ → Screen
  | 0 => s
  | k + 1 => (copied s i k).store (rollVideoDstAddr + BitVec.ofNat 32 (i + k))
      (s.mem (rollVideoSrcAddr + BitVec.ofNat 32 (i + k)))

lemma copied_mem {k l : ℕ} (hk : k < 4) (hl : l ≤ 4) :
    (copied s i l).mem (rollVideoSrcAddr + BitVec.ofNat 32 (i + k)) =
      s.mem (rollVideoSrcAddr + BitVec.ofNat 32 (i + k)) := by
  induction l with
  | zero => rfl
  | succ l ih =>
    exact (Function.update_of_ne (source_ne_destination hk (by omega)) _ _).trans (ih (by omega))

lemma memcpyLoop_copied {k : ℕ} (hk : k < 4) :
    memcpyLoop (copied s i k) rollVideoDstAddr rollVideoSrcAddr (i + k) (n + 1) =
      memcpyLoop (copied s i (k + 1)) rollVideoDstAddr rollVideoSrcAddr (i + (k + 1)) n := by
  rw [memcpyLoop, copied_mem hk hk.le]
  rfl

lemma copied_four : copied s i 4 = s.store32 (rollVideoDstAddr + BitVec.ofNat 32 i)
    (load32 s.mem (rollVideoSrcAddr + BitVec.ofNat 32 i)) := by
  obtain ⟨h0, h1, h2, h3⟩ := extract_load32 s.mem (rollVideoSrcAddr + BitVec.ofNat 32 i)
  have haddr : ∀ (a : Word) (k : ℕ), a + BitVec.ofNat 32 (i + k) =
      a + BitVec.ofNat 32 i + BitVec.ofNat 32 k := by
    intro a k
    rw [BitVec.ofNat_add, add_assoc]
  rw [Screen.store32, h0, h1, h2, h3]
  simp only [copied, haddr, BitVec.add_zero]
  rfl

/-- Four bytes of the copy are read before the first of them is written. -/
lemma memcpyLoop_four : memcpyLoop s rollVideoDstAddr rollVideoSrcAddr i (n + 4) =
    memcpyLoop (s.store32 (rollVideoDstAddr + BitVec.ofNat 32 i)
      (load32 s.mem (rollVideoSrcAddr + BitVec.ofNat 32 i)))
      rollVideoDstAddr rollVideoSrcAddr (i + 4) n := by
  rw [← copied_four]
  calc memcpyLoop (copied s i 0) rollVideoDstAddr rollVideoSrcAddr (i + 0) (n + 3 + 1)
    _ = memcpyLoop (copied s i 1) rollVideoDstAddr rollVideoSrcAddr (i + 1) (n + 2 + 1) :=
      memcpyLoop_copied (by decide)
    _ = memcpyLoop (copied s i 2) rollVideoDstAddr rollVideoSrcAddr (i + 2) (n + 1 + 1) :=
      memcpyLoop_copied (by decide)
    _ = memcpyLoop (copied s i 3) rollVideoDstAddr rollVideoSrcAddr (i + 3) (n + 1) :=
      memcpyLoop_copied (by decide)
    _ = memcpyLoop (copied s i 4) rollVideoDstAddr rollVideoSrcAddr (i + 4) n :=
      memcpyLoop_copied (by decide)

lemma repMovsd_screen (hesi : x.esi = rollVideoSrcAddr + BitVec.ofNat 32 i)
    (hedi : x.edi = rollVideoDstAddr + BitVec.ofNat 32 i) :
    (x.repMovsd n).screen =
      memcpyLoop x.screen rollVideoDstAddr rollVideoSrcAddr i (4 * n) := by
  induction n generalizing x i with
  | zero => rfl
  | succ n ih =>
    have hnext : ∀ a : Word, a + BitVec.ofNat 32 i + 4 = a + BitVec.ofNat 32 (i + 4) := by
      intro a
      rw [BitVec.ofNat_add, ← add_assoc]
      rfl
    have hesi' : x.movsd.esi = rollVideoSrcAddr + BitVec.ofNat 32 (i + 4) := by
      rw [← hnext, ← hesi]
      rfl
    have hedi' : x.movsd.edi = rollVideoDstAddr + BitVec.ofNat 32 (i + 4) := by
      rw [← hnext, ← hedi]
      rfl
    rw [repMovsd, ih hesi' hedi', Nat.mul_succ, memcpyLoop_four, ← hesi, ← hedi]
    rfl

lemma cls_screen (hebx : x.ebx = BitVec.ofNat 32 i) :
    (x.cls n).screen = cleanLoop x.screen i n := by
  induction n generalizing x i with
  | zero => rfl
  | succ n ih =>
    have hnext : ∀ k : ℕ, BitVec.ofNat 32 i + BitVec.ofNat 32 k = BitVec.ofNat 32 (i + k) :=
      fun k => (BitVec.ofNat_add i k).symm
    rw [cls, ih (i := i + 2) (by rw [← hnext, ← hebx]; rfl), cleanLoop, ← hnext 1, ← hebx]
    rfl

lemma repMovsd_rollScreen (hesi : x.esi = rollVideoSrcAddr) (hedi : x.edi = rollVideoDstAddr)
    (hecx : x.ecx = 960) : (x.repMovsd x.ecx.toNat).screen = OsI386.rollScreen x.screen := by
  have hn : x.ecx.toNat = 960 := by
    rw [hecx]
    rfl
  rw [hn, repMovsd_screen (i := 0) (by simpa using hesi) (by simpa using hedi),
    OsI386.rollScreen, mul_comm]

lemma cls_cleanLastLine (hebx : x.ebx = 3840) (hecx : x.ecx = 80) :
    (x.cls x.ecx.toNat).screen = cleanLastLine x.screen := by
  have hn : x.ecx.toNat = 80 := by
    rw [hecx]
    rfl
  rw [hn, cls_screen (i := 3840) hebx, cleanLastLine]

lemma rollScreen_screen : x.rollScreen.screen = cleanLastLine (OsI386.rollScreen x.screen) := by
  unfold rollScreen
  extract_lets x1 x2 x3 x4
  have h2 : x2.screen = OsI386.rollScreen x1.screen := repMovsd_rollScreen rfl rfl rfl
  have h4 : x4.screen = cleanLastLine x3.screen := cls_cleanLastLine rfl rfl
  change x4.screen = _
  rw [h4, ← show x1.screen = x.screen from rfl, ← h2]

lemma rollScreen_bx : x.rollScreen.bx = 1920 := bx_setBx

end Scrolling

section Branches

variable {x : PrintAsm} {p q : BitVec 16}

lemma slt_screenMax (hp : p.toNat < 2 ^ 15) : p.slt 2000 = true ↔ ¬ screenMax ≤ p := by
  have hmax : (2000 : BitVec 16).toInt = 2000 := rfl
  rw [BitVec.slt_iff_toInt_lt, hmax, BitVec.toInt_eq_toNat_of_lt (by omega)]
  change _ ↔ ¬ (2000 : ℕ) ≤ p.toNat
  omega

/-- A cell's two bytes, by a 16-bit offset. -/
lemma cell_offsets (hq : q.toNat < 2 ^ 15) : (q <<< 1).setWidth 32 = q.setWidth 32 * (2 : Word) ∧
    (q <<< 1 + 1).setWidth 32 = q.setWidth 32 * (2 : Word) + 1 ∧ (q <<< 1 + 1) >>> 1 = q := by
  have hone : (1 : BitVec 16).toNat = 1 := rfl
  have hone' : (1 : Word).toNat = 1 := rfl
  have htwo : (2 : Word).toNat = 2 := rfl
  have hdouble : (q <<< 1).toNat = 2 * q.toNat := by
    rw [BitVec.toNat_shiftLeft, Nat.shiftLeft_eq]
    omega
  have hnext : (q <<< 1 + 1).toNat = 2 * q.toNat + 1 := by
    rw [BitVec.toNat_add, hdouble, hone]
    omega
  refine ⟨?_, ?_, ?_⟩ <;> apply BitVec.eq_of_toNat_eq
  · rw [BitVec.toNat_setWidth, hdouble, BitVec.toNat_mul, BitVec.toNat_setWidth, htwo]
    omega
  · rw [BitVec.toNat_setWidth, hnext, BitVec.toNat_add, BitVec.toNat_mul, BitVec.toNat_setWidth,
      htwo, hone']
    omega
  · rw [BitVec.toNat_ushiftRight, hnext, Nat.shiftRight_eq_div_pow]
    omega

lemma setWidth_back (hp : p.toNat ≠ 0) : (p - 1).setWidth 32 = p.setWidth 32 - (1 : Word) := by
  have hone : (1 : Word).toNat = 1 := rfl
  apply BitVec.eq_of_toNat_eq
  rw [BitVec.toNat_setWidth, toNat_back hp, BitVec.toNat_sub, BitVec.toNat_setWidth, hone]
  omega

lemma divSi_dx : x.divSi.dx = low16 ((x.dx ++ x.ax : Word) % x.si.setWidth 32) := low16_setLow16

/-- The remainder, with 0 in the upper half of the dividend. -/
lemma remainder_eq : low16 (((0 : BitVec 16) ++ p : Word) % (80 : BitVec 16).setWidth 32) =
    p % 80 := by
  have h80 : ((80 : BitVec 16).setWidth 32 : Word).toNat = 80 := rfl
  have hzero : (0 : BitVec 16).toNat = 0 := rfl
  have hlt := p.isLt
  apply BitVec.eq_of_toNat_eq
  rw [toNat_low16, BitVec.toNat_umod, toNat_append16, h80, BitVec.toNat_umod, hzero]
  change _ = p.toNat % 80
  omega

lemma isLineFeed_eq (hp : x.bx.toNat ≤ 2000) : checkOutOfScreen x.screen (x.bx - x.bx % 80 + 80) =
    (x.isLineFeed.screen, x.isLineFeed.bx) := by
  unfold isLineFeed
  extract_lets x1 x2 x3 x4 x5
  have hdx : x3.dx = x.bx % 80 := by
    have hupper : (x2.setSi 80).dx = 0 := low16_setLow16
    have hlower : (x2.setSi 80).ax = x.bx := low16_setLow16
    have hdivisor : (x2.setSi 80).si = 80 := low16_setLow16
    rw [← remainder_eq, ← hupper, ← hlower, ← hdivisor]
    exact divSi_dx
  have hbx : x5.bx = x.bx - x.bx % 80 + 80 := by
    rw [bx_setBx, bx_setBx, hdx]
    rfl
  have hlt : x5.bx.toNat < 2 ^ 15 := by
    have h80 : (80 : BitVec 16).toNat = 80 := rfl
    have hle : x.bx % 80 ≤ x.bx := by
      change (x.bx % 80).toNat ≤ _
      rw [BitVec.toNat_umod]
      exact Nat.mod_le _ _
    rw [hbx, BitVec.toNat_add, BitVec.toNat_sub_of_le hle, h80]
    omega
  rw [← hbx, checkOutOfScreen]
  by_cases hslt : x5.bx.slt 2000 = true
  · rw [if_pos hslt, if_neg ((slt_screenMax hlt).mp hslt)]
    rfl
  · rw [if_neg hslt, if_pos (not_not.mp fun h => hslt ((slt_screenMax hlt).mpr h)),
      rollScreen_screen, rollScreen_bx]
    rfl

lemma isBackspace_eq (hp : x.bx.toNat < 2000) (h0 : x.bx.toNat ≠ 0) :
    x.isBackspace.screen =
      (x.screen.store (videoBaseAddr + (x.bx.setWidth 32 - 1) * 2) 0x20).store
        (videoBaseAddr + ((x.bx.setWidth 32 - 1) * 2 + 1)) 0x07 ∧
    x.isBackspace.bx = x.bx - 1 := by
  have hlt : (x.bx - 1).toNat < 2 ^ 15 := by
    rw [toNat_back h0]
    omega
  obtain ⟨hchar, hattr, hcursor⟩ := cell_offsets hlt
  rw [setWidth_back h0] at hchar hattr
  unfold isBackspace
  extract_lets x1 x2 x3 x4 x5
  have hbx2 : x2.bx = (x.bx - 1) <<< 1 := by
    rw [bx_setBx, bx_setBx]
  have hbx4 : x4.bx = (x.bx - 1) <<< 1 + 1 := by
    rw [bx_setBx, bx_storeGs, hbx2]
  constructor
  · rw [screen_setBx, screen_storeGs, hbx4, hattr, screen_setBx, screen_storeGs, hbx2, hchar]
    rfl
  · rw [bx_setBx, bx_storeGs, hbx4, hcursor]

lemma putOther_eq (hp : x.bx.toNat < 2000) :
    checkOutOfScreen ((x.screen.store (videoBaseAddr + x.bx.setWidth 32 * 2) x.cl).store
      (videoBaseAddr + (x.bx.setWidth 32 * 2 + 1)) 0x07) (x.bx + 1) =
    (x.putOther.screen, x.putOther.bx) := by
  obtain ⟨hchar, hattr, hcursor⟩ := cell_offsets (show x.bx.toNat < 2 ^ 15 by omega)
  unfold putOther
  extract_lets x1 x2 x3 x4 x5 x6
  have hbx1 : x1.bx = x.bx <<< 1 := bx_setBx
  have hbx3 : x3.bx = x.bx <<< 1 + 1 := by
    rw [bx_setBx, bx_storeGs, hbx1]
  have hbx : x6.bx = x.bx + 1 := by
    rw [bx_setBx, bx_setBx, bx_storeGs, hbx3, hcursor]
  have hscreen : x6.screen = (x.screen.store (videoBaseAddr + x.bx.setWidth 32 * 2) x.cl).store
      (videoBaseAddr + (x.bx.setWidth 32 * 2 + 1)) 0x07 := by
    rw [screen_setBx, screen_setBx, screen_storeGs, hbx3, hattr, screen_setBx, screen_storeGs,
      hbx1, hchar]
    rfl
  have hnext : x6.bx.toNat = x.bx.toNat + 1 := by
    rw [hbx, toNat_forward hp]
  rw [← hscreen, ← hbx]
  by_cases hslt : x6.bx.slt 2000 = true
  · rw [if_pos hslt, checkOutOfScreen, if_neg ((slt_screenMax (by omega)).mp hslt)]
  · -- the cursor is 2000, the line feed would take it to 2080
    have hmax : ¬ ¬ screenMax ≤ x6.bx := fun h => hslt ((slt_screenMax (by omega)).mpr h)
    have hle : 2000 ≤ x6.bx.toNat := not_not.mp hmax
    have hfull : x6.bx = 2000 := by
      apply BitVec.eq_of_toNat_eq
      change x6.bx.toNat = 2000
      omega
    rw [if_neg hslt, ← isLineFeed_eq (by omega), hfull]
    rfl

end Branches

section Characters

/-- A backspace at the first cell is what takes the cursor off the screen. -/
def Printable (s : Screen) (c : Byte) : Prop := ¬ (c = 0x08 ∧ s.cursor = 0)

variable {x : PrintAsm} {asci : Word} {n : ℕ}

lemma repMovsd_buffer : (x.repMovsd n).putIntBuffer = x.putIntBuffer := by
  induction n generalizing x with
  | zero => rfl
  | succ n ih => exact ih

lemma cls_buffer : (x.cls n).putIntBuffer = x.putIntBuffer := by
  induction n generalizing x with
  | zero => rfl
  | succ n ih => exact ih

lemma rollScreen_buffer : x.rollScreen.putIntBuffer = x.putIntBuffer := by
  unfold rollScreen
  extract_lets x1 x2 x3 x4
  have h2 : x2.putIntBuffer = x1.putIntBuffer := repMovsd_buffer
  have h4 : x4.putIntBuffer = x3.putIntBuffer := cls_buffer
  clear_value x4
  change x4.putIntBuffer = x1.putIntBuffer
  rw [h4, ← h2]

lemma isLineFeed_buffer : x.isLineFeed.putIntBuffer = x.putIntBuffer := by
  unfold isLineFeed
  extract_lets x1 x2 x3 x4 x5
  by_cases hslt : x5.bx.slt 2000 = true
  · rw [if_pos hslt]
    rfl
  · rw [if_neg hslt, rollScreen_buffer]
    rfl

lemma putOther_buffer : x.putOther.putIntBuffer = x.putIntBuffer := by
  unfold putOther
  extract_lets x1 x2 x3 x4 x5 x6
  by_cases hslt : x6.bx.slt 2000 = true
  · rw [if_pos hslt]
    rfl
  · rw [if_neg hslt, isLineFeed_buffer]
    rfl

/-- The routine and the function of `print.c` do the same to the screen. -/
lemma putChar_eq {c : Byte} (hasci : low8 asci = c) (hlt : x.screen.cursor.toNat < 2000)
    (hput : Printable x.screen c) :
    x.putChar asci = { x with screen := OsI386.putChar x.screen c } := by
  subst hasci
  unfold putChar
  extract_lets saved x1 x2 x3
  have hbx : x2.bx = x.screen.cursor := readCursor_bx
  have hscreen : x2.screen = { x.screen with crtAddr := curPosLowIndex } := readCursor_screen
  have hcl : x2.cl = low8 asci := rfl
  have hbuffer : x2.putIntBuffer = x.putIntBuffer := readCursor_buffer
  suffices h : OsI386.setCursor x3.screen x3.bx = OsI386.putChar x.screen (low8 asci) ∧
      x3.putIntBuffer = x.putIntBuffer by
    rw [popad, setCursor_screen, setCursor_buffer, h.1, h.2]
  have hline := isLineFeed_eq (x := x2) (by rw [hbx]; omega)
  have hother := putOther_eq (x := x2) (by rwa [hbx])
  simp only [OsI386.putChar, getCursor_eq]
  rw [hbx, hscreen] at hline hother
  rw [hcl] at hother
  by_cases hreturn : low8 asci = 0x0d ∨ low8 asci = 0x0a
  · have hx3 : x3 = x2.isLineFeed := by
      change (if x2.cl = 0x0d then _ else if x2.cl = 0x0a then _ else _) = _
      grind
    rw [if_pos hreturn, hline, hx3]
    exact ⟨rfl, isLineFeed_buffer.trans hbuffer⟩
  rw [if_neg hreturn]
  by_cases hbs : low8 asci = 0x08
  · have hx3 : x3 = x2.isBackspace := by
      change (if x2.cl = 0x0d then _ else if x2.cl = 0x0a then _ else
        if x2.cl = 0x08 then _ else _) = _
      grind
    have hpos : x2.bx.toNat ≠ 0 := fun h0 =>
      hput ⟨hbs, hbx ▸ BitVec.eq_of_toNat_eq h0⟩
    obtain ⟨hcells, hcursor⟩ := isBackspace_eq (by rwa [hbx]) hpos
    rw [if_pos hbs, hx3, hcells, hcursor, hbx, hscreen]
    exact ⟨rfl, hbuffer⟩
  · have hx3 : x3 = x2.putOther := by
      change (if x2.cl = 0x0d then _ else if x2.cl = 0x0a then _ else
        if x2.cl = 0x08 then _ else _) = _
      grind
    rw [if_neg hbs, hx3]
    change OsI386.setCursor _ _ =
      OsI386.setCursor (checkOutOfScreen _ _).1 (checkOutOfScreen _ _).2 ∧ _
    rw [show blkBackWhtWord = 0x07 from rfl, hother]
    exact ⟨rfl, putOther_buffer.trans hbuffer⟩

end Characters

section Strings

variable {x : PrintAsm} {s : Screen} {c : Byte} {n : ℕ}

lemma cursor_checkOutOfScreen {p : BitVec 16} :
    (checkOutOfScreen s p).2.toNat < 2000 := by
  rw [checkOutOfScreen]
  by_cases hle : screenMax ≤ p
  · rw [if_pos hle]
    change (screenMax - screenColMax).toNat < 2000
    decide
  · rw [if_neg hle]
    have hlt : ¬ (2000 : ℕ) ≤ p.toNat := hle
    dsimp only
    omega

lemma cursor_putChar (hlt : s.cursor.toNat < 2000) (hc : Printable s c) :
    (OsI386.putChar s c).cursor.toNat < 2000 := by
  simp only [OsI386.putChar, getCursor_eq]
  by_cases hline : c = 0x0d ∨ c = 0x0a
  · rw [if_pos hline, setCursor_cursor]
    exact cursor_checkOutOfScreen
  rw [if_neg hline]
  by_cases hback : c = 0x08
  · have hpos : s.cursor.toNat ≠ 0 := fun h0 => hc ⟨hback, BitVec.eq_of_toNat_eq h0⟩
    rw [if_pos hback, setCursor_cursor, toNat_back hpos]
    omega
  · rw [if_neg hback, setCursor_cursor]
    exact cursor_checkOutOfScreen

/-- No byte that the string puts is a backspace at the first cell. -/
def StrPrintable (message : Message) (s : Screen) (i : ℕ) : ℕ → Prop
  | 0 => True
  | n + 1 => message s i ≠ 0 →
      Printable s (message s i) ∧ StrPrintable message (OsI386.putChar s (message s i)) (i + 1) n

lemma cursor_putStr {message : Message} {t : Screen} {i : ℕ} (hlt : s.cursor.toNat < 2000)
    (hok : StrPrintable message s i n) (h : OsI386.putStr message s i n = some t) :
    t.cursor.toNat < 2000 := by
  induction n generalizing s i with
  | zero => exact absurd h (by simp [OsI386.putStr])
  | succ n ih =>
    rw [OsI386.putStr] at h
    by_cases hend : message s i = 0
    · rw [if_pos hend] at h
      exact Option.some.inj h ▸ hlt
    · rw [if_neg hend] at h
      obtain ⟨hput, hrest⟩ := hok hend
      exact ih (cursor_putChar hlt hput) hrest h

/-- The two loops stop at the same byte, with the same screen. -/
lemma goon_eq {message : Word} {i : ℕ} (hlt : x.screen.cursor.toNat < 2000)
    (hebx : x.ebx = message + BitVec.ofNat 32 i)
    (hok : StrPrintable (inMemory message) x.screen i n) (b c : Word) :
    (x.goon n).map (fun y => { y with ecx := c, ebx := b }) =
      (OsI386.putStr (inMemory message) x.screen i n).map fun t =>
        { x with ecx := c, ebx := b, screen := t } := by
  induction n generalizing x i with
  | zero => rfl
  | succ n ih =>
    have hbyte : x.screen.mem x.ebx = inMemory message x.screen i := by
      rw [hebx]
      rfl
    rw [goon, OsI386.putStr, hbyte, cl_setCl]
    by_cases hend : inMemory message x.screen i = 0
    · rw [if_pos hend, if_pos hend]
      rfl
    · obtain ⟨hput, hrest⟩ := hok hend
      rw [if_neg hend, if_neg hend]
      set c' := inMemory message x.screen i
      have hx1 : (x.setCl c').putChar (x.setCl c').ecx =
          { x.setCl c' with screen := OsI386.putChar x.screen c' } :=
        putChar_eq cl_setCl hlt hput
      have hnext : x.ebx + 1 = message + BitVec.ofNat 32 (i + 1) := by
        rw [hebx, BitVec.ofNat_add, add_assoc]
        rfl
      dsimp only
      rw [hx1]
      exact ih (cursor_putChar hlt hput) hnext hrest

lemma putStr_eq {message : Word} (hlt : x.screen.cursor.toNat < 2000)
    (hok : StrPrintable (inMemory message) x.screen 0 n) :
    x.putStr message n =
      (OsI386.putStr (inMemory message) x.screen 0 n).map fun t => { x with screen := t } := by
  exact goon_eq (x := { x with ecx := 0, ebx := message }) hlt (by simp) hok x.ebx x.ecx

end Strings

end PrintAsm

end OsI386
