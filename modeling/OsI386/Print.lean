import OsI386.IoQueue
import OsI386.Paging

/-!
# lib/kernel/print.c

The video memory is 4000 bytes of the kernel's address space, the cursor two registers of the
crt. `written` collects the addresses `put_char` stores to.
-/
namespace OsI386
open TransitionSystem

def blkBackWhtWord : Byte := 0x07

def screenColMax : BitVec 16 := 80
def screenMax : BitVec 16 := 25 * screenColMax

def videoBaseAddr : Word := 0xc00b8000
def rollVideoSrcAddr : Word := 0xc00b80a0
def rollVideoDstAddr : Word := 0xc00b8000

def curPosHighIndex : Byte := 0x0e
def curPosLowIndex : Byte := 0x0f

/-- `crtAddr` is the crt register that port 0x3d5 stands for. -/
structure Screen where
  mem : Word → Byte
  crtAddr : Byte
  crt : Byte → Byte
  written : List Word

namespace Screen

def store (s : Screen) (a : Word) (b : Byte) : Screen :=
  { s with mem := Function.update s.mem a b, written := s.written ++ [a] }

/-- `outb` to port 0x3d4 and to port 0x3d5. -/
def outAddr (s : Screen) (b : Byte) : Screen := { s with crtAddr := b }

def outData (s : Screen) (b : Byte) : Screen := { s with crt := Function.update s.crt s.crtAddr b }

def inData (s : Screen) : Byte := s.crt s.crtAddr

end Screen

def setCursor (s : Screen) (target : BitVec 16) : Screen :=
  let high : Byte := ((target >>> 8) &&& 0xff).setWidth 8
  let low : Byte := (target &&& 0xff).setWidth 8
  let s := (s.outAddr curPosHighIndex).outData high
  (s.outAddr curPosLowIndex).outData low

/-- `inb` fills the lower byte; the mask drops what is in the upper one. -/
def getCursor (s : Screen) : BitVec 16 × Screen :=
  let s := s.outAddr curPosHighIndex
  let curPosHigh : BitVec 16 := s.inData.setWidth 16
  let s := s.outAddr curPosLowIndex
  let curPosLow : BitVec 16 := s.inData.setWidth 16
  ((curPosHigh <<< 8) &&& 0xff00 ||| curPosLow &&& 0x00ff, s)

/-- The loop of `memcpy` from its `i`th byte on, `n` bytes left. -/
def memcpyLoop (s : Screen) (dst src : Word) (i : ℕ) : ℕ → Screen
  | 0 => s
  | n + 1 => memcpyLoop (s.store (dst + BitVec.ofNat 32 i) (s.mem (src + BitVec.ofNat 32 i)))
      dst src (i + 1) n

def rollScreen (s : Screen) : Screen :=
  memcpyLoop s rollVideoDstAddr rollVideoSrcAddr 0 (960 * 4)

/-- The loop of `clean_last_line`, `n` cells left. -/
def cleanLoop (s : Screen) (offset : ℕ) : ℕ → Screen
  | 0 => s
  | n + 1 =>
    let s := s.store (videoBaseAddr + BitVec.ofNat 32 offset) 0x20
    cleanLoop (s.store (videoBaseAddr + BitVec.ofNat 32 (offset + 1)) blkBackWhtWord) (offset + 2) n

def cleanLastLine (s : Screen) : Screen := cleanLoop s 3840 80

/-- `CHECK_OUT_OF_SCREEN`. -/
def checkOutOfScreen (s : Screen) (nextCurPos : BitVec 16) : Screen × BitVec 16 :=
  if screenMax ≤ nextCurPos then (cleanLastLine (rollScreen s), screenMax - screenColMax)
  else (s, nextCurPos)

def putChar (s : Screen) (c : Byte) : Screen :=
  let (curPos, s) := getCursor s
  if c = 0x0d ∨ c = 0x0a then
    let (s, nextCurPos) := checkOutOfScreen s (curPos - curPos % 80 + 80)
    setCursor s nextCurPos
  else if c = 0x08 then
    -- `cur_pos - 1` is an `int`
    let offset : Word := (curPos.setWidth 32 - 1) * 2
    let s := s.store (videoBaseAddr + offset) 0x20
    let s := s.store (videoBaseAddr + (offset + 1)) blkBackWhtWord
    setCursor s (curPos - 1)
  else
    let offset : Word := curPos.setWidth 32 * 2
    let s := s.store (videoBaseAddr + offset) c
    let s := s.store (videoBaseAddr + (offset + 1)) blkBackWhtWord
    let (s, nextCurPos) := checkOutOfScreen s (curPos + 1)
    setCursor s nextCurPos

/-- The byte of a string at an index: a string is in memory, or in an array of its own. -/
abbrev Message := Screen → ℕ → Byte

def inMemory (message : Word) : Message := fun s i => s.mem (message + BitVec.ofNat 32 i)

/-- The loop of `put_str`, with `tmp` at index `i`. -/
def putStr (message : Message) (s : Screen) (i : ℕ) : ℕ → Option Screen
  | 0 => none
  | n + 1 =>
    if message s i = 0 then some s else putStr message (putChar s (message s i)) (i + 1) n

/-- The loop of `put_int`. -/
def putIntLoop (forPrint : ℕ → Byte) (off : Byte) (numTmp : Word) :
    ℕ → Option ((ℕ → Byte) × Byte)
  | 0 => none
  | n + 1 =>
    if numTmp = 0 then some (forPrint, off)
    else
      let low : Byte := (numTmp &&& 0xf).setWidth 8
      let p := if 0 ≤ low ∧ low ≤ 9 then low + 0x30 else low - 10 + 0x41
      putIntLoop (Function.update forPrint off.toNat p) (off - 1) (numTmp >>> 4) n

def putInt (s : Screen) (num : Word) : Option Screen :=
  let forPrint : ℕ → Byte := fun _ => 0
  let off : Byte := 7
  let (forPrint, off) :=
    if num = 0 then (Function.update forPrint off.toNat 0x30, off - 1) else (forPrint, off)
  (putIntLoop forPrint off num 9).bind fun (forPrint, off) =>
    putStr (fun _ i => forPrint ((off + 1).toNat + i)) s 0 9

section Terminal

/-- A character and its attribute. -/
abbrev Cell := Byte × Byte

def blankCell : Cell := (0x20, 0x07)

/-- A terminal of 25 rows of 80 cells. -/
structure Terminal where
  cells : ℕ → Cell
  cursor : ℕ

namespace Terminal

/-- The cursor goes to a cell, or past the last one: then rows 1 to 24 move up. -/
def moveTo (t : Terminal) (next : ℕ) : Terminal :=
  if next < 2000 then { t with cursor := next }
  else
    { cells := fun i => if i < 24 * 80 then t.cells (i + 80) else blankCell
      cursor := 24 * 80 }

def put (t : Terminal) (c : Byte) : Terminal :=
  if c = 0x0d ∨ c = 0x0a then t.moveTo ((t.cursor / 80 + 1) * 80)
  else if c = 0x08 then
    if t.cursor = 0 then t
    else
      { cells := Function.update t.cells (t.cursor - 1) blankCell
        cursor := t.cursor - 1 }
  else
    { t with cells := Function.update t.cells t.cursor (c, 0x07) }.moveTo (t.cursor + 1)

end Terminal

end Terminal

section Registers

variable {s : Screen} {p : BitVec 16}

/-- The position in the two cursor registers. -/
def Screen.cursor (s : Screen) : BitVec 16 :=
  (s.crt curPosHighIndex).setWidth 16 <<< 8 &&& 0xff00 |||
    (s.crt curPosLowIndex).setWidth 16 &&& 0x00ff

lemma getCursor_eq : getCursor s = (s.cursor, { s with crtAddr := curPosLowIndex }) := rfl

@[simp] lemma setCursor_mem : (setCursor s p).mem = s.mem := rfl

@[simp] lemma setCursor_written : (setCursor s p).written = s.written := rfl

lemma setCursor_cursor : (setCursor s p).cursor = p := by
  change (((p >>> 8) &&& 0xff).setWidth 8 : Byte).setWidth 16 <<< 8 &&& 0xff00 |||
    ((p &&& 0xff).setWidth 8 : Byte).setWidth 16 &&& 0x00ff = p
  ext i hi
  interval_cases i <;> simp

end Registers

section Video

variable {s : Screen} {b : Byte} {i j n k offset : ℕ}

/-- Byte `i` of the video memory. -/
def Screen.video (s : Screen) (i : ℕ) : Byte := s.mem (videoBaseAddr + BitVec.ofNat 32 i)

def InVideo (a : Word) : Prop := (a - videoBaseAddr).toNat < 4000

/-- All stores were to the video memory. -/
def Screen.Inside (s : Screen) : Prop := ∀ a ∈ s.written, InVideo a

lemma inVideo_of_lt (hi : i < 4000) : InVideo (videoBaseAddr + BitVec.ofNat 32 i) := by
  rw [InVideo, add_sub_cancel_left, BitVec.toNat_ofNat]
  omega

lemma video_store (hi : i < 4000) (hj : j < 4000) :
    (s.store (videoBaseAddr + BitVec.ofNat 32 i) b).video j = if j = i then b else s.video j := by
  have hinj : videoBaseAddr + BitVec.ofNat 32 j = videoBaseAddr + BitVec.ofNat 32 i ↔ j = i := by
    rw [add_right_inj]
    refine ⟨fun he => ?_, fun he => he ▸ rfl⟩
    have hmod := congrArg BitVec.toNat he
    rw [BitVec.toNat_ofNat, BitVec.toNat_ofNat] at hmod
    omega
  simp only [Screen.video, Screen.store, Function.update_apply, hinj]

lemma inside_store (h : s.Inside) (hi : i < 4000) :
    (s.store (videoBaseAddr + BitVec.ofNat 32 i) b).Inside := by
  intro a ha
  rcases List.mem_append.mp ha with ha | ha
  · exact h a ha
  · exact List.mem_singleton.mp ha ▸ inVideo_of_lt hi

lemma inside_setCursor {p : BitVec 16} : (setCursor s p).Inside ↔ s.Inside := Iff.rfl

/-- The copy goes upwards and its source lies above its destination, so each byte is read before
it is overwritten. -/
lemma video_memcpyLoop (h : i + n ≤ 3840) (hj : j < 4000) :
    (memcpyLoop s rollVideoDstAddr rollVideoSrcAddr i n).video j =
      if i ≤ j ∧ j < i + n then s.video (j + 160) else s.video j := by
  induction n generalizing s i with
  | zero => simp [memcpyLoop, show ¬ (i ≤ j ∧ j < i) by omega]
  | succ n ih =>
    have hsrc : s.mem (rollVideoSrcAddr + BitVec.ofNat 32 i) = s.video (i + 160) := by
      rw [Screen.video, BitVec.ofNat_add, add_comm (BitVec.ofNat 32 i), ← add_assoc]
      rfl
    rw [memcpyLoop, ih (by omega), hsrc]
    have hdst : rollVideoDstAddr = videoBaseAddr := rfl
    rw [hdst]
    by_cases hlow : j = i
    · subst hlow
      rw [if_neg (by omega), video_store (by omega) hj, if_pos rfl, if_pos (by omega)]
    · rw [video_store (by omega) hj, if_neg hlow]
      by_cases hin : i + 1 ≤ j ∧ j < i + 1 + n
      · rw [if_pos hin, if_pos (by omega), video_store (by omega) (by omega), if_neg (by omega)]
      · rw [if_neg hin, if_neg (by omega)]

lemma inside_memcpyLoop (hs : s.Inside) (h : i + n ≤ 3840) :
    (memcpyLoop s rollVideoDstAddr rollVideoSrcAddr i n).Inside := by
  induction n generalizing s i with
  | zero => exact hs
  | succ n ih => exact ih (inside_store hs (by omega)) (by omega)

lemma video_cleanLoop (h : offset + 2 * n ≤ 4000) (heven : offset % 2 = 0) (hj : j < 4000) :
    (cleanLoop s offset n).video j =
      if offset ≤ j ∧ j < offset + 2 * n then (if j % 2 = 0 then 0x20 else 0x07) else s.video j := by
  induction n generalizing s offset with
  | zero => simp [cleanLoop, show ¬ (offset ≤ j ∧ j < offset) by omega]
  | succ n ih =>
    rw [cleanLoop, ih (by omega) (by omega), video_store (by omega) hj, video_store (by omega) hj]
    by_cases hfirst : j = offset
    · rw [if_neg (by omega), if_neg (by omega), if_pos hfirst, if_pos (by omega), if_pos (by omega)]
    by_cases hsecond : j = offset + 1
    · rw [if_neg (by omega), if_pos hsecond, if_pos (by omega), if_neg (by omega)]
      rfl
    by_cases hin : offset + 2 ≤ j ∧ j < offset + 2 + 2 * n
    · rw [if_pos hin, if_pos (by omega : offset ≤ j ∧ j < offset + 2 * (n + 1))]
    · rw [if_neg hin, if_neg hsecond, if_neg hfirst, if_neg (by omega)]

lemma inside_cleanLoop (hs : s.Inside) (h : offset + 2 * n ≤ 4000) :
    (cleanLoop s offset n).Inside := by
  induction n generalizing s offset with
  | zero => exact hs
  | succ n ih => exact ih (inside_store (inside_store hs (by omega)) (by omega)) (by omega)

/-- Scrolling, byte by byte. -/
lemma video_scroll (hj : j < 4000) : (cleanLastLine (rollScreen s)).video j =
    if j < 3840 then s.video (j + 160) else if j % 2 = 0 then 0x20 else 0x07 := by
  rw [cleanLastLine, video_cleanLoop (by norm_num) (by norm_num) hj, rollScreen,
    video_memcpyLoop (by norm_num) hj]
  by_cases hlow : j < 3840
  · rw [if_neg (by omega), if_pos (by omega), if_pos hlow]
  · rw [if_pos (by omega), if_neg hlow]

lemma inside_scroll (hs : s.Inside) : (cleanLastLine (rollScreen s)).Inside := by
  rw [cleanLastLine, rollScreen]
  exact inside_cleanLoop (inside_memcpyLoop hs (by norm_num)) (by norm_num)

end Video

section Refinement

variable {s : Screen} {t : Terminal} {p : BitVec 16} {c : Byte}

def Screen.cell (s : Screen) (i : ℕ) : Cell := (s.video (2 * i), s.video (2 * i + 1))

lemma cell_setCursor {i : ℕ} : (setCursor s p).cell i = s.cell i := rfl

/-- The screen shows the terminal. -/
structure Displays (s : Screen) (t : Terminal) : Prop where
  cells : ∀ i < 2000, s.cell i = t.cells i
  cursor : s.cursor.toNat = t.cursor
  onScreen : t.cursor < 2000
  inside : s.Inside

/-- The end of `put_char`: the new cursor may be one past the last cell. -/
lemma displays_moveTo (hcells : ∀ i < 2000, s.cell i = t.cells i) (hs : s.Inside)
    (hp : p.toNat ≤ 2000) :
    Displays (setCursor (checkOutOfScreen s p).1 (checkOutOfScreen s p).2) (t.moveTo p.toNat) := by
  by_cases hlt : p.toNat < 2000
  · have hcheck : checkOutOfScreen s p = (s, p) := by
      refine if_neg fun hle => ?_
      have hmax : (2000 : ℕ) ≤ p.toNat := hle
      omega
    rw [hcheck, Terminal.moveTo, if_pos hlt]
    exact ⟨hcells, congrArg BitVec.toNat setCursor_cursor, hlt, hs⟩
  · have hcheck : checkOutOfScreen s p = (cleanLastLine (rollScreen s), 1920) := by
      refine if_pos ?_
      change (2000 : ℕ) ≤ p.toNat
      omega
    rw [hcheck, Terminal.moveTo, if_neg hlt]
    refine ⟨fun i hi => ?_, congrArg BitVec.toNat setCursor_cursor, by norm_num,
      inside_setCursor.mpr (inside_scroll hs)⟩
    dsimp only
    rw [cell_setCursor, Screen.cell, video_scroll (by omega), video_scroll (by omega)]
    by_cases hrow : i < 24 * 80
    · rw [if_pos (by omega), if_pos (by omega), if_pos hrow, ← hcells _ (by omega), Screen.cell]
      ring_nf
    · rw [if_neg (by omega), if_pos (by omega), if_neg (by omega), if_neg (by omega), if_neg hrow]
      rfl

/-- A character and its attribute are stored in a cell. -/
lemma cell_store {n : ℕ} {b : Byte} (hn : n < 2000) {i : ℕ} (hi : i < 2000) :
    ((s.store (videoBaseAddr + BitVec.ofNat 32 (2 * n)) c).store
      (videoBaseAddr + BitVec.ofNat 32 (2 * n + 1)) b).cell i =
      Function.update s.cell n (c, b) i := by
  rw [Screen.cell, video_store (by omega) (by omega), video_store (by omega) (by omega),
    video_store (by omega) (by omega), video_store (by omega) (by omega)]
  by_cases hin : i = n
  · subst hin
    simp
  · rw [if_neg (by omega), if_neg (by omega), if_neg (by omega), if_neg (by omega),
      Function.update_of_ne hin, Screen.cell]

/-- The character at the cursor, or the blank before it. -/
lemma cells_put (hcells : ∀ i < 2000, s.cell i = t.cells i) {n : ℕ} {b : Byte} (hn : n < 2000)
    {o : Word} (ho : o = BitVec.ofNat 32 (2 * n)) : ∀ i < 2000,
      ((s.store (videoBaseAddr + o) c).store (videoBaseAddr + (o + 1)) b).cell i =
        Function.update t.cells n (c, b) i := by
  intro i hi
  have hnext : o + 1 = BitVec.ofNat 32 (2 * n + 1) := by
    rw [ho]
    exact (BitVec.ofNat_add _ _).symm
  rw [hnext, ho, cell_store hn hi]
  by_cases hin : i = n
  · rw [hin, Function.update_self, Function.update_self]
  · rw [Function.update_of_ne hin, Function.update_of_ne hin, hcells i hi]

lemma inside_put (hs : s.Inside) {n : ℕ} {b : Byte} (hn : n < 2000) {o : Word}
    (ho : o = BitVec.ofNat 32 (2 * n)) :
    ((s.store (videoBaseAddr + o) c).store (videoBaseAddr + (o + 1)) b).Inside := by
  have hnext : o + 1 = BitVec.ofNat 32 (2 * n + 1) := by
    rw [ho]
    exact (BitVec.ofNat_add _ _).symm
  rw [hnext, ho]
  exact inside_store (inside_store hs (by omega)) (by omega)

lemma toNat_nextRow (hp : p.toNat < 2000) : (p - p % 80 + 80).toNat = (p.toNat / 80 + 1) * 80 := by
  have h80 : (80 : BitVec 16).toNat = 80 := rfl
  rw [BitVec.toNat_add, BitVec.toNat_sub, BitVec.toNat_umod, h80]
  omega

lemma toNat_back (hp : p.toNat ≠ 0) : (p - 1).toNat = p.toNat - 1 := by
  have h1 : (1 : BitVec 16).toNat = 1 := rfl
  rw [BitVec.toNat_sub, h1]
  omega

lemma toNat_forward (hp : p.toNat < 2000) : (p + 1).toNat = p.toNat + 1 := by
  have h1 : (1 : BitVec 16).toNat = 1 := rfl
  rw [BitVec.toNat_add, h1]
  omega

lemma offset_eq : p.setWidth 32 * 2 = BitVec.ofNat 32 (2 * p.toNat) := by
  have h2 : (2 : Word).toNat = 2 := rfl
  apply BitVec.eq_of_toNat_eq
  rw [BitVec.toNat_mul, BitVec.toNat_setWidth, BitVec.toNat_ofNat, h2]
  omega

lemma offset_back (hp : p.toNat ≠ 0) :
    (p.setWidth 32 - 1) * 2 = BitVec.ofNat 32 (2 * (p.toNat - 1)) := by
  have h1 : (1 : Word).toNat = 1 := rfl
  have h2 : (2 : Word).toNat = 2 := rfl
  apply BitVec.eq_of_toNat_eq
  rw [BitVec.toNat_mul, BitVec.toNat_sub, BitVec.toNat_setWidth, BitVec.toNat_ofNat, h1, h2]
  omega

/-- `put_char` does to the screen what the terminal does, unless it is given a backspace in the
first cell. -/
lemma displays_putChar (h : Displays s t) (hc : c = 0x08 → s.cursor ≠ 0) :
    Displays (putChar s c) (t.put c) := by
  have hlt : s.cursor.toNat < 2000 := h.cursor ▸ h.onScreen
  -- reading the cursor only selects a register
  set s' : Screen := { s with crtAddr := curPosLowIndex } with hs'
  have hcells : ∀ i < 2000, s'.cell i = t.cells i := h.cells
  have hs : s'.Inside := h.inside
  unfold putChar Terminal.put
  simp only [getCursor_eq, ← hs', ← h.cursor]
  by_cases hline : c = 0x0d ∨ c = 0x0a
  · rw [if_pos hline, if_pos hline, ← toNat_nextRow hlt]
    refine displays_moveTo hcells hs ?_
    rw [toNat_nextRow hlt]
    omega
  rw [if_neg hline, if_neg hline]
  by_cases hback : c = 0x08
  · have hpos : s.cursor.toNat ≠ 0 := fun h0 => hc hback (BitVec.eq_of_toNat_eq h0)
    rw [if_pos hback, if_pos hback, if_neg hpos]
    refine ⟨fun i hi => ?_, ?_, ?_, ?_⟩
    · exact cells_put hcells (by omega) (offset_back hpos) i hi
    · rw [setCursor_cursor, toNat_back hpos]
    · exact lt_of_le_of_lt (Nat.sub_le _ _) hlt
    · exact inside_setCursor.mpr (inside_put hs (by omega) (offset_back hpos))
  · rw [if_neg hback, if_neg hback, ← toNat_forward hlt]
    refine displays_moveTo (cells_put hcells hlt offset_eq) (inside_put hs hlt offset_eq) ?_
    rw [toNat_forward hlt]
    omega

end Refinement

section Runs

/-- The screen and a terminal, given the same bytes. -/
def screenStep (x : Screen × Terminal) (c : Byte) : Option (Screen × Terminal) :=
  some (putChar x.1 c, x.2.put c)

def Screen.terminal (s : Screen) : Terminal := ⟨s.cell, s.cursor.toNat⟩

/-- No backspace in the first cell. -/
def PutAllowed (x : Screen × Terminal) (c : Byte) : Prop := ¬ (c = 0x08 ∧ x.1.cursor = 0)

/-- A backspace in the first cell takes the cursor to 0xffff. -/
lemma cursor_back (s : Screen) (h : s.cursor = 0) : (putChar s 0x08).cursor = 0xffff := by
  have hlast : (putChar s 0x08).cursor = s.cursor - 1 := setCursor_cursor
  rw [hlast, h]
  rfl

lemma screenStep_total (x : Screen × Terminal) (bytes : List Byte) :
    ∃ y, run screenStep x bytes = some y := by
  induction bytes generalizing x with
  | nil => exact ⟨x, rfl⟩
  | cons c cs ih => exact ih (putChar x.1 c, x.2.put c)

/-- The screen is the terminal's after each byte, the cursor stays on it and each store is to the
video memory, exactly if no backspace is put in the first cell. -/
theorem screen_terminal_iff (s : Screen) (hcursor : s.cursor.toNat < 2000) (hw : s.written = [])
    (bytes : List Byte) :
    RunAlways screenStep (fun x => Displays x.1 x.2) (s, s.terminal) bytes ↔
      RunAllowed screenStep PutAllowed (s, s.terminal) bytes := by
  obtain ⟨y, hy⟩ := screenStep_total (s, s.terminal) bytes
  refine runAlways_iff_runAllowed ⟨fun _ _ => rfl, rfl, hcursor, ?_⟩ ?_ ?_ hy
  · exact fun a ha => absurd (hw ▸ ha) List.not_mem_nil
  · rintro x c _ hx hok ⟨⟩
    exact displays_putChar hx fun hc h0 => hok ⟨hc, h0⟩
  · rintro x c _ hbad ⟨⟩ hx
    obtain ⟨rfl, h0⟩ := not_not.mp hbad
    have hcur := hx.cursor
    have hon := hx.onScreen
    rw [cursor_back _ h0] at hcur
    change 0xffff = _ at hcur
    omega

/-- A screen of zeros with the cursor in the first cell. -/
def zeroScreen : Screen := ⟨fun _ => 0, 0, fun _ => 0, []⟩

/-- A letter, and a backspace that takes it back. -/
theorem screen_terminal_iff_zero :
    RunAlways screenStep (fun x => Displays x.1 x.2) (zeroScreen, zeroScreen.terminal)
      [0x41, 0x08, 0x0a] ∧
    RunAllowed screenStep PutAllowed (zeroScreen, zeroScreen.terminal) [0x41, 0x08, 0x0a] := by
  have hallowed : RunAllowed screenStep PutAllowed (zeroScreen, zeroScreen.terminal)
      [0x41, 0x08, 0x0a] := by
    refine ⟨?_, _, rfl, ?_, _, rfl, ?_, _, rfl, trivial⟩ <;> unfold PutAllowed <;> decide
  exact ⟨(screen_terminal_iff zeroScreen (by decide) rfl _).mpr hallowed, hallowed⟩

theorem screen_terminal_first_cell : ¬ ∀ s : Screen, s.cursor.toNat < 2000 → s.written = [] →
    ∀ bytes, RunAlways screenStep (fun x => Displays x.1 x.2) (s, s.terminal) bytes := by
  intro h
  have hback := (h zeroScreen (by decide) rfl [0x08]).2 _ rfl
  have hcur := hback.cursor
  have hon := hback.onScreen
  rw [cursor_back zeroScreen (by decide)] at hcur
  change 0xffff = _ at hcur
  omega

end Runs

end OsI386
