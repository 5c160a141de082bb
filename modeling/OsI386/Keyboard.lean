import OsI386.IoQueue

/-!
# device/keyboard.c

Each interrupt reads one byte. What the handler does besides its own state is a call of
`ioq_putchar` or of `put_str`.
-/
namespace OsI386

abbrev ScanCode := BitVec 16

def charInvisible : Byte := 0

def shiftLeftMake : ScanCode := 0x002a
def shiftRightMake : ScanCode := 0x0036
def altLeftMake : ScanCode := 0x0038
def altRightMake : ScanCode := 0xe038
def ctrlLeftMake : ScanCode := 0x001d
def ctrlRightMake : ScanCode := 0xe01d
def capsLockMake : ScanCode := 0x003a

def breakCode (scanCode : ScanCode) : Bool := scanCode &&& 0x0080 != 0

def breakCode2makeCode (breakCode : ScanCode) : ScanCode := breakCode &&& 0xff7f

/-- The characters without and with shift, by make code. -/
def keymap : List (Byte × Byte) :=
  [(0, 0), (0x1b, 0x1b),
    (0x31, 0x21), (0x32, 0x40), (0x33, 0x23), (0x34, 0x24), (0x35, 0x25), (0x36, 0x5e),
    (0x37, 0x26), (0x38, 0x2a), (0x39, 0x28), (0x30, 0x29), (0x2d, 0x5f), (0x3d, 0x2b),
    (0x08, 0x08), (0x09, 0x09),
    -- q w e r t y u i o p [ ]
    (0x71, 0x51), (0x77, 0x57), (0x65, 0x45), (0x72, 0x52), (0x74, 0x54), (0x79, 0x59),
    (0x75, 0x55), (0x69, 0x49), (0x6f, 0x4f), (0x70, 0x50), (0x5b, 0x7b), (0x5d, 0x7d),
    (0x0d, 0x0d), (charInvisible, charInvisible),
    -- a s d f g h j k l ; ' `
    (0x61, 0x41), (0x73, 0x53), (0x64, 0x44), (0x66, 0x46), (0x67, 0x47), (0x68, 0x48),
    (0x6a, 0x4a), (0x6b, 0x4b), (0x6c, 0x4c), (0x3b, 0x3a), (0x27, 0x22), (0x60, 0x7e),
    (charInvisible, charInvisible),
    -- \ z x c v b n m , . /
    (0x5c, 0x7c), (0x7a, 0x5a), (0x78, 0x58), (0x63, 0x43), (0x76, 0x56), (0x62, 0x42),
    (0x6e, 0x4e), (0x6d, 0x4d), (0x2c, 0x3c), (0x2e, 0x3e), (0x2f, 0x3f),
    (charInvisible, charInvisible), (0x2a, 0x2a), (charInvisible, charInvisible), (0x20, 0x20),
    (charInvisible, charInvisible)]

def keymapMaxIndex : ℕ := keymap.length - 1

/-- `extScanCode` is static in `scan_code_get`. -/
structure Keyboard where
  extScanCode : Bool
  ctrlStatus : Bool
  shiftStatus : Bool
  altStatus : Bool
  capsLockStatus : Bool

def keyboardInit : Keyboard := ⟨false, false, false, false, false⟩

inductive KbdCall
  | ioqPutchar (c : Byte)
  | putStr (message : String)
  deriving DecidableEq

def scanCodeGet (k : Keyboard) (byte : Byte) : ScanCode × Keyboard :=
  if k.extScanCode then (0xe000 ||| byte.setWidth 16, { k with extScanCode := false })
  else if byte = 0xe0 then (byte.setWidth 16, { k with extScanCode := true })
  else (byte.setWidth 16, k)

def ctrlKeyProc (k : Keyboard) (scanCode : ScanCode) : Bool × Keyboard :=
  let statusToSet := !breakCode scanCode
  let scanCode := if breakCode scanCode then breakCode2makeCode scanCode else scanCode
  if scanCode = ctrlLeftMake then (true, { k with ctrlStatus := statusToSet })
  else if scanCode = ctrlRightMake then (true, { k with ctrlStatus := statusToSet })
  else if scanCode = altLeftMake then (true, { k with altStatus := statusToSet })
  else if scanCode = altRightMake then (true, { k with altStatus := statusToSet })
  else if scanCode = shiftLeftMake then (true, { k with shiftStatus := statusToSet })
  else if scanCode = shiftRightMake then (true, { k with shiftStatus := statusToSet })
  else if scanCode = capsLockMake then
    (true, if statusToSet = false then { k with capsLockStatus := !k.capsLockStatus } else k)
  else (false, k)

def normalKeyProc (k : Keyboard) (scanCode : ScanCode) : Bool × Option KbdCall :=
  if breakCode scanCode then (true, none)
  else
    let shift := k.shiftStatus || k.capsLockStatus
    let index := (scanCode &&& 0xff).toNat
    if keymapMaxIndex < index then (false, none)
    else
      let chars := keymap.getD index (0, 0)
      (true, some (.ioqPutchar (if shift then chars.2 else chars.1)))

def intrKeyboardHandler (k : Keyboard) (byte : Byte) : Keyboard × Option KbdCall :=
  let (scanCode, k) := scanCodeGet k byte
  if scanCode = 0x00e0 then (k, none)
  else
    let (ret, k) := ctrlKeyProc k scanCode
    if ret then (k, none)
    else
      let (ret, call) := normalKeyProc k scanCode
      (k, if ret then call else some (.putStr "unknown key\n"))

/-- The state after a sequence of bytes, one interrupt each. -/
def kbdRun (k : Keyboard) (bytes : List Byte) : Keyboard :=
  bytes.foldl (fun k b => (intrKeyboardHandler k b).1) k

/-- The states after each interrupt. -/
def kbdStates (k : Keyboard) : List Byte → List Keyboard
  | [] => []
  | b :: bs => (intrKeyboardHandler k b).1 :: kbdStates (intrKeyboardHandler k b).1 bs

/-- The calls of all interrupts, in order. -/
def kbdCalls (k : Keyboard) : List Byte → List KbdCall
  | [] => []
  | b :: bs => (intrKeyboardHandler k b).2.toList ++ kbdCalls (intrKeyboardHandler k b).1 bs

section Codes

variable {k : Keyboard} {c : ScanCode} {b : Byte}

/-- The make code `ctrl_key_proc` compares. -/
def makeOf (c : ScanCode) : ScanCode := if breakCode c then breakCode2makeCode c else c

lemma keymap_invisible : ∀ i < 59, ∀ shift : Bool,
    (if shift then (keymap.getD i (0, 0)).2 else (keymap.getD i (0, 0)).1) = charInvisible →
      i ∈ [0, 0x1d, 0x2a, 0x36, 0x38, 0x3a] := by
  decide

lemma normalKeyProc_invisible (hc : (normalKeyProc k c).2 = some (.ioqPutchar charInvisible)) :
    breakCode c = false ∧ (c &&& 0xff).toNat ∈ [0, 0x1d, 0x2a, 0x36, 0x38, 0x3a] := by
  unfold normalKeyProc at hc
  cases hb : breakCode c with
  | true => simp [hb] at hc
  | false =>
    by_cases hi : keymapMaxIndex < (c &&& 0xff).toNat
    · simp only [hb, if_pos hi] at hc
      cases hc
    · simp only [hb, if_neg hi] at hc
      have hlt : (c &&& 0xff).toNat < 59 := Nat.lt_succ_of_le (not_lt.mp hi)
      exact ⟨rfl, keymap_invisible _ hlt (k.shiftStatus || k.capsLockStatus) (by simpa using hc)⟩

/-- `ctrl_key_proc` takes exactly the seven codes of its `switch`. -/
lemma ctrlKeyProc_fst : (ctrlKeyProc k c).1 = decide (makeOf c ∈ [ctrlLeftMake, ctrlRightMake,
    altLeftMake, altRightMake, shiftLeftMake, shiftRightMake, capsLockMake]) := by
  unfold ctrlKeyProc makeOf
  dsimp only
  generalize (if breakCode c = true then breakCode2makeCode c else c) = code
  split_ifs with h1 h2 h3 h4 h5 h6 h7 <;> simp_all

lemma ctrlKeyProc_ext : (ctrlKeyProc k c).2.extScanCode = k.extScanCode := by
  unfold ctrlKeyProc
  dsimp only
  split_ifs <;> rfl

/-- The code of a byte that is not a prefix. -/
def codeOf (ext : Bool) (b : Byte) : ScanCode :=
  if ext then 0xe000 ||| b.setWidth 16 else b.setWidth 16

lemma codeOf_ne : ∀ (ext : Bool) (b : Byte), ext = true ∨ b ≠ 0xe0 → codeOf ext b ≠ 0x00e0 := by
  decide

lemma intrKeyboardHandler_lead (hk : k.extScanCode = false) :
    intrKeyboardHandler k 0xe0 = ({ k with extScanCode := true }, none) := by
  simp [intrKeyboardHandler, scanCodeGet, hk]

lemma scanCodeGet_code (hb : k.extScanCode = true ∨ b ≠ 0xe0) :
    scanCodeGet k b = (codeOf k.extScanCode b, { k with extScanCode := false }) := by
  unfold scanCodeGet codeOf
  cases hk : k.extScanCode with
  | true => rfl
  | false =>
    have hne : b ≠ 0xe0 := hb.resolve_left (by simp [hk])
    cases k
    cases hk
    exact if_neg hne

lemma intrKeyboardHandler_code (hb : k.extScanCode = true ∨ b ≠ 0xe0) :
    (intrKeyboardHandler k b).1 =
      (ctrlKeyProc { k with extScanCode := false } (codeOf k.extScanCode b)).2 := by
  have hne := codeOf_ne _ b hb
  simp only [intrKeyboardHandler, scanCodeGet_code hb, if_neg hne]
  split_ifs <;> rfl

end Codes

section Invisible

variable {k : Keyboard} {b : Byte}

/-- The bytes that are read right after a prefix byte. -/
def extCodes : Bool → List Byte → List Byte
  | _, [] => []
  | true, b :: bs => b :: extCodes false bs
  | false, b :: bs => extCodes (b == 0xe0) bs

/-- The codes of `keymap` that are modifiers only without a prefix byte. -/
def hiddenCodes : List Byte := [0x2a, 0x36, 0x3a]

lemma intrKeyboardHandler_ext : (intrKeyboardHandler k b).1.extScanCode =
    (!k.extScanCode && b == 0xe0) := by
  by_cases hb : k.extScanCode = true ∨ b ≠ 0xe0
  · rw [intrKeyboardHandler_code hb, ctrlKeyProc_ext]
    rcases hb with hk | hne
    · rw [hk]
      rfl
    · rw [beq_false_of_ne hne, Bool.and_false]
  · push Not at hb
    obtain ⟨hk, rfl⟩ := hb
    have hfalse : k.extScanCode = false := Bool.eq_false_of_not_eq_true hk
    rw [intrKeyboardHandler_lead hfalse, hfalse]
    rfl

/-- Of the codes that are indices of modifiers `ctrl_key_proc` leaves three. -/
lemma hidden_of_index : ∀ (ext : Bool) (b : Byte), b ≠ 0 → breakCode (codeOf ext b) = false →
    (codeOf ext b &&& 0xff).toNat ∈ [0, 0x1d, 0x2a, 0x36, 0x38, 0x3a] →
    codeOf ext b ∉ [ctrlLeftMake, ctrlRightMake, altLeftMake, altRightMake, shiftLeftMake,
      shiftRightMake, capsLockMake] → ext = true ∧ b ∈ hiddenCodes := by
  decide

/-- One interrupt hands over `CHAR_INVISIBLE` only for a modifier's code after a prefix. -/
lemma intrKeyboardHandler_invisible (hb : b ≠ 0) :
    (intrKeyboardHandler k b).2 = some (.ioqPutchar charInvisible) ↔
      k.extScanCode = true ∧ b ∈ hiddenCodes := by
  constructor
  · intro hcall
    by_cases hcode : k.extScanCode = true ∨ b ≠ 0xe0
    · simp only [intrKeyboardHandler, scanCodeGet_code hcode, if_neg (codeOf_ne _ b hcode)] at hcall
      split_ifs at hcall with hctrl hnormal
      · obtain ⟨hbreak, hindex⟩ := normalKeyProc_invisible hcall
        rw [ctrlKeyProc_fst, decide_eq_true_eq, makeOf, if_neg (by simp [hbreak])] at hctrl
        exact hidden_of_index _ b hb hbreak hindex hctrl
      · simp at hcall
    · push Not at hcode
      obtain ⟨hk, rfl⟩ := hcode
      rw [intrKeyboardHandler_lead (Bool.eq_false_of_not_eq_true hk)] at hcall
      cases hcall
  · rintro ⟨hk, hmem⟩
    obtain ⟨ext, ctrl, shift, alt, caps⟩ := k
    obtain rfl : ext = true := hk
    simp only [hiddenCodes, List.mem_cons, List.not_mem_nil, or_false] at hmem
    rcases hmem with rfl | rfl | rfl <;> cases shift <;> cases caps <;> rfl

lemma kbdCalls_invisible {bytes : List Byte} (hb : ∀ b ∈ bytes, b ≠ 0) :
    KbdCall.ioqPutchar charInvisible ∈ kbdCalls k bytes ↔
      ∃ b ∈ extCodes k.extScanCode bytes, b ∈ hiddenCodes := by
  induction bytes generalizing k with
  | nil => simp [kbdCalls, extCodes]
  | cons b bs ih =>
    obtain ⟨hb0, hbs⟩ := List.forall_mem_cons.mp hb
    have hstep := intrKeyboardHandler_invisible (k := k) hb0
    have hrest := ih (k := (intrKeyboardHandler k b).1) hbs
    rw [intrKeyboardHandler_ext] at hrest
    rw [kbdCalls, List.mem_append, Option.mem_toList, hstep, hrest]
    cases hk : k.extScanCode <;> simp [extCodes]

/-- `CHAR_INVISIBLE` is emitted exactly for a prefix byte followed by the code of a left shift,
a right shift or caps lock. -/
theorem char_invisible_emitted_iff (k : Keyboard) (bytes : List Byte) (hb : ∀ b ∈ bytes, b ≠ 0) :
    KbdCall.ioqPutchar charInvisible ∉ kbdCalls k bytes ↔
      ∀ b ∈ extCodes k.extScanCode bytes, b ∉ hiddenCodes := by
  rw [kbdCalls_invisible hb]
  simp only [not_exists, not_and]

theorem char_invisible_emitted_iff_right_ctrl :
    KbdCall.ioqPutchar charInvisible ∉ kbdCalls keyboardInit [0xe0, 0x1d, 0x2a, 0x1e] ↔
      ∀ b ∈ extCodes false [0xe0, 0x1d, 0x2a, 0x1e], b ∉ hiddenCodes :=
  char_invisible_emitted_iff keyboardInit _ (by decide)

/-- The first two bytes of the print screen key. -/
theorem char_invisible_print_screen :
    ¬ ∀ bytes : List Byte, (∀ b ∈ bytes, b ≠ 0) →
      KbdCall.ioqPutchar charInvisible ∉ kbdCalls keyboardInit bytes :=
  fun h => h [0xe0, 0x2a] (by decide) (by decide)

end Invisible

end OsI386
