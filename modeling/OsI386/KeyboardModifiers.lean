import OsI386.Keyboard

/-!
# Modifier keys and their status

A key sends its make code when it is pressed, and again while it is held, and its break code when
it is released, after a prefix byte for some keys; the pause key sends six bytes at once. One
status stands for two keys, so it is wrong once one of them is released before the other.
-/
namespace OsI386

/-- A key with a make and a break code. Without a prefix byte no break code is the prefix itself. -/
structure Key where
  ext : Bool
  code : BitVec 7
  valid : ext = true ∨ code ≠ 0x60
  deriving DecidableEq

inductive KeyEvent
  | press (key : Key)
  | release (key : Key)
  | pause

def Key.lead (key : Key) : List Byte := if key.ext then [0xe0] else []

def Key.makeByte (key : Key) : Byte := key.code.setWidth 8

def Key.breakByte (key : Key) : Byte := key.makeByte ||| 0x80

def KeyEvent.bytes : KeyEvent → List Byte
  | .press key => key.lead ++ [key.makeByte]
  | .release key => key.lead ++ [key.breakByte]
  | .pause => [0xe1, 0x1d, 0x45, 0xe1, 0x9d, 0xc5]

/-- The keys held down after an event. -/
def KeyEvent.after (held : Key → Bool) : KeyEvent → Key → Bool
  | .press key => Function.update held key true
  | .release key => Function.update held key false
  | .pause => held

inductive Modifier
  | shift | ctrl | alt
  deriving DecidableEq

def Modifier.left : Modifier → Key
  | .shift => ⟨false, 0x2a, by decide⟩
  | .ctrl => ⟨false, 0x1d, by decide⟩
  | .alt => ⟨false, 0x38, by decide⟩

def Modifier.right : Modifier → Key
  | .shift => ⟨false, 0x36, by decide⟩
  | .ctrl => ⟨true, 0x1d, by decide⟩
  | .alt => ⟨true, 0x38, by decide⟩

def Keyboard.status (k : Keyboard) : Modifier → Bool
  | .shift => k.shiftStatus
  | .ctrl => k.ctrlStatus
  | .alt => k.altStatus

/-- Each status is true if and only if one of its two keys is held. -/
def Agrees (held : Key → Bool) (k : Keyboard) : Prop :=
  ∀ m : Modifier, k.status m = true ↔ held m.left = true ∨ held m.right = true

/-- After each interrupt the statuses agree with the keys held: after the last byte of an event
with those held after it. -/
def Follows (held : Key → Bool) (k : Keyboard) : List KeyEvent → Prop
  | [] => True
  | e :: es => (∀ j ∈ (kbdStates k e.bytes).dropLast, Agrees held j) ∧
      Agrees (e.after held) (kbdRun k e.bytes) ∧ Follows (e.after held) (kbdRun k e.bytes) es

/-- The other key of the same modifier is not held. -/
def Alone (held : Key → Bool) (key : Key) : Prop :=
  ∀ m : Modifier, (key = m.left → held m.right = false) ∧ (key = m.right → held m.left = false)

def KeyEvent.Clean (held : Key → Bool) : KeyEvent → Prop
  | .press _ => True
  | .release key => Alone held key
  | .pause => False

/-- No modifier is released before the other key for it, and pause is not pressed. -/
def Clean (held : Key → Bool) : List KeyEvent → Prop
  | [] => True
  | e :: es => e.Clean held ∧ Clean (e.after held) es

section Statuses

variable {k : Keyboard} {c : ScanCode} {held : Key → Bool} {key : Key} {m : Modifier} {e : KeyEvent}

def Key.makeCode (key : Key) : ScanCode := codeOf key.ext key.makeByte

lemma makeOf_makeByte : ∀ (ext : Bool) (code : BitVec 7),
    breakCode (codeOf ext (code.setWidth 8)) = false ∧
      breakCode (codeOf ext (code.setWidth 8 ||| 0x80)) = true ∧
      breakCode2makeCode (codeOf ext (code.setWidth 8 ||| 0x80)) = codeOf ext (code.setWidth 8) := by
  decide

lemma codeOf_msb : ∀ (ext : Bool) (b : Byte), (codeOf ext b).msb = ext := by decide

lemma codeOf_low : ∀ (ext : Bool) (b : Byte), (codeOf ext b).setWidth 8 = b := by decide

lemma status_ctrlKeyProc : (ctrlKeyProc k c).2.status m =
    if makeOf c = m.left.makeCode ∨ makeOf c = m.right.makeCode then !breakCode c
    else k.status m := by
  have hcodes : ∀ m : Modifier, (m.left.makeCode, m.right.makeCode) = match m with
      | .shift => (shiftLeftMake, shiftRightMake)
      | .ctrl => (ctrlLeftMake, ctrlRightMake)
      | .alt => (altLeftMake, altRightMake) := by
    rintro (_ | _ | _) <;> rfl
  obtain ⟨hl, hr⟩ := Prod.mk.inj (hcodes m)
  rw [hl, hr]
  unfold ctrlKeyProc makeOf
  dsimp only
  generalize (if breakCode c = true then breakCode2makeCode c else c) = code
  -- one case for each key that has a status, in the order of the source
  by_cases hcl : code = ctrlLeftMake
  · subst hcl
    cases m <;> rfl
  by_cases hcr : code = ctrlRightMake
  · subst hcr
    cases m <;> rfl
  by_cases hal : code = altLeftMake
  · subst hal
    cases m <;> rfl
  by_cases har : code = altRightMake
  · subst har
    cases m <;> rfl
  by_cases hsl : code = shiftLeftMake
  · subst hsl
    cases m <;> rfl
  by_cases hsr : code = shiftRightMake
  · subst hsr
    cases m <;> rfl
  rw [if_neg hcl, if_neg hcr, if_neg hal, if_neg har, if_neg hsl, if_neg hsr]
  have hother : ((if code = capsLockMake then
      (true, if (!breakCode c) = false then { k with capsLockStatus := !k.capsLockStatus } else k)
      else (false, k)).2).status m = k.status m := by
    split_ifs <;> cases m <;> rfl
  rw [hother]
  cases m with
  | shift => exact (if_neg (not_or.mpr ⟨hsl, hsr⟩)).symm
  | ctrl => exact (if_neg (not_or.mpr ⟨hcl, hcr⟩)).symm
  | alt => exact (if_neg (not_or.mpr ⟨hal, har⟩)).symm

lemma Key.makeCode_inj {other : Key} : key.makeCode = other.makeCode ↔ key = other := by
  refine ⟨fun he => ?_, fun he => he ▸ rfl⟩
  have hext : key.ext = other.ext := by
    rw [← codeOf_msb key.ext key.makeByte, ← codeOf_msb other.ext other.makeByte]
    exact congrArg BitVec.msb he
  have hbyte : key.makeByte = other.makeByte := by
    rw [← codeOf_low key.ext key.makeByte, ← codeOf_low other.ext other.makeByte]
    exact congrArg (BitVec.setWidth 8) he
  have hcode : key.code = other.code := by
    have h7 : ∀ code : BitVec 7, (code.setWidth 8).setWidth 7 = code := fun code => by simp
    rw [← h7 key.code, ← h7 other.code]
    exact congrArg (BitVec.setWidth 7) hbyte
  cases key
  cases other
  cases hext
  cases hcode
  rfl

lemma status_of_code (hc : makeOf c = key.makeCode) : (ctrlKeyProc k c).2.status m =
    if key = m.left ∨ key = m.right then !breakCode c else k.status m := by
  simp only [status_ctrlKeyProc, hc, Key.makeCode_inj]

end Statuses

section Events

variable {k : Keyboard} {held : Key → Bool} {key : Key} {m : Modifier} {e : KeyEvent} {b : Byte}

lemma Keyboard.setExt (hk : k.extScanCode = false) : { k with extScanCode := false } = k := by
  cases k
  cases hk
  rfl

lemma makeByte_ne : ∀ code : BitVec 7, (code.setWidth 8 : Byte) ≠ 0xe0 := by decide

lemma breakByte_ne : ∀ code : BitVec 7, code ≠ 0x60 → (code.setWidth 8 ||| 0x80 : Byte) ≠ 0xe0 := by
  decide

lemma Key.makeByte_valid (key : Key) : key.ext = true ∨ key.makeByte ≠ 0xe0 :=
  .inr (makeByte_ne key.code)

lemma Key.breakByte_valid (key : Key) : key.ext = true ∨ key.breakByte ≠ 0xe0 :=
  key.valid.imp_right (breakByte_ne key.code)

/-- The bytes of a key: its prefix byte changes no status. -/
lemma kbdRun_key (hk : k.extScanCode = false) (hb : key.ext = true ∨ b ≠ 0xe0) :
    kbdRun k (key.lead ++ [b]) = (ctrlKeyProc k (codeOf key.ext b)).2 ∧
      ∀ j ∈ (kbdStates k (key.lead ++ [b])).dropLast, ∀ m, j.status m = k.status m := by
  cases hext : key.ext with
  | false =>
    have hlead : key.lead = [] := by simp [Key.lead, hext]
    have hne : b ≠ 0xe0 := hb.resolve_left (by simp [hext])
    rw [hlead]
    refine ⟨?_, fun j hj => absurd hj List.not_mem_nil⟩
    change (intrKeyboardHandler k b).1 = _
    rw [intrKeyboardHandler_code (.inr hne), Keyboard.setExt hk, hk]
  | true =>
    have hlead : key.lead = [0xe0] := by simp [Key.lead, hext]
    have hfirst := intrKeyboardHandler_lead hk
    have hsecond := intrKeyboardHandler_code (k := { k with extScanCode := true }) (b := b) (.inl rfl)
    rw [hlead]
    constructor
    · change (intrKeyboardHandler (intrKeyboardHandler k 0xe0).1 b).1 = _
      rw [hfirst, hsecond]
      exact congrArg (fun k => (ctrlKeyProc k _).2) (Keyboard.setExt hk)
    · intro j hj m
      change j ∈ [(intrKeyboardHandler k 0xe0).1] at hj
      rw [List.mem_singleton.mp hj, hfirst]
      cases m <;> rfl

/-- What a make code and a break code do to the statuses. -/
lemma status_press (hk : k.extScanCode = false) (m : Modifier) :
    (kbdRun k (KeyEvent.press key).bytes).status m =
      if key = m.left ∨ key = m.right then true else k.status m := by
  obtain ⟨hbreak, -, -⟩ := makeOf_makeByte key.ext key.code
  have hrun := (kbdRun_key hk key.makeByte_valid).1
  have hc : makeOf (codeOf key.ext key.makeByte) = key.makeCode := if_neg (by simp [Key.makeByte, hbreak])
  rw [KeyEvent.bytes, hrun, status_of_code hc, Key.makeByte, hbreak, Bool.not_false]

lemma status_release (hk : k.extScanCode = false) (m : Modifier) :
    (kbdRun k (KeyEvent.release key).bytes).status m =
      if key = m.left ∨ key = m.right then false else k.status m := by
  obtain ⟨-, hbreak, hmake⟩ := makeOf_makeByte key.ext key.code
  have hrun := (kbdRun_key hk key.breakByte_valid).1
  have hc : makeOf (codeOf key.ext key.breakByte) = key.makeCode := (if_pos hbreak).trans hmake
  rw [KeyEvent.bytes, hrun, status_of_code hc, Key.breakByte, Key.makeByte, hbreak, Bool.not_true]

lemma agrees_between (h : Agrees held k) {j : Keyboard} (hj : ∀ m, j.status m = k.status m) :
    Agrees held j := by
  intro m
  rw [hj m]
  exact h m

lemma Modifier.left_ne_right (m : Modifier) : m.left ≠ m.right := by
  cases m <;> decide

lemma agrees_press (hk : k.extScanCode = false) (h : Agrees held k) :
    Agrees ((KeyEvent.press key).after held) (kbdRun k (KeyEvent.press key).bytes) := by
  intro m
  rw [status_press hk, KeyEvent.after]
  by_cases hl : key = m.left
  · simp [hl]
  by_cases hr : key = m.right
  · simp [hr]
  · rw [if_neg (by simp [hl, hr]), Function.update_of_ne (Ne.symm hl),
      Function.update_of_ne (Ne.symm hr)]
    exact h m

/-- A status is lost if the other key of the released modifier is still held. -/
lemma agrees_release (hk : k.extScanCode = false) (h : Agrees held k) :
    Agrees ((KeyEvent.release key).after held) (kbdRun k (KeyEvent.release key).bytes) ↔
      Alone held key := by
  refine forall_congr' fun m => ?_
  rw [status_release hk, KeyEvent.after]
  have hne := m.left_ne_right
  by_cases hl : key = m.left
  · subst hl
    simp [Function.update_of_ne hne.symm, hne]
  by_cases hr : key = m.right
  · subst hr
    simp [Function.update_of_ne hne, hne.symm]
  · rw [if_neg (by simp [hl, hr]), Function.update_of_ne (Ne.symm hl),
      Function.update_of_ne (Ne.symm hr)]
    simp [h m, hl, hr]

/-- The pause key sends the codes of left ctrl. -/
lemma not_agrees_pause (hk : k.extScanCode = false) :
    ¬ ∀ j ∈ (kbdStates k KeyEvent.pause.bytes).dropLast, Agrees held j := by
  intro h
  obtain ⟨ext, ctrl, shift, alt, caps⟩ := k
  obtain rfl : ext = false := hk
  have hpress := h ⟨false, true, shift, alt, caps⟩ (.tail _ (.head _)) .ctrl
  have hrelease := h ⟨false, false, shift, alt, caps⟩ (.tail _ (.tail _ (.tail _ (.tail _ (.head _)))))
    .ctrl
  have hheld := hpress.mp rfl
  exact Bool.false_ne_true (hrelease.mpr hheld)

lemma ext_kbdRun (hk : k.extScanCode = false) : (kbdRun k e.bytes).extScanCode = false := by
  cases e with
  | press key =>
    rw [KeyEvent.bytes, (kbdRun_key hk key.makeByte_valid).1, ctrlKeyProc_ext, hk]
  | release key =>
    rw [KeyEvent.bytes, (kbdRun_key hk key.breakByte_valid).1, ctrlKeyProc_ext, hk]
  | pause =>
    cases k
    cases hk
    rfl

lemma follows_event (hk : k.extScanCode = false) (h : Agrees held k) :
    ((∀ j ∈ (kbdStates k e.bytes).dropLast, Agrees held j) ∧
      Agrees (e.after held) (kbdRun k e.bytes)) ↔ e.Clean held := by
  cases e with
  | press key =>
    have hbetween := (kbdRun_key hk key.makeByte_valid).2
    exact iff_of_true ⟨fun j hj => agrees_between h (hbetween j hj), agrees_press hk h⟩ trivial
  | release key =>
    have hbetween := (kbdRun_key hk key.breakByte_valid).2
    rw [agrees_release hk h]
    exact and_iff_right fun j hj => agrees_between h (hbetween j hj)
  | pause => exact iff_of_false (fun hp => not_agrees_pause hk hp.1) id

lemma follows_iff_clean {events : List KeyEvent} (hk : k.extScanCode = false) (h : Agrees held k) :
    Follows held k events ↔ Clean held events := by
  induction events generalizing held k with
  | nil => rfl
  | cons e es ih =>
    rw [Follows, Clean, ← and_assoc, follows_event hk h]
    refine and_congr_right fun hclean => ih (ext_kbdRun hk) ?_
    exact ((follows_event hk h).mpr hclean).2

end Events

section Results

/-- In every sequence of key events the statuses follow the keys if and only if no modifier is
released while the other key for it is held, and pause is not pressed. -/
theorem modifiers_follow_iff (events : List KeyEvent) :
    Follows (fun _ => false) keyboardInit events ↔ Clean (fun _ => false) events :=
  follows_iff_clean rfl fun m => by cases m <;> decide

/-- Both shift keys are pressed, and the right one is released. -/
theorem modifiers_two_shifts : ¬ ∀ events, Follows (fun _ => false) keyboardInit events := by
  intro h
  have hclean := (follows_iff_clean rfl (fun m => by cases m <;> decide)).mp
    (h [.press Modifier.shift.left, .press Modifier.shift.right, .release Modifier.shift.right])
  have hheld := (hclean.2.2.1 .shift).2 rfl
  exact absurd hheld (by decide)

end Results

end OsI386
