import OsI386.KeyboardModifiers

/-!
# What the keyboard driver makes of keys

The driver as a machine over keys, without scan codes. A key with a prefix stands for the one
without, and one flag stands for both keys of a modifier.
-/
namespace OsI386

/-- The state between two keys. -/
structure Typist where
  down : Modifier → Bool
  caps : Bool

def typistInit : Typist := ⟨fun _ => false, false⟩

def capsLockKey : Key := ⟨false, 0x3a, by decide⟩

def Key.modifier (key : Key) : Option Modifier :=
  if key = Modifier.ctrl.left ∨ key = Modifier.ctrl.right then some .ctrl
  else if key = Modifier.alt.left ∨ key = Modifier.alt.right then some .alt
  else if key = Modifier.shift.left ∨ key = Modifier.shift.right then some .shift
  else none

/-- The character of a key, if it is in `keymap`. -/
def Key.symbol (key : Key) (upper : Bool) : Option Byte :=
  if key.code.toNat < 59 then
    let chars := keymap.getD key.code.toNat (0, 0)
    some (if upper then chars.2 else chars.1)
  else none

def KbdCall.ofSymbol : Option Byte → KbdCall
  | some c => .ioqPutchar c
  | none => .putStr "unknown key\n"

/-- Caps lock counts when it is released; pause is left ctrl with a key that is not known. -/
def KeyEvent.typed (s : Typist) : KeyEvent → Typist × List KbdCall
  | .press key =>
    match key.modifier with
    | some m => ({ s with down := Function.update s.down m true }, [])
    | none =>
      if key = capsLockKey then (s, [])
      else (s, [.ofSymbol (key.symbol (s.down .shift || s.caps))])
  | .release key =>
    match key.modifier with
    | some m => ({ s with down := Function.update s.down m false }, [])
    | none => (if key = capsLockKey then { s with caps := !s.caps } else s, [])
  | .pause => ({ s with down := Function.update s.down .ctrl false }, [.ofSymbol none])

def typedRun (s : Typist) (events : List KeyEvent) : Typist :=
  events.foldl (fun s e => (e.typed s).1) s

def typedCalls (s : Typist) : List KeyEvent → List KbdCall
  | [] => []
  | e :: es => (e.typed s).2 ++ typedCalls (e.typed s).1 es

/-- The driver between two keys. -/
structure KbdShows (k : Keyboard) (s : Typist) : Prop where
  ext : k.extScanCode = false
  down : ∀ m, k.status m = s.down m
  caps : k.capsLockStatus = s.caps

section Decoding

variable {k : Keyboard} {s : Typist} {key : Key} {c : ScanCode} {b : Byte} {m : Modifier}
  {e : KeyEvent} {bs bs' : List Byte}

lemma kbdCalls_append : kbdCalls k (bs ++ bs') = kbdCalls k bs ++ kbdCalls (kbdRun k bs) bs' := by
  induction bs generalizing k with
  | nil => rfl
  | cons b bs ih =>
    rw [List.cons_append, kbdCalls, kbdCalls, ih, List.append_assoc]
    rfl

/-- The prefix byte calls nothing. -/
lemma kbdCalls_key (hk : k.extScanCode = false) :
    kbdCalls k (key.lead ++ [b]) =
      (intrKeyboardHandler { k with extScanCode := key.ext } b).2.toList := by
  cases hext : key.ext with
  | false =>
    have hlead : key.lead = [] := by simp [Key.lead, hext]
    rw [hlead, Keyboard.setExt hk]
    exact List.append_nil _
  | true =>
    have hlead : key.lead = [0xe0] := by simp [Key.lead, hext]
    rw [hlead]
    change (intrKeyboardHandler k 0xe0).2.toList ++
      ((intrKeyboardHandler (intrKeyboardHandler k 0xe0).1 b).2.toList ++ []) = _
    rw [intrKeyboardHandler_lead hk, List.append_nil]
    rfl

lemma caps_ctrlKeyProc : (ctrlKeyProc k c).2.capsLockStatus =
    if makeOf c = capsLockMake ∧ breakCode c = true then !k.capsLockStatus
    else k.capsLockStatus := by
  unfold ctrlKeyProc makeOf
  dsimp only
  generalize (if breakCode c = true then breakCode2makeCode c else c) = code
  by_cases hcaps : code = capsLockMake
  · subst hcaps
    cases breakCode c <;> rfl
  · have hnot : ¬ (code = capsLockMake ∧ breakCode c = true) := fun h => hcaps h.1
    rw [if_neg hnot, if_neg hcaps]
    split_ifs <;> rfl

lemma modifier_eq_some : key.modifier = some m ↔ key = m.left ∨ key = m.right := by
  unfold Key.modifier
  split_ifs with hctrl halt hshift
  · rcases hctrl with rfl | rfl <;> cases m <;> decide
  · rcases halt with rfl | rfl <;> cases m <;> decide
  · rcases hshift with rfl | rfl <;> cases m <;> decide
  · refine iff_of_false (by simp) ?_
    cases m
    · exact hshift
    · exact hctrl
    · exact halt

/-- The keys of `ctrl_key_proc`, in the order of its `switch`. -/
def ctrlKeys : List Key :=
  [Modifier.ctrl.left, Modifier.ctrl.right, Modifier.alt.left, Modifier.alt.right,
    Modifier.shift.left, Modifier.shift.right, capsLockKey]

lemma mem_ctrlKeys : key ∈ ctrlKeys ↔ key.modifier.isSome = true ∨ key = capsLockKey := by
  have hsome : key.modifier.isSome = true ↔ ∃ m : Modifier, key = m.left ∨ key = m.right := by
    simp only [Option.isSome_iff_exists, modifier_eq_some]
  rw [hsome, ctrlKeys]
  constructor
  · intro h
    simp only [List.mem_cons, List.not_mem_nil, or_false] at h
    rcases h with h | h | h | h | h | h | h
    · exact .inl ⟨.ctrl, .inl h⟩
    · exact .inl ⟨.ctrl, .inr h⟩
    · exact .inl ⟨.alt, .inl h⟩
    · exact .inl ⟨.alt, .inr h⟩
    · exact .inl ⟨.shift, .inl h⟩
    · exact .inl ⟨.shift, .inr h⟩
    · exact .inr h
  · rintro (⟨m, h | h⟩ | h)
    · cases m <;> simp [h]
    · cases m <;> simp [h]
    · simp [h]

lemma ctrlKeyProc_key (hc : makeOf c = key.makeCode) :
    (ctrlKeyProc k c).1 = true ↔ key ∈ ctrlKeys := by
  have hcodes : [ctrlLeftMake, ctrlRightMake, altLeftMake, altRightMake, shiftLeftMake,
      shiftRightMake, capsLockMake] = ctrlKeys.map Key.makeCode := rfl
  rw [ctrlKeyProc_fst, decide_eq_true_eq, hc, hcodes]
  exact List.mem_map_of_injective fun _ _ h => Key.makeCode_inj.mp h

lemma index_makeByte : ∀ (ext : Bool) (code : BitVec 7),
    (codeOf ext (code.setWidth 8) &&& 0xff).toNat = code.toNat := by decide

lemma normalKeyProc_make (hbreak : breakCode c = false)
    (hindex : (c &&& 0xff).toNat = key.code.toNat) :
    (if (normalKeyProc k c).1 then (normalKeyProc k c).2 else some (.putStr "unknown key\n")) =
      some (.ofSymbol (key.symbol (k.shiftStatus || k.capsLockStatus))) := by
  unfold normalKeyProc Key.symbol
  simp only [hbreak, hindex]
  have hmax : keymapMaxIndex = 58 := rfl
  by_cases h : key.code.toNat < 59
  · have hle : ¬ keymapMaxIndex < key.code.toNat := by omega
    simp [h, hle, KbdCall.ofSymbol]
  · have hgt : keymapMaxIndex < key.code.toNat := by omega
    simp [h, hgt, KbdCall.ofSymbol]

lemma handler_key (hk : k.extScanCode = key.ext) (hb : key.ext = true ∨ b ≠ 0xe0) :
    (intrKeyboardHandler k b).2 =
      if (ctrlKeyProc { k with extScanCode := false } (codeOf key.ext b)).1 then none
      else
        let k' := (ctrlKeyProc { k with extScanCode := false } (codeOf key.ext b)).2
        if (normalKeyProc k' (codeOf key.ext b)).1 then (normalKeyProc k' (codeOf key.ext b)).2
        else some (.putStr "unknown key\n") := by
  have hb' : k.extScanCode = true ∨ b ≠ 0xe0 := hk ▸ hb
  have hne := codeOf_ne key.ext b hb
  simp only [intrKeyboardHandler, scanCodeGet_code hb', hk, if_neg hne]
  split_ifs <;> rfl

lemma caps_of_code (hc : makeOf c = key.makeCode) : (ctrlKeyProc k c).2.capsLockStatus =
    if key = capsLockKey ∧ breakCode c = true then !k.capsLockStatus else k.capsLockStatus := by
  have hcaps : capsLockMake = capsLockKey.makeCode := rfl
  simp only [caps_ctrlKeyProc, hc, hcaps, Key.makeCode_inj]

lemma makeOf_make (key : Key) : makeOf (codeOf key.ext key.makeByte) = key.makeCode :=
  if_neg (by simp [Key.makeByte, (makeOf_makeByte key.ext key.code).1])

lemma makeOf_break (key : Key) : makeOf (codeOf key.ext key.breakByte) = key.makeCode := by
  obtain ⟨-, hbreak, hmake⟩ := makeOf_makeByte key.ext key.code
  exact (if_pos hbreak).trans hmake

/-- The statuses between two keys. -/
lemma KbdShows.run_key (h : KbdShows k s) (hb : key.ext = true ∨ b ≠ 0xe0)
    (hc : makeOf (codeOf key.ext b) = key.makeCode) :
    KbdShows (kbdRun k (key.lead ++ [b]))
      { down := fun m => if key.modifier = some m then !breakCode (codeOf key.ext b) else s.down m
        caps := if key = capsLockKey ∧ breakCode (codeOf key.ext b) = true then !s.caps
          else s.caps } := by
  rw [(kbdRun_key h.ext hb).1]
  refine ⟨by rw [ctrlKeyProc_ext, h.ext], fun m => ?_, ?_⟩
  · rw [status_of_code hc, h.down m]
    simp only [modifier_eq_some]
  · rw [caps_of_code hc, h.caps]

/-- A key of no modifier leaves the shift status and caps lock as they are. -/
lemma KbdShows.symbol_key (h : KbdShows k s) (hc : makeOf c = key.makeCode)
    (hctrl : key ∉ ctrlKeys) :
    ((ctrlKeyProc k c).2.shiftStatus || (ctrlKeyProc k c).2.capsLockStatus) =
      (s.down .shift || s.caps) := by
  rw [mem_ctrlKeys, not_or] at hctrl
  obtain ⟨hmod, hcaps⟩ := hctrl
  have hshift : ¬ (key = Modifier.shift.left ∨ key = Modifier.shift.right) :=
    fun hm => hmod (by rw [modifier_eq_some.mpr hm]; rfl)
  have hstatus : (ctrlKeyProc k c).2.status .shift = s.down .shift := by
    rw [status_of_code hc, if_neg hshift, h.down]
  have hlock : (ctrlKeyProc k c).2.capsLockStatus = s.caps := by
    rw [caps_of_code hc, if_neg fun hk => hcaps hk.1, h.caps]
  exact congrArg₂ or hstatus hlock

/-- The calls for the last byte of a key. -/
lemma KbdShows.calls_key (h : KbdShows k s) (hb : key.ext = true ∨ b ≠ 0xe0)
    (hc : makeOf (codeOf key.ext b) = key.makeCode)
    (hindex : breakCode (codeOf key.ext b) = false →
      (codeOf key.ext b &&& 0xff).toNat = key.code.toNat) :
    kbdCalls k (key.lead ++ [b]) =
      if key ∈ ctrlKeys then []
      else if breakCode (codeOf key.ext b) = true then []
      else [.ofSymbol (key.symbol (s.down .shift || s.caps))] := by
  have hsame : { { k with extScanCode := key.ext } with extScanCode := false } = k :=
    Keyboard.setExt h.ext
  rw [kbdCalls_key h.ext, handler_key rfl hb, hsame]
  by_cases hctrl : key ∈ ctrlKeys
  · rw [if_pos hctrl, if_pos ((ctrlKeyProc_key hc).mpr hctrl)]
    rfl
  rw [if_neg hctrl, if_neg fun hp => hctrl ((ctrlKeyProc_key hc).mp hp)]
  dsimp only
  cases hbreak : breakCode (codeOf key.ext b) with
  | true => simp [normalKeyProc, hbreak]
  | false =>
    rw [if_neg Bool.false_ne_true, normalKeyProc_make hbreak (hindex hbreak),
      h.symbol_key hc hctrl]
    rfl

lemma typed_press : (KeyEvent.press key).typed s =
    ({ s with down := fun m => if key.modifier = some m then true else s.down m },
      if key ∈ ctrlKeys then [] else [.ofSymbol (key.symbol (s.down .shift || s.caps))]) := by
  rw [KeyEvent.typed]
  cases hmod : key.modifier with
  | some m =>
    have hctrl : key ∈ ctrlKeys := mem_ctrlKeys.mpr (.inl (by simp [hmod]))
    rw [if_pos hctrl]
    have hdown : Function.update s.down m true =
        fun m' => if some m = some m' then true else s.down m' := by
      funext m'
      simp only [Function.update_apply, Option.some.injEq, eq_comm]
    simp only [hdown]
  | none =>
    have hctrl : key ∈ ctrlKeys ↔ key = capsLockKey := by simp [mem_ctrlKeys, hmod]
    by_cases hcaps : key = capsLockKey
    · simp [hctrl.mpr hcaps, if_pos hcaps]
    · simp [mt hctrl.mp hcaps, if_neg hcaps]

lemma typed_release : (KeyEvent.release key).typed s =
    ({ down := fun m => if key.modifier = some m then false else s.down m
       caps := if key = capsLockKey then !s.caps else s.caps }, []) := by
  have hlock : capsLockKey.modifier = none := rfl
  rw [KeyEvent.typed]
  cases hmod : key.modifier with
  | some m =>
    have hcaps : key ≠ capsLockKey := by
      rintro rfl
      rw [hlock] at hmod
      cases hmod
    have hdown : Function.update s.down m false =
        fun m' => if some m = some m' then false else s.down m' := by
      funext m'
      simp only [Function.update_apply, Option.some.injEq, eq_comm]
    simp only [hdown, if_neg hcaps]
  | none =>
    by_cases hcaps : key = capsLockKey
    · simp [hcaps]
    · simp [hcaps]

lemma KbdShows.press (h : KbdShows k s) : kbdCalls k (KeyEvent.press key).bytes =
      ((KeyEvent.press key).typed s).2 ∧
    KbdShows (kbdRun k (KeyEvent.press key).bytes) ((KeyEvent.press key).typed s).1 := by
  have hmake : breakCode (codeOf key.ext key.makeByte) = false :=
    (makeOf_makeByte key.ext key.code).1
  have hcalls := h.calls_key key.makeByte_valid (makeOf_make key)
    fun _ => index_makeByte key.ext key.code
  have hrun := h.run_key key.makeByte_valid (makeOf_make key)
  simp only [hmake, Bool.not_false, Bool.false_eq_true, and_false, if_false] at hcalls hrun
  rw [typed_press]
  exact ⟨hcalls, hrun⟩

lemma KbdShows.release (h : KbdShows k s) : kbdCalls k (KeyEvent.release key).bytes =
      ((KeyEvent.release key).typed s).2 ∧
    KbdShows (kbdRun k (KeyEvent.release key).bytes) ((KeyEvent.release key).typed s).1 := by
  have hbreak : breakCode (codeOf key.ext key.breakByte) = true :=
    (makeOf_makeByte key.ext key.code).2.1
  have hcalls := h.calls_key key.breakByte_valid (makeOf_break key) fun hmake => by
    rw [hbreak] at hmake
    cases hmake
  have hrun := h.run_key key.breakByte_valid (makeOf_break key)
  simp only [hbreak, Bool.not_true, and_true, if_true, ite_self] at hcalls hrun
  rw [typed_release]
  exact ⟨hcalls, hrun⟩

/-- The six bytes are two codes of keys that are not known and the code of left ctrl between. -/
lemma KbdShows.pause (h : KbdShows k s) :
    kbdCalls k KeyEvent.pause.bytes = (KeyEvent.pause.typed s).2 ∧
      KbdShows (kbdRun k KeyEvent.pause.bytes) (KeyEvent.pause.typed s).1 := by
  obtain ⟨ext, ctrl, shift, alt, caps⟩ := k
  obtain rfl : ext = false := h.ext
  refine ⟨rfl, rfl, fun m => ?_, h.caps⟩
  cases m with
  | shift => exact h.down .shift
  | ctrl => rfl
  | alt => exact h.down .alt

lemma KbdShows.event (h : KbdShows k s) : kbdCalls k e.bytes = (e.typed s).2 ∧
    KbdShows (kbdRun k e.bytes) (e.typed s).1 := by
  cases e with
  | press key => exact h.press
  | release key => exact h.release
  | pause => exact h.pause

lemma KbdShows.events (h : KbdShows k s) (events : List KeyEvent) :
    kbdCalls k (events.flatMap KeyEvent.bytes) = typedCalls s events ∧
      KbdShows (kbdRun k (events.flatMap KeyEvent.bytes)) (typedRun s events) := by
  induction events generalizing k s with
  | nil => exact ⟨rfl, h⟩
  | cons e es ih =>
    obtain ⟨hcalls, hshows⟩ := h.event (e := e)
    obtain ⟨hrest, hlast⟩ := ih hshows
    rw [List.flatMap_cons, kbdCalls_append, hcalls, hrest]
    refine ⟨rfl, ?_⟩
    rw [kbdRun, List.foldl_append]
    exact hlast

end Decoding

lemma kbdShows_init : KbdShows keyboardInit typistInit :=
  ⟨rfl, by rintro (_ | _ | _) <;> rfl, rfl⟩

/-- For keys pressed and released in any order the driver makes the calls that the keys stand for,
in their order, and between two keys its statuses are those of the modifiers. -/
theorem keys_typed (events : List KeyEvent) :
    kbdCalls keyboardInit (events.flatMap KeyEvent.bytes) = typedCalls typistInit events ∧
      KbdShows (kbdRun keyboardInit (events.flatMap KeyEvent.bytes))
        (typedRun typistInit events) :=
  kbdShows_init.events events

end OsI386
