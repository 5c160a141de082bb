import OsI386.CStrings
import OsI386.Itoa
import OsI386.PrintNumbers

/-!
# The buffer of put_int

`put_int` of lib/kernel/print.c with its buffer in memory, so that the trace tells which bytes of
it are written; what `put_char` does to the screen is left to the model of the screen. The digits
are written from the last one on, and `off` is a byte: behind the eighth digit it is 255, and the
`++off` of the call wraps it back to 0.
-/
namespace OsI386
open Prog X86 CProg

namespace PrintC

section Functions

/-- `char for_print[9] = {0}`, one byte after the other. -/
def zeroBytes (a : Word) : ℕ → CProg Unit
  | 0 => return ()
  | n + 1 => do
    zeroBytes a n
    putByte (a + BitVec.ofNat 32 n) 0

/-- The digit of 0, which the loop does not write; it ends with `off`. -/
def putZero (forPrint : Word) (off : Byte) (numTmp : Word) : CProg Byte :=
  if numTmp = 0 then do
    putByte (forPrint + off.setWidth 32) 0x30
    return off - 1
  else return off

/-- The loop of `put_int`; it ends with `off`. -/
def putIntLoop (forPrint : Word) : ℕ → Byte → Word → CProg Byte
  | 0, _, _ => .stop .outOfRounds
  | rounds + 1, off, numTmp =>
    if numTmp ≠ 0 then do
      let low : Byte := (numTmp &&& 0xf).setWidth 8
      let p := if 0 ≤ low ∧ low ≤ 9 then low + 0x30 else low - 10 + 0x41
      putByte (forPrint + off.setWidth 32) p
      putIntLoop forPrint rounds (off - 1) (numTmp >>> 4)
    else return off

/-- The part of `put_int` that fills the buffer; it ends with `off`. -/
def fillForPrint (rounds : ℕ) (num forPrint : Word) : CProg Byte := do
  zeroBytes forPrint 9
  let off ← putZero forPrint 7 num
  putIntLoop forPrint rounds off num

/-- The loop of `put_str`. -/
def putStr : ℕ → Word → CProg Unit
  | 0, _ => .stop .outOfRounds
  | rounds + 1, tmp => do
    let c ← getByte tmp
    if c ≠ 0 then do
      let c ← getByte tmp
      label (.call (c.setWidth 32))
      putStr rounds (tmp + 1)
    else return ()

def putInt (rounds : ℕ) (num forPrint : Word) : CProg Unit := do
  let off ← fillForPrint rounds num forPrint
  let message := forPrint + (off + 1).setWidth 32
  label (.call message)
  putStr rounds message

end Functions

end PrintC

section HexNumerals

variable {n d : ℕ} {l : List Byte} {c : Byte}

def hexValue (c : Byte) : ℕ := if c.toNat < 0x41 then c.toNat - 0x30 else c.toNat - 0x41 + 10

/-- A text read as a hexadecimal numeral. -/
def readHex (l : List Byte) : ℕ := l.foldl (fun v c => v * 16 + hexValue c) 0

/-- The canonical upper-case hexadecimal numeral of `n`. -/
structure HexNumeral (n : ℕ) (l : List Byte) : Prop where
  nonempty : l ≠ []
  digits : ∀ c ∈ l, ∃ d < 16, c = hexDigit d
  noLeadingZero : l.head? = some 0x30 → l = [0x30]
  value : readHex l = n

lemma hexValue_hexDigit (hd : d < 16) : hexValue (hexDigit d) = d := by
  interval_cases d <;> decide

lemma readHex_reverse (L : List ℕ) (h : ∀ d ∈ L, d < 16) :
    readHex (L.reverse.map hexDigit) = Nat.ofDigits 16 L := by
  rw [List.map_reverse]
  exact foldl_digits L fun d hd => hexValue_hexDigit (h d hd)

lemma head_hexDigits : (hexDigits n).head? ≠ some 0x30 := by
  have hdrop := dropWhile_hexDigits (n := n)
  intro hhead
  cases hl : hexDigits n with
  | nil =>
    rw [hl] at hhead
    cases hhead
  | cons c l =>
    rw [hl] at hhead hdrop
    obtain rfl := Option.some.inj hhead
    rw [List.dropWhile_cons_of_pos rfl] at hdrop
    have hlen := (List.length_dropWhile_le (fun b : Byte => decide (b = 0x30)) l)
    rw [hdrop, List.length_cons] at hlen
    omega

lemma hexNumeral_hexText (n : ℕ) : HexNumeral n (hexText n) := by
  by_cases hn : n = 0
  · subst hn
    exact ⟨List.cons_ne_nil _ _, fun c hc => ⟨0, by decide, List.mem_singleton.mp hc⟩,
      fun _ => rfl, rfl⟩
  · rw [hexText, if_neg hn]
    refine ⟨mt hexDigits_eq_nil.mp hn, fun c hc => mem_hexDigits hc,
      fun h => absurd h head_hexDigits, ?_⟩
    rw [hexDigits, readHex_reverse _ fun d hd => Nat.digits_lt_base (by decide) hd,
      Nat.ofDigits_digits]

/-- A number has only one canonical numeral. -/
lemma HexNumeral.eq_hexText (h : HexNumeral n l) : l = hexText n := by
  -- the values of the digits, the least significant one first
  set L := (l.map hexValue).reverse with hL
  have hlt : ∀ d ∈ L, d < 16 := by
    intro d hd
    obtain ⟨c, hc, rfl⟩ := List.mem_map.mp (List.mem_reverse.mp hd)
    obtain ⟨d, hlt, rfl⟩ := h.digits c hc
    rwa [hexValue_hexDigit hlt]
  have htext : L.reverse.map hexDigit = l := by
    rw [hL, List.reverse_reverse, List.map_map]
    refine (List.map_congr_left fun c hc => ?_).trans (List.map_id l)
    obtain ⟨d, hd, rfl⟩ := h.digits c hc
    rw [Function.comp_apply, hexValue_hexDigit hd, id]
  have hvalue : Nat.ofDigits 16 L = n := by
    rw [← readHex_reverse L hlt, htext, h.value]
  by_cases hzero : l.head? = some 0x30
  · obtain rfl := h.noLeadingZero hzero
    rw [← h.value]
    rfl
  · have hlast : ∀ hne : L ≠ [], L.getLast hne ≠ 0 := by
      intro hne hlast
      refine hzero ?_
      rw [← htext, List.head?_map, List.head?_reverse, List.getLast?_eq_some_getLast hne, hlast]
      rfl
    have hdigits : Nat.digits 16 n = L := by
      rw [← hvalue, Nat.digits_ofDigits 16 (by decide) L hlt hlast]
    have hn : n ≠ 0 := by
      rintro rfl
      rw [Nat.digits_zero] at hdigits
      rw [← hdigits] at htext
      exact h.nonempty htext.symm
    rw [hexText, if_neg hn, hexDigits, hdigits, htext]

end HexNumerals

namespace PrintC

section Buffer

variable {m : Mem} {forPrint a num : Word} {l t : List Byte} {c : Byte} {rounds k : ℕ}

/-- The stores of the initialiser. -/
def zeroStores (a : Word) (n : ℕ) : List MemAccess :=
  (List.range n).map fun i => .store (a + BitVec.ofNat 32 i)

/-- The store of a digit: the last byte of the buffer is the terminator. -/
def DigitStore (forPrint : Word) (x : MemAccess) : Prop :=
  ∃ i ≤ 7, x = .store (forPrint + BitVec.ofNat 32 i)

/-- The digits from index `k` on are written, the next goes in front of them. -/
structure Built (forPrint : Word) (m : Mem) (k : ℕ) (t : List Byte) : Prop where
  length : k + t.length = 8
  chars : Chars m (forPrint + BitVec.ofNat 32 k) t

lemma runs_zeroBytes (m : Mem) (a : Word) (n : ℕ) : ∃ m',
    (zeroBytes a n).Runs m (zeroStores a n) m' () ∧ ∀ i < n, m' (a + BitVec.ofNat 32 i) = 0 := by
  induction n with
  | zero => exact ⟨m, Runs.ret () m, fun i hi => absurd hi (Nat.not_lt_zero i)⟩
  | succ n ih =>
    obtain ⟨m', hrun, hzero⟩ := ih
    refine ⟨Function.update m' (a + BitVec.ofNat 32 n) 0, ?_, fun i hi => ?_⟩
    · rw [zeroStores, List.range_succ, List.map_append]
      exact hrun.bind (runs_putByte m' _ 0)
    · by_cases he : a + BitVec.ofNat 32 i = a + BitVec.ofNat 32 n
      · rw [he, Function.update_self]
      · have hlow : i < n := Nat.lt_of_le_of_ne (Nat.lt_succ_iff.mp hi) fun h => he (h ▸ rfl)
        rw [Function.update_of_ne he, hzero i hlow]

/-- No digit is written yet. -/
lemma built_nil (hzero : m (forPrint + BitVec.ofNat 32 8) = 0) : Built forPrint m 8 [] :=
  ⟨rfl, hzero⟩

/-- A digit goes in front of the others and leaves them alone. -/
lemma Built.cons (h : Built forPrint m (k + 1) t) (hc : c ≠ 0) :
    Built forPrint (Function.update m (forPrint + BitVec.ofNat 32 k) c) k (c :: t) where
  length := by
    have hlength := h.length
    rw [List.length_cons]
    omega
  chars := by
    refine ⟨Function.update_self _ _ _, hc, ?_⟩
    have hnext : BitVec.ofNat 32 k + 1 = BitVec.ofNat 32 (k + 1) := (BitVec.ofNat_add ..).symm
    rw [BitVec.add_assoc, hnext]
    refine h.chars.congr fun i hi => Function.update_of_ne (fun he => ?_) _ _
    have hlength := h.length
    rw [BitVec.add_assoc, ← BitVec.ofNat_add] at he
    have hindex := add_ofNat_injOn (by omega) (by omega) he
    omega

lemma forPrint_add_off (hk : k < 256) :
    forPrint + (BitVec.ofNat 8 k).setWidth 32 = forPrint + BitVec.ofNat 32 k := by
  congr 1
  apply BitVec.eq_of_toNat_eq
  rw [BitVec.toNat_setWidth, BitVec.toNat_ofNat, BitVec.toNat_ofNat]
  omega

/-- By induction on the rounds; the digits left fit in front of index `k`. -/
lemma runs_putIntLoop (h : Built forPrint m k t) (hnum : num.toNat < 16 ^ k)
    (hrounds : k < rounds) : ∃ tr m' k',
      (putIntLoop forPrint rounds (BitVec.ofNat 8 k - 1) num).Runs m tr m'
        (BitVec.ofNat 8 k' - 1) ∧
      (∀ x ∈ tr, DigitStore forPrint x) ∧ Built forPrint m' k' (hexDigits num.toNat ++ t) := by
  induction rounds generalizing m k t num with
  | zero => exact absurd hrounds (Nat.not_lt_zero k)
  | succ rounds ih =>
    rw [putIntLoop]
    by_cases h0 : num = 0
    · subst h0
      rw [if_neg (not_not.mpr rfl)]
      exact ⟨[], m, k, Runs.ret _ m, fun x hx => absurd hx List.not_mem_nil, h⟩
    have hpos : num.toNat ≠ 0 := BitVec.toNat_ne_iff_ne.mpr h0
    obtain ⟨k, rfl⟩ := exists_succ_of_lt h0 hnum
    have hlength := h.length
    have hdigit : hexDigit (num.toNat % 16) ≠ 0 := (hexDigit_ne (Nat.mod_lt _ (by decide))).1
    obtain ⟨tr, m', k', hrun, hstores, hbuilt⟩ := ih (h.cons hdigit) (toNat_shift_lt hnum) (by omega)
    rw [if_pos h0]
    dsimp only
    rw [digit_eq, ofNat_succ_sub_one, forPrint_add_off (by omega)]
    refine ⟨_ :: tr, m', k', runs_putByte_bind hrun, fun x hx => ?_, ?_⟩
    · rcases List.mem_cons.mp hx with rfl | hx
      · exact ⟨k, by omega, rfl⟩
      · exact hstores x hx
    · rw [hexDigits_of_ne_zero hpos, List.append_assoc]
      rwa [toNat_shift_four] at hbuilt

/-- The buffer holds the numeral when `put_str` is called. -/
lemma runs_fillForPrint (hrounds : 8 < rounds) (m : Mem) (num forPrint : Word) : ∃ fill m' k,
    (fillForPrint rounds num forPrint).Runs m (zeroStores forPrint 9 ++ fill) m'
      (BitVec.ofNat 8 k - 1) ∧
    (∀ x ∈ fill, DigitStore forPrint x) ∧ Built forPrint m' k (hexText num.toNat) := by
  obtain ⟨m1, hinit, hzero⟩ := runs_zeroBytes m forPrint 9
  have hnil : Built forPrint m1 8 [] := built_nil (hzero 8 (by decide))
  by_cases h0 : num = 0
  · subst h0
    have hone : Built forPrint (Function.update m1 (forPrint + BitVec.ofNat 32 7) 0x30) 7 [0x30] :=
      hnil.cons (by decide)
    have hputZero : (putZero forPrint 7 0).Runs m1 [.store (forPrint + BitVec.ofNat 32 7)]
        (Function.update m1 (forPrint + BitVec.ofNat 32 7) 0x30) (BitVec.ofNat 8 7 - 1) := rfl
    obtain ⟨tr, m', k, hrun, hstores, hbuilt⟩ :=
      runs_putIntLoop hone (show (0 : Word).toNat < 16 ^ 7 by decide) (show 7 < rounds by omega)
    refine ⟨_ :: tr, m', k, hinit.bind (hputZero.bind hrun), fun x hx => ?_, hbuilt⟩
    rcases List.mem_cons.mp hx with rfl | hx
    · exact ⟨7, le_rfl, rfl⟩
    · exact hstores x hx
  · have hpos : num.toNat ≠ 0 := BitVec.toNat_ne_iff_ne.mpr h0
    obtain ⟨tr, m', k, hrun, hstores, hbuilt⟩ := runs_putIntLoop hnil num.isLt hrounds
    rw [List.append_nil] at hbuilt
    refine ⟨tr, m', k, hinit.bind ?_, hstores, ?_⟩
    · rw [putZero, if_neg h0]
      exact hrun
    · rwa [hexText, if_neg hpos]

/-- What `put_str` does with a string: it looks at each character, passes it on, and stops at the
terminator. -/
def putStrTrace (a : Word) : List Byte → List MemAccess
  | [] => [.load a]
  | c :: l => .load a :: .load a :: .call (c.setWidth 32) :: putStrTrace (a + 1) l

lemma runs_putStr (h : Chars m a l) (hrounds : l.length < rounds) :
    (putStr rounds a).Runs m (putStrTrace a l) m () := by
  induction l generalizing a rounds with
  | nil =>
    obtain ⟨rounds, rfl⟩ := Nat.exists_eq_add_one_of_ne_zero (Nat.ne_zero_of_lt hrounds)
    have hzero : m a = 0 := h
    rw [putStr]
    apply runs_getByte_bind
    rw [if_neg (not_not.mpr hzero)]
    exact Runs.ret () m
  | cons c l ih =>
    obtain ⟨rounds, rfl⟩ := Nat.exists_eq_add_one_of_ne_zero (Nat.ne_zero_of_lt hrounds)
    rw [putStr]
    apply runs_getByte_bind
    rw [if_pos (h.1 ▸ h.2.1)]
    apply runs_getByte_bind
    rw [h.1]
    exact Runs.bind_label (ih h.2.2 (Nat.lt_of_succ_lt_succ hrounds))

lemma Built.le_seven (h : Built forPrint m k t) (hne : t ≠ []) : k ≤ 7 := by
  have hlength := h.length
  have hpos := List.length_pos_of_ne_nil hne
  omega

/-- The digits go to the first eight bytes of the buffer, and `put_str` gets the canonical numeral
in it. `off` is 255 in the end if there are eight digits, and only then. -/
theorem putInt_canonical (hrounds : 8 < rounds) (m : Mem) (num forPrint : Word) :
    ∃ fill m' off l,
      (fillForPrint rounds num forPrint).Runs m (zeroStores forPrint 9 ++ fill) m' off ∧
      (∀ x ∈ fill, DigitStore forPrint x) ∧
      (off + 1).toNat ≤ 7 ∧ (off + 1).toNat + l.length = 8 ∧ (off = 255 ↔ l.length = 8) ∧
      Chars m' (forPrint + (off + 1).setWidth 32) l ∧ HexNumeral num.toNat l ∧
      (putInt rounds num forPrint).Runs m
        (zeroStores forPrint 9 ++ fill ++ .call (forPrint + (off + 1).setWidth 32) ::
          putStrTrace (forPrint + (off + 1).setWidth 32) l) m' () := by
  obtain ⟨fill, m', k, hrun, hstores, hbuilt⟩ := runs_fillForPrint hrounds m num forPrint
  have hnumeral := hexNumeral_hexText num.toNat
  have hk : k ≤ 7 := hbuilt.le_seven hnumeral.nonempty
  have hlength := hbuilt.length
  have hoff : (BitVec.ofNat 8 k - 1 + 1 : Byte) = BitVec.ofNat 8 k := sub_add_cancel _ _
  have htoNat : (BitVec.ofNat 8 k).toNat = k := by
    rw [BitVec.toNat_ofNat]
    omega
  have hchars : Chars m' (forPrint + (BitVec.ofNat 8 k).setWidth 32) (hexText num.toNat) := by
    rw [forPrint_add_off (by omega)]
    exact hbuilt.chars
  have hwrap : (BitVec.ofNat 8 k - 1 : Byte) = 255 ↔ (hexText num.toNat).length = 8 := by
    have hzero : (BitVec.ofNat 8 k - 1 : Byte) = 255 ↔ k = 0 := by
      interval_cases k <;> decide
    rw [hzero]
    omega
  refine ⟨fill, m', BitVec.ofNat 8 k - 1, hexText num.toNat, hrun, hstores, ?_, ?_, hwrap, ?_,
    hnumeral, hrun.bind (Runs.bind_label ?_)⟩
  · rwa [hoff, htoNat]
  · rwa [hoff, htoNat]
  · rwa [hoff]
  · rw [hoff]
    exact runs_putStr hchars (by omega)

/-- Eight digits, in memory that is not cleared. -/
theorem putInt_canonical_deadbeef :
    ∃ fill m' off l,
      (fillForPrint 9 0xdeadbeef 0x1000).Runs (fun _ => 0xff) (zeroStores 0x1000 9 ++ fill) m' off ∧
      (∀ x ∈ fill, DigitStore 0x1000 x) ∧
      (off + 1).toNat ≤ 7 ∧ (off + 1).toNat + l.length = 8 ∧ (off = 255 ↔ l.length = 8) ∧
      Chars m' (0x1000 + (off + 1).setWidth 32) l ∧ HexNumeral 0xdeadbeef l ∧
      (putInt 9 0xdeadbeef 0x1000).Runs (fun _ => 0xff)
        (zeroStores 0x1000 9 ++ fill ++ .call (0x1000 + (off + 1).setWidth 32) ::
          putStrTrace (0x1000 + (off + 1).setWidth 32) l) m' () :=
  putInt_canonical (show 8 < 9 by decide) (fun _ => 0xff) 0xdeadbeef 0x1000

/-- This model of `put_int` and that of the screen agree: the numeral the code leaves in the buffer
is what the screen is given. -/
theorem putInt_foldl (h : HexNumeral num.toNat l) (s : Screen) :
    OsI386.putInt s num = some (l.foldl putChar s) := by
  rw [OsI386.putInt_eq, h.eq_hexText]

end Buffer

end PrintC

end OsI386
