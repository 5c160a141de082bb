import OsI386.PrintRoutines

/-!
# Numbers on the console

`put_int` of print.c builds the digits from the last one until the number is used up, the routine
of print.s always builds eight and skips the zeros in front.
-/
namespace OsI386
open TransitionSystem X86

section Digits

variable {f : ℕ → Byte} {k n d : ℕ}

def hexDigit (d : ℕ) : Byte :=
  if d ≤ 9 then BitVec.ofNat 8 (d + 0x30) else BitVec.ofNat 8 (d - 10 + 0x41)

/-- The digits of a number, none for 0. -/
def hexDigits (n : ℕ) : List Byte := (Nat.digits 16 n).reverse.map hexDigit

/-- The last `w` digits of a number. -/
def hexPadded : ℕ → ℕ → List Byte
  | 0, _ => []
  | w + 1, n => hexPadded w (n / 16) ++ [hexDigit (n % 16)]

/-- What is put for a number. -/
def hexText (n : ℕ) : List Byte := if n = 0 then [hexDigit 0] else hexDigits n

lemma hexDigits_of_ne_zero (hn : n ≠ 0) :
    hexDigits n = hexDigits (n / 16) ++ [hexDigit (n % 16)] := by
  rw [hexDigits, Nat.digits_def' (by decide) (Nat.pos_of_ne_zero hn), List.reverse_cons,
    List.map_append]
  rfl

lemma hexDigit_ne (hd : d < 16) : hexDigit d ≠ 0 ∧ hexDigit d ≠ 0x08 := by
  interval_cases d <;> decide

lemma hexDigit_eq_zero (hd : d < 16) : hexDigit d = 0x30 ↔ d = 0 := by
  interval_cases d <;> decide

lemma mem_hexDigits {b : Byte} (hb : b ∈ hexDigits n) : ∃ d < 16, b = hexDigit d := by
  obtain ⟨d, hd, rfl⟩ := List.mem_map.mp hb
  exact ⟨d, Nat.digits_lt_base (by decide) (List.mem_reverse.mp hd), rfl⟩

lemma mem_hexText {b : Byte} (hb : b ∈ hexText n) : b ≠ 0 ∧ b ≠ 0x08 := by
  rw [hexText] at hb
  by_cases hn : n = 0
  · rw [if_pos hn] at hb
    exact List.mem_singleton.mp hb ▸ hexDigit_ne (by decide)
  · rw [if_neg hn] at hb
    obtain ⟨d, hd, rfl⟩ := mem_hexDigits hb
    exact hexDigit_ne hd

lemma hexDigits_eq_nil : hexDigits n = [] ↔ n = 0 := by
  rw [hexDigits, List.map_eq_nil_iff, List.reverse_eq_nil_iff, Nat.digits_eq_nil_iff_eq_zero]

/-- The first digit of a number is not 0. -/
lemma dropWhile_hexDigits : (hexDigits n).dropWhile (· = 0x30) = hexDigits n := by
  induction n using Nat.strongRecOn with
  | ind n ih =>
    by_cases hn : n = 0
    · rw [hn]
      rfl
    rw [hexDigits_of_ne_zero hn, List.dropWhile_append, ih (n / 16) (by omega)]
    by_cases hfirst : n / 16 = 0
    · have hdigit : hexDigit (n % 16) ≠ 0x30 := by
        rw [Ne, hexDigit_eq_zero (by omega)]
        omega
      rw [hexDigits_eq_nil.mpr hfirst]
      simpa using hdigit
    · have hne : hexDigits (n / 16) ≠ [] := mt hexDigits_eq_nil.mp hfirst
      rw [if_neg (by simpa using hne)]

/-- Padding is zeros in front. -/
lemma hexPadded_eq {w : ℕ} (hn : n < 16 ^ w) :
    hexPadded w n = List.replicate (w - (hexDigits n).length) 0x30 ++ hexDigits n := by
  induction w generalizing n with
  | zero =>
    obtain rfl : n = 0 := by simpa using hn
    rfl
  | succ w ih =>
    have hdiv : n / 16 < 16 ^ w := by
      rw [pow_succ] at hn
      omega
    rw [hexPadded, ih hdiv]
    by_cases h0 : n = 0
    · subst h0
      change List.replicate w 0x30 ++ [] ++ [0x30] = List.replicate (w + 1) 0x30 ++ []
      rw [List.append_nil, List.append_nil, ← List.replicate_succ']
    · rw [hexDigits_of_ne_zero h0, List.append_assoc, List.length_append, List.length_singleton,
        Nat.add_sub_add_right]

/-- What the skipping of zeros leaves. -/
lemma dropWhile_hexPadded {w : ℕ} (hn : n < 16 ^ w) :
    (hexPadded w n).dropWhile (· = 0x30) = hexDigits n := by
  rw [hexPadded_eq hn, List.dropWhile_append_of_pos, dropWhile_hexDigits]
  intro b hb
  simpa using List.eq_of_mem_replicate hb

/-- The index behind the next digit, less one. -/
lemma ofNat_succ_sub_one (w k : ℕ) : BitVec.ofNat w (k + 1) - 1 = BitVec.ofNat w k := by
  rw [BitVec.ofNat_add]
  exact add_sub_cancel_right _ _

/-- The bytes of an array from index `k` on. -/
def bytesFrom (f : ℕ → Byte) (k n : ℕ) : List Byte := (List.range' k n).map f

lemma bytesFrom_succ : bytesFrom f k (n + 1) = f k :: bytesFrom f (k + 1) n := rfl

lemma bytesFrom_update {b : Byte} :
    bytesFrom (Function.update f k b) k (n + 1) = b :: bytesFrom f (k + 1) n := by
  rw [bytesFrom_succ, Function.update_self]
  refine congrArg _ (List.map_congr_left fun i hi => ?_)
  have hlow := (List.mem_range'_1.mp hi).1
  exact Function.update_of_ne (by omega) _ _

end Digits

section PutInt

variable {f : ℕ → Byte} {s : Screen} {num : Word} {k n m i : ℕ}

lemma toNat_and_f (num : Word) : (num &&& 0xf).toNat = num.toNat % 16 := by
  rw [BitVec.toNat_and]
  exact Nat.and_two_pow_sub_one_eq_mod num.toNat 4

lemma toNat_shift_four (num : Word) : (num >>> 4).toNat = num.toNat / 16 := by
  rw [BitVec.toNat_ushiftRight, Nat.shiftRight_eq_div_pow]

/-- A number other than 0 has a digit. -/
lemma exists_succ_of_lt (h0 : num ≠ 0) (hnum : num.toNat < 16 ^ k) : ∃ j, k = j + 1 := by
  have hpos : num.toNat ≠ 0 := BitVec.toNat_ne_iff_ne.mpr h0
  refine Nat.exists_eq_succ_of_ne_zero fun hzero => ?_
  rw [hzero] at hnum
  omega

/-- The shift takes the last digit away. -/
lemma toNat_shift_lt (hnum : num.toNat < 16 ^ (k + 1)) : (num >>> 4).toNat < 16 ^ k := by
  rw [pow_succ] at hnum
  rw [toNat_shift_four]
  omega

/-- The digit that `put_int` of print.c makes of the lowest four bits. -/
lemma digit_eq (num : Word) :
    (if 0 ≤ ((num &&& 0xf).setWidth 8 : Byte) ∧ ((num &&& 0xf).setWidth 8 : Byte) ≤ 9
      then (num &&& 0xf).setWidth 8 + 0x30 else (num &&& 0xf).setWidth 8 - 10 + 0x41 : Byte) =
    hexDigit (num.toNat % 16) := by
  have hlow : ((num &&& 0xf).setWidth 8 : Byte) = BitVec.ofNat 8 (num.toNat % 16) := by
    apply BitVec.eq_of_toNat_eq
    rw [BitVec.toNat_setWidth, toNat_and_f, BitVec.toNat_ofNat]
  have hlt : num.toNat % 16 < 16 := Nat.mod_lt _ (by decide)
  rw [hlow]
  interval_cases num.toNat % 16 <;> rfl

/-- `off` is one less than the index of the first digit built. -/
lemma putIntLoop_eq (hk : k ≤ 8) (hnum : num.toNat < 16 ^ k) (hn : k < n) :
    ∃ f' k', putIntLoop f (BitVec.ofNat 8 k - 1) num n = some (f', BitVec.ofNat 8 k' - 1) ∧
      k' ≤ 8 ∧ f' 8 = f 8 ∧
      bytesFrom f' k' (8 - k') = hexDigits num.toNat ++ bytesFrom f k (8 - k) := by
  induction n generalizing f num k with
  | zero => exact absurd hn (by omega)
  | succ n ih =>
    rw [putIntLoop]
    by_cases h0 : num = 0
    · subst h0
      exact ⟨f, k, if_pos rfl, hk, rfl, rfl⟩
    have hpos : num.toNat ≠ 0 := BitVec.toNat_ne_iff_ne.mpr h0
    obtain ⟨j, rfl⟩ := exists_succ_of_lt h0 hnum
    have htoNat : (BitVec.ofNat 8 j).toNat = j := by
      rw [BitVec.toNat_ofNat]
      omega
    rw [if_neg h0]
    dsimp only
    rw [digit_eq, ofNat_succ_sub_one, htoNat]
    obtain ⟨f', k', hloop, hk', hend, hbytes⟩ :=
      ih (f := Function.update f j (hexDigit (num.toNat % 16))) (k := j) (by omega)
        (toNat_shift_lt hnum) (by omega)
    refine ⟨f', k', hloop, hk', hend.trans (Function.update_of_ne (by omega) _ _), ?_⟩
    rw [hbytes, toNat_shift_four, hexDigits_of_ne_zero hpos, List.append_assoc,
      show 8 - j = 8 - (j + 1) + 1 by omega, bytesFrom_update]
    rfl

/-- A string is put up to its end. -/
lemma putStr_bytesFrom (hne : ∀ b ∈ bytesFrom f (k + i) m, b ≠ 0) (hend : f (k + i + m) = 0)
    (hn : m < n) : putStr (fun _ i => f (k + i)) s i n =
      some ((bytesFrom f (k + i) m).foldl putChar s) := by
  induction m generalizing s i n with
  | zero =>
    obtain ⟨n, rfl⟩ := Nat.exists_eq_succ_of_ne_zero (show n ≠ 0 by omega)
    exact if_pos hend
  | succ m ih =>
    obtain ⟨n, rfl⟩ := Nat.exists_eq_succ_of_ne_zero (show n ≠ 0 by omega)
    rw [bytesFrom_succ] at hne ⊢
    rw [putStr, if_neg (hne _ List.mem_cons_self)]
    exact ih (i := i + 1) (fun b hb => hne b (List.mem_cons_of_mem _ hb))
      (by rw [← hend]; ring_nf) (by omega)

lemma putStr_forPrint (hk : k ≤ 8) (hend : f 8 = 0) (hne : ∀ b ∈ bytesFrom f k (8 - k), b ≠ 0) :
    putStr (fun _ i => f ((BitVec.ofNat 8 k - 1 + 1 : Byte).toNat + i)) s 0 9 =
      some ((bytesFrom f k (8 - k)).foldl putChar s) := by
  have hoff : (BitVec.ofNat 8 k - 1 + 1 : Byte).toNat = k := by
    rw [sub_add_cancel, BitVec.toNat_ofNat]
    omega
  rw [hoff]
  exact putStr_bytesFrom (i := 0) hne (by rw [← hend]; congr 1; omega) (by omega)

/-- `put_int` of print.c puts the digits of the number. -/
lemma putInt_eq : putInt s num = some ((hexText num.toNat).foldl putChar s) := by
  unfold putInt
  by_cases h0 : num = 0
  · subst h0
    exact putStr_forPrint (f := Function.update (fun _ => 0) 7 0x30) (k := 7) (by decide) rfl
      (by decide)
  · obtain ⟨f, k, hloop, hk, hend, hbytes⟩ :=
      putIntLoop_eq (f := fun _ => 0) (k := 8) (n := 9) le_rfl num.isLt (by decide)
    have htext : bytesFrom f k (8 - k) = hexText num.toNat := by
      have hpos : num.toNat ≠ 0 := BitVec.toNat_ne_iff_ne.mpr h0
      rw [hbytes, hexText, if_neg hpos]
      exact List.append_nil _
    dsimp only
    rw [if_neg h0]
    dsimp only
    rw [show (7 : Byte) = BitVec.ofNat 8 8 - 1 from rfl, hloop, ← htext]
    exact putStr_forPrint hk hend fun b hb => (mem_hexText (htext ▸ hb)).1

end PutInt

namespace PrintAsm

section PutIntRoutine

variable {x : PrintAsm} {k n : ℕ}

/-- The bytes of `put_int_buffer`. -/
def digits (x : PrintAsm) (i : ℕ) : Byte := x.putIntBuffer (BitVec.ofNat 32 i)

/-- The digit the routine makes of the lowest four bits. -/
lemma isA2F_eq (num : Word) : low8 (isA2F (num &&& 0xf)) = hexDigit (num.toNat % 16) := by
  have hlow : num &&& 0xf = BitVec.ofNat 32 (num.toNat % 16) := by
    apply BitVec.eq_of_toNat_eq
    rw [toNat_and_f, BitVec.toNat_ofNat]
    omega
  have hlt : num.toNat % 16 < 16 := Nat.mod_lt _ (by decide)
  rw [hlow]
  interval_cases num.toNat % 16 <;> rfl

lemma bytesFrom_digits_update {y : PrintAsm} {b : Byte} (hk : k + n < 2 ^ 32)
    (hy : y.putIntBuffer = Function.update x.putIntBuffer (BitVec.ofNat 32 k) b) :
    bytesFrom y.digits k (n + 1) = b :: bytesFrom x.digits (k + 1) n := by
  have hfirst : y.digits k = b := by
    rw [digits, hy, Function.update_self]
  rw [bytesFrom_succ, hfirst]
  refine congrArg _ (List.map_congr_left fun i hi => ?_)
  have hi' := List.mem_range'_1.mp hi
  have hne : BitVec.ofNat 32 i ≠ BitVec.ofNat 32 k := by
    intro h
    have hmod := congrArg BitVec.toNat h
    rw [BitVec.toNat_ofNat, BitVec.toNat_ofNat] at hmod
    omega
  rw [digits, hy, Function.update_of_ne hne]
  rfl

/-- `n` digits are left, `edi` is the index of the last of them. -/
lemma based4Bits_eq (hn : n ≤ 8) (hedi : x.edi = BitVec.ofNat 32 n - 1) (hedx : x.edx = x.eax) :
    (x.based4Bits n).edi = BitVec.ofNat 32 0 - 1 ∧ (x.based4Bits n).screen = x.screen ∧
      bytesFrom (x.based4Bits n).digits 0 8 =
        hexPadded n x.eax.toNat ++ bytesFrom x.digits n (8 - n) := by
  induction n generalizing x with
  | zero => exact ⟨hedi, rfl, rfl⟩
  | succ n ih =>
    have hindex : x.edi = BitVec.ofNat 32 n := hedi.trans (ofNat_succ_sub_one 32 n)
    rw [based4Bits]
    set y : PrintAsm :=
      { x with
        putIntBuffer := Function.update x.putIntBuffer x.edi (low8 (isA2F (x.edx &&& 0xf)))
        edi := x.edi - 1
        eax := x.eax >>> 4
        edx := x.eax >>> 4 }
    have hyedi : y.edi = BitVec.ofNat 32 n - 1 := hindex ▸ rfl
    obtain ⟨hend, hscreen, hbytes⟩ := ih (x := y) (by omega) hyedi rfl
    have hbuffer : y.putIntBuffer =
        Function.update x.putIntBuffer (BitVec.ofNat 32 n) (hexDigit (x.eax.toNat % 16)) := by
      rw [← isA2F_eq, ← hedx, ← hindex]
    have hshift : y.eax.toNat = x.eax.toNat / 16 := toNat_shift_four x.eax
    refine ⟨hend, hscreen, ?_⟩
    rw [hbytes, hshift, hexPadded, List.append_assoc, show 8 - n = 8 - (n + 1) + 1 by omega,
      bytesFrom_digits_update (by omega) hbuffer]
    rfl

/-- What is printed of the bytes of the buffer. -/
def printed (l : List Byte) : List Byte :=
  if l.dropWhile (· = 0x30) = [] then [0x30] else l.dropWhile (· = 0x30)

/-- The first byte to print is in `cl`, the others from the next index on. -/
lemma skipPrefix0_eq (hk : k ≤ 8) (hedi : x.edi = BitVec.ofNat 32 k) (hn : 8 < k + n) :
    ∃ y k', x.skipPrefix0 n = some y ∧ y.screen = x.screen ∧ y.putIntBuffer = x.putIntBuffer ∧
      k' ≤ 8 ∧ y.edi = BitVec.ofNat 32 k' ∧
      y.cl :: bytesFrom x.digits (k' + 1) (7 - k') = printed (bytesFrom x.digits k (8 - k)) := by
  induction n generalizing x k with
  | zero => exact absurd hn (by omega)
  | succ n ih =>
    rw [skipPrefix0]
    by_cases hfull : k = 8
    · subst hfull
      exact ⟨x.setCl 0x30, 8, if_pos hedi, rfl, rfl, le_rfl, hedi, by rw [cl_setCl]; rfl⟩
    have hne : x.edi ≠ 8 := by
      intro h
      have hmod := congrArg BitVec.toNat (hedi.symm.trans h)
      rw [BitVec.toNat_ofNat] at hmod
      change _ = 8 at hmod
      omega
    have hsplit : bytesFrom x.digits k (8 - k) =
        x.digits k :: bytesFrom x.digits (k + 1) (7 - k) := by
      rw [← bytesFrom_succ]
      congr 1
      omega
    have hcl : (x.setCl (x.putIntBuffer x.edi)).cl = x.digits k := by
      rw [cl_setCl, hedi]
      rfl
    rw [if_neg hne, hsplit]
    set x1 := x.setCl (x.putIntBuffer x.edi)
    by_cases hzero : x.digits k = 0x30
    · have hnext : x1.edi + 1 = BitVec.ofNat 32 (k + 1) := by
        rw [BitVec.ofNat_add, ← hedi]
        rfl
      have hskip : printed (x.digits k :: bytesFrom x.digits (k + 1) (7 - k)) =
          printed (bytesFrom x.digits (k + 1) (8 - (k + 1))) := by
        have hdrop := List.dropWhile_cons_of_pos (p := fun b : Byte => decide (b = 0x30))
          (l := bytesFrom x.digits (k + 1) (7 - k)) (decide_eq_true hzero)
        rw [printed, hdrop, show 8 - (k + 1) = 7 - k by omega]
        rfl
      obtain ⟨y, k', hy, hrest⟩ :=
        ih (x := { x1 with edi := x1.edi + 1 }) (by omega) hnext (by omega)
      rw [hskip]
      exact ⟨y, k', (if_pos (hcl.trans hzero)).trans hy, hrest⟩
    · have hstop : printed (x.digits k :: bytesFrom x.digits (k + 1) (7 - k)) =
          x.digits k :: bytesFrom x.digits (k + 1) (7 - k) := by
        have hdrop := List.dropWhile_cons_of_neg (p := fun b : Byte => decide (b = 0x30))
          (l := bytesFrom x.digits (k + 1) (7 - k)) (mt of_decide_eq_true hzero)
        rw [printed, hdrop, if_neg (List.cons_ne_nil _ _)]
      have hback : x1.edi + 1 - 1 = BitVec.ofNat 32 k := by
        rw [add_sub_cancel_right]
        exact hedi
      refine ⟨{ x1 with edi := x1.edi + 1 - 1 }, k, if_neg (hcl ▸ hzero), rfl, rfl, hk, hback, ?_⟩
      rw [hstop]
      exact congrArg (· :: _) hcl

lemma putEachNum_succ : x.putEachNum (n + 1) =
    (let x := x.putChar x.ecx
    let x := { x with edi := x.edi + 1 }
    let x := x.setCl (x.putIntBuffer x.edi)
    if x.edi.slt 8 then putEachNum x n else some x) := rfl

/-- From `.put_each_num` on. -/
lemma putEachNum_eq (hk : k ≤ 8) (hedi : x.edi = BitVec.ofNat 32 k) (hn : 8 ≤ k + n) (hn0 : 0 < n)
    (hlt : x.screen.cursor.toNat < 2000)
    (hb : ∀ b ∈ x.cl :: bytesFrom x.digits (k + 1) (7 - k), b ≠ 0x08) :
    ∃ y, x.putEachNum n = some y ∧
      y.screen = (x.cl :: bytesFrom x.digits (k + 1) (7 - k)).foldl OsI386.putChar x.screen ∧
      y.putIntBuffer = x.putIntBuffer := by
  induction n generalizing x k with
  | zero => exact absurd hn0 (by omega)
  | succ n ih =>
    have hprintable : Printable x.screen x.cl := fun h => hb x.cl List.mem_cons_self h.1
    have hput : x.putChar x.ecx = { x with screen := OsI386.putChar x.screen x.cl } :=
      putChar_eq (c := x.cl) rfl hlt hprintable
    have hlt' := cursor_putChar hlt hprintable
    have hedi' : x.edi + 1 = BitVec.ofNat 32 (k + 1) := by
      rw [BitVec.ofNat_add, ← hedi]
      rfl
    rw [putEachNum_succ, hput]
    dsimp only
    set y : PrintAsm := PrintAsm.setCl
      { x with screen := OsI386.putChar x.screen x.cl, edi := x.edi + 1 }
      (x.putIntBuffer (x.edi + 1)) with hy
    have hyedi : y.edi = BitVec.ofNat 32 (k + 1) := hedi'
    have hslt : y.edi.slt 8 = true ↔ k + 1 < 8 := by
      have h8 : (8 : Word).toInt = 8 := rfl
      have htoNat : y.edi.toNat = k + 1 := by
        rw [hyedi, BitVec.toNat_ofNat]
        omega
      rw [BitVec.slt_iff_toInt_lt, h8, BitVec.toInt_eq_toNat_of_lt (by omega), htoNat]
      omega
    by_cases hlast : k + 1 < 8
    · have hcl : y.cl = x.digits (k + 1) := by
        rw [cl_setCl, hedi']
        rfl
      have hsplit : bytesFrom x.digits (k + 1) (7 - k) =
          y.cl :: bytesFrom y.digits (k + 1 + 1) (7 - (k + 1)) := by
        rw [hcl, show 7 - k = 7 - (k + 1) + 1 by omega]
        rfl
      obtain ⟨z, hz, hscreen, hbuffer⟩ := ih (x := y) (by omega) hyedi (by omega) (by omega) hlt'
        fun b hmem => hb b (List.mem_cons_of_mem _ (hsplit ▸ hmem))
      rw [if_pos (hslt.mpr hlast), hsplit]
      exact ⟨z, hz, hscreen, hbuffer⟩
    · rw [if_neg (mt hslt.mp hlast), show 7 - k = 0 by omega]
      exact ⟨y, rfl, rfl, rfl⟩

lemma printed_hexPadded (num : Word) : printed (hexPadded 8 num.toNat) = hexText num.toNat := by
  rw [printed, dropWhile_hexPadded num.isLt, hexText]
  simp only [hexDigits_eq_nil]
  rfl

lemma printed_digits {num : Word} (hedi : x.edi = BitVec.ofNat 32 8 - 1) (hedx : x.edx = x.eax)
    (heax : x.eax = num) :
    printed (bytesFrom (x.based4Bits 8).digits 0 8) = hexText num.toNat := by
  rw [(based4Bits_eq le_rfl hedi hedx).2.2, heax, ← printed_hexPadded]
  exact congrArg printed (List.append_nil _)

/-- `put_int` of print.s puts the digits of the number. -/
lemma putInt_digits {num : Word} (hlt : x.screen.cursor.toNat < 2000) :
    ∃ buffer, x.putInt num = some
      { x with
        screen := (hexText num.toNat).foldl OsI386.putChar x.screen
        putIntBuffer := buffer } := by
  set x1 : PrintAsm := { x with eax := num, edx := num, edi := 7, ecx := 8 }
  obtain ⟨hedi, hscreen, -⟩ := based4Bits_eq (x := x1) (n := 8) le_rfl rfl rfl
  have htext := printed_digits (x := x1) rfl rfl (rfl : x1.eax = num)
  have hput : x.putInt num =
      (PrintAsm.skipPrefix0 { x1.based4Bits 8 with edi := (x1.based4Bits 8).edi + 1 } 9).bind
        fun x' => (x'.putEachNum 9).map fun x' => x'.popad x := rfl
  generalize hx2 : x1.based4Bits 8 = x2 at hedi hscreen htext hput
  set x3 : PrintAsm := { x2 with edi := x2.edi + 1 }
  have hedi3 : x3.edi = BitVec.ofNat 32 0 := by
    change x2.edi + 1 = _
    rw [hedi]
    rfl
  obtain ⟨y, k, hy, hyscreen, hybuffer, hk, hyedi, hprinted⟩ :=
    skipPrefix0_eq (x := x3) (n := 9) (Nat.zero_le 8) hedi3 (by decide)
  have hdigits : bytesFrom y.digits (k + 1) (7 - k) = bytesFrom x3.digits (k + 1) (7 - k) := by
    refine List.map_congr_left fun i _ => ?_
    rw [digits, hybuffer]
    rfl
  have hall : y.cl :: bytesFrom y.digits (k + 1) (7 - k) = hexText num.toNat := by
    rw [hdigits, hprinted]
    exact htext
  have hyscreen' : y.screen = x.screen := hyscreen.trans hscreen
  obtain ⟨z, hz, hzscreen, -⟩ := putEachNum_eq (x := y) (n := 9) hk hyedi (by omega) (by decide)
    (by rwa [hyscreen']) fun b hb => (mem_hexText (hall ▸ hb)).2
  refine ⟨z.putIntBuffer, ?_⟩
  rw [hput]
  rw [hy, Option.bind_some, hz, Option.map_some, popad, hzscreen, hall, hyscreen']

end PutIntRoutine

end PrintAsm

section Agreement

inductive PutCall
  | char (c : Byte)
  | str (message : Word)
  | int (num : Word)

/-- A call of print.c; a string may have `n` bytes. -/
def putCall (n : ℕ) (s : Screen) : PutCall → Option Screen
  | .char c => some (putChar s c)
  | .str message => putStr (inMemory message) s 0 n
  | .int num => putInt s num

/-- A call of print.s. -/
def PrintAsm.putCall (n : ℕ) (x : PrintAsm) : PutCall → Option PrintAsm
  | .char c => some (x.putChar (c.setWidth 32))
  | .str message => x.putStr message n
  | .int num => x.putInt num

def CallPrintable (n : ℕ) (s : Screen) : PutCall → Prop
  | .char c => PrintAsm.Printable s c
  | .str message => PrintAsm.StrPrintable (inMemory message) s 0 n
  | .int _ => True

lemma cursor_foldl {l : List Byte} {s : Screen} (hlt : s.cursor.toNat < 2000)
    (hb : ∀ b ∈ l, b ≠ 0x08) : (l.foldl putChar s).cursor.toNat < 2000 := by
  induction l generalizing s with
  | nil => exact hlt
  | cons b l ih =>
    have hfirst := PrintAsm.cursor_putChar hlt (c := b) fun h => hb b List.mem_cons_self h.1
    exact ih hfirst fun b' hb' => hb b' (List.mem_cons_of_mem _ hb')

/-- One call leaves the same screen and the cursor on it. -/
lemma putCall_agrees {n : ℕ} {x : PrintAsm} {t : Screen} {call : PutCall}
    (hlt : x.screen.cursor.toNat < 2000) (hok : CallPrintable n x.screen call)
    (h : putCall n x.screen call = some t) :
    t.cursor.toNat < 2000 ∧ ∃ y, x.putCall n call = some y ∧ y.screen = t := by
  cases call with
  | char c =>
    obtain rfl := Option.some.inj h
    have hasci : low8 (c.setWidth 32) = c := by
      rw [low8_eq_setWidth]
      simp
    exact ⟨PrintAsm.cursor_putChar hlt hok, _,
      congrArg some (PrintAsm.putChar_eq hasci hlt hok), rfl⟩
  | str message =>
    have hputs := PrintAsm.putStr_eq hlt hok
    have h' : putStr (inMemory message) x.screen 0 n = some t := h
    rw [h'] at hputs
    exact ⟨PrintAsm.cursor_putStr hlt hok h', _, hputs, rfl⟩
  | int num =>
    obtain rfl := Option.some.inj (putInt_eq.symm.trans h)
    obtain ⟨buffer, hputs⟩ := PrintAsm.putInt_digits hlt
    exact ⟨cursor_foldl hlt fun b hb => (mem_hexText hb).2, _, hputs, rfl⟩

lemma run_putCall_agrees {n : ℕ} {x : PrintAsm} {calls : List PutCall}
    (hlt : x.screen.cursor.toNat < 2000)
    (hok : RunAllowed (putCall n) (CallPrintable n) x.screen calls) :
    ∃ t y, run (putCall n) x.screen calls = some t ∧
      run (PrintAsm.putCall n) x calls = some y ∧ y.screen = t := by
  induction calls generalizing x with
  | nil => exact ⟨x.screen, x, rfl, rfl, rfl⟩
  | cons call calls ih =>
    obtain ⟨hcall, t, ht, hrest⟩ := hok
    obtain ⟨hcursor, y, hy, rfl⟩ := putCall_agrees hlt hcall ht
    obtain ⟨t', y', ht', hy', hscreen⟩ := ih hcursor hrest
    exact ⟨t', y', by rw [run, ht, Option.bind_some, ht'], by rw [run, hy, Option.bind_some, hy'],
      hscreen⟩

/-- The routines of print.s and the functions of print.c leave the same video memory and the same
cursor. -/
theorem console_agrees (n : ℕ) (x : PrintAsm) (calls : List PutCall)
    (hcursor : x.screen.cursor.toNat < 2000)
    (hok : RunAllowed (putCall n) (CallPrintable n) x.screen calls) :
    ∃ t y, run (putCall n) x.screen calls = some t ∧ run (PrintAsm.putCall n) x calls = some y ∧
      (∀ i < 4000, y.screen.video i = t.video i) ∧ y.screen.cursor = t.cursor := by
  obtain ⟨t, y, ht, hy, hscreen⟩ := run_putCall_agrees hcursor hok
  exact ⟨t, y, ht, hy, fun i _ => by rw [hscreen], by rw [hscreen]⟩

/-- A screen of zeros, with the cursor in the first cell. -/
def zeroPrintAsm : PrintAsm :=
  ⟨0, 0, 0, 0, 0, 0, zeroScreen, fun _ => 0⟩

/-- A character, a backspace, an empty string and a number. -/
theorem console_agrees_zero :
    ∃ t y, run (putCall 1) zeroPrintAsm.screen [.char 0x41, .char 0x08, .str 0, .int 0x2f] =
        some t ∧
      run (PrintAsm.putCall 1) zeroPrintAsm [.char 0x41, .char 0x08, .str 0, .int 0x2f] =
        some y ∧
      (∀ i < 4000, y.screen.video i = t.video i) ∧ y.screen.cursor = t.cursor := by
  have hempty : inMemory 0 (putChar (putChar zeroScreen 0x41) 0x08) 0 = 0 := by decide
  have hstr : putCall 1 (putChar (putChar zeroScreen 0x41) 0x08) (.str 0) =
      some (putChar (putChar zeroScreen 0x41) 0x08) := by
    rw [putCall, putStr, if_pos hempty]
  obtain ⟨t, ht⟩ : ∃ t, putCall 1 (putChar (putChar zeroScreen 0x41) 0x08) (.int 0x2f) =
      some t := by
    rw [putCall, putInt_eq]
    exact ⟨_, rfl⟩
  exact console_agrees 1 zeroPrintAsm _ (by decide)
    ⟨fun h => absurd h.1 (by decide), _, rfl, fun h => absurd h.2 (by decide), _, rfl,
      fun h => absurd hempty h, _, hstr, trivial, t, ht, trivial⟩

end Agreement

end OsI386
