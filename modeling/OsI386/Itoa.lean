import OsI386.CStrings

/-!
# itoa of lib/stdio.c

`num` is an `int`: the division and the remainder are those of C, which truncate, and the
negation wraps. The digits are written from the last one on and then reversed in place.
-/
namespace OsI386
open Prog X86 CProg

section Functions

/-- The character for a remainder, converted to `char`. -/
def remChar (rem : Word) : BitVec 8 :=
  (if rem.toInt > 9 then rem - 10 + 0x61 else rem + 0x30).setWidth 8

/-- The loop that writes the digits; it ends with `i`. -/
def digitLoop (str : Word) (base : BitVec 8) : ℕ → Word → ℕ → CProg ℕ
  | 0, _, _ => .stop .outOfRounds
  | rounds + 1, num, i =>
    if num ≠ 0 then
      if base = 0 then .stop .divideError
      else do
        putByte (str + BitVec.ofNat 32 i) (remChar (num.srem (base.setWidth 32)))
        digitLoop str base rounds (num.sdiv (base.setWidth 32)) (i + 1)
    else return i

/-- The loop that reverses the text. -/
def reverseLoop (str : Word) (i : ℕ) : ℕ → ℕ → CProg Unit
  | 0, _ => .stop .outOfRounds
  | rounds + 1, j =>
    if j < i / 2 then do
      let tmp ← getByte (str + BitVec.ofNat 32 j)
      let c ← getByte (str + BitVec.ofNat 32 (i - j - 1))
      putByte (str + BitVec.ofNat 32 j) c
      putByte (str + BitVec.ofNat 32 (i - j - 1)) tmp
      reverseLoop str i rounds (j + 1)
    else return ()

/-- The minus sign behind the digits. -/
def putSign (isNeg : Bool) (str : Word) (i : ℕ) : CProg ℕ :=
  if isNeg then do
    putByte (str + BitVec.ofNat 32 i) 0x2d
    return i + 1
  else return i

def itoa (rounds : ℕ) (num str : Word) (base : BitVec 8) : CProg Unit :=
  if num = 0 then do
    putByte str 0x30
    putByte (str + 1) 0
  else do
    let isNeg : Bool := num.toInt < 0 ∧ base = 10
    let num := if isNeg then -num else num
    let i ← digitLoop str base rounds num 0
    let i ← putSign isNeg str i
    putByte (str + BitVec.ofNat 32 i) 0
    reverseLoop str i rounds 0

end Functions

section Numerals

variable {b d n : ℕ} {l : List (BitVec 8)} {c : BitVec 8} {neg : Bool}

/-- A digit: 0 to 9, then a to z. -/
def digitChar (d : ℕ) : BitVec 8 := BitVec.ofNat 8 (if d ≤ 9 then 0x30 + d else 0x61 + (d - 10))

def digitValue (c : BitVec 8) : ℕ := if c.toNat < 0x61 then c.toNat - 0x30 else c.toNat - 0x61 + 10

/-- A text read as a numeral in base `b`. -/
def readNumeral (b : ℕ) (l : List (BitVec 8)) : ℕ := l.foldl (fun v c => v * b + digitValue c) 0

/-- The canonical numeral of `n` in base `b`. -/
structure Numeral (b n : ℕ) (l : List (BitVec 8)) : Prop where
  nonempty : l ≠ []
  digits : ∀ c ∈ l, ∃ d < b, c = digitChar d
  noLeadingZero : l.head? = some 0x30 → l = [0x30]
  value : readNumeral b l = n

/-- The character for a remainder, which has the sign of the number that is divided. -/
def signedChar (neg : Bool) (d : ℕ) : BitVec 8 :=
  remChar (BitVec.ofInt 32 (if neg then -(d : ℤ) else d))

/-- The digits of `n` as the loops leave them. -/
def digitsText (neg : Bool) (b n : ℕ) : List (BitVec 8) :=
  ((Nat.digits b n).map (signedChar neg)).reverse

lemma signedChar_false (hd : d < 36) : signedChar false d = digitChar d := by
  interval_cases d <;> decide

lemma digitValue_digitChar (hd : d < 36) : digitValue (digitChar d) = d := by
  interval_cases d <;> decide

lemma digitChar_eq_zero (hd : d < 36) : digitChar d = 0x30 ↔ d = 0 := by
  interval_cases d <;> decide

/-- The character of a negative remainder other than 0 is not a digit. -/
lemma signedChar_true_ne (hpos : 0 < d) (hd : d < 36) (d' : ℕ) (hd' : d' < 36) :
    signedChar true d ≠ digitChar d' := by
  have hlow : (signedChar true d).toNat < 0x30 := by interval_cases d <;> decide
  have hhigh : 0x30 ≤ (digitChar d').toNat := by interval_cases d' <;> decide
  intro he
  rw [he] at hlow
  omega

lemma signedChar_ne_zero (hd : d < 36) : signedChar neg d ≠ 0 := by
  cases neg <;> interval_cases d <;> decide

/-- The digits of a number are read from the last one of the list on. -/
lemma foldl_digits {value : BitVec 8 → ℕ} {char : ℕ → BitVec 8} (L : List ℕ)
    (h : ∀ d ∈ L, value (char d) = d) :
    (L.map char).reverse.foldl (fun v c => v * b + value c) 0 = Nat.ofDigits b L := by
  rw [List.foldl_reverse]
  induction L with
  | nil => rfl
  | cons d L ih =>
    rw [List.map_cons, List.foldr_cons, ih fun d hd => h d (List.mem_cons_of_mem _ hd),
      h d List.mem_cons_self, Nat.ofDigits_cons]
    simp [mul_comm, add_comm]

lemma readNumeral_reverse (L : List ℕ) (h : ∀ d ∈ L, d < 36) :
    readNumeral b ((L.map (signedChar false)).reverse) = Nat.ofDigits b L :=
  foldl_digits L fun d hd => by rw [signedChar_false (h d hd), digitValue_digitChar (h d hd)]

/-- The first digit of a number other than 0. -/
lemma head_digitsText (hb : 1 < b) (hn : n ≠ 0) : ∃ d k, d ≠ 0 ∧ d < b ∧
    digitsText neg b n = signedChar neg d :: k := by
  have hne : Nat.digits b n ≠ [] := Nat.digits_ne_nil_iff_ne_zero.mpr hn
  refine ⟨(Nat.digits b n).getLast hne, ((Nat.digits b n).dropLast.map (signedChar neg)).reverse,
    Nat.getLast_digit_ne_zero b hn, Nat.digits_lt_base hb (List.getLast_mem hne), ?_⟩
  rw [digitsText]
  conv_lhs => rw [← List.dropLast_append_getLast hne]
  simp

lemma numeral_digitsText (hb : 1 < b) (hb' : b ≤ 36) (hn : n ≠ 0) :
    Numeral b n (digitsText false b n) where
  nonempty := by
    obtain ⟨d, k, -, -, he⟩ := @head_digitsText b n false hb hn
    rw [he]
    exact List.cons_ne_nil _ _
  digits c hc := by
    obtain ⟨d, hd, rfl⟩ := List.mem_map.mp (List.mem_reverse.mp hc)
    have hlt := Nat.digits_lt_base hb hd
    exact ⟨d, hlt, signedChar_false (by omega)⟩
  noLeadingZero h := by
    obtain ⟨d, k, hd, hlt, he⟩ := @head_digitsText b n false hb hn
    rw [he, List.head?_cons, Option.some_inj, signedChar_false (by omega)] at h
    exact absurd ((digitChar_eq_zero (by omega)).mp h) hd
  value := by
    rw [digitsText, readNumeral_reverse _ fun d hd => ?_, Nat.ofDigits_digits]
    have hlt := Nat.digits_lt_base hb hd
    omega

lemma not_numeral_digitsText {v : ℕ} (hb : 1 < b) (hb' : b ≤ 36) (hn : n ≠ 0) :
    ¬ Numeral b v (digitsText true b n) := by
  intro h
  obtain ⟨d, k, hd, hlt, he⟩ := @head_digitsText b n true hb hn
  obtain ⟨d', hd', heq⟩ := h.digits (signedChar true d) (he ▸ List.mem_cons_self)
  exact signedChar_true_ne (by omega) (by omega) d' (by omega) heq

lemma numeral_zero (hb : 1 < b) : Numeral b 0 [0x30] where
  nonempty := List.cons_ne_nil _ _
  digits c hc := ⟨0, by omega, List.mem_singleton.mp hc⟩
  noLeadingZero _ := rfl
  value := by simp [readNumeral, digitValue]

end Numerals

section Loops

variable {m m' : Mem} {num str : Word} {base : BitVec 8} {n i j rounds : ℕ} {neg : Bool}

/-- `num` is `n`, or `-n`. -/
def SignedNat (neg : Bool) (n : ℕ) (num : Word) : Prop :=
  num.toInt = if neg then -(n : ℤ) else n

lemma SignedNat.remChar_srem (h : SignedNat neg n num) (base : BitVec 8) :
    remChar (num.srem (base.setWidth 32)) = signedChar neg (n % base.toNat) := by
  have hrem : (num.srem (base.setWidth 32)).toInt =
      if neg then -((n % base.toNat : ℕ) : ℤ) else (n % base.toNat : ℕ) := by
    rw [BitVec.toInt_srem, h, toInt_promote_unsigned]
    cases neg with
    | true => exact Int.neg_tmod _ _
    | false => rfl
  rw [signedChar, ← hrem, BitVec.ofInt_toInt]

/-- No quotient overflows, since the base is positive. -/
lemma SignedNat.sdiv (h : SignedNat neg n num) (base : BitVec 8) :
    SignedNat neg (n / base.toNat) (num.sdiv (base.setWidth 32)) := by
  have hne : base.setWidth 32 ≠ -1#32 := by
    intro he
    have hnat := congrArg BitVec.toNat he
    have hlt := base.isLt
    rw [BitVec.toNat_setWidth] at hnat
    change _ = 4294967295 at hnat
    omega
  unfold SignedNat
  rw [BitVec.toInt_sdiv_of_ne_or_ne _ _ (.inr hne), h, toInt_promote_unsigned]
  cases neg with
  | true => exact Int.neg_tdiv _ _
  | false => rfl

lemma SignedNat.eq_zero_iff (h : SignedNat neg n num) : num = 0 ↔ n = 0 := by
  rw [← BitVec.toInt_inj, h]
  change _ = (0 : ℤ) ↔ _
  cases neg <;> simp

/-- By induction on the rounds, one for each digit. -/
lemma runs_digitLoop (hb : 1 < base.toNat) (h : SignedNat neg n num)
    (hlen : i + (Nat.digits base.toNat n).length < 2 ^ 32)
    (hrounds : (Nat.digits base.toNat n).length < rounds) (m : Mem) : ∃ tr m',
    (digitLoop str base rounds num i).Runs m tr m' (i + (Nat.digits base.toNat n).length) ∧
      Written m m' (str + BitVec.ofNat 32 i)
        ((Nat.digits base.toNat n).map (signedChar neg)) := by
  induction rounds generalizing num n i m with
  | zero => omega
  | succ rounds ih =>
    rw [digitLoop]
    by_cases hn : n = 0
    · subst hn
      rw [Nat.digits_zero, if_neg (not_not.mpr (h.eq_zero_iff.mpr rfl))]
      exact ⟨[], m, Runs.ret _ m, .nil m _⟩
    · have hbase : base ≠ 0 := by
        rintro rfl
        exact absurd hb (by decide)
      rw [Nat.digits_def' hb (Nat.pos_of_ne_zero hn)] at hlen hrounds ⊢
      rw [List.length_cons] at hlen hrounds
      rw [if_pos (mt h.eq_zero_iff.mp hn), if_neg hbase, h.remChar_srem]
      obtain ⟨tr, m', hrun, hwritten⟩ := @ih (num.sdiv (base.setWidth 32)) (n / base.toNat) (i + 1)
        (h.sdiv base) (by omega) (by omega)
        (Function.update m (str + BitVec.ofNat 32 i) (signedChar neg (n % base.toNat)))
      refine ⟨.store (str + BitVec.ofNat 32 i) :: tr, m', runs_putByte_bind ?_, ?_⟩
      · rw [List.length_cons, ← Nat.add_assoc, Nat.add_right_comm]
        exact hrun
      · rw [List.map_cons]
        apply Written.cons
        · rw [BitVec.add_assoc]
          rwa [BitVec.ofNat_add, ← BitVec.add_assoc, BitVec.add_assoc] at hwritten
        · rw [List.length_map]
          omega

lemma add_ofNat_injOn {a : Word} {j k : ℕ} (hj : j < 2 ^ 32) (hk : k < 2 ^ 32)
    (h : a + BitVec.ofNat 32 j = a + BitVec.ofNat 32 k) : j = k := by
  have hnat := congrArg BitVec.toNat (add_left_cancel h)
  rw [BitVec.toNat_ofNat, BitVec.toNat_ofNat] at hnat
  omega

/-- The places that the rounds from `j` on exchange. -/
def Between (i j k : ℕ) : Prop := j ≤ k ∧ k + j < i

/-- By induction on the rounds; the text between `j` and its mirror image is turned round. -/
lemma runs_reverseLoop (hi : i < 2 ^ 32) (hrounds : i / 2 - j < rounds) (m : Mem) : ∃ tr m',
    (reverseLoop str i rounds j).Runs m tr m' () ∧
      (∀ k, Between i j k →
        m' (str + BitVec.ofNat 32 k) = m (str + BitVec.ofNat 32 (i - 1 - k))) ∧
      ∀ x, (∀ k, Between i j k → x ≠ str + BitVec.ofNat 32 k) → m' x = m x := by
  induction rounds generalizing j m with
  | zero => omega
  | succ rounds ih =>
    rw [reverseLoop]
    by_cases hj : j < i / 2
    · set low := str + BitVec.ofNat 32 j
      set high := str + BitVec.ofNat 32 (i - j - 1) with hhigh
      set m1 := Function.update (Function.update m low (m high)) high (m low) with hm1
      have hne : low ≠ high := fun he => by
        have hjk := add_ofNat_injOn (by omega) (by omega) he
        omega
      have hlow1 : m1 low = m high := by rw [hm1, Function.update_of_ne hne, Function.update_self]
      have hhigh1 : m1 high = m low := Function.update_self _ _ _
      have hother : ∀ x, x ≠ low → x ≠ high → m1 x = m x := fun x hl hh => by
        rw [hm1, Function.update_of_ne hh, Function.update_of_ne hl]
      obtain ⟨tr, m', hrun, hmoved, hkept⟩ := @ih (j + 1) (by omega) m1
      have hinner : ∀ {k}, Between i (j + 1) k → Between i j k := fun hk => by
        unfold Between at *
        omega
      -- the two places of this round are left alone by the next ones
      have hpair : ∀ k, k = j ∨ k = i - j - 1 →
          m' (str + BitVec.ofNat 32 k) = m1 (str + BitVec.ofNat 32 k) := by
        intro k hk
        apply hkept
        intro k' hk' he
        unfold Between at hk'
        have hkk := add_ofNat_injOn (by omega) (by omega) he
        omega
      rw [if_pos hj]
      refine ⟨_ :: _ :: _ :: _ :: tr, m', runs_getByte_bind (runs_getByte_bind
        (runs_putByte_bind (runs_putByte_bind hrun))), fun k hk => ?_, fun x hx => ?_⟩
      · by_cases hk' : Between i (j + 1) k
        · unfold Between at hk'
          rw [hmoved k hk', hother]
          · intro he
            have hkk := add_ofNat_injOn (by omega) (by omega) he
            omega
          · intro he
            have hkk := add_ofNat_injOn (by omega) (by omega) he
            omega
        · have hends : k = j ∨ k = i - j - 1 := by
            unfold Between at hk hk'
            omega
          rw [hpair k hends]
          rcases hends with rfl | rfl
          · rw [Nat.sub_right_comm]
            exact hlow1
          · rw [show i - 1 - (i - j - 1) = j by omega]
            exact hhigh1
      · rw [hkept x fun k hk => hx k (hinner hk)]
        apply hother
        · exact hx j (by unfold Between; omega)
        · exact hx (i - j - 1) (by unfold Between; omega)
    · rw [if_neg hj]
      refine ⟨[], m, Runs.ret _ m, fun k hk => ?_, fun x _ => rfl⟩
      unfold Between at hk
      rw [show i - 1 - k = k by omega]

end Loops

section Texts

variable {m m1 : Mem} {num str : Word} {base : BitVec 8} {n rounds : ℕ} {neg isNeg : Bool}
  {l : List (BitVec 8)}

def signText (isNeg : Bool) : List (BitVec 8) := if isNeg then [0x2d] else []

lemma runs_putSign (h : Written m m1 str l) (hlen : l.length < 2 ^ 32) : ∃ tr m2,
    (putSign isNeg str l.length).Runs m1 tr m2 (l ++ signText isNeg).length ∧
      Written m m2 str (l ++ signText isNeg) := by
  cases isNeg with
  | true =>
    have hlast : (l ++ signText true).length = l.length + 1 := List.length_append
    rw [hlast]
    exact ⟨_, _, runs_putByte_bind (Runs.ret _ _), h.concat hlen⟩
  | false =>
    rw [signText, if_neg Bool.false_ne_true, List.append_nil]
    exact ⟨[], m1, Runs.ret _ _, h⟩

/-- The end of the text, and the reversal. -/
lemma runs_finish (h : Written m m1 str l) (hlen : l.length < 2 ^ 32) (hnonzero : 0 ∉ l)
    (hrounds : l.length < rounds) : ∃ tr m',
    (putByte (str + BitVec.ofNat 32 l.length) 0 >>= fun _ =>
      reverseLoop str l.length rounds 0).Runs m1 tr m' () ∧ Chars m' str l.reverse := by
  set m2 := Function.update m1 (str + BitVec.ofNat 32 l.length) 0
  obtain ⟨tr, m', hrun, hmoved, hkept⟩ :=
    @runs_reverseLoop str l.length 0 rounds hlen (by omega) m2
  refine ⟨_, m', runs_putByte_bind hrun, .of_bytes (fun i hi => ?_) ?_ ?_⟩
  · rw [List.length_reverse] at hi
    rw [hmoved i ⟨Nat.zero_le i, hi⟩, List.getElem_reverse]
    have hne : str + BitVec.ofNat 32 (l.length - 1 - i) ≠ str + BitVec.ofNat 32 l.length := by
      intro he
      have hii := add_ofNat_injOn (by omega) (by omega) he
      omega
    exact (Function.update_of_ne hne _ _).trans (h.bytes _ (by omega))
  · rwa [List.mem_reverse]
  · rw [List.length_reverse, hkept]
    · exact Function.update_self _ _ _
    · intro k hk he
      have hkk := add_ofNat_injOn hlen (lt_trans hk.2 hlen) he
      have hlt := hk.2
      omega

lemma length_digits_le {b : ℕ} (hb : 1 < b) (hn : n < 2 ^ 32) : (Nat.digits b n).length ≤ 32 :=
  (Nat.digits_length_le_iff hb n).mpr (hn.trans_le (Nat.pow_le_pow_left hb 32))

/-- What `itoa` writes for a number other than 0. -/
lemma runs_itoa (hb : 1 < base.toNat) (hb' : base.toNat ≤ 36) (hnum : num ≠ 0)
    (hneg : isNeg = decide (num.toInt < 0 ∧ base = 10))
    (h : SignedNat neg n (if isNeg then -num else num)) (hn : n < 2 ^ 32)
    (hrounds : 33 < rounds) (m : Mem) : ∃ tr m', (itoa rounds num str base).Runs m tr m' () ∧
      Chars m' str (signText isNeg ++ digitsText neg base.toNat n) := by
  have hlen := length_digits_le hb hn
  have hdigits := @runs_digitLoop _ str base n 0 rounds neg hb h (by omega) (by omega) m
  obtain ⟨tr1, m1, hrun1, hwritten1⟩ := hdigits
  set chars := (Nat.digits base.toNat n).map (signedChar neg) with hchars
  have hcharsLen : chars.length = (Nat.digits base.toNat n).length := List.length_map _
  rw [Nat.zero_add, ← hcharsLen] at hrun1
  rw [BitVec.add_zero] at hwritten1
  have hsign : ∃ tr m2, (putSign isNeg str chars.length).Runs m1 tr m2 _ ∧ _ :=
    runs_putSign hwritten1 (by omega)
  obtain ⟨tr2, m2, hrun2, hwritten2⟩ := hsign
  have htextLen : (chars ++ signText isNeg).length ≤ 33 := by
    have hone : (signText isNeg).length ≤ 1 := by cases isNeg <;> decide
    rw [List.length_append]
    omega
  have hnonzero : 0 ∉ chars ++ signText isNeg := by
    intro hmem
    rcases List.mem_append.mp hmem with hmem | hmem
    · obtain ⟨d, hd, he⟩ := List.mem_map.mp hmem
      have hlt := Nat.digits_lt_base hb hd
      exact signedChar_ne_zero (by omega) he
    · revert hmem
      cases isNeg <;> decide
  have hfinish := @runs_finish _ _ str rounds _ hwritten2 (by omega) hnonzero (by omega)
  obtain ⟨tr3, m', hrun3, hresult⟩ := hfinish
  refine ⟨tr1 ++ (tr2 ++ tr3), m', ?_, ?_⟩
  · rw [itoa, if_neg hnum, ← hneg]
    exact hrun1.bind (hrun2.bind hrun3)
  · rw [List.reverse_append] at hresult
    have hrev : (signText isNeg).reverse = signText isNeg := by cases isNeg <;> rfl
    rwa [hrev] at hresult

lemma runs_itoa_zero (rounds : ℕ) (str : Word) (base : BitVec 8) (m : Mem) : ∃ tr m',
    (itoa rounds 0 str base).Runs m tr m' () ∧ Chars m' str [0x30] := by
  have hne : str ≠ str + 1 := add_ofNat_ne_self Nat.one_pos (by norm_num)
  refine ⟨_, _, runs_putByte_bind (runs_putByte _ _ _), ?_, by decide, ?_⟩
  · rw [Function.update_of_ne hne, Function.update_self]
  · exact Function.update_self _ _ _

end Texts

section Results

variable {m : Mem} {num str : Word} {base : BitVec 8} {rounds : ℕ} {l ds : List (BitVec 8)}

/-- The decimal numeral of `num`, with a minus sign exactly if it is negative. -/
def DecimalText (num : Word) (l : List (BitVec 8)) : Prop :=
  ∃ ds, l = signText (decide (num.toInt < 0)) ++ ds ∧ Numeral 10 num.toInt.natAbs ds

/-- A text read as a decimal numeral with an optional minus sign. -/
def readDecimal (l : List (BitVec 8)) : ℤ :=
  if l.head? = some 0x2d then -(readNumeral 10 l.tail : ℤ) else readNumeral 10 l

/-- What is expected of `itoa` in base 10. -/
def ItoaDecimal (rounds : ℕ) (m : Mem) (num str : Word) : Prop :=
  ∃ tr m' l, (itoa rounds num str 10).Runs m tr m' () ∧ Chars m' str l ∧ DecimalText num l ∧
    readDecimal l = num.toInt

/-- What is expected in the other bases: the numeral of `num` as an unsigned number. -/
def ItoaUnsigned (rounds : ℕ) (m : Mem) (num str : Word) (base : BitVec 8) : Prop :=
  ∃ tr m' l, (itoa rounds num str base).Runs m tr m' () ∧ Chars m' str l ∧
    Numeral base.toNat num.toNat l

lemma Numeral.head_ne_minus {n : ℕ} (h : Numeral 10 n ds) : ds.head? ≠ some 0x2d := by
  intro hhead
  obtain ⟨d, hd, he⟩ := h.digits 0x2d (List.mem_of_mem_head? hhead)
  revert he
  interval_cases d <;> decide

lemma DecimalText.read (h : DecimalText num l) : readDecimal l = num.toInt := by
  obtain ⟨ds, rfl, hnum⟩ := h
  by_cases hneg : num.toInt < 0
  · rw [decide_eq_true hneg]
    change -(readNumeral 10 ds : ℤ) = _
    rw [hnum.value]
    omega
  · rw [decide_eq_false hneg]
    change readDecimal ds = _
    rw [readDecimal, if_neg hnum.head_ne_minus, hnum.value]
    omega

lemma natAbs_toInt_lt (num : Word) : num.toInt.natAbs < 2 ^ 32 := by
  have hlow := BitVec.le_toInt num
  have hhigh := @BitVec.toInt_lt _ num
  omega

lemma natAbs_toInt_ne_zero (h : num ≠ 0) : num.toInt.natAbs ≠ 0 := by
  intro he
  apply h
  rw [← BitVec.toInt_inj]
  exact Int.natAbs_eq_zero.mp he

/-- The end of the range excepted, `itoa` divides a number that is not negative. -/
lemma ItoaDecimal.of_ne (hrounds : 33 < rounds) (m : Mem) (str : Word)
    (hnum : num.toInt ≠ -2 ^ 31) : ItoaDecimal rounds m num str := by
  by_cases hzero : num = 0
  · subst hzero
    obtain ⟨tr, m', hrun, hchars⟩ := runs_itoa_zero rounds str 10 m
    have htext : DecimalText 0 [0x30] := ⟨[0x30], rfl, numeral_zero (by decide)⟩
    exact ⟨tr, m', _, hrun, hchars, htext, htext.read⟩
  · have habs : SignedNat false num.toInt.natAbs
        (if decide (num.toInt < 0 ∧ (10 : BitVec 8) = 10) then -num else num) := by
      unfold SignedNat
      by_cases hneg : num.toInt < 0
      · have hmin : num ≠ BitVec.intMin 32 := fun he => hnum (he ▸ rfl)
        rw [decide_eq_true ⟨hneg, rfl⟩, if_pos rfl, BitVec.toInt_neg_of_ne_intMin hmin,
          if_neg Bool.false_ne_true]
        omega
      · rw [decide_eq_false fun h => hneg h.1, if_neg Bool.false_ne_true,
          if_neg Bool.false_ne_true]
        omega
    have hwrite : ∃ tr m', (itoa rounds num str 10).Runs m tr m' () ∧ _ :=
      runs_itoa (by decide) (by decide) hzero rfl habs (natAbs_toInt_lt num) hrounds m
    obtain ⟨tr, m', hrun, hchars⟩ := hwrite
    have htext : DecimalText num _ :=
      ⟨_, rfl, numeral_digitsText (by decide) (by decide) (natAbs_toInt_ne_zero hzero)⟩
    have hsign : decide (num.toInt < 0 ∧ (10 : BitVec 8) = 10) = decide (num.toInt < 0) := by simp
    rw [hsign] at hchars
    exact ⟨tr, m', _, hrun, hchars, htext, htext.read⟩

/-- The negation of the least number is that number; its remainders are negative. -/
lemma not_itoaDecimal_intMin (hrounds : 33 < rounds) (m : Mem) (str : Word) :
    ¬ ItoaDecimal rounds m (BitVec.intMin 32) str := by
  rintro ⟨tr, m', l, hrun, hchars, ⟨ds, rfl, hnum⟩, -⟩
  have habs : SignedNat true (2 ^ 31) (BitVec.intMin 32) := rfl
  have hwrite : ∃ tr m', (itoa rounds (BitVec.intMin 32) str 10).Runs m tr m' () ∧ _ :=
    runs_itoa (by decide) (by decide) (by decide) rfl habs (by decide) hrounds m
  obtain ⟨tr', m'', hrun', hchars'⟩ := hwrite
  rw [← (hrun.det hrun').1] at hchars'
  have htext : ds = digitsText true 10 (2 ^ 31) :=
    @List.append_cancel_left _ [0x2d] _ _ (hchars.unique hchars')
  exact not_numeral_digitsText (by decide) (by decide) (by decide) (htext ▸ hnum)

/-- In base 10 `itoa` is right for every number but the least one. -/
theorem itoa_decimal_iff (hrounds : 33 < rounds) (m : Mem) (num str : Word) :
    ItoaDecimal rounds m num str ↔ num.toInt ≠ -2 ^ 31 := by
  refine ⟨fun h he => ?_, .of_ne hrounds m str⟩
  obtain rfl : num = BitVec.intMin 32 := BitVec.eq_of_toInt_eq he
  exact not_itoaDecimal_intMin hrounds m str h

theorem itoa_decimal_iff_negative :
    ItoaDecimal 34 (fun _ => 0xff) (-120) 0x1000 ∧ (-120 : Word).toInt ≠ -2 ^ 31 := by
  have hnum : (-120 : Word).toInt ≠ -2 ^ 31 := by decide
  exact ⟨(itoa_decimal_iff (by decide) _ _ _).mpr hnum, hnum⟩

theorem itoa_decimal_least : ¬ ItoaDecimal 34 (fun _ => 0xff) 0x80000000 0x1000 :=
  not_itoaDecimal_intMin (by decide) _ _

lemma no_sign (hten : base ≠ 10) : decide (num.toInt < 0 ∧ base = 10) = false :=
  decide_eq_false fun h => hten h.2

lemma ItoaUnsigned.of_nonneg (hb : 2 ≤ base.toNat) (hb' : base.toNat ≤ 36) (hten : base ≠ 10)
    (hrounds : 33 < rounds) (m : Mem) (str : Word) (hnum : 0 ≤ num.toInt) :
    ItoaUnsigned rounds m num str base := by
  by_cases hzero : num = 0
  · subst hzero
    obtain ⟨tr, m', hrun, hchars⟩ := runs_itoa_zero rounds str base m
    exact ⟨tr, m', _, hrun, hchars, numeral_zero hb⟩
  · have hnat : num.toInt = num.toNat := by
      have hlt := num.isLt
      rw [BitVec.toInt_eq_toNat_cond] at hnum ⊢
      split_ifs at hnum ⊢
      · rfl
      · omega
    have hne : num.toNat ≠ 0 := fun he => hzero (BitVec.eq_of_toNat_eq he)
    obtain ⟨tr, m', hrun, hchars⟩ := @runs_itoa num str base _ rounds false false hb hb' hzero
      (no_sign hten).symm hnat num.isLt hrounds m
    exact ⟨tr, m', _, hrun, hchars, numeral_digitsText hb hb' hne⟩

/-- The division is that of a signed number in the other bases all the same. -/
lemma not_itoaUnsigned (hb : 2 ≤ base.toNat) (hb' : base.toNat ≤ 36) (hten : base ≠ 10)
    (hrounds : 33 < rounds) (m : Mem) (str : Word) (hneg : num.toInt < 0) :
    ¬ ItoaUnsigned rounds m num str base := by
  have hzero : num ≠ 0 := by
    rintro rfl
    exact absurd hneg (by decide)
  have habs : SignedNat true num.toInt.natAbs num := by
    unfold SignedNat
    rw [if_pos rfl]
    omega
  obtain ⟨tr, m', hrun, hchars⟩ := @runs_itoa num str base _ rounds true false hb hb' hzero
    (no_sign hten).symm habs (natAbs_toInt_lt num) hrounds m
  rintro ⟨tr', m'', l, hrun', hchars', hnum⟩
  rw [← (hrun.det hrun').1] at hchars'
  have htext : l = digitsText true base.toNat num.toInt.natAbs := hchars'.unique hchars
  exact not_numeral_digitsText hb hb' (natAbs_toInt_ne_zero hzero) (htext ▸ hnum)

/-- In a base other than 10 `itoa` is right exactly for the numbers that are not negative. -/
theorem itoa_unsigned_iff (hb : 2 ≤ base.toNat) (hb' : base.toNat ≤ 36) (hten : base ≠ 10)
    (hrounds : 33 < rounds) (m : Mem) (num str : Word) :
    ItoaUnsigned rounds m num str base ↔ 0 ≤ num.toInt := by
  constructor
  · intro h
    by_contra hneg
    exact not_itoaUnsigned hb hb' hten hrounds m str (not_le.mp hneg) h
  · exact .of_nonneg hb hb' hten hrounds m str

theorem itoa_unsigned_iff_hex :
    ItoaUnsigned 34 (fun _ => 0xff) 0xc0ffee 0x1000 16 ∧ 0 ≤ (0xc0ffee : Word).toInt := by
  have hnum : 0 ≤ (0xc0ffee : Word).toInt := by decide
  exact ⟨(itoa_unsigned_iff (by decide) (by decide) (by decide) (by decide) _ _ _).mpr hnum, hnum⟩

theorem itoa_unsigned_minus_one : ¬ ItoaUnsigned 34 (fun _ => 0xff) 0xffffffff 0x1000 16 :=
  not_itoaUnsigned (by decide) (by decide) (by decide) (by decide) _ _ (by decide)

end Results

end OsI386
