import OsI386.CMemory

/-!
# lib/string.c

`char` is signed here and `uint8_t` is not: a comparison of the two is made on the promoted
values. A pointer is a `Word`, and 0 is `NULL`.
-/
namespace OsI386
open Prog X86 CProg

section Functions

/-- The loop of `memcmp`. -/
def memcmpLoop (s1 s2 size : Word) : ℕ → Word → CProg ℤ
  | 0, _ => .stop .outOfRounds
  | rounds + 1, i =>
    if i < size then do
      let c1 ← getByte (s1 + i)
      let c2 ← getByte (s2 + i)
      if c1.signExtend 32 ≠ c2.signExtend 32 then do
        let c1 ← getByte (s1 + i)
        let c2 ← getByte (s2 + i)
        return if c1.toInt > c2.toInt then 1 else -1
      else memcmpLoop s1 s2 size rounds (i + 1)
    else return 0

def memcmp (rounds : ℕ) (s1 s2 size : Word) : CProg ℤ := do
  assert (s1 ≠ 0 ∧ s2 ≠ 0)
  memcmpLoop s1 s2 size rounds 0

/-- The loop of `strcpy`. -/
def strcpyLoop : ℕ → Word → Word → CProg Unit
  | 0, _, _ => .stop .outOfRounds
  | rounds + 1, dst, src => do
    let c ← getByte src
    if c ≠ 0 then do
      let c ← getByte src
      putByte dst c
      strcpyLoop rounds (dst + 1) (src + 1)
    else return ()

/-- The function ends without a `return`: it has no value. -/
def strcpy (rounds : ℕ) (dst src : Word) : CProg (Option Word) := do
  assert (dst ≠ 0 ∧ src ≠ 0)
  strcpyLoop rounds dst src
  return none

/-- The loop of `strlen`. -/
def strlenLoop : ℕ → Word → CProg Word
  | 0, _ => .stop .outOfRounds
  | rounds + 1, p => do
    let c ← getByte p
    if c ≠ 0 then strlenLoop rounds (p + 1) else return p + 1

def strlen (rounds : ℕ) (str : Word) : CProg Word := do
  assert (str ≠ 0)
  let p ← strlenLoop rounds str
  return p - str - 1

/-- The loop of `strcmp`. -/
def strcmpLoop : ℕ → Word → Word → CProg (Word × Word)
  | 0, _, _ => .stop .outOfRounds
  | rounds + 1, s1, s2 => do
    let c1 ← getByte s1
    if c1 ≠ 0 then do
      let c2 ← getByte s2
      let c1 ← getByte s1
      if c2.signExtend 32 = c1.signExtend 32 then strcmpLoop rounds (s1 + 1) (s2 + 1)
      else return (s1, s2)
    else return (s1, s2)

def strcmp (rounds : ℕ) (s1 s2 : Word) : CProg ℤ := do
  assert (s1 ≠ 0 ∧ s2 ≠ 0)
  let (s1, s2) ← strcmpLoop rounds s1 s2
  let c1 ← getByte s1
  let c2 ← getByte s2
  if c1.toInt < c2.toInt then return -1
  else do
    let c1 ← getByte s1
    let c2 ← getByte s2
    return if c1.toInt > c2.toInt then 1 else 0

/-- `*str == ch`, on the promoted values. -/
def charIs (ch c : BitVec 8) : Prop := c.signExtend 32 = ch.setWidth 32

instance (ch c : BitVec 8) : Decidable (charIs ch c) := inferInstanceAs (Decidable (_ = _))

/-- The loop of `strchr`. -/
def strchrLoop (ch : BitVec 8) : ℕ → Word → CProg Word
  | 0, _ => .stop .outOfRounds
  | rounds + 1, str => do
    let c ← getByte str
    if c ≠ 0 then do
      let c ← getByte str
      if charIs ch c then return str else strchrLoop ch rounds (str + 1)
    else return 0

def strchr (rounds : ℕ) (str : Word) (ch : BitVec 8) : CProg Word := do
  assert (str ≠ 0)
  strchrLoop ch rounds str

/-- The loop of `strrchr`. -/
def strrchrLoop (ch : BitVec 8) : ℕ → Word → Word → CProg Word
  | 0, _, _ => .stop .outOfRounds
  | rounds + 1, str, lastChar => do
    let c ← getByte str
    if c ≠ 0 then do
      let c ← getByte str
      strrchrLoop ch rounds (str + 1) (if charIs ch c then str else lastChar)
    else return lastChar

def strrchr (rounds : ℕ) (str : Word) (ch : BitVec 8) : CProg Word := do
  assert (str ≠ 0)
  strrchrLoop ch rounds str 0

/-- The loop of `strchrs`. -/
def strchrsLoop (ch : BitVec 8) : ℕ → Word → Word → CProg Word
  | 0, _, _ => .stop .outOfRounds
  | rounds + 1, p, chCnt => do
    let c ← getByte p
    if c ≠ 0 then do
      let c ← getByte p
      strchrsLoop ch rounds (p + 1) (if charIs ch c then chCnt + 1 else chCnt)
    else return chCnt

def strchrs (rounds : ℕ) (str : Word) (ch : BitVec 8) : CProg Word := do
  assert (str ≠ 0)
  strchrsLoop ch rounds str 0

end Functions

section Strings

/-- From `a` on there are the bytes of `l`, none of them 0, and then a 0. -/
def Chars (m : Mem) : Word → List (BitVec 8) → Prop
  | a, [] => m a = 0
  | a, c :: l => m a = c ∧ c ≠ 0 ∧ Chars m (a + 1) l

/-- A string is an object: it is not at `NULL` and does not run over the end of memory. -/
structure CString (m : Mem) (a : Word) (l : List (BitVec 8)) : Prop where
  start : a ≠ 0
  fits : a.toNat + l.length < 2 ^ 32
  chars : Chars m a l

/-- The function returns `r` and leaves memory alone. -/
def Returns {α : Type} (p : CProg α) (m : Mem) (r : α) : Prop := ∃ tr, p.Runs m tr m r

variable {α β : Type} {m m' : Mem} {a b s : Word} {l l' : List (BitVec 8)} {c ch : BitVec 8}
  {rounds : ℕ}

lemma Returns.ret (r : α) (m : Mem) : Returns (.ret r) m r := ⟨[], Runs.ret r m⟩

lemma Returns.bind {p : CProg α} {k : α → CProg β} {r : α} {r' : β} (h : Returns p m r)
    (hk : Returns (k r) m r') : Returns (p >>= k) m r' := by
  obtain ⟨tr, hrun⟩ := h
  obtain ⟨tr', hrun'⟩ := hk
  exact ⟨tr ++ tr', hrun.bind hrun'⟩

lemma Returns.det {p : CProg α} {r r' : α} (h : Returns p m r) (h' : Returns p m r') : r = r' := by
  obtain ⟨tr, hrun⟩ := h
  obtain ⟨tr', hrun'⟩ := h'
  exact (hrun.det hrun').2

lemma Returns.getByte_bind {k : BitVec 8 → CProg α} {r : α} (h : Returns (k (m a)) m r) :
    Returns (getByte a >>= k) m r := Returns.bind ⟨_, runs_getByte m a⟩ h

lemma Returns.assert_bind {cond : Prop} [Decidable cond] {k : Unit → CProg α} {r : α} (hc : cond)
    (h : Returns (k ()) m r) : Returns (assert cond >>= k) m r :=
  Returns.bind ⟨_, runs_assert hc⟩ h

lemma add_ofNat_succ (a : Word) (i : ℕ) :
    a + BitVec.ofNat 32 (i + 1) = a + 1 + BitVec.ofNat 32 i := by
  rw [BitVec.ofNat_add, BitVec.add_comm (BitVec.ofNat 32 i), ← BitVec.add_assoc]
  rfl

/-- The string depends on its own bytes only. -/
lemma Chars.congr (h : Chars m a l)
    (heq : ∀ i ≤ l.length, m' (a + BitVec.ofNat 32 i) = m (a + BitVec.ofNat 32 i)) :
    Chars m' a l := by
  induction l generalizing a with
  | nil =>
    have hzero := heq 0 le_rfl
    rw [BitVec.add_zero] at hzero
    exact hzero.trans h
  | cons c l ih =>
    have hzero := heq 0 (Nat.zero_le _)
    rw [BitVec.add_zero] at hzero
    refine ⟨hzero.trans h.1, h.2.1, ih h.2.2 fun i hi => ?_⟩
    have hnext := heq (i + 1) (Nat.succ_le_succ hi)
    rwa [add_ofNat_succ] at hnext

/-- There is only one string at an address. -/
lemma Chars.unique (h : Chars m a l) (h' : Chars m a l') : l = l' := by
  induction l generalizing a l' with
  | nil =>
    cases l' with
    | nil => rfl
    | cons c' l' => exact absurd (h'.1.symm.trans h) h'.2.1
  | cons c l ih =>
    cases l' with
    | nil => exact absurd (h.1.symm.trans h') h.2.1
    | cons c' l' => rw [← h.1, ← h'.1, ih h.2.2 h'.2.2]

lemma CString.length_lt (h : CString m a l) : l.length + 1 < 2 ^ 32 := by
  have hstart : a.toNat ≠ 0 := fun he => h.start (BitVec.eq_of_toNat_eq he)
  have hfits := h.fits
  omega

/-- No character of a string is at `NULL`. -/
lemma CString.add_ne_zero (h : CString m a l) {i : ℕ} (hi : i < l.length) :
    a + BitVec.ofNat 32 i ≠ 0 := by
  intro he
  have hstart : a.toNat ≠ 0 := fun he => h.start (BitVec.eq_of_toNat_eq he)
  have hfits := h.fits
  have hnat := congrArg BitVec.toNat he
  rw [BitVec.toNat_add, BitVec.toNat_ofNat] at hnat
  change _ = 0 at hnat
  omega

end Strings

section Lengths

variable {m : Mem} {a s : Word} {l : List (BitVec 8)} {rounds : ℕ}

/-- By induction on the string; `p` ends behind the terminator. -/
lemma returns_strlenLoop (h : Chars m a l) (hrounds : l.length < rounds) :
    Returns (strlenLoop rounds a) m (a + BitVec.ofNat 32 l.length + 1) := by
  induction l generalizing a rounds with
  | nil =>
    obtain ⟨rounds, rfl⟩ := Nat.exists_eq_add_one_of_ne_zero (Nat.ne_zero_of_lt hrounds)
    have hzero : m a = 0 := h
    rw [strlenLoop]
    apply Returns.getByte_bind
    rw [if_neg (not_not.mpr hzero), List.length_nil, BitVec.add_zero]
    exact Returns.ret _ m
  | cons c l ih =>
    obtain ⟨rounds, rfl⟩ := Nat.exists_eq_add_one_of_ne_zero (Nat.ne_zero_of_lt hrounds)
    rw [strlenLoop]
    apply Returns.getByte_bind
    rw [h.1, if_pos h.2.1, List.length_cons, add_ofNat_succ]
    exact ih h.2.2 (Nat.lt_of_succ_lt_succ hrounds)

lemma returns_strlen (h : CString m s l) (hrounds : l.length < rounds) :
    Returns (strlen rounds s) m (BitVec.ofNat 32 l.length) := by
  apply Returns.assert_bind h.start
  apply (returns_strlenLoop h.chars hrounds).bind
  rw [BitVec.add_assoc, BitVec.add_comm s, BitVec.add_sub_cancel, BitVec.add_sub_cancel]
  exact Returns.ret _ m

end Lengths

section Searches

variable {m : Mem} {a s lastChar chCnt : Word} {l : List (BitVec 8)} {c ch : BitVec 8}
  {rounds i : ℕ}

/-- The indices of `ch` in `l`. -/
def places (ch : BitVec 8) (l : List (BitVec 8)) : Set ℕ := {i | l[i]? = some ch}

/-- The indices at which the comparison with `ch` holds. -/
def hits (ch : BitVec 8) (l : List (BitVec 8)) : Set ℕ := {i | ∃ c, l[i]? = some c ∧ charIs ch c}

lemma hits_nil (ch : BitVec 8) : hits ch [] = ∅ := by
  ext i
  simp [hits]

lemma zero_mem_hits : 0 ∈ hits ch (c :: l) ↔ charIs ch c := by simp [hits]

lemma succ_mem_hits : i + 1 ∈ hits ch (c :: l) ↔ i ∈ hits ch l := by simp [hits]

lemma isLeast_hits_cons (h : IsLeast (hits ch (c :: l)) i) (hc : ¬ charIs ch c) :
    ∃ j, i = j + 1 ∧ IsLeast (hits ch l) j := by
  cases i with
  | zero => exact absurd (zero_mem_hits.mp h.1) hc
  | succ j =>
    refine ⟨j, rfl, succ_mem_hits.mp h.1, fun k hk => ?_⟩
    exact Nat.le_of_succ_le_succ (h.2 (succ_mem_hits.mpr hk))

/-- By induction on the string. -/
lemma returns_strchrLoop (h : Chars m a l) (hrounds : l.length < rounds) :
    ∃ r, Returns (strchrLoop ch rounds a) m r ∧
      (∀ i, IsLeast (hits ch l) i → r = a + BitVec.ofNat 32 i) ∧ (hits ch l = ∅ → r = 0) := by
  induction l generalizing a rounds with
  | nil =>
    obtain ⟨rounds, rfl⟩ := Nat.exists_eq_add_one_of_ne_zero (Nat.ne_zero_of_lt hrounds)
    have hzero : m a = 0 := h
    refine ⟨0, ?_, fun i hi => ?_, fun _ => rfl⟩
    · rw [strchrLoop]
      apply Returns.getByte_bind
      rw [if_neg (not_not.mpr hzero)]
      exact Returns.ret _ m
    · rw [hits_nil] at hi
      exact absurd hi.1 (Set.notMem_empty i)
  | cons c l ih =>
    obtain ⟨rounds, rfl⟩ := Nat.exists_eq_add_one_of_ne_zero (Nat.ne_zero_of_lt hrounds)
    have hloop : ∀ r, Returns (if charIs ch c then return a else strchrLoop ch rounds (a + 1)) m r →
        Returns (strchrLoop ch (rounds + 1) a) m r := by
      intro r hr
      rw [strchrLoop]
      apply Returns.getByte_bind
      rw [h.1, if_pos h.2.1]
      apply Returns.getByte_bind
      rwa [h.1]
    by_cases hc : charIs ch c
    · refine ⟨a, hloop a ?_, fun i hi => ?_, fun hnone => ?_⟩
      · rw [if_pos hc]
        exact Returns.ret a m
      · have hi0 : i = 0 := Nat.le_zero.mp (hi.2 (zero_mem_hits.mpr hc))
        rw [hi0, BitVec.add_zero]
      · have hmem : 0 ∈ hits ch (c :: l) := zero_mem_hits.mpr hc
        rw [hnone] at hmem
        exact absurd hmem (Set.notMem_empty 0)
    · obtain ⟨r, hr, hfirst, hnone⟩ := ih h.2.2 (Nat.lt_of_succ_lt_succ hrounds)
      refine ⟨r, hloop r (by rwa [if_neg hc]), fun i hi => ?_, fun he => hnone ?_⟩
      · obtain ⟨j, rfl, hj⟩ := isLeast_hits_cons hi hc
        rw [hfirst j hj, add_ofNat_succ]
      · refine Set.eq_empty_of_forall_notMem fun j hj => ?_
        have hmem : j + 1 ∈ hits ch (c :: l) := succ_mem_hits.mpr hj
        rw [he] at hmem
        exact Set.notMem_empty _ hmem

lemma isGreatest_hits_cons (h : IsGreatest (hits ch (c :: l)) i) :
    (i = 0 ∧ hits ch l = ∅ ∧ charIs ch c) ∨ ∃ j, i = j + 1 ∧ IsGreatest (hits ch l) j := by
  cases i with
  | zero =>
    refine .inl ⟨rfl, Set.eq_empty_of_forall_notMem fun j hj => ?_, zero_mem_hits.mp h.1⟩
    exact Nat.not_succ_le_zero j (h.2 (succ_mem_hits.mpr hj))
  | succ j =>
    refine .inr ⟨j, rfl, succ_mem_hits.mp h.1, fun k hk => ?_⟩
    exact Nat.le_of_succ_le_succ (h.2 (succ_mem_hits.mpr hk))

lemma hits_cons_eq_empty (h : hits ch (c :: l) = ∅) : ¬ charIs ch c ∧ hits ch l = ∅ := by
  have hnone : ∀ j, j ∉ hits ch (c :: l) := Set.eq_empty_iff_forall_notMem.mp h
  refine ⟨mt zero_mem_hits.mpr (hnone 0), Set.eq_empty_of_forall_notMem fun j => ?_⟩
  exact mt succ_mem_hits.mpr (hnone (j + 1))

/-- By induction on the string; the loop keeps the last hit so far. -/
lemma returns_strrchrLoop (h : Chars m a l) (hrounds : l.length < rounds) :
    ∃ r, Returns (strrchrLoop ch rounds a lastChar) m r ∧
      (∀ i, IsGreatest (hits ch l) i → r = a + BitVec.ofNat 32 i) ∧
      (hits ch l = ∅ → r = lastChar) := by
  induction l generalizing a lastChar rounds with
  | nil =>
    obtain ⟨rounds, rfl⟩ := Nat.exists_eq_add_one_of_ne_zero (Nat.ne_zero_of_lt hrounds)
    have hzero : m a = 0 := h
    refine ⟨lastChar, ?_, fun i hi => ?_, fun _ => rfl⟩
    · rw [strrchrLoop]
      apply Returns.getByte_bind
      rw [if_neg (not_not.mpr hzero)]
      exact Returns.ret _ m
    · rw [hits_nil] at hi
      exact absurd hi.1 (Set.notMem_empty i)
  | cons c l ih =>
    obtain ⟨rounds, rfl⟩ := Nat.exists_eq_add_one_of_ne_zero (Nat.ne_zero_of_lt hrounds)
    obtain ⟨r, hr, hlast, hnone⟩ :=
      @ih (a + 1) (if charIs ch c then a else lastChar) _ h.2.2 (Nat.lt_of_succ_lt_succ hrounds)
    refine ⟨r, ?_, fun i hi => ?_, fun he => ?_⟩
    · rw [strrchrLoop]
      apply Returns.getByte_bind
      rw [h.1, if_pos h.2.1]
      apply Returns.getByte_bind
      rwa [h.1]
    · rcases isGreatest_hits_cons hi with ⟨rfl, he, hc⟩ | ⟨j, rfl, hj⟩
      · rw [hnone he, if_pos hc, BitVec.add_zero]
      · rw [hlast j hj, add_ofNat_succ]
    · obtain ⟨hc, he⟩ := hits_cons_eq_empty he
      rw [hnone he, if_neg hc]

/-- By induction on the string; the loop counts the hits. -/
lemma returns_strchrsLoop (h : Chars m a l) (hrounds : l.length < rounds) :
    Returns (strchrsLoop ch rounds a chCnt) m
      (chCnt + BitVec.ofNat 32 (l.countP fun c => charIs ch c)) := by
  induction l generalizing a chCnt rounds with
  | nil =>
    obtain ⟨rounds, rfl⟩ := Nat.exists_eq_add_one_of_ne_zero (Nat.ne_zero_of_lt hrounds)
    have hzero : m a = 0 := h
    rw [strchrsLoop]
    apply Returns.getByte_bind
    rw [if_neg (not_not.mpr hzero), List.countP_nil, BitVec.add_zero]
    exact Returns.ret _ m
  | cons c l ih =>
    obtain ⟨rounds, rfl⟩ := Nat.exists_eq_add_one_of_ne_zero (Nat.ne_zero_of_lt hrounds)
    rw [strchrsLoop]
    apply Returns.getByte_bind
    rw [h.1, if_pos h.2.1]
    apply Returns.getByte_bind
    rw [h.1, List.countP_cons]
    have hrest := @ih (a + 1) (if charIs ch c then chCnt + 1 else chCnt) _ h.2.2
      (Nat.lt_of_succ_lt_succ hrounds)
    by_cases hc : charIs ch c
    · rw [if_pos hc] at hrest ⊢
      rw [if_pos (decide_eq_true hc), add_ofNat_succ]
      exact hrest
    · rw [if_neg hc] at hrest ⊢
      rw [if_neg (by simpa using hc)]
      exact hrest

lemma toInt_promote (c : BitVec 8) : (c.signExtend 32).toInt = c.toInt :=
  BitVec.toInt_signExtend_of_le (by decide)

lemma toInt_promote_unsigned (c : BitVec 8) : (c.setWidth 32).toInt = c.toNat := by
  have hlt := c.isLt
  rw [BitVec.toInt_eq_toNat_of_lt (by rw [BitVec.toNat_setWidth]; omega), BitVec.toNat_setWidth]
  omega

/-- `ch` is promoted without its sign: only below 128 can it be equal to a `char`. -/
lemma charIs_iff : charIs ch c ↔ ch.toNat < 128 ∧ c = ch := by
  have hc := c.isLt
  have hch := ch.isLt
  unfold charIs
  rw [← BitVec.toInt_inj, toInt_promote, toInt_promote_unsigned, ← BitVec.toNat_inj,
    BitVec.toInt_eq_toNat_cond]
  split_ifs <;> omega

lemma hits_of_lt (h : ch.toNat < 128) : hits ch l = places ch l := by
  ext i
  simp [hits, places, charIs_iff, h]

lemma hits_of_not_lt (h : ¬ ch.toNat < 128) : hits ch l = ∅ := by
  ext i
  simp [hits, charIs_iff, h]

lemma places_eq_empty : places ch l = ∅ ↔ ch ∉ l := by
  rw [Set.eq_empty_iff_forall_notMem, List.mem_iff_getElem?]
  simp [places]

/-- What is expected of `strchr`, `strrchr` and `strchrs` of one string and one character. -/
def ChrCorrect (rounds : ℕ) (m : Mem) (s : Word) (l : List (BitVec 8)) (ch : BitVec 8) : Prop :=
  ∃ first last n, Returns (strchr rounds s ch) m first ∧ Returns (strrchr rounds s ch) m last ∧
    Returns (strchrs rounds s ch) m n ∧
    (∀ i, IsLeast (places ch l) i → first = s + BitVec.ofNat 32 i) ∧
    (∀ i, IsGreatest (places ch l) i → last = s + BitVec.ofNat 32 i) ∧
    (first = 0 ↔ ch ∉ l) ∧ (last = 0 ↔ ch ∉ l) ∧ n.toNat = l.count ch ∧
    (n = 0 ↔ first = 0 ∧ last = 0)

/-- What the three functions return. -/
lemma returns_searches (h : CString m s l) (hrounds : l.length < rounds) (ch : BitVec 8) :
    ∃ first last, Returns (strchr rounds s ch) m first ∧ Returns (strrchr rounds s ch) m last ∧
      Returns (strchrs rounds s ch) m (BitVec.ofNat 32 (l.countP fun c => charIs ch c)) ∧
      (∀ i, IsLeast (hits ch l) i → first = s + BitVec.ofNat 32 i) ∧
      (∀ i, IsGreatest (hits ch l) i → last = s + BitVec.ofNat 32 i) ∧
      (hits ch l = ∅ → first = 0 ∧ last = 0) := by
  have hchr : ∃ r, Returns (strchrLoop ch rounds s) m r ∧ _ := returns_strchrLoop h.chars hrounds
  have hrchr : ∃ r, Returns (strrchrLoop ch rounds s 0) m r ∧ _ :=
    returns_strrchrLoop h.chars hrounds
  have hcount : Returns (strchrsLoop ch rounds s 0) m _ := returns_strchrsLoop h.chars hrounds
  obtain ⟨first, hfirst, hleast, hnone⟩ := hchr
  obtain ⟨last, hlast, hgreatest, hnone'⟩ := hrchr
  rw [show ∀ x : Word, 0 + x = x from BitVec.zero_add] at hcount
  exact ⟨first, last, .assert_bind h.start hfirst, .assert_bind h.start hlast,
    .assert_bind h.start hcount, hleast, hgreatest, fun he => ⟨hnone he, hnone' he⟩⟩

lemma exists_isGreatest_places (h : ch ∈ l) : ∃ i, IsGreatest (places ch l) i := by
  obtain ⟨i, hi⟩ := List.mem_iff_getElem?.mp h
  have hbound : ∀ j ∈ places ch l, j ≤ l.length := fun j hj =>
    (List.getElem?_eq_some_iff.mp hj).1.le
  exact ⟨_, Nat.sSup_mem ⟨i, hi⟩ ⟨_, hbound⟩, fun j hj => le_csSup ⟨_, hbound⟩ hj⟩

lemma exists_isLeast_places (h : ch ∈ l) : ∃ i, IsLeast (places ch l) i := by
  obtain ⟨i, hi⟩ := List.mem_iff_getElem?.mp h
  exact ⟨_, Nat.sInf_mem ⟨i, hi⟩, fun j hj => Nat.sInf_le hj⟩

/-- A pointer into a string is not `NULL`. -/
lemma CString.place_ne_zero (h : CString m s l) (hi : l[i]? = some ch) :
    s + BitVec.ofNat 32 i ≠ 0 :=
  h.add_ne_zero (List.getElem?_eq_some_iff.mp hi).1

lemma ChrCorrect.of_lt (h : CString m s l) (hrounds : l.length < rounds) (hch : ch.toNat < 128) :
    ChrCorrect rounds m s l ch := by
  obtain ⟨first, last, hf, hl, hn, hleast, hgreatest, hnone⟩ := returns_searches h hrounds ch
  rw [hits_of_lt hch] at hleast hgreatest hnone
  have hcount : (l.countP fun c => charIs ch c) = l.count ch := by
    exact List.countP_congr fun c _ => by simp [charIs_iff, hch]
  have hlt : l.count ch < 2 ^ 32 := by
    have hle := @List.count_le_length _ _ ch l
    have hfits := h.length_lt
    omega
  have hnat : (BitVec.ofNat 32 (l.count ch)).toNat = l.count ch := by
    rw [BitVec.toNat_ofNat, Nat.mod_eq_of_lt hlt]
  have hfirst : first = 0 ↔ ch ∉ l := by
    refine ⟨fun he hmem => ?_, fun hmem => (hnone (places_eq_empty.mpr hmem)).1⟩
    obtain ⟨i, hi⟩ := exists_isLeast_places hmem
    exact h.place_ne_zero hi.1 ((hleast i hi).symm.trans he)
  have hlast : last = 0 ↔ ch ∉ l := by
    refine ⟨fun he hmem => ?_, fun hmem => (hnone (places_eq_empty.mpr hmem)).2⟩
    obtain ⟨i, hi⟩ := exists_isGreatest_places hmem
    exact h.place_ne_zero hi.1 ((hgreatest i hi).symm.trans he)
  rw [hcount] at hn
  refine ⟨first, last, _, hf, hl, hn, hleast, hgreatest, hfirst, hlast, hnat, ?_⟩
  rw [hfirst, hlast, and_self, ← BitVec.toNat_inj, hnat]
  exact List.count_eq_zero

/-- A character from 128 on is never found. -/
lemma returns_searches_negative (h : CString m s l) (hrounds : l.length < rounds)
    (hch : ¬ ch.toNat < 128) : Returns (strchr rounds s ch) m 0 ∧
      Returns (strrchr rounds s ch) m 0 ∧ Returns (strchrs rounds s ch) m 0 := by
  obtain ⟨first, last, hf, hl, hn, -, -, hnone⟩ := returns_searches h hrounds ch
  obtain ⟨rfl, rfl⟩ := hnone (hits_of_not_lt hch)
  have hzero : (l.countP fun c => charIs ch c) = 0 :=
    List.countP_eq_zero.mpr fun c _ => by simp [charIs_iff, hch]
  rw [hzero] at hn
  exact ⟨hf, hl, hn⟩

lemma ChrCorrect.notMem (h : CString m s l) (hrounds : l.length < rounds)
    (hch : ¬ ch.toNat < 128) (hc : ChrCorrect rounds m s l ch) : ch ∉ l := by
  obtain ⟨hf, -, -⟩ := returns_searches_negative h hrounds hch
  obtain ⟨first, -, -, hf', -, -, -, -, hiff, -⟩ := hc
  exact hiff.mp (hf'.det hf)

lemma ChrCorrect.of_notMem (h : CString m s l) (hrounds : l.length < rounds)
    (hch : ¬ ch.toNat < 128) (hmem : ch ∉ l) : ChrCorrect rounds m s l ch := by
  obtain ⟨hf, hl, hn⟩ := returns_searches_negative h hrounds hch
  have hnone : ∀ i, i ∉ places ch l :=
    Set.eq_empty_iff_forall_notMem.mp (places_eq_empty.mpr hmem)
  exact ⟨0, 0, 0, hf, hl, hn, fun i hi => absurd hi.1 (hnone i), fun i hi => absurd hi.1 (hnone i),
    iff_of_true rfl hmem, iff_of_true rfl hmem, (List.count_eq_zero.mpr hmem).symm,
    iff_of_true rfl ⟨rfl, rfl⟩⟩

/-- `strchr`, `strrchr` and `strchrs` are right exactly for the characters that are not negative
and those that the string does not have. -/
theorem chrCorrect_iff (h : CString m s l) (hrounds : l.length < rounds) :
    ChrCorrect rounds m s l ch ↔ ch.toNat < 128 ∨ ch ∉ l := by
  by_cases hch : ch.toNat < 128
  · exact iff_of_true (.of_lt h hrounds hch) (.inl hch)
  · refine ⟨fun hc => .inr (hc.notMem h hrounds hch), fun hor => ?_⟩
    exact .of_notMem h hrounds hch (hor.resolve_left hch)

/-- Memory with the string of the one character 0xe9. -/
def accented : Mem := fun a => if a = 0x1000 then 0xe9 else 0

lemma cString_accented : CString accented 0x1000 [0xe9] where
  start := by decide
  fits := by decide
  chars := ⟨rfl, by decide, rfl⟩

theorem chrCorrect_iff_accented :
    ChrCorrect 2 accented 0x1000 [0xe9] 0x41 ∧
      ((0x41 : BitVec 8).toNat < 128 ∨ 0x41 ∉ [(0xe9 : BitVec 8)]) := by
  have hch : (0x41 : BitVec 8).toNat < 128 ∨ 0x41 ∉ [(0xe9 : BitVec 8)] := .inl (by decide)
  exact ⟨(chrCorrect_iff cString_accented (by decide)).mpr hch, hch⟩

theorem strchr_accented : ¬ ∀ (rounds : ℕ) (m : Mem) (s : Word) (l : List (BitVec 8))
    (ch : BitVec 8), CString m s l → l.length < rounds → ch ≠ 0 → ChrCorrect rounds m s l ch := by
  intro hall
  have hc := hall 2 accented 0x1000 [0xe9] 0xe9 cString_accented (by decide) (by decide)
  exact hc.notMem cString_accented (by decide) (by decide) (List.mem_singleton_self _)

end Searches

section ThreeWay

variable {α : Type} [LinearOrder α] {x y z : α} {k k' : List α}

/-- -1, 0 or 1, as `x` is below, equal to or above `y`. -/
def threeWay (x y : α) : ℤ := if x < y then -1 else if y < x then 1 else 0

lemma threeWay_mem (x y : α) : threeWay x y = -1 ∨ threeWay x y = 0 ∨ threeWay x y = 1 := by
  unfold threeWay
  split_ifs <;> simp

lemma threeWay_of_lt (h : x < y) : threeWay x y = -1 := if_pos h

lemma threeWay_of_gt (h : y < x) : threeWay x y = 1 := by
  rw [threeWay, if_neg (not_lt_of_gt h), if_pos h]

@[simp] lemma threeWay_self (x : α) : threeWay x x = 0 := by
  rw [threeWay, if_neg (lt_irrefl x), if_neg (lt_irrefl x)]

lemma threeWay_eq_zero : threeWay x y = 0 ↔ x = y := by
  rcases lt_trichotomy x y with h | rfl | h
  · rw [threeWay_of_lt h]
    exact iff_of_false (by decide) h.ne
  · exact iff_of_true (threeWay_self x) rfl
  · rw [threeWay_of_gt h]
    exact iff_of_false (by decide) h.ne'

lemma threeWay_swap (x y : α) : threeWay x y = -threeWay y x := by
  rcases lt_trichotomy x y with h | rfl | h
  · rw [threeWay_of_lt h, threeWay_of_gt h]
  · rw [threeWay_self, neg_zero]
  · rw [threeWay_of_gt h, threeWay_of_lt h, neg_neg]

lemma threeWay_nonpos : threeWay x y ≤ 0 ↔ x ≤ y := by
  rcases lt_trichotomy x y with h | rfl | h
  · rw [threeWay_of_lt h]
    exact iff_of_true (by decide) h.le
  · exact iff_of_true (threeWay_self x).le le_rfl
  · rw [threeWay_of_gt h]
    exact iff_of_false (by decide) (not_le_of_gt h)

lemma threeWay_cons_self (x : α) (k k' : List α) :
    threeWay (x :: k) (x :: k') = threeWay k k' := by
  rcases lt_trichotomy k k' with h | rfl | h
  · rw [threeWay_of_lt h, threeWay_of_lt (List.cons_lt_cons_self.mpr h)]
  · rw [threeWay_self, threeWay_self]
  · rw [threeWay_of_gt h, threeWay_of_gt (List.cons_lt_cons_self.mpr h)]

/-- Lists are compared at the first difference. -/
lemma threeWay_cons_of_ne (h : x ≠ y) : threeWay (x :: k) (y :: k') = threeWay x y := by
  rcases lt_or_gt_of_ne h with h | h
  · rw [threeWay_of_lt h, threeWay_of_lt (List.cons_lt_cons_iff.mpr (.inl h))]
  · rw [threeWay_of_gt h, threeWay_of_gt (List.cons_lt_cons_iff.mpr (.inl h))]

end ThreeWay

section Comparisons

variable {m : Mem} {a b c s1 s2 size i : Word} {l l' l1 l2 : List (BitVec 8)} {rounds : ℕ}

/-- The characters of a string, the terminator with them, as signed numbers. -/
def key (l : List (BitVec 8)) : List ℤ := (l ++ [0]).map BitVec.toInt

lemma key_injective : Function.Injective key := by
  intro l l' h
  have hinj : Function.Injective (BitVec.toInt : BitVec 8 → ℤ) := fun x y => BitVec.eq_of_toInt_eq
  exact List.append_cancel_right (List.map_injective_iff.mpr hinj h)

/-- The order of two strings that differ at their first characters. -/
lemma Chars.threeWay_key (h : Chars m a l) (h' : Chars m b l') (hne : m a ≠ m b) :
    threeWay (key l) (key l') = threeWay (m a).toInt (m b).toInt := by
  have hhead : ∀ {a l}, Chars m a l → ∃ k, key l = (m a).toInt :: k := by
    intro a l h
    cases l with
    | nil =>
      have hzero : m a = 0 := h
      exact ⟨[], by rw [hzero]; rfl⟩
    | cons c l => exact ⟨key l, by rw [h.1]; rfl⟩
  obtain ⟨k, hk⟩ := hhead h
  obtain ⟨k', hk'⟩ := hhead h'
  rw [hk, hk']
  exact threeWay_cons_of_ne fun he => hne (BitVec.eq_of_toInt_eq he)

lemma promote_inj {c c' : BitVec 8} : c.signExtend 32 = c'.signExtend 32 ↔ c = c' := by
  rw [← BitVec.toInt_inj, toInt_promote, toInt_promote, BitVec.toInt_inj]

/-- By induction on the first string: the loop stops at the first difference or at the common
end. -/
lemma returns_strcmpLoop (h : Chars m a l) (h' : Chars m b l') (hrounds : l.length < rounds) :
    ∃ p q, Returns (strcmpLoop rounds a b) m (p, q) ∧
      threeWay (m p).toInt (m q).toInt = threeWay (key l) (key l') := by
  induction l generalizing a b l' rounds with
  | nil =>
    obtain ⟨rounds, rfl⟩ := Nat.exists_eq_add_one_of_ne_zero (Nat.ne_zero_of_lt hrounds)
    have hzero : m a = 0 := h
    refine ⟨a, b, ?_, ?_⟩
    · rw [strcmpLoop]
      apply Returns.getByte_bind
      rw [if_neg (not_not.mpr hzero)]
      exact Returns.ret _ m
    · by_cases hne : m a = m b
      · have hnil : l' = [] := Chars.unique h' (hne.symm.trans hzero)
        rw [hne, hnil, threeWay_self, threeWay_self]
      · exact (h.threeWay_key h' hne).symm
  | cons c l ih =>
    obtain ⟨rounds, rfl⟩ := Nat.exists_eq_add_one_of_ne_zero (Nat.ne_zero_of_lt hrounds)
    have hhead : m a ≠ 0 := by
      rw [h.1]
      exact h.2.1
    by_cases hne : m b = m a
    · obtain ⟨c', l', rfl⟩ : ∃ c' k, l' = c' :: k := by
        cases l' with
        | nil => exact absurd (hne.symm.trans h') hhead
        | cons c' k => exact ⟨c', k, rfl⟩
      obtain ⟨p, q, hrun, hpq⟩ := ih h.2.2 h'.2.2 (Nat.lt_of_succ_lt_succ hrounds)
      refine ⟨p, q, ?_, ?_⟩
      · rw [strcmpLoop]
        apply Returns.getByte_bind
        rw [if_pos hhead]
        apply Returns.getByte_bind
        apply Returns.getByte_bind
        rwa [if_pos (promote_inj.mpr hne)]
      · have hc : c = c' := by rw [← h.1, ← h'.1, hne]
        rw [hpq, hc]
        exact (threeWay_cons_self _ _ _).symm
    · refine ⟨a, b, ?_, (h.threeWay_key h' (Ne.symm hne)).symm⟩
      rw [strcmpLoop]
      apply Returns.getByte_bind
      rw [if_pos hhead]
      apply Returns.getByte_bind
      apply Returns.getByte_bind
      rw [if_neg (mt promote_inj.mp hne)]
      exact Returns.ret _ m

/-- `strcmp` compares the strings character by character, as signed numbers. -/
lemma returns_strcmp (h : CString m a l) (h' : CString m b l') (hrounds : l.length < rounds) :
    Returns (strcmp rounds a b) m (threeWay (key l) (key l')) := by
  obtain ⟨p, q, hloop, hpq⟩ := returns_strcmpLoop h.chars h'.chars hrounds
  apply Returns.assert_bind ⟨h.start, h'.start⟩
  apply hloop.bind
  apply Returns.getByte_bind
  apply Returns.getByte_bind
  rw [← hpq]
  by_cases hlt : (m p).toInt < (m q).toInt
  · rw [if_pos hlt, threeWay_of_lt hlt]
    exact Returns.ret _ m
  · rw [if_neg hlt]
    apply Returns.getByte_bind
    apply Returns.getByte_bind
    rw [threeWay, if_neg hlt]
    exact Returns.ret _ m

lemma returns_memcmpLoop_eq {r : ℤ} (hlt : i < size) (he : m (s1 + i) = m (s2 + i))
    (h : Returns (memcmpLoop s1 s2 size rounds (i + 1)) m r) :
    Returns (memcmpLoop s1 s2 size (rounds + 1) i) m r := by
  rw [memcmpLoop, if_pos hlt]
  apply Returns.getByte_bind
  apply Returns.getByte_bind
  rwa [if_neg (not_not.mpr (promote_inj.mpr he))]

lemma returns_memcmpLoop_ne (hlt : i < size) (hne : m (s1 + i) ≠ m (s2 + i)) :
    Returns (memcmpLoop s1 s2 size (rounds + 1) i) m
      (threeWay (m (s1 + i)).toInt (m (s2 + i)).toInt) := by
  rw [memcmpLoop, if_pos hlt]
  apply Returns.getByte_bind
  apply Returns.getByte_bind
  rw [if_pos (mt promote_inj.mp hne)]
  apply Returns.getByte_bind
  apply Returns.getByte_bind
  rcases lt_or_gt_of_ne (mt BitVec.eq_of_toInt_eq hne) with hl | hg
  · rw [threeWay_of_lt hl, if_neg (not_lt_of_gt hl)]
    exact Returns.ret _ m
  · rw [threeWay_of_gt hg, if_pos hg]
    exact Returns.ret _ m

/-- By induction on the first string; the count allows for the shorter string and its
terminator. -/
lemma returns_memcmpLoop (h1 : Chars m (s1 + i) l1) (h2 : Chars m (s2 + i) l2)
    (hsize : size.toNat = i.toNat + min l1.length l2.length + 1)
    (hrounds : l1.length + 1 < rounds) :
    Returns (memcmpLoop s1 s2 size rounds i) m (threeWay (key l1) (key l2)) := by
  have hlt : ∀ {i : Word} {n : ℕ}, size.toNat = i.toNat + n + 1 → i < size := by
    intro i n hn
    rw [BitVec.lt_def]
    omega
  have hsucc : ∀ {i : Word} {n : ℕ}, size.toNat = i.toNat + n + 1 →
      (i + 1).toNat = i.toNat + 1 := fun hn => toNat_succ_of_lt (hlt hn)
  induction l1 generalizing i l2 rounds with
  | nil =>
    obtain ⟨rounds, rfl⟩ := Nat.exists_eq_add_of_lt hrounds
    have hzero : m (s1 + i) = 0 := h1
    by_cases he : m (s1 + i) = m (s2 + i)
    · obtain rfl : l2 = [] := Chars.unique h2 (he.symm.trans hzero)
      have hend : ¬ i + 1 < size := by
        rw [BitVec.lt_def, hsucc hsize, hsize]
        exact lt_irrefl _
      apply returns_memcmpLoop_eq (hlt hsize) he
      rw [threeWay_self, Nat.add_right_comm, memcmpLoop, if_neg hend]
      exact Returns.ret _ m
    · rw [h1.threeWay_key h2 he]
      exact returns_memcmpLoop_ne (hlt hsize) he
  | cons c l1 ih =>
    obtain ⟨rounds, rfl⟩ := Nat.exists_eq_add_one_of_ne_zero (Nat.ne_zero_of_lt hrounds)
    by_cases he : m (s1 + i) = m (s2 + i)
    · cases l2 with
      | nil => exact absurd (h1.1.symm.trans (he.trans h2)) h1.2.1
      | cons c' l2 =>
        obtain rfl : c = c' := by rw [← h1.1, ← h2.1, he]
        have hlen : min (c :: l1).length (c :: l2).length = min l1.length l2.length + 1 :=
          Nat.succ_min_succ _ _
        have hnext := hsucc hsize
        apply returns_memcmpLoop_eq (hlt hsize) he
        have hrest : Returns (memcmpLoop s1 s2 size rounds (i + 1)) m
            (threeWay (key l1) (key l2)) := by
          apply ih
          · rw [← BitVec.add_assoc]
            exact h1.2.2
          · rw [← BitVec.add_assoc]
            exact h2.2.2
          · omega
          · exact Nat.lt_of_succ_lt_succ hrounds
        have hkey : threeWay (key (c :: l1)) (key (c :: l2)) = threeWay (key l1) (key l2) :=
          threeWay_cons_self _ _ _
        rwa [hkey]
    · rw [h1.threeWay_key h2 he]
      exact returns_memcmpLoop_ne (hlt hsize) he

/-- `memcmp` of two strings as far as the shorter one with its terminator. -/
lemma returns_memcmp (h1 : CString m s1 l1) (h2 : CString m s2 l2)
    (hsize : size.toNat = min l1.length l2.length + 1) (hrounds : l1.length + 1 < rounds) :
    Returns (memcmp rounds s1 s2 size) m (threeWay (key l1) (key l2)) := by
  have hchars1 := h1.chars
  have hchars2 := h2.chars
  rw [← BitVec.add_zero s1] at hchars1
  rw [← BitVec.add_zero s2] at hchars2
  apply Returns.assert_bind ⟨h1.start, h2.start⟩
  apply returns_memcmpLoop hchars1 hchars2 _ hrounds
  rw [hsize]
  exact (Nat.zero_add _).symm

/-- `strcmp` is a total order on strings and agrees with `memcmp`. -/
theorem strcmp_total_order {la lb lc : List (BitVec 8)} (ha : CString m a la)
    (hb : CString m b lb) (hc : CString m c lc)
    (hrounds : ∀ l ∈ [la, lb, lc], l.length + 1 < rounds) :
    ∃ (ab ba bc ac ab' : ℤ) (na nb : Word), Returns (strcmp rounds a b) m ab ∧
      Returns (strcmp rounds b a) m ba ∧ Returns (strcmp rounds b c) m bc ∧
      Returns (strcmp rounds a c) m ac ∧ Returns (strlen rounds a) m na ∧
      Returns (strlen rounds b) m nb ∧
      Returns (memcmp rounds a b ((if na < nb then na else nb) + 1)) m ab' ∧
      (ab = -1 ∨ ab = 0 ∨ ab = 1) ∧ (ab = 0 ↔ la = lb) ∧ ab = -ba ∧
      (ab ≤ 0 → bc ≤ 0 → ac ≤ 0) ∧ ab = ab' := by
  have hra := hrounds la (by simp)
  have hrb := hrounds lb (by simp)
  have hla := ha.length_lt
  have hlb := hb.length_lt
  set na : Word := BitVec.ofNat 32 la.length with hna
  set nb : Word := BitVec.ofNat 32 lb.length with hnb
  have hnaNat : na.toNat = la.length := by
    rw [hna, BitVec.toNat_ofNat]
    omega
  have hnbNat : nb.toNat = lb.length := by
    rw [hnb, BitVec.toNat_ofNat]
    omega
  have hsize : ((if na < nb then na else nb) + 1).toNat = min la.length lb.length + 1 := by
    have hone : (1 : Word).toNat = 1 := rfl
    rw [BitVec.toNat_add, hone]
    simp only [BitVec.lt_def, hnaNat, hnbNat]
    split_ifs <;> omega
  refine ⟨_, _, _, _, _, na, nb, returns_strcmp ha hb (by omega), returns_strcmp hb ha (by omega),
    returns_strcmp hb hc (by omega), returns_strcmp ha hc (by omega),
    returns_strlen ha (by omega), returns_strlen hb (by omega), returns_memcmp ha hb hsize hra,
    threeWay_mem _ _, threeWay_eq_zero.trans key_injective.eq_iff, threeWay_swap _ _, ?_, rfl⟩
  simp only [threeWay_nonpos]
  exact le_trans

/-- Memory with "a" and with "a" followed by a character that is negative. -/
def threeStrings : Mem := fun a =>
  if a = 0x1000 ∨ a = 0x1002 then 0x61 else if a = 0x1003 then 0xe9 else 0

theorem strcmp_total_order_three : ∃ (ab ba bc ac ab' : ℤ) (na nb : Word),
    Returns (strcmp 4 0x1000 0x1002) threeStrings ab ∧
    Returns (strcmp 4 0x1002 0x1000) threeStrings ba ∧
    Returns (strcmp 4 0x1002 0x2000) threeStrings bc ∧
    Returns (strcmp 4 0x1000 0x2000) threeStrings ac ∧
    Returns (strlen 4 0x1000) threeStrings na ∧ Returns (strlen 4 0x1002) threeStrings nb ∧
    Returns (memcmp 4 0x1000 0x1002 ((if na < nb then na else nb) + 1)) threeStrings ab' ∧
    (ab = -1 ∨ ab = 0 ∨ ab = 1) ∧ (ab = 0 ↔ [(0x61 : BitVec 8)] = [0x61, 0xe9]) ∧ ab = -ba ∧
    (ab ≤ 0 → bc ≤ 0 → ac ≤ 0) ∧ ab = ab' :=
  @strcmp_total_order _ _ _ _ _ [0x61] [0x61, 0xe9] []
    ⟨by decide, by decide, rfl, by decide, rfl⟩
    ⟨by decide, by decide, rfl, by decide, rfl, by decide, rfl⟩
    ⟨by decide, by decide, rfl⟩ (by decide)

end Comparisons

section Copies

variable {m m' : Mem} {dst src : Word} {l : List (BitVec 8)} {rounds size : ℕ}

/-- The bytes that `strcpy` writes are apart from those that it reads. -/
def WritesApart (dst src : Word) (len : ℕ) : Prop :=
  ∀ i ≤ len, ∀ j < len, src + BitVec.ofNat 32 i ≠ dst + BitVec.ofNat 32 j

/-- Between `m` and `m'` the bytes from `a` on have become those of `l`, and nothing else has
changed. -/
structure Written (m m' : Mem) (a : Word) (l : List (BitVec 8)) : Prop where
  bytes : ∀ i (hi : i < l.length), m' (a + BitVec.ofNat 32 i) = l[i]
  outside : ∀ x, (∀ i < l.length, x ≠ a + BitVec.ofNat 32 i) → m' x = m x

lemma Written.nil (m : Mem) (a : Word) : Written m m a [] :=
  ⟨fun i hi => absurd hi (Nat.not_lt_zero i), fun _ _ => rfl⟩

lemma add_ofNat_ne_self {a : Word} {i : ℕ} (hpos : 0 < i) (hi : i < 2 ^ 32) :
    a ≠ a + BitVec.ofNat 32 i := by
  intro he
  have halt := a.isLt
  have hnat := congrArg BitVec.toNat he
  rw [BitVec.toNat_add, BitVec.toNat_ofNat] at hnat
  omega

/-- One more byte in front. -/
lemma Written.cons {a : Word} {c : BitVec 8} (h : Written (Function.update m a c) m' (a + 1) l)
    (hlen : l.length + 1 < 2 ^ 32) : Written m m' a (c :: l) where
  bytes i hi := by
    cases i with
    | zero =>
      rw [BitVec.add_zero, h.outside a fun i hi => ?_]
      · exact Function.update_self _ _ _
      · rw [← add_ofNat_succ]
        exact add_ofNat_ne_self (Nat.succ_pos i) (lt_of_le_of_lt (Nat.succ_le_succ hi.le) hlen)
    | succ i =>
      rw [add_ofNat_succ]
      exact h.bytes i (Nat.lt_of_succ_lt_succ hi)
  outside x hx := by
    have hne : x ≠ a := by
      intro he
      exact hx 0 (Nat.succ_pos _) (he.trans (BitVec.add_zero a).symm)
    rw [h.outside x fun i hi => ?_]
    · exact Function.update_of_ne hne _ _
    · rw [← add_ofNat_succ]
      exact hx (i + 1) (Nat.succ_lt_succ hi)

/-- One more byte behind. -/
lemma Written.concat {a : Word} {c : BitVec 8} (h : Written m m' a l) (hlen : l.length < 2 ^ 32) :
    Written m (Function.update m' (a + BitVec.ofNat 32 l.length) c) a (l ++ [c]) where
  bytes i hi := by
    rw [List.length_append, List.length_singleton] at hi
    by_cases hlast : i = l.length
    · subst hlast
      rw [Function.update_self, List.getElem_concat_length rfl]
    · have hne : a + BitVec.ofNat 32 i ≠ a + BitVec.ofNat 32 l.length := by
        intro he
        have hnat := congrArg BitVec.toNat (add_left_cancel he)
        rw [BitVec.toNat_ofNat, BitVec.toNat_ofNat] at hnat
        omega
      rw [Function.update_of_ne hne, List.getElem_append_left (by omega)]
      exact h.bytes i (by omega)
  outside x hx := by
    rw [List.length_append, List.length_singleton] at hx
    rw [Function.update_of_ne (hx l.length (Nat.lt_succ_self _))]
    exact h.outside x fun i hi => hx i (Nat.lt_succ_of_lt hi)

/-- By induction on the string. -/
lemma runs_strcpyLoop (h : Chars m src l) (hlen : l.length < 2 ^ 32)
    (hapart : WritesApart dst src l.length) (hrounds : l.length < rounds) :
    ∃ tr m', (strcpyLoop rounds dst src).Runs m tr m' () ∧ Written m m' dst l := by
  induction l generalizing m dst src rounds with
  | nil =>
    obtain ⟨rounds, rfl⟩ := Nat.exists_eq_add_one_of_ne_zero (Nat.ne_zero_of_lt hrounds)
    have hzero : m src = 0 := h
    refine ⟨[.load src], m, ?_, .nil m dst⟩
    rw [strcpyLoop]
    apply runs_getByte_bind
    rw [if_neg (not_not.mpr hzero)]
    exact Runs.ret _ m
  | cons c l ih =>
    obtain ⟨rounds, rfl⟩ := Nat.exists_eq_add_one_of_ne_zero (Nat.ne_zero_of_lt hrounds)
    have hfirst : ∀ i ≤ l.length, src + 1 + BitVec.ofNat 32 i ≠ dst := by
      intro i hi he
      apply hapart (i + 1) (Nat.succ_le_succ hi) 0 (Nat.succ_pos _)
      rw [add_ofNat_succ, he, BitVec.add_zero]
    have hchars : Chars (Function.update m dst c) (src + 1) l :=
      h.2.2.congr fun i hi => Function.update_of_ne (hfirst i hi) _ _
    have hrest : WritesApart (dst + 1) (src + 1) l.length := by
      intro i hi j hj
      rw [← add_ofNat_succ, ← add_ofNat_succ]
      exact hapart (i + 1) (Nat.succ_le_succ hi) (j + 1) (Nat.succ_lt_succ hj)
    obtain ⟨tr, m', hrun, hwritten⟩ :=
      ih hchars (Nat.lt_of_succ_lt hlen) hrest (Nat.lt_of_succ_lt_succ hrounds)
    refine ⟨.load src :: .load src :: .store dst :: tr, m', ?_, hwritten.cons hlen⟩
    rw [strcpyLoop]
    apply runs_getByte_bind
    rw [h.1, if_pos h.2.1]
    apply runs_getByte_bind
    rw [h.1]
    exact runs_putByte_bind hrun

lemma Chars.terminated {a : Word} (h : Chars m a l) : m (a + BitVec.ofNat 32 l.length) = 0 := by
  induction l generalizing a with
  | nil => rwa [List.length_nil, BitVec.add_zero]
  | cons c l ih =>
    rw [List.length_cons, add_ofNat_succ]
    exact ih h.2.2

lemma Chars.zero_notMem {a : Word} (h : Chars m a l) : 0 ∉ l := by
  induction l generalizing a with
  | nil => exact List.not_mem_nil
  | cons c l ih => exact List.not_mem_cons_of_ne_of_not_mem h.2.1.symm (ih h.2.2)

lemma Chars.of_bytes {a : Word} (hbytes : ∀ i (hi : i < l.length), m (a + BitVec.ofNat 32 i) = l[i])
    (hnonzero : 0 ∉ l) (hend : m (a + BitVec.ofNat 32 l.length) = 0) : Chars m a l := by
  induction l generalizing a with
  | nil => rwa [List.length_nil, BitVec.add_zero] at hend
  | cons c l ih =>
    have hfirst := hbytes 0 (Nat.succ_pos _)
    rw [BitVec.add_zero] at hfirst
    refine ⟨hfirst, fun he => hnonzero (he ▸ List.mem_cons_self), ih (fun i hi => ?_) ?_ ?_⟩
    · rw [← add_ofNat_succ]
      exact hbytes (i + 1) (Nat.succ_lt_succ hi)
    · exact fun hmem => hnonzero (List.mem_cons_of_mem _ hmem)
    · rwa [← add_ofNat_succ]

/-- A buffer of `size` bytes at `dst`, large enough for the string `l` at `src` and apart
from it. -/
structure Buffer (dst src : Word) (size : ℕ) (l : List (BitVec 8)) : Prop where
  start : dst ≠ 0
  fits : dst.toNat + size ≤ 2 ^ 32
  large : l.length < size
  apart : src.toNat + l.length < dst.toNat ∨ dst.toNat + size ≤ src.toNat

/-- What is expected of the contents of the buffer after a copy: the string is in it, and the
bytes behind the terminator are as before. -/
structure Copied (rounds : ℕ) (m m' : Mem) (dst src : Word) (size : ℕ) (l : List (BitVec 8)) :
    Prop where
  string : CString m' dst l
  equal : Returns (strcmp rounds dst src) m' 0
  length : ∃ n, Returns (strlen rounds dst) m' n ∧ Returns (strlen rounds src) m' n
  rest : ∀ i, l.length < i → i < size → m' (dst + BitVec.ofNat 32 i) = m (dst + BitVec.ofNat 32 i)

lemma toNat_add_ofNat {a : Word} {i : ℕ} (h : a.toNat + i < 2 ^ 32) :
    (a + BitVec.ofNat 32 i).toNat = a.toNat + i := by
  rw [BitVec.toNat_add, BitVec.toNat_ofNat]
  omega

/-- Bytes of the two objects are different bytes. -/
lemma Buffer.ne (hb : Buffer dst src size l) (h : CString m src l) {i j : ℕ} (hi : i ≤ l.length)
    (hj : j < size) : src + BitVec.ofNat 32 i ≠ dst + BitVec.ofNat 32 j := by
  intro he
  have hfits := hb.fits
  have hsrc := h.fits
  have hapart := hb.apart
  have hnat := congrArg BitVec.toNat he
  rw [toNat_add_ofNat (by omega), toNat_add_ofNat (by omega)] at hnat
  omega

lemma Buffer.ne_self (hb : Buffer dst src size l) {i j : ℕ} (hi : i < size) (hj : j < size)
    (hne : i ≠ j) : dst + BitVec.ofNat 32 i ≠ dst + BitVec.ofNat 32 j := by
  intro he
  have hfits := hb.fits
  have hnat := congrArg BitVec.toNat he
  rw [toNat_add_ofNat (by omega), toNat_add_ofNat (by omega)] at hnat
  omega

/-- `strcpy` copies the characters and nothing else, and has no value. -/
lemma runs_strcpy (h : CString m src l) (hb : Buffer dst src size l) (hrounds : l.length < rounds) :
    ∃ tr m', (strcpy rounds dst src).Runs m tr m' none ∧ CString m' src l ∧
      (∀ i (hi : i < l.length), m' (dst + BitVec.ofNat 32 i) = l[i]) ∧
      ∀ i, l.length ≤ i → i < size →
        m' (dst + BitVec.ofNat 32 i) = m (dst + BitVec.ofNat 32 i) := by
  have hlarge := hb.large
  have hapart : WritesApart dst src l.length := fun i hi j hj => hb.ne h hi (by omega)
  obtain ⟨tr, m', hrun, hwritten⟩ :=
    runs_strcpyLoop h.chars (Nat.lt_of_succ_lt h.length_lt) hapart hrounds
  have hsrc : Chars m' src l :=
    h.chars.congr fun i hi => hwritten.outside _ fun j hj => hapart i hi j hj
  refine ⟨tr, m', ?_, ⟨h.start, h.fits, hsrc⟩, hwritten.bytes, fun i hlow hhigh => ?_⟩
  · exact runs_assert_bind ⟨hb.start, h.start⟩ (hrun.bind_end (Runs.ret none m'))
  · exact hwritten.outside _ fun j hj => hb.ne_self hhigh (by omega) (by omega)

/-- The contents of the buffer are right exactly when the byte for the terminator was 0. -/
lemma copied_iff (h : CString m src l) (hb : Buffer dst src size l) (hrounds : l.length < rounds)
    (hsrc : CString m' src l)
    (hbytes : ∀ i (hi : i < l.length), m' (dst + BitVec.ofNat 32 i) = l[i])
    (hrest : ∀ i, l.length ≤ i → i < size →
      m' (dst + BitVec.ofNat 32 i) = m (dst + BitVec.ofNat 32 i)) :
    Copied rounds m m' dst src size l ↔ m (dst + BitVec.ofNat 32 l.length) = 0 := by
  have hlarge := hb.large
  have hfits := hb.fits
  have hend := hrest l.length le_rfl hb.large
  constructor
  · intro hc
    rw [← hend]
    exact hc.string.chars.terminated
  · intro hzero
    have hdst : CString m' dst l :=
      ⟨hb.start, by omega, .of_bytes hbytes h.chars.zero_notMem (hend.trans hzero)⟩
    have hcmp := returns_strcmp hdst hsrc hrounds
    rw [threeWay_self] at hcmp
    exact ⟨hdst, hcmp, ⟨_, returns_strlen hdst hrounds, returns_strlen hsrc hrounds⟩,
      fun i hlow hhigh => hrest i hlow.le hhigh⟩

/-- `strcpy` never returns `dst`, and it leaves the right string in the buffer exactly when the
byte behind the characters was 0 before. -/
theorem strcpy_unterminated (h : CString m src l) (hb : Buffer dst src size l)
    (hrounds : l.length < rounds) :
    (¬ ∃ tr m', (strcpy rounds dst src).Runs m tr m' (some dst) ∧
      Copied rounds m m' dst src size l) ∧
    ((∃ tr m' r, (strcpy rounds dst src).Runs m tr m' r ∧ Copied rounds m m' dst src size l) ↔
      m (dst + BitVec.ofNat 32 l.length) = 0) := by
  obtain ⟨tr, m', hrun, hsrc, hbytes, hrest⟩ := runs_strcpy h hb hrounds
  have hiff := copied_iff h hb hrounds hsrc hbytes hrest
  refine ⟨?_, ?_, fun hzero => ⟨tr, m', none, hrun, hiff.mpr hzero⟩⟩
  · rintro ⟨tr', m'', hrun', -⟩
    exact absurd (hrun.det hrun').2 (by simp)
  · rintro ⟨tr', m'', r, hrun', hc⟩
    rw [← (hrun.det hrun').1] at hc
    exact hiff.mp hc

/-- Memory with "a" at 0x1000 and all ones elsewhere. -/
def uncleared : Mem := fun a => if a = 0x1000 then 0x61 else if a = 0x1001 then 0 else 0xff

lemma cString_uncleared : CString uncleared 0x1000 [0x61] where
  start := by decide
  fits := by decide
  chars := ⟨rfl, by decide, rfl⟩

lemma buffer_uncleared : Buffer 0x2000 0x1000 16 [0x61] :=
  ⟨by decide, by decide, by decide, by decide⟩

theorem strcpy_unterminated_uncleared :
    (¬ ∃ tr m', (strcpy 2 0x2000 0x1000).Runs uncleared tr m' (some 0x2000) ∧
      Copied 2 uncleared m' 0x2000 0x1000 16 [0x61]) ∧
    ((∃ tr m' r, (strcpy 2 0x2000 0x1000).Runs uncleared tr m' r ∧
        Copied 2 uncleared m' 0x2000 0x1000 16 [0x61]) ↔
      uncleared (0x2000 + BitVec.ofNat 32 [(0x61 : BitVec 8)].length) = 0) :=
  strcpy_unterminated cString_uncleared buffer_uncleared (by decide)

/-- The copy of "a" has no end, and there is no value. -/
theorem strcpy_uncleared : ∃ tr m', (strcpy 2 0x2000 0x1000).Runs uncleared tr m' none ∧
    ¬ CString m' 0x2000 [0x61] := by
  have hcopy : ∃ tr m', (strcpy 2 0x2000 0x1000).Runs uncleared tr m' none ∧ _ :=
    runs_strcpy cString_uncleared buffer_uncleared (by decide)
  obtain ⟨tr, m', hrun, -, -, hrest⟩ := hcopy
  refine ⟨tr, m', hrun, fun hc => ?_⟩
  have hend : m' 0x2001 = 0xff := hrest 1 le_rfl (by decide)
  have hzero : m' 0x2001 = 0 := hc.chars.terminated
  exact absurd (hend.symm.trans hzero) (by decide)

end Copies

end OsI386
