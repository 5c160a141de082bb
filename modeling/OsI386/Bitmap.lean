import Mathlib

/-!
# lib/kernel/bitmap.c

A bitmap is the bytes from `base_addr` on together with its length in bits and
in bytes. Indices are `uint32_t` values; all of them stay below `bit_num`, so the
unsigned arithmetic of the scan is plain arithmetic.
-/
namespace OsI386

/-- `struct bitmap`. The map owns the bytes it points to. -/
structure Bitmap where
  bitNum : ℕ
  byteLen : ℕ
  bytes : ℕ → BitVec 8

/-- Conversion of a `uint32_t` to `int32_t`. -/
def toInt32 (n : ℕ) : ℤ := (BitVec.ofNat 32 n).toInt

def bitNum2ByteLen (bitNum : ℕ) : ℕ :=
  if bitNum % 8 ≠ 0 then bitNum / 8 + 1 else bitNum / 8

/-- `mem` is what the memory at `base` held before. -/
def bitmapInit (mem : ℕ → BitVec 8) (bitNum : ℕ) : Bitmap where
  bitNum := bitNum
  byteLen := bitNum2ByteLen bitNum
  bytes i := if i < bitNum2ByteLen bitNum then 0 else mem i

def bitmapGet (btmp : Bitmap) (bitIdx : ℕ) : ℕ :=
  let byteOff := bitIdx / 8
  let bitOff := bitIdx % 8
  if btmp.bytes byteOff &&& (1#8 <<< bitOff) ≠ 0 then 1 else 0

/-- The `while` loop of `bitmap_scan` with `fuel = bit_num - right` rounds left.
`right - left + 1` is written `right + 1 - left`, since `left` may be `right + 1`. -/
def scanLoop (btmp : Bitmap) (val cnt : ℕ) : ℕ → ℕ → ℕ → Option ℕ
  | 0, _, _ => none
  | fuel + 1, left, right =>
    let left := if bitmapGet btmp right ≠ val then right + 1 else left
    if right + 1 - left = cnt then some left else scanLoop btmp val cnt fuel left (right + 1)

def bitmapScan (btmp : Bitmap) (val cnt : ℕ) : ℤ :=
  match scanLoop btmp val cnt btmp.bitNum 0 0 with
  | some left => toInt32 left
  | none => -1

def bitmapSet (btmp : Bitmap) (idx : ℕ) : Bitmap :=
  let byteOff := idx / 8
  let bitOff := idx % 8
  { btmp with
    bytes := Function.update btmp.bytes byteOff (btmp.bytes byteOff ||| (1#8 <<< bitOff)) }

def bitmapClear (btmp : Bitmap) (idx : ℕ) : Bitmap :=
  let byteOff := idx / 8
  let bitOff := idx % 8
  { btmp with
    bytes := Function.update btmp.bytes byteOff (btmp.bytes byteOff &&& ~~~(1#8 <<< bitOff)) }

/-- The bit of an index lies in the bytes of the map, not in the memory behind them. -/
abbrev Bitmap.Holds (btmp : Bitmap) (idx : ℕ) : Prop := idx / 8 < bitNum2ByteLen btmp.bitNum

/-- The bit stored for an index. -/
def Bitmap.bit (btmp : Bitmap) (i : ℕ) : Bool := (btmp.bytes (i / 8)).getLsbD (i % 8)

@[simp] lemma bitmapInit_bitNum (mem : ℕ → BitVec 8) (n : ℕ) : (bitmapInit mem n).bitNum = n := rfl
@[simp] lemma bitmapSet_bitNum (b : Bitmap) (i : ℕ) : (bitmapSet b i).bitNum = b.bitNum := rfl
@[simp] lemma bitmapSet_byteLen (b : Bitmap) (i : ℕ) : (bitmapSet b i).byteLen = b.byteLen := rfl
@[simp] lemma bitmapClear_bitNum (b : Bitmap) (i : ℕ) : (bitmapClear b i).bitNum = b.bitNum := rfl

lemma Bitmap.holds_of_lt {btmp : Bitmap} {idx : ℕ} (h : idx < btmp.bitNum) : btmp.Holds idx := by
  unfold Holds bitNum2ByteLen
  split_ifs <;> omega

lemma mask_bit {k j : ℕ} (hj : j < 8) : (1#8 <<< k).getLsbD j = decide (j = k) := by
  rw [BitVec.getLsbD_shiftLeft, BitVec.getLsbD_one]
  by_cases h : j = k <;> simp [h, hj] <;> omega

private lemma and_mask_eq_zero (x : BitVec 8) {k : ℕ} (hk : k < 8) :
    x &&& (1#8 <<< k) = 0 ↔ x.getLsbD k = false := by
  constructor
  · intro h
    have := congrArg (fun y => BitVec.getLsbD y k) h
    simpa [mask_bit hk] using this
  · intro h
    apply BitVec.eq_of_getLsbD_eq
    intro j hj
    rw [BitVec.getLsbD_and, mask_bit hj]
    by_cases hjk : j = k <;> simp [hjk, h]

lemma bitmapGet_eq (b : Bitmap) (i : ℕ) : bitmapGet b i = (b.bit i).toNat := by
  have hk : i % 8 < 8 := Nat.mod_lt _ (by omega)
  have h := and_mask_eq_zero (b.bytes (i / 8)) hk
  unfold bitmapGet Bitmap.bit
  cases hb : (b.bytes (i / 8)).getLsbD (i % 8) <;> simp [hb] at h ⊢ <;> simp [h]

lemma bitmapGet_eq_one (b : Bitmap) (i : ℕ) : bitmapGet b i = 1 ↔ b.bit i = true := by
  rw [bitmapGet_eq]
  cases b.bit i <;> simp

lemma bitmapGet_eq_zero (b : Bitmap) (i : ℕ) : bitmapGet b i = 0 ↔ b.bit i = false := by
  rw [bitmapGet_eq]
  cases b.bit i <;> simp

private lemma split_eq {i j : ℕ} (hd : i / 8 = j / 8) (hm : i % 8 = j % 8) : i = j := by
  omega

@[simp] lemma bit_bitmapSet (b : Bitmap) (j i : ℕ) :
    (bitmapSet b j).bit i = (decide (i = j) || b.bit i) := by
  have hi : i % 8 < 8 := Nat.mod_lt _ (by omega)
  unfold bitmapSet Bitmap.bit
  by_cases hd : i / 8 = j / 8
  · have hij : decide (i % 8 = j % 8) = decide (i = j) :=
      decide_eq_decide.mpr ⟨split_eq hd, fun h => by rw [h]⟩
    simp [hd, mask_bit hi, hij, Bool.or_comm]
  · have hij : i ≠ j := fun h => hd (by rw [h])
    simp [hd, hij]

@[simp] lemma bit_bitmapClear (b : Bitmap) (j i : ℕ) :
    (bitmapClear b j).bit i = (!decide (i = j) && b.bit i) := by
  have hi : i % 8 < 8 := Nat.mod_lt _ (by omega)
  unfold bitmapClear Bitmap.bit
  by_cases hd : i / 8 = j / 8
  · have hij : decide (i % 8 = j % 8) = decide (i = j) :=
      decide_eq_decide.mpr ⟨split_eq hd, fun h => by rw [h]⟩
    simp only [hd, Function.update_self, BitVec.getLsbD_and, BitVec.getLsbD_not, mask_bit hi, hi,
      hij, decide_true, Bool.true_and]
    rw [Bool.and_comm]
  · have hij : i ≠ j := fun h => hd (by rw [h])
    simp [hd, hij]

lemma bit_bitmapInit (mem : ℕ → BitVec 8) {n i : ℕ} (h : i < n) :
    (bitmapInit mem n).bit i = false := by
  have hlen : i / 8 < bitNum2ByteLen n := by
    unfold bitNum2ByteLen
    split_ifs <;> omega
  simp [Bitmap.bit, bitmapInit, hlen]

/-- `cnt` consecutive bits from `s` on lie inside the map and equal `val`. -/
def RunAt (b : Bitmap) (val cnt s : ℕ) : Prop :=
  s + cnt ≤ b.bitNum ∧ ∀ i < cnt, bitmapGet b (s + i) = val

/-- What the loop knows before each round: `[left, right)` has the wanted value, is
too short, and no run starts before `left`. -/
private structure ScanInv (b : Bitmap) (val cnt fuel left right : ℕ) : Prop where
  rounds : right + fuel = b.bitNum
  order : left ≤ right
  short : right < left + cnt
  filled : ∀ i, left ≤ i → i < right → bitmapGet b i = val
  first : ∀ s < left, ¬ RunAt b val cnt s

private lemma ScanInv.step_mismatch {b : Bitmap} {val cnt fuel left right : ℕ} (hc : 1 ≤ cnt)
    (h : ScanInv b val cnt (fuel + 1) left right) (hne : bitmapGet b right ≠ val) :
    ScanInv b val cnt fuel (right + 1) (right + 1) where
  rounds := by have := h.rounds; omega
  order := le_rfl
  short := by omega
  filled i h1 h2 := by omega
  first s hs hr := by
    by_cases hl : s < left
    · exact h.first s hl hr
    · have hshort := h.short
      have := hr.2 (right - s) (by omega)
      rw [show s + (right - s) = right by omega] at this
      exact hne this

private lemma ScanInv.step_match {b : Bitmap} {val cnt fuel left right : ℕ}
    (h : ScanInv b val cnt (fuel + 1) left right) (heq : bitmapGet b right = val)
    (hlen : right + 1 - left ≠ cnt) : ScanInv b val cnt fuel left (right + 1) where
  rounds := by have := h.rounds; omega
  order := by have := h.order; omega
  short := by have := h.short; have := h.order; omega
  filled i h1 h2 := by
    rcases Nat.lt_succ_iff_lt_or_eq.mp h2 with hlt | rfl
    · exact h.filled i h1 hlt
    · exact heq
  first := h.first

private lemma ScanInv.found {b : Bitmap} {val cnt fuel left right : ℕ}
    (h : ScanInv b val cnt (fuel + 1) left right) (heq : bitmapGet b right = val)
    (hlen : right + 1 - left = cnt) : RunAt b val cnt left := by
  have hr := h.rounds
  have ho := h.order
  refine ⟨by omega, fun i hi => ?_⟩
  by_cases hlast : left + i = right
  · rw [hlast, heq]
  · exact h.filled _ (by omega) (by omega)

/-- Outcome of the remaining rounds, from the loop invariant. -/
private lemma scanLoop_spec {b : Bitmap} {val cnt : ℕ} (hc : 1 ≤ cnt) :
    ∀ {fuel left right : ℕ}, ScanInv b val cnt fuel left right →
      match scanLoop b val cnt fuel left right with
      | some s => RunAt b val cnt s ∧ ∀ r < s, ¬ RunAt b val cnt r
      | none => ∀ r, ¬ RunAt b val cnt r := by
  intro fuel
  induction fuel with
  | zero =>
    intro left right h r hr
    have hrounds := h.rounds
    have hshort := h.short
    have hfit := hr.1
    exact h.first r (by omega) hr
  | succ fuel ih =>
    intro left right h
    by_cases heq : bitmapGet b right = val
    · by_cases hlen : right + 1 - left = cnt
      · simpa [scanLoop, heq, hlen] using ⟨h.found heq hlen, h.first⟩
      · simpa [scanLoop, heq, hlen] using ih (h.step_match heq hlen)
    · have hz : ¬ 0 = cnt := by omega
      simpa [scanLoop, heq, hz] using ih (h.step_mismatch hc heq)

private lemma scanInv_start (b : Bitmap) (val : ℕ) {cnt : ℕ} (hc : 1 ≤ cnt) :
    ScanInv b val cnt b.bitNum 0 0 where
  rounds := by omega
  order := le_rfl
  short := by omega
  filled i _ h := by omega
  first s h := by omega

lemma scanLoop_some {b : Bitmap} {val cnt s : ℕ} (hc : 1 ≤ cnt)
    (h : scanLoop b val cnt b.bitNum 0 0 = some s) :
    RunAt b val cnt s ∧ ∀ r < s, ¬ RunAt b val cnt r := by
  have hs := scanLoop_spec hc (scanInv_start b val hc)
  rwa [h] at hs

lemma scanLoop_none {b : Bitmap} {val cnt : ℕ} (hc : 1 ≤ cnt)
    (h : scanLoop b val cnt b.bitNum 0 0 = none) : ∀ r, ¬ RunAt b val cnt r := by
  have hs := scanLoop_spec hc (scanInv_start b val hc)
  rwa [h] at hs

lemma toInt32_of_lt {n : ℕ} (h : n < 2 ^ 31) : toInt32 n = n := by
  unfold toInt32
  rw [BitVec.toInt_ofNat']
  simp only [Int.bmod_def]
  omega

/-- `bitmap_scan` returns the least start of a run of `cnt` bits equal to `val`, or
-1 when the map holds no such run. -/
theorem bitmapScan_spec {b : Bitmap} {val cnt : ℕ} (hc : 1 ≤ cnt) (hb : b.bitNum ≤ 2 ^ 31) :
    (∃ s, RunAt b val cnt s ∧ (∀ r < s, ¬ RunAt b val cnt r) ∧ bitmapScan b val cnt = s) ∨
      (∀ r, ¬ RunAt b val cnt r) ∧ bitmapScan b val cnt = -1 := by
  unfold bitmapScan
  cases h : scanLoop b val cnt b.bitNum 0 0 with
  | some s =>
    obtain ⟨hrun, hleast⟩ := scanLoop_some hc h
    have hfit := hrun.1
    exact Or.inl ⟨s, hrun, hleast, toInt32_of_lt (by omega)⟩
  | none => exact Or.inr ⟨scanLoop_none hc h, rfl⟩

lemma scanLoop_fits {b : Bitmap} {val cnt fuel left right s : ℕ} (hle : left ≤ right)
    (h : scanLoop b val cnt fuel left right = some s) : s + cnt ≤ right + fuel := by
  induction fuel generalizing left right with
  | zero => cases h
  | succ fuel ih =>
    unfold scanLoop at h
    set left' := if bitmapGet b right ≠ val then right + 1 else left with hleft
    have hle' : left' ≤ right + 1 := by
      rw [hleft]
      split_ifs <;> omega
    by_cases hlen : right + 1 - left' = cnt
    · simp only [hlen, if_true, Option.some.injEq] at h
      omega
    · simp only [hlen, if_false] at h
      have hrest := ih hle' h
      omega

lemma toNat_ofInt_toInt32 (n : ℕ) : (BitVec.ofInt 32 (toInt32 n)).toNat = n % 2 ^ 32 := by
  rw [toInt32, BitVec.ofInt_toInt, BitVec.toNat_ofNat]

/-- Whatever the scan returns for a run it found lies in the map. -/
lemma bitmapScan_fits {b : Bitmap} {val cnt : ℕ} (h : bitmapScan b val cnt ≠ -1) :
    (BitVec.ofInt 32 (bitmapScan b val cnt)).toNat + cnt ≤ b.bitNum := by
  unfold bitmapScan at h ⊢
  cases hs : scanLoop b val cnt b.bitNum 0 0 with
  | some s =>
    have hfit := scanLoop_fits le_rfl hs
    have hmod := Nat.mod_le s (2 ^ 32)
    rw [toNat_ofInt_toInt32]
    omega
  | none =>
    rw [hs] at h
    exact absurd rfl h

end OsI386
