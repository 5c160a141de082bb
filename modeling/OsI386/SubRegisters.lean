import OsI386.X86

/-!
# Instructions on parts of registers

The 16-bit halves and the bytes of the registers, the multiplications that spread over two of
them, 16-bit words in memory, the conditions of jumps, and counted loops. A write to a part
leaves the rest.
-/
namespace X86

section Parts

variable {w : Word} {v : BitVec 16}

def low16 (w : Word) : BitVec 16 := w.extractLsb' 0 16

def high16 (w : Word) : BitVec 16 := w.extractLsb' 16 16

def setLow16 (w : Word) (v : BitVec 16) : Word := high16 w ++ v

/-- The byte that `al` is of `eax`. -/
def low8 (w : Word) : BitVec 8 := w.extractLsb' 0 8

/-- The byte that `ah` is of `eax`. -/
def high8 (w : Word) : BitVec 8 := w.extractLsb' 8 8

def setLow8 (w : Word) (b : BitVec 8) : Word := high16 w ++ high8 w ++ b

def setHigh8 (w : Word) (b : BitVec 8) : Word := high16 w ++ b ++ low8 w

lemma toNat_low16 (w : Word) : (low16 w).toNat = w.toNat % 2 ^ 16 := by
  simp [low16]

lemma toNat_high16 (w : Word) : (high16 w).toNat = w.toNat / 2 ^ 16 := by
  have hlt := w.isLt
  rw [high16, BitVec.extractLsb'_toNat, Nat.shiftRight_eq_div_pow]
  exact Nat.mod_eq_of_lt (by omega)

lemma toNat_append16 (h l : BitVec 16) : (h ++ l : Word).toNat = h.toNat * 2 ^ 16 + l.toNat := by
  rw [BitVec.toNat_append, ← Nat.shiftLeft_add_eq_or_of_lt l.isLt, Nat.shiftLeft_eq]

@[simp] lemma low16_append (h l : BitVec 16) : low16 (h ++ l) = l := by
  have hlt := l.isLt
  apply BitVec.eq_of_toNat_eq
  rw [toNat_low16, toNat_append16]
  omega

@[simp] lemma high16_append (h l : BitVec 16) : high16 (h ++ l) = h := by
  have hlt := l.isLt
  apply BitVec.eq_of_toNat_eq
  rw [toNat_high16, toNat_append16]
  omega

@[simp] lemma low16_setLow16 : low16 (setLow16 w v) = v := low16_append _ _

lemma high16_append_low16 (w : Word) : (high16 w ++ low16 w : Word) = w := by
  apply BitVec.eq_of_toNat_eq
  rw [toNat_append16, toNat_high16, toNat_low16]
  omega

/-- The mask `0xffff` keeps the lower half. -/
lemma and_ffff (w : Word) : w &&& 0xffff = (0 : BitVec 16) ++ low16 w := by
  apply BitVec.eq_of_toNat_eq
  rw [toNat_append16, toNat_low16, BitVec.toNat_and]
  exact (Nat.and_two_pow_sub_one_eq_mod w.toNat 16).trans (by simp)

/-- A shift by 16 moves the lower half up. -/
lemma append_shiftLeft (h l : BitVec 16) : (h ++ l : Word) <<< 16 = l ++ (0 : BitVec 16) := by
  have hlt := l.isLt
  apply BitVec.eq_of_toNat_eq
  rw [toNat_append16, BitVec.toNat_shiftLeft, toNat_append16, Nat.shiftLeft_eq]
  have hzero : (0 : BitVec 16).toNat = 0 := rfl
  omega

lemma low8_eq_setWidth (w : Word) : low8 w = w.setWidth 8 := by
  ext i hi
  simp [low8]

section Bytes

variable {b : BitVec 8}

@[simp] lemma low8_setLow8 : low8 (setLow8 w b) = b := by
  apply BitVec.eq_of_getLsbD_eq
  intro i hi
  rw [low8, BitVec.getLsbD_extractLsb', setLow8, BitVec.getLsbD_append]
  simp [hi]

@[simp] lemma low16_setLow8 : low16 (setLow8 w b) = high8 w ++ b := by
  apply BitVec.eq_of_getLsbD_eq
  intro i hi
  rw [low16, BitVec.getLsbD_extractLsb', setLow8, BitVec.getLsbD_append, BitVec.getLsbD_append,
    BitVec.getLsbD_append]
  grind

@[simp] lemma high8_setHigh8 : high8 (setHigh8 w b) = b := by
  apply BitVec.eq_of_getLsbD_eq
  intro i hi
  rw [high8, BitVec.getLsbD_extractLsb', setHigh8, BitVec.getLsbD_append, BitVec.getLsbD_append]
  simp [hi]

@[simp] lemma high8_setLow8 : high8 (setLow8 w b) = high8 w := by
  apply BitVec.eq_of_getLsbD_eq
  intro i hi
  rw [high8, BitVec.getLsbD_extractLsb', setLow8, BitVec.getLsbD_append, BitVec.getLsbD_append]
  simp [hi]

end Bytes

end Parts

section Memory16

def load16 (m : Mem) (a : Word) : BitVec 16 := m (a + 1) ++ m a

def store16 (m : Mem) (a : Word) (v : BitVec 16) : Mem := fun b =>
  if (b - a).toNat < 2 then v.extractLsb' (8 * (b - a).toNat) 8 else m b

end Memory16

section Conditions

variable {old a b : Word}

def cf (eflags : Word) : Bool := eflags.getLsbD 0

def of (eflags : Word) : Bool := eflags.getLsbD 11

end Conditions

namespace State

def ax (s : State) : BitVec 16 := low16 s.eax

def bx (s : State) : BitVec 16 := low16 s.ebx

def cx (s : State) : BitVec 16 := low16 s.ecx

def di (s : State) : BitVec 16 := low16 s.edi

def setAx (s : State) (v : BitVec 16) : State := { s with eax := setLow16 s.eax v }

def setAh (s : State) (b : BitVec 8) : State := { s with eax := setHigh8 s.eax b }

def setCx (s : State) (v : BitVec 16) : State := { s with ecx := setLow16 s.ecx v }

def setDi (s : State) (v : BitVec 16) : State := { s with edi := setLow16 s.edi v }

/-- `mul` of a 16-bit register: the product is in `dx` and `ax`. -/
def mul16 (s : State) (v : BitVec 16) : State :=
  let product : Word := s.ax.setWidth 32 * v.setWidth 32
  { s with eax := setLow16 s.eax (low16 product), edx := setLow16 s.edx (high16 product) }

/-- `mul` of a 32-bit register: the product is in `edx` and `eax`. -/
def mul32 (s : State) (v : Word) : State :=
  let product : BitVec 64 := s.eax.setWidth 64 * v.setWidth 64
  { s with eax := product.extractLsb' 0 32, edx := product.extractLsb' 32 32 }

@[simp] lemma setCx_cx (s : State) (v : BitVec 16) : (s.setCx v).cx = v := low16_setLow16

@[simp] lemma setCx_ax (s : State) (v : BitVec 16) : (s.setCx v).ax = s.ax := rfl

end State

section Loops

/-- A body with `loop` behind it, which counts in `ecx`; `fuel` bounds the passes, of which there
are 2 ^ 32 at most. -/
def loopEcx (body : State → State) : ℕ → State → State
  | 0, s => s
  | fuel + 1, s =>
    let s := body s
    let s := { s with ecx := s.ecx - 1 }
    if s.ecx = 0 then s else loopEcx body fuel s

variable {body : State → State} {n fuel k : ℕ} {s : State}

/-- A pass keeps `ecx` and takes the invariant from `k` passes to one more. -/
def PassKeeps (body : State → State) (n : ℕ) (I : ℕ → State → Prop) : Prop :=
  ∀ k s, k < n → I k s → (body s).ecx = s.ecx ∧ I (k + 1) { body s with ecx := s.ecx - 1 }

/-- By induction on the fuel. -/
lemma loopEcx_from {I : ℕ → State → Prop} (hpass : PassKeeps body n I) (hk : k < n)
    (hfuel : n - k ≤ fuel) (h : I k s) (hecx : s.ecx.toNat = n - k) :
    I n (loopEcx body fuel s) := by
  induction fuel generalizing k s with
  | zero => omega
  | succ fuel ih =>
    obtain ⟨hkept, hnext⟩ := hpass k s hk h
    have hone : (1 : Word).toNat = 1 := rfl
    have hdec : (s.ecx - 1).toNat = n - (k + 1) := by
      have hlt := s.ecx.isLt
      rw [BitVec.toNat_sub, hone]
      omega
    rw [loopEcx, hkept]
    dsimp only
    by_cases hlast : k + 1 = n
    · have hzero : s.ecx - 1 = 0 := by
        apply BitVec.eq_of_toNat_eq
        rw [hdec, hlast, Nat.sub_self]
        rfl
      rw [if_pos hzero, ← hlast]
      exact hnext
    · have hne : s.ecx - 1 ≠ 0 := by
        intro hzero
        rw [hzero] at hdec
        change 0 = _ at hdec
        omega
      rw [if_neg hne]
      exact ih (by omega) (by omega) hnext hdec

/-- The rule for counted loops: `I k` holds after `k` of the `n` passes. -/
lemma loopEcx_rule {I : ℕ → State → Prop} (hpass : PassKeeps body n I) (hn : 0 < n) (h : I 0 s)
    (hecx : s.ecx.toNat = n) : I n (loopEcx body (2 ^ 32) s) := by
  have hlt := s.ecx.isLt
  exact loopEcx_from hpass hn (by omega) h hecx

end Loops

end X86
