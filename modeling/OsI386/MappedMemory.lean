import OsI386.SubRegisters

/-!
# Memory behind an address map

The addresses of the code go through `pa` to the bytes of memory, so that a byte may have several
addresses. The stack is a range of bytes that `pa` keeps apart; what is not on it is followed as
a memory of its own.
-/
namespace X86

section Writes

variable {ι α β : Type*} {addr : ι → α} {val : ι → β} {m : α → β} {cs ds : List ι}
  {c : ι} {y : α}

/-- No later write goes where `c` goes. -/
def LastAt (addr : ι → α) (cs : List ι) (c : ι) : Prop :=
  ∃ before after, cs = before ++ c :: after ∧ ∀ d ∈ after, addr d ≠ addr c

lemma LastAt.mem (h : LastAt addr cs c) : c ∈ cs := by
  obtain ⟨before, after, rfl, -⟩ := h
  exact List.mem_append_right _ List.mem_cons_self

variable [DecidableEq α]

end Writes

section Bytes

variable (pa : Word → Word)

/-- Memory as the code sees it. -/
def seen (m : Mem) : Mem := fun a => m (pa a)

def put8 (m : Mem) (a : Word) (b : BitVec 8) : Mem := Function.update m (pa a) b

def put32 (m : Mem) (a w : Word) : Mem :=
  let m := put8 pa m a (w.extractLsb' 0 8)
  let m := put8 pa m (a + 1) (w.extractLsb' 8 8)
  let m := put8 pa m (a + 2) (w.extractLsb' 16 8)
  put8 pa m (a + 3) (w.extractLsb' 24 8)

/-- `k` bytes copied one after another. -/
def copied (m : Mem) (dst src : Word) : ℕ → Mem
  | 0 => m
  | k + 1 => put8 pa (copied m dst src k) (dst + BitVec.ofNat 32 k)
      (seen pa (copied m dst src k) (src + BitVec.ofNat 32 k))

end Bytes

namespace State

section Instructions

variable (pa : Word → Word)

def pushAt (s : State) (w : Word) : State :=
  { s with esp := s.esp - 4, mem := put32 pa s.mem (s.esp - 4) w }

end Instructions

section Copy

variable {pa : Word → Word} {s : State}

end Copy

end State

section CopiedBytes

variable {pa : Word → Word} {m : Mem} {dst src : Word} {c : ℕ → BitVec 8} {k : ℕ}

end CopiedBytes

section Stack

variable {pa : Word → Word} {top a b w y dst src : Word} {n k : ℕ} {m r : Mem} {ws : List Word}
  {s : State}

/-- The `n` bytes below `top` are apart. -/
def StackApart (pa : Word → Word) (top : Word) (n : ℕ) : Prop := ∀ i j, i < n → j < n →
  pa (top - 1 - BitVec.ofNat 32 i) = pa (top - 1 - BitVec.ofNat 32 j) → i = j

/-- `y` is none of the `n` bytes below `top`. -/
def OffStack (pa : Word → Word) (top : Word) (n : ℕ) (y : Word) : Prop := ∀ i < n,
  pa (top - 1 - BitVec.ofNat 32 i) ≠ y

/-- The words `ws` are on the stack below `top`, and memory is `r` elsewhere. -/
structure StackOver (pa : Word → Word) (top : Word) (n : ℕ) (r : Mem) (ws : List Word)
    (s : State) : Prop where
  esp : s.esp = top - BitVec.ofNat 32 (4 * ws.length)
  words : Holds (seen pa s.mem) s.esp ws
  mem : ∀ y, OffStack pa top n y → s.mem y = r y

lemma put32_of_ne (h : ∀ k < 4, pa (a + BitVec.ofNat 32 k) ≠ y) : put32 pa m a w y = m y := by
  have h0 : pa (a + 0) ≠ y := h 0 (by norm_num)
  have h1 : pa (a + 1) ≠ y := h 1 (by norm_num)
  have h2 : pa (a + 2) ≠ y := h 2 (by norm_num)
  have h3 : pa (a + 3) ≠ y := h 3 (by norm_num)
  rw [add_zero] at h0
  unfold put32 put8
  rw [Function.update_of_ne (Ne.symm h3), Function.update_of_ne (Ne.symm h2),
    Function.update_of_ne (Ne.symm h1), Function.update_of_ne (Ne.symm h0)]

/-- A word that is written reads back when its bytes are apart. -/
lemma load32_put32 (h : ∀ i j, i < 4 → j < 4 →
    pa (a + BitVec.ofNat 32 i) = pa (a + BitVec.ofNat 32 j) → i = j) :
    load32 (seen pa (put32 pa m a w)) a = w := by
  have h01 : pa a ≠ pa (a + 1) := fun he => by simpa using h 0 1 (by simp) (by simp) (by simpa)
  have h02 : pa a ≠ pa (a + 2) := fun he => by simpa using h 0 2 (by simp) (by simp) (by simpa)
  have h03 : pa a ≠ pa (a + 3) := fun he => by simpa using h 0 3 (by simp) (by simp) (by simpa)
  have h12 : pa (a + 1) ≠ pa (a + 2) := fun he => by simpa using h 1 2 (by simp) (by simp) he
  have h13 : pa (a + 1) ≠ pa (a + 3) := fun he => by simpa using h 1 3 (by simp) (by simp) he
  have h23 : pa (a + 2) ≠ pa (a + 3) := fun he => by simpa using h 2 3 (by simp) (by simp) he
  unfold load32 seen put32 put8
  rw [Function.update_self, Function.update_of_ne h23, Function.update_self,
    Function.update_of_ne h13, Function.update_of_ne h12, Function.update_self,
    Function.update_of_ne h03, Function.update_of_ne h02, Function.update_of_ne h01,
    Function.update_self]
  exact append_extractLsb' w

/-- An address on the stack, counted from the other end. -/
lemma stack_addr {d i : ℕ} (hi : i < d) :
    top - BitVec.ofNat 32 d + BitVec.ofNat 32 i = top - 1 - BitVec.ofNat 32 (d - 1 - i) := by
  have hsum : d = d - 1 - i + 1 + i := by omega
  have hd : BitVec.ofNat 32 d = BitVec.ofNat 32 (d - 1 - i) + 1 + BitVec.ofNat 32 i := by
    rw [hsum, BitVec.ofNat_add, BitVec.ofNat_add, ← hsum]
    rfl
  rw [hd]
  abel

lemma StackOver.byte (h : StackOver pa top n r ws s) {i : ℕ} (hi : i < 4 * ws.length) :
    s.esp + BitVec.ofNat 32 i = top - 1 - BitVec.ofNat 32 (4 * ws.length - 1 - i) := by
  rw [h.esp, stack_addr hi]

/-- A byte of the words is none off the stack. -/
lemma StackOver.ne (h : StackOver pa top n r ws s) (hroom : 4 * ws.length ≤ n)
    (hy : OffStack pa top n y) (hb : (b - s.esp).toNat < 4 * ws.length) : pa b ≠ y := by
  have hbyte : b = s.esp + BitVec.ofNat 32 (b - s.esp).toNat := by
    rw [BitVec.ofNat_toNat, BitVec.setWidth_eq, add_sub_cancel]
  rw [hbyte, h.byte hb]
  exact hy _ (by omega)

lemma StackOver.push (h : StackOver pa top n r ws s) (hapart : StackApart pa top n)
    (hroom : 4 * ws.length + 4 ≤ n) (hn : n ≤ 2 ^ 32) (w : Word) :
    StackOver pa top n r (w :: ws) (s.pushAt pa w) := by
  have hesp : s.esp - 4 = top - BitVec.ofNat 32 (4 * ws.length + 4) := by
    rw [h.esp, BitVec.ofNat_add, sub_sub]
    rfl
  have hnew : ∀ i < 4, s.esp - 4 + BitVec.ofNat 32 i =
      top - 1 - BitVec.ofNat 32 (4 * ws.length + 4 - 1 - i) := by
    intro i hi
    rw [hesp, stack_addr (by omega)]
  constructor
  case esp => exact hesp
  case words =>
    constructor
    · refine load32_put32 fun i j hi hj he => ?_
      rw [hnew i hi, hnew j hj] at he
      have hij := hapart _ _ (by omega) (by omega) he
      omega
    · change Holds (seen pa (put32 pa s.mem (s.esp - 4) w)) (s.esp - 4 + 4) ws
      rw [sub_add_cancel]
      refine h.words.congr (by omega) fun b hb => put32_of_ne fun k hk he => ?_
      have hbyte : b = s.esp + BitVec.ofNat 32 (b - s.esp).toNat := by
        rw [BitVec.ofNat_toNat, BitVec.setWidth_eq, add_sub_cancel]
      rw [hbyte, h.byte hb, hnew k hk] at he
      have hij := hapart _ _ (by omega) (by omega) he
      omega
  case mem =>
    intro y hy
    refine (put32_of_ne fun k hk => ?_).trans (h.mem y hy)
    rw [hnew k hk]
    exact hy _ (by omega)

/-- A byte off the stack is copied. -/
lemma StackOver.put8 (h : StackOver pa top n r ws s) (hroom : 4 * ws.length ≤ n)
    (hn : n ≤ 2 ^ 32) (ha : OffStack pa top n (pa a)) (hb : OffStack pa top n (pa b)) :
    StackOver pa top n (put8 pa r a (seen pa r b)) ws
      { s with mem := X86.put8 pa s.mem a (seen pa s.mem b) } := by
  have hbyte : seen pa s.mem b = seen pa r b := h.mem _ hb
  constructor
  case esp => exact h.esp
  case words =>
    refine h.words.congr (by omega) fun c hc => Function.update_of_ne (h.ne hroom ha hc) _ _
  case mem =>
    intro y hy
    dsimp only
    rw [hbyte]
    by_cases hya : y = pa a
    · rw [hya]
      exact (Function.update_self _ _ s.mem).trans (Function.update_self _ _ r).symm
    · refine (Function.update_of_ne hya _ _).trans ?_
      exact (h.mem y hy).trans (Function.update_of_ne hya _ _).symm

lemma StackOver.copied (h : StackOver pa top n r ws s) (hroom : 4 * ws.length ≤ n)
    (hn : n ≤ 2 ^ 32) (hdst : ∀ i < k, OffStack pa top n (pa (dst + BitVec.ofNat 32 i)))
    (hsrc : ∀ i < k, OffStack pa top n (pa (src + BitVec.ofNat 32 i))) :
    StackOver pa top n (copied pa r dst src k) ws
      { s with mem := X86.copied pa s.mem dst src k } := by
  induction k with
  | zero => exact h
  | succ k ih =>
    have hprev := ih (fun i hi => hdst i (by omega)) (fun i hi => hsrc i (by omega))
    exact hprev.put8 hroom hn (hdst k (by omega)) (hsrc k (by omega))

/-- A word off the stack is read from the memory around it. -/
lemma StackOver.load32 (h : StackOver pa top n r ws s)
    (ha : ∀ i < 4, OffStack pa top n (pa (a + BitVec.ofNat 32 i))) :
    X86.load32 (seen pa s.mem) a = X86.load32 (seen pa r) a :=
  load32_congr fun i hi => h.mem _ (ha i hi)

end Stack

end X86
