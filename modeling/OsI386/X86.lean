import Mathlib

/-!
# The 32-bit x86 instructions that save and restore registers

Memory is bytes, words are little endian, and addresses wrap around. A routine is the
composition of its instructions; `eip` counts only where control is transferred, and is the
address to return to where an interrupt or a call is taken.
-/
namespace X86

abbrev Word := BitVec 32
abbrev Mem := Word → BitVec 8

section Memory

def load32 (m : Mem) (a : Word) : Word := m (a + 3) ++ m (a + 2) ++ m (a + 1) ++ m a

def store32 (m : Mem) (a w : Word) : Mem := fun b =>
  if (b - a).toNat < 4 then w.extractLsb' (8 * (b - a).toNat) 8 else m b

variable {m m' : Mem} {a b w : Word} {ws : List Word}

lemma toNat_add_sub (a b : Word) {k : ℕ} (h : (a - b).toNat + k < 2 ^ 32) :
    (a + BitVec.ofNat 32 k - b).toNat = (a - b).toNat + k := by
  have hk : (BitVec.ofNat 32 k).toNat = k := by
    rw [BitVec.toNat_ofNat]
    omega
  have hsub : a + BitVec.ofNat 32 k - b = a - b + BitVec.ofNat 32 k := by
    rw [BitVec.sub_eq_add_neg, BitVec.sub_eq_add_neg, add_right_comm]
  rw [hsub, BitVec.toNat_add, hk, Nat.mod_eq_of_lt h]

lemma append_extractLsb' (w : Word) : (w.extractLsb' 24 8 ++ w.extractLsb' 16 8 ++
    w.extractLsb' 8 8 ++ w.extractLsb' 0 8 : Word) = w := by
  apply BitVec.eq_of_getLsbD_eq
  intro i hi
  simp only [BitVec.getLsbD_append, BitVec.getLsbD_extractLsb']
  interval_cases i <;> simp

lemma load32_congr (h : ∀ k < 4, m' (a + BitVec.ofNat 32 k) = m (a + BitVec.ofNat 32 k)) :
    load32 m' a = load32 m a := by
  have h0 := h 0 (by norm_num)
  have h1 := h 1 (by norm_num)
  have h2 := h 2 (by norm_num)
  have h3 := h 3 (by norm_num)
  rw [BitVec.add_zero] at h0
  unfold load32
  rw [h0]
  exact congrArg₂ _ (congrArg₂ _ (congrArg₂ _ h3 h2) h1) rfl

@[simp] lemma load32_store32 (m : Mem) (a w : Word) : load32 (store32 m a w) a = w := by
  have hbyte : ∀ k < 4, store32 m a w (a + BitVec.ofNat 32 k) = w.extractLsb' (8 * k) 8 := by
    intro k hk
    have hoff := toNat_add_sub a a (k := k) (by simp; omega)
    rw [BitVec.sub_self, BitVec.toNat_zero, zero_add] at hoff
    rw [store32, hoff, if_pos hk]
  have h0 := hbyte 0 (by norm_num)
  rw [BitVec.add_zero] at h0
  unfold load32
  rw [h0]
  refine Eq.trans ?_ (append_extractLsb' w)
  exact congrArg₂ _ (congrArg₂ _ (congrArg₂ _ (hbyte 3 (by norm_num)) (hbyte 2 (by norm_num)))
    (hbyte 1 (by norm_num))) rfl

/-- A store leaves the words it does not meet. -/
lemma load32_store32_of_apart (hlow : 4 ≤ (b - a).toNat) (hhigh : (b - a).toNat + 4 ≤ 2 ^ 32) :
    load32 (store32 m a w) b = load32 m b := by
  refine load32_congr fun k hk => ?_
  have hoff := toNat_add_sub b a (k := k) (by omega)
  rw [store32, hoff, if_neg (by omega)]

/-- The same at two offsets from one address. -/
lemma load32_store32_add {i j : Word} (hlow : 4 ≤ (j - i).toNat)
    (hhigh : (j - i).toNat + 4 ≤ 2 ^ 32) :
    load32 (store32 m (a + i) w) (a + j) = load32 m (a + j) := by
  have hoff : a + j - (a + i) = j - i := add_sub_add_left_eq_sub j i a
  exact load32_store32_of_apart (hoff ▸ hlow) (hoff ▸ hhigh)

lemma load32_store32_base {i : Word} (hlow : 4 ≤ (0 - i).toNat)
    (hhigh : (0 - i).toNat + 4 ≤ 2 ^ 32) : load32 (store32 m (a + i) w) a = load32 m a := by
  have h := load32_store32_add (m := m) (a := a) (w := w) hlow hhigh
  rwa [add_zero] at h

/-- The words `ws` from address `a` on. -/
def Holds (m : Mem) : Word → List Word → Prop
  | _, [] => True
  | a, w :: ws => load32 m a = w ∧ Holds m (a + 4) ws

lemma toNat_add_four (a b : Word) (h : (a - b).toNat + 4 < 2 ^ 32) :
    (a + 4 - b).toNat = (a - b).toNat + 4 := toNat_add_sub a b h

lemma Holds.store (h : Holds m a ws) (hlow : 4 ≤ (a - b).toNat)
    (hhigh : (a - b).toNat + 4 * ws.length ≤ 2 ^ 32) : Holds (store32 m b w) a ws := by
  induction ws generalizing a with
  | nil => trivial
  | cons v ws ih =>
    obtain ⟨hv, hws⟩ := h
    rw [List.length_cons] at hhigh
    refine ⟨(load32_store32_of_apart hlow (by omega)).trans hv, ?_⟩
    cases ws with
    | nil => trivial
    | cons u us =>
      rw [List.length_cons] at hhigh
      have hnext := toNat_add_four a b (by omega)
      exact ih hws (by omega) (by rw [List.length_cons]; omega)

lemma add_four_add (a : Word) (i : ℕ) :
    a + 4 + BitVec.ofNat 32 (4 * i) = a + BitVec.ofNat 32 (4 * (i + 1)) := by
  rw [add_assoc, Nat.mul_succ, Nat.add_comm (4 * i), BitVec.ofNat_add]
  rfl

/-- A store to the word with index `i`. -/
lemma Holds.set (h : Holds m a ws) (hlen : 4 * ws.length ≤ 2 ^ 32) {i : ℕ} (hi : i < ws.length) :
    Holds (store32 m (a + BitVec.ofNat 32 (4 * i)) w) a (ws.set i w) := by
  induction ws generalizing a i with
  | nil => trivial
  | cons v ws ih =>
    rw [List.length_cons] at hlen hi
    cases i with
    | zero =>
      rw [Nat.mul_zero, BitVec.add_zero]
      have hfour : (a + 4 - a).toNat = 4 := by
        rw [add_sub_cancel_left]
        rfl
      exact ⟨load32_store32 m a w, h.2.store (by omega) (by omega)⟩
    | succ i =>
      refine ⟨(load32_store32_of_apart ?_ ?_).trans h.1, ?_⟩
      · rw [sub_add_cancel_left, BitVec.toNat_neg, BitVec.toNat_ofNat]
        omega
      · rw [sub_add_cancel_left, BitVec.toNat_neg, BitVec.toNat_ofNat]
        omega
      · rw [← add_four_add]
        exact ih h.2 (by omega) (by omega)

lemma Holds.get (h : Holds m a ws) (i : ℕ) (hi : ws[i]? = some w) :
    load32 m (a + BitVec.ofNat 32 (4 * i)) = w := by
  induction ws generalizing a i with
  | nil => simp at hi
  | cons v ws ih =>
    cases i with
    | zero =>
      rw [Nat.mul_zero, BitVec.add_zero]
      exact h.1.trans (Option.some.inj hi)
    | succ i =>
      have hnext := ih h.2 i hi
      rwa [add_four_add] at hnext

lemma Holds.drop (h : Holds m a ws) (i : ℕ) :
    Holds m (a + BitVec.ofNat 32 (4 * i)) (ws.drop i) := by
  induction i generalizing a ws with
  | zero =>
    rw [Nat.mul_zero, BitVec.add_zero]
    exact h
  | succ i ih =>
    cases ws with
    | nil => trivial
    | cons v ws =>
      have hnext := ih h.2
      rwa [add_four_add] at hnext

/-- Bytes that are as they were hold what they held. -/
lemma Holds.congr (h : Holds m a ws) (hlen : 4 * ws.length ≤ 2 ^ 32)
    (hsame : ∀ b : Word, (b - a).toNat < 4 * ws.length → m' b = m b) : Holds m' a ws := by
  induction ws generalizing a with
  | nil => trivial
  | cons v ws ih =>
    obtain ⟨hv, hws⟩ := h
    rw [List.length_cons] at hlen hsame
    constructor
    · rw [← hv]
      refine load32_congr fun k hk => hsame _ ?_
      have hoff := toNat_add_sub a a (k := k) (by simp; omega)
      rw [BitVec.sub_self, BitVec.toNat_zero] at hoff
      omega
    · refine ih hws (by omega) fun b hb => hsame b ?_
      have hoff := toNat_add_four (b - 4) a
      rw [sub_add_cancel] at hoff
      have hb4 : (b - (a + 4)).toNat = (b - 4 - a).toNat := by
        rw [add_comm a 4, ← sub_sub]
      omega

end Memory

/-- What an instruction can change. The rest of the processor, `cr3` and the ports among it,
plays no part in these instructions. -/
structure State where
  eax : Word
  ebx : Word
  ecx : Word
  edx : Word
  esi : Word
  edi : Word
  ebp : Word
  esp : Word
  eip : Word
  eflags : Word
  cs : BitVec 16
  ds : BitVec 16
  es : BitVec 16
  fs : BitVec 16
  gs : BitVec 16
  ss : BitVec 16
  mem : Mem

section Flags

/-- `CF`, `PF`, `AF`, `ZF`, `SF` and `OF`. -/
def statusMask : Word := 0x8d5

def parity (w : Word) : Bool := (List.range 8).foldl (fun p i => p ^^ w.getLsbD i) true

def withStatus (old r : Word) (cf af of : Bool) : Word :=
  old &&& ~~~statusMask |||
    ((BitVec.ofBool cf).setWidth 32 ||| (BitVec.ofBool (parity r)).setWidth 32 <<< 2 |||
      (BitVec.ofBool af).setWidth 32 <<< 4 ||| (BitVec.ofBool (r == 0)).setWidth 32 <<< 6 |||
      (BitVec.ofBool r.msb).setWidth 32 <<< 7 ||| (BitVec.ofBool of).setWidth 32 <<< 11)

def addFlags (old a b : Word) : Word :=
  withStatus old (a + b) (2 ^ 32 ≤ a.toNat + b.toNat)
    (2 ^ 4 ≤ a.toNat % 2 ^ 4 + b.toNat % 2 ^ 4) (a.msb == b.msb && (a + b).msb != a.msb)

def subFlags (old a b : Word) : Word :=
  withStatus old (a - b) (a.toNat < b.toNat) (a.toNat % 2 ^ 4 < b.toNat % 2 ^ 4)
    (a.msb != b.msb && (a - b).msb != a.msb)

def zf (eflags : Word) : Bool := eflags.getLsbD 6

lemma zf_withStatus (old r : Word) (cf af of : Bool) :
    zf (withStatus old r cf af of) = (r == 0) := by
  simp [zf, withStatus, statusMask]

/-- `je` after `cmp a, b` is taken if they are equal. -/
lemma zf_subFlags (old a b : Word) : zf (subFlags old a b) = true ↔ a = b := by
  rw [subFlags, zf_withStatus, beq_iff_eq, sub_eq_zero]

end Flags

namespace State

section Stack

def push (s : State) (w : Word) : State :=
  { s with esp := s.esp - 4, mem := store32 s.mem (s.esp - 4) w }

/-- `push` of a segment register. -/
def pushSeg (s : State) (r : BitVec 16) : State := s.push (r.setWidth 32)

def top (s : State) : Word := load32 s.mem s.esp

/-- A `pop` as far as the stack pointer is concerned. -/
def drop (s : State) : State := { s with esp := s.esp + 4 }

def topSeg (s : State) : BitVec 16 := s.top.setWidth 16

def pushad (s : State) : State :=
  (((((((s.push s.eax).push s.ecx).push s.edx).push s.ebx).push s.esp).push s.ebp).push s.esi).push
    s.edi

/-- The word of `esp` is skipped. -/
def popad (s : State) : State :=
  { s with
    edi := load32 s.mem s.esp
    esi := load32 s.mem (s.esp + 4)
    ebp := load32 s.mem (s.esp + 8)
    ebx := load32 s.mem (s.esp + 16)
    edx := load32 s.mem (s.esp + 20)
    ecx := load32 s.mem (s.esp + 24)
    eax := load32 s.mem (s.esp + 28)
    esp := s.esp + 32 }

/-- `add esp, n`. -/
def addEsp (s : State) (n : Word) : State :=
  { s with esp := s.esp + n, eflags := addFlags s.eflags s.esp n }

/-- `call` of `target`, from an instruction with `next` after it. -/
def call (s : State) (target next : Word) : State := { s.push next with eip := target }

def ret (s : State) : State := { s.drop with eip := s.top }

end Stack

section Interrupts

/-- The ring of the code that runs. -/
def cpl (s : State) : BitVec 2 := s.cs.setWidth 2

/-- `VM`, `RF`, `NT`, `IF` and `TF` are clear in the handler. -/
def gateMask : Word := 0x34300

/-- The stack for handlers, from the task state segment, and the entry of the gate. -/
structure Gate where
  esp0 : Word
  ss0 : BitVec 16
  selector : BitVec 16
  offset : Word

/-- `#DF`, `#TS`, `#NP`, `#SS`, `#GP`, `#PF`, `#AC` and `#SX`. -/
def pushesErrorCode (vector : ℕ) : Bool := vector ∈ [8, 10, 11, 12, 13, 14, 17, 30]

/-- In ring 0 the handler stays on the stack. -/
def switchStack (s : State) (g : Gate) : State :=
  if s.cpl = 0 then s else ({ s with esp := g.esp0, ss := g.ss0 }.pushSeg s.ss).push s.esp

def enter (s : State) (g : Gate) : State :=
  { s with eflags := s.eflags &&& ~~~gateMask, cs := g.selector, eip := g.offset }

/-- An interrupt through an interrupt gate to ring 0; some exceptions push an error code. -/
def interrupt (s : State) (g : Gate) (err : Option Word) : State :=
  let r := ((((s.switchStack g).push s.eflags).pushSeg s.cs).push s.eip).enter g
  match err with
  | some e => r.push e
  | none => r

/-- A return to another ring pops the stack of that ring too. -/
def iret (s : State) : State :=
  let r := { s with
    eip := load32 s.mem s.esp
    cs := (load32 s.mem (s.esp + 4)).setWidth 16
    eflags := load32 s.mem (s.esp + 8)
    esp := s.esp + 12 }
  if r.cpl = s.cpl then r
  else { r with esp := load32 s.mem (s.esp + 12), ss := (load32 s.mem (s.esp + 16)).setWidth 16 }

end Interrupts

section Lemmas

variable {s : State} {w : Word} {ws : List Word}

/-- The words on top of the stack. -/
def Stack (s : State) (ws : List Word) : Prop := Holds s.mem s.esp ws

@[simp] lemma push_esp (s : State) (w : Word) : (s.push w).esp = s.esp - 4 := rfl

lemma Stack.push (h : s.Stack ws) (hlen : 4 * ws.length + 4 ≤ 2 ^ 32) :
    (s.push w).Stack (w :: ws) := by
  have hfour : (s.esp - (s.esp - 4)).toNat = 4 := by
    rw [sub_sub_cancel]
    rfl
  refine ⟨load32_store32 _ _ _, ?_⟩
  change Holds (store32 s.mem (s.esp - 4) w) (s.esp - 4 + 4) ws
  rw [sub_add_cancel]
  exact Holds.store h (by omega) (by omega)

lemma Stack.pushSeg {r : BitVec 16} (h : s.Stack ws) (hlen : 4 * ws.length + 4 ≤ 2 ^ 32) :
    (s.pushSeg r).Stack (r.setWidth 32 :: ws) := h.push hlen

lemma Stack.pushad (h : s.Stack ws) (hlen : 4 * ws.length + 32 ≤ 2 ^ 32) :
    s.pushad.Stack (s.edi :: s.esi :: s.ebp :: s.esp :: s.ebx :: s.edx :: s.ecx :: s.eax :: ws) := by
  have h1 : (s.push s.eax).Stack _ := h.push (by omega)
  have h2 : ((s.push s.eax).push s.ecx).Stack _ := h1.push (by rw [List.length_cons]; omega)
  have h4 := (h2.push (w := s.edx) (by simp only [List.length_cons]; omega)).push (w := s.ebx)
    (by simp only [List.length_cons]; omega)
  have h6 := (h4.push (w := s.esp) (by simp only [List.length_cons]; omega)).push (w := s.ebp)
    (by simp only [List.length_cons]; omega)
  exact (h6.push (by simp only [List.length_cons]; omega)).push
    (by simp only [List.length_cons]; omega)

lemma Stack.enter (h : s.Stack ws) (g : Gate) : (s.enter g).Stack ws := h

lemma Stack.top (h : s.Stack (w :: ws)) : s.top = w := h.1

lemma Stack.drop (h : s.Stack (w :: ws)) : s.drop.Stack ws := h.2

lemma Stack.addEsp (h : s.Stack (w :: ws)) : (s.addEsp 4).Stack ws := h.2

/-- `popad` undoes `pushad`, but for the flags and memory. -/
lemma Stack.popad {edi esi ebp esp ebx edx ecx eax : Word}
    (h : s.Stack (edi :: esi :: ebp :: esp :: ebx :: edx :: ecx :: eax :: ws)) :
    s.popad = { s with
      edi := edi, esi := esi, ebp := ebp, ebx := ebx, edx := edx, ecx := ecx, eax := eax
      esp := s.esp + 32 } ∧ s.popad.Stack ws := by
  have h0 : load32 s.mem s.esp = edi := h.1
  have h1 : load32 s.mem (s.esp + 4) = esi := h.get 1 rfl
  have h2 : load32 s.mem (s.esp + 8) = ebp := h.get 2 rfl
  have h4 : load32 s.mem (s.esp + 16) = ebx := h.get 4 rfl
  have h5 : load32 s.mem (s.esp + 20) = edx := h.get 5 rfl
  have h6 : load32 s.mem (s.esp + 24) = ecx := h.get 6 rfl
  have h7 : load32 s.mem (s.esp + 28) = eax := h.get 7 rfl
  refine ⟨?_, Holds.drop h 8⟩
  rw [State.popad, h0, h1, h2, h4, h5, h6, h7]

/-- The words an interrupt leaves on the stack. -/
def intrFrame (s : State) (err : Option Word) : List Word :=
  err.toList ++ s.eip :: s.cs.setWidth 32 :: s.eflags ::
    if s.cpl = 0 then [] else [s.esp, s.ss.setWidth 32]

lemma length_intrFrame (s : State) (err : Option Word) :
    (s.intrFrame err).length ≤ err.toList.length + 5 := by
  rw [intrFrame, List.length_append]
  by_cases hring : s.cpl = 0
  · rw [if_pos hring]
    exact Nat.add_le_add_left (by simp) _
  · rw [if_neg hring]
    exact Nat.add_le_add_left (by simp) _

lemma Stack.intrPushes {x : State} (h : x.Stack ws) (hlen : 4 * ws.length + 16 ≤ 2 ^ 32)
    (eflags eip : Word) (cs : BitVec 16) :
    (((x.push eflags).pushSeg cs).push eip).Stack (eip :: cs.setWidth 32 :: eflags :: ws) := by
  have h1 := h.push (w := eflags) (by omega)
  have h2 := h1.pushSeg (r := cs) (by rw [List.length_cons]; omega)
  exact h2.push (by simp only [List.length_cons]; omega)

lemma interrupt_stack (s : State) (g : Gate) (err : Option Word) :
    (s.interrupt g err).Stack (s.intrFrame err) := by
  have hempty : ∀ x : State, x.Stack [] := fun _ => trivial
  have hstack : (s.switchStack g).Stack (if s.cpl = 0 then [] else [s.esp, s.ss.setWidth 32]) := by
    by_cases hring : s.cpl = 0
    · rw [if_pos hring]
      exact hempty _
    · rw [switchStack, if_neg hring, if_neg hring]
      exact ((hempty _).pushSeg (by rw [List.length_nil]; omega)).push
        (by rw [List.length_singleton]; omega)
  have hlen : (if s.cpl = 0 then [] else [s.esp, s.ss.setWidth 32]).length ≤ 2 := by
    by_cases hring : s.cpl = 0
    · rw [if_pos hring]
      exact Nat.zero_le 2
    · rw [if_neg hring]
      exact le_rfl
  have h := hstack.intrPushes (by omega) s.eflags s.eip s.cs
  cases err with
  | none => exact h.enter g
  | some e => exact (h.enter g).push (by rw [List.length_cons, List.length_cons, List.length_cons]; omega)

/-- The `n` bytes under `top` have been pushed, and the rest of memory is as in `m`. -/
structure Pushed (m : Mem) (top : Word) (n : ℕ) (s : State) : Prop where
  esp : s.esp = top - BitVec.ofNat 32 n
  mem : ∀ b : Word, n ≤ (top - 1 - b).toNat → s.mem b = m b

lemma Pushed.start (s : State) : Pushed s.mem s.esp 0 s :=
  ⟨(sub_zero s.esp).symm, fun _ _ => rfl⟩

lemma Pushed.push {m : Mem} {top : Word} {n : ℕ} (h : Pushed m top n s) (w : Word) :
    Pushed m top (n + 4) (s.push w) := by
  have hesp : s.esp - 4 = top - BitVec.ofNat 32 (n + 4) := by
    rw [h.esp, BitVec.ofNat_add, sub_sub]
    rfl
  refine ⟨hesp, fun b hb => ?_⟩
  have hout : ¬ (b - (top - BitVec.ofNat 32 (n + 4))).toNat < 4 := by bv_omega
  refine Eq.trans ?_ (h.mem b (by omega))
  change store32 s.mem (s.esp - 4) w b = s.mem b
  rw [hesp, store32, if_neg hout]

lemma Pushed.pushad {m : Mem} {top : Word} {n : ℕ} (h : Pushed m top n s) :
    Pushed m top (n + 32) s.pushad :=
  (((((((h.push _).push _).push _).push _).push _).push _).push _).push _

/-- The registers neither an interrupt nor `iret` changes. -/
structure SameData (s r : State) : Prop where
  eax : r.eax = s.eax
  ebx : r.ebx = s.ebx
  ecx : r.ecx = s.ecx
  edx : r.edx = s.edx
  esi : r.esi = s.esi
  edi : r.edi = s.edi
  ebp : r.ebp = s.ebp
  ds : r.ds = s.ds
  es : r.es = s.es
  fs : r.fs = s.fs
  gs : r.gs = s.gs

lemma SameData.trans {r t : State} (h : s.SameData r) (g : r.SameData t) : s.SameData t where
  eax := g.eax.trans h.eax
  ebx := g.ebx.trans h.ebx
  ecx := g.ecx.trans h.ecx
  edx := g.edx.trans h.edx
  esi := g.esi.trans h.esi
  edi := g.edi.trans h.edi
  ebp := g.ebp.trans h.ebp
  ds := g.ds.trans h.ds
  es := g.es.trans h.es
  fs := g.fs.trans h.fs
  gs := g.gs.trans h.gs

lemma sameData_push (s : State) (w : Word) : s.SameData (s.push w) := by
  constructor <;> rfl

lemma sameData_pushSeg (s : State) (r : BitVec 16) : s.SameData (s.pushSeg r) :=
  sameData_push s _

lemma sameData_pushad (s : State) : s.SameData s.pushad := by
  unfold pushad
  have h4 := (((sameData_push s s.eax).trans (sameData_push _ s.ecx)).trans
    (sameData_push _ s.edx)).trans (sameData_push _ s.ebx)
  exact (((h4.trans (sameData_push _ s.esp)).trans (sameData_push _ s.ebp)).trans
    (sameData_push _ s.esi)).trans (sameData_push _ s.edi)

lemma sameData_enter (s : State) (g : Gate) : s.SameData (s.enter g) := by
  constructor <;> rfl

lemma interrupt_sameData (s : State) (g : Gate) (err : Option Word) :
    s.SameData (s.interrupt g err) := by
  have hswitch : s.SameData (s.switchStack g) := by
    by_cases hring : s.cpl = 0
    · rw [switchStack, if_pos hring]
      constructor <;> rfl
    · rw [switchStack, if_neg hring]
      have hstack : s.SameData { s with esp := g.esp0, ss := g.ss0 } := by constructor <;> rfl
      exact (hstack.trans (sameData_push _ _)).trans (sameData_push _ _)
  have h := ((((hswitch.trans (sameData_push _ s.eflags)).trans
    (sameData_push _ (s.cs.setWidth 32))).trans (sameData_push _ s.eip)).trans (sameData_enter _ g))
  cases err with
  | none => exact h
  | some e => exact h.trans (sameData_push _ e)

lemma interrupt_esp (h : s.cpl = 0) (g : Gate) (err : Option Word) :
    (s.interrupt g err).esp = match err with
      | some _ => s.esp - 16
      | none => s.esp - 12 := by
  have hstack : s.switchStack g = s := if_pos h
  cases err with
  | none =>
    change (s.switchStack g).esp - 4 - 4 - 4 = s.esp - 12
    rw [hstack, sub_sub, sub_sub]
    rfl
  | some e =>
    change (s.switchStack g).esp - 4 - 4 - 4 - 4 = s.esp - 16
    rw [hstack, sub_sub, sub_sub, sub_sub]
    rfl

lemma interrupt_pushed (h : s.cpl ≠ 0) (g : Gate) :
    Pushed s.mem g.esp0 20 (s.interrupt g none) := by
  have hswitch : Pushed s.mem g.esp0 8 (s.switchStack g) := by
    rw [switchStack, if_neg h]
    exact ((Pushed.start { s with esp := g.esp0, ss := g.ss0 }).push _).push _
  have hframe := ((hswitch.push s.eflags).push (s.cs.setWidth 32)).push s.eip
  exact ⟨hframe.esp, hframe.mem⟩

/-- `iret` in ring 0, with the words of an interrupt of `c` on the stack. -/
lemma Stack.iret {c : State} (h : s.Stack (c.intrFrame none)) (hring : s.cpl = 0) :
    s.iret = { s with
      eip := c.eip, cs := c.cs, eflags := c.eflags
      esp := if c.cpl = 0 then s.esp + 12 else c.esp
      ss := if c.cpl = 0 then s.ss else c.ss } := by
  have h0 : load32 s.mem s.esp = c.eip := h.1
  have h1 : load32 s.mem (s.esp + 4) = c.cs.setWidth 32 := Holds.get h 1 rfl
  have h2 : load32 s.mem (s.esp + 8) = c.eflags := Holds.get h 2 rfl
  have hseg : ∀ r : BitVec 16, (r.setWidth 32).setWidth 16 = r := fun r => by simp
  rw [State.iret, h0, h1, h2, hseg, hring]
  by_cases hc : c.cpl = 0
  · refine (if_pos hc).trans ?_
    rw [if_pos hc, if_pos hc]
  · have hframe : c.intrFrame none =
        [c.eip, c.cs.setWidth 32, c.eflags, c.esp, c.ss.setWidth 32] := by
      rw [intrFrame, if_neg hc]
      rfl
    rw [hframe] at h
    have h3 : load32 s.mem (s.esp + 12) = c.esp := Holds.get h 3 rfl
    have h4 : load32 s.mem (s.esp + 16) = c.ss.setWidth 32 := Holds.get h 4 rfl
    refine (if_neg hc).trans ?_
    rw [if_neg hc, if_neg hc, h3, h4, hseg]

end Lemmas

end State

end X86
