import OsI386.SubRegisters

/-!
# Descriptor tables and the task state segment

The processor reads its tables as bytes. A selector names a segment of the GDT, a vector names a
gate of the IDT, and the task state segment has the stack for ring 0 and the permission bits of
the ports. The accessed bit, which the processor sets in segments it has loaded, is not part of
what a segment is.
-/
namespace X86

section Bytes

variable {m m' : Mem} {a b : Word} {bs : List (BitVec 8)}

def storeBytes (m : Mem) (a : Word) : List (BitVec 8) → Mem
  | [] => m
  | b :: bs => storeBytes (Function.update m a b) (a + 1) bs

lemma toNat_sub_succ (a b : Word) (h : 1 ≤ (b - a).toNat) :
    (b - (a + 1)).toNat = (b - a).toNat - 1 := by
  have hone : (1 : Word).toNat = 1 := rfl
  have hlt := (b - a).isLt
  rw [← sub_sub, BitVec.toNat_sub, hone]
  omega

lemma storeBytes_of_apart (h : bs.length ≤ (b - a).toNat) : storeBytes m a bs b = m b := by
  induction bs generalizing m a with
  | nil => rfl
  | cons c cs ih =>
    rw [List.length_cons] at h
    have hne : b ≠ a := by
      rintro rfl
      simp at h
    rw [storeBytes, ih (by rw [toNat_sub_succ a b (by omega)]; omega), Function.update_of_ne hne]

lemma storeBytes_get (hlen : bs.length ≤ 2 ^ 32) {i : ℕ} {c : BitVec 8} (hi : bs[i]? = some c) :
    storeBytes m a bs (a + BitVec.ofNat 32 i) = c := by
  induction bs generalizing m a i with
  | nil => simp at hi
  | cons d ds ih =>
    rw [List.length_cons] at hlen
    cases i with
    | zero =>
      have hc : d = c := Option.some.inj hi
      have hlast : (a - (a + 1)).toNat = 2 ^ 32 - 1 := by
        rw [sub_add_cancel_left]
        rfl
      rw [BitVec.add_zero, storeBytes, storeBytes_of_apart (by omega), Function.update_self, hc]
    | succ i =>
      have hnext : a + BitVec.ofNat 32 (i + 1) = a + 1 + BitVec.ofNat 32 i := by
        rw [add_assoc, Nat.add_comm i 1, BitVec.ofNat_add]
        rfl
      rw [storeBytes, hnext]
      exact ih (by omega) hi

lemma storeBytes_append (m : Mem) (a : Word) (bs cs : List (BitVec 8)) :
    storeBytes m a (bs ++ cs) =
      storeBytes (storeBytes m a bs) (a + BitVec.ofNat 32 bs.length) cs := by
  induction bs generalizing m a with
  | nil => simp [storeBytes]
  | cons b bs ih =>
    have hnext : a + 1 + BitVec.ofNat 32 bs.length = a + BitVec.ofNat 32 (bs.length + 1) := by
      rw [add_assoc, Nat.add_comm bs.length 1, BitVec.ofNat_add]
      rfl
    rw [List.cons_append, storeBytes, ih, storeBytes, List.length_cons, hnext]

lemma store16_eq_storeBytes (m : Mem) (a : Word) (v : BitVec 16) :
    store16 m a v = storeBytes m a [v.extractLsb' 0 8, v.extractLsb' 8 8] := by
  funext b
  by_cases h : (b - a).toNat < 2
  · obtain h0 | h1 : (b - a).toNat = 0 ∨ (b - a).toNat = 1 := by omega
    · have hb : b = a + BitVec.ofNat 32 0 := by
        rw [BitVec.add_zero, ← sub_eq_zero]
        exact BitVec.eq_of_toNat_eq h0
      rw [store16, if_pos h, h0]
      conv_rhs => rw [hb]
      rw [storeBytes_get (i := 0) (by simp) rfl]
    · have hb : b = a + BitVec.ofNat 32 1 := by
        rw [← sub_eq_iff_eq_add']
        exact BitVec.eq_of_toNat_eq h1
      rw [store16, if_pos h, h1]
      conv_rhs => rw [hb]
      rw [storeBytes_get (i := 1) (by simp) rfl]
  · rw [store16, if_neg h, storeBytes_of_apart (not_lt.mp h)]

/-- The `k` bytes at `b` do not meet the `n` bytes at `a`. -/
def RangesApart (a : Word) (n : ℕ) (b : Word) (k : ℕ) : Prop :=
  n ≤ (b - a).toNat ∧ (b - a).toNat + k ≤ 2 ^ 32

instance (a : Word) (n : ℕ) (b : Word) (k : ℕ) : Decidable (RangesApart a n b k) :=
  inferInstanceAs (Decidable (_ ∧ _))

lemma RangesApart.far {n k j : ℕ} (h : RangesApart a n b k) (hj : j < k) :
    n ≤ (b + BitVec.ofNat 32 j - a).toNat := by
  obtain ⟨hlow, hhigh⟩ := h
  rw [add_sub_right_comm, BitVec.toNat_add, BitVec.toNat_ofNat]
  omega

lemma RangesApart.symm {n k : ℕ} (h : RangesApart a n b k) (hn : 0 < n) : RangesApart b k a n := by
  obtain ⟨hlow, hhigh⟩ := h
  have hneg : (a - b).toNat = 2 ^ 32 - (b - a).toNat := by
    rw [← neg_sub, BitVec.toNat_neg]
    omega
  constructor <;> omega

/-- Parts of what is apart. -/
lemma RangesApart.sub_far {n k i w j : ℕ} (h : RangesApart a n b k) (hi : i + w ≤ n) (hj : j < k) :
    w ≤ (b + BitVec.ofNat 32 j - (a + BitVec.ofNat 32 i)).toNat := by
  have hfar := h.far hj
  rw [← sub_sub, BitVec.toNat_sub, BitVec.toNat_ofNat]
  obtain ⟨hlow, hhigh⟩ := h
  have hlt := (b + BitVec.ofNat 32 j - a).isLt
  omega

lemma load32_byte (m : Mem) (a : Word) {k : ℕ} (hk : k < 4) :
    m (a + BitVec.ofNat 32 k) = (load32 m a).extractLsb' (8 * k) 8 := by
  apply BitVec.eq_of_getLsbD_eq
  intro i hi
  simp only [load32, BitVec.getLsbD_extractLsb', BitVec.getLsbD_append]
  have hbase : a + BitVec.ofNat 32 0 = a := BitVec.add_zero a
  interval_cases k
  · rw [hbase]
    grind
  all_goals grind

lemma load16_eq_low16 (m : Mem) (a : Word) : load16 m a = low16 (load32 m a) := by
  apply BitVec.eq_of_getLsbD_eq
  intro i hi
  simp only [load16, low16, load32, BitVec.getLsbD_extractLsb', BitVec.getLsbD_append]
  grind

/-- The bytes of words that follow each other. -/
lemma Holds.byte {ws : List Word} {w : Word} (h : Holds m a ws) {k : ℕ}
    (hk : ws[k / 4]? = some w) :
    m (a + BitVec.ofNat 32 k) = w.extractLsb' (8 * (k % 4)) 8 := by
  have hword := h.get (k / 4) hk
  have hsplit : a + BitVec.ofNat 32 k =
      a + BitVec.ofNat 32 (4 * (k / 4)) + BitVec.ofNat 32 (k % 4) := by
    rw [add_assoc, ← BitVec.ofNat_add, Nat.div_add_mod]
  rw [hsplit, load32_byte m _ (Nat.mod_lt k (by norm_num)), hword]

lemma Holds.bytes_eq {ws : List Word} (h : Holds m a ws) (h' : Holds m' b ws) {k : ℕ}
    (hk : k < 4 * ws.length) : m (a + BitVec.ofNat 32 k) = m' (b + BitVec.ofNat 32 k) := by
  have hlt : k / 4 < ws.length := by omega
  have hw : ws[k / 4]? = some ws[k / 4] := List.getElem?_eq_getElem hlt
  rw [h.byte hw, h'.byte hw]

/-- The same bytes at another address. -/
lemma Holds.move {ws : List Word} (h : Holds m a ws)
    (hsame : ∀ k < 4 * ws.length, m' (b + BitVec.ofNat 32 k) = m (a + BitVec.ofNat 32 k)) :
    Holds m' b ws := by
  induction ws generalizing a b with
  | nil => trivial
  | cons w ws ih =>
    obtain ⟨hw, hws⟩ := h
    rw [List.length_cons] at hsame
    constructor
    · rw [← hw]
      have h0 := hsame 0 (by omega)
      have h1 := hsame 1 (by omega)
      have h2 := hsame 2 (by omega)
      have h3 := hsame 3 (by omega)
      rw [BitVec.add_zero, BitVec.add_zero] at h0
      unfold load32
      rw [h0]
      exact congrArg₂ _ (congrArg₂ _ (congrArg₂ _ h3 h2) h1) rfl
    · refine ih hws fun k hk => ?_
      have hnext := hsame (4 + k) (by omega)
      rwa [BitVec.ofNat_add, ← add_assoc, ← add_assoc] at hnext

lemma holds_replicate_zero {n : ℕ} (h : ∀ k < 4 * n, m (a + BitVec.ofNat 32 k) = 0) :
    Holds m a (List.replicate n 0) := by
  induction n generalizing a with
  | zero => trivial
  | succ n ih =>
    constructor
    · have hzero : load32 m a = load32 (fun _ => 0) a := load32_congr fun k hk => h k (by omega)
      have hbytes : ((0 : BitVec 8) ++ (0 : BitVec 8) ++ (0 : BitVec 8) ++ (0 : BitVec 8) : Word) =
        0 := by decide
      exact hzero.trans hbytes
    · refine ih fun k hk => ?_
      have hnext := h (4 + k) (by omega)
      rwa [BitVec.ofNat_add, ← add_assoc] at hnext

end Bytes

section Segments

inductive SegmentKind
  | code (conforming readable : Bool)
  | data (expandDown writable : Bool)
  | tss (busy : Bool)
  | system (type : BitVec 4)
deriving DecidableEq

structure Segment where
  base : Word
  limit : BitVec 20
  kind : SegmentKind
  dpl : BitVec 2
  present : Bool
  /-- Operands and offsets of 32 bits. -/
  big : Bool
  /-- The limit counts pages. -/
  pages : Bool
deriving DecidableEq

def kindOf (attr : BitVec 8) : SegmentKind :=
  if attr.getLsbD 4 then
    if attr.getLsbD 3 then .code (attr.getLsbD 2) (attr.getLsbD 1)
    else .data (attr.getLsbD 2) (attr.getLsbD 1)
  else if attr.extractLsb' 0 4 = 9 then .tss false
  else if attr.extractLsb' 0 4 = 11 then .tss true
  else .system (attr.extractLsb' 0 4)

def segmentAt (m : Mem) (a : Word) : Segment where
  base := m (a + 7) ++ m (a + 4) ++ m (a + 3) ++ m (a + 2)
  limit := (m (a + 6)).extractLsb' 0 4 ++ m (a + 1) ++ m a
  kind := kindOf (m (a + 5))
  dpl := (m (a + 5)).extractLsb' 5 2
  present := (m (a + 5)).getLsbD 7
  big := (m (a + 6)).getLsbD 6
  pages := (m (a + 6)).getLsbD 7

namespace Segment

/-- The last offset of a segment that does not expand down. -/
def lastOffset (d : Segment) : ℕ :=
  if d.pages then d.limit.toNat * 4096 + 4095 else d.limit.toNat

/-- All of the address space. -/
def Flat (d : Segment) : Prop := d.base = 0 ∧ d.lastOffset = 2 ^ 32 - 1

instance (d : Segment) : Decidable d.Flat := inferInstanceAs (Decidable (_ ∧ _))

end Segment

variable {m m' : Mem} {a b : Word}

lemma segmentAt_congr (h : ∀ k < 8, m' (b + BitVec.ofNat 32 k) = m (a + BitVec.ofNat 32 k)) :
    segmentAt m' b = segmentAt m a := by
  have h0 := h 0 (by norm_num)
  have h1 := h 1 (by norm_num)
  have h2 := h 2 (by norm_num)
  have h3 := h 3 (by norm_num)
  have h4 := h 4 (by norm_num)
  have h5 := h 5 (by norm_num)
  have h6 := h 6 (by norm_num)
  have h7 := h 7 (by norm_num)
  rw [BitVec.add_zero, BitVec.add_zero] at h0
  unfold segmentAt
  congr 1
  · exact congrArg₂ _ (congrArg₂ _ (congrArg₂ _ h7 h4) h3) h2
  · exact congrArg₂ _ (congrArg₂ _ (congrArg _ h6) h1) h0
  · exact congrArg _ h5
  · exact congrArg _ h5
  · exact congrArg (BitVec.getLsbD · 7) h5
  · exact congrArg (BitVec.getLsbD · 6) h6
  · exact congrArg (BitVec.getLsbD · 7) h6

/-- The descriptor of two words. -/
def segmentOfWords (lo hi : Word) : Segment :=
  segmentAt (store32 (store32 (fun _ => 0) 0 lo) 4 hi) 0

lemma Holds.segmentAt {lo hi : Word} (h : Holds m a [lo, hi]) :
    segmentAt m a = segmentOfWords lo hi := by
  have hwords : Holds (store32 (store32 (fun _ => 0) 0 lo) 4 hi) 0 [lo, hi] :=
    ⟨(load32_store32_of_apart (by decide) (by decide)).trans (load32_store32 _ 0 lo),
      load32_store32 _ 4 hi, trivial⟩
  exact segmentAt_congr fun k hk => h.bytes_eq hwords hk

/-- Another attribute byte. -/
lemma segmentAt_update (m : Mem) (a : Word) (c : BitVec 8) :
    segmentAt (Function.update m (a + 5) c) a = { segmentAt m a with
      kind := kindOf c
      dpl := c.extractLsb' 5 2
      present := c.getLsbD 7 } := by
  have hne : ∀ k : Word, k ≠ 5 → Function.update m (a + 5) c (a + k) = m (a + k) :=
    fun k hk => Function.update_of_ne (fun h => hk (add_left_cancel h)) _ _
  have hbase : Function.update m (a + 5) c a = m a := by
    have hzero := hne 0 (by decide)
    rwa [add_zero] at hzero
  unfold X86.segmentAt
  rw [hne 7 (by decide), hne 6 (by decide), hne 4 (by decide), hne 3 (by decide),
    hne 2 (by decide), hne 1 (by decide), hbase, Function.update_self]

end Segments

section Tables

/-- `GDTR` or `IDTR`. -/
structure TableRegister where
  base : Word
  limit : BitVec 16
deriving DecidableEq

/-- The six bytes of the operand of `lgdt` and `lidt`. -/
def TableRegister.ofOperand (w : BitVec 64) : TableRegister where
  base := w.extractLsb' 16 32
  limit := w.extractLsb' 0 16

/-- `ltr` reads the descriptor once. What `LDTR` names is not known here. -/
structure TableRegisters where
  gdtr : TableRegister
  idtr : TableRegister
  tr : Segment
  ldt : ℕ → Option Segment

def rpl (selector : BitVec 16) : BitVec 2 := selector.setWidth 2

/-- The segment of a selector, if there is one within the table. -/
def segmentOf (m : Mem) (t : TableRegisters) (selector : BitVec 16) : Option Segment :=
  let index := selector.toNat / 8
  if selector.getLsbD 2 then t.ldt index
  else if index ≠ 0 ∧ 8 * index + 7 ≤ t.gdtr.limit.toNat then
    some (segmentAt m (t.gdtr.base + BitVec.ofNat 32 (8 * index)))
  else none

/-- `ltr` takes a task that is not busy and marks it. -/
def ltr (m : Mem) (t : TableRegisters) (selector : BitVec 16) : Option (Mem × TableRegisters) :=
  if selector.getLsbD 2 then none
  else match segmentOf m t selector with
    | some d =>
      if d.kind = .tss false ∧ d.present then
        let a := t.gdtr.base + BitVec.ofNat 32 (8 * (selector.toNat / 8)) + 5
        let m := Function.update m a (m a ||| 2)
        some (m, { t with tr := { d with kind := .tss true } })
      else none
    | none => none

lemma ltr_eq {m : Mem} {t : TableRegisters} {selector : BitVec 16} {d : Segment}
    (hti : selector.getLsbD 2 = false) (h : segmentOf m t selector = some d)
    (hkind : d.kind = .tss false) (hpresent : d.present = true) :
    let a := t.gdtr.base + BitVec.ofNat 32 (8 * (selector.toNat / 8)) + 5
    ltr m t selector =
      some (Function.update m a (m a ||| 2), { t with tr := { d with kind := .tss true } }) := by
  rw [ltr, hti, if_neg Bool.false_ne_true, h]
  exact if_pos ⟨hkind, hpresent⟩

/-- The check of `mov` and `pop` to `ds`, `es`, `fs` and `gs`, a null selector apart. -/
def loadsData (m : Mem) (t : TableRegisters) (cpl : BitVec 2) (selector : BitVec 16) : Bool :=
  match segmentOf m t selector with
  | some d => d.present && match d.kind with
    | .data _ _ => cpl ≤ d.dpl && rpl selector ≤ d.dpl
    | .code conforming readable => readable && (conforming || cpl ≤ d.dpl && rpl selector ≤ d.dpl)
    | _ => false
  | none => false

/-- The checks of `iret` to an outer ring. -/
def iretChecks (m : Mem) (t : TableRegisters) (cpl : BitVec 2) (cs ss : BitVec 16) : Bool :=
  match segmentOf m t cs, segmentOf m t ss with
  | some c, some d =>
    c.present && d.present && cpl < rpl cs && rpl ss == rpl cs && d.dpl == rpl cs &&
      (match c.kind with
        | .code conforming _ => if conforming then c.dpl ≤ rpl cs else c.dpl == rpl cs
        | _ => false) &&
      (match d.kind with
        | .data _ writable => writable
        | _ => false)
  | _, _ => false

end Tables

section Gates

structure GateDescriptor where
  offset : Word
  selector : BitVec 16
  type : BitVec 5
  dpl : BitVec 2
  present : Bool
deriving DecidableEq

def interruptGate32 : BitVec 5 := 0xe

def gateAt (m : Mem) (a : Word) : GateDescriptor where
  offset := m (a + 7) ++ m (a + 6) ++ m (a + 1) ++ m a
  selector := m (a + 3) ++ m (a + 2)
  type := (m (a + 5)).extractLsb' 0 5
  dpl := (m (a + 5)).extractLsb' 5 2
  present := (m (a + 5)).getLsbD 7

lemma gateAt_congr {m m' : Mem} {a b : Word}
    (h : ∀ k < 8, m' (b + BitVec.ofNat 32 k) = m (a + BitVec.ofNat 32 k)) :
    gateAt m' b = gateAt m a := by
  have h0 := h 0 (by norm_num)
  have h1 := h 1 (by norm_num)
  have h2 := h 2 (by norm_num)
  have h3 := h 3 (by norm_num)
  have h5 := h 5 (by norm_num)
  have h6 := h 6 (by norm_num)
  have h7 := h 7 (by norm_num)
  rw [BitVec.add_zero, BitVec.add_zero] at h0
  unfold gateAt
  congr 1
  · exact congrArg₂ _ (congrArg₂ _ (congrArg₂ _ h7 h6) h1) h0
  · exact congrArg₂ _ h3 h2
  · exact congrArg _ h5
  · exact congrArg _ h5
  · exact congrArg (BitVec.getLsbD · 7) h5

/-- What comes of a vector: an interrupt gate to ring 0, a fault with its error code, or what is
not described here. -/
inductive Delivery
  | enter (g : State.Gate)
  | fault (vector : ℕ) (code : Word)
  | other

def gpVector : ℕ := 13

def npVector : ℕ := 11

/-- The error code for an entry of the IDT. -/
def idtCode (n : ℕ) : Word := BitVec.ofNat 32 (8 * n + 2)

/-- The code segment of a gate and the stack of ring 0, once the gate itself is accepted. -/
def throughGate (m : Mem) (t : TableRegisters) (g : GateDescriptor) : Delivery :=
  match segmentOf m t g.selector with
  | some d =>
    match d.kind with
    | .code false _ =>
      if g.type = interruptGate32 ∧ d.dpl = 0 ∧ d.present then
        .enter ⟨load32 m (t.tr.base + 4), load16 m (t.tr.base + 8), g.selector, g.offset⟩
      else .other
    | _ => .other
  | none => .other

/-- `int n` is held against the level of the gate, exceptions and devices are not. -/
def deliver (m : Mem) (t : TableRegisters) (cpl : BitVec 2) (software : Bool) (n : ℕ) : Delivery :=
  if t.idtr.limit.toNat < 8 * n + 7 then .fault gpVector (idtCode n)
  else
    let g := gateAt m (t.idtr.base + BitVec.ofNat 32 (8 * n))
    if g.type.getLsbD 4 then .fault gpVector (idtCode n)
    else if software ∧ g.dpl < cpl then .fault gpVector (idtCode n)
    else if ¬ g.present then .fault npVector (idtCode n)
    else throughGate m t g

section Accepted

variable {m : Mem} {t : TableRegisters} {cpl : BitVec 2} {software : Bool} {n : ℕ} {g : GateDescriptor}
  (hlimit : 8 * n + 7 ≤ t.idtr.limit.toNat)
  (hgate : gateAt m (t.idtr.base + BitVec.ofNat 32 (8 * n)) = g) (htype : g.type = interruptGate32)

include hlimit hgate htype

lemma deliver_enter (hpresent : g.present = true) (hdpl : software = true → cpl ≤ g.dpl)
    {d : Segment} {readable : Bool} (hsegment : segmentOf m t g.selector = some d)
    (hkind : d.kind = .code false readable) (hring : d.dpl = 0) (hthere : d.present = true) :
    deliver m t cpl software n =
      .enter ⟨load32 m (t.tr.base + 4), load16 m (t.tr.base + 8), g.selector, g.offset⟩ := by
  have hbit : ¬ g.type.getLsbD 4 = true := by
    rw [htype]
    decide
  have hlevel : ¬ (software = true ∧ g.dpl < cpl) := by
    rintro ⟨hs, hlt⟩
    have hle := hdpl hs
    bv_omega
  rw [deliver, if_neg (by omega)]
  simp only [hgate]
  rw [if_neg hbit, if_neg hlevel, if_neg (not_not.mpr hpresent), throughGate, hsegment]
  simp only [hkind]
  exact if_pos ⟨htype, hring, hthere⟩

lemma deliver_level (hdpl : g.dpl < cpl) :
    deliver m t cpl true n = .fault gpVector (idtCode n) := by
  have hbit : ¬ g.type.getLsbD 4 = true := by
    rw [htype]
    decide
  rw [deliver, if_neg (by omega)]
  simp only [hgate]
  rw [if_neg hbit, if_pos ⟨trivial, hdpl⟩]

end Accepted

lemma deliver_outside {m : Mem} {t : TableRegisters} {cpl : BitVec 2} {software : Bool} {n : ℕ}
    (h : t.idtr.limit.toNat < 8 * n + 7) :
    deliver m t cpl software n = .fault gpVector (idtCode n) := if_pos h

/-- `int n`, two bytes long. A fault returns to the instruction. -/
def int (s : State) (t : TableRegisters) (n : BitVec 8) : Option State :=
  match deliver s.mem t s.cpl true n.toNat with
  | .enter g => some ({ s with eip := s.eip + 2 }.interrupt g none)
  | .fault v code =>
    match deliver s.mem t s.cpl false v with
    | .enter g => some (s.interrupt g (some code))
    | _ => none
  | .other => none

section Int

variable {s : State} {t : TableRegisters} {n : BitVec 8} {g : State.Gate} {v : ℕ} {code : Word}

lemma int_enter (h : deliver s.mem t s.cpl true n.toNat = .enter g) :
    int s t n = some ({ s with eip := s.eip + 2 }.interrupt g none) := by
  rw [int, h]

lemma int_fault (h : deliver s.mem t s.cpl true n.toNat = .fault v code)
    (hfault : deliver s.mem t s.cpl false v = .enter g) :
    int s t n = some (s.interrupt g (some code)) := by
  rw [int, h]
  simp only
  rw [hfault]

end Int

end Gates

section Ports

/-- `in` and `out` of one byte outside the rings of `IOPL` ask the bit of the port. The processor
reads two bytes of the map. -/
def portAllowed (m : Mem) (t : TableRegisters) (cpl iopl : BitVec 2) (port : BitVec 16) : Bool :=
  if cpl ≤ iopl then true
  else if t.tr.lastOffset < 103 then false
  else
    let byte := (load16 m (t.tr.base + 102)).toNat + port.toNat / 8
    byte < t.tr.lastOffset &&
      !(load16 m (t.tr.base + BitVec.ofNat 32 byte)).getLsbD (port.toNat % 8)

lemma portAllowed_eq {m : Mem} {t : TableRegisters} {cpl iopl : BitVec 2} (port : BitVec 16)
    (hring : ¬ cpl ≤ iopl) (hlimit : 2 ^ 16 + 2 ^ 13 ≤ t.tr.lastOffset) :
    portAllowed m t cpl iopl port = !(m (t.tr.base +
      BitVec.ofNat 32 ((load16 m (t.tr.base + 102)).toNat + port.toNat / 8))).getLsbD
        (port.toNat % 8) := by
  have hmap := (load16 m (t.tr.base + 102)).isLt
  have hport := port.isLt
  have hbit : ∀ (a : Word) (i : ℕ), i < 8 → (load16 m a).getLsbD i = (m a).getLsbD i := by
    intro a i hi
    rw [load16, BitVec.getLsbD_append]
    simp [hi]
  rw [portAllowed, if_neg hring, if_neg (by omega)]
  simp only
  rw [decide_eq_true (by omega), Bool.true_and, hbit _ _ (by omega)]

end Ports

end X86
