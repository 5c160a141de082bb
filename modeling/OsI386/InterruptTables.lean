import OsI386.ContextSwitch
import OsI386.DescriptorTables

/-!
# kernel/interrupt.c and the vectors of kernel/kernel.s

`intr_entry_table` has the 48 stubs of kernel.s, and `idt_desc_init` reads 129 words from it. The
word of `idt_table` for a vector is the function its stub calls.
-/
namespace OsI386
open X86

section Code

def idtDescCnt : ℕ := 0x81

def intSyscall : ℕ := 0x80

/-- `IDT_DESC_P`, `IDT_DESC_DPL0` and `IDT_DESC_32_TYPE`. -/
def idtDescAttrDpl0 : BitVec 8 := 1 <<< 7 + 0 <<< 5 + 0xe

def idtDescAttrDpl3 : BitVec 8 := 1 <<< 7 + 3 <<< 5 + 0xe

/-- The addresses of the objects and functions of interrupt.c and kernel.s. -/
structure IntrSymbols where
  idt : Word
  idtTable : Word
  intrEntryTable : Word
  syscallEntry : Word
  generalIntrHandler : Word

def idtDescMake (m : Mem) (pGdesc : Word) (attr : BitVec 8) (func : Word) : Mem :=
  let m := store16 m pGdesc (low16 (func &&& 0x0000ffff))
  let m := store16 m (pGdesc + 2) selectorKCode
  let m := Function.update m (pGdesc + 4) 0
  let m := Function.update m (pGdesc + 5) attr
  store16 m (pGdesc + 6) (low16 ((func &&& 0xffff0000) >>> 16))

variable (c : IntrSymbols)

namespace IntrSymbols

/-- `&idt[i]`, `&intr_entry_table[i]` and `&idt_table[i]`. -/
def gate (i : ℕ) : Word := c.idt + BitVec.ofNat 32 (8 * i)

def entry (i : ℕ) : Word := c.intrEntryTable + BitVec.ofNat 32 (4 * i)

def handler (i : ℕ) : Word := c.idtTable + BitVec.ofNat 32 (4 * i)

end IntrSymbols

/-- `i` rounds of the loop of `idt_desc_init`. -/
def idtDescLoop (m : Mem) : ℕ → Mem
  | 0 => m
  | i + 1 =>
    let m := idtDescLoop m i
    idtDescMake m (c.gate i) idtDescAttrDpl0 (load32 m (c.entry i))

def idtDescInit (m : Mem) : Mem :=
  idtDescMake (idtDescLoop c m idtDescCnt) (c.gate intSyscall) idtDescAttrDpl3 c.syscallEntry

/-- `i` rounds of the loop of `exception_init`. -/
def exceptionLoop (m : Mem) : ℕ → Mem
  | 0 => m
  | i + 1 => store32 (exceptionLoop m i) (c.handler i) c.generalIntrHandler

def exceptionInit (m : Mem) : Mem := exceptionLoop c m idtDescCnt

def idtOper : BitVec 64 := (c.idt.signExtend 64 <<< 16 &&& 0xffffffff0000) ||| (8 * 0x81 - 1)

def idtInit (m : Mem) (t : TableRegisters) : Mem × TableRegisters :=
  (exceptionInit c (idtDescInit c m), { t with idtr := .ofOperand (idtOper c) })

def intrHandlerRegister (m : Mem) (vecNo : BitVec 8) (func : Word) : Mem :=
  store32 m (c.handler vecNo.toNat) func

/-- `kernel.s` has stubs for the vectors 0x00 to 0x2f. -/
def vectorCnt : ℕ := 0x30

/-- The stub of a vector up to the function it calls. `al` acknowledges the interrupt at both
controllers; `scheduler` is the address of `running_thread`. -/
def vectorStub (scheduler next : Word) (vector : ℕ) (s : State) : State :=
  let s := vectorEntry scheduler vector s
  let s := { s with eax := setLow8 s.eax 0x20 }
  let s := s.push (BitVec.ofNat 32 vector)
  s.call (load32 s.mem (c.handler vector)) next

end Code

section Gates

variable {m : Mem} {p func : Word} {attr : BitVec 8}

def gateBytes (attr : BitVec 8) (func : Word) : List (BitVec 8) :=
  [func.extractLsb' 0 8, func.extractLsb' 8 8, 8, 0, 0, attr, func.extractLsb' 16 8,
    func.extractLsb' 24 8]

lemma low16_high (w : Word) : low16 ((w &&& 0xffff0000) >>> 16) = high16 w := by
  apply BitVec.eq_of_getLsbD_eq
  intro i hi
  simp only [low16, high16, BitVec.getLsbD_extractLsb', BitVec.getLsbD_ushiftRight,
    BitVec.getLsbD_and]
  interval_cases i <;> simp

lemma extractLsb'_high16 (w : Word) : (high16 w).extractLsb' 0 8 = w.extractLsb' 16 8 ∧
    (high16 w).extractLsb' 8 8 = w.extractLsb' 24 8 := by
  constructor
  all_goals
    apply BitVec.eq_of_getLsbD_eq
    intro i hi
    simp only [high16, BitVec.getLsbD_extractLsb']
    interval_cases i <;> simp

lemma idtDescMake_eq : idtDescMake m p attr func = storeBytes m p (gateBytes attr func) := by
  unfold idtDescMake
  simp only [store16_eq_storeBytes, (extractLsb'_and_ffff _).1, (extractLsb'_and_ffff _).2,
    low16_high, (extractLsb'_high16 _).1, (extractLsb'_high16 _).2]
  simp only [gateBytes, storeBytes, add_assoc]
  rfl

lemma idtDescMake_of_apart {b : Word} (h : 8 ≤ (b - p).toNat) : idtDescMake m p attr func b = m b := by
  rw [idtDescMake_eq]
  exact storeBytes_of_apart h

lemma gateAt_idtDescMake : gateAt (idtDescMake m p attr func) p =
    ⟨func, selectorKCode, attr.extractLsb' 0 5, attr.extractLsb' 5 2, attr.getLsbD 7⟩ := by
  have hbyte : ∀ {k : ℕ} {b : BitVec 8}, (gateBytes attr func)[k]? = some b →
      idtDescMake m p attr func (p + BitVec.ofNat 32 k) = b := by
    intro k b hk
    rw [idtDescMake_eq]
    exact storeBytes_get (by simp [gateBytes]) hk
  have h0 := hbyte (k := 0) rfl
  have h1 := hbyte (k := 1) rfl
  have h2 := hbyte (k := 2) rfl
  have h3 := hbyte (k := 3) rfl
  have h5 := hbyte (k := 5) rfl
  have h6 := hbyte (k := 6) rfl
  have h7 := hbyte (k := 7) rfl
  rw [BitVec.add_zero] at h0
  unfold gateAt
  congr 1
  · refine Eq.trans ?_ (append_extractLsb' func)
    exact congrArg₂ _ (congrArg₂ _ (congrArg₂ _ h7 h6) h1) h0
  · exact (congrArg₂ _ h3 h2).trans (by decide)
  · exact congrArg _ h5
  · exact congrArg _ h5
  · exact congrArg (BitVec.getLsbD · 7) h5

end Gates

section Tables

variable {c : IntrSymbols} {m m' : Mem} {t : TableRegisters} {n : ℕ}

/-- Gates, entries and handlers are in memory of their own. -/
structure IntrSymbols.Linked (c : IntrSymbols) : Prop where
  entries : RangesApart c.idt 0x408 c.intrEntryTable 0x204
  handlers : RangesApart c.idt 0x408 c.idtTable 0x204

/-- The descriptors and the state segment are apart from them too. -/
structure IntrSymbols.LinkedWith (c : IntrSymbols) (tss : Word) : Prop extends c.Linked where
  gdtIdt : RangesApart gdtBaseAddr 56 c.idt 0x408
  gdtHandlers : RangesApart gdtBaseAddr 56 c.idtTable 0x204
  tssGdt : TssApart tss
  tssIdt : RangesApart tss 108 c.idt 0x408
  tssHandlers : RangesApart tss 108 c.idtTable 0x204

/-- The gate of each vector: the entry point is the word read for it, but for system calls. -/
def idtGate (c : IntrSymbols) (m : Mem) (i : ℕ) : GateDescriptor :=
  if i = intSyscall then ⟨c.syscallEntry, selectorKCode, interruptGate32, 3, true⟩
  else ⟨load32 m (c.entry i), selectorKCode, interruptGate32, 0, true⟩

lemma toNat_gate_sub {i j k : ℕ} (hij : i ≠ j) (hi : i < 0x81) (hj : j < 0x81) (hk : k < 8) :
    8 ≤ (c.gate i + BitVec.ofNat 32 k - c.gate j).toNat := by
  have hoff : c.gate i + BitVec.ofNat 32 k - c.gate j =
      BitVec.ofNat 32 (8 * i + k) - BitVec.ofNat 32 (8 * j) := by
    rw [IntrSymbols.gate, IntrSymbols.gate, add_assoc, ← BitVec.ofNat_add, add_sub_add_left_eq_sub]
  rw [hoff, BitVec.toNat_sub, BitVec.toNat_ofNat, BitVec.toNat_ofNat]
  omega

/-- What the loop has made after `n` rounds, and what it has left. -/
structure GatesMade (c : IntrSymbols) (m m' : Mem) (n : ℕ) : Prop where
  gate : ∀ i < n, gateAt m' (c.gate i) =
    ⟨load32 m (c.entry i), selectorKCode, interruptGate32, 0, true⟩
  outside : ∀ b, 8 * n ≤ (b - c.idt).toNat → m' b = m b

lemma GatesMade.entry (h : GatesMade c m m' n) (hl : c.Linked) (hn : n ≤ 0x81) {i : ℕ}
    (hi : i < 0x81) : load32 m' (c.entry i) = load32 m (c.entry i) := by
  refine load32_congr fun k hk => h.outside _ ?_
  have hfar := hl.entries.far (j := 4 * i + k) (by omega)
  rw [IntrSymbols.entry, add_assoc, ← BitVec.ofNat_add]
  omega

lemma gatesMade_succ {n : ℕ} (h : GatesMade c m m' n) (hl : c.Linked) (hn : n < 0x81) :
    GatesMade c m (idtDescMake m' (c.gate n) idtDescAttrDpl0 (load32 m' (c.entry n))) (n + 1) where
  gate i hi := by
    obtain hlt | rfl : i < n ∨ i = n := by omega
    · rw [← h.gate i hlt]
      exact gateAt_congr fun k hk =>
        idtDescMake_of_apart (toNat_gate_sub (by omega) (by omega) hn hk)
    · rw [gateAt_idtDescMake, h.entry hl hn.le hn]
      rfl
  outside b hb := by
    refine (idtDescMake_of_apart ?_).trans (h.outside b (by omega))
    have hlt := (b - c.idt).isLt
    rw [IntrSymbols.gate, ← sub_sub, BitVec.toNat_sub, BitVec.toNat_ofNat]
    omega

lemma gatesMade_idtDescLoop (hl : c.Linked) {n : ℕ} (hn : n ≤ 0x81) :
    GatesMade c m (idtDescLoop c m n) n := by
  induction n with
  | zero => exact ⟨fun i hi => absurd hi (Nat.not_lt_zero i), fun _ _ => rfl⟩
  | succ n ih => exact gatesMade_succ (ih (by omega)) hl (by omega)

/-- `m'` has the gates for the entries of `m`. -/
structure IdtReady (c : IntrSymbols) (m m' : Mem) : Prop where
  gate : ∀ i < idtDescCnt, gateAt m' (c.gate i) = idtGate c m i

lemma idtReady_idtDescInit (hl : c.Linked) (m : Mem) : IdtReady c m (idtDescInit c m) where
  gate i hi := by
    have hmade := gatesMade_idtDescLoop (m := m) hl (le_refl 0x81)
    by_cases hsys : i = intSyscall
    · rw [idtGate, if_pos hsys, hsys, idtDescInit, gateAt_idtDescMake]
      rfl
    · rw [idtGate, if_neg hsys, ← hmade.gate i hi, idtDescInit]
      exact gateAt_congr fun k hk => idtDescMake_of_apart (toNat_gate_sub hsys hi (by decide) hk)

lemma idtDescInit_of_apart (hl : c.Linked) {b : Word} (hb : 0x408 ≤ (b - c.idt).toNat) :
    idtDescInit c m b = m b := by
  have hmade := gatesMade_idtDescLoop (m := m) hl (le_refl 0x81)
  refine (idtDescMake_of_apart ?_).trans (hmade.outside b (by omega))
  have hlt := (b - c.idt).isLt
  rw [IntrSymbols.gate, intSyscall, ← sub_sub, BitVec.toNat_sub, BitVec.toNat_ofNat]
  omega

/-- `idt_table` has the functions `f`. -/
def HandlersAre (c : IntrSymbols) (m : Mem) (f : ℕ → Word) : Prop :=
  ∀ i < idtDescCnt, load32 m (c.handler i) = f i

lemma handler_apart {i j : ℕ} (hij : i ≠ j) (hi : i < 0x81) (hj : j < 0x81) :
    4 ≤ (c.handler i - c.handler j).toNat ∧ (c.handler i - c.handler j).toNat + 4 ≤ 2 ^ 32 := by
  rw [IntrSymbols.handler, IntrSymbols.handler, add_sub_add_left_eq_sub, BitVec.toNat_sub,
    BitVec.toNat_ofNat, BitVec.toNat_ofNat]
  omega

lemma exceptionLoop_spec {n : ℕ} (hn : n ≤ 0x81) :
    (∀ i < n, load32 (exceptionLoop c m n) (c.handler i) = c.generalIntrHandler) ∧
      ∀ b, 4 * n ≤ (b - c.idtTable).toNat → exceptionLoop c m n b = m b := by
  induction n with
  | zero => exact ⟨fun i hi => absurd hi (Nat.not_lt_zero i), fun _ _ => rfl⟩
  | succ n ih =>
    obtain ⟨hmade, hout⟩ := ih (by omega)
    constructor
    · intro i hi
      obtain hlt | rfl : i < n ∨ i = n := by omega
      · obtain ⟨hlow, hhigh⟩ := handler_apart (c := c) (show i ≠ n by omega) (by omega) (by omega)
        exact (load32_store32_of_apart hlow hhigh).trans (hmade i hlt)
      · exact load32_store32 _ _ _
    · intro b hb
      refine (store32_of_apart ?_).trans (hout b (by omega))
      have hlt := (b - c.idtTable).isLt
      rw [IntrSymbols.handler, ← sub_sub, BitVec.toNat_sub, BitVec.toNat_ofNat]
      omega

lemma HandlersAre.register {f : ℕ → Word} (h : HandlersAre c m f) {vecNo : BitVec 8}
    (hvec : vecNo.toNat < idtDescCnt) (func : Word) :
    HandlersAre c (intrHandlerRegister c m vecNo func) (Function.update f vecNo.toNat func) := by
  intro i hi
  by_cases hiv : i = vecNo.toNat
  · rw [hiv, Function.update_self]
    exact load32_store32 _ _ _
  · obtain ⟨hlow, hhigh⟩ := handler_apart (c := c) hiv hi hvec
    rw [Function.update_of_ne hiv, ← h i hi]
    exact load32_store32_of_apart hlow hhigh

lemma idtReady_congr {m₀ : Mem} (h : IdtReady c m₀ m)
    (hsame : ∀ k < 0x408, m' (c.idt + BitVec.ofNat 32 k) = m (c.idt + BitVec.ofNat 32 k)) :
    IdtReady c m₀ m' where
  gate i hi := by
    rw [← h.gate i hi]
    refine gateAt_congr fun k hk => ?_
    unfold idtDescCnt at hi
    rw [IntrSymbols.gate, add_assoc, ← BitVec.ofNat_add]
    exact hsame _ (by omega)

lemma HandlersAre.congr {f : ℕ → Word} (h : HandlersAre c m f)
    (hsame : ∀ k < 0x204, m' (c.idtTable + BitVec.ofNat 32 k) = m (c.idtTable + BitVec.ofNat 32 k)) :
    HandlersAre c m' f := by
  intro i hi
  rw [← h i hi]
  refine load32_congr fun k hk => ?_
  unfold idtDescCnt at hi
  rw [IntrSymbols.handler, add_assoc, ← BitVec.ofNat_add]
  exact hsame _ (by omega)

lemma register_of_apart {vecNo : BitVec 8} {func a : Word} {n j : ℕ}
    (h : RangesApart a n c.idtTable 0x204) (hvec : vecNo.toNat < idtDescCnt) (hj : j < n) :
    intrHandlerRegister c m vecNo func (a + BitVec.ofNat 32 j) = m (a + BitVec.ofNat 32 j) := by
  unfold idtDescCnt at hvec
  exact store32_of_apart ((h.symm (by omega)).sub_far (by omega) hj)

end Tables

section Runs

open TransitionSystem

/-- `other` is any code, and the processor as it marks segments accessed. -/
inductive VectorEvent
  | tssInit
  | esp0Update (thread : Word)
  | register (vecNo : BitVec 8) (func : Word)
  | other (m : Mem)

/-- Memory, the registers of the tables, the functions registered last, and whether `tss_init` has
run. -/
structure VectorState where
  mem : Mem
  tables : TableRegisters
  handlers : ℕ → Word
  loaded : Bool

def vectorStep (c : IntrSymbols) (tss : Word) (s : VectorState) : VectorEvent → Option VectorState
  | .tssInit =>
    (tssInit s.mem s.tables tss).map fun r => { s with mem := r.1, tables := r.2, loaded := true }
  | .esp0Update thread => some { s with mem := tssEsp0UpdateAt s.mem tss thread }
  | .register vecNo func => some { s with
      mem := intrHandlerRegister c s.mem vecNo func
      handlers := Function.update s.handlers vecNo.toNat func }
  | .other m => some { s with mem := m }

/-- `init_all` calls `tss_init` once, a thread is at the start of its page, and other code leaves
the tables. -/
def VectorAllowed (c : IntrSymbols) (tss : Word) (s : VectorState) : VectorEvent → Prop
  | .tssInit => s.loaded = false
  | .esp0Update thread => thread.toNat % 4096 = 0
  | .register vecNo _ => vecNo.toNat < idtDescCnt
  | .other m => TssAllowed tss s.mem (.other m) ∧
      (∀ k < 0x408, m (c.idt + BitVec.ofNat 32 k) = s.mem (c.idt + BitVec.ofNat 32 k)) ∧
      ∀ k < 0x204, m (c.idtTable + BitVec.ofNat 32 k) = s.mem (c.idtTable + BitVec.ofNat 32 k)

/-- The state in which `idt_init` returns. -/
def afterIdtInit (c : IntrSymbols) (m : Mem) (t : TableRegisters) : VectorState where
  mem := (idtInit c m t).1
  tables := (idtInit c m t).2
  handlers := fun _ => c.generalIntrHandler
  loaded := false

/-- `m` is memory before `idt_init`. -/
structure VectorInv (c : IntrSymbols) (tss : Word) (m : Mem) (s : VectorState) : Prop where
  idtr : s.tables.idtr = ⟨c.idt, 0x407⟩
  gates : IdtReady c m s.mem
  handlers : HandlersAre c s.mem s.handlers
  before : s.loaded = false → LoaderGdt s.mem
  after : s.loaded = true → TssInv tss s.tables s.mem

variable {c : IntrSymbols} {tss : Word} {m : Mem} {t : TableRegisters} {s s' : VectorState}

lemma exceptionInit_of_apart {b : Word} (h : 0x204 ≤ (b - c.idtTable).toNat) :
    exceptionInit c m b = m b := (exceptionLoop_spec (le_refl 0x81)).2 b h

lemma idtOper_eq (c : IntrSymbols) : TableRegister.ofOperand (idtOper c) = ⟨c.idt, 0x407⟩ := by
  have hbase : (idtOper c).extractLsb' 16 32 = c.idt := by
    apply BitVec.eq_of_getLsbD_eq
    intro i hi
    rw [idtOper]
    generalize c.idt = a
    simp only [BitVec.getLsbD_extractLsb', BitVec.getLsbD_or, BitVec.getLsbD_and,
      BitVec.getLsbD_shiftLeft, BitVec.getLsbD_signExtend]
    interval_cases i <;> simp
  have hlimit : (idtOper c).extractLsb' 0 16 = 0x407 := by
    apply BitVec.eq_of_getLsbD_eq
    intro i hi
    rw [idtOper]
    simp only [BitVec.getLsbD_extractLsb', BitVec.getLsbD_or, BitVec.getLsbD_and,
      BitVec.getLsbD_shiftLeft]
    interval_cases i <;> simp
  rw [TableRegister.ofOperand, hbase, hlimit]

lemma vectorInv_afterIdtInit (hl : c.LinkedWith tss) (h : LoaderGdt m) :
    VectorInv c tss m (afterIdtInit c m t) where
  idtr := idtOper_eq c
  gates := idtReady_congr (idtReady_idtDescInit hl.toLinked m) fun _ hk =>
    exceptionInit_of_apart ((hl.handlers.symm (by norm_num)).far hk)
  handlers := (exceptionLoop_spec (le_refl 0x81)).1
  before _ := by
    refine h.congr fun i _ hi => segmentAt_congr fun k hk => ?_
    rw [gdtEntry_add]
    refine (exceptionInit_of_apart ?_).trans (idtDescInit_of_apart hl.toLinked ?_)
    · exact (hl.gdtHandlers.symm (by norm_num)).far (by omega)
    · exact (hl.gdtIdt.symm (by norm_num)).far (by omega)
  after hloaded := absurd hloaded Bool.false_ne_true

lemma vectorInv_step (hl : c.LinkedWith tss) {e : VectorEvent} (h : VectorInv c tss m s)
    (ok : VectorAllowed c tss s e) (taken : vectorStep c tss s e = some s') : VectorInv c tss m s' := by
  cases e with
  | tssInit =>
    have hloaded : s.loaded = false := ok
    obtain ⟨n, u, hinit, hready, hidtr, hout⟩ := tssInit_ready (h.before hloaded) hl.tssGdt s.tables
    have hs : s' = { s with mem := n, tables := u, loaded := true } := by
      rw [vectorStep, hinit] at taken
      exact (Option.some.inj taken).symm
    subst hs
    refine ⟨hidtr.trans h.idtr, idtReady_congr h.gates fun k hk => ?_,
      h.handlers.congr fun k hk => ?_, fun hfalse => absurd hfalse Bool.true_eq_false.mp,
      fun _ => ⟨0, hready, rfl⟩⟩
    · exact hout _ (hl.gdtIdt.far hk) (hl.tssIdt.far hk)
    · exact hout _ (hl.gdtHandlers.far hk) (hl.tssHandlers.far hk)
  | esp0Update thread =>
    obtain rfl := Option.some.inj taken
    refine ⟨h.idtr, idtReady_congr h.gates fun k hk => ?_, h.handlers.congr fun k hk => ?_,
      fun hloaded => (h.before hloaded).congr fun i hlow hhigh => ?_, fun hloaded => ?_⟩
    · exact tssEsp0UpdateAt_of_apart (hl.tssIdt.far hk) thread
    · exact tssEsp0UpdateAt_of_apart (hl.tssHandlers.far hk) thread
    · refine segmentAt_congr fun k hk => tssEsp0UpdateAt_of_apart ?_ thread
      rw [gdtEntry_add]
      exact (hl.tssGdt.symm (by norm_num)).far (by omega)
    · exact tssInv_step hl.tssGdt (e := .esp0Update thread) (h.after hloaded) ok rfl
  | register vecNo func =>
    obtain rfl := Option.some.inj taken
    have hsegments : ∀ i, 1 ≤ i → i < 7 →
        segmentAt (intrHandlerRegister c s.mem vecNo func) (gdtEntry i) =
          segmentAt s.mem (gdtEntry i) := by
      intro i _ hi
      refine segmentAt_congr fun k hk => ?_
      rw [gdtEntry_add]
      exact register_of_apart hl.gdtHandlers ok (by omega)
    refine ⟨h.idtr, idtReady_congr h.gates fun k hk => register_of_apart hl.handlers ok hk,
      h.handlers.register ok func, fun hloaded => (h.before hloaded).congr hsegments,
      fun hloaded => ?_⟩
    exact tssInv_step hl.tssGdt (e := .other _) (h.after hloaded)
      ⟨hsegments, fun k hk => register_of_apart hl.tssHandlers ok hk⟩ rfl
  | other m' =>
    obtain rfl := Option.some.inj taken
    obtain ⟨htss, hgates, hhandlers⟩ := ok
    exact ⟨h.idtr, idtReady_congr h.gates hgates, h.handlers.congr hhandlers,
      fun hloaded => (h.before hloaded).congr htss.1,
      fun hloaded => tssInv_step hl.tssGdt (h.after hloaded) htss rfl⟩

lemma reach_vectorInv (hl : c.LinkedWith tss) (h : LoaderGdt m)
    (hreach : Reach (vectorStep c tss) (VectorAllowed c tss) (afterIdtInit c m t) s) :
    VectorInv c tss m s :=
  hreach.invariant (vectorInv_afterIdtInit hl h) fun _ _ _ hs ok taken =>
    vectorInv_step hl hs ok taken

end Runs

section Linked

/-- The places of kernel.map. -/
def linkedSymbols : IntrSymbols :=
  ⟨0xc0007580, 0xc0007360, 0xc0007204, 0xc0002366, 0xc0001780⟩

lemma linkedSymbols_linked : linkedSymbols.LinkedWith 0xc00079c0 where
  entries := by decide
  handlers := by decide
  gdtIdt := by decide
  gdtHandlers := by decide
  tssGdt := by decide
  tssIdt := by decide
  tssHandlers := by decide

/-- The first thread is in the word of `running_thread`. -/
def runningMem : Mem := store32 Loader.gdtMem 0xc0007a40 0xc009e000

lemma holds_runningMem : Holds runningMem gdtBaseAddr Loader.gdt :=
  Loader.holds_gdtMem.store (by decide) (by decide)

/-- `tss_init`, and `tss_esp0_update` for the first thread. -/
lemma exists_activated (t : TableRegisters) : ∃ s, TransitionSystem.Reach (vectorStep linkedSymbols 0xc00079c0)
      (VectorAllowed linkedSymbols 0xc00079c0) (afterIdtInit linkedSymbols runningMem t) s ∧
    s.loaded = true ∧ s.handlers = (fun _ => linkedSymbols.generalIntrHandler) ∧
      load32 s.mem 0xc0007a40 = 0xc009e000 ∧ load32 s.mem (0xc00079c0 + 4) = 0xc009e000 + 4096 := by
  have hinv := vectorInv_afterIdtInit (t := t) linkedSymbols_linked
    (loaderGdt_of_holds holds_runningMem)
  obtain ⟨m, u, hinit, hready, -, hout⟩ := tssInit_ready (hinv.before rfl)
    linkedSymbols_linked.tssGdt (afterIdtInit linkedSymbols runningMem t).tables
  have hfirst : vectorStep linkedSymbols 0xc00079c0 (afterIdtInit linkedSymbols runningMem t)
      .tssInit = some ⟨m, u, fun _ => linkedSymbols.generalIntrHandler, true⟩ := by
    rw [vectorStep, hinit]
    rfl
  refine ⟨_, .snoc (.snoc .refl (e := .tssInit) (show _ = false from rfl) hfirst)
    (e := .esp0Update 0xc009e000) (show (0xc009e000 : Word).toNat % 4096 = 0 by decide) rfl,
    rfl, rfl, ?_, load32_store32 _ _ _⟩
  have hfar : ∀ k < 4, 56 ≤ (0xc0007a40 + BitVec.ofNat 32 k - gdtBaseAddr).toNat ∧
      108 ≤ (0xc0007a40 + BitVec.ofNat 32 k - 0xc00079c0).toNat ∧
      0x204 ≤ (0xc0007a40 + BitVec.ofNat 32 k - linkedSymbols.idtTable).toNat ∧
      0x408 ≤ (0xc0007a40 + BitVec.ofNat 32 k - linkedSymbols.idt).toNat := by decide
  refine (load32_congr fun k hk => ?_).trans (load32_store32 Loader.gdtMem 0xc0007a40 0xc009e000)
  obtain ⟨hgdt, htss, hhandlers, hgates⟩ := hfar k hk
  refine (tssEsp0UpdateAt_of_apart htss _).trans ((hout _ hgdt htss).trans ?_)
  exact (exceptionInit_of_apart hhandlers).trans (idtDescInit_of_apart linkedSymbols_linked.toLinked
    hgates)

/-- A user program. -/
def userState (m : Mem) : State :=
  ⟨0, 0, 0, 0, 0, 0, 0, 0xbfffff00, 0x08048000, 0x202, 0x2b, 0x33, 0x33, 0x33, 0, 0x33, m⟩

lemma userState_cpl (m : Mem) : (userState m).cpl = 3 := by
  change (0x2b : BitVec 16).setWidth 2 = 3
  decide

end Linked

section Delivered

variable {c : IntrSymbols} {tss : Word} {m : Mem} {s : VectorState} {n : ℕ}

/-- The entry point of a vector. -/
def entryPoint (c : IntrSymbols) (m : Mem) (n : ℕ) : Word :=
  if n = intSyscall then c.syscallEntry else load32 m (c.entry n)

/-- The stack in the state segment, and the entry point of the vector. -/
def ring0Gate (c : IntrSymbols) (tss : Word) (m : Mem) (s : VectorState) (n : ℕ) : State.Gate :=
  ⟨load32 s.mem (tss + 4), selectorKStack, selectorKCode, entryPoint c m n⟩

lemma idtGate_fields (c : IntrSymbols) (m : Mem) (n : ℕ) :
    (idtGate c m n).type = interruptGate32 ∧ (idtGate c m n).present = true ∧
      (idtGate c m n).selector = selectorKCode ∧ (idtGate c m n).offset = entryPoint c m n := by
  rw [idtGate, entryPoint]
  split <;> exact ⟨rfl, rfl, rfl, rfl⟩

lemma VectorInv.deliver (h : VectorInv c tss m s) (hloaded : s.loaded = true) (hn : n < idtDescCnt)
    {cpl : BitVec 2} {software : Bool} (hdpl : software = true → cpl ≤ (idtGate c m n).dpl) :
    X86.deliver s.mem s.tables cpl software n = .enter (ring0Gate c tss m s n) := by
  obtain ⟨esp0, hready, -⟩ := h.after hloaded
  obtain ⟨htype, hpresent, hselector, hoffset⟩ := idtGate_fields c m n
  have hgate : gateAt s.mem (s.tables.idtr.base + BitVec.ofNat 32 (8 * n)) = idtGate c m n := by
    rw [h.idtr]
    exact h.gates.gate n hn
  have hlimit : 8 * n + 7 ≤ s.tables.idtr.limit.toNat := by
    rw [h.idtr]
    unfold idtDescCnt at hn
    change 8 * n + 7 ≤ 0x407
    omega
  have hcode := segmentOf_gdt hready.gdtr hready.gdt (by decide : selectorKCode.getLsbD 2 = false)
  have hss0 : load16 s.mem (tss + 8) = selectorKStack := by
    have hword : load32 s.mem (tss + 8) = 0x10 := hready.state.get 2 rfl
    rw [load16_eq_low16, hword]
    decide
  rw [deliver_enter hlimit hgate htype hpresent hdpl (by rw [hselector, hcode]; rfl) rfl rfl rfl,
    hready.tr, hselector, hoffset]
  simp only [tssSegment]
  rw [hss0]
  rfl

/-- Every vector of the table, but system calls, is closed to `int n` outside ring 0. -/
lemma VectorInv.deliver_user (h : VectorInv c tss m s) {k : BitVec 8} (hk : k ≠ 0x80) :
    X86.deliver s.mem s.tables 3 true k.toNat = .fault gpVector (idtCode k.toNat) := by
  have hlimit : s.tables.idtr.limit.toNat = 0x407 := by
    rw [h.idtr]
    rfl
  by_cases hn : k.toNat < idtDescCnt
  · obtain ⟨htype, -⟩ := idtGate_fields c m k.toNat
    have hsys : k.toNat ≠ intSyscall := fun he => hk (BitVec.eq_of_toNat_eq he)
    have hdpl : (idtGate c m k.toNat).dpl = 0 := by rw [idtGate, if_neg hsys]
    have hgate : gateAt s.mem (s.tables.idtr.base + BitVec.ofNat 32 (8 * k.toNat)) =
        idtGate c m k.toNat := by
      rw [h.idtr]
      exact h.gates.gate _ hn
    unfold idtDescCnt at hn
    refine deliver_level (by omega) hgate htype ?_
    rw [hdpl]
    decide
  · unfold idtDescCnt at hn
    exact deliver_outside (by omega)

/-- What the tables of `idt_init` and `tss_init` deliver, in every later state. Devices and
exceptions reach the word read from `intr_entry_table` for their vector, on the stack of the state
segment. Of the software interrupts of ring 3 only 0x80 reaches its entry point: any other vector
ends in the general protection stub, with the vector in the error code. -/
theorem vectors_delivered {t : TableRegisters} (hl : c.LinkedWith tss) (hgdt : Holds m gdtBaseAddr Loader.gdt)
    (hreach : TransitionSystem.Reach (vectorStep c tss) (VectorAllowed c tss)
      (afterIdtInit c m t) s) (hloaded : s.loaded = true) :
    (∀ n < idtDescCnt, ∀ cpl,
        X86.deliver s.mem s.tables cpl false n = .enter (ring0Gate c tss m s n)) ∧
      ∀ r : State, r.mem = s.mem → r.cpl = 3 → ∀ k : BitVec 8, int r s.tables k = some
        (if k = 0x80 then { r with eip := r.eip + 2 }.interrupt (ring0Gate c tss m s intSyscall) none
        else r.interrupt (ring0Gate c tss m s gpVector) (some (idtCode k.toNat))) := by
  have hinv := reach_vectorInv hl (loaderGdt_of_holds hgdt) hreach
  have hdevices : ∀ n < idtDescCnt, ∀ cpl,
      X86.deliver s.mem s.tables cpl false n = .enter (ring0Gate c tss m s n) :=
    fun n hn cpl => hinv.deliver hloaded hn fun hfalse => absurd hfalse Bool.false_ne_true
  refine ⟨hdevices, fun r hmem hcpl k => ?_⟩
  by_cases hk : k = 0x80
  · have hdpl : (idtGate c m intSyscall).dpl = 3 := by rw [idtGate, if_pos rfl]
    have hsys : X86.deliver s.mem s.tables 3 true intSyscall =
        .enter (ring0Gate c tss m s intSyscall) :=
      hinv.deliver hloaded (by decide) fun _ => hdpl ▸ BitVec.le_refl 3
    rw [if_pos hk, hk]
    rw [← hmem, ← hcpl] at hsys
    exact int_enter hsys
  · have huser := hinv.deliver_user hk
    have hgp := hdevices gpVector (by decide) 3
    rw [← hmem, ← hcpl] at huser hgp
    rw [if_neg hk]
    exact int_fault huser hgp

/-- A user program that executes the interrupt of the keyboard. -/
theorem vectors_delivered_keyboard : ∃ s : VectorState,
    int (userState s.mem) s.tables 0x21 = some ((userState s.mem).interrupt
      ⟨0xc009f000, 0x10, 8, entryPoint linkedSymbols runningMem 13⟩ (some 0x10a)) := by
  obtain ⟨s, hreach, hloaded, -, -, hesp0⟩ :=
    exists_activated ⟨⟨0, 0⟩, ⟨0, 0⟩, tssSegment 0 true, fun _ => none⟩
  obtain ⟨-, huser⟩ := vectors_delivered linkedSymbols_linked holds_runningMem hreach hloaded
  have hint := huser (userState s.mem) rfl (userState_cpl _) 0x21
  rw [if_neg (by decide), ring0Gate, hesp0] at hint
  exact ⟨s, hint⟩

end Delivered

section Stubs

variable {c : IntrSymbols} {tss : Word} {m : Mem} {s : VectorState} {n : ℕ} {r : State}
  {scheduler next tcb esp0 : Word} {err : Option Word} {g : State.Gate}

/-- The stub of a vector has the context on the stack of ring 0. -/
lemma pushed_vector (hring : r.cpl ≠ 0) (herr : err.isSome = State.pushesErrorCode n) :
    State.Pushed r.mem g.esp0 76 (pushContext
      (if n ∈ errorCodeVectors then r.interrupt g err else (r.interrupt g err).push 0)) := by
  have hframe := State.interrupt_pushed hring g
  have hslot : State.Pushed r.mem g.esp0 24
      (if n ∈ errorCodeVectors then r.interrupt g err else (r.interrupt g err).push 0) := by
    by_cases hn : n ∈ errorCodeVectors
    · rw [(mem_errorCodeVectors n).mp hn] at herr
      obtain ⟨e, rfl⟩ := Option.isSome_iff_exists.mp herr
      rw [if_pos hn]
      exact hframe.push e
    · have hnone : err = none := by
        rw [← Option.not_isSome_iff_eq_none, herr]
        exact fun hpush => hn ((mem_errorCodeVectors n).mpr hpush)
      rw [if_neg hn, hnone]
      exact hframe.push 0
  exact pushContext_pushed hslot

/-- The memory outside the page of `tcb` is that of `m`. -/
def OutsidePage (tcb : Word) (m m' : Mem) : Prop :=
  ∀ b : Word, 4096 ≤ (b - tcb).toNat → m' b = m b

lemma outsidePage_of_pushed {m : Mem} {q : State} {k : ℕ} (h : State.Pushed m (tcb + 4096) k q)
    (hk : k ≤ 4096) : OutsidePage tcb m q.mem := by
  intro b hb
  refine h.mem b ?_
  have hlt := (b - tcb).isLt
  have hoff : tcb + 4096 - 1 - b = 4095 - (b - tcb) := by
    rw [sub_sub_eq_add_sub, add_sub_assoc, add_comm tcb]
    rfl
  rw [hoff, BitVec.toNat_sub]
  change k ≤ (2 ^ 32 - (b - tcb).toNat + 4095) % 2 ^ 32
  omega

/-- A store within the page. -/
lemma OutsidePage.store {m m' : Mem} (h : OutsidePage tcb m m') {j : ℕ} (hj : j + 4 ≤ 4096)
    (w : Word) : OutsidePage tcb m (store32 m' (tcb + BitVec.ofNat 32 j) w) := by
  intro b hb
  refine (store32_of_apart ?_).trans (h b hb)
  have hlt := (b - tcb).isLt
  rw [← sub_sub, BitVec.toNat_sub, BitVec.toNat_ofNat]
  omega

lemma OutsidePage.load32 {m m' : Mem} (h : OutsidePage tcb m m') {a : Word} {k j : ℕ}
    (hapart : RangesApart tcb 4096 a k) (hj : j + 4 ≤ k) :
    X86.load32 m' (a + BitVec.ofNat 32 j) = X86.load32 m (a + BitVec.ofNat 32 j) := by
  refine load32_congr fun i hi => h _ ?_
  rw [add_assoc, ← BitVec.ofNat_add]
  exact hapart.far (by omega)

/-- A stub once the context is on the stack. -/
def stubTail (c : IntrSymbols) (scheduler next : Word) (vector : ℕ) (s : State) : State :=
  let s := { s with eax := load32 s.mem scheduler }
  let s := { s with mem := store32 s.mem s.eax s.esp }
  let s := { s with eax := setLow8 s.eax 0x20 }
  let s := s.push (BitVec.ofNat 32 vector)
  s.call (load32 s.mem (c.handler vector)) next

lemma vectorStub_eq (r : State) : vectorStub c scheduler next n r =
    stubTail c scheduler next n (pushContext (if n ∈ errorCodeVectors then r else r.push 0)) := rfl

/-- The call is to `f`, with the vector on the stack, in a page where `stack_top` is set. -/
structure CallsHandler (tcb next f : Word) (n : ℕ) (m : Mem) (q : State) : Prop where
  eip : q.eip = f
  stack : q.Stack [next, BitVec.ofNat 32 n]
  stackTop : load32 q.mem tcb = q.esp + 8
  outside : OutsidePage tcb m q.mem

lemma stubTail_calls {v : State} {m : Mem} {f : ℕ → Word} (hpage : OutsidePage tcb m v.mem)
    (hesp : v.esp = tcb + 4020) (hrunning : load32 v.mem scheduler = tcb)
    (htable : RangesApart tcb 4096 c.idtTable 0x204) (hf : HandlersAre c m f) (hn : n < idtDescCnt) :
    CallsHandler tcb next (f n) n m (stubTail c scheduler next n v) := by
  have hargAddr : v.esp - 4 = tcb + BitVec.ofNat 32 4016 := by
    rw [hesp, add_sub_assoc]
    rfl
  have hretAddr : v.esp - 4 - 4 = tcb + BitVec.ofNat 32 4012 := by
    rw [hargAddr, add_sub_assoc]
    rfl
  -- the tcb, the argument and the return address are stored in the page
  have hsaved := hpage.store (j := 0) (by norm_num) v.esp
  rw [BitVec.add_zero] at hsaved
  have hargument := hsaved.store (j := 4016) (by norm_num) (BitVec.ofNat 32 n)
  have hfar : ∀ j : ℕ, 4 ≤ j → j < 4096 → 4 ≤ (tcb - (tcb + BitVec.ofNat 32 j)).toNat ∧
      (tcb - (tcb + BitVec.ofNat 32 j)).toNat + 4 ≤ 2 ^ 32 := by
    intro j hlow hhigh
    rw [sub_add_cancel_left, BitVec.toNat_neg, BitVec.toNat_ofNat]
    omega
  set w : State := { v with eax := setLow8 tcb 0x20, mem := store32 v.mem tcb v.esp } with hw
  have hempty : w.Stack [] := trivial
  have hq : stubTail c scheduler next n v = (w.push (BitVec.ofNat 32 n)).call
      (load32 (store32 w.mem (v.esp - 4) (BitVec.ofNat 32 n)) (c.handler n)) next := by
    simp only [stubTail, hrunning]
    rfl
  rw [hq]
  constructor
  · unfold idtDescCnt at hn
    rw [← hf n hn]
    change load32 (store32 (store32 v.mem tcb v.esp) (v.esp - 4) (BitVec.ofNat 32 n))
      (c.handler n) = _
    rw [hargAddr]
    exact hargument.load32 htable (by omega)
  · exact (hempty.push (by simp)).push (by simp)
  · obtain ⟨hlow, hhigh⟩ := hfar 4012 (by norm_num) (by norm_num)
    obtain ⟨hlow', hhigh'⟩ := hfar 4016 (by norm_num) (by norm_num)
    change load32 (store32 (store32 (store32 v.mem tcb v.esp) (v.esp - 4) (BitVec.ofNat 32 n))
      (v.esp - 4 - 4) next) tcb = v.esp - 4 - 4 + 8
    rw [hretAddr, load32_store32_of_apart hlow hhigh, hargAddr,
      load32_store32_of_apart hlow' hhigh', load32_store32, hesp, add_assoc]
    rfl
  · change OutsidePage tcb m (store32 (store32 (store32 v.mem tcb v.esp) (v.esp - 4)
      (BitVec.ofNat 32 n)) (v.esp - 4 - 4) next)
    rw [hretAddr, hargAddr]
    exact hargument.store (by norm_num) next

/-- From ring 3 the stub of a vector calls the function registered last, with the vector as its
argument; the stack pointer of the interrupted thread is in its tcb, and no other memory is
written. -/
theorem stub_calls_registered {t : TableRegisters} (hl : c.LinkedWith tss)
    (hgdt : Holds m gdtBaseAddr Loader.gdt)
    (hreach : TransitionSystem.Reach (vectorStep c tss) (VectorAllowed c tss)
      (afterIdtInit c m t) s)
    (hmem : r.mem = s.mem) (hring : r.cpl ≠ 0) (hn : n < vectorCnt)
    (herr : err.isSome = State.pushesErrorCode n) (htcb : load32 s.mem scheduler = tcb)
    (hesp0 : load32 s.mem (tss + 4) = tcb + 4096) (hscheduler : RangesApart tcb 4096 scheduler 4)
    (htable : RangesApart tcb 4096 c.idtTable 0x204) :
    CallsHandler tcb next (s.handlers n) n s.mem
      (vectorStub c scheduler next n (r.interrupt (ring0Gate c tss m s n) err)) := by
  have hinv := reach_vectorInv hl (loaderGdt_of_holds hgdt) hreach
  have hpushed := pushed_vector (g := ring0Gate c tss m s n) hring herr
  have htop : (ring0Gate c tss m s n).esp0 = tcb + 4096 := hesp0
  rw [htop, hmem] at hpushed
  have hpage := outsidePage_of_pushed hpushed (by norm_num)
  have hrunning := hpage.load32 hscheduler (j := 0) (le_refl 4)
  rw [BitVec.add_zero, htcb] at hrunning
  have hesp : tcb + 4096 - BitVec.ofNat 32 76 = tcb + 4020 := by
    rw [add_sub_assoc]
    rfl
  rw [vectorStub_eq]
  have hvector : n < idtDescCnt := by
    unfold vectorCnt at hn
    unfold idtDescCnt
    omega
  exact stubTail_calls hpage (hpushed.esp.trans hesp) hrunning htable hinv.handlers hvector

theorem stub_calls_registered_timer : ∃ s : VectorState,
    CallsHandler 0xc009e000 0xc0001c80 0xc0001780 0x20 s.mem (vectorStub linkedSymbols 0xc0007a40
      0xc0001c80 0x20 ((userState s.mem).interrupt
        (ring0Gate linkedSymbols 0xc00079c0 runningMem s 0x20) none)) := by
  obtain ⟨s, hreach, -, hhandlers, hrunning, hesp0⟩ :=
    exists_activated ⟨⟨0, 0⟩, ⟨0, 0⟩, tssSegment 0 true, fun _ => none⟩
  have hcalls : CallsHandler 0xc009e000 0xc0001c80 (s.handlers 0x20) 0x20 s.mem
      (vectorStub linkedSymbols 0xc0007a40 0xc0001c80 0x20 ((userState s.mem).interrupt
        (ring0Gate linkedSymbols 0xc00079c0 runningMem s 0x20) none)) :=
    stub_calls_registered linkedSymbols_linked holds_runningMem hreach rfl
      (by rw [userState_cpl]; decide) (by decide) (by decide) hrunning hesp0 (by decide) (by decide)
  rw [hhandlers] at hcalls
  exact ⟨s, hcalls⟩

end Stubs

end OsI386
