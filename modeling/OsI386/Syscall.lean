import OsI386.ContextSwitch

/-!
# user/syscall_init.c and the call of kernel/kernel.s

A system call goes through the word at `syscall_table + eax * 4`, whatever `eax` is. The table
has one entry that is not `NULL`.
-/
namespace OsI386

section Table

def syscallNum : ℕ := 32

/-- `PID_GET`. -/
def pidGet : ℕ := 0

def syscallSlot (syscallTable : BitVec 32) (n : ℕ) : BitVec 32 :=
  syscallTable + BitVec.ofNat 32 (4 * n)

def syscallInit (m : X86.Mem) (syscallTable sysPidGet : BitVec 32) : X86.Mem :=
  X86.store32 m (syscallSlot syscallTable pidGet) sysPidGet

/-- The entries `syscall_init` stores. -/
def storedEntries (sysPidGet : BitVec 32) : List (ℕ × BitVec 32) := [(pidGet, sysPidGet)]

/-- The table as `syscall_init` leaves it. -/
def TableReady (m : X86.Mem) (syscallTable sysPidGet : BitVec 32) : Prop :=
  ∀ i < syscallNum, X86.load32 m (syscallSlot syscallTable i) =
    if i = pidGet then sysPidGet else 0

variable {m : X86.Mem} {c : X86.State} {g : X86.State.Gate}
  {syscallTable sysPidGet next : BitVec 32}

/-- `syscall_table` is zero when the kernel is loaded. -/
lemma tableReady_syscallInit
    (h : ∀ i < syscallNum, X86.load32 m (syscallSlot syscallTable i) = 0) :
    TableReady (syscallInit m syscallTable sysPidGet) syscallTable sysPidGet := by
  intro i hi
  by_cases h0 : i = pidGet
  · rw [if_pos h0, h0]
    exact X86.load32_store32 _ _ _
  · rw [if_neg h0, ← h i hi]
    have hdist : (BitVec.ofNat 32 (4 * i) - BitVec.ofNat 32 (4 * pidGet)).toNat = 4 * i := by
      unfold syscallNum at hi
      rw [pidGet, Nat.mul_zero, BitVec.sub_zero, BitVec.toNat_ofNat]
      omega
    unfold pidGet at h0
    unfold syscallNum at hi
    exact X86.load32_store32_add (by omega) (by omega)

/-- The state in which `syscall_entry` makes its call. -/
def beforeCall (c : X86.State) (g : X86.State.Gate) : X86.State :=
  pushArgs ((pushContext ((c.interrupt g none).push 0)).push 0x80)

lemma beforeCall_eax (c : X86.State) (g : X86.State.Gate) : (beforeCall c g).eax = c.eax := by
  have hdata := (X86.State.interrupt_sameData c g none).trans (X86.State.sameData_push _ 0)
  have hcontext := (hdata.trans (sameData_pushContext _)).trans (X86.State.sameData_push _ 0x80)
  exact (hcontext.trans (sameData_pushArgs _)).eax

lemma beforeCall_pushed (h : c.cpl ≠ 0) : X86.State.Pushed c.mem g.esp0 92 (beforeCall c g) :=
  pushArgs_pushed ((pushContext_pushed ((X86.State.interrupt_pushed h g).push 0)).push 0x80)

/-- `c` executes `int 0x80` outside ring 0. The kernel stack for it does not meet the table. -/
structure SyscallReady (syscallTable sysPidGet : BitVec 32) (c : X86.State) (g : X86.State.Gate) :
    Prop where
  user : c.cpl ≠ 0
  table : TableReady c.mem syscallTable sysPidGet
  apart : ∀ k < 4 * syscallNum, 92 ≤ (g.esp0 - 1 - (syscallTable + BitVec.ofNat 32 k)).toNat

/-- The call goes through an entry that `syscall_init` stored, and to the function in it. -/
def CallsStored (syscallTable sysPidGet next : BitVec 32) (c : X86.State) (g : X86.State.Gate) :
    Prop :=
  ∃ e ∈ storedEntries sysPidGet, syscallTable + c.eax * 4 = syscallSlot syscallTable e.1 ∧
    (syscallEntry syscallTable next (c.interrupt g none)).eip = e.2

lemma syscallEntry_eip (c : X86.State) (g : X86.State.Gate) (syscallTable next : BitVec 32) :
    (syscallEntry syscallTable next (c.interrupt g none)).eip =
      X86.load32 (beforeCall c g).mem (syscallTable + c.eax * 4) := by
  rw [← beforeCall_eax c g]
  rfl

/-- The entry of the call is the one `syscall_init` left. -/
lemma SyscallReady.load_slot (h : SyscallReady syscallTable sysPidGet c g) {i : ℕ}
    (hi : i < syscallNum) :
    X86.load32 (beforeCall c g).mem (syscallSlot syscallTable i) =
      if i = pidGet then sysPidGet else 0 := by
  rw [← h.table i hi]
  refine X86.load32_congr fun k hk => (beforeCall_pushed h.user).mem _ ?_
  rw [syscallSlot, add_assoc, ← BitVec.ofNat_add]
  exact h.apart (4 * i + k) (by omega)

/-- The scaled index wraps around. -/
lemma slot_eq_iff (syscallTable eax : BitVec 32) :
    syscallTable + eax * 4 = syscallSlot syscallTable pidGet ↔ eax.toNat % 2 ^ 30 = pidGet := by
  have hfour : (4 : BitVec 32).toNat = 4 := rfl
  rw [syscallSlot, pidGet, Nat.mul_zero, add_right_inj, ← BitVec.toNat_inj, BitVec.toNat_mul,
    hfour, BitVec.toNat_ofNat]
  omega

/-- A system call reaches a function of `syscall_init` exactly for the number `PID_GET`, as far as
the low 30 bits of `eax` are concerned. -/
theorem syscall_callsStored_iff (h : SyscallReady syscallTable sysPidGet c g) :
    CallsStored syscallTable sysPidGet next c g ↔ c.eax.toNat % 2 ^ 30 = pidGet := by
  rw [← slot_eq_iff syscallTable]
  constructor
  · rintro ⟨e, he, hslot, -⟩
    obtain rfl := List.mem_singleton.mp he
    exact hslot
  · intro hslot
    refine ⟨(pidGet, sysPidGet), List.mem_singleton_self _, hslot, ?_⟩
    rw [syscallEntry_eip, hslot, h.load_slot (by decide), if_pos rfl]

end Table

section Examples

/-- A user program with number `eax`, and `0xdeadbeef` in the word after the table. -/
def userCall (eax : BitVec 32) : X86.State :=
  { eax := eax, ebx := 2, ecx := 4, edx := 5, esi := 6, edi := 7, ebp := 8, esp := 0xbffffff0
    eip := 0x08048000, eflags := 0x202, cs := 0x2b, ds := 0x33, es := 0x33, fs := 0x33, gs := 0
    ss := 0x33
    mem := syscallInit (X86.store32 (fun _ => 0) 0xc0008080 0xdeadbeef) 0xc0008000 0xc0001900 }

def userGate : X86.State.Gate := ⟨0xc0102000, 0x10, 8, 0xc0001600⟩

lemma userCall_ready (eax : BitVec 32) :
    SyscallReady 0xc0008000 0xc0001900 (userCall eax) userGate where
  user := show (userCall 0).cpl ≠ 0 by decide
  table := tableReady_syscallInit (by decide +kernel)
  apart := by decide +kernel

theorem syscall_callsStored_pidGet :
    CallsStored 0xc0008000 0xc0001900 0xc0001650 (userCall 0) userGate :=
  (syscall_callsStored_iff (userCall_ready 0)).mpr rfl

/-- With 32 in `eax` the call is to an address of the word after the table, in ring 0. With 1 it
is to address 0. -/
theorem syscall_outside_table :
    let s := fun eax => syscallEntry 0xc0008000 0xc0001650 ((userCall eax).interrupt userGate none)
    ((s 32).eip = 0xdeadbeef ∧ (s 32).cpl = 0 ∧ (s 1).eip = 0 ∧ (s 1).cpl = 0) ∧
      SyscallReady 0xc0008000 0xc0001900 (userCall 32) userGate ∧
      ¬ CallsStored 0xc0008000 0xc0001900 0xc0001650 (userCall 32) userGate := by
  refine ⟨by decide +kernel, userCall_ready 32, ?_⟩
  rintro ⟨e, he, hslot, -⟩
  obtain rfl := List.mem_singleton.mp he
  exact absurd hslot (by decide)

end Examples

end OsI386
