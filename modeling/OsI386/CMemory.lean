import OsI386.Paging
import OsI386.Program
import OsI386.X86

/-!
# C code on bytes

A C function is a program of loads and stores of single bytes. Each access is a label, so that
the trace of a run tells which addresses it touched. A loop is a recursion on a number of rounds;
a run that gets through it with some number gets through it with every larger one.
-/
namespace OsI386
open Prog X86

/-- `call` marks the call of a function with an argument. -/
inductive MemAccess
  | load (a : X86.Word)
  | store (a : X86.Word)
  | call (arg : X86.Word)
  deriving DecidableEq

/-- Why a function does not return. -/
inductive Halt
  | assertion | divideError | outOfRounds
  deriving DecidableEq

lemma toNat_succ_of_lt {i size : X86.Word} (h : i < size) : (i + 1).toNat = i.toNat + 1 := by
  have hi : i.toNat < size.toNat := h
  have hsize := size.isLt
  have hone : (1 : X86.Word).toNat = 1 := rfl
  rw [BitVec.toNat_add, hone]
  omega

abbrev CProg := Prog Mem MemAccess Halt

namespace CProg

def getByte (a : X86.Word) : CProg (BitVec 8) := do
  label (.load a)
  read fun m => m a

def putByte (a : X86.Word) (b : BitVec 8) : CProg Unit := do
  label (.store a)
  modify fun m => Function.update m a b

/-- `ASSERT(cond)`. -/
def assert (cond : Prop) [Decidable cond] : CProg Unit :=
  if cond then return () else .stop .assertion

variable {m m' : Mem} {a : X86.Word} {b : BitVec 8} {α : Type} {tr : List MemAccess}

lemma runs_getByte (m : Mem) (a : X86.Word) : (getByte a).Runs m [.load a] m (m a) := rfl

lemma runs_putByte (m : Mem) (a : X86.Word) (b : BitVec 8) :
    (putByte a b).Runs m [.store a] (Function.update m a b) () := rfl

lemma runs_assert {cond : Prop} [Decidable cond] (h : cond) : (assert cond).Runs m [] m () := by
  rw [assert, if_pos h]
  exact Runs.ret () m

/-- A load at the start of a function. -/
lemma runs_getByte_bind {k : BitVec 8 → CProg α} {r : α} (h : (k (m a)).Runs m tr m' r) :
    (getByte a >>= k).Runs m (.load a :: tr) m' r := (runs_getByte m a).bind h

lemma runs_putByte_bind {k : Unit → CProg α} {r : α}
    (h : (k ()).Runs (Function.update m a b) tr m' r) :
    (putByte a b >>= k).Runs m (.store a :: tr) m' r := (runs_putByte m a b).bind h

lemma runs_assert_bind {cond : Prop} [Decidable cond] {k : Unit → CProg α} {r : α} (hc : cond)
    (h : (k ()).Runs m tr m' r) : (assert cond >>= k).Runs m tr m' r :=
  (runs_assert hc).bind_silent h

end CProg

end OsI386
