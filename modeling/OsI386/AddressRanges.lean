import OsI386.LoaderMemory

/-!
# The memory map of the BIOS

The answers of the BIOS to 0xe820 fit the buffer if they are at most twelve, and the maximum is
that of signed numbers. A list that the BIOS ends with the carry flag is not searched at all: the
loader asks for the size in other ways, as if it had found no list.
-/
namespace OsI386
open X86

section Bios

end Bios

section Maximum

end Maximum

section Collecting

variable {bios : ℕ → State → State} {ds : List Ards} {n : ℕ} {s : State} {d : Ards}

/-- `di` after `n` descriptors. -/
def diAt (n : ℕ) : BitVec 16 := low16 ardsBuf + BitVec.ofNat 16 (20 * n)

end Collecting

section Searching

variable {ds : List Ards} {s : State}

end Searching

section Looping

variable {bios : ℕ → State → State} {ds : List Ards} {n fuel : ℕ} {l : Loader} {d : Ards}

/-- The addresses of descriptors `n`, …, `n + k - 1`. -/
def stored (n k : ℕ) : List Word := (List.range' n k).flatMap fun i => bytesAt (diAt i) 20

end Looping

section Claim

variable {bios : ℕ → State → State} {ds : List Ards} {failed : Option State} {fuel n : ℕ}
  {s : State}

end Claim

end OsI386
