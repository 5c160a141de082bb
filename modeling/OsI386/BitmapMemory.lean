import OsI386.Bitmap
import OsI386.CMemory

/-!
# lib/kernel/bitmap.c on the bytes of memory

`BitmapHeader` is `struct bitmap`; the map itself is in memory from `baseAddr` on. All
arithmetic is that of `uint32_t`. What each function does to the bytes is what the functions on
`Bitmap` do to the map they own.
-/
namespace OsI386
open Prog X86 CProg

structure BitmapHeader where
  baseAddr : Word
  bitNum : Word
  byteLen : Word

section Functions

/-- The loop of `memset`. -/
def memsetLoop (dst : Word) (value : BitVec 8) (size : Word) : ℕ → Word → CProg Unit
  | 0, _ => .stop .outOfRounds
  | rounds + 1, i =>
    if i < size then do
      putByte (dst + i) value
      memsetLoop dst value size rounds (i + 1)
    else return ()

def memset (rounds : ℕ) (dst : Word) (value : BitVec 8) (size : Word) : CProg Unit := do
  assert (dst ≠ 0)
  memsetLoop dst value size rounds 0

/-- `bit_num_2_byte_len`. -/
def bitNum2ByteLen32 (bitNum : Word) : Word :=
  if bitNum % 8 ≠ 0 then bitNum / 8 + 1 else bitNum / 8

namespace BitmapHeader

def bitmapInit (rounds : ℕ) (base bitNum : Word) : CProg BitmapHeader := do
  let btmp : BitmapHeader := ⟨base, bitNum, bitNum2ByteLen32 bitNum⟩
  memset rounds btmp.baseAddr 0 btmp.byteLen
  return btmp

/-- The byte and the mask are promoted to `int`. -/
def bitmapGet (btmp : BitmapHeader) (bitIdx : Word) : CProg Word := do
  label (.call bitIdx)
  let byteOff := bitIdx / 8
  let bitOff := bitIdx % 8
  let byte ← getByte (btmp.baseAddr + byteOff)
  return if byte.setWidth 32 &&& ((1 : Word) <<< bitOff) ≠ 0 then 1 else 0

/-- The `while` loop of `bitmap_scan`. -/
def scanLoop (btmp : BitmapHeader) (val cnt : Word) : ℕ → Word → Word → CProg Word
  | 0, _, _ => .stop .outOfRounds
  | rounds + 1, left, right =>
    if right < btmp.bitNum then do
      let bit ← btmp.bitmapGet right
      let left := if bit ≠ val then right + 1 else left
      if right - left + 1 = cnt then return left
      else btmp.scanLoop val cnt rounds left (right + 1)
    else return -1

/-- The `uint32_t` returned is converted to `int32_t`. -/
def bitmapScan (rounds : ℕ) (btmp : BitmapHeader) (val cnt : Word) : CProg ℤ := do
  let left ← btmp.scanLoop val cnt rounds 0 0
  return left.toInt

def bitmapSet (btmp : BitmapHeader) (idx : Word) : CProg Unit := do
  let byteOff := idx / 8
  let bitOff := idx % 8
  let byte ← getByte (btmp.baseAddr + byteOff)
  putByte (btmp.baseAddr + byteOff) ((byte.setWidth 32 ||| ((1 : Word) <<< bitOff)).setWidth 8)

def bitmapClear (btmp : BitmapHeader) (idx : Word) : CProg Unit := do
  let byteOff := idx / 8
  let bitOff := idx % 8
  let byte ← getByte (btmp.baseAddr + byteOff)
  putByte (btmp.baseAddr + byteOff) ((byte.setWidth 32 &&& ~~~((1 : Word) <<< bitOff)).setWidth 8)

end BitmapHeader

end Functions

section Views

variable {btmp : BitmapHeader} {m m' : Mem} {idx : Word}

namespace BitmapHeader

/-- The length in bytes fits the length in bits. -/
def Wf (btmp : BitmapHeader) : Prop := btmp.byteLen = bitNum2ByteLen32 btmp.bitNum

/-- The map as `Bitmap` has it. -/
def view (btmp : BitmapHeader) (m : Mem) : Bitmap where
  bitNum := btmp.bitNum.toNat
  byteLen := btmp.byteLen.toNat
  bytes k := if k < btmp.byteLen.toNat then m (btmp.baseAddr + BitVec.ofNat 32 k) else 0

/-- The addresses of the bytes of the map. -/
def span (btmp : BitmapHeader) : Set Word := fun a => (a - btmp.baseAddr).toNat < btmp.byteLen.toNat

/-- An access to a byte of the map, or a call for one of its bits. -/
def Inside (btmp : BitmapHeader) : MemAccess → Prop
  | .load a | .store a => a ∈ btmp.span
  | .call idx => idx < btmp.bitNum

end BitmapHeader

lemma toNat_bitNum2ByteLen32 (n : Word) :
    (bitNum2ByteLen32 n).toNat = bitNum2ByteLen n.toNat := by
  have hlt := n.isLt
  have hiff : n % 8 ≠ 0 ↔ n.toNat % 8 ≠ 0 := by
    rw [Ne, ← BitVec.toNat_inj, BitVec.toNat_umod]
    rfl
  unfold bitNum2ByteLen32 bitNum2ByteLen
  by_cases h : n.toNat % 8 ≠ 0
  · rw [if_pos h, if_pos (hiff.mpr h), BitVec.toNat_add, BitVec.toNat_udiv]
    change (n.toNat / 8 + 1) % 2 ^ 32 = _
    omega
  · rw [if_neg h, if_neg (mt hiff.mp h), BitVec.toNat_udiv]
    rfl

lemma toNat_byteOff (i : Word) : (i / 8).toNat = i.toNat / 8 := BitVec.toNat_udiv

lemma toNat_bitOff (i : Word) : (i % 8).toNat = i.toNat % 8 := BitVec.toNat_umod

/-- The byte of an index below `bit_num` is one of the map. -/
lemma byteOff_lt {i n : ℕ} (h : i < n) : i / 8 < bitNum2ByteLen n := by
  unfold bitNum2ByteLen
  split_ifs <;> omega

/-- The bit of a byte that the mask selects. -/
lemma mask_ne_zero_iff (b : BitVec 8) {k : ℕ} (hk : k < 8) :
    b.setWidth 32 &&& ((1 : Word) <<< k) ≠ 0 ↔ b &&& (1#8 <<< k) ≠ 0 := by
  interval_cases k <;> revert b <;> decide

lemma ofNat_byteOff (i : Word) : i / 8 = BitVec.ofNat 32 (i.toNat / 8) := by
  have hlt := i.isLt
  apply BitVec.eq_of_toNat_eq
  rw [toNat_byteOff, BitVec.toNat_ofNat]
  omega

/-- The index of a byte of the map, from its address. -/
lemma toNat_add_sub_base (btmp : BitmapHeader) {k : ℕ} (hk : k < btmp.byteLen.toNat) :
    (btmp.baseAddr + BitVec.ofNat 32 k - btmp.baseAddr).toNat = k := by
  have hlt := btmp.byteLen.isLt
  have hzero : (btmp.baseAddr - btmp.baseAddr).toNat = 0 := by simp
  rw [toNat_add_sub _ _ (by omega), hzero, Nat.zero_add]

lemma mem_span {k : ℕ} (hk : k < btmp.byteLen.toNat) :
    btmp.baseAddr + BitVec.ofNat 32 k ∈ btmp.span := by
  change (_ : Word).toNat < _
  rwa [toNat_add_sub_base btmp hk]

lemma view_bytes {k : ℕ} (hk : k < btmp.byteLen.toNat) :
    (btmp.view m).bytes k = m (btmp.baseAddr + BitVec.ofNat 32 k) := if_pos hk

/-- A store to a byte of the map. -/
lemma view_update {k : ℕ} (hk : k < btmp.byteLen.toNat) (b : BitVec 8) :
    btmp.view (Function.update m (btmp.baseAddr + BitVec.ofNat 32 k) b) =
      { btmp.view m with bytes := Function.update (btmp.view m).bytes k b } := by
  have hbytes : (btmp.view (Function.update m (btmp.baseAddr + BitVec.ofNat 32 k) b)).bytes =
      Function.update (btmp.view m).bytes k b := by
    funext j
    by_cases hj : j < btmp.byteLen.toNat
    · rw [view_bytes hj]
      by_cases hjk : j = k
      · rw [hjk, Function.update_self, Function.update_self]
      · have hne : btmp.baseAddr + BitVec.ofNat 32 j ≠ btmp.baseAddr + BitVec.ofNat 32 k := by
          intro he
          have hidx := toNat_add_sub_base btmp hj
          rw [he, toNat_add_sub_base btmp hk] at hidx
          exact hjk hidx.symm
        rw [Function.update_of_ne hne, Function.update_of_ne hjk, view_bytes hj]
    · have hjk : j ≠ k := fun he => hj (he ▸ hk)
      rw [Function.update_of_ne hjk]
      exact (if_neg hj).trans (if_neg hj).symm
  simp only [BitmapHeader.view] at hbytes ⊢
  rw [hbytes]

lemma BitmapHeader.Wf.byteOff_lt (h : btmp.Wf) (hi : idx < btmp.bitNum) :
    idx.toNat / 8 < btmp.byteLen.toNat := by
  rw [h, toNat_bitNum2ByteLen32]
  exact OsI386.byteOff_lt hi

lemma BitmapHeader.Wf.byteOff_mem (h : btmp.Wf) (hi : idx < btmp.bitNum) :
    btmp.baseAddr + idx / 8 ∈ btmp.span := by
  rw [ofNat_byteOff]
  exact mem_span (h.byteOff_lt hi)

lemma inside_bitmapGet (h : btmp.Wf) (hi : idx < btmp.bitNum) :
    ∀ x ∈ [MemAccess.call idx, .load (btmp.baseAddr + idx / 8)], btmp.Inside x := by
  intro x hx
  rcases List.mem_pair.mp hx with rfl | rfl
  · exact hi
  · exact h.byteOff_mem hi

lemma inside_update (h : btmp.Wf) (hi : idx < btmp.bitNum) :
    ∀ x ∈ [MemAccess.load (btmp.baseAddr + idx / 8), .store (btmp.baseAddr + idx / 8)],
      btmp.Inside x := by
  intro x hx
  rcases List.mem_pair.mp hx with rfl | rfl
  · exact h.byteOff_mem hi
  · exact h.byteOff_mem hi

/-- `bitmap_get` of an index below `bit_num`. -/
lemma runs_bitmapGet (h : btmp.Wf) (hi : idx < btmp.bitNum) (m : Mem) :
    (btmp.bitmapGet idx).Runs m [.call idx, .load (btmp.baseAddr + idx / 8)] m
      (BitVec.ofNat 32 (bitmapGet (btmp.view m) idx.toNat)) := by
  have hoff := h.byteOff_lt hi
  have hbit : idx.toNat % 8 < 8 := Nat.mod_lt _ (by norm_num)
  apply Runs.bind_label
  apply runs_getByte_bind
  have hval : BitVec.ofNat 32 (bitmapGet (btmp.view m) idx.toNat) =
      if (m (btmp.baseAddr + idx / 8)).setWidth 32 &&& ((1 : Word) <<< (idx % 8)) ≠ 0 then 1
      else 0 := by
    rw [bitmapGet, view_bytes hoff, ← ofNat_byteOff, BitVec.shiftLeft_eq', toNat_bitOff]
    simp only [mask_ne_zero_iff _ hbit]
    split_ifs <;> rfl
  rw [hval]
  exact Runs.ret _ m

/-- The promotion to `int` adds no bits to the byte. -/
lemma setBit_setWidth (b : BitVec 8) {k : ℕ} (hk : k < 8) :
    (b.setWidth 32 ||| ((1 : Word) <<< k)).setWidth 8 = b ||| (1#8 <<< k) := by
  interval_cases k <;> revert b <;> decide

lemma clearBit_setWidth (b : BitVec 8) {k : ℕ} (hk : k < 8) :
    (b.setWidth 32 &&& ~~~((1 : Word) <<< k)).setWidth 8 = b &&& ~~~(1#8 <<< k) := by
  interval_cases k <;> revert b <;> decide

/-- Between `m` and `m'` the map has become `b`, and nothing else has changed. -/
structure MapBecomes (btmp : BitmapHeader) (m m' : Mem) (b : Bitmap) : Prop where
  view : btmp.view m' = b
  outside : ∀ a ∉ btmp.span, m' a = m a

lemma mapBecomes_update {k : ℕ} {c : BitVec 8} (hk : k < btmp.byteLen.toNat) :
    MapBecomes btmp m (Function.update m (btmp.baseAddr + BitVec.ofNat 32 k) c)
      { btmp.view m with bytes := Function.update (btmp.view m).bytes k c } where
  view := view_update hk c
  outside a ha := by
    apply Function.update_of_ne
    rintro rfl
    exact ha (mem_span hk)

lemma runs_bitmapSet (h : btmp.Wf) (hi : idx < btmp.bitNum) (m : Mem) : ∃ m',
    (btmp.bitmapSet idx).Runs m
      [.load (btmp.baseAddr + idx / 8), .store (btmp.baseAddr + idx / 8)] m' () ∧
    MapBecomes btmp m m' (bitmapSet (btmp.view m) idx.toNat) := by
  have hoff := h.byteOff_lt hi
  have hbit : idx.toNat % 8 < 8 := Nat.mod_lt _ (by norm_num)
  refine ⟨_, runs_getByte_bind (runs_putByte _ _ _), ?_⟩
  rw [ofNat_byteOff, BitVec.shiftLeft_eq', toNat_bitOff, setBit_setWidth _ hbit,
    ← view_bytes (m := m) hoff]
  exact mapBecomes_update hoff

lemma runs_bitmapClear (h : btmp.Wf) (hi : idx < btmp.bitNum) (m : Mem) : ∃ m',
    (btmp.bitmapClear idx).Runs m
      [.load (btmp.baseAddr + idx / 8), .store (btmp.baseAddr + idx / 8)] m' () ∧
    MapBecomes btmp m m' (bitmapClear (btmp.view m) idx.toNat) := by
  have hoff := h.byteOff_lt hi
  have hbit : idx.toNat % 8 < 8 := Nat.mod_lt _ (by norm_num)
  refine ⟨_, runs_getByte_bind (runs_putByte _ _ _), ?_⟩
  rw [ofNat_byteOff, BitVec.shiftLeft_eq', toNat_bitOff, clearBit_setWidth _ hbit,
    ← view_bytes (m := m) hoff]
  exact mapBecomes_update hoff

end Views

section Scan

variable {btmp : BitmapHeader} {m : Mem} {val cnt left right : Word} {rounds : ℕ}

lemma bitmapGet_le_one (b : Bitmap) (i : ℕ) : bitmapGet b i ≤ 1 := by
  rw [bitmapGet_eq]
  exact Bool.toNat_le _

lemma ofNat_ne_iff {n : ℕ} (hn : n ≤ 1) : BitVec.ofNat 32 n ≠ val ↔ n ≠ val.toNat := by
  rw [Ne, ← BitVec.toNat_inj, BitVec.toNat_ofNat, Nat.mod_eq_of_lt (by omega)]

/-- The length the loop compares with `cnt`, which is 0 when `left` has just moved past
`right`. -/
lemma length_eq_iff (hleft : left.toNat ≤ right.toNat + 1) (hright : right.toNat < 2 ^ 31) :
    right - left + 1 = cnt ↔ right.toNat + 1 - left.toNat = cnt.toNat := by
  have hl := left.isLt
  have hr := right.isLt
  have hc := cnt.isLt
  have hone : (1 : Word).toNat = 1 := rfl
  rw [← BitVec.toNat_inj, BitVec.toNat_add, BitVec.toNat_sub, hone]
  omega

/-- What the loop of `bitmap_scan` returns, from the loop on natural numbers. -/
def scanResult : Option ℕ → Word
  | some left => BitVec.ofNat 32 left
  | none => -1

/-- By induction on the rounds; the loop on natural numbers has a round for each index left. -/
lemma runs_scanLoop (h : btmp.Wf) (hbits : btmp.bitNum.toNat < 2 ^ 31)
    (hleft : left.toNat ≤ right.toNat) (hright : right.toNat ≤ btmp.bitNum.toNat)
    (hrounds : btmp.bitNum.toNat - right.toNat < rounds) : ∃ tr,
    (btmp.scanLoop val cnt rounds left right).Runs m tr m
      (scanResult (scanLoop (btmp.view m) val.toNat cnt.toNat
        (btmp.bitNum.toNat - right.toNat) left.toNat right.toNat)) ∧
    ∀ x ∈ tr, btmp.Inside x := by
  induction rounds generalizing left right with
  | zero => omega
  | succ rounds ih =>
    rw [BitmapHeader.scanLoop]
    by_cases hlt : right < btmp.bitNum
    · have hnat : right.toNat < btmp.bitNum.toNat := hlt
      have hsucc : (right + 1).toNat = right.toNat + 1 := toNat_succ_of_lt hlt
      have hget := runs_bitmapGet h hlt m
      set bit := bitmapGet (btmp.view m) right.toNat with hbit
      have hle : bit ≤ 1 := bitmapGet_le_one _ _
      set next : Word := if BitVec.ofNat 32 bit ≠ val then right + 1 else left with hnext
      have hnextNat : next.toNat = if bit ≠ val.toNat then right.toNat + 1 else left.toNat := by
        rw [hnext]
        simp only [ofNat_ne_iff hle]
        split_ifs
        · exact hsucc
        · rfl
      have hnextLe : next.toNat ≤ right.toNat + 1 := by
        rw [hnextNat]
        split_ifs <;> omega
      have hlen : right - next + 1 = cnt ↔ _ := length_eq_iff hnextLe (by omega)
      obtain ⟨n, hn⟩ : ∃ n, btmp.bitNum.toNat - right.toNat = n + 1 :=
        Nat.exists_eq_succ_of_ne_zero (by omega)
      have hinside := inside_bitmapGet h hlt
      rw [if_pos hlt, hn, OsI386.scanLoop, ← hbit, ← hnextNat]
      by_cases hfound : right - next + 1 = cnt
      · rw [if_pos (hlen.mp hfound)]
        refine ⟨_, hget.bind_end ?_, hinside⟩
        rw [← hnext, if_pos hfound, scanResult, BitVec.ofNat_toNat, BitVec.setWidth_eq]
        exact Runs.ret _ m
      · have hloop : ∃ tr, (btmp.scanLoop val cnt rounds next (right + 1)).Runs m tr m _ ∧ _ :=
          ih (by omega) (by omega) (by omega)
        obtain ⟨tr, hrest, htr⟩ := hloop
        rw [hsucc, show btmp.bitNum.toNat - (right.toNat + 1) = n by omega] at hrest
        rw [if_neg (mt hlen.mpr hfound)]
        refine ⟨_ ++ tr, hget.bind ?_, fun x hx => ?_⟩
        · rw [← hnext, if_neg hfound]
          exact hrest
        · rcases List.mem_append.mp hx with hx | hx
          · exact hinside x hx
          · exact htr x hx
    · have hzero : btmp.bitNum.toNat - right.toNat = 0 := by
        have hnat : ¬ right.toNat < btmp.bitNum.toNat := hlt
        omega
      rw [if_neg hlt, hzero]
      exact ⟨[], Runs.ret _ m, by simp⟩

lemma runs_bitmapScan (h : btmp.Wf) (hbits : btmp.bitNum.toNat < 2 ^ 31)
    (hrounds : btmp.bitNum.toNat < rounds) (m : Mem) : ∃ tr,
    (btmp.bitmapScan rounds val cnt).Runs m tr m
      (bitmapScan (btmp.view m) val.toNat cnt.toNat) ∧ ∀ x ∈ tr, btmp.Inside x := by
  have hloop : ∃ tr, (btmp.scanLoop val cnt rounds 0 0).Runs m tr m _ ∧ _ :=
    runs_scanLoop h hbits le_rfl (Nat.zero_le _) (by simpa using hrounds)
  obtain ⟨tr, hrun, htr⟩ := hloop
  refine ⟨tr, hrun.bind_end ?_, htr⟩
  have hresult :
      (scanResult (scanLoop (btmp.view m) val.toNat cnt.toNat btmp.bitNum.toNat 0 0)).toInt =
        bitmapScan (btmp.view m) val.toNat cnt.toNat := by
    unfold bitmapScan
    change _ = match scanLoop (btmp.view m) val.toNat cnt.toNat btmp.bitNum.toNat 0 0 with
      | some left => toInt32 left
      | none => -1
    cases scanLoop (btmp.view m) val.toNat cnt.toNat btmp.bitNum.toNat 0 0 with
    | some left => rfl
    | none => rfl
  rw [← hresult]
  exact Runs.ret _ m

/-- `cnt` bits from `s` on, all equal to `val`. -/
def BitmapHeader.RunOf (btmp : BitmapHeader) (m : Mem) (val cnt : Word) (s : ℕ) : Prop :=
  s + cnt.toNat ≤ btmp.bitNum.toNat ∧
    ∀ i, s ≤ i → i < s + cnt.toNat → (btmp.view m).bit i = decide (val = 1)

lemma runAt_view_iff (hval : val = 0 ∨ val = 1) (s : ℕ) :
    RunAt (btmp.view m) val.toNat cnt.toNat s ↔ btmp.RunOf m val cnt s := by
  have hbit : ∀ i, bitmapGet (btmp.view m) i = val.toNat ↔
      (btmp.view m).bit i = decide (val = 1) := by
    intro i
    rcases hval with rfl | rfl
    · exact bitmapGet_eq_zero _ i
    · exact bitmapGet_eq_one _ i
  refine and_congr_right fun _ => ?_
  simp only [hbit]
  constructor
  · intro h i hlow hhigh
    have hi := h (i - s) (by omega)
    rwa [Nat.add_sub_cancel' hlow] at hi
  · intro h i hi
    exact h (s + i) (by omega) (by omega)

/-- `bitmap_scan` returns, and returns the first index of a run of `cnt` bits equal to `val`, or
-1 if there is none; it asks for no bit beyond the map. -/
theorem bitmapScan_least (h : btmp.Wf) (hbits : btmp.bitNum.toNat < 2 ^ 31)
    (hval : val = 0 ∨ val = 1) (hcnt : 1 ≤ cnt.toNat) (hrounds : btmp.bitNum.toNat < rounds)
    (m : Mem) : ∃ tr r, (btmp.bitmapScan rounds val cnt).Runs m tr m r ∧
      (∀ s : ℕ, r = s ↔ IsLeast {s | btmp.RunOf m val cnt s} s) ∧
      (r = -1 ↔ ∀ s, ¬ btmp.RunOf m val cnt s) ∧ ∀ x ∈ tr, btmp.Inside x := by
  have hscan : ∃ tr, (btmp.bitmapScan rounds val cnt).Runs m tr m _ ∧ _ :=
    runs_bitmapScan h hbits hrounds m
  obtain ⟨tr, hrun, htr⟩ := hscan
  refine ⟨tr, _, hrun, ?_, ?_, htr⟩
  all_goals
    have hb : (btmp.view m).bitNum ≤ 2 ^ 31 := hbits.le
    have hspec := @bitmapScan_spec (btmp.view m) val.toNat cnt.toNat hcnt hb
    simp only [runAt_view_iff hval] at hspec
    rcases hspec with ⟨s, hs, hfirst, hr⟩ | ⟨hnone, hr⟩
  · have hleast : IsLeast {s | btmp.RunOf m val cnt s} s :=
      ⟨hs, fun r hr => not_lt.mp fun hlt => hfirst r hlt hr⟩
    intro r
    rw [hr, Nat.cast_inj]
    exact ⟨fun he => he ▸ hleast, fun hr => hleast.unique hr⟩
  · intro r
    rw [hr]
    exact iff_of_false (by omega) fun hr => hnone r hr.1
  · rw [hr]
    exact iff_of_false (by omega) fun hnone => hnone s hs
  · exact iff_of_true hr hnone

/-- A run that ends with a map whose last byte is not full. -/
theorem bitmapScan_least_tail :
    let btmp : BitmapHeader := ⟨0x1000, 13, 2⟩
    let m : Mem := fun _ => 0x2
    ∃ tr r, (btmp.bitmapScan 14 0 5).Runs m tr m r ∧
      (∀ s : ℕ, r = s ↔ IsLeast {s | btmp.RunOf m 0 5 s} s) ∧
      (r = -1 ↔ ∀ s, ¬ btmp.RunOf m 0 5 s) ∧ ∀ x ∈ tr, btmp.Inside x :=
  bitmapScan_least (by unfold BitmapHeader.Wf; decide) (by decide) (.inl rfl) (by decide)
    (by decide) _

end Scan

section Updates

/-- `bitmap_set` or `bitmap_clear` of an index. -/
inductive MapOp
  | set (idx : Word)
  | clear (idx : Word)

namespace MapOp

def idx : MapOp → Word
  | .set i | .clear i => i

def isSet : MapOp → Bool
  | .set _ => true
  | .clear _ => false

end MapOp

namespace BitmapHeader

def update (btmp : BitmapHeader) : MapOp → CProg Unit
  | .set i => btmp.bitmapSet i
  | .clear i => btmp.bitmapClear i

def updateAll (btmp : BitmapHeader) : List MapOp → CProg Unit
  | [] => return ()
  | op :: ops => do
    btmp.update op
    btmp.updateAll ops

end BitmapHeader

/-- The last operation on an index was a set. -/
def lastIsSet (ops : List MapOp) (i : Word) : Bool :=
  ((ops.filter (·.idx = i)).getLast?.map MapOp.isSet).getD false

variable {btmp : BitmapHeader} {m m' m'' : Mem} {b : Bitmap} {op : MapOp} {ops : List MapOp}
  {dst size i : Word} {value : BitVec 8} {rounds : ℕ}

/-- What `memset` leaves after the rounds from `i` on. -/
def filled (m : Mem) (dst : Word) (value : BitVec 8) (size i : Word) : Mem := fun a =>
  if i.toNat ≤ (a - dst).toNat ∧ (a - dst).toNat < size.toNat then value else m a

lemma filled_end (h : ¬ i < size) (m : Mem) : filled m dst value size i = m := by
  have hnat : ¬ i.toNat < size.toNat := h
  funext a
  apply if_neg
  omega

/-- One more byte is written before the rounds that follow. -/
lemma filled_succ (h : i < size) (m : Mem) :
    filled (Function.update m (dst + i) value) dst value size (i + 1) =
      filled m dst value size i := by
  have hi : i.toNat < size.toNat := h
  funext a
  unfold filled
  rw [toNat_succ_of_lt h]
  by_cases ha : a = dst + i
  · have hself : (a - dst).toNat = i.toNat := by rw [ha, BitVec.add_comm, BitVec.add_sub_cancel]
    have hin : i.toNat ≤ (a - dst).toNat ∧ (a - dst).toNat < size.toNat := by omega
    rw [if_pos hin, ha, Function.update_self, ite_self]
  · have hne : (a - dst).toNat ≠ i.toNat := by
      intro he
      apply ha
      rw [← BitVec.eq_of_toNat_eq he, BitVec.add_comm, BitVec.sub_add_cancel]
    rw [Function.update_of_ne ha]
    exact if_congr (by omega) rfl rfl

/-- By induction on the rounds, of which one is needed for each byte left. -/
lemma runs_memsetLoop (hrounds : size.toNat - i.toNat < rounds) (m : Mem) : ∃ tr,
    (memsetLoop dst value size rounds i).Runs m tr (filled m dst value size i) () ∧
      ∀ x ∈ tr, ∃ k < size, x = .store (dst + k) := by
  induction rounds generalizing i m with
  | zero => omega
  | succ rounds ih =>
    rw [memsetLoop]
    by_cases hlt : i < size
    · have hi : i.toNat < size.toNat := hlt
      have hsucc := toNat_succ_of_lt hlt
      have hloop : ∃ tr, (memsetLoop dst value size rounds (i + 1)).Runs _ tr _ () ∧ _ :=
        ih (by omega) (Function.update m (dst + i) value)
      obtain ⟨tr, hrun, htr⟩ := hloop
      rw [if_pos hlt, ← filled_succ hlt]
      refine ⟨.store (dst + i) :: tr, runs_putByte_bind hrun, fun x hx => ?_⟩
      rcases List.mem_cons.mp hx with rfl | hx
      · exact ⟨i, hlt, rfl⟩
      · exact htr x hx
    · rw [if_neg hlt, filled_end hlt]
      exact ⟨[], Runs.ret _ m, by simp⟩

lemma MapBecomes.trans {b' : Bitmap} (h : MapBecomes btmp m m' b) (g : MapBecomes btmp m' m'' b') :
    MapBecomes btmp m m'' b' where
  view := g.view
  outside a ha := (g.outside a ha).trans (h.outside a ha)

/-- `bitmap_init` makes a map of zeros and writes only its bytes. -/
lemma runs_bitmapInit {base bitNum : Word} (hbase : base ≠ 0)
    (hrounds : (bitNum2ByteLen32 bitNum).toNat < rounds) (m : Mem)
    (hbtmp : btmp = ⟨base, bitNum, bitNum2ByteLen32 bitNum⟩) : ∃ tr m',
    (BitmapHeader.bitmapInit rounds base bitNum).Runs m tr m' btmp ∧
      MapBecomes btmp m m' (bitmapInit (fun _ => 0) bitNum.toNat) ∧ ∀ x ∈ tr, btmp.Inside x := by
  have hloop : ∃ tr, (memsetLoop base 0 (bitNum2ByteLen32 bitNum) rounds 0).Runs m tr _ () ∧ _ :=
    runs_memsetLoop (by simpa using hrounds) m
  obtain ⟨tr, hrun, htr⟩ := hloop
  subst hbtmp
  set btmp : BitmapHeader := ⟨base, bitNum, bitNum2ByteLen32 bitNum⟩
  have hspan : ∀ a, a ∈ btmp.span ↔ (a - base).toNat < (bitNum2ByteLen32 bitNum).toNat :=
    fun a => Iff.rfl
  have hset : (memset rounds base 0 (bitNum2ByteLen32 bitNum)).Runs m tr _ () :=
    runs_assert_bind hbase hrun
  refine ⟨tr, _, hset.bind_end (Runs.ret btmp _), ⟨?_, ?_⟩, ?_⟩
  · have hbytes : ∀ k, (btmp.view (filled m base 0 (bitNum2ByteLen32 bitNum) 0)).bytes k = 0 := by
      intro k
      by_cases hk : k < btmp.byteLen.toNat
      · rw [view_bytes hk]
        exact if_pos ⟨Nat.zero_le _, mem_span hk⟩
      · exact if_neg hk
    have hlen : btmp.byteLen.toNat = bitNum2ByteLen bitNum.toNat := toNat_bitNum2ByteLen32 bitNum
    have hzero : (bitmapInit (fun _ => 0) bitNum.toNat).bytes = fun _ => 0 :=
      funext fun k => ite_self 0
    have hview : ∀ b : Bitmap, b.bytes = (fun _ => 0) → b = ⟨b.bitNum, b.byteLen, fun _ => 0⟩ := by
      rintro ⟨_, _, _⟩ rfl
      rfl
    rw [hview _ (funext hbytes), hview _ hzero]
    exact congrArg (Bitmap.mk _ · _) hlen
  · intro a ha
    exact if_neg fun h => ha h.2
  · intro x hx
    obtain ⟨k, hk, rfl⟩ := htr x hx
    change base + k ∈ btmp.span
    rw [hspan, BitVec.add_comm, BitVec.add_sub_cancel]
    exact hk

/-- What an operation does to the map. -/
def MapOp.apply (b : Bitmap) : MapOp → Bitmap
  | .set i => bitmapSet b i.toNat
  | .clear i => bitmapClear b i.toNat

lemma runs_update (h : btmp.Wf) (hi : op.idx < btmp.bitNum) (m : Mem) : ∃ tr m',
    (btmp.update op).Runs m tr m' () ∧ MapBecomes btmp m m' (op.apply (btmp.view m)) ∧
      ∀ x ∈ tr, btmp.Inside x := by
  cases op with
  | set i =>
    obtain ⟨m', hrun, hmap⟩ := runs_bitmapSet h hi m
    exact ⟨_, m', hrun, hmap, inside_update h hi⟩
  | clear i =>
    obtain ⟨m', hrun, hmap⟩ := runs_bitmapClear h hi m
    exact ⟨_, m', hrun, hmap, inside_update h hi⟩

lemma runs_updateAll (h : btmp.Wf) (hops : ∀ op ∈ ops, op.idx < btmp.bitNum) (m : Mem) :
    ∃ tr m', (btmp.updateAll ops).Runs m tr m' () ∧
      MapBecomes btmp m m' (ops.foldl MapOp.apply (btmp.view m)) ∧ ∀ x ∈ tr, btmp.Inside x := by
  induction ops generalizing m with
  | nil => exact ⟨[], m, Runs.ret () m, ⟨rfl, fun _ _ => rfl⟩, by simp⟩
  | cons op ops ih =>
    obtain ⟨tr1, m1, hrun1, hmap1, htr1⟩ := runs_update h (hops op List.mem_cons_self) m
    obtain ⟨tr2, m2, hrun2, hmap2, htr2⟩ := ih (fun o ho => hops o (List.mem_cons_of_mem _ ho)) m1
    refine ⟨tr1 ++ tr2, m2, hrun1.bind hrun2, ?_, fun x hx => ?_⟩
    · rw [List.foldl_cons, ← hmap1.view]
      exact hmap1.trans hmap2
    · exact (List.mem_append.mp hx).elim (htr1 x) (htr2 x)

lemma bit_apply (b : Bitmap) (op : MapOp) (i : Word) :
    (op.apply b).bit i.toNat = if op.idx = i then op.isSet else b.bit i.toNat := by
  cases op with
  | set j =>
    by_cases hj : j = i
    · simp [MapOp.apply, MapOp.idx, MapOp.isSet, hj]
    · have hnat : i.toNat ≠ j.toNat := fun he => hj (BitVec.eq_of_toNat_eq he.symm)
      simp [MapOp.apply, MapOp.idx, hj, hnat]
  | clear j =>
    by_cases hj : j = i
    · simp [MapOp.apply, MapOp.idx, MapOp.isSet, hj]
    · have hnat : i.toNat ≠ j.toNat := fun he => hj (BitVec.eq_of_toNat_eq he.symm)
      simp [MapOp.apply, MapOp.idx, hj, hnat]

lemma lastIsSet_concat (ops : List MapOp) (op : MapOp) (i : Word) :
    lastIsSet (ops ++ [op]) i = if op.idx = i then op.isSet else lastIsSet ops i := by
  unfold lastIsSet
  rw [List.filter_append]
  by_cases h : op.idx = i <;> simp [h]

/-- A bit of the map after some operations; by induction on their number, the last one taken
off. -/
lemma bit_foldl_apply (hb : b.bit i.toNat = false) :
    (ops.foldl MapOp.apply b).bit i.toNat = lastIsSet ops i := by
  induction ops using List.reverseRecOn with
  | nil => exact hb
  | append_singleton ops op ih =>
    rw [List.foldl_concat, bit_apply, lastIsSet_concat, ih]

/-- After `bitmap_init` and any operations on indices below `bit_num`, `bitmap_get` tells the
last operation on each index. No byte outside the map is read or written. -/
theorem bitmapGet_after_updates {base bitNum : Word} (hbase : base ≠ 0)
    (hops : ∀ op ∈ ops, op.idx < bitNum)
    (hrounds : (bitNum2ByteLen32 bitNum).toNat < rounds) (m : Mem) : ∃ btmp tr1 m1 tr2 m2,
      (BitmapHeader.bitmapInit rounds base bitNum).Runs m tr1 m1 btmp ∧
      btmp = ⟨base, bitNum, bitNum2ByteLen32 bitNum⟩ ∧
      (btmp.updateAll ops).Runs m1 tr2 m2 () ∧ (∀ x ∈ tr1 ++ tr2, btmp.Inside x) ∧
      (∀ a ∉ btmp.span, m2 a = m a) ∧
      ∀ i < bitNum, ∃ tr, (btmp.bitmapGet i).Runs m2 tr m2 (if lastIsSet ops i then 1 else 0) ∧
        ∀ x ∈ tr, btmp.Inside x := by
  obtain ⟨tr1, m1, hinit, hmap1, htr1⟩ := runs_bitmapInit hbase hrounds m rfl
  obtain ⟨tr2, m2, hupdates, hmap2, htr2⟩ :=
    @runs_updateAll ⟨base, bitNum, bitNum2ByteLen32 bitNum⟩ ops rfl hops m1
  refine ⟨_, tr1, m1, tr2, m2, hinit, rfl, hupdates, fun x hx => ?_, ?_, fun i hi => ?_⟩
  · exact (List.mem_append.mp hx).elim (htr1 x) (htr2 x)
  · exact (hmap1.trans hmap2).outside
  · refine ⟨_, ?_, @inside_bitmapGet ⟨base, bitNum, bitNum2ByteLen32 bitNum⟩ i rfl hi⟩
    have hbit : bitmapGet (ops.foldl MapOp.apply (bitmapInit (fun _ => 0) bitNum.toNat)) i.toNat =
        (lastIsSet ops i).toNat := by
      rw [bitmapGet_eq, bit_foldl_apply (bit_bitmapInit _ hi)]
    have hget := @runs_bitmapGet ⟨base, bitNum, bitNum2ByteLen32 bitNum⟩ i rfl hi m2
    rw [hmap2.view, hmap1.view, hbit] at hget
    convert hget
    cases lastIsSet ops i <;> rfl

/-- Two bits of one byte, one of them set and cleared. -/
theorem bitmapGet_after_three_updates : ∃ btmp tr1 m1 tr2 m2,
    (BitmapHeader.bitmapInit 3 0x1000 13).Runs (fun _ => 0xff) tr1 m1 btmp ∧
    btmp = ⟨0x1000, 13, bitNum2ByteLen32 13⟩ ∧
    (btmp.updateAll [.set 9, .set 8, .clear 9]).Runs m1 tr2 m2 () ∧
    (∀ x ∈ tr1 ++ tr2, btmp.Inside x) ∧ (∀ a ∉ btmp.span, m2 a = 0xff) ∧
    ∀ i < 13, ∃ tr, (btmp.bitmapGet i).Runs m2 tr m2
        (if lastIsSet [.set 9, .set 8, .clear 9] i then 1 else 0) ∧ ∀ x ∈ tr, btmp.Inside x :=
  bitmapGet_after_updates (by decide) (by simp [MapOp.idx]) (by decide) _

end Updates

end OsI386
