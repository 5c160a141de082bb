import OsI386.Memory

/-!
# Calls of the allocators that run alone

The scan and the update of a bitmap, run without interruption, are those of `bitmap.c`, and
so `paddr_get` takes the first clear bit and `vaddr_get` the first long enough run of them.
-/
namespace OsI386
open Prog

section Bitmaps

variable {s : MemState} {p q : PoolId}

@[simp] lemma setBtmp_btmp_self (b : Bitmap) : (s.setBtmp p b).btmp p = b := by
  simp [MemState.setBtmp, MemState.btmp]

lemma setBtmp_btmp_of_ne (b : Bitmap) (h : q ≠ p) : (s.setBtmp p b).btmp q = s.btmp q := by
  simp [MemState.setBtmp, MemState.btmp, h]

@[simp] lemma setBtmp_addrBase (b : Bitmap) :
    ((s.setBtmp p b).pool q).addrBase = (s.pool q).addrBase := by
  by_cases h : q = p
  · simp [MemState.setBtmp, h]
  · simp [MemState.setBtmp, h]

@[simp] lemma setBtmp_setBtmp (b c : Bitmap) : (s.setBtmp p b).setBtmp p c = s.setBtmp p c := by
  simp [MemState.setBtmp]

lemma scanRounds_eq (val cnt fuel left right : ℕ) :
    (scanRounds p val cnt fuel left right).Runs s []
      s (match scanLoop (s.btmp p) val cnt fuel left right with
        | some l => toInt32 l
        | none => -1) := by
  induction fuel generalizing left right with
  | zero => rfl
  | succ fuel ih =>
    apply Runs.bind_silent (runs_read _ s)
    simp only [scanLoop]
    split_ifs <;> first | rfl | exact ih _ _

/-- A scan that is not interrupted is `bitmap_scan`. -/
lemma runs_bitmapScanAt (val cnt : ℕ) :
    (bitmapScanAt p val cnt).Runs s [] s (bitmapScan (s.btmp p) val cnt) := by
  apply Runs.bind_silent (runs_read _ s)
  exact scanRounds_eq val cnt _ 0 0

/-- A store behind a map changes no shared pool and no pointer of the cpu. -/
lemma orBehind_frame {idx : ℕ} {s' : MemState} (hs : s.orBehind p idx = some s') :
    (∀ q, (∀ t, q ≠ .userVir t) → s'.pool q = s.pool q) ∧ s'.running = s.running ∧
      s'.cr3 = s.cr3 := by
  obtain ⟨f, -, rfl⟩ := Option.map_eq_some_iff.mp hs
  refine ⟨fun q hq => ?_, rfl, rfl⟩
  cases q with
  | userVir t => exact absurd rfl (hq t)
  | _ => rfl

/-- `bitmap_set` in the map. -/
lemma runs_bitmapSetAt {idx : ℕ} (h : (s.btmp p).Holds idx) :
    (bitmapSetAt p idx).Runs s [] (s.setBtmp p (bitmapSet (s.btmp p) idx)) () := by
  apply Runs.bind_silent (runs_read _ s)
  rw [if_pos h]
  exact runs_modify _ s

/-- The bits from `idx` on, set one after the other. -/
def setRun (b : Bitmap) (idx : ℕ) : ℕ → Bitmap
  | 0 => b
  | cnt + 1 => setRun (bitmapSet b idx) (idx + 1) cnt

@[simp] lemma setRun_bitNum (b : Bitmap) (idx cnt : ℕ) : (setRun b idx cnt).bitNum = b.bitNum := by
  induction cnt generalizing b idx with
  | zero => rfl
  | succ cnt ih => simp [setRun, ih]

lemma bit_setRun (b : Bitmap) (idx cnt i : ℕ) :
    (setRun b idx cnt).bit i = (decide (idx ≤ i ∧ i < idx + cnt) || b.bit i) := by
  induction cnt generalizing b idx with
  | zero =>
    simp [setRun]
  | succ cnt ih =>
    have hiff : (idx + 1 ≤ i ∧ i < idx + 1 + cnt) ∨ i = idx ↔ idx ≤ i ∧ i < idx + (cnt + 1) := by
      omega
    rw [setRun, ih, bit_bitmapSet, ← Bool.or_assoc, ← Bool.decide_or]
    exact congrArg (· || b.bit i) (decide_eq_decide.mpr hiff)

lemma runs_bitmapSetRun {idx cnt : ℕ} (h : idx + cnt ≤ (s.btmp p).bitNum) :
    (bitmapSetRun p idx cnt).Runs s [] (s.setBtmp p (setRun (s.btmp p) idx cnt)) () := by
  induction cnt generalizing s idx with
  | zero =>
    have hs : s.setBtmp p (s.btmp p) = s := by
      simp [MemState.setBtmp, MemState.btmp]
    simp only [setRun, hs]
    rfl
  | succ cnt ih =>
    have hin : idx < (s.btmp p).bitNum := by omega
    apply Runs.bind_silent (runs_bitmapSetAt (Bitmap.holds_of_lt hin))
    have hnext : idx + 1 + cnt ≤ ((s.setBtmp p (bitmapSet (s.btmp p) idx)).btmp p).bitNum := by
      rw [setBtmp_btmp_self, bitmapSet_bitNum]
      omega
    simpa [setRun] using ih hnext

end Bitmaps

section Frames

/-- The address of the page a bit stands for. -/
def MemState.pageAddr (s : MemState) (p : PoolId) (idx : ℕ) : Word :=
  BitVec.ofNat 32 (idx * 4096) + (s.pool p).addrBase

lemma ofInt_mul_pgSize (idx : ℕ) : BitVec.ofInt 32 (idx : ℤ) * 4096 = BitVec.ofNat 32 (idx * 4096) := by
  apply BitVec.eq_of_toNat_eq
  simp [BitVec.toNat_mul, Nat.mul_mod]

variable {s : MemState} {p : PoolId}

/-- `paddr_get` on a pool without a free frame. -/
lemma runs_paddrGet_full (h : bitmapScan (s.btmp p) 0 1 = -1) :
    (paddrGet p).Runs s [.scan p, .noFrame p] s 0 := by
  apply Runs.bind_label
  apply Runs.bind_silent (runs_bitmapScanAt 0 1)
  rw [if_pos h]
  exact Runs.bind_label (Runs.ret 0 s)

/-- `paddr_get` takes the first free frame. -/
lemma runs_paddrGet_free {i : ℕ} (hi : i < 2 ^ 31) (hin : i < (s.btmp p).bitNum)
    (h : bitmapScan (s.btmp p) 0 1 = i) :
    (paddrGet p).Runs s [.scan p, .frame p (s.pageAddr p i)]
      (s.setBtmp p (bitmapSet (s.btmp p) i)) (s.pageAddr p i) := by
  have hnat : (BitVec.ofInt 32 (i : ℤ)).toNat = i := by
    rw [BitVec.ofInt_natCast, BitVec.toNat_ofNat]
    omega
  have hne : ¬ (i : ℤ) = -1 := by omega
  apply Runs.bind_label
  apply Runs.bind_silent (runs_bitmapScanAt 0 1)
  rw [h, if_neg hne, hnat, ofInt_mul_pgSize]
  apply Runs.bind_silent (runs_bitmapSetAt (Bitmap.holds_of_lt hin))
  apply Runs.bind_silent (runs_read _ _)
  have haddr : BitVec.ofNat 32 (i * 4096) +
      ((s.setBtmp p (bitmapSet (s.btmp p) i)).pool p).addrBase = s.pageAddr p i := by
    simp [MemState.pageAddr]
  rw [haddr]
  exact Runs.bind_label (Runs.ret _ _)

/-- A frame is free: its bit lies in the map and is clear. -/
def FreeBit (b : Bitmap) (i : ℕ) : Prop := i < b.bitNum ∧ b.bit i = false

lemma runAt_one_iff (b : Bitmap) (i : ℕ) : RunAt b 0 1 i ↔ FreeBit b i := by
  unfold RunAt FreeBit
  constructor
  · rintro ⟨hi, hz⟩
    exact ⟨by omega, (bitmapGet_eq_zero b i).mp (by simpa using hz 0 (by omega))⟩
  · rintro ⟨hi, hz⟩
    refine ⟨by omega, fun j hj => ?_⟩
    obtain rfl : j = 0 := by omega
    exact (bitmapGet_eq_zero b i).mpr hz

/-- The two outcomes of `paddr_get`. -/
lemma paddrGet_cases (hn : (s.btmp p).bitNum ≤ 2 ^ 31) :
    (∃ i, FreeBit (s.btmp p) i ∧ (paddrGet p).Runs s [.scan p, .frame p (s.pageAddr p i)]
      (s.setBtmp p (bitmapSet (s.btmp p) i)) (s.pageAddr p i)) ∨
    (∀ i, ¬ FreeBit (s.btmp p) i) ∧ (paddrGet p).Runs s [.scan p, .noFrame p] s 0 := by
  have hspec := @bitmapScan_spec (s.btmp p) 0 1 le_rfl hn
  rcases hspec with ⟨i, hrun, _, hscan⟩ | ⟨hnone, hscan⟩
  · have hfree := (runAt_one_iff _ i).mp hrun
    exact .inl ⟨i, hfree, runs_paddrGet_free (by have := hfree.1; omega) hfree.1 hscan⟩
  · exact .inr ⟨fun i hi => hnone i ((runAt_one_iff _ i).mpr hi), runs_paddrGet_full hscan⟩

end Frames

section Ranges

variable {s : MemState} {pf : PoolFlags} {cnt : ℕ}

/-- `vaddr_get` reserves the first run of `cnt` clear bits, if there is one. -/
lemma vaddrGet_cases {p : PoolId} (hp : p = vaddrPool pf s.running) (hc : 1 ≤ cnt)
    (hn : (s.btmp p).bitNum ≤ 2 ^ 31) :
    (∃ i, RunAt (s.btmp p) 0 cnt i ∧ bitmapScan (s.btmp p) 0 cnt = i ∧
      (vaddrGet pf cnt).Runs s [.scan p, .range p i cnt]
        (s.setBtmp p (setRun (s.btmp p) i cnt)) (s.pageAddr p i)) ∨
    (∀ i, ¬ RunAt (s.btmp p) 0 cnt i) ∧ bitmapScan (s.btmp p) 0 cnt = -1 ∧
      (vaddrGet pf cnt).Runs s [.scan p, .noRange p] s 0 := by
  have hspec := @bitmapScan_spec (s.btmp p) 0 cnt hc hn
  rcases hspec with ⟨i, hrun, _, hscan⟩ | ⟨hnone, hscan⟩
  · refine .inl ⟨i, hrun, hscan, ?_⟩
    have hnat : (BitVec.ofInt 32 (i : ℤ)).toNat = i := by
      have hfit := hrun.1
      rw [BitVec.ofInt_natCast, BitVec.toNat_ofNat]
      omega
    have hne : ¬ (i : ℤ) = -1 := by omega
    apply Runs.bind_silent (runs_read _ s)
    rw [← hp]
    apply Runs.bind_label
    apply Runs.bind_silent (runs_bitmapScanAt 0 cnt)
    rw [hscan, if_neg hne, hnat, ofInt_mul_pgSize]
    apply Runs.bind_silent (runs_bitmapSetRun hrun.1)
    apply Runs.bind_silent (runs_read _ _)
    apply Runs.bind_label
    rw [setBtmp_addrBase, BitVec.add_comm]
    exact Runs.ret _ _
  · refine .inr ⟨hnone, hscan, ?_⟩
    apply Runs.bind_silent (runs_read _ s)
    rw [← hp]
    apply Runs.bind_label
    apply Runs.bind_silent (runs_bitmapScanAt 0 cnt)
    rw [if_pos hscan]
    exact Runs.bind_label (Runs.ret 0 s)

lemma runAt_iff (b : Bitmap) (cnt i : ℕ) :
    RunAt b 0 cnt i ↔ i + cnt ≤ b.bitNum ∧ ∀ j, i ≤ j → j < i + cnt → b.bit j = false := by
  unfold RunAt
  refine and_congr_right fun _ => ⟨fun h j hij hj => ?_, fun h j hj => ?_⟩
  · have hz := h (j - i) (by omega)
    rwa [Nat.add_sub_cancel' hij, bitmapGet_eq_zero] at hz
  · exact (bitmapGet_eq_zero b _).mpr (h (i + j) (by omega) (by omega))

end Ranges

end OsI386
