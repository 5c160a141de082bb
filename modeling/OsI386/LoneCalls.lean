import OsI386.SharedMaps

/-!
# Calls that meet no other

As long as the maps of the shared pools are as a call left them, a scan finds what it would find
alone, and `bitmap_set` sets bits that are clear.
-/
namespace OsI386
open Prog

section Stores

variable {p q : PoolId} {byteOff byteOff' idx : ℕ} {byte byte' : BitVec 8} {s : MemState}
  {f : MemState → Option MemState}

/-- A state in which the store of `byte` changes the map. -/
def otherBytes (s : MemState) (p : PoolId) (byte : BitVec 8) : MemState :=
  s.setBtmp p { s.btmp p with bytes := fun _ => ~~~byte }

lemma not_ne_self (byte : BitVec 8) : ~~~byte ≠ byte := by
  revert byte
  decide

lemma byteStore_btmp {s' : MemState} (hs : byteStore p byteOff byte s = some s') :
    s'.btmp p = { s.btmp p with bytes := Function.update (s.btmp p).bytes byteOff byte } := by
  obtain rfl := Option.some.inj hs
  exact setBtmp_btmp_self _

lemma byteStore_inj (s : MemState) (h : byteStore p byteOff byte = byteStore q byteOff' byte') :
    q = p ∧ byteOff' = byteOff ∧ byte' = byte := by
  obtain ⟨s', hs⟩ : ∃ s', byteStore p byteOff byte (otherBytes s p byte) = some s' := ⟨_, rfl⟩
  have hleft := congrArg (fun b : Bitmap => b.bytes byteOff) (byteStore_btmp hs)
  simp only [Function.update_self] at hleft
  have hother : ((otherBytes s p byte).btmp p).bytes byteOff = ~~~byte := by
    rw [otherBytes, setBtmp_btmp_self]
  rw [h] at hs
  by_cases hq : q = p
  · subst hq
    have hright := congrArg (fun b : Bitmap => b.bytes byteOff) (byteStore_btmp hs)
    rw [hleft] at hright
    by_cases ho : byteOff = byteOff'
    · subst ho
      simp only [Function.update_self] at hright
      exact ⟨rfl, rfl, hright.symm⟩
    · simp only [Function.update_of_ne ho, hother] at hright
      exact absurd hright.symm (not_ne_self byte)
  · have hsame : s'.btmp p = (otherBytes s p byte).btmp p := by
      obtain rfl := Option.some.inj hs
      exact setBtmp_btmp_of_ne _ (Ne.symm hq)
    rw [hsame, hother] at hleft
    exact absurd hleft (not_ne_self byte)

/-- What leaves the map alone is no store into it. -/
lemma byteStore_ne (s : MemState) (h : ∀ x y, f x = some y → y.btmp p = x.btmp p) :
    f ≠ byteStore p byteOff byte := by
  rintro rfl
  obtain ⟨s', hs⟩ : ∃ s', byteStore p byteOff byte (otherBytes s p byte) = some s' := ⟨_, rfl⟩
  have hbytes := congrArg (fun b : Bitmap => b.bytes byteOff) (byteStore_btmp hs)
  rw [h _ s' hs, otherBytes, setBtmp_btmp_self] at hbytes
  simp only [Function.update_self] at hbytes
  exact absurd hbytes (not_ne_self byte)

lemma Quiet.fitStore (h : Quiet f) (s : MemState) : FitStore f s := fun _ _ _ hp heq =>
  absurd heq (byteStore_ne s fun x y hxy => (h x y hxy _ hp).1)

/-- `bitmap_set` on a bit that is clear. -/
lemma fitStore_bitmapSet (h : (s.btmp p).bit idx = false) :
    FitStore (byteStore p (idx / 8) ((s.btmp p).bytes (idx / 8) ||| (1#8 <<< (idx % 8)))) s := by
  intro q byteOff byte _ heq
  obtain ⟨rfl, rfl, rfl⟩ := byteStore_inj s heq
  exact ⟨idx % 8, Nat.mod_lt _ (by norm_num), h, rfl⟩

end Stores

section Protocol

/-- Other threads run, and leave the shared maps alone. -/
def SameMaps (s s' : MemState) : Prop := ∀ p : PoolId, p.Shared → s'.btmp p = s.btmp p

def loneProtocol : Protocol MemState MemLabel Unit where
  others _ := SameMaps
  ok _ _ := True
  access f s _ _ _ := FitStore f s
  tells _ _ _ _ := True
  refl _ _ _ _ := rfl
  trans h g p hp := (g p hp).trans (h p hp)

variable {s s' s'' : MemState} {p : PoolId} {idx cnt : ℕ}

lemma SameMaps.trans (h : SameMaps s s') (g : SameMaps s' s'') : SameMaps s s'' :=
  fun p hp => (g p hp).trans (h p hp)

lemma SmallMaps.same (h : SmallMaps s) (hs : SameMaps s s') : SmallMaps s' := fun p hp => by
  rw [hs p hp]
  exact h p hp

lemma tolerant_lone : Tolerant loneProtocol SmallMaps where
  others h hs := SmallMaps.same hs h
  quiet _ hf hs := ⟨hf.fitStore _, fun h => h.same fun p hp => (hf _ _ hs p hp).1⟩
  silent _ _ _ := trivial

/-- What the scan finds is clear. -/
lemma bitmapScan_clear {b : Bitmap} (hcnt : 1 ≤ cnt) (hsmall : b.bitNum ≤ 2 ^ 31) :
    bitmapScan b 0 cnt = -1 ∨ ∃ i : ℕ, bitmapScan b 0 cnt = (i : ℤ) ∧
      (BitVec.ofInt 32 (bitmapScan b 0 cnt)).toNat = i ∧ i + cnt ≤ b.bitNum ∧
      ∀ j, i ≤ j → j < i + cnt → b.bit j = false := by
  cases hscan : scanLoop b 0 cnt b.bitNum 0 0 with
  | none =>
    left
    rw [bitmapScan, hscan]
  | some i =>
    obtain ⟨⟨hfit, hclear⟩, -⟩ := scanLoop_some hcnt hscan
    obtain ⟨hint, hnat⟩ := toNat_toInt32 (i := i) (by omega)
    have hfound : bitmapScan b 0 cnt = (i : ℤ) := by
      rw [bitmapScan, hscan]
      exact hint
    refine .inr ⟨i, hfound, by rw [hfound, hnat], hfit, fun j h1 h2 => ?_⟩
    have hj := hclear (j - i) (by omega)
    rw [Nat.add_sub_cancel' h1] at hj
    exact (bitmapGet_eq_zero _ _).mp hj

lemma obeys_bitmapScanAt_lone (hp : p.Shared) (hcnt : 1 ≤ cnt) (hs : SmallMaps s) :
    (bitmapScanAt p 0 cnt).Obeys loneProtocol (fun s' _ r => SameMaps s s' ∧
      (r = -1 ∨ ∃ i : ℕ, r = (i : ℤ) ∧ (BitVec.ofInt 32 r).toNat = i ∧
        i + cnt ≤ (s.btmp p).bitNum ∧
        ∀ j, i ≤ j → j < i + cnt → (s.btmp p).bit j = false)) s () := by
  have hsame : ∀ x, SameMaps s x → x.btmp p = s.btmp p := fun x hx => hx p hp
  refine Obeys.post (obeys_bitmapScanAt tolerant_lone.reads
    (fun x hx => congrArg Bitmap.bitNum (hsame x hx)) 0 cnt) fun s' _ r hr => ⟨hr.2.1, ?_⟩
  rw [hr.2.2.2 hsame]
  exact bitmapScan_clear hcnt (hs p hp)

/-- Setting a bit that is clear. -/
lemma obeys_bitmapSetAt_lone (hp : p.Shared) (hs : SmallMaps s) (hin : (s.btmp p).Holds idx)
    (hclear : (s.btmp p).bit idx = false) :
    (bitmapSetAt p idx).Obeys loneProtocol
      (fun s' _ _ => SmallMaps s' ∧ s'.btmp p = bitmapSet (s.btmp p) idx) s () := by
  refine tolerant_lone.obeys_read fun s₁ h₁ => ?_
  rw [← h₁ p hp] at hin
  rw [if_pos hin]
  intro s₂ h₂ _ s' hs'
  have h02 := SameMaps.trans h₁ h₂
  have hsmall := hs.same h02
  obtain rfl := Option.some.inj hs'
  rw [← h₂ p hp]
  refine ⟨(), fitStore_bitmapSet ?_, fun s₃ h₃ => ⟨SmallMaps.same (fun q hq => ?_) h₃, ?_⟩⟩
  · rw [h02 p hp]
    exact hclear
  · by_cases he : q = p
    · subst he
      rw [setBtmp_btmp_self]
      exact hsmall q hq
    · rw [setBtmp_btmp_of_ne _ he]
      exact hsmall q hq
  · rw [h₃ p hp, setBtmp_btmp_self, ← h02 p hp]
    rfl

lemma obeys_bitmapSetRun_lone (hp : p.Shared) (hs : SmallMaps s)
    (hfit : idx + cnt ≤ (s.btmp p).bitNum)
    (hclear : ∀ j, idx ≤ j → j < idx + cnt → (s.btmp p).bit j = false) :
    (bitmapSetRun p idx cnt).Obeys loneProtocol (fun s' _ _ => SmallMaps s') s () := by
  induction cnt generalizing idx s with
  | zero => exact tolerant_lone.ret () s () hs
  | succ cnt ih =>
    have hin : (s.btmp p).Holds idx := Bitmap.holds_of_lt (by omega)
    refine Obeys.bind (obeys_bitmapSetAt_lone hp hs hin (hclear idx le_rfl (by omega))) ?_
    rintro s' _ _ ⟨hs', hset⟩
    refine ih hs' ?_ fun j h1 h2 => ?_
    · rw [hset, bitmapSet_bitNum]
      omega
    rw [hset, bit_bitmapSet, hclear j (by omega) (by omega), decide_eq_false (by omega),
      Bool.or_false]

end Protocol

section Calls

lemma vaddrGet_lone (pgCnt : ℕ) (hcnt : 0 < pgCnt) :
    Obedient loneProtocol SmallMaps (vaddrGet .kernel pgCnt) := by
  intro s _ hs
  refine tolerant_lone.obeys_read fun s₁ h₁ => tolerant_lone.obeys_label trivial
    (Obeys.bind (obeys_bitmapScanAt_lone kernelVir_shared hcnt (hs.same h₁)) ?_)
  rintro s₂ _ r ⟨h₂, hr⟩
  have hs₂ := (hs.same h₁).same h₂
  split_ifs with hfull
  · exact tolerant_lone.obeys_label trivial (tolerant_lone.ret _ _ _ hs₂)
  · obtain ⟨i, -, hnat, hfit, hclear⟩ := hr.resolve_left hfull
    have hsame := h₂ (vaddrPool .kernel s₁.running) kernelVir_shared
    rw [hnat]
    rw [← hsame] at hfit hclear
    refine Obeys.bind (obeys_bitmapSetRun_lone kernelVir_shared hs₂ hfit hclear) ?_
    intro s₃ _ _ hs₃
    refine tolerant_lone.obeys_read fun s₄ h₄ s₅ h₅ => ?_
    exact ⟨(), trivial, tolerant_lone.ret _ _ _ ((hs₃.same h₄).same h₅)⟩

lemma paddrGet_lone {p : PoolId} (hp : p.Physical) :
    Obedient loneProtocol SmallMaps (paddrGet p) := by
  intro s _ hs
  refine tolerant_lone.obeys_label trivial
    (Obeys.bind (obeys_bitmapScanAt_lone hp.shared le_rfl hs) ?_)
  rintro s₁ _ r ⟨h₁, hr⟩
  split_ifs with hfull
  · exact tolerant_lone.obeys_label trivial (tolerant_lone.ret _ _ _ (hs.same h₁))
  · obtain ⟨i, -, hnat, hfit, hclear⟩ := hr.resolve_left hfull
    rw [hnat]
    rw [← h₁ p hp.shared] at hfit hclear
    have hin : (s₁.btmp p).Holds i := Bitmap.holds_of_lt (by omega)
    refine Obeys.bind (obeys_bitmapSetAt_lone hp.shared (hs.same h₁) hin
      (hclear i le_rfl (Nat.lt_succ_self i))) ?_
    rintro s₂ _ _ ⟨hs₂, -⟩
    refine tolerant_lone.obeys_read fun s₃ h₃ s₄ h₄ => ?_
    exact ⟨(), trivial, tolerant_lone.ret _ _ _ ((hs₂.same h₃).same h₄)⟩

lemma reserving_lone : Reserving loneProtocol SmallMaps :=
  ⟨tolerant_lone, vaddrGet_lone, paddrGet_lone⟩

end Calls

end OsI386
