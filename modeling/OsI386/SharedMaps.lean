import OsI386.MemoryProtocols

/-!
# The maps of the shared pools under preemption

Between the accesses of a call other calls set bits of the maps. A call holds the pages whose
bits it has set and which it has not announced with a label yet. Where each store into a map sets
one bit that is clear at that moment and keeps the others, the pages a call gets to hold were no
one's.
-/
namespace OsI386
open Prog

section Protocol

/-- The store of `bitmap_set` in the map. -/
def byteStore (p : PoolId) (byteOff : ℕ) (byte : BitVec 8) (s : MemState) : Option MemState :=
  some (s.setBtmp p
    { s.btmp p with bytes := Function.update (s.btmp p).bytes byteOff byte })

/-- If the access stores into the map of a shared pool, it sets a bit that is clear and leaves the
others of the byte. -/
def FitStore (f : MemState → Option MemState) (s : MemState) : Prop :=
  ∀ p byteOff byte, p.Shared → f = byteStore p byteOff byte →
    ∃ k < 8, ((s.btmp p).bytes byteOff).getLsbD k = false ∧
      byte = (s.btmp p).bytes byteOff ||| (1#8 <<< k)

def SameSizes (s s' : MemState) : Prop :=
  ∀ p : PoolId, p.Shared → (s'.btmp p).bitNum = (s.btmp p).bitNum ∧
    (s'.pool p).addrBase = (s.pool p).addrBase

/-- Other calls set bits of the shared maps. -/
structure Grown (s s' : MemState) : Prop where
  sizes : SameSizes s s'
  bits : ∀ p : PoolId, p.Shared → ∀ i, (s.btmp p).bit i = true → (s'.btmp p).bit i = true

/-- `cnt` pages of a shared pool. -/
def pagesOf (p : PoolId) (idx cnt : ℕ) : Set (PoolId × ℕ) :=
  {x | x.1 = p ∧ p.Shared ∧ idx ≤ x.2 ∧ x.2 < idx + cnt}

/-- The pages `N` were free and are now held. -/
structure Takes (s : MemState) (N : Set (PoolId × ℕ)) (s' : MemState) : Prop where
  sizes : SameSizes s s'
  free : ∀ x ∈ N, x.1.Shared ∧ (s.btmp x.1).bit x.2 = false ∧
    (x.1.Physical → x.2 < (s.btmp x.1).bitNum)
  bits : ∀ p : PoolId, p.Shared → ∀ i,
    ((s'.btmp p).bit i = true ↔ (s.btmp p).bit i = true ∨ (p, i) ∈ N)

/-- What a label announces is no longer held. -/
def Gives (x : MemLabel) (s : MemState) (D D' : Set (PoolId × ℕ)) : Prop :=
  match x with
  | .frame p a => p.Physical ∧ ∃ i, pagesOf p i 1 ⊆ D ∧ a = s.pageAddr p i ∧
      D' = D \ pagesOf p i 1
  | .range p idx cnt => pagesOf p idx cnt ⊆ D ∧ D' = D \ pagesOf p idx cnt
  | _ => D' = D

variable {s s' s'' : MemState} {N D : Set (PoolId × ℕ)} {p : PoolId} {idx cnt : ℕ}

lemma SameSizes.trans (h : SameSizes s s') (g : SameSizes s' s'') : SameSizes s s'' :=
  fun p hp => ⟨(g p hp).1.trans (h p hp).1, (g p hp).2.trans (h p hp).2⟩

lemma Grown.refl (s : MemState) : Grown s s := ⟨fun _ _ => ⟨rfl, rfl⟩, fun _ _ _ => id⟩

lemma Grown.trans (h : Grown s s') (g : Grown s' s'') : Grown s s'' :=
  ⟨h.sizes.trans g.sizes, fun p hp i hi => g.bits p hp i (h.bits p hp i hi)⟩

lemma Takes.grown (h : Takes s N s') : Grown s s' :=
  ⟨h.sizes, fun p hp i hi => (h.bits p hp i).mpr (.inl hi)⟩

def mapsProtocol : Protocol MemState MemLabel (Set (PoolId × ℕ)) where
  others _ := Grown
  ok := FitStore
  access _ s D s' D' := ∃ N, Takes s N s' ∧ D' = D ∪ N
  tells := Gives
  refl _ := Grown.refl
  trans := Grown.trans

/-- The indices of the shared maps fit into an `int32_t`. -/
def SmallMaps (s : MemState) : Prop := ∀ p : PoolId, p.Shared → (s.btmp p).bitNum ≤ 2 ^ 31

/-- The page a call chooses in the kernel heap has its bit in the map. -/
structure MapsFit (target : Option Word) (s : MemState) : Prop where
  small : SmallMaps s
  target : ∀ v, target = some v → (s.btmp .kernelVir).Holds (s.targetBit .kernelVir v)

variable {target : Option Word}

lemma kernelVir_shared : PoolId.kernelVir.Shared := fun _ => nofun

lemma kernelVir_not_physical : ¬ PoolId.kernelVir.Physical := by
  rintro (h | h) <;> cases h

lemma SmallMaps.grown (h : SmallMaps s) (hs : Grown s s') : SmallMaps s' := fun p hp =>
  (hs.sizes p hp).1.trans_le (h p hp)

lemma Grown.holds {i : ℕ} (h : Grown s s') (hp : p.Shared) (hi : (s.btmp p).Holds i) :
    (s'.btmp p).Holds i := by
  rwa [Bitmap.Holds, (h.sizes p hp).1]

lemma Grown.targetBit (h : Grown s s') (v : Word) :
    s'.targetBit .kernelVir v = s.targetBit .kernelVir v := by
  rw [MemState.targetBit, MemState.targetBit, (h.sizes _ kernelVir_shared).2]

lemma MapsFit.grown (h : MapsFit target s) (hs : Grown s s') : MapsFit target s' where
  small := h.small.grown hs
  target v hv := by
    rw [hs.targetBit]
    exact hs.holds kernelVir_shared (h.target v hv)

lemma Quiet.takes {f : MemState → Option MemState} (h : Quiet f) (hs : f s = some s') :
    Takes s ∅ s' where
  sizes p hp := by
    obtain ⟨hb, ha⟩ := h s s' hs p hp
    exact ⟨congrArg Bitmap.bitNum hb, ha⟩
  free x hx := hx.elim
  bits p hp i := by
    rw [(h s s' hs p hp).1]
    exact ⟨.inl, fun hor => hor.resolve_right id⟩

lemma tolerant_maps : Tolerant mapsProtocol (MapsFit target) where
  others hg hs := MapsFit.grown hs hg
  quiet D hf hs := ⟨⟨∅, hf.takes hs, (Set.union_empty D).symm⟩, fun h => h.grown (hf.takes hs).grown⟩
  silent {x} s D hx := by
    cases x with
    | frame p a => exact hx.elim
    | range p idx cnt =>
      have hnone : pagesOf p idx cnt = ∅ := Set.eq_empty_of_forall_notMem fun y hy => hx hy.2.1
      change pagesOf p idx cnt ⊆ D ∧ D = D \ pagesOf p idx cnt
      rw [hnone]
      exact ⟨Set.empty_subset D, Set.sdiff_empty.symm⟩
    | _ => exact rfl

lemma pagesOf_one (p : PoolId) (idx : ℕ) : pagesOf p idx 1 ⊆ {(p, idx)} := by
  rintro ⟨q, i⟩ ⟨rfl, -, hle, hlt⟩
  have hi : i = idx := Nat.le_antisymm (Nat.lt_succ_iff.mp hlt) hle
  exact congrArg (Prod.mk q) hi

lemma pagesOf_succ (p : PoolId) (idx cnt : ℕ) :
    pagesOf p idx 1 ∪ pagesOf p (idx + 1) cnt = pagesOf p idx (cnt + 1) := by
  ext ⟨q, i⟩
  simp only [pagesOf, Set.mem_union, Set.mem_ofPred_eq]
  constructor
  · rintro (⟨hq, hp, h1, h2⟩ | ⟨hq, hp, h1, h2⟩)
    · exact ⟨hq, hp, h1, by omega⟩
    · exact ⟨hq, hp, by omega, by omega⟩
  · rintro ⟨hq, hp, h1, h2⟩
    by_cases hi : i = idx
    · exact .inl ⟨hq, hp, h1, by omega⟩
    · exact .inr ⟨hq, hp, by omega, by omega⟩

end Protocol

section Reservations

variable {target : Option Word} {s₀ s : MemState} {D : Set (PoolId × ℕ)} {p : PoolId}

/-- Reads and labels ask nothing of the state. -/
lemma tolerant_grown : Tolerant mapsProtocol fun _ => True where
  others _ _ := trivial
  quiet D hf hs := ⟨((@tolerant_maps none).quiet D hf hs).1, id⟩
  silent := (@tolerant_maps none).silent

lemma toNat_toInt32 {i : ℕ} (hi : i < 2 ^ 31) :
    toInt32 i = (i : ℤ) ∧ (BitVec.ofInt 32 (i : ℤ)).toNat = i := by
  refine ⟨toInt32_of_lt hi, ?_⟩
  rw [BitVec.ofInt_natCast, BitVec.toNat_ofNat]
  omega

/-- What a scan finds is a run of the map. -/
lemma obeys_bitmapScanAt_maps {cnt : ℕ} (hp : p.Shared) (hs : SmallMaps s) (hcnt : 0 < cnt)
    (val : ℕ) :
    (bitmapScanAt p val cnt).Obeys mapsProtocol (fun s' D' r => D' = D ∧ Grown s s' ∧
      (r = -1 ∨ ∃ i : ℕ, r = (i : ℤ) ∧ (BitVec.ofInt 32 r).toNat = i ∧
        i + cnt ≤ (s.btmp p).bitNum)) s D := by
  have hsize : ∀ s', Grown s s' → (s'.btmp p).bitNum = (s.btmp p).bitNum := fun s' h =>
    (h.sizes p hp).1
  refine Obeys.post (obeys_bitmapScanAt tolerant_grown.reads hsize val cnt)
    fun s' D' r hr => ⟨hr.1, hr.2.1, hr.2.2.1.imp_right ?_⟩
  rintro ⟨i, rfl, hfit⟩
  have hsmall := hs p hp
  obtain ⟨hint, hnat⟩ := toNat_toInt32 (i := i) (by omega)
  exact ⟨i, hint, by rw [hint, hnat], hfit⟩

/-- The store of `bitmap_set`, with a byte loaded earlier. -/
lemma byteStore_eq {idx : ℕ} {byte : BitVec 8} (hp : p.Shared)
    (hfit : FitStore (byteStore p (idx / 8) (byte ||| (1#8 <<< (idx % 8)))) s)
    (hbyte : ∀ k, byte.getLsbD k = true → ((s.btmp p).bytes (idx / 8)).getLsbD k = true) :
    (s.btmp p).bit idx = false ∧ byteStore p (idx / 8) (byte ||| (1#8 <<< (idx % 8))) s =
      some (s.setBtmp p (bitmapSet (s.btmp p) idx)) := by
  obtain ⟨k, hk, hclear, heq⟩ := hfit p _ _ hp rfl
  have hbit := congrArg (BitVec.getLsbD · k) heq
  simp only [BitVec.getLsbD_or, mask_bit hk, decide_true, Bool.or_true, Bool.or_eq_true,
    decide_eq_true_iff] at hbit
  obtain rfl : k = idx % 8 := hbit.resolve_left fun hset => by
    rw [hbyte k hset] at hclear
    cases hclear
  refine ⟨hclear, ?_⟩
  rw [byteStore, heq]
  rfl

lemma takes_bitmapSet {idx : ℕ} (hp : p.Shared) (hfree : (s.btmp p).bit idx = false)
    (hidx : p.Physical → idx < (s.btmp p).bitNum) :
    Takes s (pagesOf p idx 1) (s.setBtmp p (bitmapSet (s.btmp p) idx)) := by
  refine ⟨fun q hq => ⟨?_, setBtmp_addrBase _⟩, ?_, ?_⟩
  · by_cases he : q = p
    · rw [he, setBtmp_btmp_self]
      rfl
    · rw [setBtmp_btmp_of_ne _ he]
  · intro x hx
    obtain rfl := pagesOf_one p idx hx
    exact ⟨hp, hfree, hidx⟩
  · intro q hq i
    have hin : (q, i) ∈ pagesOf p idx 1 ↔ q = p ∧ i = idx :=
      ⟨fun hx => Prod.mk.inj (pagesOf_one p idx hx), by
        rintro ⟨rfl, rfl⟩
        exact ⟨rfl, hp, le_rfl, Nat.lt_succ_self i⟩⟩
    rw [hin]
    by_cases he : q = p
    · rw [he, setBtmp_btmp_self, bit_bitmapSet, Bool.or_eq_true, decide_eq_true_iff, or_comm]
      simp
    · rw [setBtmp_btmp_of_ne _ he]
      exact ⟨.inl, fun hor => hor.resolve_right fun hx => he hx.1⟩

/-- Bits that stay set are set in a byte loaded later. -/
lemma byte_of_bits {b b' : Bitmap} (h : ∀ i, b.bit i = true → b'.bit i = true) {j k : ℕ}
    (hk : (b.bytes j).getLsbD k = true) : (b'.bytes j).getLsbD k = true := by
  have hlt : k < 8 := by
    by_contra hge
    rw [BitVec.getLsbD_of_ge _ _ (by omega)] at hk
    cases hk
  have hbit : ∀ b : Bitmap, b.bit (8 * j + k) = (b.bytes j).getLsbD k := by
    intro b
    rw [Bitmap.bit, Nat.mul_add_div (by norm_num), Nat.div_eq_of_lt hlt, Nat.mul_add_mod,
      Nat.mod_eq_of_lt hlt, Nat.add_zero]
  rw [← hbit] at hk ⊢
  exact h _ hk

/-- The page of the bit is held after `bitmap_set`. -/
lemma obeys_bitmapSetAt {idx : ℕ} (hp : p.Shared) (h₀ : Grown s₀ s)
    (hin : (s₀.btmp p).Holds idx) (hidx : p.Physical → idx < (s₀.btmp p).bitNum) :
    (bitmapSetAt p idx).Obeys mapsProtocol
      (fun s' D' _ => Grown s₀ s' ∧ D' = D ∪ pagesOf p idx 1) s D := by
  refine tolerant_grown.obeys_read fun s₁ h₁ => ?_
  rw [if_pos ((h₀.trans h₁).holds hp hin)]
  intro s₂ h₂ hfit s' hs
  have h02 := (h₀.trans h₁).trans h₂
  obtain ⟨hfree, hstore⟩ := byteStore_eq hp hfit fun k => byte_of_bits (Grown.bits h₂ p hp)
  obtain rfl := Option.some.inj (hstore.symm.trans hs)
  have htakes := takes_bitmapSet hp hfree fun hphy => by
    rw [(h02.sizes p hp).1]
    exact hidx hphy
  exact ⟨_, ⟨_, htakes, rfl⟩, fun s₃ h₃ => ⟨(h02.trans htakes.grown).trans h₃, rfl⟩⟩

lemma obeys_bitmapSetRun {idx cnt : ℕ} (hp : p.Shared) (h₀ : Grown s₀ s)
    (hidx : idx + cnt ≤ (s₀.btmp p).bitNum) :
    (bitmapSetRun p idx cnt).Obeys mapsProtocol
      (fun s' D' _ => Grown s₀ s' ∧ D' = D ∪ pagesOf p idx cnt) s D := by
  induction cnt generalizing idx s D with
  | zero =>
    have hnone : D ∪ pagesOf p idx 0 = D := by
      refine Set.union_eq_self_of_subset_right fun x hx => ?_
      have hlt := hx.2.2.2
      have hle := hx.2.2.1
      omega
    exact fun s₁ h₁ => ⟨h₀.trans h₁, hnone.symm⟩
  | succ cnt ih =>
    have hlt : idx < (s₀.btmp p).bitNum := by omega
    refine Obeys.bind (obeys_bitmapSetAt hp h₀ (Bitmap.holds_of_lt hlt) fun _ => hlt) ?_
    rintro s' D' _ ⟨hg, rfl⟩
    have hrest : (bitmapSetRun p (idx + 1) cnt).Obeys mapsProtocol _ s' (D ∪ pagesOf p idx 1) :=
      ih hg (by omega)
    rwa [Set.union_assoc, pagesOf_succ] at hrest

lemma obedient_vaddrGet {pgCnt : ℕ} (hcnt : 0 < pgCnt) :
    Obedient mapsProtocol (MapsFit target) (vaddrGet .kernel pgCnt) := by
  intro s D hs
  refine tolerant_grown.obeys_read fun s₁ h₁ => ?_
  have hs₁ := hs.grown h₁
  refine tolerant_grown.obeys_label trivial
    (Obeys.bind (obeys_bitmapScanAt_maps kernelVir_shared hs₁.small hcnt 0) ?_)
  rintro s₂ D₂ r ⟨rfl, h₂, hr⟩
  split_ifs with hfull
  · exact tolerant_grown.obeys_label trivial (tolerant_maps.ret _ _ _ (hs₁.grown h₂))
  · obtain ⟨i, -, hnat, hfit⟩ := hr.resolve_left hfull
    rw [hnat]
    refine Obeys.bind (obeys_bitmapSetRun kernelVir_shared h₂ hfit) ?_
    rintro s₃ D₃ _ ⟨h₃, rfl⟩
    refine tolerant_grown.obeys_read fun s₄ h₄ s₅ h₅ => ?_
    exact ⟨_, ⟨Set.subset_union_right, rfl⟩,
      tolerant_maps.ret _ _ _ (((hs₁.grown h₃).grown h₄).grown h₅)⟩

lemma obedient_paddrGet (hp : p.Physical) :
    Obedient mapsProtocol (MapsFit target) (paddrGet p) := by
  intro s D hs
  refine tolerant_grown.obeys_label trivial
    (Obeys.bind (obeys_bitmapScanAt_maps hp.shared hs.small Nat.one_pos 0) ?_)
  rintro s₂ D₂ r ⟨rfl, h₂, hr⟩
  split_ifs with hfull
  · exact tolerant_grown.obeys_label trivial (tolerant_maps.ret _ _ _ (hs.grown h₂))
  · obtain ⟨i, rfl, hnat, hfit⟩ := hr.resolve_left hfull
    have hlt : i < (s.btmp p).bitNum := by omega
    rw [hnat, ofInt_mul_pgSize]
    refine Obeys.bind (obeys_bitmapSetAt hp.shared h₂ (Bitmap.holds_of_lt hlt) fun _ => hlt) ?_
    rintro s₃ D₃ _ ⟨h₃, rfl⟩
    refine tolerant_grown.obeys_read fun s₄ h₄ s₅ h₅ => ?_
    refine ⟨_, ⟨hp, i, Set.subset_union_right, ?_, rfl⟩,
      tolerant_maps.ret _ _ _ (((hs.grown h₃).grown h₄).grown h₅)⟩
    rw [MemState.pageAddr, (Grown.sizes h₅ p hp.shared).2]

lemma reserving_maps : Reserving mapsProtocol (MapsFit target) :=
  ⟨tolerant_maps, fun _ hcnt => obedient_vaddrGet hcnt, obedient_paddrGet⟩

/-- `target_vaddr_malloc` does not look at the bit before it sets it. -/
lemma obedient_targetReserve {vaddr : Word} (hv : target = some vaddr) :
    Obedient mapsProtocol (MapsFit target) (targetReserve .kernelVir vaddr) := by
  intro s D hs
  refine tolerant_grown.obeys_read fun s₁ h₁ => ?_
  have hs₁ := hs.grown h₁
  refine tolerant_grown.obeys_label trivial (Obeys.bind (obeys_bitmapSetAt kernelVir_shared
    (.refl s₁) (hs₁.target vaddr hv) fun hp => (kernelVir_not_physical hp).elim) ?_)
  rintro s₂ D₂ _ ⟨h₂, rfl⟩ s₃ h₃
  exact ⟨_, ⟨Set.subset_union_right, rfl⟩,
    tolerant_maps.ret () _ _ ((hs₁.grown h₂).grown h₃)⟩

/-- The page a call chooses is one of the kernel heap. -/
def OsCall.InHeap (c : OsCall) (s : MemState) : Prop :=
  ∀ v, c.target = some v → (s.btmp .kernelVir).Holds (s.targetBit .kernelVir v)

lemma OsCall.obeys_maps {c : OsCall} (hs : SmallMaps s) (hc : c.InHeap s) :
    c.prog.Obeys mapsProtocol (fun x _ _ => SmallMaps x) s D :=
  Obeys.post (obedient_osCall reserving_maps (fun _ => obedient_targetReserve) s D ⟨hs, hc⟩)
    fun _ _ _ => MapsFit.small

end Reservations

end OsI386
