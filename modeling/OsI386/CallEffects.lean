import OsI386.MappingRuns
import OsI386.AddressSpace
import OsI386.ProgramLogic

/-!
# What an allocation leaves as it was

At every moment of a call of the allocators, bits once set are still set, the records and
pointers are the same, and the present entries of all frames in use are as they were before the
call: `v2p_mapping` writes only over entries that are not present and clears only a frame that
was free. The last point needs an active directory that shows itself.
-/
namespace OsI386
open Prog

section Relations

/-- Above 0xc0000000 the active directory has page tables for the whole kernel heap and shows
itself in its last entry; none of these frames is free. -/
structure Ready (s : MemState) : Prop where
  pools : PhyPools s
  heap : (s.pool .kernelVir).Shape 0xffc00000
  heapBase : 0xc0000000 ≤ (s.pool .kernelVir).addrBase.toNat
  window : Window s.phys s.cr3
  nullDir : s.cr3 ≠ 0
  ownDir : ¬ FreeFrame s s.cr3
  tables : ∀ i : Slot, 768 ≤ i.toNat → i.toNat < 1023 → present (s.phys s.cr3 i) = true ∧
    frameOf (s.phys s.cr3 i) ≠ 0 ∧ ¬ FreeFrame s (frameOf (s.phys s.cr3 i))

/-- The frames that are not free, the one at address 0 apart, keep their present entries. -/
def Kept (s s' : MemState) : Prop :=
  ∀ f, f ≠ 0 → ¬ FreeFrame s f → ∀ i, present (s.phys f i) = true → s'.phys f i = s.phys f i

/-- What every call of the allocators does at most. -/
structure Grows (s s' : MemState) : Prop extends SameShape s s' where
  pgDir : s'.pgDir = s.pgDir
  bits : ∀ p i, (s.btmp p).bit i = true → (s'.btmp p).bit i = true
  kept : Ready s → Kept s s'

/-- What a call does at most that takes no mutex. -/
structure Steady (s s' : MemState) : Prop extends Grows s s' where
  mtx : ∀ p, (s'.pool p).mtx = (s.pool p).mtx

variable {s s' s'' : MemState} {p : PoolId} {f : FrameNo} {i : Slot} {w : Word}

lemma SameShape.phyPools (h : SameShape s s') (hp : PhyPools s) : PhyPools s' :=
  ⟨fun pf => h.shape (hp.shape pf), h.apart hp.apart⟩

lemma Grows.free (h : Grows s s') (hf : FreeFrame s' f) : FreeFrame s f := by
  obtain ⟨pf, j, ⟨hj, hbit⟩, rfl⟩ := hf
  refine ⟨pf, j, ⟨?_, ?_⟩, by rw [h.pageAddr]⟩
  · rwa [← h.bitNum]
  · cases hs : (s.btmp (phyPool pf)).bit j with
    | false => rfl
    | true => exact absurd (h.bits _ _ hs) (by simp [hbit])

lemma Grows.ready (h : Grows s s') (hr : Ready s) : Ready s' := by
  have hentry : s'.phys s.cr3 1023 = s.phys s.cr3 1023 :=
    h.kept hr _ hr.nullDir hr.ownDir _ hr.window.present
  constructor
  case pools => exact h.phyPools hr.pools
  case heap => exact h.shape hr.heap
  case heapBase => rw [h.addrBase]; exact hr.heapBase
  case tables =>
    intro i hlow hhigh
    obtain ⟨hp, h0, hf⟩ := hr.tables i hlow hhigh
    rw [h.cr3, h.kept hr _ hr.nullDir hr.ownDir i hp]
    exact ⟨hp, h0, fun hfree => hf (h.free hfree)⟩
  case window =>
    rw [h.cr3]
    exact hr.window.of_last hentry
  case nullDir => rw [h.cr3]; exact hr.nullDir
  case ownDir =>
    rw [h.cr3]
    exact fun hf => hr.ownDir (h.free hf)

lemma Grows.refl (s : MemState) : Grows s s :=
  ⟨SameShape.refl s, rfl, fun _ _ h => h, fun _ _ _ _ _ _ => rfl⟩

lemma Grows.trans (h : Grows s s') (g : Grows s' s'') : Grows s s'' where
  toSameShape := h.toSameShape.trans g.toSameShape
  pgDir := g.pgDir.trans h.pgDir
  bits p i hb := g.bits p i (h.bits p i hb)
  kept hr f h0 hf i hi := by
    have hs := h.kept hr f h0 hf i hi
    rw [g.kept (h.ready hr) f h0 (fun hfree => hf (h.free hfree)) i (by rwa [hs]), hs]

lemma Steady.refl (s : MemState) : Steady s s := ⟨Grows.refl s, fun _ => rfl⟩

lemma Steady.trans (h : Steady s s') (g : Steady s' s'') : Steady s s'' :=
  ⟨h.toGrows.trans g.toGrows, fun p => (g.mtx p).trans (h.mtx p)⟩

/-- A bit is set. -/
lemma Steady.setBit (h : Steady s s') (p : PoolId) (idx : ℕ) :
    Steady s (s'.setBtmp p (bitmapSet (s'.btmp p) idx)) := by
  refine h.trans ⟨⟨SameShape.setBtmp (bitmapSet_bitNum _ _), rfl, fun q j hj => ?_,
    fun _ _ _ _ _ _ => rfl⟩, fun q => ?_⟩
  · by_cases hq : q = p
    · subst hq
      simp [hj]
    · rwa [setBtmp_btmp_of_ne _ hq]
  · by_cases hq : q = p
    · simp [MemState.setBtmp, hq]
    · simp [MemState.setBtmp, hq]

/-- An entry is written that was not present. -/
lemma Steady.store (h : Steady s s') (hz : present (s'.phys f i) = false) :
    Steady s { s' with phys := writeSlot s'.phys f i w } := by
  refine h.trans ⟨⟨SameShape.phys _, rfl, fun _ _ hb => hb, fun _ g _ _ j hj => ?_⟩, fun _ => rfl⟩
  by_cases hg : g = f
  · subst hg
    have hne : j ≠ i := by
      rintro rfl
      rw [hz] at hj
      exact Bool.false_ne_true hj
    exact writeSlot_of_slot_ne _ w hne g
  · exact congrFun (writeSlot_of_frame_ne _ i w hg) j

/-- The contents of a frame change that was free before, or of the one at address 0. -/
lemma Grows.fresh (h : Grows s s') (hf : Ready s → f = 0 ∨ FreeFrame s f) (page : Slot → Word) :
    Grows s { s' with phys := Function.update s'.phys f page } where
  toSameShape := h.toSameShape.trans (SameShape.phys _)
  pgDir := h.pgDir
  bits := h.bits
  kept hr g h0 hg j hj := by
    have hne : g ≠ f := by
      rintro rfl
      exact (hf hr).elim h0 hg
    change Function.update s'.phys f page g j = _
    rw [Function.update_of_ne hne]
    exact h.kept hr g h0 hg j hj

lemma Steady.fresh (h : Steady s s') (hf : Ready s → f = 0 ∨ FreeFrame s f) (page : Slot → Word) :
    Steady s { s' with phys := Function.update s'.phys f page } :=
  ⟨h.toGrows.fresh hf page, h.mtx⟩

lemma Grows.setMtx (h : Grows s s') (p : PoolId) (m : Mutex ℕ) : Grows s (s'.setMtx p m) := by
  have hpool : ∀ q, ((s'.setMtx p m).pool q).btmp = (s'.pool q).btmp ∧
      ((s'.setMtx p m).pool q).addrBase = (s'.pool q).addrBase := fun q => by
    by_cases hq : q = p
    · simp [MemState.setMtx, hq]
    · simp [MemState.setMtx, hq]
  refine h.trans ⟨⟨rfl, rfl, fun q => ?_, fun q => (hpool q).2⟩, rfl, fun q j hj => ?_,
    fun _ _ _ _ _ _ => rfl⟩
  · exact congrArg Bitmap.bitNum (hpool q).1
  · rwa [show (s'.setMtx p m).btmp q = s'.btmp q from (hpool q).1]

/-- A page that is mapped through tables in use stays mapped. -/
lemma Kept.translate {d g : FrameNo} {v : Word} (h : Kept s s') (hd : d ≠ 0) (hdf : ¬ FreeFrame s d)
    (ht : frameOf (s.phys d (pdeIdx v)) ≠ 0) (htf : ¬ FreeFrame s (frameOf (s.phys d (pdeIdx v))))
    (hv : translate s.phys d v = some g) : translate s'.phys d v = some g := by
  unfold OsI386.translate at hv ⊢
  have hp : present (s.phys d (pdeIdx v)) = true := by
    by_contra hn
    simp [hn] at hv
  simp only [hp, if_true] at hv
  have hq : present (s.phys (frameOf (s.phys d (pdeIdx v))) (pteIdx v)) = true := by
    by_contra hn
    simp [hn] at hv
  simp only [hq, if_true] at hv
  simp only [h d hd hdf _ hp, hp, if_true, h _ ht htf _ hq, hq]
  exact hv

end Relations

section Calls

variable {s s' : MemState} {I : List MemLabel → MemState → Prop} {tr : List MemLabel}
  {p : PoolId} {v a : Word}

def steady (s : MemState) (_ : List MemLabel) (s' : MemState) : Prop := Steady s s'

lemma steady_effect : Effect steady := ⟨Steady.refl, Steady.trans⟩

lemma safe_bitmapScanAt (hI : I tr s) (val cnt : ℕ) :
    (bitmapScanAt p val cnt).Safe I
      (fun t x r => t = tr ∧ x = s ∧ r = bitmapScan (s.btmp p) val cnt) tr s := by
  have hrounds : ∀ fuel left right,
      (scanRounds p val cnt fuel left right).Safe I (fun _ _ _ => True) tr s := by
    intro fuel
    induction fuel with
    | zero => exact fun _ _ => .ret hI trivial
    | succ fuel ih =>
      intro left right
      refine .read ?_
      dsimp only
      generalize (if bitmapGet (s.btmp p) right ≠ val then right + 1 else left) = left'
      split
      · exact .ret hI trivial
      · exact ih _ _
  have hall : (bitmapScanAt p val cnt).Safe I (fun _ _ _ => True) tr s := .read (hrounds _ 0 0)
  simpa using hall.of_runs (runs_bitmapScanAt val cnt)

/-- `bitmap_set` in the map is one store. -/
lemma safe_bitmapSetAt {idx : ℕ} {I : List MemLabel → MemState → Prop} {tr : List MemLabel}
    (h : (s.btmp p).Holds idx) (hs : I tr s)
    (hset : I tr (s.setBtmp p (bitmapSet (s.btmp p) idx))) :
    (bitmapSetAt p idx).Safe I
      (fun t x _ => t = tr ∧ x = s.setBtmp p (bitmapSet (s.btmp p) idx)) tr s := by
  refine .read ?_
  rw [if_pos h]
  exact .modify hs hset ⟨rfl, rfl⟩

lemma steady_bitmapSetAt {idx : ℕ} (h : (s.btmp p).Holds idx) :
    Within steady (bitmapSetAt p idx) s
      fun _ x _ => x = s.setBtmp p (bitmapSet (s.btmp p) idx) :=
  (safe_bitmapSetAt h (Steady.refl s) ((Steady.refl s).setBit p idx)).post fun _ _ _ _ hx => hx.2

lemma steady_bitmapSetRun {idx cnt : ℕ} (h : idx + cnt ≤ (s.btmp p).bitNum) :
    Within steady (bitmapSetRun p idx cnt) s
      fun _ x _ => x = s.setBtmp p (setRun (s.btmp p) idx cnt) := by
  have hall : Within steady (bitmapSetRun p idx cnt) s fun _ _ _ => True := by
    induction cnt generalizing s idx with
    | zero => exact .ret (Steady.refl s) trivial
    | succ cnt ih =>
      have hin : idx < (s.btmp p).bitNum := by omega
      refine (steady_bitmapSetAt (Bitmap.holds_of_lt hin)).bind steady_effect ?_
      rintro _ s' _ hs -
      refine ih ?_
      rw [hs.bitNum]
      omega
  exact (hall.of_runs (runs_bitmapSetRun h)).post fun _ _ _ _ h => h.2.1

/-- `paddr_get` sets at most a bit. -/
lemma steady_paddrGet (p : PoolId) :
    Within steady (paddrGet p) s fun _ s' a =>
      (s'.phys = s.phys ∧ ∀ q, q ≠ p → s'.btmp q = s.btmp q) ∧
      ((s.btmp p).bitNum ≤ 2 ^ 31 → (a = 0 ∧ s' = s ∧ ∀ i, ¬ FreeBit (s.btmp p) i) ∨
        ∃ i, FreeBit (s.btmp p) i ∧ a = s.pageAddr p i ∧
          s' = s.setBtmp p (bitmapSet (s.btmp p) i)) := by
  have hphys : Within steady (paddrGet p) s fun _ s' _ =>
      s'.phys = s.phys ∧ ∀ q, q ≠ p → s'.btmp q = s.btmp q := by
    refine .label (Steady.refl s) (.bind (safe_bitmapScanAt (Steady.refl s) 0 1) ?_)
    rintro _ s r _ ⟨rfl, rfl, rfl⟩
    split_ifs with hfull
    · exact .label (Steady.refl _) (.ret (Steady.refl _) ⟨rfl, fun _ _ => rfl⟩)
    · have hin := Bitmap.holds_of_lt (bitmapScan_fits hfull)
      refine (steady_bitmapSetAt hin).bind_safe steady_effect (Steady.refl s) ?_
      rintro _ _ _ - hs rfl
      exact .read (.label hs (.ret hs ⟨rfl, fun q hq => setBtmp_btmp_of_ne _ hq⟩))
  by_cases hn : (s.btmp p).bitNum ≤ 2 ^ 31
  · rcases paddrGet_cases hn with ⟨i, hi, hr⟩ | ⟨hnone, hr⟩
    · refine (hphys.of_runs hr).post fun _ x b _ h => ?_
      obtain ⟨-, rfl, rfl⟩ := h
      exact ⟨⟨rfl, fun q hq => setBtmp_btmp_of_ne _ hq⟩, fun _ => .inr ⟨i, hi, rfl, rfl⟩⟩
    · refine (hphys.of_runs hr).post fun _ x b _ h => ?_
      obtain ⟨-, rfl, rfl⟩ := h
      exact ⟨⟨rfl, fun _ _ => rfl⟩, fun _ => .inl ⟨rfl, rfl, hnone⟩⟩
  · exact hphys.post fun _ _ _ _ h => ⟨h, fun hle => absurd hle hn⟩

/-- The statements at the end of `v2p_mapping` write over an entry they have seen to be free. -/
lemma steady_storeEntry (h : Steady s s') {e : Word} :
    (do
      let pteVal ← loadAt (pteVaddrGet v)
      if pteVal &&& 1 ≠ 0 then .stop .panic else storeAt (pteVaddrGet v) e : MemProg Unit).Safe
      (steady s) (fun _ x _ => x.pool = s'.pool ∧
        (Window s'.phys s'.cr3 → present (s'.phys s'.cr3 (pdeIdx v)) = true →
          x = { s' with phys := setEntry s'.phys s'.cr3 v e } ∧
            present (s'.phys (frameOf (s'.phys s'.cr3 (pdeIdx v))) (pteIdx v)) = false)) tr s' := by
  refine .readOr h fun pteVal hload => ?_
  obtain ⟨f, hf, rfl⟩ := Option.map_eq_some_iff.mp hload
  split_ifs with hp
  · exact .stop h
  refine .modifyOr h fun x hx => ?_
  have hz := (not_present_iff _).mpr hp
  simp only [storeWord, hf, Option.map_some, Option.some.injEq] at hx
  subst hx
  refine ⟨h.store hz, rfl, fun hwin hthere => ?_⟩
  rw [translate_pteVaddrGet hwin hthere, Option.some.injEq] at hf
  rw [wordIdx_pteVaddrGet] at hz ⊢
  subst hf
  exact ⟨rfl, hz⟩

/-- An entry that was present was not written. -/
lemma setEntry_of_present {m : Phys} {d f : FrameNo} {i : Slot} {e : Word}
    (hnew : present (m (frameOf (m d (pdeIdx v))) (pteIdx v)) = false)
    (hp : present (m f i) = true) : setEntry m d v e f i = m f i := by
  refine (writeSlot_apply m (frameOf (m d (pdeIdx v)), pteIdx v) e (f, i)).trans
    (if_neg fun he => ?_)
  obtain ⟨rfl, rfl⟩ := Prod.mk.inj he
  rw [hnew] at hp
  exact Bool.false_ne_true hp

/-- An entry that was not present is set, and maps its page. -/
lemma translate_setEntry_self {m : Phys} {d : FrameNo} {e : Word}
    (hp : present (m d (pdeIdx v)) = true)
    (hz : present (m (frameOf (m d (pdeIdx v))) (pteIdx v)) = false) (he : present e = true) :
    translate (setEntry m d v e) d v = some (frameOf e) := by
  have hdir : setEntry m d v e d (pdeIdx v) = m d (pdeIdx v) := setEntry_of_present hz hp
  simp only [translate, hdir, hp, if_true]
  rw [setEntry, writeSlot_self, if_pos he]

lemma steady_v2pMapping (v a : Word) :
    Within steady (v2pMapping v a) s fun _ s' _ =>
      (∀ q, q ≠ .kernelPhy → s'.btmp q = s.btmp q) ∧
        (Ready s → translate s'.phys s'.cr3 v = some (frameOf a)) := by
  have hs := Steady.refl s
  refine .label hs (.readOr hs fun pdeVal hload => ?_)
  obtain ⟨d, hd, rfl⟩ := Option.map_eq_some_iff.mp hload
  have hdir : Ready s → d = s.cr3 := fun hr => by
    rw [translate_pdeVaddrGet hr.window] at hd
    exact (Option.some.inj hd).symm
  rw [wordIdx_pdeVaddrGet]
  split_ifs with hp
  · refine .readOr hs fun pteVal _ => ?_
    split_ifs
    · exact .stop hs
    refine (steady_storeEntry hs).post ?_
    rintro _ x _ _ ⟨hpool, hx⟩
    refine ⟨fun q _ => congrArg Pool.btmp (congrFun hpool q), fun hr => ?_⟩
    have hthere : present (s.phys s.cr3 (pdeIdx v)) = true := by
      rw [← hdir hr]
      exact (present_iff _).mpr hp
    obtain ⟨rfl, hz⟩ := hx hr.window hthere
    rw [← frameOf_entryOf a]
    exact translate_setEntry_self hthere hz (present_entryOf a)
  · have hz := (not_present_iff _).mpr hp
    refine (steady_paddrGet .kernelPhy).bind_safe steady_effect hs ?_
    rintro _ s1 pt - hs1 ⟨⟨hphys, hvir⟩, hpt⟩
    have hcr3 : s1.cr3 = s.cr3 := hs1.cr3
    have hfree : Ready s → frameOf pt = 0 ∨ FreeFrame s (frameOf pt) := by
      intro hr
      rcases hpt ((hr.pools.shape .kernel).bitNum_le le_rfl) with ⟨rfl, -⟩ | ⟨i, hi, rfl, -⟩
      · exact .inl rfl
      · exact .inr ⟨.kernel, i, hi, rfl⟩
    have hne : Ready s → frameOf pt ≠ s.cr3 := by
      intro hr he
      rcases hfree hr with h0 | hf
      · exact hr.nullDir (he ▸ h0)
      · exact hr.ownDir (he ▸ hf)
    -- the entry of the directory
    refine .bind (P := fun _ x _ =>
      x = { s1 with phys := writeSlot s1.phys d (pdeIdx v) (entryOf pt) }) (.modifyOr hs1 ?_) ?_
    · intro x hx
      rw [← hphys, ← hcr3] at hd
      simp only [storeWord, hd, wordIdx_pdeVaddrGet, Option.map_some, Option.some.injEq] at hx
      rw [← hphys] at hz
      exact hx ▸ ⟨hs1.store hz, rfl⟩
    rintro _ s2 _ hs2 rfl
    set m := writeSlot s1.phys d (pdeIdx v) (entryOf pt) with hm
    have hwin : Ready s → Window m s1.cr3 ∧ m s1.cr3 (pdeIdx v) = entryOf pt := by
      intro hr
      rw [hdir hr] at hz
      rw [hm, hphys, hcr3, hdir hr, writeSlot_self]
      exact ⟨hr.window.writeSlot (hr.window.ne_of_absent hz) _ _, rfl⟩
    have hpage : Ready s → translate m s1.cr3 (pteVaddrGet v &&& 0xfffff000) =
        some (frameOf pt) := by
      intro hr
      obtain ⟨hw, hentry⟩ := hwin hr
      exact hw.translate_tablePage hentry
    -- the page table, seen through that entry
    refine .bind (P := fun _ x _ => ∃ f, (Ready s → f = frameOf pt) ∧
      x = { s1 with phys := Function.update m f fun _ => 0 }) (.modifyOr hs2 ?_) ?_
    · intro x hx
      obtain ⟨f, hf, rfl⟩ := Option.map_eq_some_iff.mp hx
      have hframe : Ready s → f = frameOf pt := fun hr => by
        rw [hpage hr] at hf
        exact (Option.some.inj hf).symm
      exact ⟨hs2.fresh (fun hr => hframe hr ▸ hfree hr) _, f, hframe, rfl⟩
    rintro _ s3 _ hs3 ⟨f, hf, rfl⟩
    refine (steady_storeEntry hs3).post ?_
    rintro _ x _ _ ⟨hpool, hx⟩
    refine ⟨fun q hq => (congrArg Pool.btmp (congrFun hpool q)).trans (hvir q hq), fun hr => ?_⟩
    obtain ⟨hw, hentry⟩ := hwin hr
    have hother : Function.update m f (fun _ => 0) s1.cr3 = m s1.cr3 := by
      rw [hf hr, hcr3]
      exact Function.update_of_ne (hne hr).symm _ _
    have hthere : present (Function.update m f (fun _ => 0) s1.cr3 (pdeIdx v)) = true := by
      rw [hother, hentry, present_entryOf]
    obtain ⟨rfl, hempty⟩ := hx (hw.of_last (congrFun hother 1023)) hthere
    rw [← frameOf_entryOf a]
    exact translate_setEntry_self hthere hempty (present_entryOf a)

lemma steady_mallocPages (p : PoolId) (start : Word) (cnt : ℕ) (v : Word) :
    Within steady (mallocPages p start cnt v) s fun _ _ a => a = 0 ∨ a = start := by
  induction cnt generalizing s v with
  | zero => exact .ret (Steady.refl s) (.inr rfl)
  | succ cnt ih =>
    refine (steady_paddrGet p).bind steady_effect fun _ s1 pa _ _ => ?_
    split_ifs
    · exact .ret (Steady.refl s1) (.inl rfl)
    · exact (steady_v2pMapping v pa).bind steady_effect fun _ s2 _ _ _ => ih _

lemma steady_vaddrGet {pf : PoolFlags} (hp : p = vaddrPool pf s.running) (cnt : ℕ) :
    Within steady (vaddrGet pf cnt) s fun _ s' a => 1 ≤ cnt → (s.btmp p).bitNum ≤ 2 ^ 31 →
      (a = 0 ∧ s' = s ∧ ∀ i, ¬ RunAt (s.btmp p) 0 cnt i) ∨
        ∃ i, RunAt (s.btmp p) 0 cnt i ∧ a = s.pageAddr p i ∧
          s' = s.setBtmp p (setRun (s.btmp p) i cnt) := by
  have hs := Steady.refl s
  have hall : Within steady (vaddrGet pf cnt) s fun _ _ _ => True := by
    refine .read (.label hs (.bind (safe_bitmapScanAt hs 0 cnt) ?_))
    rintro _ s r hs ⟨rfl, rfl, rfl⟩
    split_ifs with hfull
    · exact .label hs (.ret hs trivial)
    · exact (steady_bitmapSetRun (bitmapScan_fits hfull)).bind_safe steady_effect hs
        fun _ s1 _ _ hs1 _ => .read (.label hs1 (.ret hs1 trivial))
  by_cases hc : 1 ≤ cnt ∧ (s.btmp p).bitNum ≤ 2 ^ 31
  · rcases vaddrGet_cases hp hc.1 hc.2 with ⟨i, hi, -, hr⟩ | ⟨hnone, -, hr⟩
    · exact (hall.of_runs hr).post fun _ x b _ h _ _ => .inr ⟨i, hi, h.2.2, h.2.1⟩
    · exact (hall.of_runs hr).post fun _ x b _ h _ _ => .inl ⟨h.2.2, h.2.1, hnone⟩
  · exact hall.post fun _ _ _ _ _ hle hn => absurd ⟨hle, hn⟩ hc

lemma steady_mallocPage (pf : PoolFlags) (pgCnt : ℕ) :
    Within steady (mallocPage pf pgCnt) s fun _ _ _ => True := by
  unfold mallocPage
  split_ifs
  · refine (steady_vaddrGet rfl pgCnt).bind steady_effect fun _ s1 start _ _ => ?_
    split_ifs
    · exact .ret (Steady.refl s1) trivial
    · exact Safe.post (steady_mallocPages _ _ _ _) fun _ _ _ _ _ => trivial
  · exact .stop (Steady.refl s)

lemma steady_addrV2p (v : Word) :
    Within steady (addrV2p v) s fun _ s' a => s' = s ∧
      ∀ f, Window s.phys s.cr3 → translate s.phys s.cr3 v = some f →
        a = frameAddr f + (v &&& 0xfff) := by
  have hs := Steady.refl s
  have hall : Within steady (addrV2p v) s fun _ s' _ => s' = s :=
    .readOr hs fun _ _ => .ret hs rfl
  by_cases hv : ∃ f, Window s.phys s.cr3 ∧ translate s.phys s.cr3 v = some f
  · obtain ⟨f, hw, hf⟩ := hv
    refine (hall.of_runs (runs_addrV2p hw hf)).post fun _ x a _ h => ⟨h.2.1, fun g _ hg => ?_⟩
    obtain rfl : f = g := Option.some.inj (hf.symm.trans hg)
    exact h.2.2
  · exact hall.post fun _ _ _ _ h => ⟨h, fun f hw hf => absurd ⟨f, hw, hf⟩ hv⟩

end Calls

section Mutexes

variable {s s' : MemState} {Q : List MemLabel → MemState → Word → Prop}

def grows (s : MemState) (_ : List MemLabel) (s' : MemState) : Prop := Grows s s'

lemma grows_effect : Effect grows := ⟨Grows.refl, Grows.trans⟩

lemma grows_of_steady {α : Type} {c : MemProg α} {P : List MemLabel → MemState → α → Prop}
    (h : Within steady c s P) : Within grows c s fun t x a => Steady s x ∧ P t x a :=
  h.weaken fun _ _ hs => hs.toGrows

lemma grows_mutexLockAt (p : PoolId) :
    Within grows (mutexLockAt p) s fun _ x _ => 0 < (s.pool p).mtx.sem.val ∧
      x = s.setMtx p ⟨some s.running,
        { (s.pool p).mtx.sem with val := (s.pool p).mtx.sem.val - 1 }⟩ := by
  refine .await (Grows.refl s) fun x hx => ?_
  by_cases hz : (s.pool p).mtx.sem.val = 0
  · have hsleep : ∃ sem, semDown (s.pool p).mtx.sem s.running = .sleep sem := by
      unfold semDown
      rw [if_pos hz]
      split_ifs
      · exact ⟨_, rfl⟩
      · exact ⟨_, rfl⟩
    obtain ⟨sem, hsem⟩ := hsleep
    simp [hsem] at hx
  · simp only [semDown, if_neg hz, Option.some.injEq] at hx
    exact hx ▸ ⟨(Grows.refl s).setMtx p _, Nat.pos_of_ne_zero hz, rfl⟩

lemma grows_mutexUnlockAt (p : PoolId) :
    Within grows (mutexUnlockAt p) s fun _ x _ => (s.pool p).mtx.sem.val = 0 ∧
      ∃ ws, x = s.setMtx p ⟨none, ⟨1, ws⟩⟩ := by
  refine .modifyOr (Grows.refl s) fun x hx => ?_
  obtain ⟨m, hm, rfl⟩ := Option.map_eq_some_iff.mp hx
  refine ⟨(Grows.refl s).setMtx p _, ?_⟩
  obtain ⟨u, hu, hm⟩ := Option.bind_eq_some_iff.mp hm
  obtain rfl := Option.some.inj hm
  unfold semUp at hu
  split_ifs at hu with hz
  refine ⟨hz, ?_⟩
  cases hw : (s.pool p).mtx.sem.waiters with
  | nil =>
    simp only [hw, hz, Option.some.injEq] at hu
    exact ⟨[], hu ▸ by rfl⟩
  | cons w ws =>
    simp only [hw, hz, Option.some.injEq] at hu
    exact ⟨ws, hu ▸ rfl⟩

lemma grows_userPagesMalloc (pgCnt : ℕ) :
    Within grows (userPagesMalloc pgCnt) s fun _ _ _ => True := by
  refine (grows_mutexLockAt _).bind grows_effect fun _ s1 _ _ _ => ?_
  refine (grows_of_steady (steady_mallocPage .user pgCnt)).bind grows_effect fun _ s2 a _ _ => ?_
  exact (grows_mutexUnlockAt _).bind grows_effect fun _ s3 _ _ _ => .ret (Grows.refl s3) trivial

end Mutexes

section HeapPages

variable {s s' : MemState} {a : Word}

/-- `kernel_pages_malloc` can find no page any more. -/
def Exhausted (s : MemState) : Prop :=
  (∀ i, ¬ FreeBit (s.btmp .kernelVir) i) ∨ ∀ i, ¬ FreeBit (s.btmp .kernelPhy) i

/-- Between `s` and `s'` the page at `a` of the kernel heap was taken and mapped. -/
structure HeapPage (s s' : MemState) (a : Word) : Prop where
  page : ∃ i, FreeBit (s.btmp .kernelVir) i ∧ a = s.pageAddr .kernelVir i ∧
    (s'.btmp .kernelVir).bit i = true
  frame : ∃ f, FreeFrame s f ∧ ¬ FreeFrame s' f ∧ translate s'.phys s'.cr3 a = some f

lemma Steady.notFree {f : FrameNo} (h : Steady s s') (hf : ¬ FreeFrame s f) : ¬ FreeFrame s' f :=
  fun hfree => hf (h.free hfree)

/-- `kernel_pages_malloc(1)`. -/
lemma steady_kernelPage (hr : Ready s) : Within steady (kernelPagesMalloc 1) s fun _ s' a =>
    a = 0 ∧ Exhausted s' ∨ a ≠ 0 ∧ HeapPage s s' a := by
  have htop : (0xffc00000 : ℕ) ≤ 2 ^ 32 := by norm_num
  have hv := hr.heap
  have hcall : kernelPagesMalloc 1 = (vaddrGet .kernel 1 >>= fun a =>
      if a = 0 then return 0 else mallocPages .kernelPhy a 1 a) := rfl
  rw [hcall]
  have hp : PoolId.kernelVir = vaddrPool .kernel s.running := rfl
  refine (steady_vaddrGet hp 1).bind_safe steady_effect (Steady.refl s) ?_
  rintro _ s1 start - hs1 hget
  rcases hget le_rfl (hv.bitNum_le htop) with ⟨rfl, rfl, hnone⟩ | ⟨i, hi, rfl, rfl⟩
  · rw [if_pos rfl]
    exact .ret hs1 (.inl ⟨rfl, .inl fun i hi => hnone i ((runAt_one_iff _ i).mpr hi)⟩)
  have hfree := (runAt_one_iff _ i).mp hi
  rw [if_neg (pageAddr_ne_zero hv htop hfree.1)]
  set s1 := s.setBtmp .kernelVir (setRun (s.btmp .kernelVir) i 1) with hs1_eq
  have hbit : (s1.btmp .kernelVir).bit i = true := by
    rw [hs1_eq, setBtmp_btmp_self, bit_setRun]
    simp
  have hphy : s1.btmp .kernelPhy = s.btmp .kernelPhy := setBtmp_btmp_of_ne _ (by decide)
  refine (steady_paddrGet .kernelPhy).bind_safe steady_effect hs1 ?_
  rintro _ s2 pa - hs2 ⟨-, hpa⟩
  have hbound := (hr.pools.shape .kernel).bitNum_le le_rfl
  rcases hpa (by rw [hphy]; exact hbound) with ⟨rfl, rfl, hnone⟩ | ⟨j, hj, rfl, rfl⟩
  · rw [if_pos rfl]
    exact .ret hs2 (.inl ⟨rfl, .inr hnone⟩)
  have hj0 : FreeBit (s.btmp (phyPool .kernel)) j := by rwa [hphy] at hj
  have haddr : s1.pageAddr .kernelPhy j = s.pageAddr .kernelPhy j :=
    hs1.toSameShape.pageAddr _ _
  have hne : s.pageAddr .kernelPhy j ≠ 0 :=
    pageAddr_ne_zero (hr.pools.shape .kernel) le_rfl hj0.1
  rw [haddr, if_neg hne]
  refine (steady_v2pMapping _ _).bind_safe steady_effect hs2 ?_
  rintro _ s3 _ hmid hs3 ⟨-, hmap⟩
  refine .ret hs3 (.inr ⟨pageAddr_ne_zero hv htop hfree.1, ⟨i, hfree, rfl, ?_⟩, ?_⟩)
  · refine hmid.bits _ _ ?_
    rw [setBtmp_btmp_of_ne _ (by decide)]
    exact hbit
  · refine ⟨frameOf (s.pageAddr .kernelPhy j), ⟨.kernel, j, hj0, rfl⟩, ?_,
      hmap (hs2.ready hr)⟩
    -- the frame was taken, and stays so
    refine hmid.notFree fun hf => ?_
    have hpools : PhyPools s1 := hs1.phyPools hr.pools
    have hj1 : FreeBit (s1.btmp (phyPool .kernel)) j := hj
    have htaken := (freeFrame_takeFrame hpools hj1).mp hf
    exact htaken.2 (congrArg frameOf haddr.symm)

end HeapPages

end OsI386
