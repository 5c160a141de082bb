import OsI386.LoaderTables

/-!
# Sequences of `malloc_page` calls

As long as no pool runs out of frames, each call returns a range of pages that were not
reserved, and maps its pages one after the other. A later call, and a page table added on the
way, leave all earlier pages mapped to the frames taken for them.
-/
namespace OsI386
open Prog TransitionSystem

section Pages

/-- The addresses of `cnt` pages from `v` on. -/
def pagesFrom (v : Word) : ℕ → List Word
  | 0 => []
  | cnt + 1 => v :: pagesFrom (v + 4096) cnt

/-- The calls of `v2p_mapping`, in order. -/
def mapsOf (tr : List MemLabel) : List (Word × Word) :=
  tr.filterMap fun
    | .map v a => some (v, a)
    | _ => none

@[simp] lemma mapsOf_nil : mapsOf [] = [] := rfl

@[simp] lemma mapsOf_append (tr tr' : List MemLabel) :
    mapsOf (tr ++ tr') = mapsOf tr ++ mapsOf tr' := List.filterMap_append

/-- A pool has run out of frames. -/
def Starved : MemLabel → Prop
  | .noFrame _ => True
  | _ => False

instance : DecidablePred Starved
  | .noFrame _ => .isTrue trivial
  | .scan _ | .claim _ _ | .frame _ _ | .noRange _ | .range _ _ _ | .map _ _ => .isFalse id

variable {s s' : MemState} {R : Slot → Prop} {U : Word → Prop} {v a : Word} {p : PoolId}
  {L : List (Word × Word)} {pf : PoolFlags}

/-- The pages of `L` are mapped to the frames taken for them, each frame to one page. -/
structure Mapped (s : MemState) (R : Slot → Prop) (L : List (Word × Word)) : Prop where
  walk : ∀ x ∈ L, R (pdeIdx x.1) ∧ x.1.toNat % 4096 = 0 ∧
    translate s.phys s.cr3 x.1 = some (frameOf x.2)
  taken : ∀ x ∈ L, TakenFrame s x.2
  nodup : (L.map Prod.snd).Nodup

lemma Mapped.takeFrame (h : Mapped s R L) (pf : PoolFlags) (i : ℕ) :
    Mapped (s.takeFrame pf i) R L where
  walk := h.walk
  taken x hx := (h.taken x hx).takeFrame pf i
  nodup := h.nodup

/-- A page that was not mapped joins the mapped ones, which stay as they are. -/
lemma Mapped.append (h : Mapped s R L) (hm : MapsPage s s' R v a) (hR : R (pdeIdx v))
    (hv : v.toNat % 4096 = 0) (hnone : translate s.phys s.cr3 v = none) (ha : TakenFrame s a)
    (hnew : a ∉ L.map Prod.snd) : Mapped s' R (L ++ [(v, a)]) := by
  constructor
  case walk =>
    intro x hx
    rcases List.mem_append.mp hx with hx | hx
    · obtain ⟨hxR, hxa, hxw⟩ := h.walk x hx
      have hne : x.1 ≠ v := by
        intro he
        rw [he, hnone] at hxw
        exact Option.some_ne_none _ hxw.symm
      refine ⟨hxR, hxa, ?_⟩
      rw [hm.walk _ hxR hxa, if_neg hne, hxw]
    · obtain rfl := List.mem_singleton.mp hx
      refine ⟨hR, hv, ?_⟩
      rw [hm.walk _ hR hv, if_pos rfl]
  case taken =>
    intro x hx
    rcases List.mem_append.mp hx with hx | hx
    · exact hm.taken _ (h.taken x hx)
    · obtain rfl := List.mem_singleton.mp hx
      exact hm.taken _ ha
  case nodup =>
    rw [List.map_append]
    refine List.nodup_append.mpr ⟨h.nodup, List.nodup_singleton a, ?_⟩
    intro b hb c hc he
    rw [he, List.mem_singleton.mp hc] at hb
    exact hnew hb

/-- `v2p_mapping` of an unmapped page, with or without a page table for its region. -/
lemma AddressSpace.v2pMapping_ends (h : AddressSpace s R U) (hv : U v) :
    Ends Starved (v2pMapping v a) s fun tr s' _ => MapsPage s s' R v a ∧
      AddressSpace s' R (fun w => U w ∧ w ≠ v) ∧ mapsOf tr = [(v, a)] := by
  obtain ⟨hR, hva, hnone⟩ := h.unmapped v hv
  by_cases hp : present (s.phys s.cr3 (pdeIdx v)) = true
  · obtain ⟨hspace, hmaps⟩ := h.map_table (a := a) hv hp
    exact (runs_v2pMapping_table a h.tables.window hp hnone).ends ⟨hmaps, hspace, rfl⟩
  · rw [Bool.not_eq_true] at hp
    rcases h.paddrGet_cases .kernel with ⟨i, hi, _, hr⟩ | ⟨_, hr⟩
    · have hfree : FreeFrame s (frameOf (s.pageAddr (phyPool .kernel) i)) :=
        ⟨.kernel, i, hi, rfl⟩
      have htable := h.owned _ hfree
      have htaken : ¬ FreeFrame (s.takeFrame .kernel i)
          (frameOf (s.pageAddr (phyPool .kernel) i)) := fun hf =>
        ((freeFrame_takeFrame h.geometry.phyPools hi).mp hf).2 rfl
      obtain ⟨hspace, hmaps⟩ := (h.takeFrame hi).map_noTable (a := a) hv hp htable htaken
      refine (runs_v2pMapping_noTable a h.tables hR hp hr rfl rfl htable).ends ⟨?_, hspace, rfl⟩
      exact ⟨(takeFrame_sameShape s .kernel i).trans hmaps.same,
        fun pf t => (hmaps.vir pf t).trans (takeFrame_vir s .kernel pf i t),
        fun b hb => hmaps.taken b (hb.takeFrame .kernel i), hmaps.walk⟩
    · have hmem : MemLabel.noFrame .kernelPhy ∈ ((v2pMapping v a).run s).trace :=
        mem_v2pMapping_noTable h.tables.window hp hr (List.mem_cons_of_mem _ List.mem_cons_self)
      exact .inl ⟨_, hmem, trivial⟩

end Pages

section Loop

variable {s : MemState} {R : Slot → Prop} {U : Word → Prop} {L : List (Word × Word)}
  {pf : PoolFlags}

/-- What the loop of `malloc_page` has done after the pages `ps`. -/
structure LoopDone (pf : PoolFlags) (R : Slot → Prop) (U : Word → Prop) (L : List (Word × Word))
    (s : MemState) (ps : List Word) (tr : List MemLabel) (s' : MemState) : Prop where
  space : AddressSpace s' R fun w => U w ∧ w ∉ ps
  mapped : Mapped s' R (L ++ mapsOf tr)
  pages : (mapsOf tr).map Prod.fst = ps
  frames : ∀ x ∈ mapsOf tr, .frame (phyPool pf) x.2 ∈ tr
  same : SameShape s s'
  vir : ∀ pf t, s'.btmp (vaddrPool pf t) = s.btmp (vaddrPool pf t)

/-- The loop of `malloc_page` maps the remaining pages, by induction on their number. -/
lemma mallocPages_ends {cnt : ℕ} {v start : Word} (h : AddressSpace s R U) (hm : Mapped s R L)
    (hU : ∀ w ∈ pagesFrom v cnt, U w) (hnodup : (pagesFrom v cnt).Nodup) :
    Ends Starved (mallocPages (phyPool pf) start cnt v) s fun tr s' r =>
      r = start ∧ LoopDone pf R U L s (pagesFrom v cnt) tr s' := by
  induction cnt generalizing s v U L with
  | zero =>
    refine (Runs.ret start s).ends ⟨rfl, ?_, by simpa using hm, rfl, by simp,
      SameShape.refl s, fun _ _ => rfl⟩
    exact h.mono fun w hw => hw.1
  | succ cnt ih =>
    obtain ⟨hnotin, hrest⟩ := List.nodup_cons.mp hnodup
    rcases h.paddrGet_cases pf with ⟨i, hi, hne, hr⟩ | ⟨_, hr⟩
    · set a := s.pageAddr (phyPool pf) i with ha
      have hv : U v := hU v List.mem_cons_self
      obtain ⟨hR, hva, hnone⟩ := h.unmapped v hv
      apply hr.ends_bind
      rw [if_neg hne]
      refine Ends.bind ((h.takeFrame hi).v2pMapping_ends hv) ?_
      rintro tr s2 _ ⟨hmaps, hspace, hlog⟩
      have hnew : a ∉ L.map Prod.snd := by
        intro hmem
        obtain ⟨x, hx, hxa⟩ := List.mem_map.mp hmem
        exact (hm.taken x hx).ne_free h.geometry.phyPools hi hxa
      have hmapped := (hm.takeFrame pf i).append hmaps hR hva hnone (takenFrame_takeFrame hi) hnew
      have hpages : ∀ w ∈ pagesFrom (v + 4096) cnt, U w ∧ w ≠ v := fun w hw =>
        ⟨hU w (List.mem_cons_of_mem v hw), ne_of_mem_of_not_mem hw hnotin⟩
      refine (ih hspace hmapped hpages hrest).mono ?_
      rintro tr' s3 r ⟨hr3, hdone⟩
      have hmapsOf : mapsOf ([.scan (phyPool pf), .frame (phyPool pf) a] ++ (tr ++ tr')) =
          (v, a) :: mapsOf tr' := by
        rw [mapsOf_append, mapsOf_append, hlog]
        rfl
      refine ⟨hr3, ?_, ?_, ?_, ?_, ?_, ?_⟩
      · refine hdone.space.mono fun w hw => ?_
        have hw2 : w ≠ v ∧ w ∉ pagesFrom (v + 4096) cnt := by simpa [pagesFrom] using hw.2
        exact ⟨⟨hw.1, hw2.1⟩, hw2.2⟩
      · rw [hmapsOf]
        simpa using hdone.mapped
      · rw [hmapsOf, List.map_cons, hdone.pages]
        rfl
      · rw [hmapsOf]
        intro x hx
        rcases List.mem_cons.mp hx with rfl | hx
        · simp
        · exact List.mem_append_right _ (List.mem_append_right _ (hdone.frames x hx))
      · exact ((takeFrame_sameShape s pf i).trans hmaps.same).trans hdone.same
      · intro pf' t
        rw [hdone.vir, hmaps.vir, takeFrame_vir]
    · exact .inl ⟨_, hr.mem_bind (List.mem_cons_of_mem _ List.mem_cons_self) _, trivial⟩

end Loop

section Call

variable {s s' : MemState} {R : Slot → Prop} {L : List (Word × Word)} {pf : PoolFlags}
  {cnt i : ℕ}

lemma vaddrPool_inj {pf pf' : PoolFlags} {t : ℕ} (h : vaddrPool pf t = vaddrPool pf' t) :
    pf = pf' := by
  cases pf <;> cases pf' <;> simp_all [vaddrPool]

lemma pageAddr_succ (s : MemState) (p : PoolId) (i : ℕ) :
    s.pageAddr p i + 4096 = s.pageAddr p (i + 1) := by
  apply BitVec.eq_of_toNat_eq
  have hfour : (4096 : Word).toNat = 4096 := rfl
  simp only [MemState.pageAddr, BitVec.toNat_add, BitVec.toNat_ofNat, hfour]
  omega

lemma pagesFrom_pageAddr (s : MemState) (p : PoolId) (i cnt : ℕ) :
    pagesFrom (s.pageAddr p i) cnt = (List.range' i cnt).map (s.pageAddr p) := by
  induction cnt generalizing i with
  | zero => rfl
  | succ cnt ih => rw [pagesFrom, pageAddr_succ, ih, List.range'_succ, List.map_cons]

lemma mem_pagesFrom {p : PoolId} {v : Word} :
    v ∈ pagesFrom (s.pageAddr p i) cnt ↔ ∃ j, i ≤ j ∧ j < i + cnt ∧ v = s.pageAddr p j := by
  rw [pagesFrom_pageAddr, List.mem_map]
  constructor
  · rintro ⟨j, hj, rfl⟩
    obtain ⟨hlow, hhigh⟩ := List.mem_range'_1.mp hj
    exact ⟨j, hlow, hhigh, rfl⟩
  · rintro ⟨j, hlow, hhigh, rfl⟩
    exact ⟨j, List.mem_range'_1.mpr ⟨hlow, hhigh⟩, rfl⟩

lemma Geometry.pagesFrom_nodup (h : Geometry s)
    (hfit : i + cnt ≤ (s.btmp (vaddrPool pf s.running)).bitNum) :
    (pagesFrom (s.pageAddr (vaddrPool pf s.running) i) cnt).Nodup := by
  rw [pagesFrom_pageAddr]
  refine List.Nodup.map_on (fun j hj k hk he => ?_) List.nodup_range'
  have hj2 := (List.mem_range'_1.mp hj).2
  have hk2 := (List.mem_range'_1.mp hk).2
  exact (h.vir_inj (by omega) (by omega) he).2

/-- A page whose bit is clear. -/
def ClearPage (s : MemState) (v : Word) : Prop :=
  ∃ pf i, FreeBit (s.btmp (vaddrPool pf s.running)) i ∧
    v = s.pageAddr (vaddrPool pf s.running) i

lemma phyPool_ne_vaddrPool (pf pf' : PoolFlags) (t : ℕ) : phyPool pf ≠ vaddrPool pf' t := by
  cases pf <;> cases pf' <;> simp [phyPool, vaddrPool]

/-- The state after `vaddr_get` has reserved the bits. -/
def MemState.reserve (s : MemState) (p : PoolId) (i cnt : ℕ) : MemState :=
  s.setBtmp p (setRun (s.btmp p) i cnt)

lemma reserve_sameShape (s : MemState) (p : PoolId) (i cnt : ℕ) :
    SameShape s (s.reserve p i cnt) := SameShape.setBtmp (setRun_bitNum _ _ _)

lemma reserve_phy (s : MemState) (pf pf' : PoolFlags) (t i cnt : ℕ) :
    (s.reserve (vaddrPool pf t) i cnt).btmp (phyPool pf') = s.btmp (phyPool pf') :=
  setBtmp_btmp_of_ne _ (phyPool_ne_vaddrPool pf' pf t)

lemma TakenFrame.reserve {a : Word} (h : TakenFrame s a) (pf : PoolFlags) (t i cnt : ℕ) :
    TakenFrame (s.reserve (vaddrPool pf t) i cnt) a := by
  obtain ⟨pf', j, hj, hbit, rfl⟩ := h
  refine ⟨pf', j, ?_, ?_, ((reserve_sameShape _ _ _ _).pageAddr _ j).symm⟩
  · rwa [reserve_phy]
  · rwa [reserve_phy]

/-- The pages reserved are clear no more. -/
lemma ClearPage.of_setRun {v : Word} (hg : Geometry s) (hsame : SameShape s s')
    (hfit : i + cnt ≤ (s.btmp (vaddrPool pf s.running)).bitNum)
    (hvir : ∀ pf', s'.btmp (vaddrPool pf' s.running) =
      (s.reserve (vaddrPool pf s.running) i cnt).btmp (vaddrPool pf' s.running))
    (h : ClearPage s' v) :
    ClearPage s v ∧ v ∉ pagesFrom (s.pageAddr (vaddrPool pf s.running) i) cnt := by
  obtain ⟨pf', j, ⟨hj, hbit⟩, rfl⟩ := h
  rw [hsame.running] at hj hbit ⊢
  rw [hsame.bitNum] at hj
  rw [hsame.pageAddr]
  rw [hvir] at hbit
  by_cases hpf : pf' = pf
  · subst hpf
    rw [MemState.reserve, setBtmp_btmp_self, bit_setRun, Bool.or_eq_false_iff, decide_eq_false_iff_not] at hbit
    refine ⟨⟨pf', j, ⟨hj, hbit.2⟩, rfl⟩, fun hmem => hbit.1 ?_⟩
    obtain ⟨k, hlow, hhigh, he⟩ := mem_pagesFrom.mp hmem
    obtain rfl := (hg.vir_inj hj (by omega) he).2
    exact ⟨hlow, hhigh⟩
  · rw [MemState.reserve, setBtmp_btmp_of_ne _ (fun he => hpf (vaddrPool_inj he))] at hbit
    refine ⟨⟨pf', j, ⟨hj, hbit⟩, rfl⟩, fun hmem => hpf ?_⟩
    obtain ⟨k, hlow, hhigh, he⟩ := mem_pagesFrom.mp hmem
    exact (hg.vir_inj hj (by omega) he).1

lemma LoopDone.prepend {U : Word → Prop} {ps : List Word} {ls tr : List MemLabel}
    (h : LoopDone pf R U L s ps tr s') (hls : mapsOf ls = []) :
    LoopDone pf R U L s ps (ls ++ tr) s' := by
  have hmaps : mapsOf (ls ++ tr) = mapsOf tr := by rw [mapsOf_append, hls, List.nil_append]
  constructor
  case space => exact h.space
  case mapped => exact hmaps ▸ h.mapped
  case pages => exact hmaps ▸ h.pages
  case frames =>
    rw [hmaps]
    exact fun x hx => List.mem_append_right ls (h.frames x hx)
  case same => exact h.same
  case vir => exact h.vir

/-- `malloc_page` finds no range and changes nothing, or maps all pages of a clear one. -/
lemma mallocPage_ends (pf : PoolFlags) (h : AddressSpace s R (ClearPage s)) (hm : Mapped s R L) (hpos : 0 < cnt)
    (hmax : cnt < 3840) :
    Ends Starved (mallocPage pf cnt) s fun tr s' r =>
      (r = 0 ∧ s' = s ∧ mapsOf tr = []) ∨
      ∃ i, RunAt (s.btmp (vaddrPool pf s.running)) 0 cnt i ∧
        r = s.pageAddr (vaddrPool pf s.running) i ∧ r ≠ 0 ∧
        LoopDone pf R (ClearPage s) L (s.reserve (vaddrPool pf s.running) i cnt)
          (pagesFrom r cnt) tr s' := by
  set p := vaddrPool pf s.running with hp
  have hshape := h.geometry.vir pf
  have htop : (0xffc00000 : ℕ) ≤ 2 ^ 32 := by norm_num
  unfold mallocPage
  rw [if_pos ⟨hpos, hmax⟩]
  rcases vaddrGet_cases hp hpos (hshape.bitNum_le htop) with ⟨i, hrun, _, hr⟩ | ⟨_, _, hr⟩
  · have hfit := hrun.1
    have hne : s.pageAddr p i ≠ 0 := pageAddr_ne_zero hshape htop (show i < _ by omega)
    apply hr.ends_bind
    rw [if_neg hne]
    have hclear := (runAt_iff _ _ _).mp hrun
    have hspace : AddressSpace (s.reserve p i cnt) R (ClearPage s) :=
      h.setBtmp_vir (fun pf' => phyPool_ne_vaddrPool pf' pf _) (setRun_bitNum _ _ _)
    have hU : ∀ w ∈ pagesFrom (s.pageAddr p i) cnt, ClearPage s w := by
      intro w hw
      obtain ⟨j, hlow, hhigh, rfl⟩ := mem_pagesFrom.mp hw
      exact ⟨pf, j, ⟨lt_of_lt_of_le hhigh hfit, hclear.2 j hlow hhigh⟩, rfl⟩
    have hmapped : Mapped (s.reserve p i cnt) R L :=
      ⟨hm.walk, fun x hx => (hm.taken x hx).reserve pf _ i cnt, hm.nodup⟩
    refine (mallocPages_ends hspace hmapped hU (h.geometry.pagesFrom_nodup hfit)).mono ?_
    rintro tr s' r ⟨rfl, hdone⟩
    exact .inr ⟨i, hrun, rfl, hne, hdone.prepend rfl⟩
  · apply hr.ends_bind
    rw [if_pos rfl]
    exact (Runs.ret 0 s).ends (.inl ⟨rfl, rfl, rfl⟩)

end Call

section Machine

/-- What a call of `malloc_page` returned. -/
structure Range where
  pf : PoolFlags
  start : Word
  pgCnt : ℕ

def Range.pages (r : Range) : List Word := pagesFrom r.start r.pgCnt

/-- The ranges have no byte in common. -/
def Range.Apart (r q : Range) : Prop :=
  r.start.toNat + r.pgCnt * 4096 ≤ q.start.toNat ∨ q.start.toNat + q.pgCnt * 4096 ≤ r.start.toNat

def Range.Inside (r : Range) (p : Pool) : Prop :=
  p.addrBase.toNat ≤ r.start.toNat ∧
    r.start.toNat + r.pgCnt * 4096 ≤ p.addrBase.toNat + p.btmp.bitNum * 4096

structure MallocState where
  mem : MemState
  trace : List MemLabel
  ranges : List Range

/-- One call of `malloc_page`, which returns. -/
def mallocStep (s : MallocState) (e : PoolFlags × ℕ) : Option MallocState :=
  let r := (mallocPage e.1 e.2).run s.mem
  match r.outcome with
  | .done v =>
    some ⟨r.state, s.trace ++ r.trace, if v = 0 then s.ranges else s.ranges ++ [⟨e.1, v, e.2⟩]⟩
  | _ => none

/-- In this call `paddr_get` never returns `NULL`. -/
def NotStarved (s : MallocState) (e : PoolFlags × ℕ) : Prop :=
  ∀ x ∈ ((mallocPage e.1 e.2).run s.mem).trace, ¬ Starved x

variable {s0 m m' : MemState} {s t : MallocState} {r : Range}

/-- The range is reserved in its pool. -/
def Range.Held (r : Range) (m : MemState) : Prop :=
  ∃ i, i + r.pgCnt ≤ (m.btmp (vaddrPool r.pf m.running)).bitNum ∧
    r.start = m.pageAddr (vaddrPool r.pf m.running) i ∧ 0 < r.pgCnt ∧
    ∀ j, i ≤ j → j < i + r.pgCnt → (m.btmp (vaddrPool r.pf m.running)).bit j = true

structure MallocInv (s0 : MemState) (s : MallocState) : Prop where
  same : SameShape s0 s.mem
  space : AddressSpace s.mem (Region s0) (ClearPage s.mem)
  mapped : Mapped s.mem (Region s0) (mapsOf s.trace)
  pages : (mapsOf s.trace).map Prod.fst = s.ranges.flatMap Range.pages
  frames : ∀ r ∈ s.ranges, ∀ v ∈ r.pages, ∃ a, (v, a) ∈ mapsOf s.trace ∧
    .frame (phyPool r.pf) a ∈ s.trace
  held : ∀ r ∈ s.ranges, r.Held s.mem
  apart : s.ranges.Pairwise Range.Apart

lemma FreshSpace.space (h : FreshSpace m) : AddressSpace m (Region m) (ClearPage m) where
  geometry := h.geometry
  tables := h.tables
  owned := h.owned
  unmapped := by
    rintro v ⟨pf, i, hi, rfl⟩
    exact ⟨⟨pf, i, hi.1, rfl⟩,
      aligned_pageAddr (h.geometry.vir pf) (by norm_num) hi.1, h.empty pf i hi.1⟩

lemma FreshSpace.inv (h : FreshSpace s0) : MallocInv s0 ⟨s0, [], []⟩ where
  same := SameShape.refl s0
  space := h.space
  mapped := ⟨by simp, by simp, List.nodup_nil⟩
  pages := rfl
  frames := by simp
  held := by simp
  apart := List.Pairwise.nil

/-- Bits that are set and bits that are clear are in ranges apart. -/
lemma Range.Held.apart (hg : Geometry m) (h : r.Held m) {pf : PoolFlags} {i cnt : ℕ}
    (hrun : RunAt (m.btmp (vaddrPool pf m.running)) 0 cnt i) (hpos : 0 < cnt) :
    r.Apart ⟨pf, m.pageAddr (vaddrPool pf m.running) i, cnt⟩ := by
  have htop : (0xffc00000 : ℕ) ≤ 2 ^ 32 := by norm_num
  obtain ⟨k, hk, hstart, hrpos, hset⟩ := h
  obtain ⟨hi, hclear⟩ := (runAt_iff _ _ _).mp hrun
  have hr := toNat_pageAddr (hg.vir r.pf) htop (show k < _ by omega)
  have hq := toNat_pageAddr (hg.vir pf) htop (show i < _ by omega)
  have hcommon : r.pf = pf → k + r.pgCnt ≤ i ∨ i + cnt ≤ k := by
    intro hpf
    by_contra hover
    have hbit := hset (max k i) (by omega) (by omega)
    rw [hpf, hclear (max k i) (by omega) (by omega)] at hbit
    exact Bool.false_ne_true hbit
  simp only [Range.Apart, hstart, hr, hq]
  by_cases hpf : r.pf = pf
  · have := hcommon hpf
    rw [hpf]
    omega
  · have hends : (m.pool (vaddrPool r.pf m.running)).Apart
        (m.pool (vaddrPool pf m.running)) := by
      cases hr : r.pf <;> cases hq : pf <;> simp only [hr, hq, not_true_eq_false] at hpf
      · exact hg.virApart
      · exact hg.virApart.symm
    have hk' : k + r.pgCnt ≤ (m.pool (vaddrPool r.pf m.running)).btmp.bitNum := hk
    have hi' : i + cnt ≤ (m.pool (vaddrPool pf m.running)).btmp.bitNum := hi
    rcases hends with hends | hends <;> omega

/-- A range stays reserved, and a new one is. -/
lemma Range.Held.reserve (h : r.Held m) (hsame : SameShape m m') {p : PoolId} {i cnt : ℕ}
    (hvir : ∀ pf t, m'.btmp (vaddrPool pf t) = (m.reserve p i cnt).btmp (vaddrPool pf t)) :
    r.Held m' := by
  obtain ⟨k, hk, hstart, hpos, hset⟩ := h
  refine ⟨k, ?_, ?_, hpos, fun j hlow hhigh => ?_⟩
  · rwa [hsame.bitNum, hsame.running]
  · rw [hsame.pageAddr, hsame.running, hstart]
  · have hbit := hset j hlow hhigh
    rw [hsame.running, hvir]
    by_cases hp : vaddrPool r.pf m.running = p
    · rw [hp] at hbit ⊢
      rw [MemState.reserve, setBtmp_btmp_self, bit_setRun, hbit, Bool.or_true]
    · rw [MemState.reserve, setBtmp_btmp_of_ne _ hp, hbit]

lemma held_reserved {pf : PoolFlags} {i cnt : ℕ} (hsame : SameShape m m')
    (hvir : ∀ pf' t, m'.btmp (vaddrPool pf' t) =
      (m.reserve (vaddrPool pf m.running) i cnt).btmp (vaddrPool pf' t))
    (hfit : i + cnt ≤ (m.btmp (vaddrPool pf m.running)).bitNum) (hpos : 0 < cnt) :
    (Range.mk pf (m.pageAddr (vaddrPool pf m.running) i) cnt).Held m' := by
  refine ⟨i, ?_, ?_, hpos, fun j hlow hhigh => ?_⟩
  · rwa [hsame.bitNum, hsame.running]
  · rw [hsame.pageAddr, hsame.running]
  · rw [hsame.running, hvir, MemState.reserve, setBtmp_btmp_self, bit_setRun,
      decide_eq_true ⟨hlow, hhigh⟩, Bool.true_or]

/-- A call that returned asked for an allowed number of pages. -/
lemma pgCnt_of_mallocStep {e : PoolFlags × ℕ} (hs : mallocStep s e = some t) :
    0 < e.2 ∧ e.2 < 3840 := by
  by_contra hn
  simp only [mallocStep, mallocPage, if_neg hn] at hs
  exact Option.some_ne_none _ hs.symm

lemma mallocStep_of_runs {e : PoolFlags × ℕ} {tr : List MemLabel} {v : Word}
    (hr : (mallocPage e.1 e.2).Runs s.mem tr m' v) : mallocStep s e =
      some ⟨m', s.trace ++ tr, if v = 0 then s.ranges else s.ranges ++ [⟨e.1, v, e.2⟩]⟩ := by
  unfold Runs at hr
  simp only [mallocStep, hr]

lemma MallocInv.step {e : PoolFlags × ℕ} (h : MallocInv s0 s) (hn : NotStarved s e)
    (hs : mallocStep s e = some t) : MallocInv s0 t := by
  obtain ⟨pf, cnt⟩ := e
  obtain ⟨hpos, hmax⟩ := pgCnt_of_mallocStep hs
  rcases mallocPage_ends pf h.space h.mapped hpos hmax with
    ⟨x, hx, hbad⟩ | ⟨tr, m, v, hr, ⟨rfl, rfl, hmaps⟩ | ⟨i, hrun, hv, hne, hdone⟩⟩
  · exact absurd hbad (hn x hx)
  · rw [mallocStep_of_runs hr, if_pos rfl] at hs
    obtain rfl := Option.some.inj hs
    constructor
    case same => exact h.same
    case space => exact h.space
    case mapped => simpa [hmaps] using h.mapped
    case pages => simpa [hmaps] using h.pages
    case frames =>
      intro r hr v hv
      obtain ⟨a, hmap, hframe⟩ := h.frames r hr v hv
      rw [mapsOf_append]
      exact ⟨a, List.mem_append_left _ hmap, List.mem_append_left _ hframe⟩
    case held => exact h.held
    case apart => exact h.apart
  · rw [mallocStep_of_runs hr, if_neg hne] at hs
    obtain rfl := Option.some.inj hs
    subst hv
    have hgeo := h.space.geometry
    have hsame := (reserve_sameShape s.mem (vaddrPool pf s.mem.running) i cnt).trans hdone.same
    constructor
    case same => exact h.same.trans hsame
    case space =>
      exact hdone.space.mono fun w hw => hw.of_setRun hgeo hsame hrun.1 fun pf' => hdone.vir pf' _
    case mapped => simpa using hdone.mapped
    case pages =>
      rw [mapsOf_append, List.map_append, h.pages, hdone.pages, List.flatMap_append]
      simp [Range.pages]
    case frames =>
      intro r hr v hv
      rw [mapsOf_append]
      rcases List.mem_append.mp hr with hr | hr
      · obtain ⟨a, hmap, hframe⟩ := h.frames r hr v hv
        exact ⟨a, List.mem_append_left _ hmap, List.mem_append_left _ hframe⟩
      · obtain rfl := List.mem_singleton.mp hr
        have hmem : v ∈ (mapsOf tr).map Prod.fst := hdone.pages ▸ hv
        obtain ⟨x, hx, rfl⟩ := List.mem_map.mp hmem
        exact ⟨x.2, List.mem_append_right _ hx, List.mem_append_right _ (hdone.frames x hx)⟩
    case held =>
      intro r hr
      rcases List.mem_append.mp hr with hr | hr
      · exact (h.held r hr).reserve hsame hdone.vir
      · obtain rfl := List.mem_singleton.mp hr
        exact held_reserved hsame hdone.vir hrun.1 hpos
    case apart =>
      refine List.pairwise_append.mpr ⟨h.apart, List.pairwise_singleton _ _, fun r hr q hq => ?_⟩
      obtain rfl := List.mem_singleton.mp hq
      exact (h.held r hr).apart hgeo hrun hpos

lemma Range.Held.inside (hg : Geometry m) (h : r.Held m) (hsame : SameShape s0 m) :
    r.start.toNat % 4096 = 0 ∧ r.Inside (s0.pool (vaddrPool r.pf s0.running)) := by
  have htop : (0xffc00000 : ℕ) ≤ 2 ^ 32 := by norm_num
  obtain ⟨k, hk, hstart, hpos, _⟩ := h
  have hshape := hg.vir r.pf
  have hk1 : k < (m.btmp (vaddrPool r.pf m.running)).bitNum := by omega
  have haddr := toNat_pageAddr hshape htop hk1
  have hbase := hsame.addrBase (vaddrPool r.pf s0.running)
  have hnum : _ = (s0.pool (vaddrPool r.pf s0.running)).btmp.bitNum := hsame.bitNum _
  rw [hsame.running] at haddr hk hstart
  rw [hsame.running] at hshape hk1
  refine ⟨hstart ▸ aligned_pageAddr hshape htop hk1, ?_⟩
  rw [Range.Inside, hstart, haddr, ← hbase]
  change k + r.pgCnt ≤ (m.btmp (vaddrPool r.pf s0.running)).bitNum at hk
  rw [hnum] at hk
  omega

instance (s : MallocState) (e : PoolFlags × ℕ) : Decidable (NotStarved s e) :=
  inferInstanceAs (Decidable (∀ x ∈ _, ¬ Starved x))

end Machine

end OsI386
