import OsI386.KernelPages
import OsI386.OsRuns
import OsI386.PageWalk

/-!
# The frames of page tables

`v2p_mapping` takes the frame of a new page table from the kernel's pool and has no way to fail.
With a frame left there the new table is its own; with none left it is the frame at address 0.
And where the entry of the page is itself one of the directory, as for a page from 0xffc00000 on,
the frame of the page becomes a table.
-/
namespace OsI386
open Prog TransitionSystem

section Call

variable {s s' : MemState} {v a : Word} {i : ℕ}

/-- A run of the calls of `v2p_mapping`. `last` is the frame that `paddr_get` has just taken from
the kernel's pool, and `created` are those of the directory entries that `v2p_mapping` has made
present. -/
structure TableState where
  mem : MemState
  last : Option Word
  created : List FrameNo

def slots : List Slot := (List.finRange (2 ^ 10)).map BitVec.ofFin

/-- The entries of the directory that are present in `s'` and were not in `s`. -/
def newEntries (s s' : MemState) : List Slot :=
  slots.filter fun j => !present (s.phys s.cr3 j) && present (s'.phys s'.cr3 j)

/-- A directory entry that `v2p_mapping` makes present refers to a frame just taken from the
kernel's pool, and the frame at address 0 stays as it is. -/
def FreshTable (x : TableState) (v a : Word) : Prop :=
  ∀ tr s', (v2pMapping v a).Runs x.mem tr s' () → ∀ j ∈ newEntries x.mem s',
    s'.phys 0 = x.mem.phys 0 ∧
    ((∃ i, FreeBit (x.mem.btmp .kernelPhy) i ∧ (s'.btmp .kernelPhy).bit i = true ∧
        MemLabel.frame .kernelPhy (x.mem.pageAddr .kernelPhy i) ∈ tr ∧
        s'.phys s'.cr3 j = entryOf (x.mem.pageAddr .kernelPhy i)) ∨
      x.last = some a ∧ s'.phys s'.cr3 j = entryOf a)

/-- The page table of `v` is the directory itself, as for the addresses from 0xffc00000 on. -/
def TableIsDir (s : MemState) (v : Word) : Prop :=
  present (s.phys s.cr3 (pdeIdx v)) = true ∧ frameOf (s.phys s.cr3 (pdeIdx v)) = s.cr3

/-- The region of `v` has its page table, or the kernel's pool has a frame for it. Where the entry
of the page is one of the directory it is present, which `v2p_mapping` asserts it is not, or the
frame for it has just been taken from that pool. -/
def TableAvailable (x : TableState) (v a : Word) : Prop :=
  (present (x.mem.phys x.mem.cr3 (pdeIdx v)) = true ∨
    ∃ i, FreeBit (x.mem.btmp .kernelPhy) i) ∧
  (TableIsDir x.mem v → present (x.mem.phys x.mem.cr3 (pteIdx v)) = true ∨ x.last = some a)

lemma PhyPools.frameAddr_frameOf (h : PhyPools s) (hi : i < (s.btmp .kernelPhy).bitNum) :
    frameAddr (frameOf (s.pageAddr .kernelPhy i)) = s.pageAddr .kernelPhy i :=
  OsI386.frameAddr_frameOf (aligned_pageAddr (h.shape .kernel) le_rfl hi)

lemma PhyPools.frameOf_ne_zero (h : PhyPools s) (hi : i < (s.btmp .kernelPhy).bitNum) :
    frameOf (s.pageAddr .kernelPhy i) ≠ 0 := by
  intro h0
  have haddr := h.frameAddr_frameOf hi
  rw [h0] at haddr
  exact pageAddr_ne_zero (h.shape .kernel) le_rfl hi haddr.symm

lemma PhyPools.frameOf_inj (h : PhyPools s) {j : ℕ} (hi : i < (s.btmp .kernelPhy).bitNum)
    (hj : j < (s.btmp .kernelPhy).bitNum)
    (he : frameOf (s.pageAddr .kernelPhy i) = frameOf (s.pageAddr .kernelPhy j)) : i = j := by
  have haddr := congrArg frameAddr he
  rw [h.frameAddr_frameOf hi, h.frameAddr_frameOf hj] at haddr
  exact pageAddr_inj (h.shape .kernel) le_rfl hi hj haddr

/-- The first page of a region without a page table: with a frame of the kernel's pool, or with
the frame at address 0. -/
lemma Ready.map_absent (h : Ready s) (hp : present (s.phys s.cr3 (pdeIdx v)) = false) :
    (∃ i, FreeBit (s.btmp .kernelPhy) i ∧ (v2pMapping v a).Runs s
      [.map v a, .scan .kernelPhy, .frame .kernelPhy (s.pageAddr .kernelPhy i)]
      { s.setBtmp .kernelPhy (bitmapSet (s.btmp .kernelPhy) i) with
        phys := setEntry (addTable s.phys s.cr3 (pdeIdx v) (entryOf (s.pageAddr .kernelPhy i)))
          s.cr3 v (entryOf a) } ()) ∨
    (∀ i, ¬ FreeBit (s.btmp .kernelPhy) i) ∧ (v2pMapping v a).Runs s
      [.map v a, .scan .kernelPhy, .noFrame .kernelPhy]
      { s with phys := setEntry (addTable s.phys s.cr3 (pdeIdx v) (entryOf 0)) s.cr3 v (entryOf a) }
      () := by
  rcases paddrGet_cases ((h.pools.shape .kernel).bitNum_le le_rfl) with ⟨i, hi, hr⟩ | ⟨hfull, hr⟩
  · have hfree : FreeFrame s (frameOf (s.pageAddr .kernelPhy i)) := ⟨.kernel, i, hi, rfl⟩
    have hne : frameOf (s.pageAddr .kernelPhy i) ≠ s.cr3 := fun he => h.ownDir (he ▸ hfree)
    exact .inl ⟨i, hi, (runs_v2pMapping_absent a h.window hp hr hne).2⟩
  · have hne : frameOf 0 ≠ s.cr3 := fun he => h.nullDir he.symm
    exact .inr ⟨hfull, (runs_v2pMapping_absent a h.window hp hr hne).2⟩

/-- The entry of a new table stays when the page is mapped in it, and so do all frames but it and
the directory. -/
lemma setEntry_addTable {m : Phys} {cr3 : FrameNo} {t e : Word} (hne : frameOf t ≠ cr3) :
    setEntry (addTable m cr3 (pdeIdx v) (entryOf t)) cr3 v e cr3 (pdeIdx v) = entryOf t ∧
      ∀ f, f ≠ cr3 → f ≠ frameOf t →
        setEntry (addTable m cr3 (pdeIdx v) (entryOf t)) cr3 v e f = m f := by
  have hne' : frameOf (entryOf t) ≠ cr3 := by rwa [frameOf_entryOf]
  have hdir : addTable m cr3 (pdeIdx v) (entryOf t) cr3 (pdeIdx v) = entryOf t :=
    (addTable_dir hne' _).trans (if_pos rfl)
  constructor
  · rw [setEntry, hdir, writeSlot_of_frame_ne _ _ _ hne'.symm, hdir]
  · intro f hcr3 hf
    rw [← frameOf_entryOf t] at hf
    rw [setEntry, hdir, writeSlot_of_frame_ne _ _ _ hf, addTable_other hcr3 hf]

lemma mem_slots (j : Slot) : j ∈ slots := by
  unfold slots
  exact List.mem_map.mpr ⟨j.toFin, List.mem_finRange _, rfl⟩

lemma nodup_slots : slots.Nodup := by
  unfold slots
  exact (List.nodup_finRange _).map fun _ _ h => BitVec.ofFin.inj h

lemma mem_newEntries {j : Slot} : j ∈ newEntries s s' ↔
    present (s.phys s.cr3 j) = false ∧ present (s'.phys s'.cr3 j) = true := by
  rw [newEntries, List.mem_filter, Bool.and_eq_true, Bool.not_eq_true', and_iff_right_iff_imp]
  exact fun _ => mem_slots j

/-- If only one entry of the directory has changed. -/
lemma newEntries_subset {j : Slot}
    (h : ∀ k, k ≠ j → s'.phys s'.cr3 k = s.phys s.cr3 k) : ∀ k ∈ newEntries s s', k = j := by
  intro k hk
  obtain ⟨hold, hnew⟩ := mem_newEntries.mp hk
  by_contra hne
  rw [h k hne, hold] at hnew
  exact Bool.false_ne_true hnew

/-- The ways `v2p_mapping` returns, as far as the directory goes. -/
inductive MapsEntry (s : MemState) (v a : Word) (tr : List MemLabel) (s' : MemState) : Prop
  | table (hp : present (s.phys s.cr3 (pdeIdx v)) = true) (hdir : ¬ TableIsDir s v)
      (hsame : s'.phys s'.cr3 = s.phys s.cr3)
  | entry (hdir : TableIsDir s v) (hz : present (s.phys s.cr3 (pteIdx v)) = false)
      (hpool : s'.pool = s.pool) (hnull : s'.phys 0 = s.phys 0)
      (hentry : s'.phys s'.cr3 (pteIdx v) = entryOf a)
      (hother : ∀ k, k ≠ pteIdx v → s'.phys s'.cr3 k = s.phys s.cr3 k)
  | newTable (hz : present (s.phys s.cr3 (pdeIdx v)) = false) (t : Word)
      (hentry : s'.phys s'.cr3 (pdeIdx v) = entryOf t)
      (hother : ∀ k, k ≠ pdeIdx v → s'.phys s'.cr3 k = s.phys s.cr3 k)
      (ht : (∀ i, ¬ FreeBit (s.btmp .kernelPhy) i) ∧ t = 0 ∨
        ∃ i, FreeBit (s.btmp .kernelPhy) i ∧ t = s.pageAddr .kernelPhy i ∧
          (s'.btmp .kernelPhy).bit i = true ∧ MemLabel.frame .kernelPhy t ∈ tr ∧
          s'.phys 0 = s.phys 0)

/-- The entry of the page was not present, or the call would not return. -/
lemma Ready.unmapped_of_runs {tr : List MemLabel} (h : Ready s)
    (hp : present (s.phys s.cr3 (pdeIdx v)) = true) (hr : (v2pMapping v a).Runs s tr s' ()) :
    translate s.phys s.cr3 v = none := by
  cases hz : present (s.phys (frameOf (s.phys s.cr3 (pdeIdx v))) (pteIdx v)) with
  | false => simp [translate, hp, hz]
  | true =>
    obtain ⟨_, hr⟩ := hr.of_bind (show (label (.map v a) : MemProg Unit).Runs s [.map v a] s () from rfl)
    obtain ⟨_, hr⟩ := hr.of_bind (runs_loadAt_pde h.window)
    rw [if_pos ((present_iff _).mp hp)] at hr
    obtain ⟨_, hr⟩ := hr.of_bind (runs_loadAt_pte h.window hp)
    rw [if_pos ((present_iff _).mp hz)] at hr
    cases hr

lemma Ready.mapsEntry {tr : List MemLabel} (h : Ready s) (hr : (v2pMapping v a).Runs s tr s' ()) :
    MapsEntry s v a tr s' := by
  cases hp : present (s.phys s.cr3 (pdeIdx v)) with
  | true =>
    have hnone := h.unmapped_of_runs hp hr
    obtain ⟨rfl, -⟩ := hr.det (runs_v2pMapping_table a h.window hp hnone)
    have hz : present (s.phys (frameOf (s.phys s.cr3 (pdeIdx v))) (pteIdx v)) = false := by
      simpa [translate, hp] using hnone
    by_cases hdir : TableIsDir s v
    · refine .entry hdir (hdir.2 ▸ hz) rfl ?_ ?_ fun k hk => ?_
      · dsimp only
        rw [setEntry, hdir.2]
        exact writeSlot_of_frame_ne _ _ _ h.nullDir.symm
      · dsimp only
        rw [setEntry, hdir.2, writeSlot_self]
      · dsimp only
        rw [setEntry, hdir.2, writeSlot_of_slot_ne _ _ hk]
    · refine .table hp hdir ?_
      have hne : s.cr3 ≠ frameOf (s.phys s.cr3 (pdeIdx v)) := fun he => hdir ⟨hp, he.symm⟩
      exact writeSlot_of_frame_ne _ _ _ hne
  | false =>
    have hslots : ∀ t : Word, frameOf t ≠ s.cr3 → ∀ k, k ≠ pdeIdx v →
        setEntry (addTable s.phys s.cr3 (pdeIdx v) (entryOf t)) s.cr3 v (entryOf a) s.cr3 k =
          s.phys s.cr3 k := by
      intro t ht k hk
      have hne : frameOf (entryOf t) ≠ s.cr3 := by rwa [frameOf_entryOf]
      rw [setEntry, addTable_dir hne, if_pos rfl, writeSlot_of_frame_ne _ _ _ hne.symm,
        addTable_dir hne, if_neg hk]
    rcases h.map_absent (a := a) hp with ⟨i, hi, hrun⟩ | ⟨hfull, hrun⟩
    · have hne : frameOf (s.pageAddr .kernelPhy i) ≠ s.cr3 := fun he =>
        h.ownDir (he ▸ ⟨.kernel, i, hi, rfl⟩)
      obtain ⟨hentry, hothers⟩ := setEntry_addTable (v := v) (m := s.phys) (e := entryOf a) hne
      unfold Runs at hr hrun
      rw [hrun] at hr
      obtain ⟨rfl, rfl, -⟩ := Result.mk.inj hr
      refine .newTable hp _ hentry (hslots _ hne) (.inr ⟨i, hi, rfl, ?_, by simp, ?_⟩)
      · change ((s.setBtmp .kernelPhy _).btmp .kernelPhy).bit i = true
        rw [setBtmp_btmp_self, bit_bitmapSet, decide_eq_true rfl, Bool.true_or]
      · exact hothers 0 h.nullDir.symm (h.pools.frameOf_ne_zero hi.1).symm
    · have hne : frameOf 0 ≠ s.cr3 := fun he => h.nullDir he.symm
      obtain ⟨hentry, -⟩ := setEntry_addTable (v := v) (m := s.phys) (e := entryOf a) hne
      obtain ⟨rfl, -⟩ := hr.det hrun
      exact .newTable hp 0 hentry (hslots 0 hne) (.inl ⟨hfull, rfl⟩)

lemma TableAvailable.fresh {x : TableState} (h : Ready x.mem) (ha : TableAvailable x v a) :
    FreshTable x v a := by
  obtain ⟨htable, hentry⟩ := ha
  intro tr s' hr j hj
  obtain ⟨hold, hnew⟩ := mem_newEntries.mp hj
  cases h.mapsEntry hr with
  | table hp hdir hsame =>
    rw [hsame, hold] at hnew
    exact absurd hnew Bool.false_ne_true
  | entry hdir hz hpool hnull hset hother =>
    obtain rfl := newEntries_subset hother j hj
    refine ⟨hnull, .inr ⟨(hentry hdir).resolve_left fun hp => ?_, hset⟩⟩
    exact Bool.false_ne_true (hz.symm.trans hp)
  | newTable hz t hset hother ht =>
    obtain rfl := newEntries_subset hother j hj
    rcases ht with ⟨hfull, -⟩ | ⟨i, hi, rfl, hbit, hlabel, hnull⟩
    · rcases htable with hp | ⟨i, hi⟩
      · exact absurd (hz.symm.trans hp) Bool.false_ne_true
      · exact absurd hi (hfull i)
    · exact ⟨hnull, .inl ⟨i, hi, hbit, hlabel, hset⟩⟩

end Call

section Runs

/-- What `malloc_page` and `target_vaddr_malloc` do besides calling `paddr_get` and
`v2p_mapping`. -/
inductive Piece (s s' : MemState) : Prop
  | vaddrGet (pf : PoolFlags) (cnt : ℕ) {tr : List MemLabel} {a : Word}
      (h : (vaddrGet pf cnt).Runs s tr s' a)
  | targetReserve (p : PoolId) (v : Word) {tr : List MemLabel}
      (hin : (s.btmp p).Holds (s.targetBit p v)) (h : (targetReserve p v).Runs s tr s' ())
  | mutexLock (p : PoolId) {tr : List MemLabel} (h : (mutexLockAt p).Runs s tr s' ())
  | mutexUnlock (p : PoolId) {tr : List MemLabel} (h : (mutexUnlockAt p).Runs s tr s' ())

/-- A call of `v2p_mapping`, one of `paddr_get`, or whatever else leads to `s'`. -/
inductive TableEvent
  | mapping (v a : Word)
  | paddrGet (p : PoolId)
  | other (s' : MemState)

def tableStep (x : TableState) : TableEvent → Option TableState
  | .mapping v a =>
    let r := (v2pMapping v a).run x.mem
    match r.outcome with
    | .done _ => some
      { mem := r.state
        last := none
        created := x.created ++
          (newEntries x.mem r.state).map fun j => frameOf (r.state.phys r.state.cr3 j) }
    | _ => none
  | .paddrGet p =>
    let r := (paddrGet p).run x.mem
    match r.outcome with
    | .done a => some { x with
        mem := r.state
        last := if p = .kernelPhy ∧ a ≠ 0 then some a else none }
    | _ => none
  | .other s' => some { x with
      mem := s'
      last := none }

/-- The kernel's pool is where it was, and nothing was given back to it. -/
structure PoolKept (s s' : MemState) : Prop where
  bitNum : (s'.btmp .kernelPhy).bitNum = (s.btmp .kernelPhy).bitNum
  addrBase : (s'.pool .kernelPhy).addrBase = (s.pool .kernelPhy).addrBase
  bits : ∀ i, (s.btmp .kernelPhy).bit i = true → (s'.btmp .kernelPhy).bit i = true

/-- `v2p_mapping` is called with a table available. What happens outside of the two calls leaves
a directory ready, this one or another one. -/
def TableAllowed (x : TableState) : TableEvent → Prop
  | .mapping v a => TableAvailable x v a
  | .paddrGet _ => True
  | .other s' => Piece x.mem s' ∨ Ready s' ∧ PoolKept x.mem s'

/-- The frame of a page that is taken in the kernel's pool. -/
def Taken (s : MemState) (f : FrameNo) : Prop :=
  ∃ i, i < (s.btmp .kernelPhy).bitNum ∧ (s.btmp .kernelPhy).bit i = true ∧
    f = frameOf (s.pageAddr .kernelPhy i)

/-- The tables entered are frames taken from the kernel's pool, each of them once, and the last
one that `paddr_get` has taken is not among them. -/
structure TableInv (x : TableState) : Prop where
  ready : Ready x.mem
  nodup : x.created.Nodup
  taken : ∀ f ∈ x.created, Taken x.mem f
  lastTaken : ∀ b, x.last = some b → Taken x.mem (frameOf b)
  lastNew : ∀ b, x.last = some b → frameOf b ∉ x.created

variable {x y : TableState} {s s' s₀ : MemState} {e : TableEvent} {v a : Word} {f : FrameNo}
  {i : ℕ}

lemma Grows.poolKept (h : Grows s s') : PoolKept s s' :=
  ⟨h.bitNum _, h.addrBase _, h.bits _⟩

lemma Taken.kept (h : Taken s f) (hk : PoolKept s s') : Taken s' f := by
  obtain ⟨i, hi, hbit, rfl⟩ := h
  refine ⟨i, hk.bitNum ▸ hi, hk.bits i hbit, ?_⟩
  rw [MemState.pageAddr, MemState.pageAddr, hk.addrBase]

/-- The frame of a free bit is not taken. -/
lemma PhyPools.not_taken (hp : PhyPools s) (hi : FreeBit (s.btmp .kernelPhy) i) :
    ¬ Taken s (frameOf (s.pageAddr .kernelPhy i)) := by
  rintro ⟨j, hj, hset, he⟩
  obtain rfl := hp.frameOf_inj hi.1 hj he
  exact Bool.false_ne_true (hi.2.symm.trans hset)

lemma Piece.grows (h : Piece s s') : Grows s s' := by
  cases h with
  | vaddrGet pf cnt h =>
    exact ((steady_vaddrGet rfl cnt).post (Q := fun _ x _ => Steady s x)
      fun _ _ _ hI _ => hI).runs h |>.toGrows
  | targetReserve p v hin h =>
    exact ((steady_targetReserve hin).post (Q := fun _ x _ => Steady s x)
      fun _ _ _ hI _ => hI).runs h |>.toGrows
  | mutexLock p h =>
    exact ((grows_mutexLockAt p).post (Q := fun _ x _ => Grows s x) fun _ _ _ hI _ => hI).runs h
  | mutexUnlock p h =>
    exact ((grows_mutexUnlockAt p).post (Q := fun _ x _ => Grows s x) fun _ _ _ hI _ => hI).runs h

lemma TableInv.other (h : TableInv x) (hr : Ready s') (hk : PoolKept x.mem s') :
    TableInv { x with mem := s', last := none } where
  ready := hr
  nodup := h.nodup
  taken f hf := (h.taken f hf).kept hk
  lastTaken _ hb := by contradiction
  lastNew _ hb := by contradiction

/-- `paddr_get` takes a frame that no table has. -/
lemma TableInv.paddrGet {p : PoolId} {tr : List MemLabel} (h : TableInv x)
    (hr : (paddrGet p).Runs x.mem tr s' a) :
    TableInv { x with mem := s', last := if p = .kernelPhy ∧ a ≠ 0 then some a else none } := by
  have hall := ((steady_paddrGet p).post (Q := fun _ y b => Steady x.mem y ∧ ((x.mem.btmp p).bitNum
    ≤ 2 ^ 31 → (b = 0 ∧ y = x.mem ∧ ∀ i, ¬ FreeBit (x.mem.btmp p) i) ∨ ∃ i,
      FreeBit (x.mem.btmp p) i ∧ b = x.mem.pageAddr p i ∧
        y = x.mem.setBtmp p (bitmapSet (x.mem.btmp p) i)))
    fun _ _ _ hI hQ => ⟨hI, hQ.2⟩).runs hr
  obtain ⟨hsteady, hcases⟩ := hall
  have hkept := hsteady.toGrows.poolKept
  have hlast : ∀ b, (if p = .kernelPhy ∧ a ≠ 0 then some a else none) = some b →
      Taken s' (frameOf b) ∧ frameOf b ∉ x.created := by
    intro b hb
    split_ifs at hb with hp
    obtain ⟨rfl, hne⟩ := hp
    obtain rfl := Option.some.inj hb
    rcases hcases ((h.ready.pools.shape .kernel).bitNum_le le_rfl) with
      ⟨h0, -⟩ | ⟨i, hi, rfl, rfl⟩
    · exact absurd h0 hne
    · refine ⟨⟨i, ?_, ?_, ?_⟩, fun hmem => h.ready.pools.not_taken hi (h.taken _ hmem)⟩
      · rw [setBtmp_btmp_self, bitmapSet_bitNum]
        exact hi.1
      · rw [setBtmp_btmp_self, bit_bitmapSet, decide_eq_true rfl, Bool.true_or]
      · rw [hsteady.pageAddr]
  exact ⟨hsteady.toGrows.ready h.ready, h.nodup, fun f hf => (h.taken f hf).kept hkept,
    fun b hb => (hlast b hb).1, fun b hb => (hlast b hb).2⟩

/-- The frame a directory entry is given is taken, and no table has it. -/
lemma TableInv.fresh_taken {tr : List MemLabel} {j : Slot} (h : TableInv x)
    (hok : TableAvailable x v a) (hr : (v2pMapping v a).Runs x.mem tr s' ())
    (hk : Grows x.mem s') (hj : j ∈ newEntries x.mem s') :
    Taken s' (frameOf (s'.phys s'.cr3 j)) ∧ frameOf (s'.phys s'.cr3 j) ∉ x.created := by
  rcases (hok.fresh h.ready tr s' hr j hj).2 with ⟨i, hi, hbit, -, hset⟩ | ⟨hlast, hset⟩
  all_goals rw [hset, frameOf_entryOf]
  · refine ⟨⟨i, hk.bitNum _ ▸ hi.1, hbit, ?_⟩, fun hmem =>
      h.ready.pools.not_taken hi (h.taken _ hmem)⟩
    rw [hk.pageAddr]
  · exact ⟨(h.lastTaken a hlast).kept hk.poolKept, h.lastNew a hlast⟩

/-- At most one entry of the directory is new. -/
lemma newEntries_length {tr : List MemLabel} (h : Ready s)
    (hr : (v2pMapping v a).Runs s tr s' ()) :
    newEntries s s' = [] ∨ ∃ j, newEntries s s' = [j] := by
  have hone : ∀ j, (∀ k, k ≠ j → s'.phys s'.cr3 k = s.phys s.cr3 k) →
      newEntries s s' = [] ∨ ∃ j, newEntries s s' = [j] := by
    intro j hother
    have hsub := newEntries_subset hother
    have hnodup := nodup_slots.filter fun j =>
      !present (s.phys s.cr3 j) && present (s'.phys s'.cr3 j)
    change (newEntries s s').Nodup at hnodup
    cases hl : newEntries s s' with
    | nil => exact .inl rfl
    | cons k l =>
      rw [hl] at hsub hnodup
      cases l with
      | nil => exact .inr ⟨k, rfl⟩
      | cons k' l =>
        have heq : k = k' := (hsub k (by simp)).trans (hsub k' (by simp)).symm
        simp [heq] at hnodup
  cases h.mapsEntry hr with
  | table hp hdir hsame => exact hone 0 fun k _ => congrFun hsame k
  | entry _ _ _ _ _ hother => exact hone _ hother
  | newTable _ _ _ hother => exact hone _ hother

lemma TableInv.mapping {tr : List MemLabel} (h : TableInv x) (hok : TableAvailable x v a)
    (hr : (v2pMapping v a).Runs x.mem tr s' ()) :
    TableInv ⟨s', none, x.created ++
      (newEntries x.mem s').map fun j => frameOf (s'.phys s'.cr3 j)⟩ := by
  have hgrows : Grows x.mem s' :=
    (((steady_v2pMapping v a).post (Q := fun _ y _ => Steady x.mem y)
      fun _ _ _ hI _ => hI).runs hr).toGrows
  have hnew : ∀ f ∈ (newEntries x.mem s').map fun j => frameOf (s'.phys s'.cr3 j),
      Taken s' f ∧ f ∉ x.created := by
    intro f hf
    obtain ⟨j, hj, rfl⟩ := List.mem_map.mp hf
    exact h.fresh_taken hok hr hgrows hj
  refine ⟨hgrows.ready h.ready, ?_, ?_, fun _ hb => by contradiction, fun _ hb => by contradiction⟩
  · refine List.nodup_append.mpr ⟨h.nodup, ?_, fun f hf g hg he => (hnew g hg).2 (he ▸ hf)⟩
    rcases newEntries_length h.ready hr with hnil | ⟨j, hone⟩
    · simp [hnil]
    · simp [hone]
  · intro f hf
    rcases List.mem_append.mp hf with hf | hf
    · exact (h.taken f hf).kept hgrows.poolKept
    · exact (hnew f hf).1

lemma TableInv.step (h : TableInv x) (hok : TableAllowed x e) (hs : tableStep x e = some y) :
    TableInv y := by
  cases e with
  | other s' =>
    obtain rfl := Option.some.inj hs
    rcases hok with hpiece | ⟨hr, hk⟩
    · exact h.other (hpiece.grows.ready h.ready) hpiece.grows.poolKept
    · exact h.other hr hk
  | paddrGet p =>
    unfold tableStep at hs
    dsimp only at hs
    split at hs
    case h_2 => contradiction
    case h_1 b hdone =>
      obtain rfl := Option.some.inj hs
      exact h.paddrGet (runs_of_outcome hdone)
  | mapping v a =>
    unfold tableStep at hs
    dsimp only at hs
    split at hs
    case h_2 => contradiction
    case h_1 hdone =>
      obtain rfl := Option.some.inj hs
      exact h.mapping hok (runs_of_outcome hdone)

end Runs

section Calls

variable {s s' : MemState} {x : TableState} {tr : List MemLabel} {r v a : Word} {p : PoolId}
  {cnt : ℕ} {pf : PoolFlags}

/-- Nothing happens outside of `paddr_get` and `v2p_mapping` but pieces. -/
def PieceOnly (x : TableState) : TableEvent → Prop
  | .other s' => Piece x.mem s'
  | _ => True

/-- A call that leads to `s'` is a run of pieces and of calls of `paddr_get` and
`v2p_mapping`. -/
def InPieces (x : TableState) (s' : MemState) : Prop :=
  ∃ y, y.mem = s' ∧ Reach tableStep PieceOnly x y

lemma InPieces.refl (x : TableState) : InPieces x x.mem := ⟨x, rfl, .refl⟩

lemma InPieces.trans {s'' : MemState} (h : InPieces x s')
    (g : ∀ y : TableState, y.mem = s' → InPieces y s'') : InPieces x s'' := by
  obtain ⟨y, hy, hfirst⟩ := h
  obtain ⟨z, hz, hrest⟩ := g y hy
  exact ⟨z, hz, hfirst.trans hrest⟩

end Calls

end OsI386
