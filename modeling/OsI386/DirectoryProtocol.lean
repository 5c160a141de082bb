import OsI386.Directories
import OsI386.EntryStores
import OsI386.TargetMalloc

/-!
# Page directories under preemption

A call holds the frames it took and the pages of the kernel it mapped. Where each frame is taken
while it is free and each entry set while it is not present, no two calls hold one frame, and a
call clears and fills frames it holds and no others: the directories in use keep their entries
whatever calls are in progress.
-/
namespace OsI386
open Prog

section Relations

/-- The frames a call took and the pages of the kernel it mapped. -/
structure Hold where
  frames : Set FrameNo
  pages : Set ℕ

instance : LE Hold := ⟨fun D E => D.frames ⊆ E.frames ∧ D.pages ⊆ E.pages⟩

/-- The present entries of the frame are kept. -/
def FrameKept (s s' : MemState) (f : FrameNo) : Prop :=
  ∀ i, present (s.phys f i) = true → s'.phys f i = s.phys f i

/-- The directory of the kernel and the page tables of the loader. -/
def LoaderFrame (f : FrameNo) : Prop := 0x100 ≤ f.toNat ∧ f.toNat < 0x200

/-- Frames are taken. -/
structure FramesTaken (s s' : MemState) : Prop where
  sizes : SameSizes s s'
  bits : ∀ pf i, (s.btmp (phyPool pf)).bit i = true → (s'.btmp (phyPool pf)).bit i = true

/-- An address of the kernel below the window. -/
def KernelPage (v : Word) : Prop := 768 ≤ (pdeIdx v).toNat ∧ (pdeIdx v).toNat < 1023

/-- `t` is an address in a page of the kernel that is mapped. -/
def PageMapped (s : MemState) (t : ℕ) : Prop :=
  ∃ v f, v.toNat = t ∧ KernelPage v ∧ translate s.phys 0x100 v = some f

/-- What other calls do to a call that holds `D`: nothing, if it is the only one. -/
structure Others (lone : Prop) (D : Hold) (s s' : MemState) : Prop where
  still : lone → s' = s
  taken : FramesTaken s s'
  running : s'.running = s.running
  cr3 : s'.cr3 = s.cr3
  own : s'.pool (.userVir s.running) = s.pool (.userVir s.running)
  pgDir : s'.pgDir s.running = s.pgDir s.running
  kept : ∀ f, LoaderFrame f ∨ f = s.cr3 ∨ f ∈ D.frames → FrameKept s s' f

/-- What holds at every moment of a call that holds `D`. -/
structure Inside (m : Phys) (D : Hold) (s : MemState) : Prop where
  pools : PhyPools s
  low : ∀ f, FreeFrame s f → 0x200 ≤ f.toNat
  heap : (s.pool .kernelVir).Shape 0xffc00000
  heapBase : (s.pool .kernelVir).addrBase = kHeapStart
  kernel : KernelHalf m s.phys 0x100
  active : KernelHalf m s.phys s.cr3
  nonzero : s.cr3 ≠ 0
  taken : ¬ FreeFrame s s.cr3
  apart : s.cr3 ∉ D.frames
  held : ∀ f ∈ D.frames, 0x200 ≤ f.toNat ∧ ¬ FreeFrame s f

/-- The page at `d` is a directory, in frame `f`. -/
structure DirMade (m : Phys) (s : MemState) (d : Word) (f : FrameNo) : Prop where
  page : KernelPage d
  walk : translate s.phys 0x100 d = some f
  half : KernelHalf m s.phys f

/-- What an access of a call that holds `D`, and `D'` afterwards, does to the others: the records
of threads it writes are those of pages it holds, and so are the frames it clears and fills. -/
structure Acts (m : Phys) (D D' : Hold) (s s' : MemState) : Prop where
  taken : FramesTaken s s'
  running : s'.running = s.running
  cr3 : s'.cr3 = s.cr3
  own : ∀ t, t ≠ s.running → t ∉ D.pages → s'.pool (.userVir t) = s.pool (.userVir t)
  pgDir : ∀ t, s'.pgDir t = s.pgDir t ∨ t ∈ D.pages ∧ (s'.pgDir t = 0 ∨
    ∃ f ∈ D.frames, f ∉ D'.frames ∧ DirMade m s' (s'.pgDir t) f)
  kept : ∀ f, f ≠ 0 → f ∉ D.frames → FrameKept s s' f
  frames : ∀ f ∈ D'.frames, f ∈ D.frames ∨ FreeFrame s f ∧ ¬ FreeFrame s' f
  pages : ∀ t ∈ D'.pages, t ∈ D.pages ∨ ¬ PageMapped s t ∧ PageMapped s' t

variable {m : Phys} {lone : Prop} {D D' E : Hold} {s s' s'' : MemState} {f : FrameNo} {v : Word} {t : ℕ}

lemma Hold.le_refl (D : Hold) : D ≤ D := ⟨Set.Subset.rfl, Set.Subset.rfl⟩

lemma Hold.le_trans (h : D ≤ D') (g : D' ≤ E) : D ≤ E := ⟨h.1.trans g.1, h.2.trans g.2⟩

lemma FrameKept.trans (h : FrameKept s s' f) (g : FrameKept s' s'' f) : FrameKept s s'' f := by
  intro i hi
  have hs := h i hi
  rw [g i (hs ▸ hi), hs]

lemma FramesTaken.refl (s : MemState) : FramesTaken s s := ⟨fun _ _ => ⟨rfl, rfl⟩, fun _ _ => id⟩

lemma FramesTaken.trans (h : FramesTaken s s') (g : FramesTaken s' s'') : FramesTaken s s'' :=
  ⟨h.sizes.trans g.sizes, fun pf i hi => g.bits pf i (h.bits pf i hi)⟩

lemma FramesTaken.pageAddr (h : FramesTaken s s') (pf : PoolFlags) (i : ℕ) :
    s'.pageAddr (phyPool pf) i = s.pageAddr (phyPool pf) i := by
  rw [MemState.pageAddr, MemState.pageAddr, (h.sizes _ (phyPool_physical pf).shared).2]

lemma FramesTaken.free (h : FramesTaken s s') (hf : FreeFrame s' f) : FreeFrame s f := by
  obtain ⟨pf, i, ⟨hi, hbit⟩, rfl⟩ := hf
  refine ⟨pf, i, ⟨?_, ?_⟩, by rw [h.pageAddr]⟩
  · rwa [← (h.sizes _ (phyPool_physical pf).shared).1]
  · cases hb : (s.btmp (phyPool pf)).bit i with
    | false => rfl
    | true => exact absurd (h.bits _ _ hb) (by simp [hbit])

lemma FramesTaken.notFree (h : FramesTaken s s') (hf : ¬ FreeFrame s f) : ¬ FreeFrame s' f :=
  fun hfree => hf (h.free hfree)

lemma SameSizes.poolShape {p : PoolId} {top : ℕ} (h : SameSizes s s') (hp : p.Shared)
    (hs : (s.pool p).Shape top) : (s'.pool p).Shape top := by
  obtain ⟨hnum, hbase⟩ := h p hp
  change (s'.pool p).btmp.bitNum = (s.pool p).btmp.bitNum at hnum
  constructor
  · rw [hbase]
    exact hs.aligned
  · rw [hbase, hnum]
    exact hs.nonzero
  · rw [hbase, hnum]
    exact hs.below

lemma SameSizes.phyPools (h : SameSizes s s') (hp : PhyPools s) : PhyPools s' := by
  refine ⟨fun pf => h.poolShape (phyPool_physical pf).shared (hp.shape pf), ?_⟩
  have hk := h .kernelPhy (phyPool_physical .kernel).shared
  have hu := h .userPhy (phyPool_physical .user).shared
  have ha := hp.apart
  simp only [Pool.Apart, MemState.btmp] at hk hu ha ⊢
  rwa [hk.1, hk.2, hu.1, hu.2]

lemma KernelHalf.kept (h : KernelHalf m s.phys f) (hk : FrameKept s s' f) :
    KernelHalf m s'.phys f := by
  refine ⟨fun i hlow hhigh => ?_, h.window.of_last (hk 1023 h.window.present)⟩
  have hentry := h.entries i hlow hhigh
  rw [hk i (hentry ▸ (setupPage_kernel m hlow hhigh).1), hentry]

/-- The page table of a page of the kernel. -/
lemma KernelHalf.table (h : KernelHalf m s.phys f) (hv : KernelPage v) :
    present (s.phys f (pdeIdx v)) = true ∧ LoaderFrame (frameOf (s.phys f (pdeIdx v))) := by
  rw [h.entries _ hv.1 hv.2]
  obtain ⟨hp, hframe⟩ := setupPage_kernel m hv.1 hv.2
  have hlow := hv.1
  have hhigh := hv.2
  exact ⟨hp, by rw [LoaderFrame, hframe]; omega⟩

lemma KernelHalf.walk_eq {g : FrameNo} (h : KernelHalf m s.phys f) (hg : KernelHalf m s.phys g)
    (hv : KernelPage v) : translate s.phys f v = translate s.phys g v :=
  h.translate_eq hg hv.1 hv.2

/-- A page of the kernel stays mapped. -/
lemma KernelHalf.walk_kept (h : KernelHalf m s.phys 0x100)
    (hk : ∀ g, LoaderFrame g → FrameKept s s' g) (hv : KernelPage v)
    (hw : translate s.phys 0x100 v = some f) : translate s'.phys 0x100 v = some f := by
  obtain ⟨hp, htable⟩ := h.table hv
  have hdir := hk 0x100 ⟨by decide, by decide⟩ _ hp
  simp only [translate, hp, if_true] at hw
  by_cases hq : present (s.phys (frameOf (s.phys 0x100 (pdeIdx v))) (pteIdx v)) = true
  · simp only [translate, hdir, hp, if_true, hk _ htable _ hq]
    exact hw
  · rw [if_neg hq] at hw
    cases hw

lemma PageMapped.kept (h : KernelHalf m s.phys 0x100) (hk : ∀ g, LoaderFrame g → FrameKept s s' g)
    (ht : PageMapped s t) : PageMapped s' t := by
  obtain ⟨v, f, hv, hpage, hw⟩ := ht
  exact ⟨v, f, hv, hpage, h.walk_kept hk hpage hw⟩

lemma Others.refl (D : Hold) (s : MemState) : Others lone D s s :=
  ⟨fun _ => rfl, .refl s, rfl, rfl, rfl, rfl, fun _ _ _ _ => rfl⟩

lemma Others.trans (h : Others lone D s s') (g : Others lone D s' s'') : Others lone D s s'' where
  still hl := (g.still hl).trans (h.still hl)
  taken := h.taken.trans g.taken
  running := g.running.trans h.running
  cr3 := g.cr3.trans h.cr3
  own := by
    have hown := g.own
    rw [h.running] at hown
    exact hown.trans h.own
  pgDir := by
    have hdir := g.pgDir
    rw [h.running] at hdir
    exact hdir.trans h.pgDir
  kept f hf := by
    have hf' : LoaderFrame f ∨ f = s'.cr3 ∨ f ∈ D.frames := by rwa [h.cr3]
    exact (h.kept f hf).trans (g.kept f hf')

lemma Others.of_still {lone' : Prop} (h : Others lone D s s') (hs : lone' → s' = s) :
    Others lone' D s s' :=
  ⟨hs, h.taken, h.running, h.cr3, h.own, h.pgDir, h.kept⟩

lemma Others.weaken (h : Others lone D s s') : Others False D s s' := h.of_still False.elim

lemma Inside.others (h : Inside m D s) (g : Others lone D s s') : Inside m D s' where
  pools := g.taken.sizes.phyPools h.pools
  low f hf := h.low f (g.taken.free hf)
  heap := g.taken.sizes.poolShape kernelVir_shared h.heap
  heapBase := (g.taken.sizes _ kernelVir_shared).2.trans h.heapBase
  kernel := h.kernel.kept (g.kept _ (.inl ⟨by decide, by decide⟩))
  active := by
    rw [g.cr3]
    exact h.active.kept (g.kept _ (.inr (.inl rfl)))
  nonzero := g.cr3 ▸ h.nonzero
  taken := by
    rw [g.cr3]
    exact g.taken.notFree h.taken
  apart := g.cr3 ▸ h.apart
  held f hf := ⟨(h.held f hf).1, g.taken.notFree (h.held f hf).2⟩

/-- No frame a call holds is one of the loader's. -/
lemma Inside.notHeld (h : Inside m D s) (hf : LoaderFrame f) : f ≠ 0 ∧ f ∉ D.frames := by
  refine ⟨?_, fun hD => ?_⟩
  · rintro rfl
    exact absurd hf.1 (by decide)
  · have hlow := (h.held f hD).1
    have hhigh := hf.2
    omega

lemma Acts.loader (h : Acts m D D' s s') (hI : Inside m D s) (hf : LoaderFrame f) :
    FrameKept s s' f :=
  h.kept f (hI.notHeld hf).1 (hI.notHeld hf).2

lemma Acts.inside (h : Acts m D D' s s') (hI : Inside m D s) : Inside m D' s' where
  pools := h.taken.sizes.phyPools hI.pools
  low f hf := hI.low f (h.taken.free hf)
  heap := h.taken.sizes.poolShape kernelVir_shared hI.heap
  heapBase := (h.taken.sizes _ kernelVir_shared).2.trans hI.heapBase
  kernel := hI.kernel.kept (h.loader hI ⟨by decide, by decide⟩)
  active := by
    rw [h.cr3]
    exact hI.active.kept (h.kept _ hI.nonzero hI.apart)
  nonzero := h.cr3 ▸ hI.nonzero
  taken := by
    rw [h.cr3]
    exact h.taken.notFree hI.taken
  apart := by
    rw [h.cr3]
    intro hf
    rcases h.frames _ hf with hD | hfree
    · exact hI.apart hD
    · exact hI.taken hfree.1
  held f hf := by
    rcases h.frames f hf with hD | hfree
    · exact ⟨(hI.held f hD).1, h.taken.notFree (hI.held f hD).2⟩
    · exact ⟨hI.low f hfree.1, hfree.2⟩

lemma DirMade.others (h : DirMade m s v f) (hI : Inside m D s) (hf : f ∈ D.frames)
    (g : Others lone D s s') : DirMade m s' v f :=
  ⟨h.page, hI.kernel.walk_kept (fun k hk => g.kept k (.inl hk)) h.page h.walk,
    h.half.kept (g.kept f (.inr (.inr hf)))⟩

end Relations

section Accesses

variable {m : Phys} {lone : Prop} {D D' : Hold} {s s' : MemState} {f : FrameNo} {v w : Word} {i : Slot}

lemma Acts.refl (m : Phys) (D : Hold) (s : MemState) : Acts m D D s s where
  taken := .refl s
  running := rfl
  cr3 := rfl
  own _ _ _ := rfl
  pgDir _ := .inl rfl
  kept _ _ _ _ _ := rfl
  frames _ := .inl
  pages _ := .inl

/-- Records change, and no memory. -/
lemma Acts.records (htaken : FramesTaken s s') (hphys : s'.phys = s.phys)
    (hrun : s'.running = s.running) (hcr3 : s'.cr3 = s.cr3)
    (hown : ∀ t, t ≠ s.running → t ∉ D.pages → s'.pool (.userVir t) = s.pool (.userVir t))
    (hdir : ∀ t, s'.pgDir t = s.pgDir t ∨ t ∈ D.pages ∧ s'.pgDir t = 0) : Acts m D D s s' where
  taken := htaken
  running := hrun
  cr3 := hcr3
  own := hown
  pgDir t := (hdir t).imp_right fun h => ⟨h.1, .inl h.2⟩
  kept _ _ _ _ _ := by rw [hphys]
  frames _ := .inl
  pages _ := .inl

/-- Memory changes, in frames that are held. -/
lemma Acts.memory {phys : Phys}
    (hk : ∀ f, f ≠ 0 → f ∉ D.frames → FrameKept s { s with phys := phys } f)
    (hframes : D'.frames = D.frames)
    (hpages : ∀ t ∈ D'.pages, t ∈ D.pages ∨ ¬ PageMapped s t ∧ PageMapped { s with phys := phys } t) :
    Acts m D D' s { s with phys := phys } where
  taken := ⟨fun _ _ => ⟨rfl, rfl⟩, fun _ _ => id⟩
  running := rfl
  cr3 := rfl
  own _ _ _ := rfl
  pgDir _ := .inl rfl
  kept := hk
  frames _ hf := .inl (hframes ▸ hf)
  pages := hpages

/-- A frame that is held, or the one at address 0, gets new contents. -/
lemma Acts.fill (hf : f = 0 ∨ f ∈ D.frames) (page : Slot → Word) :
    Acts m D D s { s with phys := Function.update s.phys f page } := by
  refine .memory (fun g h0 hg j _ => ?_) rfl fun _ => .inl
  have hne : g ≠ f := by
    rintro rfl
    exact hf.elim h0 hg
  exact congrFun (Function.update_of_ne hne _ _) j

/-- An entry is set that is not present. -/
lemma frameKept_writeSlot (hz : present (s.phys f i) = false) (w : Word) (g : FrameNo) :
    FrameKept s { s with phys := writeSlot s.phys f i w } g := by
  intro j hj
  refine (writeSlot_apply s.phys (f, i) w (g, j)).trans (if_neg fun he => ?_)
  obtain ⟨rfl, rfl⟩ := Prod.mk.inj he
  rw [hz] at hj
  cases hj

lemma Acts.entry (hz : present (s.phys f i) = false) (w : Word) :
    Acts m D D s { s with phys := writeSlot s.phys f i w } :=
  .memory (fun g _ _ => frameKept_writeSlot hz w g) rfl fun _ => .inl

/-- A frame that is free is taken. -/
lemma Acts.takeFrame {pf : PoolFlags} {idx : ℕ} (hI : Inside m D s)
    (hfree : FreeBit (s.btmp (phyPool pf)) idx) :
    Acts m D { D with frames := insert (frameOf (s.pageAddr (phyPool pf) idx)) D.frames } s
      (s.takeFrame pf idx) := by
  have hpool : ∀ t, (s.takeFrame pf idx).pool (.userVir t) = s.pool (.userVir t) := fun t =>
    Function.update_of_ne ((phyPool_physical pf).shared t).symm _ _
  refine ⟨⟨fun p _ => ⟨?_, ?_⟩, fun pf' j hj => ?_⟩, rfl, rfl, fun t _ _ => hpool t,
    fun _ => .inl rfl, fun _ _ _ _ _ => rfl, fun _ hf => ?_, fun _ => .inl⟩
  · exact (takeFrame_sameShape s pf idx).bitNum p
  · exact (takeFrame_sameShape s pf idx).addrBase p
  · rw [takeFrame_bit, hj, Bool.or_true]
  · rcases hf with rfl | hf
    · refine .inr ⟨⟨pf, idx, hfree, rfl⟩, fun h => ?_⟩
      exact ((freeFrame_takeFrame hI.pools hfree).mp h).2 rfl
    · exact .inl hf

/-- Of a call that may meet others the stores are fresh by assumption, and those of the only call
are. -/
def dirsProtocol (m : Phys) (lone : Prop) : Protocol MemState MemLabel Hold where
  others := Others lone
  ok f s := ¬ lone → StoreFresh f s
  access f s D s' D' := Acts m D D' s s' ∧ (lone → StoreFresh f s)
  tells _ _ D D' := D' = D
  refl := Others.refl
  trans := Others.trans

variable {α β : Type} {Q : MemState → Hold → α → Prop} {R : MemState → Hold → β → Prop}

lemma dirs_reads (m : Phys) (lone : Prop) : (dirsProtocol m lone).Reads := fun s D =>
  ⟨Acts.refl m D s, fun _ => (plain_some s).fresh s⟩

lemma obeys_readOr {g : MemState → Option β} {e : Fault} {k : β → MemProg α}
    (h : ∀ s₁ b, Others lone D s s₁ → g s₁ = some b → (k b).Obeys (dirsProtocol m lone) Q s₁ D) :
    (readOr g e >>= k).Obeys (dirsProtocol m lone) Q s D := by
  intro s₁ h₁ _ s' hs
  obtain rfl := Option.some.inj hs
  refine ⟨D, dirs_reads m lone s₁ D, ?_⟩
  dsimp only
  cases hg : g s₁ with
  | none => trivial
  | some b => exact h s₁ b h₁ hg

lemma obeys_label {x : MemLabel} {k : Unit → MemProg α}
    (h : (k ()).Obeys (dirsProtocol m lone) Q s D) :
    (label x >>= k).Obeys (dirsProtocol m lone) Q s D :=
  fun _ h₁ => ⟨D, rfl, h.others h₁⟩

lemma obeys_modify {g : MemState → MemState} {R : MemState → Hold → Unit → Prop}
    (hg : Plain fun x => some (g x))
    (h : ∀ s₁, Others lone D s s₁ →
      ∃ D', Acts m D D' s₁ (g s₁) ∧ ∀ s₂, Others lone D' (g s₁) s₂ → R s₂ D' ()) :
    (modify g : MemProg Unit).Obeys (dirsProtocol m lone) R s D := by
  intro s₁ h₁ _ s' hs
  obtain rfl := Option.some.inj hs
  obtain ⟨D', hacts, hrest⟩ := h s₁ h₁
  exact ⟨D', ⟨hacts, fun _ => hg.fresh s₁⟩, hrest⟩

/-- A store that may be one in a map or in an entry. -/
lemma obeys_store {g : MemState → Option MemState} {e : Fault} {R : MemState → Hold → Unit → Prop}
    (hlone : lone → StoreFresh (fun x => some ((g x).getD x)) s)
    (h : ∀ s₁ s', Others lone D s s₁ → StoreFresh (fun x => some ((g x).getD x)) s₁ →
      g s₁ = some s' → ∃ D', Acts m D D' s₁ s' ∧ ∀ s₂, Others lone D' s' s₂ → R s₂ D' ()) :
    (modifyOr g e).Obeys (dirsProtocol m lone) R s D := by
  intro s₁ h₁ hok s' hs
  obtain rfl := Option.some.inj hs
  have hfresh : lone → StoreFresh (fun x => some ((g x).getD x)) s₁ := fun hl => by
    rw [Others.still h₁ hl]
    exact hlone hl
  dsimp only
  cases hg : g s₁ with
  | none => exact ⟨D, ⟨Acts.refl m D s₁, hfresh⟩, trivial⟩
  | some s' =>
    obtain ⟨D', hacts, hrest⟩ := h s₁ s' h₁ ((em lone).elim hfresh hok) hg
    exact ⟨D', ⟨hacts, hfresh⟩, hrest⟩

lemma obeys_modifyOr {g : MemState → Option MemState} {e : Fault} {R : MemState → Hold → Unit → Prop}
    (hg : Plain fun x => some ((g x).getD x))
    (h : ∀ s₁ s', Others lone D s s₁ → g s₁ = some s' →
      ∃ D', Acts m D D' s₁ s' ∧ ∀ s₂, Others lone D' s' s₂ → R s₂ D' ()) :
    (modifyOr g e).Obeys (dirsProtocol m lone) R s D :=
  obeys_store (fun _ => hg.fresh s) fun s₁ s' h₁ _ => h s₁ s' h₁

lemma obeys_await {g : MemState → Option MemState} {R : MemState → Hold → Unit → Prop}
    (hg : Plain g) (h : ∀ s₁ s', Others lone D s s₁ → g s₁ = some s' →
      ∃ D', Acts m D D' s₁ s' ∧ ∀ s₂, Others lone D' s' s₂ → R s₂ D' ()) :
    (await g : MemProg Unit).Obeys (dirsProtocol m lone) R s D := by
  intro s₁ h₁ _ s' hs
  obtain ⟨D', hacts, hrest⟩ := h s₁ s' h₁ hs
  exact ⟨D', ⟨hacts, fun _ => hg.fresh s₁⟩, hrest⟩

/-- The call holds no less than `D`, and `R` holds. -/
def Keeps (m : Phys) (D : Hold) (R : MemState → Hold → α → Prop) (s : MemState) (E : Hold) (a : α) :
    Prop := Inside m E s ∧ D ≤ E ∧ R s E a

/-- A part of a call that gives nothing away. -/
def CallPart (lone : Prop) (m : Phys) (p : MemProg α) (R : MemState → Hold → α → Prop) : Prop :=
  ∀ D s, Inside m D s → p.Obeys (dirsProtocol m lone) (Keeps m D R) s D

lemma CallPart.bind {p : MemProg α} {k : α → MemProg β} (hp : CallPart lone m p Q)
    (hk : ∀ D s a, Inside m D s → Q s D a → (k a).Obeys (dirsProtocol m lone) (Keeps m D R) s D) :
    CallPart lone m (p >>= k) R := by
  intro D s hI
  refine Obeys.bind (hp D s hI) ?_
  rintro s' D' a ⟨hI', hle, hq⟩
  exact Obeys.post (hk D' s' a hI' hq) fun _ _ _ h => ⟨h.1, Hold.le_trans hle h.2.1, h.2.2⟩

lemma CallPart.ret (a : α) : CallPart lone m (.ret a : MemProg α) fun _ _ b => b = a :=
  fun D _ hI _ h₁ => ⟨hI.others h₁, D.le_refl, rfl⟩

lemma CallPart.post {p : MemProg α} {Q' : MemState → Hold → α → Prop} (hp : CallPart lone m p Q)
    (h : ∀ s D a, Inside m D s → Q s D a → Q' s D a) : CallPart lone m p Q' :=
  fun D s hI => Obeys.post (hp D s hI) fun _ _ _ hq => ⟨hq.1, hq.2.1, h _ _ _ hq.1 hq.2.2⟩

end Accesses

end OsI386
