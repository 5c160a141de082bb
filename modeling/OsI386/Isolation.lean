import OsI386.FrameOwners
import OsI386.OsRuns

/-!
# The frames of two processes

No call gives a frame with an owner to another one, so the frames under the low halves of two
directories are never the same, and never those of the kernel heap.
-/
namespace OsI386
open Prog TransitionSystem

section Quiet

variable {s s' : MemState} {m : Phys} {own : FrameNo → Owner} {pf : PoolFlags}

/-- Memory stays as it is. -/
def quiet (s : MemState) (_ : List MemLabel) (s' : MemState) : Prop :=
  Grows s s' ∧ s'.phys = s.phys

lemma quiet_effect : Effect quiet :=
  ⟨fun s => ⟨Grows.refl s, rfl⟩, fun h g => ⟨h.1.trans g.1, g.2.trans h.2⟩⟩

lemma quiet_bitmapSetAt {p : PoolId} {idx : ℕ} (h : (s.btmp p).Holds idx) :
    Within quiet (bitmapSetAt p idx) s
      fun _ x _ => x = s.setBtmp p (bitmapSet (s.btmp p) idx) :=
  (safe_bitmapSetAt h (quiet_effect.refl s)
    ⟨((Steady.refl s).setBit p idx).toGrows, rfl⟩).post fun _ _ _ _ hx => hx.2

lemma quiet_bitmapSetRun {p : PoolId} {idx cnt : ℕ} (h : idx + cnt ≤ (s.btmp p).bitNum) :
    Within quiet (bitmapSetRun p idx cnt) s fun _ _ _ => True := by
  induction cnt generalizing s idx with
  | zero => exact .ret (quiet_effect.refl s) trivial
  | succ cnt ih =>
    refine (quiet_bitmapSetAt (Bitmap.holds_of_lt (by omega))).bind quiet_effect ?_
    rintro _ _ _ - rfl
    refine ih ?_
    rw [setBtmp_btmp_self, bitmapSet_bitNum]
    omega

lemma quiet_vaddrGet (cnt : ℕ) : Within quiet (vaddrGet pf cnt) s fun _ _ _ => True := by
  have hs : Grows s s ∧ s.phys = s.phys := ⟨Grows.refl s, rfl⟩
  refine .read (.label hs (.bind (safe_bitmapScanAt hs 0 cnt) ?_))
  rintro _ s r hs ⟨rfl, rfl, rfl⟩
  split_ifs with hfull
  · exact .label hs (.ret hs trivial)
  · exact (quiet_bitmapSetRun (bitmapScan_fits hfull)).bind_safe quiet_effect hs
      fun _ s1 _ _ hs1 _ => .read (.label hs1 (.ret hs1 trivial))

lemma quiet_targetReserve {p : PoolId} {v : Word} (h : (s.btmp p).Holds (s.targetBit p v)) :
    Within quiet (targetReserve p v) s fun _ _ _ => True := by
  have hs := quiet_effect.refl s
  exact .read (.label hs ((quiet_bitmapSetAt h).bind_safe quiet_effect hs
    fun _ _ _ _ hx _ => .label hx (.ret hx trivial)))

lemma quiet_mutexLockAt (p : PoolId) : Within quiet (mutexLockAt p) s fun _ _ _ => True := by
  refine .await (quiet_effect.refl s) fun x hx => ?_
  obtain ⟨hg, -, rfl⟩ := (grows_mutexLockAt p).2 x hx
  exact ⟨⟨hg, rfl⟩, trivial⟩

lemma quiet_mutexUnlockAt (p : PoolId) : Within quiet (mutexUnlockAt p) s fun _ _ _ => True := by
  refine .modifyOr (quiet_effect.refl s) fun x hx => ?_
  obtain ⟨l, hl, rfl⟩ := Option.map_eq_some_iff.mp hx
  exact ⟨⟨(Grows.refl s).setMtx p l.1, rfl⟩, trivial⟩

lemma Owned.of_quiet (h : Owned m own s) {t : List MemLabel} (hq : quiet s t s') :
    Owned m own s' :=
  h.of_phys hq.2 hq.1.cr3 (fun _ _ => by rw [hq.1.pgDir]) fun _ hf => hq.1.free hf

end Quiet

section Calls

variable {s s' s₀ : MemState} {m : Phys} {tr : List MemLabel} {pf : PoolFlags} {v a : Word}

/-- What holds in a call that began in `s₀`. -/
def inIsolation (m : Phys) (s₀ : MemState) (t : List MemLabel) (x : MemState) : Prop :=
  CallInv m s₀ x ∧ isolated m t x

/-- The next part of a call only takes pages. -/
lemma inIsolation_bind {α β : Type} {c : MemProg α} {k : α → MemProg β} {R : MemState → α → Prop}
    {P : List MemLabel → MemState → α → Prop} {Q : List MemLabel → MemState → β → Prop}
    (h : inIsolation m s₀ tr s) (hg : Within OsI386.grows c s P)
    (hc : MemLabel.noFrame .kernelPhy ∉ tr → c.Safe (isolated m)
      (fun t x a => MemLabel.noFrame .kernelPhy ∉ t → R x a) [] s)
    (hk : ∀ t t' x a, Grows s x → inIsolation m s₀ t x → P t' x a →
      (MemLabel.noFrame .kernelPhy ∉ t → MemLabel.noFrame .kernelPhy ∉ tr ∧ R x a) →
      (k a).Safe (inIsolation m s₀) Q t x) :
    (c >>= k).Safe (inIsolation m s₀) Q tr s := by
  have hmid : c.Safe (inIsolation m s₀) (fun t x a => Grows s x ∧ (∃ t', P t' x a) ∧
      (MemLabel.noFrame .kernelPhy ∉ t → MemLabel.noFrame .kernelPhy ∉ tr ∧ R x a)) (tr ++ []) s := by
    refine Safe.append ?_
    by_cases hbad : MemLabel.noFrame .kernelPhy ∈ tr
    · have hbad' : ∀ t, MemLabel.noFrame .kernelPhy ∈ tr ++ t := fun t => List.mem_append_left t hbad
      exact Safe.mono hg (fun t x g => ⟨h.1.grows g, fun hn => absurd (hbad' t) hn⟩)
        fun t x a g hp => ⟨g, ⟨t, hp⟩, fun hn => absurd (hbad' t) hn⟩
    · refine Safe.mono (hg.and (hc hbad)) (fun t x hx => ⟨h.1.grows hx.1, fun hn => ?_⟩) ?_
      · exact hx.2 fun hm => hn (List.mem_append_right _ hm)
      · rintro t x a ⟨g, -⟩ ⟨hp, hr⟩
        exact ⟨g, ⟨t, hp⟩, fun hn => ⟨hbad, hr fun hm => hn (List.mem_append_right _ hm)⟩⟩
  rw [List.append_nil] at hmid
  refine hmid.bind ?_
  rintro t x a hx ⟨g, ⟨t', hp⟩, hr⟩
  exact hk t t' x a g hx hp hr

/-- The next part only changes pools. -/
lemma inIsolation_quiet {α β : Type} {c : MemProg α} {k : α → MemProg β}
    {P P' : List MemLabel → MemState → α → Prop} {Q : List MemLabel → MemState → β → Prop}
    (h : inIsolation m s₀ tr s) (hg : Within OsI386.grows c s P) (hq : Within quiet c s P')
    (hk : ∀ t t' x a, Grows s x → inIsolation m s₀ t x → P t' x a →
      (k a).Safe (inIsolation m s₀) Q t x) :
    (c >>= k).Safe (inIsolation m s₀) Q tr s := by
  refine inIsolation_bind (R := fun _ _ => True) h hg (fun hn => ?_)
    fun t t' x a g hx hp _ => hk t t' x a g hx hp
  obtain ⟨own, hown⟩ := h.2 hn
  exact Safe.mono hq (fun t x hx _ => ⟨own, hown.of_quiet hx⟩) fun _ _ _ _ _ _ => trivial

lemma isolated_paddrGet {own : FrameNo → Owner} (h : Owned m own s) (hp : PhyPools s) :
    (paddrGet (phyPool pf)).Safe (isolated m) (fun t x a => MemLabel.noFrame .kernelPhy ∉ t →
      a ≠ 0 → ∃ own, Owned m own x ∧ Loose own x (frameOf a)) [] s := by
  refine safe_paddrGet ((hp.shape pf).bitNum_le le_rfl) (fun _ _ => ⟨own, h⟩)
    (fun _ _ h0 => absurd rfl h0) fun i t hi => ?_
  obtain ⟨h1, hl⟩ := h.takeFrame hp hi
  exact ⟨fun _ => ⟨own, h1⟩, fun _ _ => ⟨own, h1, hl⟩⟩

lemma inIsolation_mallocPages {start : Word} {cnt : ℕ} (h : inIsolation m s₀ tr s) :
    (mallocPages (phyPool pf) start cnt v).Safe (inIsolation m s₀) (fun _ _ _ => True) tr s := by
  induction cnt generalizing s v tr with
  | zero => exact .ret h trivial
  | succ cnt ih =>
    refine inIsolation_bind h (grows_of_steady (steady_paddrGet _)) (fun hn => ?_)
      (R := fun x a => a ≠ 0 → ∃ own, Owned m own x ∧ Loose own x (frameOf a)) ?_
    · obtain ⟨own, hown⟩ := h.2 hn
      exact isolated_paddrGet hown h.1.inv.pools
    rintro t _ s1 pa - h1 - hpa
    split_ifs with h0
    · exact .ret h1 trivial
    refine inIsolation_bind h1 (grows_of_steady (steady_v2pMapping v pa)) (fun hn => ?_)
      (R := fun _ _ => True) fun t _ s2 _ _ h2 _ _ => ih h2
    obtain ⟨own, hown, hloose⟩ := (hpa hn).2 h0
    exact Safe.post (isolated_v2pMapping hown h1.1.inv h1.1.active hloose)
      fun _ _ _ _ _ _ => trivial

lemma inIsolation_mallocPage {cnt : ℕ} (h : inIsolation m s₀ tr s) :
    (mallocPage pf cnt).Safe (inIsolation m s₀) (fun _ _ _ => True) tr s := by
  unfold mallocPage
  split_ifs
  · refine inIsolation_quiet h (grows_of_steady (steady_vaddrGet rfl cnt)) (quiet_vaddrGet cnt) ?_
    rintro t _ s1 start - h1 -
    split_ifs
    · exact .ret h1 trivial
    · exact inIsolation_mallocPages h1
  · exact .stop h

lemma inIsolation_kernelPagesMalloc {cnt : ℕ} (h : inIsolation m s₀ tr s) :
    (kernelPagesMalloc cnt).Safe (inIsolation m s₀) (fun _ _ _ => True) tr s :=
  inIsolation_mallocPage h

lemma inIsolation_userPagesMalloc {cnt : ℕ} (h : inIsolation m s₀ tr s) :
    (userPagesMalloc cnt).Safe (inIsolation m s₀) (fun _ _ _ => True) tr s := by
  refine inIsolation_quiet h (grows_mutexLockAt _) (quiet_mutexLockAt _) ?_
  rintro t _ s1 _ - h1 -
  refine (inIsolation_mallocPage h1).bind fun t s2 a h2 _ => ?_
  exact inIsolation_quiet h2 (grows_mutexUnlockAt _) (quiet_mutexUnlockAt _)
    fun _ _ s3 _ _ h3 _ => .ret h3 trivial

lemma inIsolation_targetMalloc {p : PoolId} (h : inIsolation m s₀ tr s)
    (hin : (s.btmp p).Holds (s.targetBit p v)) :
    (targetMalloc (phyPool pf) p v).Safe (inIsolation m s₀) (fun _ _ _ => True) tr s := by
  refine inIsolation_quiet h (grows_of_steady (steady_targetReserve hin))
    (quiet_targetReserve hin) ?_
  rintro t _ s1 _ - h1 -
  refine inIsolation_bind h1 (grows_of_steady (steady_paddrGet _)) (fun hn => ?_)
    (R := fun x a => a ≠ 0 → ∃ own, Owned m own x ∧ Loose own x (frameOf a)) ?_
  · obtain ⟨own, hown⟩ := h1.2 hn
    exact isolated_paddrGet hown h1.1.inv.pools
  rintro t _ s2 pa - h2 - hpa
  split_ifs with h0
  · exact .ret h2 trivial
  refine inIsolation_bind h2 (grows_of_steady (steady_v2pMapping v pa)) (fun hn => ?_)
    (R := fun _ _ => True) ?_
  · obtain ⟨own, hown, hloose⟩ := (hpa hn).2 h0
    exact Safe.post (isolated_v2pMapping hown h2.1.inv h2.1.active hloose)
      fun _ _ _ _ _ _ => trivial
  rintro t _ s3 _ - h3 - -
  exact inIsolation_quiet h3 (grows_mutexUnlockAt _) (quiet_mutexUnlockAt _)
    fun _ _ s4 _ _ h4 _ => .ret h4 trivial

lemma inIsolation_targetVaddrMalloc (h : inIsolation m s₀ tr s) (hin : TargetInMap pf v s) :
    (targetVaddrMalloc pf v).Safe (inIsolation m s₀) (fun _ _ _ => True) tr s := by
  refine .read (inIsolation_quiet h (grows_mutexLockAt _) (quiet_mutexLockAt _) ?_)
  rintro t _ s1 _ - h1 ⟨-, hs1⟩
  have hpgDir : s1.pgDir = s.pgDir := by
    rw [hs1]
    rfl
  have hbit : (s.pgDir s.running ≠ 0 ↔ pf = .user) →
      (s1.btmp (vaddrPool pf s.running)).Holds (s1.targetBit (vaddrPool pf s.running) v) := by
    intro hkind
    rw [hs1, setMtx_btmp, setMtx_targetBit]
    exact hin hkind
  refine .read ?_
  rw [hpgDir]
  split_ifs with huser hkernel
  · obtain rfl := huser.2
    exact inIsolation_targetMalloc h1 (hbit (iff_of_true huser.1 rfl))
  · obtain rfl := hkernel.2
    exact inIsolation_targetMalloc h1 (hbit (by simp [hkernel.1]))
  · exact .stop h1

/-- Within a call, what also holds of the states since `s`. -/
lemma Safe.since {α : Type} {c : MemProg α} {P : List MemLabel → MemState → α → Prop}
    {Q : List MemLabel → MemState → α → Prop} (h : c.Safe (inIsolation m s₀) Q tr s)
    (hg : Within OsI386.grows c s P) : c.Safe (inIsolation m s₀)
      (fun t x a => Q t x a ∧ Grows s x ∧ ∃ t', P t' x a) tr s := by
  have hsince : c.Safe (fun _ x => Grows s x) (fun _ x a => ∃ t', P t' x a) (tr ++ []) s :=
    Safe.append (Safe.mono hg (fun _ _ g => g) fun t _ _ _ hp => ⟨t, hp⟩)
  rw [List.append_nil] at hsince
  exact (h.and hsince).mono (fun _ _ hx => hx.1) fun _ _ _ hx hp => ⟨hp.1, hx.2, hp.2⟩

/-- The page at `a`, if there is one, belongs to the heap. -/
def HeapOwned (m : Phys) (t : List MemLabel) (x : MemState) (a : Word) : Prop :=
  MemLabel.noFrame .kernelPhy ∉ t → a ≠ 0 →
    ∃ own, Owned m own x ∧ ∀ f, translate x.phys x.cr3 a = some f → own f = .heap

lemma inIsolation_kernelPage (h : inIsolation m s₀ tr s) :
    (kernelPagesMalloc 1).Safe (inIsolation m s₀) (HeapOwned m) tr s := by
  have htop : (0xffc00000 : ℕ) ≤ 2 ^ 32 := by norm_num
  have hr := h.1.ready
  have hcall : kernelPagesMalloc 1 = (vaddrGet .kernel 1 >>= fun a =>
      if a = 0 then return 0 else mallocPages .kernelPhy a 1 a) := rfl
  rw [hcall]
  have hp : PoolId.kernelVir = vaddrPool .kernel s.running := rfl
  refine inIsolation_quiet h (grows_of_steady (steady_vaddrGet hp 1)) (quiet_vaddrGet 1) ?_
  rintro t _ s1 start - h1 ⟨-, hget⟩
  rcases hget le_rfl (hr.heap.bitNum_le htop) with ⟨rfl, -, -⟩ | ⟨i, hi, rfl, -⟩
  · rw [if_pos rfl]
    exact .ret h1 fun _ h0 => absurd rfl h0
  have hfree := (runAt_one_iff _ i).mp hi
  obtain ⟨hlow, hhigh⟩ := hr.heap_pdeIdx hfree.1
  rw [if_neg (pageAddr_ne_zero hr.heap htop hfree.1)]
  refine inIsolation_bind h1 (grows_of_steady (steady_paddrGet _)) (fun hn => ?_)
    (R := fun x a => a ≠ 0 → ∃ own, Owned m own x ∧ Loose own x (frameOf a)) ?_
  · obtain ⟨own, hown⟩ := h1.2 hn
    exact @isolated_paddrGet _ _ .kernel _ hown h1.1.inv.pools
  rintro t _ s2 pa - h2 - hpa
  split_ifs with h0
  · exact .ret h2 fun _ h0 => absurd rfl h0
  refine inIsolation_bind h2 (grows_of_steady (steady_v2pMapping _ pa)) (fun hn => ?_)
    (R := fun x _ => ∃ own, Owned m own x ∧ own (frameOf pa) = .heap) ?_
  · obtain ⟨own, hown, hloose⟩ := (hpa hn).2 h0
    refine Safe.post (isolated_v2pMapping hown h2.1.inv h2.1.active hloose)
      fun _ _ _ _ hq hn => ?_
    obtain ⟨own', hown', hheap⟩ := hq hn
    exact ⟨own', hown', hheap hlow hhigh⟩
  rintro t _ s3 _ - h3 ⟨-, -, hmap⟩ hheap
  refine .ret h3 fun hn _ => ?_
  obtain ⟨own, hown, hf⟩ := (hheap hn).2
  refine ⟨own, hown, fun f hwalk => ?_⟩
  rw [hmap h2.1.ready, Option.some.injEq] at hwalk
  exact hwalk ▸ hf

/-- `page_dir_create` writes the upper half of its page only. -/
lemma inIsolation_pageDirCreate (h : inIsolation m s₀ tr s) :
    pageDirCreate.Safe (inIsolation m s₀) (HeapOwned m) tr s := by
  have hr := h.1.ready
  refine .bind (Safe.since (inIsolation_kernelPage h) (grows_of_steady (steady_kernelPage hr))) ?_
  rintro t s1 a h1 ⟨hheap, g1, -, -, hpage⟩
  by_cases ha : a = 0
  · rw [if_pos ha]
    exact .ret h1 fun _ h0 => absurd rfl h0
  rw [if_neg ha]
  replace hpage : HeapPage s s1 a := (hpage.resolve_left fun h0 => ha h0.1).2
  have hr1 := h1.1.ready
  obtain ⟨g, hfree, -, hg⟩ := hpage.frame
  obtain ⟨i, hi, rfl, -⟩ := hpage.page
  obtain ⟨hlow, hhigh⟩ := hr.heap_pdeIdx hi.1
  have halign := aligned_pageAddr hr.heap (by norm_num) hi.1
  -- each page of that frame with the same lower half leaves the owners as they are
  have hwrite : ∀ page : Slot → Word, (∀ j : Slot, j.toNat < 768 → page j = s1.phys g j) →
      inIsolation m s₀ t { s1 with phys := Function.update s1.phys g page } ∧
      HeapOwned m t { s1 with phys := Function.update s1.phys g page }
        (s.pageAddr .kernelVir i) := by
    intro page hsame
    have hown : MemLabel.noFrame .kernelPhy ∉ t →
        ∃ own, Owned m own { s1 with phys := Function.update s1.phys g page } ∧ own g = .heap := by
      intro hn
      obtain ⟨own, hown, hf⟩ := hheap hn ha
      exact ⟨own, hown.rewrite h1.1.inv (hf g hg) hsame, hf g hg⟩
    have hwalk := hr.translate_update g1 hfree hlow hhigh page
    refine ⟨⟨h.1.grows (g1.fresh (fun _ => .inr hfree) page), fun hn => ?_⟩, fun hn _ => ?_⟩
    · obtain ⟨own, hx, -⟩ := hown hn
      exact ⟨own, hx⟩
    · obtain ⟨own, hx, hgheap⟩ := hown hn
      refine ⟨own, hx, fun f hf => ?_⟩
      change translate (Function.update s1.phys g page) s1.cr3 _ = some f at hf
      rw [hwalk, hg, Option.some.injEq] at hf
      exact hf ▸ hgheap
  -- the entries of the kernel half
  have hsrc := hr1.window.translate_last
  set page : Slot → Word := fun j => if 768 ≤ j.toNat then s1.phys s1.cr3 j else s1.phys g j
    with hpage_eq
  have hlowPage : ∀ j : Slot, j.toNat < 768 → page j = s1.phys g j := fun j hj =>
    if_neg (by omega)
  obtain ⟨h2, -⟩ := hwrite page hlowPage
  refine .bind (P := fun t' x _ => t' = t ∧
    x = { s1 with phys := Function.update s1.phys g page }) (.modifyOr h1 ?_) ?_
  · intro x hx
    simp only [hsrc, hg, Option.bind_eq_bind, Option.bind_some, Option.pure_def,
      Option.some.injEq] at hx
    exact hx ▸ ⟨h2, rfl, rfl⟩
  rintro t' _ _ - ⟨rfl, rfl⟩
  have hwalk := hr.translate_update g1 hfree hlow hhigh page
  rw [hg] at hwalk
  have hall : (addrV2p (s.pageAddr .kernelVir i)).Safe (inIsolation m s₀) (fun _ _ _ => True) t'
      { s1 with phys := Function.update s1.phys g page } :=
    .readOr h2 fun _ _ => .ret h2 trivial
  refine (hall.of_runs (runs_addrV2p h2.1.ready.window hwalk)).bind ?_
  rintro _ _ pa - ⟨rfl, rfl, -⟩
  rw [List.append_nil]
  -- the last entry
  obtain ⟨hd, ht, hw⟩ := idx_add_offset halign (show (1023 * 4 : Word).toNat < 4096 by decide)
  have hpage' : ∀ e : Word, ∀ j : Slot, j.toNat < 768 →
      Function.update page 1023 e j = s1.phys g j := by
    intro e j hj
    have hne : j ≠ 1023 := by
      rintro rfl
      exact absurd hj (by decide)
    rw [Function.update_of_ne hne, hlowPage j hj]
  refine .bind (P := fun t x _ => HeapOwned m t x (s.pageAddr .kernelVir i)) (.modifyOr h2 ?_)
    fun _ _ _ hx hq => .ret hx hq
  intro x hx
  obtain ⟨phys, hphys, rfl⟩ := Option.map_eq_some_iff.mp hx
  obtain ⟨g', hg', rfl⟩ := Option.map_eq_some_iff.mp hphys
  rw [translate_congr hd ht] at hg'
  obtain rfl : g = g' := Option.some.inj (hwalk.symm.trans hg')
  have hlast := hwrite _ (hpage' (entryOf pa))
  rw [hw]
  unfold writeSlot
  dsimp only
  rw [Function.update_idem, Function.update_self]
  exact hlast

/-- A page that was free gets no directory with a new tcb in it. -/
lemma inIsolation_threadInit (h : inIsolation m s₀ tr s)
    (ha : a = 0 ∨ ¬ Settled s₀ a.toNat) :
    (threadInit a.toNat).Safe (inIsolation m s₀)
      (fun _ x _ => a ≠ 0 ∧ ∀ p, p ≠ .userVir a.toNat → x.pool p = s.pool p) tr s := by
  have hiso : (threadInit a.toNat).Safe (isolated m) (fun _ _ _ => True) tr s := by
    unfold threadInit
    split_ifs
    · exact .stop h.2
    refine .modify h.2 (fun hn => ?_) trivial
    obtain ⟨own, hown⟩ := h.2 hn
    refine ⟨own, hown.setThread (fun p hp => Function.update_of_ne hp _ _) fun t ht => ?_⟩
    refine Function.update_of_ne ?_ _ _
    rintro rfl
    exact ht (Function.update_self _ _ _)
  exact ((h.1.threadInit ha).and hiso).post fun _ _ _ _ hq => hq.1

lemma inIsolation_threadCreateMemory (h : inIsolation m s₀ tr s₀) :
    threadCreateMemory.Safe (inIsolation m s₀) (fun _ _ _ => True) tr s₀ := by
  refine .bind (Safe.since (inIsolation_kernelPagesMalloc h)
    (grows_of_steady (steady_kernelPage h.1.ready))) ?_
  rintro t s1 a h1 ⟨-, g1, -, -, hpage⟩
  refine .bind (inIsolation_threadInit h1 (hpage.imp And.left fun hp => hp.2.not_settled)) ?_
  exact fun _ _ _ h2 _ => .ret h2 trivial

/-- The directory of a new process is one no other thread has. -/
lemma inIsolation_setDir {task : ℕ} (h : CallInv m s₀ s) (h' : inIsolation m s₀ tr s')
    (g : Grows s s') (hheap : HeapOwned m tr s' a) (hnew : a ≠ 0 → NewDir s s' a) :
    isolated m tr { s' with pgDir := Function.update s'.pgDir task a } := by
  intro hn
  by_cases ha : a = 0
  · obtain ⟨own, hown⟩ := h'.2 hn
    exact ⟨own, hown.setDir fun h0 => absurd ha h0⟩
  obtain ⟨own, hown, hf⟩ := hheap hn ha
  obtain ⟨f₀, hdir⟩ := h.newDir h'.1 (hnew ha)
  obtain ⟨f₁, hfree, -, hwalk, -⟩ := (hnew ha).frame
  have hsame : translate s'.phys s'.cr3 a = translate s'.phys 0x100 a :=
    h'.1.active.toKernelHalf.translate_eq h'.1.inv.kernel.toKernelHalf hdir.low hdir.high
  refine ⟨own, hown.setDir fun _ f hft => ⟨hf f (hsame.trans hft), fun t ht hu => ?_⟩⟩
  rw [hsame, hft, Option.some.injEq] at hwalk
  subst hwalk
  rw [g.pgDir] at ht hu
  obtain ⟨e, he⟩ := h.inv.threads t ht
  have hwalk' := (he.grows h.inv h.ready g).walk
  rw [hu, Option.some.injEq] at hwalk'
  exact he.dir.taken (hwalk' ▸ hfree)

lemma inIsolation_processRunMemory (h : inIsolation m s₀ tr s₀) :
    processRunMemory.Safe (inIsolation m s₀) (fun _ _ _ => True) tr s₀ := by
  refine .bind (Safe.since (inIsolation_kernelPagesMalloc h)
    (grows_of_steady (steady_kernelPage h.1.ready))) ?_
  rintro t s1 a h1 ⟨-, g1, -, -, hpage⟩
  refine .bind (inIsolation_threadInit h1 (hpage.imp And.left fun hp => hp.2.not_settled)) ?_
  rintro t s2 _ h2 ⟨ha, hpool⟩
  obtain ⟨-, hpage⟩ := hpage.resolve_left fun hx => ha hx.1
  have hns : ¬ Settled s₀ a.toNat := hpage.not_settled
  refine .bind (P := fun _ _ _ => True) ?_ ?_
  · refine .bind (inIsolation_kernelPagesMalloc h2) ?_
    intro t s3 base h3 _
    split_ifs with hb
    · exact .stop h3
    refine .modify h3 ⟨?_, fun hn => ?_⟩ trivial
    · exact h3.1.setThread (e := s3.pgDir) (fun p hp => Function.update_of_ne hp _ _)
        (fun _ _ => rfl) (h3.1.inv.threads _) (h3.1.pgDir _)
    · obtain ⟨own, hown⟩ := h3.2 hn
      exact ⟨own, hown.setThread (e := s3.pgDir) (fun p hp => Function.update_of_ne hp _ _)
        fun _ _ => rfl⟩
  intro t s4 _ h4 _
  refine .bind (Safe.since (inIsolation_pageDirCreate h4) grows_pageDirCreate) ?_
  rintro t' s5 d h5 ⟨hheap, g5, -, hdir⟩
  have hnew : d ≠ 0 → NewDir s4 s5 d := fun h0 =>
    ((hdir h4.1.ready).resolve_left fun hd => h0 hd.1).2
  refine .bind (P := fun _ _ _ => True) (.modify h5 ⟨?_, ?_⟩ trivial) fun _ _ _ hx _ => .ret hx trivial
  · refine h5.1.setThread (q := s5.pool) (fun _ _ => rfl) (fun t ht => Function.update_of_ne ht _ _)
      (fun hne => ?_) fun hs => absurd hs hns
    rw [Function.update_self] at hne ⊢
    exact h4.1.newDir h5.1 (hnew hne)
  · exact inIsolation_setDir h4.1 h5 g5 hheap hnew

end Calls

end OsI386
