import OsI386.CallEffects

/-!
# What the creation of a process leaves as it was

`page_dir_create` fills a page that was free when it was called, and the tcb of a new process
is such a page too, so the frames in use and the threads that exist are as they were.
-/
namespace OsI386
open Prog

section Directory

variable {s s' : MemState} {f : FrameNo} {v a : Word} {i : ℕ}

lemma Ready.heap_pdeIdx (hr : Ready s) (hi : i < (s.btmp .kernelVir).bitNum) :
    768 ≤ (pdeIdx (s.pageAddr .kernelVir i)).toNat ∧
      (pdeIdx (s.pageAddr .kernelVir i)).toNat < 1023 := by
  have hbelow := hr.heap.below
  have hbase := hr.heapBase
  have haddr := toNat_pageAddr hr.heap (by norm_num) hi
  change i < (s.pool .kernelVir).btmp.bitNum at hi
  rw [toNat_pdeIdx, haddr]
  omega

/-- The kernel half is mapped through frames in use. -/
lemma Ready.translate_update (hr : Ready s) (h : Grows s s') (hf : FreeFrame s f)
    (hlow : 768 ≤ (pdeIdx v).toNat) (hhigh : (pdeIdx v).toNat < 1023) (page : Slot → Word) :
    translate (Function.update s'.phys f page) s'.cr3 v = translate s'.phys s'.cr3 v := by
  obtain ⟨hp, h0, ht⟩ := hr.tables _ hlow hhigh
  have hdir : f ≠ s.cr3 := fun he => hr.ownDir (he ▸ hf)
  have htable : f ≠ frameOf (s.phys s.cr3 (pdeIdx v)) := fun he => ht (he ▸ hf)
  have hentry := h.kept hr _ hr.nullDir hr.ownDir _ hp
  simp only [translate, h.cr3, Function.update_of_ne hdir.symm, hentry,
    Function.update_of_ne htable.symm]

/-- Between `s` and `s'` the page at `a` became a directory with the kernel half of the
active one. -/
structure NewDir (s s' : MemState) (a : Word) : Prop where
  page : ∃ i, FreeBit (s.btmp .kernelVir) i ∧ a = s.pageAddr .kernelVir i ∧
    (s'.btmp .kernelVir).bit i = true
  frame : ∃ f, FreeFrame s f ∧ ¬ FreeFrame s' f ∧ translate s'.phys s'.cr3 a = some f ∧
    Window s'.phys f ∧
    ∀ i : Slot, 768 ≤ i.toNat → i.toNat < 1023 → s'.phys f i = s.phys s.cr3 i

lemma HeapPage.free_of_translate (h : HeapPage s s' a) {g : FrameNo}
    (hg : translate s'.phys s'.cr3 a = some g) : FreeFrame s g := by
  obtain ⟨f, hf, -, ht⟩ := h.frame
  obtain rfl := Option.some.inj (ht.symm.trans hg)
  exact hf

/-- Addresses of one page differ in the word of the page only. -/
lemma idx_add_offset {c : Word} (hv : v.toNat % 4096 = 0) (hc : c.toNat < 4096) :
    pdeIdx (v + c) = pdeIdx v ∧ pteIdx (v + c) = pteIdx v ∧ wordIdx (v + c) = wordIdx c := by
  have hlt := v.isLt
  have hadd : (v + c).toNat = v.toNat + c.toNat := by
    rw [BitVec.toNat_add]
    omega
  refine ⟨?_, ?_, ?_⟩
  · apply BitVec.eq_of_toNat_eq
    rw [toNat_pdeIdx, toNat_pdeIdx, hadd]
    omega
  · apply BitVec.eq_of_toNat_eq
    rw [toNat_pteIdx, toNat_pteIdx, hadd]
    omega
  · apply BitVec.eq_of_toNat_eq
    rw [toNat_wordIdx, toNat_wordIdx, hadd]
    omega

lemma translate_congr {m : Phys} {d : FrameNo} {w : Word} (hd : pdeIdx v = pdeIdx w)
    (ht : pteIdx v = pteIdx w) : translate m d v = translate m d w := by
  simp only [translate, hd, ht]

/-- The last page of the window is the directory. -/
lemma Window.translate_last {m : Phys} {d : FrameNo} (h : Window m d) :
    OsI386.translate m d 0xfffff000 = some d := by
  have hidx : pteIdx 0xfffff000 = 1023 := by decide
  rw [h.translate (by decide), hidx, if_pos h.present, h.frame]

lemma grows_pageDirCreate : Within grows pageDirCreate s fun _ s' a =>
    Ready s → a = 0 ∧ Exhausted s' ∨ a ≠ 0 ∧ NewDir s s' a := by
  have hmalloc : Within grows (kernelPagesMalloc 1) s fun _ s1 a =>
      Ready s → a = 0 ∧ Exhausted s1 ∨ a ≠ 0 ∧ HeapPage s s1 a := by
    by_cases hr : Ready s
    · exact Safe.post (grows_of_steady (steady_kernelPage hr)) fun _ _ _ _ h _ => h.2
    · exact Safe.post (grows_of_steady (steady_mallocPage .kernel 1))
        fun _ _ _ _ _ hr' => absurd hr' hr
  refine hmalloc.bind_safe grows_effect (Grows.refl s) ?_
  rintro _ s1 a - hs1 hpage
  by_cases ha : a = 0
  · subst ha
    exact .ret hs1 fun hr => (hpage hr).imp id fun h => absurd rfl h.1
  rw [if_neg ha]
  have hheap : Ready s → HeapPage s s1 a := fun hr =>
    (hpage hr).elim (fun h => absurd h.1 ha) fun h => h.2
  -- the entries of the kernel half
  refine .bind (P := fun _ x _ => ∃ g page, translate s1.phys s1.cr3 a = some g ∧
    x = { s1 with phys := Function.update s1.phys g page } ∧
    ∀ i : Slot, 768 ≤ i.toNat → Ready s → page i = s1.phys s1.cr3 i) (.modifyOr hs1 ?_) ?_
  · intro x hx
    obtain ⟨f, hf, hx⟩ := Option.bind_eq_some_iff.mp hx
    obtain ⟨g, hg, hx⟩ := Option.bind_eq_some_iff.mp hx
    obtain rfl := Option.some.inj hx
    refine ⟨hs1.fresh (fun hr => .inr ?_) _, g, _, hg, rfl, fun i hi hr => ?_⟩
    · exact (hheap hr).free_of_translate hg
    · have hsrc := (hs1.ready hr).window.translate_last
      obtain rfl := Option.some.inj (hsrc.symm.trans hf)
      exact if_pos hi
  rintro _ s2 _ hs2 ⟨g, page, hg, rfl, hcopy⟩
  have hfree : Ready s → FreeFrame s g := fun hr => (hheap hr).free_of_translate hg
  have hsame : ∀ m, Ready s → translate (Function.update s1.phys g m) s1.cr3 a = some g := by
    intro m hr
    obtain ⟨i, hi, rfl, -⟩ := (hheap hr).page
    obtain ⟨hlow, hhigh⟩ := hr.heap_pdeIdx hi.1
    rw [hr.translate_update hs1 (hfree hr) hlow hhigh, hg]
  refine (grows_of_steady (steady_addrV2p a)).bind_safe grows_effect hs2 ?_
  rintro _ _ pa - hs3 ⟨-, rfl, hpa⟩
  -- the last entry
  refine .bind (P := fun _ x _ => Ready s → NewDir s x a) (.modifyOr hs3 ?_)
    fun _ x _ hx hnew => .ret hx fun hr => .inr ⟨ha, hnew hr⟩
  intro x hx
  obtain ⟨m, hm, rfl⟩ := Option.map_eq_some_iff.mp hx
  obtain ⟨g', hg', rfl⟩ := Option.map_eq_some_iff.mp hm
  have hlast : Ready s → g' = g ∧ wordIdx (a + 1023 * 4) = 1023 ∧ pa = frameAddr g := by
    intro hr
    obtain ⟨i, hi, rfl, -⟩ := (hheap hr).page
    have halign := aligned_pageAddr hr.heap (by norm_num) hi.1
    obtain ⟨hd, ht, hw⟩ := idx_add_offset halign (show (1023 * 4 : Word).toNat < 4096 by decide)
    have hwalk := hsame page hr
    have hpa := hpa g (hs2.ready hr).window hwalk
    rw [← translate_congr hd ht, hg'] at hwalk
    rw [and_offsetMask_of_aligned halign] at hpa
    exact ⟨Option.some.inj hwalk, hw, by simpa using hpa⟩
  refine ⟨hs3.fresh (fun hr => ?_) _, fun hr => ?_⟩
  · rw [(hlast hr).1]
    exact .inr (hfree hr)
  obtain ⟨rfl, hw, rfl⟩ := hlast hr
  obtain ⟨f, -, hnf, hf⟩ := (hheap hr).frame
  obtain rfl := Option.some.inj (hf.symm.trans hg)
  refine ⟨(hheap hr).page, _, hfree hr, hnf, ?_, ⟨?_, ?_⟩, fun i hlow hhigh => ?_⟩
  · unfold writeSlot
    rw [Function.update_idem]
    exact hsame _ hr
  · simp only [hw, writeSlot_self, present_entryOf]
  · simp only [hw, writeSlot_self, frameOf_entryOf, frameOf_frameAddr]
  · have hne : i ≠ 1023 := by
      rintro rfl
      exact absurd hhigh (by decide)
    simp only [hw, writeSlot_of_slot_ne _ _ hne, Function.update_self]
    rw [hcopy i hlow hr, hs1.cr3]
    exact hs1.kept hr _ hr.nullDir hr.ownDir i (hr.tables i hlow hhigh).1

end Directory

end OsI386
