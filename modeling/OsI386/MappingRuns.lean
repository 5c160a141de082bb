import OsI386.MemoryRuns
import OsI386.PageTables

/-!
# `v2p_mapping` run alone

The addresses of `pde_vaddr_get` and `pte_vaddr_get` lie in the window, where they name the
entries of the directory and of the page table. So a mapping is `setEntry`, after `addTable`
when the region has no page table yet.
-/
namespace OsI386
open Prog

section Addresses

variable (v : Word)

lemma toNat_pteVaddrGet : (pteVaddrGet v).toNat =
    0xffc00000 + v.toNat / 2 ^ 22 * 2 ^ 12 + v.toNat / 2 ^ 12 % 2 ^ 10 * 4 := by
  have hv := v.isLt
  have hbase : (0xffc00000 : Word).toNat = 0xffc00000 := rfl
  have hfour : (4 : Word).toNat = 4 := rfl
  rw [pteVaddrGet, BitVec.toNat_add, BitVec.toNat_add, BitVec.toNat_mul, BitVec.toNat_ushiftRight,
    BitVec.toNat_ushiftRight, toNat_and_pdeMask, toNat_and_pteMask, hbase, hfour,
    Nat.shiftRight_eq_div_pow, Nat.shiftRight_eq_div_pow]
  omega

lemma toNat_pdeVaddrGet : (pdeVaddrGet v).toNat = 0xfffff000 + v.toNat / 2 ^ 22 * 4 := by
  have hv := v.isLt
  have hbase : (0xfffff000 : Word).toNat = 0xfffff000 := rfl
  have hfour : (4 : Word).toNat = 4 := rfl
  rw [pdeVaddrGet, BitVec.toNat_add, BitVec.toNat_mul, BitVec.toNat_ushiftRight,
    toNat_and_pdeMask, hbase, hfour, Nat.shiftRight_eq_div_pow]
  omega

@[simp] lemma pdeIdx_pteVaddrGet : pdeIdx (pteVaddrGet v) = 1023 := by
  have hv := v.isLt
  apply BitVec.eq_of_toNat_eq
  rw [toNat_pdeIdx, toNat_pteVaddrGet]
  change _ = 1023
  omega

@[simp] lemma pteIdx_pteVaddrGet : pteIdx (pteVaddrGet v) = pdeIdx v := by
  have hv := v.isLt
  apply BitVec.eq_of_toNat_eq
  rw [toNat_pteIdx, toNat_pteVaddrGet, toNat_pdeIdx]
  omega

@[simp] lemma wordIdx_pteVaddrGet : wordIdx (pteVaddrGet v) = pteIdx v := by
  have hv := v.isLt
  apply BitVec.eq_of_toNat_eq
  rw [toNat_wordIdx, toNat_pteVaddrGet, toNat_pteIdx]
  omega

@[simp] lemma pdeIdx_pdeVaddrGet : pdeIdx (pdeVaddrGet v) = 1023 := by
  have hv := v.isLt
  apply BitVec.eq_of_toNat_eq
  rw [toNat_pdeIdx, toNat_pdeVaddrGet]
  change _ = 1023
  omega

@[simp] lemma pteIdx_pdeVaddrGet : pteIdx (pdeVaddrGet v) = 1023 := by
  have hv := v.isLt
  apply BitVec.eq_of_toNat_eq
  rw [toNat_pteIdx, toNat_pdeVaddrGet]
  change _ = 1023
  omega

@[simp] lemma wordIdx_pdeVaddrGet : wordIdx (pdeVaddrGet v) = pdeIdx v := by
  have hv := v.isLt
  apply BitVec.eq_of_toNat_eq
  rw [toNat_wordIdx, toNat_pdeVaddrGet, toNat_pdeIdx]
  omega

/-- The page of the window that shows the page table of `v`. -/
lemma pdeIdx_tablePage : pdeIdx (pteVaddrGet v &&& 0xfffff000) = 1023 := by
  have hv := v.isLt
  apply BitVec.eq_of_toNat_eq
  rw [toNat_pdeIdx, toNat_and_pageMask, toNat_pteVaddrGet]
  change _ = 1023
  omega

lemma pteIdx_tablePage : pteIdx (pteVaddrGet v &&& 0xfffff000) = pdeIdx v := by
  have hv := v.isLt
  apply BitVec.eq_of_toNat_eq
  rw [toNat_pteIdx, toNat_and_pageMask, toNat_pteVaddrGet, toNat_pdeIdx]
  omega

end Addresses

lemma present_iff (e : Word) : present e = true ↔ e &&& 1 ≠ 0 := by
  simp [present]

lemma not_present_iff (e : Word) : present e = false ↔ ¬ e &&& 1 ≠ 0 := by
  simp [present]

@[simp] lemma present_entryOf (paddr : Word) : present (entryOf paddr) = true := by
  rw [present_iff, entryOf]
  intro h
  have hbit := congrArg (BitVec.getLsbD · 0) h
  simp at hbit

@[simp] lemma frameOf_entryOf (paddr : Word) : frameOf (entryOf paddr) = frameOf paddr := by
  apply BitVec.eq_of_toNat_eq
  rw [toNat_frameOf, toNat_frameOf, entryOf, BitVec.toNat_or, BitVec.toNat_or, BitVec.toNat_or]
  simp only [← Nat.shiftRight_eq_div_pow, Nat.shiftRight_or_distrib]
  simp

/-- A new entry of the directory shows its frame as the page table's page of the window. -/
lemma Window.translate_tablePage {m : Phys} {d : FrameNo} {v pt : Word} (h : Window m d)
    (hentry : m d (pdeIdx v) = entryOf pt) :
    OsI386.translate m d (pteVaddrGet v &&& 0xfffff000) = some (frameOf pt) := by
  rw [h.translate (pdeIdx_tablePage v), pteIdx_tablePage, hentry, if_pos (present_entryOf pt),
    frameOf_entryOf]

section Runs

variable {s s1 : MemState} {v : Word}

lemma runs_loadAt {x w : Word} (h : loadWord s.phys s.cr3 x = some w) :
    (loadAt x).Runs s [] s w := runs_readOr h

lemma runs_storeAt {x w : Word} {f : FrameNo} (h : translate s.phys s.cr3 x = some f) :
    (storeAt x w).Runs s [] { s with phys := writeSlot s.phys f (wordIdx x) w } () := by
  apply runs_modifyOr
  simp [storeWord, h]

lemma runs_clearPage {x : Word} {f : FrameNo} (h : translate s.phys s.cr3 x = some f) :
    (clearPage x).Runs s [] { s with phys := Function.update s.phys f fun _ => 0 } () := by
  apply runs_modifyOr
  simp [h]

lemma translate_pdeVaddrGet (h : Window s.phys s.cr3) :
    translate s.phys s.cr3 (pdeVaddrGet v) = some s.cr3 := by
  rw [h.translate (by simp), pteIdx_pdeVaddrGet, if_pos h.present, h.frame]

lemma translate_pteVaddrGet (h : Window s.phys s.cr3)
    (hp : present (s.phys s.cr3 (pdeIdx v)) = true) :
    translate s.phys s.cr3 (pteVaddrGet v) = some (frameOf (s.phys s.cr3 (pdeIdx v))) := by
  rw [h.translate (by simp), pteIdx_pteVaddrGet, if_pos hp]

lemma runs_loadAt_pde (h : Window s.phys s.cr3) :
    (loadAt (pdeVaddrGet v)).Runs s [] s (s.phys s.cr3 (pdeIdx v)) := by
  apply runs_loadAt
  simp [loadWord, translate_pdeVaddrGet h]

lemma runs_loadAt_pte (h : Window s.phys s.cr3)
    (hp : present (s.phys s.cr3 (pdeIdx v)) = true) :
    (loadAt (pteVaddrGet v)).Runs s [] s
      (s.phys (frameOf (s.phys s.cr3 (pdeIdx v))) (pteIdx v)) := by
  apply runs_loadAt
  simp [loadWord, translate_pteVaddrGet h hp]

lemma runs_storeAt_pte {w : Word} (h : Window s.phys s.cr3)
    (hp : present (s.phys s.cr3 (pdeIdx v)) = true) :
    (storeAt (pteVaddrGet v) w).Runs s [] { s with phys := setEntry s.phys s.cr3 v w } () := by
  have hrun := runs_storeAt (w := w) (translate_pteVaddrGet h hp)
  rwa [wordIdx_pteVaddrGet] at hrun

/-- The last statements of `v2p_mapping`, on both of its branches. -/
lemma runs_setEntry {w : Word} (h : Window s.phys s.cr3)
    (hp : present (s.phys s.cr3 (pdeIdx v)) = true)
    (hz : present (s.phys (frameOf (s.phys s.cr3 (pdeIdx v))) (pteIdx v)) = false) :
    (do
      let pteVal ← loadAt (pteVaddrGet v)
      if pteVal &&& 1 ≠ 0 then .stop .panic else storeAt (pteVaddrGet v) w : MemProg Unit).Runs
      s [] { s with phys := setEntry s.phys s.cr3 v w } () := by
  apply Runs.bind_silent (runs_loadAt_pte h hp)
  rw [if_neg ((not_present_iff _).mp hz)]
  exact runs_storeAt_pte h hp

/-- `v2p_mapping` of a page whose region has a page table. -/
lemma runs_v2pMapping_table (paddr : Word) (h : Window s.phys s.cr3)
    (hp : present (s.phys s.cr3 (pdeIdx v)) = true) (hz : translate s.phys s.cr3 v = none) :
    (v2pMapping v paddr).Runs s [.map v paddr]
      { s with phys := setEntry s.phys s.cr3 v (entryOf paddr) } () := by
  have hpte : present (s.phys (frameOf (s.phys s.cr3 (pdeIdx v))) (pteIdx v)) = false := by
    simpa [translate, hp] using hz
  apply Runs.bind_label
  apply Runs.bind_silent (runs_loadAt_pde h)
  rw [if_pos ((present_iff _).mp hp)]
  apply Runs.bind_silent (runs_loadAt_pte h hp)
  rw [if_neg ((not_present_iff _).mp hpte)]
  exact runs_setEntry h hp hpte

/-- `v2p_mapping` of the first page of a region, whatever `paddr_get` returns for its page
table: `NULL` is taken for the frame at address 0. -/
lemma runs_v2pMapping_noTable (paddr : Word) {t : Word} {tr : List MemLabel} {R : Slot → Prop}
    (h : Tables s.phys s.cr3 R) (hv : R (pdeIdx v))
    (hp : present (s.phys s.cr3 (pdeIdx v)) = false)
    (hr : (paddrGet .kernelPhy).Runs s tr s1 t) (hphys : s1.phys = s.phys) (hcr3 : s1.cr3 = s.cr3)
    (hf : NoTable s.phys s.cr3 R (frameOf t)) :
    (v2pMapping v paddr).Runs s (.map v paddr :: tr)
      { s1 with
        phys := setEntry (addTable s.phys s.cr3 (pdeIdx v) (entryOf t)) s.cr3 v (entryOf paddr) }
      () := by
  apply Runs.bind_label
  apply Runs.bind_silent (runs_loadAt_pde h.window)
  rw [if_neg ((not_present_iff _).mp hp)]
  refine Runs.bind_end hr ?_
  rw [← hphys, ← hcr3] at h hp hf ⊢
  have hnew : NoTable s1.phys s1.cr3 R (frameOf (entryOf t)) := by rwa [frameOf_entryOf]
  have hslot : (1023 : Slot) ≠ pdeIdx v := fun he => h.notWindow (he ▸ hv)
  set m := writeSlot s1.phys s1.cr3 (pdeIdx v) (entryOf t) with hm
  have hdir : m s1.cr3 (pdeIdx v) = entryOf t := writeSlot_self _ _ _ _
  have hwin : Window m s1.cr3 := h.window.writeSlot hslot _ _
  have hpage : translate m s1.cr3 (pteVaddrGet v &&& 0xfffff000) = some (frameOf (entryOf t)) := by
    rw [hwin.translate_tablePage hdir, frameOf_entryOf]
  have hstore := runs_storeAt (w := entryOf t) (translate_pdeVaddrGet (v := v) h.window)
  rw [wordIdx_pdeVaddrGet, ← hm] at hstore
  have hclear := runs_clearPage (s := { s1 with phys := m }) hpage
  have hentry : addTable s1.phys s1.cr3 (pdeIdx v) (entryOf t) s1.cr3 (pdeIdx v) = entryOf t := by
    rw [addTable_dir hnew.1, if_pos rfl]
  have hempty : present (addTable s1.phys s1.cr3 (pdeIdx v) (entryOf t)
      (frameOf (addTable s1.phys s1.cr3 (pdeIdx v) (entryOf t) s1.cr3 (pdeIdx v)))
      (pteIdx v)) = false := by
    rw [hentry, addTable_table]
    exact not_present_zero
  have hthere : present (addTable s1.phys s1.cr3 (pdeIdx v) (entryOf t) s1.cr3 (pdeIdx v)) =
      true := by
    rw [hentry, present_entryOf]
  have hset := runs_setEntry (w := entryOf paddr) (v := v)
    (s := { s1 with phys := addTable s1.phys s1.cr3 (pdeIdx v) (entryOf t) })
    (h.addTable hv hnew).window hthere hempty
  exact hstore.bind_silent (hclear.bind_silent hset)

/-- The labels of the search for a page table's frame, however `v2p_mapping` goes on. -/
lemma mem_v2pMapping_noTable {paddr t : Word} {tr : List MemLabel} {x : MemLabel}
    (h : Window s.phys s.cr3) (hp : present (s.phys s.cr3 (pdeIdx v)) = false)
    (hr : (paddrGet .kernelPhy).Runs s tr s1 t) (hx : x ∈ tr) :
    x ∈ ((v2pMapping v paddr).run s).trace := by
  have hlabel : (label (.map v paddr) : MemProg Unit).Runs s [.map v paddr] s () := rfl
  refine hlabel.mem_bind_right ((runs_loadAt_pde h).mem_bind_right ?_)
  rw [if_neg ((not_present_iff _).mp hp)]
  exact hr.mem_bind hx _

/-- `addr_v2p` gives the address the MMU would. -/
lemma runs_addrV2p {f : FrameNo} (h : Window s.phys s.cr3)
    (ht : translate s.phys s.cr3 v = some f) :
    (addrV2p v).Runs s [] s (frameAddr f + (v &&& 0xfff)) := by
  have hp : present (s.phys s.cr3 (pdeIdx v)) = true := by
    by_contra hn
    simp [translate, hn] at ht
  have hpte : frameOf (s.phys (frameOf (s.phys s.cr3 (pdeIdx v))) (pteIdx v)) = f := by
    simp only [translate, hp, if_true] at ht
    split_ifs at ht
    exact Option.some.inj ht
  apply Runs.bind_silent (runs_loadAt_pte h hp)
  rw [and_pageMask, hpte]
  exact Runs.ret _ _

end Runs

end OsI386
