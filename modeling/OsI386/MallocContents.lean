import OsI386.MallocFailure
import OsI386.PageWalk

/-!
# What `user_pages_malloc` leaves in memory

Each round of the loop takes the first free frame of the user's pool and writes a directory
entry, if its region has none, and one entry of a page table. Regions that come after the last
free frame of the kernel's pool all get the frame at address 0 for their table, and each of
them clears what the one before has entered there.
-/
namespace OsI386
open Prog

section Frames

variable {b : Bitmap} {i : ℕ} {l : List ℕ}

/-- The bits that are clear, in the order `bitmap_scan` finds them. -/
def clearBits (b : Bitmap) : List ℕ := (List.range b.bitNum).filter fun i => !b.bit i

lemma mem_clearBits : i ∈ clearBits b ↔ FreeBit b i := by
  simp [clearBits, FreeBit]

lemma clearBits_pairwise (b : Bitmap) : (clearBits b).Pairwise (· < ·) :=
  List.pairwise_lt_range.filter _

lemma length_clearBits (b : Bitmap) : (clearBits b).length = freeFrames b := by
  have hset : freeBits b = (clearBits b).toFinset := by
    ext j
    rw [mem_freeBits, List.mem_toFinset, mem_clearBits]
  have hnodup : (clearBits b).Nodup := (clearBits_pairwise b).imp ne_of_lt
  rw [freeFrames, hset, List.toFinset_card_of_nodup hnodup]

lemma clearBits_bitmapSet (h : clearBits b = i :: l) : clearBits (bitmapSet b i) = l := by
  have hfilter : clearBits (bitmapSet b i) = (clearBits b).filter (· ≠ i) := by
    simp only [clearBits, bitmapSet_bitNum, bit_bitmapSet, List.filter_filter]
    congr 1
    funext j
    by_cases hj : j = i <;> simp [hj]
  have hsorted := clearBits_pairwise b
  rw [h, List.pairwise_cons] at hsorted
  rw [hfilter, h, List.filter_cons_of_neg (by simp), List.filter_eq_self]
  intro j hj
  have := hsorted.1 j hj
  simpa using this.ne'

lemma bitmapScan_clearBits (h : clearBits b = i :: l) (hb : b.bitNum ≤ 2 ^ 31) :
    bitmapScan b 0 1 = i := by
  have hfree : FreeBit b i := mem_clearBits.mp (h ▸ List.mem_cons_self)
  have hsorted := clearBits_pairwise b
  rw [h, List.pairwise_cons] at hsorted
  rcases @bitmapScan_spec b 0 1 le_rfl hb with ⟨j, hrun, hleast, hscan⟩ | ⟨hnone, _⟩
  · have hj : j ∈ i :: l := h ▸ mem_clearBits.mpr ((runAt_one_iff _ j).mp hrun)
    rcases List.mem_cons.mp hj with rfl | hj
    · exact hscan
    · exact absurd ((runAt_one_iff _ i).mpr hfree) (hleast i (hsorted.1 j hj))
  · exact absurd ((runAt_one_iff _ i).mpr hfree) (hnone i)

/-- The frames of the user's pool that are free, in the order they are taken. -/
def freeUserFrames (s : MemState) : List Word :=
  (clearBits (s.btmp .userPhy)).map (s.pageAddr .userPhy)

/-- The pages of a range with the frames taken for them. -/
def pageFrames (s : MemState) (v : Word) (cnt : ℕ) : List (Word × Word) :=
  (pagesFrom v cnt).zip (freeUserFrames s)

/-- Frames that page tables are taken from. -/
def KernelFree (s : MemState) (f : FrameNo) : Prop :=
  ∃ i, FreeBit (s.btmp .kernelPhy) i ∧ f = frameOf (s.pageAddr .kernelPhy i)

lemma KernelFree.freeFrame {s : MemState} {f : FrameNo} (h : KernelFree s f) : FreeFrame s f := by
  obtain ⟨i, hi, hf⟩ := h
  exact ⟨.kernel, i, hi, hf⟩

lemma length_pagesFrom (v : Word) (cnt : ℕ) : (pagesFrom v cnt).length = cnt := by
  induction cnt generalizing v with
  | zero => rfl
  | succ cnt ih => rw [pagesFrom, List.length_cons, ih]

/-- With enough frames every page has one. -/
lemma exists_pageFrame {s : MemState} {v w : Word} {cnt : ℕ} (hn : cnt ≤ (freeUserFrames s).length)
    (hw : w ∈ pagesFrom v cnt) : ∃ a, (w, a) ∈ pageFrames s v cnt := by
  have hfst : (pageFrames s v cnt).map Prod.fst = pagesFrom v cnt :=
    List.map_fst_zip (by rwa [length_pagesFrom])
  rw [← hfst] at hw
  obtain ⟨⟨u, a⟩, hx, rfl⟩ := List.mem_map.mp hw
  exact ⟨a, hx⟩

end Frames

section Rounds

/-- The regions of a range without a page table, in the order the loop comes to them. -/
def missingRegions (d : Slot → Bool) (v : Word) : ℕ → List Slot
  | 0 => []
  | cnt + 1 => (if d (pdeIdx v) then [] else [pdeIdx v]) ++
      missingRegions (Function.update d (pdeIdx v) true) (v + 4096) cnt

/-- The regions whose page table `paddr_get` has no frame for. -/
def nullRegions (s : MemState) (v : Word) (cnt : ℕ) : List Slot :=
  (missingRegions (dirPresent s) v cnt).drop (freeFrames (s.btmp .kernelPhy))

def tableOf (s : MemState) (i : Slot) : FrameNo := frameOf (s.phys s.cr3 i)

/-- The region has the frame at address 0 for its page table. -/
def NullTable (s : MemState) (i : Slot) : Prop := dirPresent s i = true ∧ tableOf s i = 0

/-- `v2p_mapping` of `v` writes the entry of `v`, after it has cleared a new page table. -/
structure TableWrites (s : MemState) (v a : Word) (s' : MemState) : Prop where
  same : SameShape s s'
  dir : dirPresent s' = Function.update (dirPresent s) (pdeIdx v) true
  count : freeFrames (s'.btmp .kernelPhy) =
    freeFrames (s.btmp .kernelPhy) - if dirPresent s (pdeIdx v) then 0 else 1
  free : ∀ f, KernelFree s' f → KernelFree s f
  tables : ∀ i, i ≠ pdeIdx v ∨ dirPresent s i = true → tableOf s' i = tableOf s i
  notDir : tableOf s' (pdeIdx v) ≠ s.cr3
  newTable : dirPresent s (pdeIdx v) = false →
    freeFrames (s.btmp .kernelPhy) = 0 ∧ tableOf s' (pdeIdx v) = 0 ∨
    freeFrames (s.btmp .kernelPhy) ≠ 0 ∧ KernelFree s (tableOf s' (pdeIdx v)) ∧
      ¬ KernelFree s' (tableOf s' (pdeIdx v))
  slots : ∀ f q, f ≠ s.cr3 → s'.phys f q =
    if f = tableOf s' (pdeIdx v) then
      if q = pteIdx v then entryOf a else if dirPresent s (pdeIdx v) then s.phys f q else 0
    else s.phys f q

/-- One round of the loop, which takes the frame at `a` for page `v`. -/
structure Round (s : MemState) (v a : Word) (s' : MemState) : Prop
    extends TableWrites s v a s' where
  frames : freeUserFrames s = a :: freeUserFrames s'

variable {s s1 s' : MemState} {v a : Word} {cnt i : ℕ}

lemma slots_setEntry {m : Phys} {cr3 : FrameNo} {e : Word} (f : FrameNo) (q : Slot) :
    setEntry m cr3 v e f q =
      if f = frameOf (m cr3 (pdeIdx v)) ∧ q = pteIdx v then e else m f q := by
  unfold setEntry
  split_ifs with h
  · rw [h.1, h.2, writeSlot_self]
  · by_cases hf : f = frameOf (m cr3 (pdeIdx v))
    · exact writeSlot_of_slot_ne m e (fun hq => h ⟨hf, hq⟩) f
    · rw [writeSlot_of_frame_ne m _ e hf]

lemma slots_addTable {m : Phys} {cr3 f : FrameNo} {e : Word} {j : Slot} (hf : f ≠ cr3)
    (q : Slot) : addTable m cr3 j e f q = if f = frameOf e then 0 else m f q := by
  split_ifs with h
  · rw [h, addTable_table]
  · rw [addTable_other hf h]

/-- The entry is written to a page table `T` that is not the directory. -/
lemma tableOf_setEntry {m : Phys} {e : Word} (hcr3 : s'.cr3 = s.cr3)
    (hphys : s'.phys = setEntry m s.cr3 v e) (hT : frameOf (m s.cr3 (pdeIdx v)) ≠ s.cr3)
    (i : Slot) : tableOf s' i = frameOf (m s.cr3 i) := by
  rw [tableOf, hcr3, hphys, slots_setEntry, if_neg fun h => hT h.1.symm]

/-- What `v2p_mapping` has done, with the frame `paddr_get` gave it for a page table. -/
lemma LoopReady.v2pMapping_state {tr : List MemLabel} (h : LoopReady s v (cnt + 1))
    (hr : (OsI386.v2pMapping v a).Runs s tr s' ()) :
    dirPresent s (pdeIdx v) = true ∧
      s' = { s with phys := setEntry s.phys s.cr3 v (entryOf a) } ∨
    dirPresent s (pdeIdx v) = false ∧ ∃ s1 t, s1.cr3 = s.cr3 ∧ frameOf t ≠ s.cr3 ∧
      s' = { s1 with
        phys := setEntry (addTable s.phys s.cr3 (pdeIdx v) (entryOf t)) s.cr3 v (entryOf a) } ∧
      ((∃ j, FreeBit (s.btmp .kernelPhy) j ∧ s1 = s.takeFrame .kernel j ∧
          t = s.pageAddr .kernelPhy j) ∨
        (∀ j, ¬ FreeBit (s.btmp .kernelPhy) j) ∧ s1 = s ∧ t = 0) := by
  obtain ⟨_, _, hnone⟩ := h.space.unmapped v List.mem_cons_self
  have hwin := h.space.tables.window
  by_cases hp : dirPresent s (pdeIdx v) = true
  · exact .inl ⟨hp, ((runs_v2pMapping_table a hwin hp hnone).det hr).1.symm⟩
  · rw [Bool.not_eq_true] at hp
    refine .inr ⟨hp, ?_⟩
    rcases h.space.paddrGet_cases .kernel with ⟨j, hj, _, hget⟩ | ⟨hfull, hget⟩
    · have hne := (h.space.owned _ ⟨.kernel, j, hj, rfl⟩).1
      obtain ⟨hcr3, hrun⟩ := runs_v2pMapping_absent a hwin hp hget hne
      exact ⟨_, _, hcr3, hne, (hrun.det hr).1.symm, .inl ⟨j, hj, rfl, rfl⟩⟩
    · have hne : frameOf 0 ≠ s.cr3 := h.nullDir.symm
      obtain ⟨hcr3, hrun⟩ := runs_v2pMapping_absent a hwin hp hget hne
      exact ⟨_, _, hcr3, hne, (hrun.det hr).1.symm, .inr ⟨hfull, rfl, rfl⟩⟩

lemma KernelFree.of_takeFrame {pf : PoolFlags} {j : ℕ} {f : FrameNo}
    (h : KernelFree (s.takeFrame pf j) f) : KernelFree s f := by
  obtain ⟨k, ⟨hk, hbit⟩, rfl⟩ := h
  have hsame := takeFrame_sameShape s pf j
  have hclear : ((s.takeFrame pf j).btmp (phyPool .kernel)).bit k = false := hbit
  rw [takeFrame_bit, Bool.or_eq_false_iff] at hclear
  rw [hsame.bitNum] at hk
  exact ⟨k, ⟨hk, hclear.2⟩, by rw [hsame.pageAddr]⟩

lemma LoopReady.tableWrites {tr : List MemLabel} (h : LoopReady s v (cnt + 1))
    (hr : (OsI386.v2pMapping v a).Runs s tr s' ()) (hstep : MapStep s v s') :
    TableWrites s v a s' := by
  have hR : ∃ w ∈ pagesFrom v (cnt + 1), pdeIdx w = pdeIdx v := ⟨v, List.mem_cons_self, rfl⟩
  rcases h.v2pMapping_state hr with ⟨hp, hs⟩ | ⟨hp, s1, t, hcr3, hne, hs, hget⟩
  · have hcr3 : s'.cr3 = s.cr3 := by rw [hs]
    have hphys : s'.phys = setEntry s.phys s.cr3 v (entryOf a) := by rw [hs]
    have hT : tableOf s (pdeIdx v) ≠ s.cr3 := h.space.tables.notDir _ hR hp
    have htable : ∀ j, tableOf s' j = tableOf s j := tableOf_setEntry hcr3 hphys hT
    constructor
    case same => exact hs ▸ SameShape.phys _
    case dir => exact hstep.dir
    case count => exact hstep.kernel
    case free => exact hs ▸ fun f hf => hf
    case tables => exact fun j _ => htable j
    case notDir => exact (htable _).symm ▸ hT
    case newTable =>
      intro habs
      rw [hp] at habs
      exact absurd habs.symm Bool.false_ne_true
    case slots =>
      intro f q _
      rw [hphys, slots_setEntry, htable, if_pos hp, ite_and]
      rfl
  · set m := addTable s.phys s.cr3 (pdeIdx v) (entryOf t) with hm
    have hcr3' : s'.cr3 = s.cr3 := by rw [hs, hcr3]
    have hphys : s'.phys = setEntry m s.cr3 v (entryOf a) := by rw [hs]
    rw [← frameOf_entryOf t] at hne
    have hdir := addTable_dir (m := s.phys) (i := pdeIdx v) hne
    have hpde : m s.cr3 (pdeIdx v) = entryOf t := (hdir _).trans (if_pos rfl)
    have htable : ∀ j, tableOf s' j = frameOf (m s.cr3 j) :=
      tableOf_setEntry hcr3' hphys (hpde ▸ hne)
    have hT : tableOf s' (pdeIdx v) = frameOf t := by rw [htable, hpde, frameOf_entryOf]
    constructor
    case same =>
      have hshape : SameShape s s1 := by
        rcases hget with ⟨j, _, rfl, _⟩ | ⟨_, rfl, _⟩
        · exact takeFrame_sameShape s .kernel j
        · exact SameShape.refl _
      exact hs ▸ hshape.trans (SameShape.phys _)
    case dir => exact hstep.dir
    case count => exact hstep.kernel
    case free =>
      intro f hf
      rw [hs] at hf
      have hf1 : KernelFree s1 f := hf
      rcases hget with ⟨j, _, rfl, _⟩ | ⟨_, rfl, _⟩
      · exact hf1.of_takeFrame
      · exact hf1
    case tables =>
      intro j hj
      have hjv : j ≠ pdeIdx v := by
        rintro rfl
        rw [hp] at hj
        simp at hj
      rw [htable, hm, hdir, if_neg hjv, tableOf]
    case notDir => rwa [htable, hpde]
    case newTable =>
      intro _
      rw [hT]
      rcases hget with ⟨j, hj, rfl, rfl⟩ | ⟨hfull, _, rfl⟩
      · have hpos : 0 < freeFrames (s.btmp .kernelPhy) := (freeFrames_bitmapSet hj).2
        refine .inr ⟨hpos.ne', ⟨j, hj, rfl⟩, fun hf => ?_⟩
        rw [hs] at hf
        have hf1 : KernelFree (s.takeFrame .kernel j) (frameOf (s.pageAddr .kernelPhy j)) := hf
        have hj1 : FreeBit (s.btmp (phyPool .kernel)) j := hj
        exact ((freeFrame_takeFrame h.space.geometry.phyPools hj1).mp hf1.freeFrame).2 rfl
      · exact .inl ⟨freeFrames_eq_zero hfull, rfl⟩
    case slots =>
      intro f q hf
      rw [hphys, slots_setEntry, hpde, hT, hp, hm, slots_addTable hf, frameOf_entryOf, ite_and]
      by_cases hft : f = frameOf t
      · simp only [if_pos hft, Bool.false_eq_true, if_false]
      · simp only [if_neg hft]

/-- The frame the loop takes for the page, and what `v2p_mapping` does with it. -/
lemma LoopReady.round {l : List ℕ} (h : LoopReady s v (cnt + 1))
    (hl : clearBits (s.btmp .userPhy) = i :: l) : ∃ tr s',
    (OsI386.v2pMapping v (s.pageAddr .userPhy i)).Runs (s.takeFrame .user i) tr s' () ∧
      LoopReady s' (v + 4096) cnt ∧ Round s v (s.pageAddr .userPhy i) s' := by
  have hi : FreeBit (s.btmp (phyPool .user)) i := mem_clearBits.mp (hl ▸ List.mem_cons_self)
  have htaken := h.takeFrame hi
  obtain ⟨tr, s', hrun, hnext, hstep⟩ := htaken.v2pMapping (a := s.pageAddr .userPhy i)
  have hwrites := htaken.tableWrites hrun hstep
  have hsame : SameShape s s' := (takeFrame_sameShape s .user i).trans hwrites.same
  have hkernel : (s.takeFrame .user i).btmp .kernelPhy = s.btmp .kernelPhy :=
    setBtmp_btmp_of_ne _ (by simp [phyPool])
  have huser : clearBits (s'.btmp .userPhy) = l := by
    have hset : (s.takeFrame .user i).btmp .userPhy = bitmapSet (s.btmp .userPhy) i :=
      setBtmp_btmp_self _
    rw [hstep.user, hset, clearBits_bitmapSet hl]
  have hframes : freeUserFrames s = s.pageAddr .userPhy i :: freeUserFrames s' := by
    rw [freeUserFrames, freeUserFrames, hl, huser, List.map_cons]
    congr 2
    funext j
    exact (hsame.pageAddr _ j).symm
  refine ⟨tr, s', hrun, hnext, ⟨⟨hsame, hwrites.dir, ?_, fun f hf => ?_, hwrites.tables,
    hwrites.notDir, fun habs => ?_, hwrites.slots⟩, hframes⟩⟩
  · rw [hwrites.count, hkernel]
    rfl
  · exact (hwrites.free f hf).of_takeFrame
  · have hnew := hwrites.newTable habs
    rw [hkernel] at hnew
    rcases hnew with hold | ⟨hpos, hfree, hno⟩
    · exact .inl hold
    · exact .inr ⟨hpos, hfree.of_takeFrame, hno⟩

end Rounds

section Loop

variable {s s1 s' : MemState} {v a w : Word} {cnt : ℕ} {f : FrameNo} {q r : Slot}

/-- The rounds of a loop that finds a frame for every page. -/
inductive Rounds : MemState → Word → ℕ → MemState → Prop
  | done (s : MemState) (v : Word) : Rounds s v 0 s
  | round {s s1 s' : MemState} {v a : Word} {cnt : ℕ} (ready : LoopReady s v (cnt + 1))
      (head : Round s v a s1) (rest : Rounds s1 (v + 4096) cnt s') : Rounds s v (cnt + 1) s'

/-- By induction on the pages left. -/
lemma mallocPages_rounds (start : Word) (h : LoopReady s v cnt)
    (hn : cnt ≤ (freeUserFrames s).length) : ∃ tr s',
    (mallocPages .userPhy start cnt v).Runs s tr s' start ∧ Rounds s v cnt s' := by
  induction cnt generalizing s v with
  | zero => exact ⟨[], s, Runs.ret start s, .done s v⟩
  | succ cnt ih =>
    rcases hl : clearBits (s.btmp .userPhy) with _ | ⟨i, l⟩
    · rw [freeUserFrames, hl] at hn
      exact absurd hn (Nat.not_succ_le_zero cnt)
    · obtain ⟨tr, s1, hmap, hready, hround⟩ := h.round hl
      rw [hround.frames, List.length_cons, Nat.succ_le_succ_iff] at hn
      obtain ⟨tr', s', hrest, hrounds⟩ := ih hready hn
      have hshape := h.space.geometry.phy .user
      have hi : i < (s.btmp (phyPool .user)).bitNum :=
        (mem_clearBits.mp (hl ▸ List.mem_cons_self)).1
      have hbits := hshape.bitNum_le le_rfl
      have hscan := bitmapScan_clearBits hl hbits
      have hget : (paddrGet .userPhy).Runs s _ (s.takeFrame .user i) _ :=
        runs_paddrGet_free (lt_of_lt_of_le hi hbits) hi hscan
      have hne : s.pageAddr .userPhy i ≠ 0 := pageAddr_ne_zero hshape le_rfl hi
      have hround' := hmap.bind (k := fun _ => mallocPages .userPhy start cnt (v + 4096)) hrest
      exact ⟨_, s', hget.bind (k := fun a => if a = 0 then (return 0) else do
        v2pMapping v a
        mallocPages .userPhy start cnt (v + 4096)) (by rw [if_neg hne]; exact hround'),
        .round h hround hrounds⟩

lemma mem_missingRegions {d : Slot → Bool} (h : r ∈ missingRegions d v cnt) : d r = false := by
  induction cnt generalizing d v with
  | zero => exact absurd h List.not_mem_nil
  | succ cnt ih =>
    rcases List.mem_append.mp h with h | h
    · split_ifs at h with hd
      · exact absurd h List.not_mem_nil
      · rw [List.mem_singleton.mp h]
        exact Bool.not_eq_true _ ▸ hd
    · have hrest := ih h
      by_cases hr : r = pdeIdx v
      · rw [hr, Function.update_self] at hrest
        exact absurd hrest.symm Bool.false_ne_true
      · rwa [Function.update_of_ne hr] at hrest

lemma mem_nullRegions (h : r ∈ nullRegions s v cnt) : dirPresent s r = false :=
  mem_missingRegions (List.mem_of_mem_drop h)

lemma Round.nullRegions (h : Round s v a s1) : OsI386.nullRegions s v (cnt + 1) =
    (if dirPresent s (pdeIdx v) = false ∧ freeFrames (s.btmp .kernelPhy) = 0 then [pdeIdx v]
      else []) ++ OsI386.nullRegions s1 (v + 4096) cnt := by
  have hcount := h.count
  unfold OsI386.nullRegions
  rw [missingRegions, h.dir, hcount]
  cases hd : dirPresent s (pdeIdx v) with
  | true => simp
  | false =>
    rcases Nat.eq_zero_or_pos (freeFrames (s.btmp .kernelPhy)) with hz | hpos
    · simp [hz]
    · obtain ⟨n, hn⟩ := Nat.exists_eq_succ_of_ne_zero hpos.ne'
      simp [hn]

/-- A region gets the frame at address 0 when the kernel's pool is empty. -/
lemma Round.nullTable_iff (h : Round s v a s1) (hready : LoopReady s v (cnt + 1)) :
    NullTable s1 r ↔ NullTable s r ∨
      r = pdeIdx v ∧ dirPresent s r = false ∧ freeFrames (s.btmp .kernelPhy) = 0 := by
  unfold NullTable
  by_cases hr : r = pdeIdx v
  · subst hr
    have hthere : dirPresent s1 (pdeIdx v) = true := by rw [h.dir, Function.update_self]
    cases hp : dirPresent s (pdeIdx v) with
    | true => simp [hthere, h.tables _ (.inr hp)]
    | false =>
      have hzero : ¬ FreeFrame s 0 := hready.space.geometry.phyPools.not_freeFrame_zero
      rcases h.newTable hp with ⟨hempty, htable⟩ | ⟨hpos, hfree, _⟩
      · simp [hthere, htable, hempty]
      · have hne : tableOf s1 (pdeIdx v) ≠ 0 := fun he => hzero (he ▸ hfree.freeFrame)
        refine iff_of_false (fun hnull => hne hnull.2) ?_
        rintro (hnull | ⟨_, _, hempty⟩)
        · exact Bool.false_ne_true hnull.1
        · exact hpos hempty
  · have hsame : dirPresent s1 r = dirPresent s r := by rw [h.dir, Function.update_of_ne hr]
    rw [hsame, h.tables _ (.inl hr)]
    simp [hr]

/-- When the loop is over, the frame at address 0 is the page table that the region of `w` has
entered its pages in. -/
def OwnsNull (s : MemState) (v : Word) (cnt : ℕ) (w : Word) : Prop :=
  match (nullRegions s v cnt).getLast? with
  | some r => pdeIdx w = r
  | none => NullTable s (pdeIdx w)

lemma ownsNull_of_nil (h : nullRegions s v cnt = []) :
    OwnsNull s v cnt w ↔ NullTable s (pdeIdx w) := by
  rw [OwnsNull, h]
  rfl

lemma ownsNull_of_last (h : (nullRegions s v cnt).getLast? = some r) :
    OwnsNull s v cnt w ↔ pdeIdx w = r := by
  rw [OwnsNull, h]

lemma LoopReady.not_nullTable (h : LoopReady s v (cnt + 1)) (hw : w ∈ pagesFrom v (cnt + 1))
    (hne : pdeIdx w ≠ pdeIdx v) : ¬ NullTable s (pdeIdx w) :=
  fun hnull => h.nullTable w hw hne hnull.1 hnull.2

lemma Round.ownsNull_iff (h : Round s v a s1) (hready : LoopReady s v (cnt + 1))
    (hw : w ∈ pagesFrom v (cnt + 1)) :
    OwnsNull s1 (v + 4096) cnt w ↔ OwnsNull s v (cnt + 1) w := by
  have hregions : OsI386.nullRegions s v (cnt + 1) = _ := h.nullRegions
  rcases hlast : (OsI386.nullRegions s1 (v + 4096) cnt).getLast? with _ | r
  · have hnil := List.getLast?_eq_none_iff.mp hlast
    rw [hnil, List.append_nil] at hregions
    rw [ownsNull_of_nil hnil, h.nullTable_iff hready]
    by_cases hnew : dirPresent s (pdeIdx v) = false ∧ freeFrames (s.btmp .kernelPhy) = 0
    · rw [if_pos hnew] at hregions
      have hone : (OsI386.nullRegions s v (cnt + 1)).getLast? = some (pdeIdx v) := by
        rw [hregions]
        rfl
      rw [ownsNull_of_last hone]
      constructor
      · rintro (hnull | ⟨hv, _⟩)
        · by_contra hne
          exact hready.not_nullTable hw hne hnull
        · exact hv
      · intro hv
        exact .inr ⟨hv, hv ▸ hnew.1, hnew.2⟩
    · rw [if_neg hnew] at hregions
      rw [ownsNull_of_nil hregions]
      refine or_iff_left ?_
      rintro ⟨hv, hp, hempty⟩
      exact hnew ⟨hv ▸ hp, hempty⟩
  · have hlast' : (OsI386.nullRegions s v (cnt + 1)).getLast? = some r := by
      rw [hregions, List.getLast?_append, hlast]
      rfl
    rw [ownsNull_of_last hlast, ownsNull_of_last hlast']

/-- Once the region of `v` has the frame at address 0 for good, no later page is in another
region that has it. -/
lemma Round.ownsNull_head (h : Round s v a s1) (hready : LoopReady s v (cnt + 1))
    (hv : OwnsNull s v (cnt + 1) v) :
    OsI386.nullRegions s1 (v + 4096) cnt = [] ∧ tableOf s1 (pdeIdx v) = 0 ∧
      ∀ w ∈ pagesFrom v (cnt + 1), OwnsNull s v (cnt + 1) w → pdeIdx w = pdeIdx v := by
  rw [← h.ownsNull_iff hready List.mem_cons_self] at hv
  have hthere : dirPresent s1 (pdeIdx v) = true := by rw [h.dir, Function.update_self]
  rcases hlast : (OsI386.nullRegions s1 (v + 4096) cnt).getLast? with _ | r
  · have hnil := List.getLast?_eq_none_iff.mp hlast
    rw [ownsNull_of_nil hnil] at hv
    refine ⟨hnil, hv.2, fun w hw hown => ?_⟩
    rw [← h.ownsNull_iff hready hw, ownsNull_of_nil hnil, h.nullTable_iff hready] at hown
    by_contra hne
    rcases hown with hnull | ⟨he, _⟩
    · exact hready.not_nullTable hw hne hnull
    · exact hne he
  · rw [ownsNull_of_last hlast] at hv
    have habs := mem_nullRegions (List.mem_of_getLast? hlast)
    rw [← hv, hthere] at habs
    exact absurd habs.symm Bool.false_ne_true

/-- Pages of one region have different entries. -/
lemma LoopReady.pteIdx_ne (h : LoopReady s v (cnt + 1)) (hw : w ∈ pagesFrom (v + 4096) cnt)
    (hd : pdeIdx w = pdeIdx v) : pteIdx w ≠ pteIdx v := by
  intro ht
  have halignv := (h.space.unmapped v List.mem_cons_self).2.1
  have halignw := (h.space.unmapped w (List.mem_cons_of_mem v hw)).2.1
  obtain ⟨hnotin, _⟩ := List.nodup_cons.mp h.nodup
  have hwv : w = v := eq_of_idx halignw halignv hd ht
  rw [hwv] at hw
  exact hnotin hw

lemma Rounds.same (h : Rounds s v cnt s') : SameShape s s' := by
  induction h with
  | done s v => exact SameShape.refl s
  | round _ head _ ih => exact head.same.trans ih

/-- A directory entry that is there stays. -/
lemma Rounds.dir (h : Rounds s v cnt s') (hp : dirPresent s r = true) :
    dirPresent s' r = true ∧ tableOf s' r = tableOf s r := by
  induction h with
  | done s v => exact ⟨hp, rfl⟩
  | @round s s1 s' v a cnt _ head _ ih =>
    have hp1 : dirPresent s1 r = true := by
      rw [head.dir, Function.update_apply, hp, ite_self]
    obtain ⟨hp', htable⟩ := ih hp1
    exact ⟨hp', htable.trans (head.tables r (.inr hp))⟩

lemma Rounds.nullRegions (h : Rounds s v cnt s') (hr : r ∈ OsI386.nullRegions s v cnt) :
    NullTable s' r := by
  induction h with
  | done s v =>
    rw [OsI386.nullRegions, missingRegions, List.drop_nil] at hr
    exact absurd hr List.not_mem_nil
  | @round s s1 s' v a cnt ready head rest ih =>
    rw [head.nullRegions, List.mem_append] at hr
    rcases hr with hr | hr
    · split_ifs at hr with hnew
      · obtain rfl := List.mem_singleton.mp hr
        have hnull := (head.nullTable_iff ready).mpr (.inr ⟨rfl, hnew⟩)
        obtain ⟨hp, htable⟩ := rest.dir hnull.1
        exact ⟨hp, htable.trans hnull.2⟩
      · exact absurd hr List.not_mem_nil
    · exact ih hr

/-- The only slots written are those of the directory, of new page tables and of the entries of
the pages. -/
lemma Rounds.kept (h : Rounds s v cnt s') (hz : f ≠ 0) (hdir : f ≠ s.cr3)
    (hf : ¬ KernelFree s f)
    (hq : ∀ w ∈ pagesFrom v cnt, dirPresent s (pdeIdx w) = true → tableOf s (pdeIdx w) = f →
      pteIdx w ≠ q) : s'.phys f q = s.phys f q := by
  induction h with
  | done s v => rfl
  | @round s s1 s' v a cnt ready head rest ih =>
    have hnew : dirPresent s (pdeIdx v) = false → tableOf s1 (pdeIdx v) ≠ f := by
      intro hp he
      rcases head.newTable hp with ⟨_, hnull⟩ | ⟨_, hfree, _⟩
      · exact hz (he.symm.trans hnull)
      · exact hf (he ▸ hfree)
    have hhead : s1.phys f q = s.phys f q := by
      rw [head.slots f q hdir]
      cases hp : dirPresent s (pdeIdx v) with
      | false => rw [if_neg (hnew hp).symm]
      | true =>
        have htable := head.tables _ (.inr hp)
        have hslot := hq v List.mem_cons_self hp
        rw [htable]
        simp only [if_true]
        split_ifs with hT hpte
        · exact absurd hpte.symm (hslot hT.symm)
        · rfl
        · rfl
    rw [← hhead]
    refine ih (head.same.cr3 ▸ hdir) (fun hfree => hf (head.free f hfree)) ?_
    intro w hw hp1 htable
    have hmem : w ∈ pagesFrom v (cnt + 1) := List.mem_cons_of_mem v hw
    by_cases hold : pdeIdx w ≠ pdeIdx v ∨ dirPresent s (pdeIdx w) = true
    · refine hq w hmem ?_ ((head.tables _ hold).symm.trans htable)
      rcases hold with hne | hp
      · rwa [head.dir, Function.update_of_ne hne] at hp1
      · exact hp
    · obtain ⟨hv, hp⟩ := not_or.mp hold
      rw [not_not] at hv
      rw [hv, Bool.not_eq_true] at hp
      exact absurd (hv ▸ htable) (hnew hp)

/-- What the loop leaves in the frame at address 0, apart from the entries below. -/
lemma Rounds.zero_other (h : Rounds s v cnt s')
    (hq : ∀ w ∈ pagesFrom v cnt, OwnsNull s v cnt w → pteIdx w ≠ q) :
    s'.phys 0 q = if OsI386.nullRegions s v cnt = [] then s.phys 0 q else 0 := by
  induction h with
  | done s v => rw [if_pos (by rw [OsI386.nullRegions, missingRegions, List.drop_nil])]
  | @round s s1 s' v a cnt ready head rest ih =>
    have htail := ih fun w hw hown => hq w (List.mem_cons_of_mem v hw)
      ((head.ownsNull_iff ready (List.mem_cons_of_mem v hw)).mp hown)
    have hv : OwnsNull s v (cnt + 1) v ↔ OwnsNull s1 (v + 4096) cnt v :=
      (head.ownsNull_iff ready List.mem_cons_self).symm
    have hthere : dirPresent s1 (pdeIdx v) = true := by rw [head.dir, Function.update_self]
    have hiff := head.nullTable_iff ready (r := pdeIdx v)
    rw [htail, head.nullRegions]
    by_cases hnil : OsI386.nullRegions s1 (v + 4096) cnt = []
    · rw [ownsNull_of_nil hnil] at hv
      rw [if_pos hnil, hnil, List.append_nil, head.slots 0 q ready.nullDir.symm]
      by_cases hnull : NullTable s1 (pdeIdx v)
      · have hne := hq v List.mem_cons_self (hv.mpr hnull)
        rw [if_pos hnull.2.symm, if_neg hne.symm]
        rcases hiff.mp hnull with ⟨hp, _⟩ | ⟨_, hp, hempty⟩
        · simp [hp]
        · simp [hp, hempty]
      · have hT : 0 ≠ tableOf s1 (pdeIdx v) := fun he => hnull ⟨hthere, he.symm⟩
        have hnew : ¬ (dirPresent s (pdeIdx v) = false ∧ freeFrames (s.btmp .kernelPhy) = 0) :=
          fun h => hnull (hiff.mpr (.inr ⟨rfl, h⟩))
        rw [if_neg hT, if_neg hnew, if_pos rfl]
    · rw [if_neg hnil, if_neg fun he => hnil (List.append_eq_nil_iff.mp he).2]

lemma Round.pageFrames (h : Round s v a s1) :
    OsI386.pageFrames s v (cnt + 1) = (v, a) :: OsI386.pageFrames s1 (v + 4096) cnt := by
  rw [OsI386.pageFrames, h.frames, pagesFrom, List.zip_cons_cons, OsI386.pageFrames]

lemma mem_pages_of_pageFrames {x : Word × Word} (hx : x ∈ pageFrames s v cnt) :
    x.1 ∈ pagesFrom v cnt := (List.of_mem_zip hx).1

/-- The last region with the frame at address 0 for its table has its entries there. -/
lemma Rounds.zero_entry {x : Word × Word} (h : Rounds s v cnt s') (hx : x ∈ pageFrames s v cnt)
    (hown : OwnsNull s v cnt x.1) : s'.phys 0 (pteIdx x.1) = entryOf x.2 := by
  induction h with
  | done s v => exact absurd hx (by simp [pageFrames, pagesFrom])
  | @round s s1 s' v a cnt ready head rest ih =>
    have hiff := head.ownsNull_iff ready (mem_pages_of_pageFrames hx)
    rw [head.pageFrames] at hx
    rcases List.mem_cons.mp hx with rfl | hx
    · obtain ⟨hnil, htable, honly⟩ := head.ownsNull_head ready hown
      have hrest := rest.zero_other (q := pteIdx v) fun w hw hlater => by
        have hmem := List.mem_cons_of_mem v hw
        exact ready.pteIdx_ne hw (honly w hmem ((head.ownsNull_iff ready hmem).mp hlater))
      rw [hrest, if_pos hnil, head.slots 0 _ ready.nullDir.symm, if_pos htable.symm, if_pos rfl]
    · exact ih hx (hiff.mpr hown)

/-- The table of the region `v` is in now is no table of a later region. -/
lemma Round.table_inj (h : Round s v a s1) (hready : LoopReady s v (cnt + 1))
    (hnull : ¬ NullTable s1 (pdeIdx v)) (hw : w ∈ pagesFrom v (cnt + 1))
    (hp : dirPresent s1 (pdeIdx w) = true)
    (htable : tableOf s1 (pdeIdx w) = tableOf s1 (pdeIdx v)) : pdeIdx w = pdeIdx v := by
  by_contra hne
  have hold := h.tables _ (.inl hne)
  have hthere : dirPresent s1 (pdeIdx v) = true := by rw [h.dir, Function.update_self]
  rw [h.dir, Function.update_of_ne hne] at hp
  rw [hold] at htable
  cases hpv : dirPresent s (pdeIdx v) with
  | true =>
    rw [h.tables _ (.inr hpv)] at htable
    have hv : ∃ u ∈ pagesFrom v (cnt + 1), pdeIdx u = pdeIdx v := ⟨v, List.mem_cons_self, rfl⟩
    exact hne (hready.space.tables.inj _ _ ⟨w, hw, rfl⟩ hv hp hpv htable)
  | false =>
    rcases h.newTable hpv with ⟨_, hzero⟩ | ⟨_, hfree, _⟩
    · exact hnull ⟨hthere, hzero⟩
    · rw [← htable] at hfree
      exact (hready.space.owned _ hfree.freeFrame).2 _ ⟨w, hw, rfl⟩ hp rfl

/-- A page in any other region is entered in the region's own table. -/
lemma Rounds.own_entry {x : Word × Word} (h : Rounds s v cnt s') (hx : x ∈ pageFrames s v cnt)
    (hregion : pdeIdx x.1 ∉ OsI386.nullRegions s v cnt) (hnull : ¬ NullTable s (pdeIdx x.1)) :
    dirPresent s' (pdeIdx x.1) = true ∧
      s'.phys (tableOf s' (pdeIdx x.1)) (pteIdx x.1) = entryOf x.2 := by
  induction h with
  | done s v => exact absurd hx (by simp [OsI386.pageFrames, pagesFrom])
  | @round s s1 s' v a cnt ready head rest ih =>
    rw [head.nullRegions, List.mem_append, not_or] at hregion
    have hnull1 : ¬ NullTable s1 (pdeIdx x.1) := by
      rw [head.nullTable_iff ready]
      rintro (hold | ⟨hv, hnew⟩)
      · exact hnull hold
      · rw [hv, if_pos (hv ▸ hnew)] at hregion
        exact hregion.1 List.mem_cons_self
    rw [head.pageFrames] at hx
    rcases List.mem_cons.mp hx with rfl | hx
    · have hthere : dirPresent s1 (pdeIdx v) = true := by rw [head.dir, Function.update_self]
      obtain ⟨hp, htable⟩ := rest.dir hthere
      have hne : tableOf s1 (pdeIdx v) ≠ 0 := fun he => hnull1 ⟨hthere, he⟩
      have hfree : ¬ KernelFree s1 (tableOf s1 (pdeIdx v)) := by
        intro hfree
        cases hpv : dirPresent s (pdeIdx v) with
        | true =>
          have hold := (ready.space.owned _ (head.free _ hfree).freeFrame).2
          exact hold _ ⟨v, List.mem_cons_self, rfl⟩ hpv (head.tables _ (.inr hpv)).symm
        | false =>
          rcases head.newTable hpv with ⟨_, hzero⟩ | ⟨_, _, htaken⟩
          · exact hne hzero
          · exact htaken hfree
      refine ⟨hp, ?_⟩
      have hkept := rest.kept (q := pteIdx v) hne (head.same.cr3 ▸ head.notDir) hfree
        fun w hw hpw htw => ready.pteIdx_ne hw
          (head.table_inj ready hnull1 (List.mem_cons_of_mem v hw) hpw htw)
      rw [htable, hkept, head.slots _ _ head.notDir, if_pos rfl, if_pos rfl]
    · exact ih hx hregion.2 hnull1

end Loop

section Shown

variable {s s' : MemState} {v w : Word} {cnt : ℕ} {f : FrameNo}

/-- The page whose frame page `w` shows in the end: its own, or, where the region has the frame
at address 0 for its page table, that of the same entry in the last such region. -/
def ShownBy (s : MemState) (v : Word) (cnt : ℕ) (w u : Word) : Prop :=
  if pdeIdx w ∈ nullRegions s v cnt then
    (nullRegions s v cnt).getLast? = some (pdeIdx u) ∧ pteIdx u = pteIdx w
  else u = w

lemma translate_of_dirPresent (hp : dirPresent s (pdeIdx w) = true) :
    translate s.phys s.cr3 w =
      if present (s.phys (tableOf s (pdeIdx w)) (pteIdx w)) then
        some (frameOf (s.phys (tableOf s (pdeIdx w)) (pteIdx w)))
      else none := if_pos hp

lemma translate_of_entryOf {a : Word} (hp : dirPresent s (pdeIdx w) = true)
    (he : s.phys (tableOf s (pdeIdx w)) (pteIdx w) = entryOf a) :
    translate s.phys s.cr3 w = some (frameOf a) := by
  rw [translate_of_dirPresent hp, he, if_pos (present_entryOf a), frameOf_entryOf]

lemma Rounds.translate_null (h : Rounds s v cnt s') (hn : cnt ≤ (freeUserFrames s).length)
    (hnull : pdeIdx w ∈ OsI386.nullRegions s v cnt) :
    translate s'.phys s'.cr3 w = some f ↔
      ∃ x ∈ pageFrames s v cnt, (OsI386.nullRegions s v cnt).getLast? = some (pdeIdx x.1) ∧
        pteIdx x.1 = pteIdx w ∧ frameOf x.2 = f := by
  obtain ⟨hp, htable⟩ := h.nullRegions hnull
  obtain ⟨r, hlast⟩ := Option.ne_none_iff_exists'.mp
    (mt List.getLast?_eq_none_iff.mp (List.ne_nil_of_mem hnull))
  have hentry : ∀ x ∈ pageFrames s v cnt, pdeIdx x.1 = r → pteIdx x.1 = pteIdx w →
      translate s'.phys s'.cr3 w = some (frameOf x.2) := fun x hx hr hpte => by
    have hzero := h.zero_entry hx ((ownsNull_of_last hlast).mpr hr)
    exact translate_of_entryOf hp (by rw [htable, ← hpte, hzero])
  constructor
  · intro hw
    by_cases hex : ∃ u ∈ pagesFrom v cnt, pdeIdx u = r ∧ pteIdx u = pteIdx w
    · obtain ⟨u, hu, hr, hpte⟩ := hex
      obtain ⟨a, hx⟩ := exists_pageFrame hn hu
      have hwa := hentry _ hx hr hpte
      rw [hw] at hwa
      exact ⟨_, hx, by rw [hlast, hr], hpte, (Option.some.inj hwa).symm⟩
    · -- no page of the last region has the entry, which is still clear
      have hclear := h.zero_other (q := pteIdx w) fun u hu hown hpte =>
        hex ⟨u, hu, (ownsNull_of_last hlast).mp hown, hpte⟩
      rw [if_neg (List.ne_nil_of_mem hnull)] at hclear
      rw [translate_of_dirPresent hp, htable, hclear] at hw
      exact absurd hw (by simp)
  · rintro ⟨x, hx, hr, hpte, rfl⟩
    exact hentry x hx (Option.some.inj (hr.symm.trans hlast)) hpte

lemma Rounds.translate_iff (h : Rounds s v cnt s') (hn : cnt ≤ (freeUserFrames s).length)
    (hclean : ¬ NullTable s (pdeIdx w)) (hw : w ∈ pagesFrom v cnt) :
    translate s'.phys s'.cr3 w = some f ↔
      ∃ x ∈ pageFrames s v cnt, ShownBy s v cnt w x.1 ∧ frameOf x.2 = f := by
  by_cases hnull : pdeIdx w ∈ OsI386.nullRegions s v cnt
  · simp only [ShownBy, if_pos hnull, and_assoc]
    exact h.translate_null hn hnull
  · simp only [ShownBy, if_neg hnull]
    have hentry : ∀ x ∈ pageFrames s v cnt, x.1 = w →
        translate s'.phys s'.cr3 w = some (frameOf x.2) := by
      rintro x hx rfl
      obtain ⟨hp, he⟩ := h.own_entry hx hnull hclean
      exact translate_of_entryOf hp he
    constructor
    · intro hf
      obtain ⟨a, hx⟩ := exists_pageFrame hn hw
      have hwa := hentry _ hx rfl
      rw [hf] at hwa
      exact ⟨_, hx, rfl, (Option.some.inj hwa).symm⟩
    · rintro ⟨x, hx, hxw, rfl⟩
      exact hentry x hx hxw

/-- Nothing is written to the frames taken for pages. -/
lemma Rounds.contents {x : Word × Word} (h : Rounds s v cnt s') (hready : LoopReady s v cnt)
    (hx : x ∈ pageFrames s v cnt) : s'.phys (frameOf x.2) = s.phys (frameOf x.2) := by
  obtain ⟨i, hi, hxi⟩ := List.mem_map.mp (List.of_mem_zip hx).2
  have hbit : FreeBit (s.btmp (phyPool .user)) i := mem_clearBits.mp hi
  have hg := hready.space.geometry.phyPools
  have hfree : FreeFrame s (frameOf x.2) := ⟨.user, i, hbit, by rw [← hxi]; rfl⟩
  have hno := hready.space.owned _ hfree
  have hkernel : ¬ KernelFree s (frameOf x.2) := by
    rintro ⟨j, hj, he⟩
    have hj1 : FreeBit (s.btmp (phyPool .kernel)) j := hj
    rw [← hxi] at he
    have hpf : PoolFlags.user = .kernel := (hg.frame_inj hbit.1 hj1.1 he).1
    contradiction
  funext q
  refine h.kept (fun he => hg.not_freeFrame_zero (he ▸ hfree)) hno.1 hkernel ?_
  exact fun w hw hp htable => absurd htable (hno.2 _ ⟨w, hw, rfl⟩ hp)

end Shown

end OsI386
