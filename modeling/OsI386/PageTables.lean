import OsI386.Paging

/-!
# A directory with a window, and the two updates that map a page

`Tables` says what keeps the regions of an address space apart: the directory shows itself in
its last entry, and no two regions share a page table. Then adding an empty table changes the
translation of no page, and setting an entry changes that of one page only, so the address
space is a finite map and mapping a page is an update of it.
-/
namespace OsI386

/-- The last entry of the directory points to the directory. -/
structure Window (m : Phys) (cr3 : FrameNo) : Prop where
  present : present (m cr3 1023) = true
  frame : frameOf (m cr3 1023) = cr3

/-- The regions `R` of an address space have page tables of their own. -/
structure Tables (m : Phys) (cr3 : FrameNo) (R : Slot → Prop) : Prop where
  window : Window m cr3
  notWindow : ¬ R 1023
  notDir : ∀ i, R i → present (m cr3 i) = true → frameOf (m cr3 i) ≠ cr3
  inj : ∀ i j, R i → R j → present (m cr3 i) = true → present (m cr3 j) = true →
    frameOf (m cr3 i) = frameOf (m cr3 j) → i = j

/-- Put an empty page table, the frame of `e`, into slot `i` of the directory. -/
def addTable (m : Phys) (cr3 : FrameNo) (i : Slot) (e : Word) : Phys :=
  Function.update (writeSlot m cr3 i e) (frameOf e) fun _ => 0

/-- Set the page table entry of page `v`. -/
def setEntry (m : Phys) (cr3 : FrameNo) (v e : Word) : Phys :=
  writeSlot m (frameOf (m cr3 (pdeIdx v))) (pteIdx v) e

variable {m : Phys} {cr3 : FrameNo} {R : Slot → Prop} {v w e : Word} {i : Slot}

@[simp] lemma not_present_zero : present 0#32 = false := rfl

/-- The page number is the two indices. -/
lemma eq_of_idx (hv : v.toNat % 4096 = 0) (hw : w.toNat % 4096 = 0)
    (hd : pdeIdx v = pdeIdx w) (ht : pteIdx v = pteIdx w) : v = w := by
  have h1 := congrArg BitVec.toNat hd
  have h2 := congrArg BitVec.toNat ht
  rw [toNat_pdeIdx, toNat_pdeIdx] at h1
  rw [toNat_pteIdx, toNat_pteIdx] at h2
  apply BitVec.eq_of_toNat_eq
  omega

/-- Through the window the walk ends one level early. -/
lemma Window.translate (h : Window m cr3) (hv : pdeIdx v = 1023) :
    translate m cr3 v =
      if OsI386.present (m cr3 (pteIdx v)) then some (frameOf (m cr3 (pteIdx v))) else none := by
  simp only [OsI386.translate, hv, h.present, h.frame, if_true]

/-- A directory with the same last entry has a window. -/
lemma Window.of_last {m' : Phys} (h : Window m cr3) (he : m' cr3 1023 = m cr3 1023) :
    Window m' cr3 where
  present := he ▸ h.present
  frame := he ▸ h.frame

/-- The window is no region without a page table. -/
lemma Window.ne_of_absent (h : Window m cr3) (hz : OsI386.present (m cr3 i) = false) :
    (1023 : Slot) ≠ i := by
  intro he
  rw [← he, h.present] at hz
  exact Bool.false_ne_true hz.symm

lemma Window.writeSlot (h : Window m cr3) (hi : (1023 : Slot) ≠ i) (f : FrameNo) (e : Word) :
    Window (writeSlot m f i e) cr3 :=
  h.of_last (writeSlot_of_slot_ne m e hi cr3)

lemma Tables.mono {S : Slot → Prop} (h : Tables m cr3 R) (hs : ∀ i, S i → R i) :
    Tables m cr3 S where
  window := h.window
  notWindow hw := h.notWindow (hs _ hw)
  notDir i hi := h.notDir i (hs i hi)
  inj i j hi hj := h.inj i j (hs i hi) (hs j hj)

section AddTable

lemma addTable_dir (hf : frameOf e ≠ cr3) (j : Slot) :
    addTable m cr3 i e cr3 j = if j = i then e else m cr3 j := by
  rw [addTable, Function.update_of_ne hf.symm]
  split_ifs with h
  · rw [h, writeSlot_self]
  · exact writeSlot_of_slot_ne m e h cr3

lemma addTable_table : addTable m cr3 i e (frameOf e) = fun _ => 0 :=
  Function.update_self _ _ _

lemma addTable_other {f : FrameNo} (hc : f ≠ cr3) (hf : f ≠ frameOf e) :
    addTable m cr3 i e f = m f := by
  rw [addTable, Function.update_of_ne hf, writeSlot_of_frame_ne m i e hc]

lemma Window.addTable (h : Window m cr3) (hi : (1023 : Slot) ≠ i) (hf : frameOf e ≠ cr3) :
    Window (addTable m cr3 i e) cr3 :=
  h.of_last ((addTable_dir hf 1023).trans (if_neg hi))

/-- The frame of `e` is no page table of the regions. -/
def NoTable (m : Phys) (cr3 : FrameNo) (R : Slot → Prop) (f : FrameNo) : Prop :=
  f ≠ cr3 ∧ ∀ i, R i → present (m cr3 i) = true → frameOf (m cr3 i) ≠ f

lemma NoTable.addTable {f : FrameNo} (h : NoTable m cr3 R f) (he : frameOf e ≠ cr3)
    (hne : frameOf e ≠ f) : NoTable (addTable m cr3 i e) cr3 R f := by
  refine ⟨h.1, fun j hj hp => ?_⟩
  rw [addTable_dir he] at hp ⊢
  split_ifs at hp ⊢
  · exact hne
  · exact h.2 j hj hp

lemma Tables.addTable (h : Tables m cr3 R) (hi : R i) (hf : NoTable m cr3 R (frameOf e)) :
    Tables (addTable m cr3 i e) cr3 R := by
  have hslot : (1023 : Slot) ≠ i := fun he => h.notWindow (he ▸ hi)
  have hdir := addTable_dir (m := m) (i := i) hf.1
  constructor
  case window => exact h.window.addTable hslot hf.1
  case notWindow => exact h.notWindow
  case notDir =>
    intro j hj hp
    rw [hdir] at hp ⊢
    split_ifs at hp ⊢ with hji
    · exact hf.1
    · exact h.notDir j hj hp
  case inj =>
    intro j k hj hk hpj hpk he
    rw [hdir] at hpj he
    rw [hdir] at hpk he
    split_ifs at hpj hpk he with hji hki hki
    · rw [hji, hki]
    · exact absurd he.symm (hf.2 k hk hpk)
    · exact absurd he (hf.2 j hj hpj)
    · exact h.inj j k hj hk hpj hpk he

/-- An empty table where there was none maps nothing. -/
lemma Tables.translate_addTable (h : Tables m cr3 R) (hnew : present (m cr3 i) = false)
    (hf : NoTable m cr3 R (frameOf e)) (hw : R (pdeIdx w)) :
    translate (OsI386.addTable m cr3 i e) cr3 w = translate m cr3 w := by
  have hdir := addTable_dir (m := m) (i := i) hf.1
  simp only [translate, hdir]
  by_cases hwi : pdeIdx w = i
  · simp [hwi, hnew, addTable_table]
  · rw [if_neg hwi]
    by_cases hp : present (m cr3 (pdeIdx w)) = true
    · rw [addTable_other (h.notDir _ hw hp) (hf.2 _ hw hp)]
    · simp [hp]

end AddTable

section SetEntry

lemma Tables.setEntry_dir (h : Tables m cr3 R) (hv : R (pdeIdx v))
    (hp : present (m cr3 (pdeIdx v)) = true) (j : Slot) :
    setEntry m cr3 v e cr3 j = m cr3 j := by
  rw [setEntry, writeSlot_of_frame_ne m _ e (h.notDir _ hv hp).symm]

lemma Tables.setEntry (h : Tables m cr3 R) (hv : R (pdeIdx v))
    (hp : present (m cr3 (pdeIdx v)) = true) : Tables (setEntry m cr3 v e) cr3 R := by
  have hdir := h.setEntry_dir (e := e) hv hp
  constructor
  case window => exact h.window.of_last (hdir 1023)
  case notWindow => exact h.notWindow
  case notDir => simpa only [hdir] using h.notDir
  case inj => simpa only [hdir] using h.inj

lemma Tables.noTable_setEntry {f : FrameNo} (h : Tables m cr3 R) (hv : R (pdeIdx v))
    (hp : present (m cr3 (pdeIdx v)) = true) (hf : NoTable m cr3 R f) :
    NoTable (OsI386.setEntry m cr3 v e) cr3 R f := by
  refine ⟨hf.1, fun j hj => ?_⟩
  rw [h.setEntry_dir hv hp]
  exact hf.2 j hj

/-- Setting an entry maps its own page and no other. -/
lemma Tables.translate_setEntry (h : Tables m cr3 R) (hv : R (pdeIdx v))
    (hp : present (m cr3 (pdeIdx v)) = true) (he : present e = true) (hw : R (pdeIdx w))
    (hva : v.toNat % 4096 = 0) (hwa : w.toNat % 4096 = 0) :
    translate (OsI386.setEntry m cr3 v e) cr3 w =
      if w = v then some (frameOf e) else translate m cr3 w := by
  have hdir := h.setEntry_dir (e := e) hv hp
  simp only [translate, hdir]
  by_cases hwv : w = v
  · simp [hwv, hp, OsI386.setEntry, he]
  rw [if_neg hwv]
  by_cases hpw : present (m cr3 (pdeIdx w)) = true
  · have hslot : OsI386.setEntry m cr3 v e (frameOf (m cr3 (pdeIdx w))) (pteIdx w) =
        m (frameOf (m cr3 (pdeIdx w))) (pteIdx w) := by
      by_cases hd : pdeIdx w = pdeIdx v
      · have ht : pteIdx w ≠ pteIdx v := fun ht => hwv (eq_of_idx hwa hva hd ht)
        exact writeSlot_of_slot_ne m e ht _
      · have hf : frameOf (m cr3 (pdeIdx w)) ≠ frameOf (m cr3 (pdeIdx v)) :=
          fun hf => hd (h.inj _ _ hw hv hpw hp hf)
        exact congrFun (writeSlot_of_frame_ne m _ e hf) _
    rw [hslot]
  · simp [hpw]

end SetEntry

end OsI386
