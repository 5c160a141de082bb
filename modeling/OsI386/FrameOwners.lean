import OsI386.Directories

/-!
# Whose frame is whose

Every frame in use belongs to one page directory, to the kernel or to its heap. A frame gets its
owner when it is mapped: the one of the frame its entry is written to.
-/
namespace OsI386
open Prog

section Rules

variable {s : MemState} {I : List MemLabel → MemState → Prop} {tr : List MemLabel}

/-- `paddr_get` passes two states. -/
lemma safe_paddrGet {p : PoolId} {Q : List MemLabel → MemState → Word → Prop}
    (hn : (s.btmp p).bitNum ≤ 2 ^ 31) (hs : ∀ t, I (tr ++ t) s)
    (hfull : (∀ i, ¬ FreeBit (s.btmp p) i) → Q (tr ++ [.scan p] ++ [.noFrame p]) s 0)
    (hfree : ∀ i t, FreeBit (s.btmp p) i →
      let s' := s.setBtmp p (bitmapSet (s.btmp p) i)
      I (tr ++ t) s' ∧ Q (tr ++ t) s' (s.pageAddr p i)) :
    (paddrGet p).Safe I Q tr s := by
  have h0 : I tr s := by simpa using hs []
  have h1 : I (tr ++ [.scan p]) s := hs _
  refine .label h0 (.bind (safe_bitmapScanAt h1 0 1) ?_)
  rintro _ s r _ ⟨rfl, rfl, rfl⟩
  rcases @bitmapScan_spec (s.btmp p) 0 1 le_rfl hn with ⟨i, hrun, -, hscan⟩ | ⟨hnone, hscan⟩
  · have hi : FreeBit (s.btmp p) i := (runAt_one_iff _ i).mp hrun
    have hlt := hi.1
    have hnat : (BitVec.ofInt 32 (i : ℤ)).toNat = i := by
      rw [BitVec.ofInt_natCast, BitVec.toNat_ofNat]
      omega
    have hne : ¬ (i : ℤ) = -1 := by omega
    rw [hscan, if_neg hne, hnat, ofInt_mul_pgSize]
    obtain ⟨hset, -⟩ := hfree i [.scan p] hi
    refine .bind (safe_bitmapSetAt (Bitmap.holds_of_lt hi.1) h1 hset) ?_
    rintro _ _ _ - ⟨rfl, rfl⟩
    rw [show BitVec.ofNat 32 (i * 4096) = s.pageAddr p i - (s.pool p).addrBase by
      simp [MemState.pageAddr]]
    refine .read (.label hset ?_)
    rw [setBtmp_addrBase, BitVec.sub_add_cancel, List.append_assoc]
    exact .ret (hfree i _ hi).1 (hfree i _ hi).2
  · rw [if_pos hscan]
    refine .label h1 (.ret ?_ (hfull fun i hi => hnone i ((runAt_one_iff _ i).mpr hi)))
    rw [List.append_assoc]
    exact hs _

/-- The end of `v2p_mapping`, on both of its branches. -/
lemma safe_storeEntry {v e : Word} {Q : List MemLabel → MemState → Unit → Prop}
    (hw : Window s.phys s.cr3) (hp : present (s.phys s.cr3 (pdeIdx v)) = true) (hs : I tr s)
    (hset : present (s.phys (frameOf (s.phys s.cr3 (pdeIdx v))) (pteIdx v)) = false →
      let s' := { s with phys := setEntry s.phys s.cr3 v e }
      I tr s' ∧ Q tr s' ()) :
    (do
      let pteVal ← loadAt (pteVaddrGet v)
      if pteVal &&& 1 ≠ 0 then .stop .panic else storeAt (pteVaddrGet v) e : MemProg Unit).Safe
      I Q tr s := by
  refine .readOr hs fun pteVal hload => ?_
  obtain ⟨f, hf, rfl⟩ := Option.map_eq_some_iff.mp hload
  rw [translate_pteVaddrGet hw hp, Option.some.injEq] at hf
  rw [wordIdx_pteVaddrGet]
  subst hf
  split_ifs with hbit
  · exact .stop hs
  refine .modifyOr hs fun x hx => ?_
  simp only [storeWord, translate_pteVaddrGet hw hp, wordIdx_pteVaddrGet, Option.map_some,
    Option.some.injEq] at hx
  exact hx ▸ hset ((not_present_iff _).mpr hbit)

/-- `v2p_mapping` sets one entry, or first adds a page table, for which it takes a frame. -/
lemma safe_v2pMapping {v a : Word} {Q : List MemLabel → MemState → Unit → Prop} (hr : Ready s)
    (hs : ∀ t, I (tr ++ t) s)
    (htable : present (s.phys s.cr3 (pdeIdx v)) = true →
      present (s.phys (frameOf (s.phys s.cr3 (pdeIdx v))) (pteIdx v)) = false → ∀ t,
      let s' := { s with phys := setEntry s.phys s.cr3 v (entryOf a) }
      I (tr ++ t) s' ∧ Q (tr ++ t) s' ())
    (hnew : present (s.phys s.cr3 (pdeIdx v)) = false → ∀ s1 pt t,
      (MemLabel.noFrame .kernelPhy ∈ t ∧ pt = 0 ∧ s1 = s ∨
        ∃ i, FreeBit (s.btmp .kernelPhy) i ∧ pt = s.pageAddr .kernelPhy i ∧
          s1 = s.takeFrame .kernel i) →
      let m₁ := writeSlot s.phys s.cr3 (pdeIdx v) (entryOf pt)
      let m₂ := addTable s.phys s.cr3 (pdeIdx v) (entryOf pt)
      let s' := { s1 with phys := setEntry m₂ s.cr3 v (entryOf a) }
      I (tr ++ t) s1 ∧ I (tr ++ t) { s1 with phys := m₁ } ∧ I (tr ++ t) { s1 with phys := m₂ } ∧
        I (tr ++ t) s' ∧ Q (tr ++ t) s' ()) :
    (v2pMapping v a).Safe I Q tr s := by
  have h0 : I tr s := by simpa using hs []
  have hpde : translate s.phys s.cr3 (pdeVaddrGet v) = some s.cr3 := translate_pdeVaddrGet hr.window
  refine .label h0 (.readOr (hs _) fun pdeVal hload => ?_)
  obtain ⟨d, hd, rfl⟩ := Option.map_eq_some_iff.mp hload
  obtain rfl := Option.some.inj (hpde.symm.trans hd)
  rw [wordIdx_pdeVaddrGet]
  split_ifs with hp
  · have hp := (present_iff _).mpr hp
    refine .readOr (hs _) fun pteVal _ => ?_
    split_ifs
    · exact .stop (hs _)
    exact safe_storeEntry hr.window hp (hs _) fun hz => htable hp hz _
  · have hz := (not_present_iff _).mpr hp
    have hnew := hnew hz
    refine .bind (P := fun t x pt => ∃ t', t = tr ++ t' ∧
      (MemLabel.noFrame .kernelPhy ∈ t' ∧ pt = 0 ∧ x = s ∨
        ∃ i, FreeBit (s.btmp .kernelPhy) i ∧ pt = s.pageAddr .kernelPhy i ∧
          x = s.takeFrame .kernel i)) ?_ ?_
    · refine safe_paddrGet ((hr.pools.shape .kernel).bitNum_le le_rfl) (fun t => ?_) (fun _ => ?_) ?_
      · rw [List.append_assoc]
        exact hs _
      · exact ⟨[.map v a, .scan .kernelPhy, .noFrame .kernelPhy], by simp, .inl ⟨by simp, rfl, rfl⟩⟩
      · intro i t hi
        rw [List.append_assoc]
        exact ⟨(hnew _ _ _ (.inr ⟨i, hi, rfl, rfl⟩)).1, _, rfl, .inr ⟨i, hi, rfl, rfl⟩⟩
    rintro _ s1 pt - ⟨t, rfl, hpt⟩
    obtain ⟨h1, h2, h3, h4⟩ := hnew s1 pt t hpt
    have hsame : s1.phys = s.phys ∧ s1.cr3 = s.cr3 := by
      rcases hpt with ⟨-, -, rfl⟩ | ⟨i, -, -, rfl⟩
      · exact ⟨rfl, rfl⟩
      · exact ⟨rfl, rfl⟩
    obtain ⟨hphys, hcr3⟩ := hsame
    have hne : frameOf pt ≠ s.cr3 := by
      rcases hpt with ⟨-, rfl, -⟩ | ⟨i, hi, rfl, -⟩
      · exact fun he => hr.nullDir he.symm
      · exact fun he => hr.ownDir (he ▸ ⟨.kernel, i, hi, rfl⟩)
    set m₁ := writeSlot s.phys s.cr3 (pdeIdx v) (entryOf pt) with hm₁
    set m₂ := addTable s.phys s.cr3 (pdeIdx v) (entryOf pt) with hm₂
    have hslot : (1023 : Slot) ≠ pdeIdx v := hr.window.ne_of_absent hz
    have hw₁ : Window m₁ s.cr3 := hr.window.writeSlot hslot _ _
    have hne' : frameOf (entryOf pt) ≠ s.cr3 := by rwa [frameOf_entryOf]
    have hdir : ∀ j, m₂ s.cr3 j = if j = pdeIdx v then entryOf pt else s.phys s.cr3 j :=
      fun j => addTable_dir hne' j
    have hw₂ : Window m₂ s.cr3 := hr.window.addTable hslot hne'
    have hentry : m₂ s.cr3 (pdeIdx v) = entryOf pt := by rw [hdir, if_pos rfl]
    -- the entry of the directory
    refine .bind (P := fun t' x _ => t' = tr ++ t ∧ x = { s1 with phys := m₁ }) (.modifyOr h1 ?_) ?_
    · intro x hx
      obtain ⟨m, hm, rfl⟩ := Option.map_eq_some_iff.mp hx
      have hstore : storeWord s1.phys s1.cr3 (pdeVaddrGet v) (entryOf pt) = some m₁ := by
        rw [hphys, hcr3, storeWord, hpde, wordIdx_pdeVaddrGet]
        rfl
      obtain rfl := Option.some.inj (hstore.symm.trans hm)
      exact ⟨h2, rfl, rfl⟩
    rintro _ _ _ - ⟨rfl, rfl⟩
    -- the page table, seen through that entry
    refine .bind (P := fun t' x _ => t' = tr ++ t ∧ x = { s1 with phys := m₂ }) (.modifyOr h2 ?_) ?_
    · intro x hx
      obtain ⟨f, hf, rfl⟩ := Option.map_eq_some_iff.mp hx
      have hpage : translate m₁ s1.cr3 (pteVaddrGet v &&& 0xfffff000) = some (frameOf pt) := by
        rw [hcr3]
        exact hw₁.translate_tablePage (writeSlot_self _ _ _ _)
      obtain rfl := Option.some.inj (hpage.symm.trans hf)
      have hclear : Function.update m₁ (frameOf pt) (fun _ => 0) = m₂ := by
        rw [hm₂, addTable, frameOf_entryOf]
      change I (tr ++ t) { s1 with phys := Function.update m₁ (frameOf pt) fun _ => 0 } ∧ _ ∧
        { s1 with phys := Function.update m₁ (frameOf pt) fun _ => 0 } = _
      rw [hclear]
      exact ⟨h3, rfl, rfl⟩
    rintro _ _ _ - ⟨rfl, rfl⟩
    have hp : present (m₂ s1.cr3 (pdeIdx v)) = true := by
      rw [hcr3, hentry, present_entryOf]
    have hw : Window m₂ s1.cr3 := hcr3 ▸ hw₂
    refine safe_storeEntry hw hp h3 fun _ => ?_
    have hset : setEntry m₂ s1.cr3 v (entryOf a) = setEntry m₂ s.cr3 v (entryOf a) := by rw [hcr3]
    change I (tr ++ t) { s1 with phys := setEntry m₂ s1.cr3 v (entryOf a) } ∧
      Q (tr ++ t) { s1 with phys := setEntry m₂ s1.cr3 v (entryOf a) } ()
    rw [hset]
    exact h4

end Rules

section Owners

/-- `free` frames are in a pool or just taken out of it, and `outside` ones in no pool. Under the
low half of the kernel's directory hang the `kernel` ones, under that of directory `d` those of
`process d`. -/
inductive Owner
  | free | outside | kernel | heap
  | process (d : FrameNo)

/-- The owner of a frame that is entered in frame `p`. -/
def Owner.child : Owner → FrameNo → Owner
  | .free, _ => .free
  | .outside, p => if p = 0x100 then .kernel else .heap
  | .kernel, _ => .kernel
  | .heap, p => .process p
  | .process d, _ => .process d

structure Owned (m : Phys) (own : FrameNo → Owner) (s : MemState) : Prop where
  free : ∀ f, FreeFrame s f → own f = .free
  low : ∀ f : FrameNo, f.toNat < 0x200 → own f = .outside
  zero : ∀ f i, own f = .free → s.phys f i = 0
  -- but for the loader's entries and the kernel half of directories
  entries : ∀ p i, present (s.phys p i) = true →
    own p = .outside ∧ s.phys p i = setupPage m p i ∨ own p = .heap ∧ 768 ≤ i.toNat ∨
      own (frameOf (s.phys p i)) = (own p).child p
  active : s.cr3 = 0x100 ∨ own s.cr3 = .heap
  dirs : ∀ t f, s.pgDir t ≠ 0 → translate s.phys 0x100 (s.pgDir t) = some f → own f = .heap
  inj : ∀ t u f, s.pgDir t ≠ 0 → s.pgDir u ≠ 0 → translate s.phys 0x100 (s.pgDir t) = some f →
    translate s.phys 0x100 (s.pgDir u) = some f → t = u

/-- A frame that was taken and not yet entered anywhere. -/
def Loose (own : FrameNo → Owner) (s : MemState) (f : FrameNo) : Prop :=
  own f = .free ∧ ¬ FreeFrame s f

variable {m : Phys} {own : FrameNo → Owner} {s s' : MemState} {p f : FrameNo} {i j : Slot}
  {a v w : Word}

lemma writeSlot_of_present {phys : Phys} (hz : present (phys p i) = false)
    (hp : present (phys f j) = true) : writeSlot phys p i w f j = phys f j := by
  by_cases hf : f = p
  · subst hf
    have hne : j ≠ i := by
      rintro rfl
      rw [hz] at hp
      exact Bool.false_ne_true hp
    exact writeSlot_of_slot_ne phys w hne f
  · exact congrFun (writeSlot_of_frame_ne phys i w hf) j

/-- Writing over an entry that is not present unmaps nothing. -/
lemma translate_writeSlot {phys : Phys} {d g : FrameNo} (hz : present (phys p i) = false)
    (hv : translate phys d v = some g) : translate (writeSlot phys p i w) d v = some g := by
  unfold translate at hv ⊢
  have hd : present (phys d (pdeIdx v)) = true := by
    by_contra hn
    simp [hn] at hv
  simp only [hd, if_true] at hv
  have ht : present (phys (frameOf (phys d (pdeIdx v))) (pteIdx v)) = true := by
    by_contra hn
    simp [hn] at hv
  simp only [ht, if_true] at hv
  simp only [writeSlot_of_present hz hd, hd, if_true, writeSlot_of_present hz ht, ht]
  exact hv

lemma Owned.not_free (h : Owned m own s) (hp : present (s.phys p i) = true) : own p ≠ .free := by
  intro hf
  rw [h.zero p i hf] at hp
  exact Bool.false_ne_true hp

lemma Owner.child_ne_free {o : Owner} (ho : o ≠ .free) : o.child p ≠ .free := by
  cases o with
  | free => exact absurd rfl ho
  | outside =>
    simp only [Owner.child]
    split_ifs <;> simp
  | kernel => simp [Owner.child]
  | heap => simp [Owner.child]
  | process d => simp [Owner.child]

/-- Bits and pools change, and no frame gets free. -/
lemma Owned.of_phys (h : Owned m own s) (hphys : s'.phys = s.phys) (hcr3 : s'.cr3 = s.cr3)
    (hdir : ∀ t, s'.pgDir t ≠ 0 → s'.pgDir t = s.pgDir t)
    (hfree : ∀ f, FreeFrame s' f → FreeFrame s f) : Owned m own s' where
  free f hf := h.free f (hfree f hf)
  low := h.low
  zero f i hf := by
    rw [hphys]
    exact h.zero f i hf
  entries := by
    rw [hphys]
    exact h.entries
  active := by
    rw [hcr3]
    exact h.active
  dirs t f ht := by
    have he := hdir t ht
    rw [hphys, he]
    exact h.dirs t f (he ▸ ht)
  inj t u f ht hu := by
    have het := hdir t ht
    have heu := hdir u hu
    rw [hphys, het, heu]
    exact h.inj t u f (het ▸ ht) (heu ▸ hu)

/-- The pool of user addresses and the directory of one thread change. -/
lemma Owned.setThread {task : ℕ} (h : Owned m own s) {q : PoolId → Pool} {e : ℕ → Word}
    (hq : ∀ p, p ≠ .userVir task → q p = s.pool p) (he : ∀ t, e t ≠ 0 → e t = s.pgDir t) :
    Owned m own { s with pool := q, pgDir := e } := by
  refine h.of_phys rfl rfl he fun f hf => ?_
  obtain ⟨pf, i, hi, rfl⟩ := hf
  have hpool : q (phyPool pf) = s.pool (phyPool pf) := hq _ (by cases pf <;> simp [phyPool])
  refine ⟨pf, i, ?_, ?_⟩
  · simpa only [MemState.btmp, hpool] using hi
  · simp only [MemState.pageAddr, hpool]

/-- A page is entered in frame `p`. -/
lemma Owned.store (h : Owned m own s) (hi : DirInv m s) (hp : own p ≠ .free)
    (hslot : own p = .heap → i.toNat < 768) (hz : present (s.phys p i) = false)
    (ha : Loose own s (frameOf a)) :
    Owned m (Function.update own (frameOf a) ((own p).child p))
      { s with phys := writeSlot s.phys p i (entryOf a) } := by
  set o := (own p).child p with ho
  have hnew : o ≠ .free := Owner.child_ne_free hp
  have hother : ∀ g, own g ≠ .free → Function.update own (frameOf a) o g = own g := by
    intro g hg
    have hne : g ≠ frameOf a := by
      rintro rfl
      exact hg ha.1
    exact Function.update_of_ne hne _ _
  have hwalk : ∀ t f, s.pgDir t ≠ 0 → translate (writeSlot s.phys p i (entryOf a)) 0x100 (s.pgDir t)
      = some f → translate s.phys 0x100 (s.pgDir t) = some f := by
    intro t f ht hf
    obtain ⟨g, hg⟩ := hi.threads t ht
    have hg' := translate_writeSlot (w := entryOf a) hz hg.walk
    rw [hg.walk, ← hf, hg']
  have hpe : Function.update own (frameOf a) o p = own p := hother p hp
  constructor
  case free =>
    intro g hg
    have hne : g ≠ frameOf a := fun he => ha.2 (he ▸ hg)
    rw [Function.update_of_ne hne]
    exact h.free g hg
  case low =>
    intro g hg
    have hout := h.low g hg
    rw [hother g (by simp [hout]), hout]
  case zero =>
    intro g j hg
    have hne : g ≠ frameOf a := by
      rintro rfl
      rw [Function.update_self] at hg
      exact hnew hg
    rw [Function.update_of_ne hne] at hg
    have hgp : g ≠ p := fun he => hp (he ▸ hg)
    change writeSlot s.phys p i (entryOf a) g j = 0
    rw [writeSlot_of_frame_ne _ _ _ hgp]
    exact h.zero g j hg
  case entries =>
    intro q j hq
    change present (writeSlot s.phys p i (entryOf a) q j) = true at hq
    change _ ∧ writeSlot s.phys p i (entryOf a) q j = _ ∨ _ ∨
      Function.update own (frameOf a) o (frameOf (writeSlot s.phys p i (entryOf a) q j)) = _
    by_cases hqj : q = p ∧ j = i
    · obtain ⟨rfl, rfl⟩ := hqj
      rw [writeSlot_self, frameOf_entryOf, Function.update_self, hpe]
      exact .inr (.inr rfl)
    have hsame : writeSlot s.phys p i (entryOf a) q j = s.phys q j := by
      by_cases hqp : q = p
      · subst hqp
        exact writeSlot_of_slot_ne _ _ (fun he => hqj ⟨rfl, he⟩) _
      · exact congrFun (writeSlot_of_frame_ne _ _ _ hqp) j
    rw [hsame] at hq ⊢
    have hqf := h.not_free hq
    rw [hother q hqf]
    refine (h.entries q j hq).imp id (Or.imp id fun hc => ?_)
    have hcf : own (frameOf (s.phys q j)) ≠ .free := hc ▸ Owner.child_ne_free hqf
    rw [hother _ hcf]
    exact hc
  case active =>
    refine h.active.imp id fun hheap => ?_
    change Function.update own (frameOf a) o s.cr3 = _
    rw [hother _ (by simp [hheap]), hheap]
  case dirs =>
    intro t f ht hf
    have hheap := h.dirs t f ht (hwalk t f ht hf)
    rw [hother _ (by simp [hheap]), hheap]
  case inj =>
    exact fun t u f ht hu hft hfu => h.inj t u f ht hu (hwalk t f ht hft) (hwalk u f hu hfu)

/-- The frame of the active directory is the kernel's or a page of the heap. -/
lemma Owned.active_ne_free (h : Owned m own s) : own s.cr3 ≠ .free ∧
    (own s.cr3).child s.cr3 ≠ .heap := by
  rcases h.active with h0 | hheap
  · have hout : own s.cr3 = .outside := h.low _ (by rw [h0]; decide)
    rw [hout]
    simp [Owner.child, h0]
  · rw [hheap]
    simp [Owner.child]

/-- A directory has all entries from 768 on. -/
lemma DirFrame.slot_low (hd : DirFrame m s f) (hz : present (s.phys f i) = false) :
    i.toNat < 768 := by
  by_contra hlow
  by_cases hlast : i = 1023
  · subst hlast
    rw [hd.window.present] at hz
    exact Bool.false_ne_true hz.symm
  · have hhigh : i.toNat < 1023 := by
      have hlt := i.isLt
      have hne : i.toNat ≠ 1023 := fun he => hlast (BitVec.eq_of_toNat_eq he)
      omega
    rw [hd.entries i (by omega) hhigh, (setupPage_kernel m (by omega) hhigh).1] at hz
    exact Bool.false_ne_true hz.symm

/-- The page tables of the kernel half belong to the loader. -/
lemma Owned.kernelTable (h : Owned m own s) (hd : DirFrame m s f) (hlow : 768 ≤ i.toNat)
    (hhigh : i.toNat < 1023) : own (frameOf (s.phys f i)) = .outside ∧
      frameOf (s.phys f i) ≠ 0x100 := by
  obtain ⟨-, hframe⟩ := setupPage_kernel m hlow hhigh
  rw [hd.entries i hlow hhigh]
  refine ⟨h.low _ (by omega), fun he => ?_⟩
  rw [he] at hframe
  change 0x100 = _ at hframe
  omega

/-- The frames the window shows: page tables, and the active directory. -/
lemma Owned.host (h : Owned m own s) (hd : DirFrame m s s.cr3)
    (hp : present (s.phys s.cr3 j) = true) : own (frameOf (s.phys s.cr3 j)) ≠ .free ∧
      (own (frameOf (s.phys s.cr3 j)) = .heap → frameOf (s.phys s.cr3 j) = s.cr3) := by
  obtain ⟨hfree, hheap⟩ := h.active_ne_free
  by_cases hlast : j = 1023
  · subst hlast
    rw [hd.window.frame]
    exact ⟨hfree, fun _ => rfl⟩
  have hhigh : j.toNat < 1023 := by
    have hlt := j.isLt
    have hne : j.toNat ≠ 1023 := fun he => hlast (BitVec.eq_of_toNat_eq he)
    omega
  by_cases hlow : 768 ≤ j.toNat
  · rw [(h.kernelTable hd hlow hhigh).1]
    simp
  rcases h.entries s.cr3 j hp with ⟨hout, hentry⟩ | ⟨-, hj⟩ | hc
  · -- the low page table of the loader
    have h0 : s.cr3 = 0x100 := h.active.resolve_right (by simp [hout])
    rw [hentry, h0] at hp ⊢
    have hj0 : j = 0 := by
      by_contra hne
      have hpos : 0 < j.toNat := Nat.pos_of_ne_zero fun he => hne (BitVec.eq_of_toNat_eq he)
      exact hlow (setupPage_present m hpos hhigh hp).2
    have hlow : own (frameOf (setupPage m 0x100 j)) = .outside := by
      rw [hj0]
      exact h.low _ (show (frameOf 0x101007).toNat < 0x200 by decide)
    rw [hlow]
    simp
  · exact absurd hj hlow
  · rw [hc]
    exact ⟨Owner.child_ne_free hfree, fun he => absurd he hheap⟩

/-- The upper half of a page of the heap is written, as in a new directory. -/
lemma Owned.rewrite (h : Owned m own s) (hi : DirInv m s) (hf : own f = .heap) {page : Slot → Word}
    (hpage : ∀ i : Slot, i.toNat < 768 → page i = s.phys f i) :
    Owned m own { s with phys := Function.update s.phys f page } := by
  have hwalk : ∀ t, s.pgDir t ≠ 0 → translate (Function.update s.phys f page) 0x100 (s.pgDir t) =
      translate s.phys 0x100 (s.pgDir t) := by
    intro t ht
    obtain ⟨g, hg⟩ := hi.threads t ht
    have hout := (h.kernelTable hi.kernel hg.low hg.high).1
    have hdir : (0x100 : FrameNo) ≠ f := by
      rintro rfl
      rw [h.low _ (by decide)] at hf
      cases hf
    have htable : frameOf (s.phys 0x100 (pdeIdx (s.pgDir t))) ≠ f := by
      intro he
      rw [he, hf] at hout
      cases hout
    simp only [translate, Function.update_of_ne hdir, Function.update_of_ne htable]
  constructor
  case free => exact h.free
  case low => exact h.low
  case active => exact h.active
  case zero =>
    intro g i hg
    have hne : g ≠ f := by
      rintro rfl
      rw [hf] at hg
      cases hg
    change Function.update s.phys f page g i = 0
    rw [Function.update_of_ne hne]
    exact h.zero g i hg
  case entries =>
    intro p i
    change present (Function.update s.phys f page p i) = true →
      _ ∧ Function.update s.phys f page p i = _ ∨ _ ∨
        own (frameOf (Function.update s.phys f page p i)) = _
    by_cases hp : p = f
    · subst hp
      rw [Function.update_self]
      by_cases hlow : i.toNat < 768
      · rw [hpage i hlow]
        exact h.entries p i
      · exact fun _ => .inr (.inl ⟨hf, by omega⟩)
    · rw [Function.update_of_ne hp]
      exact h.entries p i
  case dirs =>
    intro t g ht hg
    exact h.dirs t g ht (hwalk t ht ▸ hg)
  case inj =>
    intro t u g ht hu hgt hgu
    exact h.inj t u g ht hu (hwalk t ht ▸ hgt) (hwalk u hu ▸ hgu)

/-- A thread gets a directory that no other one has. -/
lemma Owned.setDir {task : ℕ} {d : Word} (h : Owned m own s)
    (hd : d ≠ 0 → ∀ f, translate s.phys 0x100 d = some f → own f = .heap ∧
      ∀ t, s.pgDir t ≠ 0 → translate s.phys 0x100 (s.pgDir t) ≠ some f) :
    Owned m own { s with pgDir := Function.update s.pgDir task d } := by
  have hother : ∀ t, t ≠ task → Function.update s.pgDir task d t = s.pgDir t := fun t ht =>
    Function.update_of_ne ht _ _
  constructor
  case free => exact h.free
  case low => exact h.low
  case zero => exact h.zero
  case entries => exact h.entries
  case active => exact h.active
  case dirs =>
    intro t f
    change Function.update s.pgDir task d t ≠ 0 →
      translate s.phys 0x100 (Function.update s.pgDir task d t) = some f → _
    by_cases ht : t = task
    · rw [ht, Function.update_self]
      exact fun h0 hf => (hd h0 f hf).1
    · rw [hother t ht]
      exact h.dirs t f
  case inj =>
    intro t u f
    change Function.update s.pgDir task d t ≠ 0 → Function.update s.pgDir task d u ≠ 0 →
      translate s.phys 0x100 (Function.update s.pgDir task d t) = some f →
      translate s.phys 0x100 (Function.update s.pgDir task d u) = some f → _
    by_cases ht : t = task
    · by_cases hu : u = task
      · exact fun _ _ _ _ => ht.trans hu.symm
      · rw [ht, Function.update_self, hother u hu]
        exact fun h0 hu0 hf hfu => absurd hfu ((hd h0 f hf).2 u hu0)
    · by_cases hu : u = task
      · rw [hu, Function.update_self, hother t ht]
        exact fun ht0 h0 hft hf => absurd hft ((hd h0 f hf).2 t ht0)
      · rw [hother t ht, hother u hu]
        exact h.inj t u f

end Owners

section Mapping

variable {m : Phys} {own : FrameNo → Owner} {s : MemState} {a v : Word} {pf : PoolFlags} {i : ℕ}

/-- Each frame has an owner, as long as the kernel pool has had a frame whenever one was
needed. -/
def isolated (m : Phys) (t : List MemLabel) (x : MemState) : Prop :=
  MemLabel.noFrame .kernelPhy ∉ t → ∃ own, Owned m own x

lemma Owned.takeFrame (h : Owned m own s) (hp : PhyPools s)
    (hi : FreeBit (s.btmp (phyPool pf)) i) : Owned m own (s.takeFrame pf i) ∧
      Loose own (s.takeFrame pf i) (frameOf (s.pageAddr (phyPool pf) i)) := by
  refine ⟨h.of_phys rfl rfl (fun _ _ => rfl) fun f hf => ((freeFrame_takeFrame hp hi).mp hf).1,
    h.free _ ⟨pf, i, hi, rfl⟩, fun hf => ?_⟩
  exact ((freeFrame_takeFrame hp hi).mp hf).2 rfl

/-- `v2p_mapping` gives the page, and the page table it adds, to the active directory. -/
lemma isolated_v2pMapping (h : Owned m own s) (hi : DirInv m s) (hd : DirFrame m s s.cr3)
    (ha : Loose own s (frameOf a)) :
    (v2pMapping v a).Safe (isolated m) (fun t x _ => MemLabel.noFrame .kernelPhy ∉ t →
      ∃ own, Owned m own x ∧ (768 ≤ (pdeIdx v).toNat → (pdeIdx v).toNat < 1023 →
        own (frameOf a) = .heap)) [] s := by
  have hr := hi.ready hd
  refine safe_v2pMapping hr (fun _ _ => ⟨own, h⟩) (fun hp hz t => ?_) fun hz s1 pt t hpt => ?_
  · obtain ⟨hhost, hself⟩ := h.host hd hp
    have hslot : own (frameOf (s.phys s.cr3 (pdeIdx v))) = .heap → (pteIdx v).toNat < 768 := by
      intro hheap
      rw [hself hheap] at hz
      exact hd.slot_low hz
    have hstore := h.store hi hhost hslot hz ha
    refine ⟨fun _ => ⟨_, hstore⟩, fun _ => ⟨_, hstore, fun hlow hhigh => ?_⟩⟩
    obtain ⟨hout, hne⟩ := h.kernelTable hd hlow hhigh
    rw [Function.update_self, hout, Owner.child, if_neg hne]
  rcases hpt with ⟨hbad, -, -⟩ | ⟨i, hfree, rfl, rfl⟩
  · exact ⟨fun hn => absurd hbad hn, fun hn => absurd hbad hn, fun hn => absurd hbad hn,
      fun hn => absurd hbad hn, fun hn => absurd hbad hn⟩
  set pt := s.pageAddr .kernelPhy i
  set m₁ := writeSlot s.phys s.cr3 (pdeIdx v) (entryOf pt) with hm₁
  have hg1 : Grows s (s.takeFrame .kernel i) := ((Steady.refl s).setBit _ _).toGrows
  have hg2 : Grows (s.takeFrame .kernel i) { s.takeFrame .kernel i with phys := m₁ } :=
    (Steady.store (Steady.refl (s.takeFrame .kernel i)) hz).toGrows
  have hi1 := hi.grows hr hg1
  have hi2 := hi1.grows (hg1.ready hr) hg2
  obtain ⟨h1, hpt⟩ : Owned m own (s.takeFrame .kernel i) ∧
    Loose own (s.takeFrame .kernel i) (frameOf pt) := h.takeFrame hr.pools hfree
  obtain ⟨hact, hchild⟩ := h.active_ne_free
  have hslot := hd.slot_low hz
  have h2 := h1.store hi1 (p := s.cr3) hact (fun _ => hslot) hz hpt
  -- the frame of the new table is empty already
  have hne : frameOf pt ≠ s.cr3 := fun he => hact (he ▸ hpt.1)
  have hempty : m₁ (frameOf pt) = fun _ => 0 := by
    funext j
    rw [hm₁, writeSlot_of_frame_ne _ _ _ hne]
    exact h.zero _ j hpt.1
  have hm₂ : addTable s.phys s.cr3 (pdeIdx v) (entryOf pt) = m₁ := by
    rw [addTable, frameOf_entryOf, ← hm₁]
    exact Function.update_eq_self_iff.mpr hempty.symm
  have hentry : frameOf (m₁ s.cr3 (pdeIdx v)) = frameOf pt := by
    rw [hm₁, writeSlot_self, frameOf_entryOf]
  have hap : frameOf a ≠ frameOf pt := fun he => ha.2 (he ▸ ⟨.kernel, i, hfree, rfl⟩)
  have ha2 : Loose (Function.update own (frameOf pt) ((own s.cr3).child s.cr3))
      { s.takeFrame .kernel i with phys := m₁ } (frameOf a) :=
    ⟨(Function.update_of_ne hap _ _).trans ha.1, fun hf => ha.2 (hg1.free (hg2.free hf))⟩
  have hzero : present (m₁ (frameOf pt) (pteIdx v)) = false := by
    simp [hempty]
  have hhost : Function.update own (frameOf pt) ((own s.cr3).child s.cr3) (frameOf pt) =
      (own s.cr3).child s.cr3 := Function.update_self _ _ _
  have h3 := h2.store hi2 (p := frameOf pt) (by rw [hhost]; exact Owner.child_ne_free hact)
    (by rw [hhost]; exact fun hheap => absurd hheap hchild) hzero ha2
  dsimp only
  rw [hm₂, setEntry, hentry]
  exact ⟨fun _ => ⟨_, h1⟩, fun _ => ⟨_, h2⟩, fun _ => ⟨_, h2⟩, fun _ => ⟨_, h3⟩,
    fun _ => ⟨_, h3, fun hlow _ => absurd hslot (by omega)⟩⟩

end Mapping

end OsI386
