import OsI386.LoneCalls
import OsI386.ProcessEffects

/-!
# Stores of the allocators

`v2p_mapping` stores the entries of directories and tables through the window, and `bitmap_set`
the bytes of the maps. Such a store is fresh if it replaces an entry that is not present, or sets
a bit that is clear. An access is told from a store of an entry by what it does to memories in
which few words are present.
-/
namespace OsI386
open Prog

section Fresh

/-- The store of `w` at `v`. -/
def entryStore (v w : Word) (s : MemState) : Option MemState :=
  some (((storeWord s.phys s.cr3 v w).map fun m => { s with phys := m }).getD s)

/-- If the access stores into the map of a physical pool, it sets a bit that is clear and leaves the
others of the byte; if it stores through the window, the entry it replaces is not present. -/
structure StoreFresh (f : MemState → Option MemState) (s : MemState) : Prop where
  frame : ∀ p byteOff byte, p.Physical → f = byteStore p byteOff byte →
    ∃ k < 8, ((s.btmp p).bytes byteOff).getLsbD k = false ∧
      byte = (s.btmp p).bytes byteOff ||| (1#8 <<< k)
  entry : ∀ v w, pdeIdx v = 1023 → f = entryStore v w → ∀ g, translate s.phys s.cr3 v = some g →
    present (s.phys g (wordIdx v)) = false

variable {f : MemState → Option MemState} {p : PoolId} {byteOff idx : ℕ} {byte : BitVec 8}
  {s : MemState} {v v' w w' c : Word} {g : FrameNo}

lemma StoreFresh.fitStore (h : StoreFresh (byteStore p byteOff byte) s) (hp : p.Physical) :
    FitStore (byteStore p byteOff byte) s := by
  intro q byteOff' byte' _ heq
  obtain ⟨rfl, rfl, rfl⟩ := byteStore_inj s heq
  exact h.frame _ _ _ hp rfl

lemma entryStore_mapped (hv : translate s.phys s.cr3 v = some g) : entryStore v w s =
    some { s with phys := writeSlot s.phys g (wordIdx v) w } := by
  simp only [entryStore, storeWord, hv, Option.map_some, Option.getD_some]

lemma entryStore_unmapped (hv : translate s.phys s.cr3 v = none) : entryStore v w s = some s := by
  simp only [entryStore, storeWord, hv, Option.map_none, Option.getD_none]

end Fresh

section Memories

variable {f : MemState → Option MemState} {s : MemState} {v v' w w' c : Word}

lemma exists_present_ne (w : Word) : ∃ c, present c = true ∧ frameOf c = 0 ∧ c ≠ w := by
  by_cases hw : w = 1
  · exact ⟨3, rfl, rfl, by rw [hw]; decide⟩
  · exact ⟨1, rfl, rfl, Ne.symm hw⟩

/-- All words are `c`. -/
def flatMemory (s : MemState) (c : Word) : MemState := { s with phys := fun _ _ => c }

lemma entryStore_flat (hc : present c = true) : entryStore v w (flatMemory s c) =
    some { s with phys := writeSlot (fun _ _ => c) (frameOf c) (wordIdx v) w } :=
  entryStore_mapped (s := flatMemory s c) (if_pos hc |>.trans (if_pos hc))

/-- What leaves all words as they are is no store of another one. -/
lemma entryStore_ne (s : MemState)
    (h : ∀ c y, f (flatMemory s c) = some y → y.phys = fun _ _ => c) : f ≠ entryStore v w := by
  rintro rfl
  obtain ⟨c, hc, -, hne⟩ := exists_present_ne w
  have hsame := congrFun (congrFun (h c _ (entryStore_flat hc)) (frameOf c)) (wordIdx v)
  exact hne (hsame.symm.trans (writeSlot_self (fun _ _ => c) _ _ _))

/-- The table for `v` in frame 6 is all the directory in frame 5 has, and the entry of `v` all the
table has. -/
def onlyMapped (s : MemState) (v c : Word) : MemState :=
  { s with
    cr3 := 5
    phys := fun f i =>
      if f = 5 then if i = pdeIdx v then 0x6001 else 0
      else if f = 6 then if i = pteIdx v then c else 0
      else c }

lemma translate_onlyMapped (hc : present c = true) : translate (onlyMapped s v c).phys 5 v' =
    if pdeIdx v' = pdeIdx v ∧ pteIdx v' = pteIdx v then some (frameOf c) else none := by
  have hframe : frameOf 0x6001 = 6 := by decide
  have hdir : ∀ i, (onlyMapped s v c).phys 5 i = if i = pdeIdx v then 0x6001 else 0 := by
    intro i
    simp only [onlyMapped, if_true]
  have htable : ∀ i, (onlyMapped s v c).phys (frameOf 0x6001) i =
      if i = pteIdx v then c else 0 := by
    intro i
    simp only [hframe, onlyMapped, show (6 : FrameNo) ≠ 5 by decide, if_false, if_true]
  have hset : present 0x6001 = true := rfl
  have hclear : present 0 = false := rfl
  by_cases hd : pdeIdx v' = pdeIdx v
  · by_cases ht : pteIdx v' = pteIdx v
    · simp only [translate, hdir, hd, if_true, hset, htable, ht, hc, and_self]
    · simp only [translate, hdir, hd, if_true, hset, htable, ht, if_false, hclear, and_false,
        Bool.false_eq_true]
  · simp only [translate, hdir, hd, if_false, hclear, false_and, Bool.false_eq_true]

/-- Stores that do the same are stores at the same place. -/
lemma entryStore_inj (s : MemState) (h : entryStore v w = entryStore v' w') :
    pdeIdx v' = pdeIdx v ∧ pteIdx v' = pteIdx v ∧ wordIdx v' = wordIdx v := by
  obtain ⟨c, hc, hframe, hne⟩ := exists_present_ne w
  have hself : translate (onlyMapped s v c).phys (onlyMapped s v c).cr3 v = some (frameOf c) :=
    (translate_onlyMapped hc).trans (if_pos ⟨rfl, rfl⟩)
  have hslot : (onlyMapped s v c).phys (frameOf c) (wordIdx v) = c := by
    rw [hframe]
    rfl
  have hat := congrFun h (onlyMapped s v c)
  rw [entryStore_mapped hself] at hat
  have hother : translate (onlyMapped s v c).phys 5 v' = _ := translate_onlyMapped hc
  have hcr3 : (onlyMapped s v c).cr3 = 5 := rfl
  by_cases hsame : pdeIdx v' = pdeIdx v ∧ pteIdx v' = pteIdx v
  · refine ⟨hsame.1, hsame.2, ?_⟩
    rw [if_pos hsame] at hother
    rw [entryStore_mapped (hcr3 ▸ hother)] at hat
    have hword := congrArg (fun x : MemState => x.phys (frameOf c) (wordIdx v)) (Option.some.inj hat)
    simp only [writeSlot_self] at hword
    by_contra hw
    rw [writeSlot_of_slot_ne _ _ (Ne.symm hw), hslot] at hword
    exact hne hword.symm
  · rw [if_neg hsame] at hother
    rw [entryStore_unmapped (hcr3 ▸ hother)] at hat
    have hword := congrArg (fun x : MemState => x.phys (frameOf c) (wordIdx v)) (Option.some.inj hat)
    simp only [writeSlot_self, hslot] at hword
    exact absurd hword.symm hne

end Memories

section Plain

variable {f : MemState → Option MemState} {p : PoolId} {s : MemState} {v w : Word} {idx : ℕ}

/-- The access is no store into the map of a physical pool, and none through the window. -/
structure Plain (f : MemState → Option MemState) : Prop where
  frame : ∀ p byteOff byte, p.Physical → f ≠ byteStore p byteOff byte
  entry : ∀ v w, pdeIdx v = 1023 → f ≠ entryStore v w

lemma Plain.fresh (h : Plain f) (s : MemState) : StoreFresh f s :=
  ⟨fun p _ _ hp he => absurd he (h.frame p _ _ hp), fun v w hv he => absurd he (h.entry v w hv)⟩

/-- Records change, and no memory. -/
lemma plain_records (s : MemState)
    (hmaps : ∀ x y, f x = some y → ∀ p : PoolId, p.Physical → y.btmp p = x.btmp p)
    (hphys : ∀ x y, f x = some y → y.phys = x.phys) : Plain f :=
  ⟨fun p _ _ hp => byteStore_ne s fun x y hxy => hmaps x y hxy p hp,
    fun _ _ _ => entryStore_ne s fun _ y hy => hphys _ y hy⟩

lemma plain_modify (s : MemState) {g : MemState → MemState}
    (hmaps : ∀ x, ∀ p : PoolId, p.Physical → (g x).btmp p = x.btmp p)
    (hphys : ∀ x, (g x).phys = x.phys) : Plain fun x => some (g x) :=
  plain_records s (fun x _ h p hp => Option.some.inj h ▸ hmaps x p hp)
    fun x _ h => Option.some.inj h ▸ hphys x

lemma plain_some (s : MemState) : Plain some := plain_modify s (fun _ _ _ => rfl) fun _ => rfl

/-- Memory changes, and no record. -/
lemma plain_memory (s : MemState) (hpool : ∀ x y, f x = some y → y.pool = x.pool)
    (hne : ∀ v w, pdeIdx v = 1023 → f ≠ entryStore v w) : Plain f :=
  ⟨fun p _ _ _ => byteStore_ne s fun x y hxy => congrArg Pool.btmp (congrFun (hpool x y hxy) p), hne⟩

lemma plain_clearPage (s : MemState) (page : Word) : Plain fun x =>
    some (((translate x.phys x.cr3 page).map fun f =>
      { x with phys := Function.update x.phys f fun _ => 0 }).getD x) := by
  refine plain_memory s (fun x y hxy => ?_) fun v w _ he => ?_
  · obtain rfl := Option.some.inj hxy
    cases translate x.phys x.cr3 page <;> rfl
  obtain ⟨c, hc, -, -⟩ := exists_present_ne w
  have hat := congrFun he (flatMemory s c)
  have hwalk : translate (flatMemory s c).phys (flatMemory s c).cr3 page = some (frameOf c) :=
    (if_pos hc).trans (if_pos hc)
  simp only [hwalk, Option.map_some, Option.getD_some, entryStore_flat hc] at hat
  have hword := congrArg (fun x : MemState => x.phys (frameOf c) (wordIdx v + 1))
    (Option.some.inj hat)
  simp only [Function.update_self,
    writeSlot_of_slot_ne _ _ (show wordIdx v + 1 ≠ wordIdx v by simp)] at hword
  rw [← hword] at hc
  cases hc

lemma plain_copyKernelEntries (s : MemState) (src dst : Word) : Plain fun x =>
    some ((do
      let f ← translate x.phys x.cr3 src
      let g ← translate x.phys x.cr3 dst
      return { x with phys := Function.update x.phys g fun i =>
        if 768 ≤ i.toNat then x.phys f i else x.phys g i } : Option MemState).getD x) := by
  refine plain_memory s (fun x y hxy => ?_) fun v w _ => entryStore_ne s fun c y hy => ?_
  · obtain rfl := Option.some.inj hxy
    cases translate x.phys x.cr3 src with
    | none => rfl
    | some f => cases translate x.phys x.cr3 dst <;> rfl
  · obtain rfl := Option.some.inj hy
    cases translate (flatMemory s c).phys (flatMemory s c).cr3 src with
    | none => rfl
    | some f =>
      cases translate (flatMemory s c).phys (flatMemory s c).cr3 dst with
      | none => rfl
      | some g =>
        simp only [flatMemory, Option.bind_eq_bind, Option.bind_some, Option.pure_def,
          Option.getD_some, ite_self]
        exact Function.update_eq_self g fun _ _ => c

lemma entryStore_pool {x y : MemState} (h : entryStore v w x = some y) : y.pool = x.pool := by
  obtain rfl := Option.some.inj h
  cases storeWord x.phys x.cr3 v w <;> rfl

/-- A store that is not through the window. -/
lemma plain_storeAt (s : MemState) (hv : pdeIdx v ≠ 1023) : Plain (entryStore v w) :=
  plain_memory s (fun _ _ => entryStore_pool) fun _ _ hu he =>
    hv ((entryStore_inj s he).1.symm.trans hu)

/-- `bitmap_set` on a bit that is clear. -/
lemma storeFresh_bitmapSet (h : (s.btmp p).bit idx = false) : StoreFresh
    (byteStore p (idx / 8) ((s.btmp p).bytes (idx / 8) ||| (1#8 <<< (idx % 8)))) s :=
  ⟨fun q _ _ hq he => fitStore_bitmapSet h q _ _ hq.shared he,
    fun _ _ _ he => absurd he (entryStore_ne s fun _ _ hy => Option.some.inj hy ▸ rfl)⟩

/-- A store in an entry that is not present. -/
lemma storeFresh_entryStore (hz : ∀ g, translate s.phys s.cr3 v = some g →
    present (s.phys g (wordIdx v)) = false) : StoreFresh (entryStore v w) s := by
  refine ⟨fun p _ _ _ he => absurd he (byteStore_ne s fun x y hxy => ?_), fun u w' _ he g hg => ?_⟩
  · exact congrArg Pool.btmp (congrFun (entryStore_pool hxy) p)
  · obtain ⟨hd, ht, hword⟩ := entryStore_inj s he
    rw [hword]
    exact hz g (translate_congr hd ht ▸ hg)

end Plain

end OsI386
