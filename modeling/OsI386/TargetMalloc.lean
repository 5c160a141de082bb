import OsI386.LoaderTables
import OsI386.ProcessEffects

/-!
# `target_vaddr_malloc` and its mutex

The call locks the mutex of its pool, sets the bit of the virtual page and then looks for a
frame. Without one it returns at once: the mutex stays locked and the bit stays set.
-/
namespace OsI386
open Prog TransitionSystem

section Call

variable {s s' : MemState} {mem p : PoolId} {pf : PoolFlags} {v : Word}

/-- The byte that `bitmap_set` changes is one of the map or lies in a page that is mapped. -/
def TargetByte (p : PoolId) (v : Word) (s : MemState) : Prop :=
  (s.btmp p).Holds (s.targetBit p v) ∨ (s.orBehind p (s.targetBit p v)).isSome

/-- The store of `target_vaddr_malloc` into the map of pool `p`, or into the memory behind it. -/
structure Reserved (p : PoolId) (v : Word) (s s' : MemState) : Prop where
  byte : TargetByte p v s
  pools : ∀ q, q ≠ p → (∀ t, q ≠ .userVir t) → s'.pool q = s.pool q
  bits : ∀ i < (s.btmp p).bitNum,
    (s'.btmp p).bit i = (decide (i = s.targetBit p v) || (s.btmp p).bit i)

lemma Reserved.setBit (hin : (s.btmp p).Holds (s.targetBit p v)) :
    Reserved p v s (s.setBtmp p (bitmapSet (s.btmp p) (s.targetBit p v))) where
  byte := .inl hin
  pools q hq _ := by
    unfold MemState.setBtmp
    exact Function.update_of_ne hq _ _
  bits i _ := by rw [setBtmp_btmp_self, bit_bitmapSet]

lemma steady_targetReserve (hin : (s.btmp p).Holds (s.targetBit p v)) :
    Within steady (targetReserve p v) s
      fun _ x _ => x = s.setBtmp p (bitmapSet (s.btmp p) (s.targetBit p v)) := by
  have hs := Steady.refl s
  refine .read (.label hs ?_)
  refine (steady_bitmapSetAt hin).bind_safe steady_effect hs ?_
  rintro _ s1 _ - hs1 hx
  exact .label hs1 (.ret hs1 hx)

lemma grows_targetMalloc (hin : (s.btmp p).Holds (s.targetBit p v)) :
    Within grows (targetMalloc mem p v) s fun _ _ _ => True := by
  refine (grows_of_steady (steady_targetReserve hin)).bind grows_effect fun _ s1 _ _ _ => ?_
  refine (grows_of_steady (steady_paddrGet mem)).bind grows_effect fun _ s2 pa _ _ => ?_
  split_ifs
  · exact .ret (Grows.refl s2) trivial
  · refine (grows_of_steady (steady_v2pMapping v pa)).bind grows_effect fun _ s3 _ _ _ => ?_
    exact (grows_mutexUnlockAt mem).bind grows_effect fun _ s4 _ _ _ => .ret (Grows.refl s4) trivial

/-- After `mutex_lock` only the mutex is another one. -/
lemma setMtx_btmp (q : PoolId) (m : Mutex ℕ) : (s.setMtx p m).btmp q = s.btmp q := by
  by_cases hq : q = p
  · simp [MemState.setMtx, MemState.btmp, hq]
  · simp [MemState.setMtx, MemState.btmp, hq]

lemma setMtx_addrBase (q : PoolId) (m : Mutex ℕ) :
    ((s.setMtx p m).pool q).addrBase = (s.pool q).addrBase := by
  by_cases hq : q = p
  · simp [MemState.setMtx, hq]
  · simp [MemState.setMtx, hq]

lemma setMtx_targetBit (q : PoolId) (m : Mutex ℕ) :
    (s.setMtx p m).targetBit q v = s.targetBit q v := by
  unfold MemState.targetBit
  rw [setMtx_addrBase]

/-- The page is one of the pool `target_vaddr_malloc` takes it from. -/
def TargetInMap (pf : PoolFlags) (v : Word) (s : MemState) : Prop :=
  (s.pgDir s.running ≠ 0 ↔ pf = .user) →
    (s.btmp (vaddrPool pf s.running)).Holds (s.targetBit (vaddrPool pf s.running) v)

lemma grows_targetVaddrMalloc (hin : TargetInMap pf v s) :
    Within grows (targetVaddrMalloc pf v) s fun _ _ _ => True := by
  refine .read ?_
  refine (grows_mutexLockAt _).bind_safe grows_effect (Grows.refl s) ?_
  rintro _ s1 _ - hs1 ⟨-, hs1_eq⟩
  refine .read ?_
  rw [hs1.pgDir]
  have hrest : (s.pgDir s.running ≠ 0 ↔ pf = .user) →
      Within grows (targetMalloc (phyPool pf) (vaddrPool pf s.running) v) s1
        fun _ _ _ => True := by
    intro hkind
    refine grows_targetMalloc ?_
    rw [hs1_eq, setMtx_btmp, setMtx_targetBit]
    exact hin hkind
  cases pf with
  | kernel =>
    rw [if_neg (by simp)]
    split_ifs with hk
    · exact (hrest (by simp [hk.1])).safe grows_effect hs1 fun _ _ _ _ _ => trivial
    · exact .stop hs1
  | user =>
    split_ifs with hu hk
    · exact (hrest (iff_of_true hu.1 rfl)).safe grows_effect hs1 fun _ _ _ _ _ => trivial
    · exact absurd hk.2 (by decide)
    · exact .stop hs1

end Call

section Leak

variable {s : MemState} {pf : PoolFlags} {v : Word}

end Leak

section Reachable

variable {s0 : MemState} {allMem : Word} {s t : SeqState} {m : MemState} {pf : PoolFlags}

end Reachable

end OsI386
