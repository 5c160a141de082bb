import OsI386.LoneCalls
import OsI386.OsRuns

/-!
# Allocations that race

Threads are switched at any access of a call. As long as every store into a shared map fits, no
frame and no page of the kernel is handed out twice; `kernel_pages_malloc`, which takes no mutex,
lets two threads find the same bit clear.
-/
namespace OsI386
open Prog TransitionSystem

section Handed

/-- The page ranges reserved in the kernel's virtual pool. -/
def kernelRanges (tr : List MemLabel) : List (ℕ × ℕ) :=
  tr.filterMap fun
    | .range .kernelVir idx cnt => some (idx, cnt)
    | _ => none

/-- No frame and no virtual page of the kernel is handed out twice. -/
structure HandedOnce (tr : List MemLabel) : Prop where
  frames : (framesOf tr).Nodup
  ranges : (kernelRanges tr).Pairwise fun r q =>
    Disjoint (Set.Ico r.1 (r.1 + r.2)) (Set.Ico q.1 (q.1 + q.2))

/-- The pages announced by the labels and the ones a thread `t` holds, `held t`. -/
structure Handed (m₀ : MemState) (held : ℕ → Set (PoolId × ℕ)) (tr : List MemLabel)
    (m : MemState) : Prop where
  sizes : SameSizes m₀ m
  taken : ∀ t, ∀ x ∈ held t, x.1.Shared ∧ (m.btmp x.1).bit x.2 = true ∧
    (x.1.Physical → x.2 < (m₀.btmp x.1).bitNum)
  apart : ∀ t u, t ≠ u → Disjoint (held t) (held u)
  frames : ∀ p a, .frame p a ∈ tr → p.Physical ∧ ∃ i < (m₀.btmp p).bitNum,
    a = m₀.pageAddr p i ∧ (m.btmp p).bit i = true ∧ ∀ t, (p, i) ∉ held t
  ranges : ∀ r ∈ kernelRanges tr, ∀ i, r.1 ≤ i → i < r.1 + r.2 →
    (m.btmp .kernelVir).bit i = true ∧ ∀ t, (PoolId.kernelVir, i) ∉ held t
  once : HandedOnce tr

variable {m₀ m m' : MemState} {held : ℕ → Set (PoolId × ℕ)} {tr : List MemLabel}
  {N D' : Set (PoolId × ℕ)} {t : ℕ}

lemma kernelRanges_append (tr tr' : List MemLabel) :
    kernelRanges (tr ++ tr') = kernelRanges tr ++ kernelRanges tr' := List.filterMap_append

lemma framesOf_append (tr tr' : List MemLabel) :
    framesOf (tr ++ tr') = framesOf tr ++ framesOf tr' := List.filterMap_append

/-- An access takes free pages. -/
lemma Handed.take (h : Handed m₀ held tr m) (hN : Takes m N m') :
    Handed m₀ (Function.update held t (held t ∪ N)) tr m' := by
  have hgrown := hN.grown
  have hold : ∀ u, ∀ x ∈ held u, x ∉ N := fun u x hx hxN => by
    have hbit := (h.taken u x hx).2.1
    rw [(hN.free x hxN).2.1] at hbit
    cases hbit
  have hmem : ∀ u x, x ∈ Function.update held t (held t ∪ N) u → x ∈ held u ∨ x ∈ N ∧ u = t := by
    intro u x hx
    by_cases hu : u = t
    · subst hu
      rw [Function.update_self] at hx
      exact hx.imp_right fun hxN => ⟨hxN, rfl⟩
    · rw [Function.update_of_ne hu] at hx
      exact .inl hx
  have hout : ∀ p : PoolId, p.Shared → ∀ i, (m.btmp p).bit i = true → (∀ u, (p, i) ∉ held u) →
      ∀ u, (p, i) ∉ Function.update held t (held t ∪ N) u := by
    intro p hp i hbit hno u hx
    rcases hmem u _ hx with hx | ⟨hxN, -⟩
    · exact hno u hx
    · rw [(hN.free _ hxN).2.1] at hbit
      cases hbit
  refine ⟨h.sizes.trans hN.sizes, fun u x hx => ?_, fun u v huv => ?_, fun p a ha => ?_,
    fun r hr i h1 h2 => ?_, h.once⟩
  · rcases hmem u x hx with hx | ⟨hxN, -⟩
    · obtain ⟨hp, hbit, hlt⟩ := h.taken u x hx
      exact ⟨hp, hgrown.bits _ hp _ hbit, hlt⟩
    · obtain ⟨hp, -, hlt⟩ := hN.free x hxN
      refine ⟨hp, (hN.bits _ hp _).mpr (.inr hxN), fun hphy => ?_⟩
      rw [← (h.sizes _ hp).1]
      exact hlt hphy
  · refine Set.disjoint_left.mpr fun x hu hv => ?_
    rcases hmem u x hu with hu | ⟨huN, hut⟩
    · rcases hmem v x hv with hv | ⟨hvN, -⟩
      · exact Set.disjoint_left.mp (h.apart u v huv) hu hv
      · exact hold u x hu hvN
    · rcases hmem v x hv with hv | ⟨-, hvt⟩
      · exact hold v x hv huN
      · exact huv (hut.trans hvt.symm)
  · obtain ⟨hp, i, hi, haddr, hbit, hno⟩ := h.frames p a ha
    exact ⟨hp, i, hi, haddr, hgrown.bits p hp.shared i hbit, hout p hp.shared i hbit hno⟩
  · obtain ⟨hbit, hno⟩ := h.ranges r hr i h1 h2
    exact ⟨hgrown.bits _ kernelVir_shared i hbit, hout _ kernelVir_shared i hbit hno⟩

/-- Memory with the same maps. -/
lemma Handed.of_pool (h : Handed m₀ held tr m) (hp : m'.pool = m.pool) : Handed m₀ held tr m' := by
  have hb : ∀ p, m'.btmp p = m.btmp p := fun p => congrArg Pool.btmp (congrFun hp p)
  refine ⟨fun p hs => ?_, fun t x hx => ?_, h.apart, fun p a ha => ?_, fun r hr i h1 h2 => ?_, h.once⟩
  · rw [hb p, hp]
    exact h.sizes p hs
  · rw [hb]
    exact h.taken t x hx
  · rw [hb]
    exact h.frames p a ha
  · rw [hb]
    exact h.ranges r hr i h1 h2

/-- What is still held after a label. -/
lemma Handed.drop (h : Handed m₀ held tr m) (hD : D' ⊆ held t) :
    Handed m₀ (Function.update held t D') tr m := by
  have hsub : ∀ u, Function.update held t D' u ⊆ held u := fun u => by
    by_cases hu : u = t
    · subst hu
      rw [Function.update_self]
      exact hD
    · rw [Function.update_of_ne hu]
  refine ⟨h.sizes, fun u x hx => h.taken u x (hsub u hx), fun u v huv => ?_, fun p a ha => ?_,
    fun r hr i h1 h2 => ?_, h.once⟩
  · exact (h.apart u v huv).mono (hsub u) (hsub v)
  · obtain ⟨hp, i, hi, haddr, hbit, hno⟩ := h.frames p a ha
    exact ⟨hp, i, hi, haddr, hbit, fun u hx => hno u (hsub u hx)⟩
  · obtain ⟨hbit, hno⟩ := h.ranges r hr i h1 h2
    exact ⟨hbit, fun u hx => hno u (hsub u hx)⟩

/-- A label that is no frame and no range of the kernel. -/
lemma Handed.silent (h : Handed m₀ held tr m) {x : MemLabel} (hf : framesOf [x] = [])
    (hr : kernelRanges [x] = []) : Handed m₀ held (tr ++ [x]) m := by
  have hframes : framesOf (tr ++ [x]) = framesOf tr := by
    rw [framesOf_append, hf, List.append_nil]
  have hranges : kernelRanges (tr ++ [x]) = kernelRanges tr := by
    rw [kernelRanges_append, hr, List.append_nil]
  refine ⟨h.sizes, h.taken, h.apart, fun p a ha => ?_, fun r hm => ?_, ?_, ?_⟩
  · rcases List.mem_append.mp ha with ha | ha
    · exact h.frames p a ha
    · obtain rfl := List.mem_singleton.mp ha
      cases hf
  · rw [hranges] at hm
    exact h.ranges r hm
  · rw [hframes]
    exact h.once.frames
  · rw [hranges]
    exact h.once.ranges

/-- Different bits of the physical pools are different frames. -/
def FramesApart (m₀ : MemState) : Prop :=
  ∀ p q : PoolId, p.Physical → q.Physical → ∀ i < (m₀.btmp p).bitNum, ∀ j < (m₀.btmp q).bitNum,
    m₀.pageAddr p i = m₀.pageAddr q j → p = q ∧ i = j

lemma mem_pagesOf_one {p : PoolId} (hp : p.Shared) (i : ℕ) : (p, i) ∈ pagesOf p i 1 :=
  ⟨rfl, hp, le_rfl, Nat.lt_succ_self i⟩

/-- A held frame is announced. -/
lemma Handed.frame (h : Handed m₀ held tr m) (h₀ : FramesApart m₀) {p : PoolId} {i : ℕ}
    (hp : p.Physical) (hheld : pagesOf p i 1 ⊆ held t) :
    Handed m₀ (Function.update held t (held t \ pagesOf p i 1))
      (tr ++ [.frame p (m.pageAddr p i)]) m := by
  have hin : (p, i) ∈ held t := hheld (mem_pagesOf_one hp.shared i)
  obtain ⟨-, hbit, hlt⟩ := h.taken t _ hin
  have haddr : m.pageAddr p i = m₀.pageAddr p i := by
    rw [MemState.pageAddr, MemState.pageAddr, (h.sizes p hp.shared).2]
  have hdrop : Handed m₀ (Function.update held t (held t \ pagesOf p i 1)) tr m :=
    h.drop Set.sdiff_subset
  have hranges : kernelRanges (tr ++ [.frame p (m.pageAddr p i)]) = kernelRanges tr := by
    rw [kernelRanges_append]
    exact List.append_nil _
  refine ⟨h.sizes, hdrop.taken, hdrop.apart, fun q a ha => ?_, fun r hr => ?_, ?_, ?_⟩
  · rcases List.mem_append.mp ha with ha | ha
    · exact hdrop.frames q a ha
    · obtain ⟨rfl, rfl⟩ := MemLabel.frame.inj (List.mem_singleton.mp ha)
      refine ⟨hp, i, hlt hp, haddr, hbit, fun u hx => ?_⟩
      by_cases hu : u = t
      · subst hu
        rw [Function.update_self] at hx
        exact hx.2 (mem_pagesOf_one hp.shared i)
      · rw [Function.update_of_ne hu] at hx
        exact Set.disjoint_left.mp (h.apart u t hu) hx hin
  · rw [hranges] at hr
    exact hdrop.ranges r hr
  · rw [framesOf_append]
    refine List.nodup_append.mpr ⟨h.once.frames, List.nodup_singleton _, fun a ha b hb hab => ?_⟩
    obtain rfl : b = m.pageAddr p i := List.mem_singleton.mp hb
    obtain ⟨q, hq⟩ := mem_framesOf.mp ha
    obtain ⟨hqp, j, hj, hja, -, hno⟩ := h.frames q a hq
    obtain ⟨rfl, rfl⟩ := h₀ q p hqp hp j hj i (hlt hp) (hja.symm.trans (hab.trans haddr))
    exact hno t hin
  · rw [hranges]
    exact h.once.ranges

/-- A held range is announced. -/
lemma Handed.range (h : Handed m₀ held tr m) {idx cnt : ℕ}
    (hheld : pagesOf .kernelVir idx cnt ⊆ held t) :
    Handed m₀ (Function.update held t (held t \ pagesOf .kernelVir idx cnt))
      (tr ++ [.range .kernelVir idx cnt]) m := by
  have hin : ∀ i, idx ≤ i → i < idx + cnt → (PoolId.kernelVir, i) ∈ pagesOf .kernelVir idx cnt :=
    fun i h1 h2 => ⟨rfl, kernelVir_shared, h1, h2⟩
  have hdrop : Handed m₀ (Function.update held t (held t \ pagesOf .kernelVir idx cnt)) tr m :=
    h.drop Set.sdiff_subset
  have hframes : framesOf (tr ++ [.range .kernelVir idx cnt]) = framesOf tr := by
    rw [framesOf_append]
    exact List.append_nil _
  have hranges : kernelRanges (tr ++ [.range .kernelVir idx cnt]) =
      kernelRanges tr ++ [(idx, cnt)] := kernelRanges_append _ _
  refine ⟨h.sizes, hdrop.taken, hdrop.apart, fun q a ha => ?_, fun r hr i h1 h2 => ?_, ?_, ?_⟩
  · rcases List.mem_append.mp ha with ha | ha
    · exact hdrop.frames q a ha
    · cases List.mem_singleton.mp ha
  · rw [hranges] at hr
    rcases List.mem_append.mp hr with hr | hr
    · exact hdrop.ranges r hr i h1 h2
    · obtain rfl := List.mem_singleton.mp hr
      have hi := hheld (hin i h1 h2)
      refine ⟨(h.taken t _ hi).2.1, fun u hx => ?_⟩
      by_cases hu : u = t
      · subst hu
        rw [Function.update_self] at hx
        exact hx.2 (hin i h1 h2)
      · rw [Function.update_of_ne hu] at hx
        exact Set.disjoint_left.mp (h.apart u t hu) hx hi
  · rw [hframes]
    exact h.once.frames
  · rw [hranges]
    refine List.pairwise_append.mpr ⟨h.once.ranges, List.pairwise_singleton _ _, ?_⟩
    intro r hr q hq
    obtain rfl := List.mem_singleton.mp hq
    refine Set.disjoint_left.mpr fun i hir hiq => ?_
    exact (h.ranges r hr i hir.1 hir.2).2 t (hheld (hin i hiq.1 hiq.2))

/-- A label of a call that keeps to the protocol. -/
lemma Handed.tell (h : Handed m₀ held tr m) (h₀ : FramesApart m₀) {x : MemLabel}
    (hx : Gives x m (held t) D') : Handed m₀ (Function.update held t D') (tr ++ [x]) m := by
  cases x with
  | frame p a =>
    obtain ⟨hp, i, hheld, rfl, rfl⟩ := hx
    exact h.frame h₀ hp hheld
  | range p idx cnt =>
    obtain ⟨hheld, rfl⟩ := hx
    cases p with
    | kernelVir => exact h.range hheld
    | _ => exact (h.drop Set.sdiff_subset).silent rfl rfl
  | _ =>
    obtain rfl : D' = held t := hx
    rw [Function.update_eq_self]
    exact h.silent rfl rfl

end Handed

section Runs

variable {m₀ : MemState} {held : ℕ → Set (PoolId × ℕ)} {s s' : OsState} {e : OsEvent}

/-- If the running thread is about to store into the map of a shared pool, it sets a bit that is
clear and leaves the others of the byte; a page it chooses itself is one of the kernel heap. -/
def MapStoresFit (s : OsState) : OsEvent → Prop
  | .access => ∀ c, s.calls s.sched.runningThread = some c → c.rest.Next (FitStore · s.mem)
  | .call c => c.InHeap s.mem
  | _ => True

/-- Each thread holds pages of its own and keeps to the protocol from there on. -/
structure Unraced (m₀ : MemState) (held : ℕ → Set (PoolId × ℕ)) (s : OsState) : Prop where
  handed : Handed m₀ held (s.trace.map Prod.snd) s.mem
  small : SmallMaps s.mem
  calls : ∀ t c, s.calls t = some c →
    c.rest.Obeys mapsProtocol (fun x _ _ => SmallMaps x) s.mem (held t)

lemma processActivate_pool (t : ℕ) (x : MemState) :
    ((processActivate t).run x).state.pool = x.pool := by
  have hkeeps : Preserves (fun _ (y : MemState) => y.pool = x.pool) (processActivate t) := by
    refine .bind (.read _) fun d => ?_
    split_ifs
    · exact .bind (.bind (.readOr _ _) fun _ => .ret _) fun _ => .modify fun _ _ => id
    · exact .modify fun _ _ => id
  exact hkeeps [] x rfl

/-- Only the scheduler, and what a switch loads, change. -/
def SamePools (s s' : OsState) : Prop :=
  s'.calls = s.calls ∧ s'.trace = s.trace ∧ s'.mem.pool = s.mem.pool

lemma osMainSchedule_samePools (hs : osMainSchedule s = some s') : SamePools s s' := by
  obtain ⟨sched, -, hs⟩ := Option.bind_eq_some_iff.mp hs
  by_cases hneed : s.sched.needSchedule = true
  · simp only [hneed, if_true, activate] at hs
    split at hs
    · obtain rfl := Option.some.inj hs
      exact ⟨rfl, rfl, processActivate_pool _ _⟩
    · cases hs
  · simp only [hneed] at hs
    exact Option.some.inj hs ▸ ⟨rfl, rfl, rfl⟩

/-- What a step is, as far as memory is concerned. -/
lemma osStep_pools (hs : osStep s e = some s') :
    SamePools s s' ∨ e = .access ∨ ∃ c, e = .call c := by
  cases e with
  | call c => exact .inr (.inr ⟨c, rfl⟩)
  | access => exact .inr (.inl rfl)
  | threadUnblock t =>
    obtain ⟨sched, -, hs⟩ := Option.bind_eq_some_iff.mp hs
    exact .inl (Option.some.inj hs ▸ ⟨rfl, rfl, rfl⟩)
  | timerInterrupt =>
    obtain ⟨sched, -, hs⟩ := Option.bind_eq_some_iff.mp hs
    have hsame : SamePools { s with sched := sched } s' := osMainSchedule_samePools hs
    exact .inl hsame
  | mainSchedule => exact .inl (osMainSchedule_samePools hs)
  | threadBlock st =>
    obtain ⟨sched, -, hs⟩ := Option.bind_eq_some_iff.mp hs
    have hsame : SamePools { s with sched := sched } s' := by
      by_cases hneed : sched.needSchedule = true
      · exact osMainSchedule_samePools ((if_pos hneed).symm.trans hs)
      · exact Option.some.inj ((if_neg hneed).symm.trans hs) ▸ ⟨rfl, rfl, rfl⟩
    exact .inl hsame

lemma Grown.of_pool {x y : MemState} (h : y.pool = x.pool) : Grown x y := by
  have hb : ∀ p, y.btmp p = x.btmp p := fun p => congrArg Pool.btmp (congrFun h p)
  refine ⟨fun p _ => ?_, fun p _ i hi => ?_⟩
  · rw [hb p, h]
    exact ⟨rfl, rfl⟩
  · rwa [hb p]

lemma Unraced.samePools (h : Unraced m₀ held s) (hs : SamePools s s') : Unraced m₀ held s' := by
  obtain ⟨hcalls, htrace, hpool⟩ := hs
  have hgrown : Grown s.mem s'.mem := .of_pool hpool
  refine ⟨?_, h.small.grown hgrown, fun t c hc => ?_⟩
  · rw [htrace]
    exact h.handed.of_pool hpool
  · exact (h.calls t c (hcalls ▸ hc)).others hgrown

lemma Unraced.startCall (h : Unraced m₀ held s) (t : ℕ) {c : OsCall} (hc : c.InHeap s.mem) :
    Unraced m₀ held { s with calls := Function.update s.calls t (some ⟨c, c.prog⟩) } := by
  refine ⟨h.handed, h.small, fun u d hd => ?_⟩
  by_cases hu : u = t
  · subst hu
    obtain rfl : ⟨c, c.prog⟩ = d := by simpa using hd
    exact OsCall.obeys_maps h.small hc
  · exact h.calls u d ((Function.update_of_ne hu _ _).symm.trans hd)

/-- The threads that do not run see bits being set. -/
lemma Unraced.access (h : Unraced m₀ held s) (h₀ : FramesApart m₀)
    (hok : MapStoresFit s .access) (hs : osAccess s s.sched.runningThread = some s') :
    ∃ held', Unraced m₀ held' s' := by
  obtain ⟨c, hc, ⟨a, -, hret⟩ | ⟨ls, mem, rest, hadv, rfl⟩⟩ := osAccess_cases hs
  · obtain ⟨hmem, hcalls, htrace⟩ := osReturn_frame hret
    refine ⟨held, ?_, hmem ▸ h.small, fun u d hd => ?_⟩
    · rw [hmem, htrace]
      exact h.handed
    · rw [hcalls] at hd
      have hu : u ≠ s.sched.runningThread := by
        rintro rfl
        simp at hd
      rw [hmem]
      exact h.calls u d ((Function.update_of_ne hu _ _).symm.trans hd)
  · obtain ⟨D', hrest, -, hstep⟩ := (h.calls _ c hc).advance (hok c hc) hadv
    refine ⟨Function.update held s.sched.runningThread D', ?_⟩
    have hgrown : Grown s.mem mem := by
      rcases hstep with ⟨-, -, N, hN, -⟩ | ⟨x, -, rfl, -⟩
      · exact hN.grown
      · exact .refl _
    refine ⟨?_, h.small.grown hgrown, fun u d hd => ?_⟩
    · rcases hstep with ⟨rfl, -, N, hN, rfl⟩ | ⟨x, rfl, rfl, hx⟩
      · rw [List.map_nil, List.append_nil]
        exact h.handed.take hN
      · rw [List.map_append]
        exact h.handed.tell h₀ hx
    · by_cases hu : u = s.sched.runningThread
      · subst hu
        obtain rfl : { c with rest := rest } = d := by simpa using hd
        rw [Function.update_self]
        exact hrest
      · rw [Function.update_of_ne hu]
        exact (h.calls u d ((Function.update_of_ne hu _ _).symm.trans hd)).others hgrown

lemma Unraced.step (h : Unraced m₀ held s) (h₀ : FramesApart m₀) (hok : MapStoresFit s e)
    (hs : osStep s e = some s') : ∃ held', Unraced m₀ held' s' := by
  rcases osStep_pools hs with hsame | rfl | ⟨c, rfl⟩
  · exact ⟨held, h.samePools hsame⟩
  · exact h.access h₀ hok hs
  · simp only [osStep] at hs
    split_ifs at hs
    exact ⟨held, Option.some.inj hs ▸ h.startCall _ hok⟩

end Runs

section Lone

variable {s s' : OsState} {e : OsEvent}

/-- A call begins when no other is in progress, and looks for the pages it takes. -/
def LoneCalls (s : OsState) : OsEvent → Prop
  | .call c => c.target = none ∧ ∀ t, s.calls t = none
  | _ => True

structure Lone (s : OsState) : Prop where
  small : (∀ t, s.calls t = none) → SmallMaps s.mem
  alone : ∀ t c, s.calls t = some c → ∀ u, u ≠ t → s.calls u = none
  calls : ∀ t c, s.calls t = some c →
    c.rest.Obeys loneProtocol (fun x _ _ => SmallMaps x) s.mem ()

/-- A call that searches chooses no page. -/
lemma OsCall.inHeap_of_target {c : OsCall} (h : c.target = none) (x : MemState) : c.InHeap x := by
  intro v hv
  rw [h] at hv
  cases hv

lemma Lone.samePools (h : Lone s) (hs : SamePools s s') : Lone s' := by
  obtain ⟨hcalls, -, hpool⟩ := hs
  have hmaps : SameMaps s.mem s'.mem := fun p _ => congrArg Pool.btmp (congrFun hpool p)
  refine ⟨fun hnone => (h.small (hcalls ▸ hnone)).same hmaps, hcalls ▸ h.alone, fun t c hc => ?_⟩
  exact (h.calls t c (hcalls ▸ hc)).others hmaps

lemma Lone.startCall (h : Lone s) (hnone : ∀ t, s.calls t = none) {c : OsCall}
    (hc : c.target = none) (t : ℕ) : Lone { s with calls := Function.update s.calls t (some ⟨c, c.prog⟩) } := by
  refine ⟨fun hn => ?_, fun u d hd v hv => ?_, fun u d hd => ?_⟩
  · have hself := hn t
    simp at hself
  · obtain ⟨rfl, -⟩ := update_call (fun u _ => hnone u) hd
    exact (Function.update_of_ne hv _ _).trans (hnone v)
  · obtain ⟨-, rfl⟩ := update_call (fun u _ => hnone u) hd
    refine obedient_osCall reserving_lone (fun v hv => ?_) s.mem () (h.small hnone)
    rw [hc] at hv
    cases hv

/-- The access fits, whichever it is. -/
lemma Lone.access (h : Lone s) (hs : osAccess s s.sched.runningThread = some s') :
    Lone s' ∧ MapStoresFit s .access := by
  obtain ⟨c, hc, hcases⟩ := osAccess_cases hs
  have halone := h.alone _ c hc
  have hobeys := h.calls _ c hc
  have hthis : ∀ d, s.calls s.sched.runningThread = some d → d = c := fun d hd =>
    Option.some.inj (hd.symm.trans hc)
  rcases hcases with ⟨a, hr, hret⟩ | ⟨ls, mem, rest, hadv, rfl⟩
  · obtain ⟨hmem, hcalls, -⟩ := osReturn_frame hret
    have hnone : ∀ u, s'.calls u = none := by
      intro u
      rw [hcalls]
      by_cases hu : u = s.sched.runningThread
      · exact hu ▸ Function.update_self _ _ _
      · exact (Function.update_of_ne hu _ _).trans (halone u hu)
    rw [hr] at hobeys
    refine ⟨⟨fun _ => ?_, fun t d hd => ?_, fun t d hd => ?_⟩, fun d hd => ?_⟩
    · rw [hmem]
      exact hobeys s.mem (loneProtocol.refl () _)
    · rw [hnone t] at hd
      cases hd
    · rw [hnone t] at hd
      cases hd
    · rw [hthis d hd, hr]
      trivial
  · obtain ⟨_, hrest, hfit, -⟩ := hobeys.advance (next_of_forall fun _ => trivial) hadv
    refine ⟨⟨fun hn => ?_, fun u d hd v hv => ?_, fun u d hd => ?_⟩, fun d hd => hthis d hd ▸ hfit⟩
    · have hself := hn s.sched.runningThread
      simp at hself
    · obtain ⟨rfl, -⟩ := update_call halone hd
      exact (Function.update_of_ne hv _ _).trans (halone v hv)
    · obtain ⟨-, rfl⟩ := update_call halone hd
      exact hrest

lemma Lone.step (h : Lone s) (ok : LoneCalls s e) (hs : osStep s e = some s') :
    Lone s' ∧ MapStoresFit s e := by
  rcases osStep_pools hs with hsame | rfl | ⟨c, rfl⟩
  · refine ⟨h.samePools hsame, ?_⟩
    cases e with
    | access => exact (h.access hs).2
    | call c => exact OsCall.inHeap_of_target ok.1 s.mem
    | _ => trivial
  · exact h.access hs
  · obtain ⟨hsearch, hnone⟩ := ok
    simp only [osStep, hnone, Option.isNone_none, if_true] at hs
    exact ⟨Option.some.inj hs ▸ h.startCall hnone hsearch _, OsCall.inHeap_of_target hsearch s.mem⟩

end Lone

section Start

variable {s0 : MemState} {allMem : Word} {page : ℕ → BitVec 8} {garbage : ℕ → Tcb} {s : OsState}

/-- The frames of the user pool follow those of the kernel, fewer than 2 ^ 20 in all. -/
lemma memPoolInit_frames (s0 : MemState) (allMem : Word) : ∃ kernel user,
    kernel + user < 2 ^ 20 ∧ ((memPoolInit s0 allMem).btmp .kernelPhy).bitNum = kernel ∧
      ((memPoolInit s0 allMem).btmp .userPhy).bitNum = user ∧
      (∀ i, (memPoolInit s0 allMem).pageAddr .kernelPhy i = BitVec.ofNat 32 (0x200000 + i * 4096)) ∧
      ∀ i, (memPoolInit s0 allMem).pageAddr .userPhy i =
        BitVec.ofNat 32 (0x200000 + (kernel + i) * 4096) := by
  let free : Word := (allMem - (4096 * (1 + 255) + pageDirStartAddr)) / 4096
  have hfree : free.toNat < 2 ^ 20 := by
    rw [BitVec.toNat_udiv]
    exact Nat.div_lt_of_lt_mul (BitVec.isLt _)
  have hkernel : (free / 2).toNat = free.toNat / 2 := BitVec.toNat_udiv
  have huser : (free - free / 2).toNat = free.toNat - free.toNat / 2 := by
    rw [BitVec.toNat_sub, hkernel]
    omega
  refine ⟨(free / 2).toNat, (free - free / 2).toNat, by omega, rfl, rfl, fun i => ?_, fun i => ?_⟩
  · apply BitVec.eq_of_toNat_eq
    rw [MemState.pageAddr, BitVec.toNat_add, BitVec.toNat_ofNat, BitVec.toNat_ofNat]
    change (i * 4096 % 2 ^ 32 + 0x200000) % 2 ^ 32 = _
    omega
  · apply BitVec.eq_of_toNat_eq
    rw [MemState.pageAddr, BitVec.toNat_add, BitVec.toNat_ofNat, BitVec.toNat_ofNat]
    change (i * 4096 % 2 ^ 32 + (0x200000 + free / 2 * 4096 : Word).toNat) % 2 ^ 32 = _
    rw [BitVec.toNat_add, BitVec.toNat_mul]
    change (i * 4096 % 2 ^ 32 + (0x200000 + (free / 2).toNat * 4096 % 2 ^ 32) % 2 ^ 32) % 2 ^ 32 = _
    omega

lemma framesApart_memPoolInit (s0 : MemState) (allMem : Word) :
    FramesApart (memPoolInit s0 allMem) := by
  obtain ⟨kernel, user, hlt, hk, hu, hkernel, huser⟩ := memPoolInit_frames s0 allMem
  intro p q hp hq i hi j hj heq
  have hnat := congrArg BitVec.toNat heq
  rcases hp with rfl | rfl <;> rcases hq with rfl | rfl <;>
    simp only [hkernel, huser, hk, hu, BitVec.toNat_ofNat] at hi hj hnat
  · exact ⟨rfl, by omega⟩
  · omega
  · omega
  · exact ⟨rfl, by omega⟩

lemma smallMaps_memPoolInit (s0 : MemState) (allMem : Word) : SmallMaps (memPoolInit s0 allMem) := by
  obtain ⟨kernel, user, hlt, hk, hu, -⟩ := memPoolInit_frames s0 allMem
  intro p hp
  cases p with
  | kernelPhy => omega
  | userPhy => omega
  | kernelVir =>
    -- as many pages as the kernel has frames
    change ((memPoolInit s0 allMem).btmp .kernelPhy).bitNum ≤ 2 ^ 31
    omega
  | userVir t => exact absurd rfl (hp t)

lemma Handed.init (m₀ : MemState) : Handed m₀ (fun _ => ∅) [] m₀ where
  sizes _ _ := ⟨rfl, rfl⟩
  taken _ _ hx := hx.elim
  apart _ _ _ := Set.disjoint_empty _
  frames _ _ ha := absurd ha List.not_mem_nil
  ranges _ hr := absurd hr List.not_mem_nil
  once := ⟨List.nodup_nil, List.Pairwise.nil⟩

/-- What `init_all` takes is taken alone. -/
lemma Unraced.init (h₀ : osInit s0 allMem page garbage = some s) :
    SmallMaps s.mem ∧ (∀ t, s.calls t = none) ∧ ∃ held, Unraced (memPoolInit s0 allMem) held s := by
  obtain ⟨sched, tr, x, -, hruns, rfl⟩ := osInit_cases h₀
  have hsmall := smallMaps_memPoolInit s0 allMem
  have hmaps := obedient_threadAllInitMemory (@reserving_maps none) (memPoolInit s0 allMem) ∅
    ⟨hsmall, fun v hv => nomatch hv⟩
  have hlone := obedient_threadAllInitMemory reserving_lone (memPoolInit s0 allMem) () hsmall
  let I : List MemLabel → MemState → Set (PoolId × ℕ) → Prop := fun tr x D =>
    Handed (memPoolInit s0 allMem) (Function.update (fun _ => ∅) bootThread D) tr x
  have hstart : I [] (memPoolInit s0 allMem) ∅ := by
    have hnone : Function.update (fun _ => ∅) bootThread ∅ = fun _ => (∅ : Set (PoolId × ℕ)) :=
      Function.update_eq_self bootThread _
    simp only [I, hnone]
    exact Handed.init _
  have htake : ∀ {tr f x y D D'}, I tr x D → mapsProtocol.access f x D y D' → I tr y D' := by
    rintro tr f x y D _ hI ⟨N, hN, rfl⟩
    have htake := hI.take (t := bootThread) hN
    rwa [Function.update_self, Function.update_idem] at htake
  have htell : ∀ {tr l x D D'}, I tr x D → mapsProtocol.tells l x D D' → I (tr ++ [l]) x D' := by
    intro tr l x D D' hI hl
    have htell := hI.tell (t := bootThread) (framesApart_memPoolInit s0 allMem)
      (by rwa [Function.update_self])
    rwa [Function.update_idem] at htell
  obtain ⟨D, hhanded, hfit⟩ := hmaps.run (I := I) hlone (fun _ _ => trivial) (fun _ _ _ _ _ hfit => hfit)
    htake htell hstart hruns
  have htrace : (tr.map fun l => (bootThread, l)).map Prod.snd = tr := by
    rw [List.map_map]
    exact List.map_id tr
  exact ⟨hfit.small, fun _ => rfl, _, htrace.symm ▸ hhanded, hfit.small, fun _ _ hc => nomatch hc⟩

end Start

section Results

variable {s0 : MemState} {allMem : Word} {page : ℕ → BitVec 8} {garbage : ℕ → Tcb}
  {s₀ s : OsState}

end Results

end OsI386
