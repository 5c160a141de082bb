import OsI386.DirectoryCalls

/-!
# The directories while calls overlap

What the calls in progress hold is apart, and no call holds the frame of a directory in use or the
page of a thread. So what a call does to the directories and records it does to those it holds,
and for every other call its accesses are among those of others.
-/
namespace OsI386
open Prog TransitionSystem

section Memory

/-- The directories, the tcbs of `threads`, and what each thread holds. -/
structure Shared (m : Phys) (threads : List ℕ) (hold : ℕ → Hold) (x : MemState) : Prop where
  dirs : DirInv m x
  mapped : ∀ t ∈ threads, PageMapped x t
  frames : ∀ t, ∀ f ∈ (hold t).frames, 0x200 ≤ f.toNat ∧ ¬ FreeFrame x f
  unused : ∀ t, ∀ f ∈ (hold t).frames, ∀ u, x.pgDir u ≠ 0 →
    translate x.phys 0x100 (x.pgDir u) ≠ some f
  pages : ∀ t, ∀ a ∈ (hold t).pages, PageMapped x a ∧ a ∉ threads
  apart : ∀ t u, t ≠ u →
    Disjoint (hold t).frames (hold u).frames ∧ Disjoint (hold t).pages (hold u).pages

variable {m : Phys} {threads : List ℕ} {hold hold' : ℕ → Hold} {x x' : MemState} {D D' : Hold}
  {f : FrameNo} {d : Word} {t u a : ℕ}

lemma Shared.resumed (h : Shared m threads hold x) (t : ℕ) :
    Shared m threads hold (x.resumed t) :=
  ⟨h.dirs.resumed t, h.mapped, h.frames, h.unused, h.pages, h.apart⟩

/-- Less is held. -/
lemma Shared.mono (h : Shared m threads hold x) (hle : ∀ t, hold' t ≤ hold t) :
    Shared m threads hold' x where
  dirs := h.dirs
  mapped := h.mapped
  frames t f hf := h.frames t f ((hle t).1 hf)
  unused t f hf := h.unused t f ((hle t).1 hf)
  pages t a ha := h.pages t a ((hle t).2 ha)
  apart t u htu := ⟨(h.apart t u htu).1.mono (hle t).1 (hle u).1,
    (h.apart t u htu).2.mono (hle t).2 (hle u).2⟩

/-- A new thread, whose page no call holds any longer. -/
lemma Shared.join (h : Shared m threads hold x) (hmap : PageMapped x a)
    (hfree : ∀ t, a ∉ (hold t).pages) : Shared m (threads ++ [a]) hold x where
  dirs := h.dirs
  mapped t ht := by
    rcases List.mem_append.mp ht with ht | ht
    · exact h.mapped t ht
    · exact List.mem_singleton.mp ht ▸ hmap
  frames := h.frames
  unused := h.unused
  pages t b hb := by
    refine ⟨(h.pages t b hb).1, fun hmem => ?_⟩
    rcases List.mem_append.mp hmem with hmem | hmem
    · exact (h.pages t b hb).2 hmem
    · exact hfree t (List.mem_singleton.mp hmem ▸ hb)
  apart := h.apart

/-- The directory of a thread is held by none. -/
lemma Shared.dirFrame_notHeld (h : Shared m threads hold x) (t u : ℕ) :
    dirFrame x t ∉ (hold u).frames := by
  intro hf
  by_cases ht : x.pgDir t = 0
  · rw [dirFrame, if_pos ht] at hf
    exact absurd (h.frames u _ hf).1 (by decide)
  · obtain ⟨f, hat⟩ := h.dirs.threads t ht
    rw [hat.dirFrame ht] at hf
    exact h.unused u f hf t ht hat.walk

/-- The running thread may go on in its call. -/
lemma Shared.inside (h : Shared m threads hold x) (hcr3 : x.cr3 = dirFrame x t) (u : ℕ) :
    Inside m (hold u) x where
  pools := h.dirs.pools
  low := h.dirs.low
  heap := h.dirs.heap
  heapBase := h.dirs.heapBase
  kernel := h.dirs.kernel.toKernelHalf
  active := by
    rw [hcr3]
    exact (h.dirs.dirFrame t).toKernelHalf
  nonzero := by
    rw [hcr3]
    exact (h.dirs.dirFrame t).nonzero
  taken := by
    rw [hcr3]
    exact (h.dirs.dirFrame t).taken
  apart := by
    rw [hcr3]
    exact h.dirFrame_notHeld t u
  held := h.frames u

/-- A directory in use stays one. -/
lemma Acts.dirFrame (g : Acts m D D' x x') (hf : DirFrame m x f) (hn : f ∉ D.frames) :
    DirFrame m x' f :=
  ⟨hf.toKernelHalf.kept (g.kept f hf.nonzero hn), hf.nonzero, g.taken.notFree hf.taken⟩

lemma Acts.dirAt (g : Acts m D D' x x') (hI : Inside m D x) (hd : DirAt m x d f)
    (hn : f ∉ D.frames) : DirAt m x' d f :=
  ⟨hI.kernel.walk_kept (fun _ hk => g.loader hI hk) ⟨hd.low, hd.high⟩ hd.walk,
    g.dirFrame hd.dir hn, hd.low, hd.high⟩

lemma Shared.notHeld (h : Shared m threads hold x) (ht : x.pgDir t ≠ 0)
    (hd : DirAt m x (x.pgDir t) f) (u : ℕ) : f ∉ (hold u).frames :=
  fun hf => h.unused u f hf t ht hd.walk

lemma Shared.acts_dirs (h : Shared m threads hold x) (hI : Inside m (hold u) x)
    (g : Acts m (hold u) D' x x') : DirInv m x' where
  pools := (g.inside hI).pools
  low := (g.inside hI).low
  heap := (g.inside hI).heap
  heapBase := (g.inside hI).heapBase
  kernel := g.dirFrame h.dirs.kernel (hI.notHeld ⟨by decide, by decide⟩).2
  threads t ht := by
    rcases g.pgDir t with hsame | ⟨-, h0 | ⟨f, hf, -, hmade⟩⟩
    · rw [hsame] at ht ⊢
      obtain ⟨f, hat⟩ := h.dirs.threads t ht
      exact ⟨f, g.dirAt hI hat (h.notHeld ht hat u)⟩
    · exact absurd h0 ht
    · obtain ⟨hlow, htaken⟩ := hI.held f hf
      have hf0 : f ≠ 0 := by
        rintro rfl
        exact absurd hlow (by decide)
      exact ⟨f, hmade.walk, ⟨hmade.half, hf0, g.taken.notFree htaken⟩, hmade.page.1, hmade.page.2⟩

/-- What a call newly holds no other holds. -/
lemma Shared.acts_apart (h : Shared m threads hold x) (g : Acts m (hold u) D' x x') (htu : t ≠ u) :
    Disjoint D'.frames (hold t).frames ∧ Disjoint D'.pages (hold t).pages := by
  obtain ⟨hframes, hpages⟩ := h.apart u t htu.symm
  refine ⟨Set.disjoint_left.mpr fun f hf ht => ?_, Set.disjoint_left.mpr fun a ha ht => ?_⟩
  · rcases g.frames f hf with hf | hf
    · exact Set.disjoint_left.mp hframes hf ht
    · exact (h.frames t f ht).2 hf.1
  · rcases g.pages a ha with ha | ha
    · exact Set.disjoint_left.mp hpages ha ht
    · exact ha.1 (h.pages t a ht).1

lemma held_update {D : Hold} {P : ℕ → Hold → Prop} (hself : P u D) (hother : ∀ t ≠ u, P t (hold t))
    (t : ℕ) : P t (Function.update hold u D t) := by
  by_cases ht : t = u
  · subst ht
    rwa [Function.update_self]
  · rw [Function.update_of_ne ht]
    exact hother t ht

lemma Shared.acts_unused (h : Shared m threads hold x) (hI : Inside m (hold u) x)
    (g : Acts m (hold u) D' x x') (t : ℕ) : ∀ f ∈ (Function.update hold u D' t).frames, ∀ v,
      x'.pgDir v ≠ 0 → translate x'.phys 0x100 (x'.pgDir v) ≠ some f := by
  refine held_update (P := fun _ E => ∀ f ∈ E.frames, ∀ v, x'.pgDir v ≠ 0 →
    translate x'.phys 0x100 (x'.pgDir v) ≠ some f) ?_ (fun t ht => ?_) t
  · intro f hf v hv hwalk
    rcases g.pgDir v with hsame | ⟨-, h0 | ⟨k, -, hk, hmade⟩⟩
    · rw [hsame] at hv hwalk
      obtain ⟨k, hat⟩ := h.dirs.threads v hv
      obtain rfl := Option.some.inj ((g.dirAt hI hat (h.notHeld hv hat u)).walk.symm.trans hwalk)
      exact (g.frames k hf).elim (h.notHeld hv hat u) fun hfree => hat.dir.taken hfree.1
    · exact hv h0
    · obtain rfl := Option.some.inj (hmade.walk.symm.trans hwalk)
      exact hk hf
  · intro f hf v hv hwalk
    rcases g.pgDir v with hsame | ⟨-, h0 | ⟨k, hk, -, hmade⟩⟩
    · rw [hsame] at hv hwalk
      obtain ⟨k, hat⟩ := h.dirs.threads v hv
      obtain rfl := Option.some.inj ((g.dirAt hI hat (h.notHeld hv hat u)).walk.symm.trans hwalk)
      exact h.notHeld hv hat t hf
    · exact hv h0
    · obtain rfl := Option.some.inj (hmade.walk.symm.trans hwalk)
      exact Set.disjoint_left.mp (h.apart t u ht).1 hf hk

/-- An access of the call of thread `u`. -/
lemma Shared.acts (h : Shared m threads hold x) (hI : Inside m (hold u) x)
    (g : Acts m (hold u) D' x x') : Shared m threads (Function.update hold u D') x' := by
  have hmapped : ∀ a, PageMapped x a → PageMapped x' a := fun a ha =>
    ha.kept hI.kernel fun _ hk => g.loader hI hk
  constructor
  case dirs => exact h.acts_dirs hI g
  case mapped => exact fun t ht => hmapped t (h.mapped t ht)
  case frames =>
    exact held_update (P := fun _ E => ∀ f ∈ E.frames, 0x200 ≤ f.toNat ∧ ¬ FreeFrame x' f)
      (g.inside hI).held fun t _ f hf => ⟨(h.frames t f hf).1, g.taken.notFree (h.frames t f hf).2⟩
  case unused => exact h.acts_unused hI g
  case pages =>
    refine held_update (P := fun _ E => ∀ a ∈ E.pages, PageMapped x' a ∧ a ∉ threads)
      (fun a ha => ?_) fun t _ a ha => ⟨hmapped a (h.pages t a ha).1, (h.pages t a ha).2⟩
    rcases g.pages a ha with ha | ⟨hnot, hmap⟩
    · exact ⟨hmapped a (h.pages u a ha).1, (h.pages u a ha).2⟩
    · exact ⟨hmap, fun hmem => hnot (h.mapped a hmem)⟩
  case apart =>
    intro t v htv
    by_cases ht : t = u
    · subst ht
      rw [Function.update_self, Function.update_of_ne htv.symm]
      exact h.acts_apart g htv.symm
    · rw [Function.update_of_ne ht]
      by_cases hv : v = u
      · subst hv
        rw [Function.update_self]
        exact ⟨(h.acts_apart g ht).1.symm, (h.acts_apart g ht).2.symm⟩
      · rw [Function.update_of_ne hv]
        exact h.apart t v htv

/-- A thread keeps its directory. -/
lemma Shared.acts_dirFrame (h : Shared m threads hold x) (hI : Inside m (hold u) x)
    (g : Acts m (hold u) D' x x') (ht : t ∈ threads) :
    x'.pgDir t = x.pgDir t ∧ dirFrame x' t = dirFrame x t := by
  have hsame : x'.pgDir t = x.pgDir t :=
    (g.pgDir t).resolve_right fun hp => (h.pages u t hp.1).2 ht
  refine ⟨hsame, ?_⟩
  by_cases h0 : x.pgDir t = 0
  · rw [dirFrame, dirFrame, hsame, if_pos h0, if_pos h0]
  · obtain ⟨f, hat⟩ := h.dirs.threads t h0
    have hat' : DirAt m x' (x'.pgDir t) f := by
      rw [hsame]
      exact g.dirAt hI hat (h.notHeld h0 hat u)
    rw [hat.dirFrame h0, hat'.dirFrame (hsame ▸ h0)]

/-- For a call of another thread the access is one of others. -/
lemma Shared.acts_others (h : Shared m threads hold x) (hI : Inside m (hold x.running) x)
    (g : Acts m (hold x.running) D' x x') (ht : t ∈ threads) (hne : t ≠ x.running) :
    Others False (hold t) (x.resumed t) (x'.resumed t) := by
  obtain ⟨hdir, hframe⟩ := h.acts_dirFrame hI g ht
  constructor
  case still => exact False.elim
  case taken => exact ⟨g.taken.sizes, g.taken.bits⟩
  case running => rfl
  case cr3 => exact hframe
  case own => exact g.own t hne fun hp => (h.pages _ t hp).2 ht
  case pgDir => exact hdir
  case kept =>
    intro f hf
    suffices f ≠ 0 ∧ f ∉ (hold x.running).frames from g.kept f this.1 this.2
    rcases hf with hf | rfl | hf
    · exact hI.notHeld hf
    · exact ⟨(h.dirs.dirFrame t).nonzero, h.dirFrame_notHeld t _⟩
    · refine ⟨?_, fun hf' => Set.disjoint_left.mp (h.apart t _ hne).1 hf hf'⟩
      rintro rfl
      exact absurd (h.frames t 0 hf).1 (by decide)

end Memory

section System

/-- The condition of a step: the store the running thread is at is fresh, and a page that
`target_vaddr_malloc` is asked for is in the map of its pool. -/
def StoresFresh (s : OsState) : OsEvent → Prop
  | .access => ∀ c, s.calls s.sched.runningThread = some c → c.rest.Next (StoreFresh · s.mem)
  | .call c => c.InMap s.mem
  | .threadUnblock t => t ∈ s.sched.allList
  | _ => True

/-- Any number of calls in progress, or only one, with what their threads hold. -/
structure Sharing (m : Phys) (lone : Prop) (hold : ℕ → Hold) (s : OsState) : Prop where
  sched : SchedInv s.sched
  mem : Shared m s.sched.allList hold s.mem
  running : s.mem.running = s.sched.runningThread
  cr3 : s.mem.cr3 = dirFrame s.mem s.sched.runningThread
  esp0 : s.mem.pgDir s.sched.runningThread ≠ 0 → s.esp0 = tssEsp0Update s.sched.runningThread
  dirs : ∀ d ∈ s.dirs, d ≠ 0 ∧ ∃ t ∈ s.sched.allList, s.mem.pgDir t = d
  calls : ∀ t c, s.calls t = some c → t ∈ s.sched.allList ∧
    c.rest.Obeys (dirsProtocol m lone) (fun _ D a => c.kind.Held D a) (s.mem.resumed t) (hold t)
  idle : ∀ t, s.calls t = none → hold t = ⟨∅, ∅⟩
  alone : lone → ∀ t c, s.calls t = some c → ∀ u, u ≠ t → s.calls u = none

variable {m : Phys} {lone : Prop} {hold : ℕ → Hold} {s s' : OsState} {sched : Scheduler ℕ} {e : OsEvent}
  {kind : OsCall} {c : Call} {a : Word} {t prio : ℕ}

lemma Sharing.inside (h : Sharing m lone hold s) (t : ℕ) : Inside m (hold t) s.mem :=
  h.mem.inside h.cr3 t

/-- The running thread finds the memory as it left it. -/
lemma Sharing.resumed (h : Sharing m lone hold s) : s.mem.resumed s.sched.runningThread = s.mem := by
  unfold MemState.resumed
  rw [← h.cr3, ← h.running]

lemma Sharing.startCall (h : Sharing m lone hold s) (hnone : s.calls s.sched.runningThread = none)
    (hc : kind.InMap s.mem) (halone : lone → ∀ t, s.calls t = none) : Sharing m lone hold { s with
      calls := Function.update s.calls s.sched.runningThread (some ⟨kind, kind.prog⟩) } := by
  refine ⟨h.sched, h.mem, h.running, h.cr3, h.esp0, h.dirs, fun t d hd => ?_, fun t ht => ?_,
    fun hl t d hd u hu => ?_⟩
  · by_cases hrun : t = s.sched.runningThread
    · subst hrun
      obtain rfl : ⟨kind, kind.prog⟩ = d := by simpa using hd
      have hI := h.inside s.sched.runningThread
      rw [h.idle _ hnone] at hI
      refine ⟨h.sched.running, ?_⟩
      change kind.prog.Obeys _ _ (s.mem.resumed s.sched.runningThread) _
      rw [h.resumed, h.idle _ hnone]
      exact OsCall.obeys_dirs hI hc
    · exact h.calls t d ((Function.update_of_ne hrun _ _).symm.trans hd)
  · by_cases hrun : t = s.sched.runningThread
    · subst hrun
      exact h.idle _ hnone
    · exact h.idle t ((Function.update_of_ne hrun _ _).symm.trans ht)
  · obtain ⟨rfl, -⟩ := update_call (fun u _ => halone hl u) hd
    exact (Function.update_of_ne hu _ _).trans (halone hl u)

/-- A thread whose call is at its end holds nothing any longer. -/
lemma Sharing.endCall (h : Sharing m lone hold s) (t : ℕ) :
    Sharing m lone (Function.update hold t ⟨∅, ∅⟩)
      { s with calls := Function.update s.calls t none } := by
  have hle : ∀ u, Function.update hold t ⟨∅, ∅⟩ u ≤ hold u :=
    held_update (P := fun u E => E ≤ hold u) ⟨Set.empty_subset _, Set.empty_subset _⟩
      fun u _ => (hold u).le_refl
  refine ⟨h.sched, h.mem.mono hle, h.running, h.cr3, h.esp0, h.dirs, fun u d hd => ?_,
    fun u hu => ?_, fun hl u d hd v hv => ?_⟩
  · have hut : u ≠ t := by
      rintro rfl
      simp at hd
    rw [Function.update_of_ne hut]
    exact h.calls u d ((Function.update_of_ne hut _ _).symm.trans hd)
  · by_cases hut : u = t
    · rw [hut, Function.update_self]
    · rw [Function.update_of_ne hut]
      exact h.idle u ((Function.update_of_ne hut _ _).symm.trans hu)
  · have hut : u ≠ t := by
      rintro rfl
      simp at hd
    have hothers := h.alone hl u d ((Function.update_of_ne hut _ _).symm.trans hd)
    by_cases hvt : v = t
    · exact hvt ▸ Function.update_self _ _ _
    · exact (Function.update_of_ne hvt _ _).trans (hothers v hv)

/-- A new thread joins, and its directory the list of those returned. -/
lemma Sharing.join (h : Sharing m lone hold s) {task : ℕ} (hmap : PageMapped s.mem task)
    (hfree : ∀ t, task ∉ (hold t).pages) {dirs : List Word}
    (hd : ∀ d ∈ dirs, d ∈ s.dirs ∨ d ≠ 0 ∧ s.mem.pgDir task = d)
    (hs : threadRun s.sched task prio = some sched) :
    Sharing m lone hold { s with sched := sched, dirs := dirs } := by
  obtain ⟨hinv, hall, hrun⟩ := threadRun_taken h.sched hs
  have hmem : ∀ t ∈ s.sched.allList, t ∈ sched.allList := fun t ht =>
    hall ▸ List.mem_append_left _ ht
  constructor
  case sched => exact hinv
  case mem =>
    change Shared m sched.allList hold s.mem
    rw [hall]
    exact h.mem.join hmap hfree
  case running => exact h.running.trans hrun.symm
  case cr3 =>
    change s.mem.cr3 = dirFrame s.mem sched.runningThread
    rw [hrun, h.cr3]
  case esp0 =>
    change s.mem.pgDir sched.runningThread ≠ 0 → s.esp0 = tssEsp0Update sched.runningThread
    rw [hrun]
    exact h.esp0
  case dirs =>
    intro d hmd
    rcases hd d hmd with hold | ⟨h0, hdir⟩
    · obtain ⟨h0, t, ht, hdir⟩ := h.dirs d hold
      exact ⟨h0, t, hmem t ht, hdir⟩
    · refine ⟨h0, task, ?_, hdir⟩
      change task ∈ sched.allList
      rw [hall]
      exact List.mem_append_right _ List.mem_cons_self
  case calls => exact fun t c hc => ⟨hmem t (h.calls t c hc).1, (h.calls t c hc).2⟩
  case idle => exact h.idle
  case alone => exact h.alone

/-- A call returns the page it holds for the tcb of the thread it made. -/
lemma Sharing.osReturn (h : Sharing m lone hold s) (hheld : kind.Held (hold t) a)
    (hs : osReturn { s with calls := Function.update s.calls t none } kind a = some s') :
    Sharing m lone (Function.update hold t ⟨∅, ∅⟩) s' := by
  have hend := h.endCall t
  have hown : a.toNat ∈ (hold t).pages → PageMapped s.mem a.toNat ∧
      ∀ u, a.toNat ∉ (Function.update hold t ⟨∅, ∅⟩ u).pages := by
    intro ha
    refine ⟨(h.mem.pages t _ ha).1, held_update (P := fun _ E => a.toNat ∉ E.pages) id ?_⟩
    exact fun u hut hu => Set.disjoint_left.mp (h.mem.apart u t hut).2 hu ha
  cases kind with
  | threadRun prio =>
    obtain ⟨sched, hrun, rfl⟩ := Option.map_eq_some_iff.mp hs
    obtain ⟨hmap, hfree⟩ := hown hheld
    exact hend.join hmap hfree (fun _ => .inl) hrun
  | mem c =>
    cases c with
    | processRun =>
      obtain ⟨sched, hrun, rfl⟩ := Option.map_eq_some_iff.mp hs
      obtain ⟨hmap, hfree⟩ := hown hheld
      refine hend.join hmap hfree (fun d hd => ?_) hrun
      split_ifs at hd with h0
      · exact .inl hd
      · rcases List.mem_cons.mp hd with rfl | hd
        · exact .inr ⟨h0, rfl⟩
        · exact .inl hd
    | kernelPagesMalloc n => exact Option.some.inj hs ▸ hend
    | userPagesMalloc n => exact Option.some.inj hs ▸ hend
    | targetVaddrMalloc pf v => exact Option.some.inj hs ▸ hend

/-- The memory after an access of the running thread. -/
lemma Sharing.acts (h : Sharing m lone hold s) {x : MemState} {D : Hold} {rest : MemProg Word}
    {trace : List (ℕ × MemLabel)} (hc : s.calls s.sched.runningThread = some c)
    (g : Acts m (hold s.sched.runningThread) D s.mem x)
    (hrest : rest.Obeys (dirsProtocol m lone) (fun _ D a => c.kind.Held D a) x D) :
    Sharing m lone (Function.update hold s.sched.runningThread D) { s with
      mem := x
      calls := Function.update s.calls s.sched.runningThread (some { c with rest := rest })
      trace := trace } := by
  have hI := h.inside s.sched.runningThread
  obtain ⟨hdir, hframe⟩ := h.mem.acts_dirFrame hI g h.sched.running
  have hcr3 : x.cr3 = dirFrame x s.sched.runningThread := by rw [g.cr3, h.cr3, hframe]
  have hrun : x.running = s.sched.runningThread := g.running.trans h.running
  constructor
  case sched => exact h.sched
  case mem => exact h.mem.acts hI g
  case running => exact hrun
  case cr3 => exact hcr3
  case esp0 =>
    change x.pgDir _ ≠ 0 → _
    rw [hdir]
    exact h.esp0
  case dirs =>
    intro d hd
    obtain ⟨h0, t, ht, hdir⟩ := h.dirs d hd
    exact ⟨h0, t, ht, (h.mem.acts_dirFrame hI g ht).1.trans hdir⟩
  case calls =>
    intro t d hd
    by_cases ht : t = s.sched.runningThread
    · subst ht
      obtain rfl : { c with rest := rest } = d := by simpa using hd
      refine ⟨(h.calls _ c hc).1, ?_⟩
      have hsame : x.resumed s.sched.runningThread = x := by
        unfold MemState.resumed
        rw [← hcr3, ← hrun]
      change rest.Obeys _ _ (x.resumed s.sched.runningThread) _
      rw [hsame, Function.update_self]
      exact hrest
    · have hd' : s.calls t = some d := (Function.update_of_ne ht _ _).symm.trans hd
      have hl : ¬ lone := fun hl => by
        rw [h.alone hl _ c hc t ht] at hd'
        cases hd'
      obtain ⟨hmem, hobeys⟩ := h.calls t d hd'
      refine ⟨hmem, ?_⟩
      rw [Function.update_of_ne ht]
      rw [← h.running] at hI g ht
      exact hobeys.others ((h.mem.acts_others hI g hmem ht).of_still fun hl' => absurd hl' hl)
  case idle =>
    intro t ht
    by_cases hrun : t = s.sched.runningThread
    · subst hrun
      simp at ht
    · rw [Function.update_of_ne hrun]
      exact h.idle t ((Function.update_of_ne hrun _ _).symm.trans ht)
  case alone =>
    intro hl t d hd u hu
    obtain ⟨rfl, -⟩ := update_call (h.alone hl _ c hc) hd
    exact (Function.update_of_ne hu _ _).trans (h.alone hl _ c hc u hu)

lemma next_storeFresh (hok : ¬ lone → StoresFresh s .access)
    (hc : s.calls s.sched.runningThread = some c) :
    c.rest.Next ((dirsProtocol m lone).ok · s.mem) := by
  by_cases hl : lone
  · exact next_of_forall fun _ hn => absurd hl hn
  · exact (hok hl c hc).mono fun _ hf _ => hf

lemma Sharing.access (h : Sharing m lone hold s) (hok : ¬ lone → StoresFresh s .access)
    (hs : osAccess s s.sched.runningThread = some s') : ∃ hold', Sharing m lone hold' s' := by
  obtain ⟨c, hc, hcases⟩ := osAccess_cases hs
  have hobeys := (h.calls _ c hc).2
  rw [h.resumed] at hobeys
  rcases hcases with ⟨a, hr, hret⟩ | ⟨ls, mem, rest, hadv, rfl⟩
  · rw [hr] at hobeys
    exact ⟨_, h.osReturn (hobeys s.mem (Others.refl _ _)) hret⟩
  · obtain ⟨D, hrest, -, hstep⟩ := hobeys.advance (next_storeFresh hok hc) hadv
    refine ⟨_, h.acts hc (D := D) ?_ hrest⟩
    rcases hstep with ⟨-, f, hacts, -⟩ | ⟨l, -, rfl, rfl⟩
    · exact hacts
    · exact Acts.refl m _ _

/-- A call in progress does not see who ran meanwhile. -/
lemma Sharing.rescheduled (h : Sharing m lone hold s) (hs : Rescheduled s s') : Sharing m lone hold s' := by
  cases hs with
  | @switched sched hinv hall =>
    constructor
    case sched => exact hinv
    case mem =>
      have hmem := h.mem.resumed sched.runningThread
      rw [← hall] at hmem
      exact hmem
    case running => rfl
    case cr3 => rfl
    case esp0 => exact fun hne => if_pos hne
    case dirs =>
      intro d hd
      obtain ⟨h0, t, ht, hdir⟩ := h.dirs d hd
      exact ⟨h0, t, hall.symm ▸ ht, hdir⟩
    case calls => exact fun t c hc => ⟨hall.symm ▸ (h.calls t c hc).1, (h.calls t c hc).2⟩
    case idle => exact h.idle
    case alone => exact h.alone
  | @stays sched hinv hall hrun =>
    constructor
    case sched => exact hinv
    case mem =>
      change Shared m sched.allList hold s.mem
      rw [hall]
      exact h.mem
    case running => exact h.running.trans hrun.symm
    case cr3 =>
      change s.mem.cr3 = dirFrame s.mem sched.runningThread
      rw [hrun, h.cr3]
    case esp0 =>
      change s.mem.pgDir sched.runningThread ≠ 0 → s.esp0 = tssEsp0Update sched.runningThread
      rw [hrun]
      exact h.esp0
    case dirs =>
      intro d hd
      obtain ⟨h0, t, ht, hdir⟩ := h.dirs d hd
      exact ⟨h0, t, hall.symm ▸ ht, hdir⟩
    case calls => exact fun t c hc => ⟨hall.symm ▸ (h.calls t c hc).1, (h.calls t c hc).2⟩
    case idle => exact h.idle
    case alone => exact h.alone

lemma Sharing.active (h : Sharing m lone hold s) : DirFrame m s.mem s.mem.cr3 := by
  rw [h.cr3]
  exact h.mem.dirs.dirFrame _

/-- The condition of a step: calls are alone, or their stores are fresh. -/
structure StepFits (lone : Prop) (s : OsState) (e : OsEvent) : Prop where
  known : ∀ t, e = .threadUnblock t → t ∈ s.sched.allList
  inMap : ∀ c, e = .call c → c.InMap s.mem
  alone : lone → ∀ c, e = .call c → ∀ t, s.calls t = none
  fresh : ¬ lone → StoresFresh s e

lemma Sharing.step (h : Sharing m lone hold s) (ok : StepFits lone s e)
    (hs : osStep s e = some s') : ∃ hold', Sharing m lone hold' s' := by
  rcases osStep_cases h.mem.dirs h.active h.sched ok.known hs with
    ⟨c, rfl, hnone, rfl⟩ | ⟨rfl, hs⟩ | hs
  · exact ⟨hold, h.startCall hnone (ok.inMap c rfl) fun hl => ok.alone hl c rfl⟩
  · exact h.access ok.fresh hs
  · exact ⟨hold, h.rescheduled hs⟩

lemma StoresFresh.fits (ok : StoresFresh s e) : StepFits False s e := by
  refine ⟨?_, ?_, False.elim, fun _ => ok⟩
  · rintro t rfl
    exact ok
  · rintro c rfl
    exact ok

lemma OsAllowed.fits (ok : OsAllowed s e) : StepFits True s e := by
  refine ⟨ok.known, ?_, fun _ => ?_, fun hl => absurd trivial hl⟩
  · rintro c rfl
    exact ok.2
  · rintro c rfl
    exact ok.1

end System

section Start

variable {m : Phys} {lone : Prop} {s0 : MemState} {allMem : Word} {page : ℕ → BitVec 8} {garbage : ℕ → Tcb}
  {s s₀ : OsState} {x x' : MemState} {t : ℕ}

/-- The stack and the tcb of the boot thread are in the page at 0x9e000. -/
lemma pageMapped_bootThread (hphys : x.phys = setupPage m) : PageMapped x bootThread := by
  refine ⟨0xc009e000, 0x9e, rfl, ⟨by decide, by decide⟩, ?_⟩
  have hpde : pdeIdx 0xc009e000 = 768 := by decide
  have hpte : pteIdx 0xc009e000 = 0x9e := by decide
  have hdir : setupPage m 0x100 768 = 0x101007 := rfl
  have htable : setupPage m (frameOf 0x101007) 0x9e = 0x9e007 := rfl
  rw [hphys, translate, hpde, hdir, hpte, htable]
  decide

lemma PageMapped.grows (ht : PageMapped x t) (hi : DirInv m x) (hr : Ready x) (g : Grows x x') :
    PageMapped x' t := by
  refine ht.kept hi.kernel.toKernelHalf fun f hf => g.kept hr f ?_ fun hfree => ?_
  · rintro rfl
    exact absurd hf.1 (by decide)
  · exact absurd (hi.low f hfree) (not_le.mpr hf.2)

lemma Sharing.init (h₀ : osInit s0 allMem page garbage = some s) (hphys : s0.phys = setupPage m)
    (hcr3 : s0.cr3 = 0x100) (hdir : ∀ t, s0.pgDir t = 0)
    (htop : 0xc0100000 + ((memPoolInit s0 allMem).btmp .kernelVir).bitNum * 4096 ≤ 0xffc00000) :
    Sharing m lone (fun _ => ⟨∅, ∅⟩) s := by
  have hinv := OsInv.init h₀ hphys hcr3 hdir htop
  obtain ⟨sched, tr, y, hsched, hr, rfl⟩ := osInit_cases h₀
  have hboot : PageMapped y bootThread := by
    have hi := DirInv.init hphys hdir htop
    obtain ⟨hi0, hready⟩ := hi.running hcr3 hdir 0
    obtain ⟨z, hz, q, rfl⟩ := threadAllInit_booted hr
    have hstart : PageMapped { memPoolInit s0 allMem with running := 0 } bootThread :=
      pageMapped_bootThread hphys
    have hmapped : PageMapped z bootThread := hstart.grows hi0 hready hz.toGrows
    exact hmapped
  obtain ⟨s1, h1, -, hall⟩ := threadAllInit_spec bootThread page garbage
  obtain rfl := Option.some.inj (h1.symm.trans hsched)
  refine ⟨hinv.sched, ⟨hinv.mem, fun t ht => ?_, ?_, ?_, ?_, ?_⟩, hinv.running, hinv.cr3, hinv.esp0,
    ?_, ?_, fun _ _ => rfl, fun _ t c hc => by cases hc⟩
  · rw [hall] at ht
    exact List.mem_singleton.mp ht ▸ hboot
  · exact fun _ _ hf => absurd hf (Set.notMem_empty _)
  · exact fun _ _ hf => absurd hf (Set.notMem_empty _)
  · exact fun _ _ ha => absurd ha (Set.notMem_empty _)
  · exact fun _ _ _ => ⟨Set.disjoint_empty _, Set.disjoint_empty _⟩
  · exact fun d hd => absurd hd List.not_mem_nil
  · exact fun t c hc => by cases hc

end Start

end OsI386
