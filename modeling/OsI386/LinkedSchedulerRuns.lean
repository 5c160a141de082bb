import OsI386.LinkedScheduler

/-!
# The linked scheduler follows the scheduler of sequences

A state of the linked scheduler represents an abstract one if its lists hold the tags of the
abstract queues. Threads start at pages, so that tags are apart from each other and from the heads
and tails of the lists.
-/
namespace OsI386
open X86 Prog TransitionSystem

namespace LinkedScheduler

section Tags

/-- A page for a tcb, apart from `struct scheduler`. -/
structure IsThread (cs t : Word) : Prop where
  page : t.toNat % 4096 = 0
  apart : RangesApart t 4096 cs 1088

/-- `struct scheduler` is not at `NULL` and does not wrap around. -/
structure Placed (cs : Word) : Prop where
  pos : 0 < cs.toNat
  room : cs.toNat + 1088 ≤ 2 ^ 32

variable {cs t u L : Word} {j k o : ℕ}

lemma IsThread.ne (h : IsThread cs t) (hj : j < 1088) (ho : o < 4096) :
    t + BitVec.ofNat 32 o ≠ cs + BitVec.ofNat 32 j := by
  intro he
  have hfar := h.apart.far hj
  rw [← he, add_sub_cancel_left, BitVec.toNat_ofNat] at hfar
  omega

lemma toNat_tag_mod (h : t.toNat % 4096 = 0) (ho : o < 4096) :
    (t + BitVec.ofNat 32 o).toNat % 4096 = o := by
  rw [BitVec.toNat_add, BitVec.toNat_ofNat]
  omega

lemma readyTag_injective : Function.Injective readyTag := fun _ _ h => add_right_cancel h

lemma allListTag_injective : Function.Injective allListTag := fun _ _ h => add_right_cancel h

lemma entryOfTag_readyTag (t : Word) : entryOfTag (readyTag t) = t := add_sub_cancel_right t 40

lemma tag_ne_zero (h : t.toNat % 4096 = 0) (ho : o < 4096) (hpos : 0 < o) :
    t + BitVec.ofNat 32 o ≠ 0 := by
  intro he
  have hmod := toNat_tag_mod h ho
  have hz : (0 : Word).toNat = 0 := rfl
  rw [he, hz] at hmod
  omega

lemma tag_ne_tag {o' : ℕ} (ht : t.toNat % 4096 = 0) (hu : u.toNat % 4096 = 0) (ho : o < 4096)
    (ho' : o' < 4096) (hne : o ≠ o') : t + BitVec.ofNat 32 o ≠ u + BitVec.ofNat 32 o' := by
  intro he
  have hmod := toNat_tag_mod ht ho
  rw [he, toNat_tag_mod hu ho'] at hmod
  exact hne hmod.symm

/-- `all_list` is where a ready queue 32 would be. -/
lemma allList_eq (cs : Word) : allList cs = thisRq cs 32 := by
  rw [allList, thisRq, add_assoc]
  rfl

lemma mem_lists : L ∈ lists cs ↔ ∃ k < 33, L = thisRq cs k := by
  rw [lists, List.mem_append, List.mem_map, List.mem_singleton, allList_eq]
  constructor
  · rintro (⟨k, hk, rfl⟩ | rfl)
    · exact ⟨k, by have := List.mem_range.mp hk; unfold prioNum at this; omega, rfl⟩
    · exact ⟨32, by norm_num, rfl⟩
  · rintro ⟨k, hk, rfl⟩
    obtain hlt | rfl : k < 32 ∨ k = 32 := by omega
    · exact .inl ⟨k, List.mem_range.mpr hlt, rfl⟩
    · exact .inr rfl

lemma thisRq_eq (cs : Word) (k : ℕ) : thisRq cs k = cs + BitVec.ofNat 32 (536 + 16 * k) := by
  rw [thisRq, add_assoc, BitVec.ofNat_add]
  rfl

lemma tailOf_thisRq (cs : Word) (k : ℕ) :
    tailOf (thisRq cs k) = cs + BitVec.ofNat 32 (536 + 16 * k + 8) := by
  rw [tailOf, thisRq_eq, BitVec.ofNat_add (536 + 16 * k) 8, ← add_assoc]
  rfl

/-- A tag is not an end of a list. -/
lemma IsThread.not_end (h : IsThread cs t) (hL : L ∈ lists cs) (ho : o < 4096) :
    t + BitVec.ofNat 32 o ≠ headOf L ∧ t + BitVec.ofNat 32 o ≠ tailOf L := by
  obtain ⟨k, hk, rfl⟩ := mem_lists.mp hL
  rw [tailOf_thisRq, headOf, thisRq_eq]
  exact ⟨h.ne (by omega) ho, h.ne (by omega) ho⟩

lemma lists_eq (cs : Word) : lists cs = (List.range 33).map (thisRq cs) := by
  rw [lists, allList_eq, List.range_succ, List.map_append]
  rfl

/-- By induction on the number of lists; heads and tails alternate. -/
lemma flatMap_sentinels (cs : Word) (n : ℕ) : ((List.range n).map (thisRq cs)).flatMap sentinels =
    (List.range (2 * n)).map fun j => cs + BitVec.ofNat 32 (536 + 8 * j) := by
  induction n with
  | zero => rfl
  | succ n ih =>
    have hn : 2 * (n + 1) = 2 * n + 1 + 1 := by ring
    have hhead : 536 + 8 * (2 * n) = 536 + 16 * n := by ring
    have htail : 536 + 8 * (2 * n + 1) = 536 + 16 * n + 8 := by ring
    rw [List.range_succ, List.map_append, List.flatMap_append, ih, hn, List.range_succ,
      List.range_succ]
    simp [sentinels, headOf, tailOf_thisRq, hhead, htail, ← thisRq_eq]

lemma toNat_placed (h : Placed cs) (hj : j < 1088) :
    (cs + BitVec.ofNat 32 j).toNat = cs.toNat + j := by
  have hroom := h.room
  rw [BitVec.toNat_add, BitVec.toNat_ofNat, Nat.mod_eq_of_lt (a := j) (by omega)]
  omega

lemma family_lists (h : Placed cs) : Family (lists cs) := by
  rw [lists_eq]
  constructor
  · rw [flatMap_sentinels]
    refine List.Nodup.map_on (fun i hi j hj he => ?_) List.nodup_range
    have hi' := List.mem_range.mp hi
    have hj' := List.mem_range.mp hj
    have hnat := congrArg BitVec.toNat he
    rw [toNat_placed h (by omega), toNat_placed h (by omega)] at hnat
    omega
  · rw [flatMap_sentinels]
    intro hmem
    obtain ⟨j, hj, he⟩ := List.mem_map.mp hmem
    have hj' := List.mem_range.mp hj
    have hnat := congrArg BitVec.toNat he
    have hz : (0 : Word).toNat = 0 := rfl
    have hpos := h.pos
    rw [toNat_placed h (by omega), hz] at hnat
    omega

end Tags

section View

/-- The number of a list in `struct scheduler`. -/
def listIndex (cs L : Word) : ℕ := (L - (cs + 536)).toNat / 16

/-- The tags in each list, for the threads in the queues. -/
def tags (cs : Word) (rq : ℕ → List Word) (all : List Word) (L : Word) : List Word :=
  if listIndex cs L < prioNum then (rq (listIndex cs L)).map readyTag else all.map allListTag

/-- The abstract state with these queues. -/
def view (c : LinkedScheduler) (rq : ℕ → List Word) (all : List Word) : Scheduler Word where
  runningThread := c.runningThread
  needSchedule := c.needSchedule
  idleThread := c.idleThread
  threadTable := c.threadTable
  rqMask := c.rqMask
  rq := rq
  allList := all
  tcb := c.tcb
  ticks := c.ticks

variable {cs L : Word} {c c' : LinkedScheduler} {s s' : Scheduler Word} {k : ℕ}
  {rq : ℕ → List Word} {all : List Word}

lemma listIndex_thisRq (hk : k < 33) : listIndex cs (thisRq cs k) = k := by
  rw [listIndex, thisRq, add_sub_cancel_left, BitVec.toNat_ofNat]
  omega

lemma tags_thisRq (hk : k < prioNum) : tags cs rq all (thisRq cs k) = (rq k).map readyTag := by
  have hlt : k < 32 := hk
  rw [tags, listIndex_thisRq (by omega), if_pos hk]

lemma tags_allList : tags cs rq all (allList cs) = all.map allListTag := by
  rw [tags, allList_eq, listIndex_thisRq (by norm_num)]
  exact if_neg (by decide)

lemma thisRq_injective {j : ℕ} (hj : j < 33) (hk : k < 33) (h : thisRq cs j = thisRq cs k) :
    j = k := by
  have hindex : listIndex cs (thisRq cs j) = j := listIndex_thisRq hj
  rw [← hindex, h, listIndex_thisRq hk]

lemma tags_update_rq (hk : k < prioNum) (q : List Word) (hL : L ∈ lists cs) :
    tags cs (Function.update rq k q) all L =
      Function.update (tags cs rq all) (thisRq cs k) (q.map readyTag) L := by
  have hlt : k < 32 := hk
  obtain ⟨j, hj, rfl⟩ := mem_lists.mp hL
  by_cases hjk : j = k
  · rw [hjk, Function.update_self, tags_thisRq hk, Function.update_self]
  · have hne : thisRq cs j ≠ thisRq cs k := fun he => hjk (thisRq_injective hj (by omega) he)
    rw [Function.update_of_ne hne, tags, tags, listIndex_thisRq hj, Function.update_of_ne hjk]

lemma tags_update_all (all' : List Word) (hL : L ∈ lists cs) :
    tags cs rq all' L =
      Function.update (tags cs rq all) (allList cs) (all'.map allListTag) L := by
  obtain ⟨j, hj, rfl⟩ := mem_lists.mp hL
  obtain hlt | rfl : j < 32 ∨ j = 32 := by omega
  · have hne : thisRq cs j ≠ allList cs := by
      rw [allList_eq]
      exact fun he => absurd (thisRq_injective hj (by omega) he) (by omega)
    rw [Function.update_of_ne hne, tags_thisRq hlt, tags_thisRq hlt]
  · rw [← allList_eq, tags_allList, Function.update_self]

/-- The linked state `c` stands for `s`. -/
structure Represents (cs : Word) (c : LinkedScheduler) (s : Scheduler Word) : Prop where
  fields : c.view s.rq s.allList = s
  links : Rep (lists cs) c.links (tags cs s.rq s.allList)
  threads : ∀ t, s.Linked t ∨ t ∈ s.allList → IsThread cs t

/-- What the two states have in common is read alike. -/
lemma Represents.read {α : Type} (h : Represents cs c s) (f : LinkedScheduler → α)
    (g : Scheduler Word → α) (hfg : ∀ rq all, f c = g (c.view rq all)) : f c = g s := by
  rw [hfg s.rq s.allList, h.fields]

/-- A change of what the two states have in common. -/
lemma Represents.modify {f : LinkedScheduler → LinkedScheduler} {g : Scheduler Word → Scheduler Word}
    (h : Represents cs c s) (hview : ∀ rq all, (f c).view rq all = g (c.view rq all))
    (hlinks : (f c).links = c.links) : Represents cs (f c) (g s) := by
  have hs := hview s.rq s.allList
  rw [h.fields] at hs
  have hrq : (g s).rq = s.rq := hs ▸ rfl
  have hall : (g s).allList = s.allList := hs ▸ rfl
  refine ⟨?_, ?_, ?_⟩
  · rw [hrq, hall, hs]
  · rw [hlinks, hrq, hall]
    exact h.links
  · simpa only [Scheduler.Linked, hrq, hall] using h.threads

/-- Other queues, and links that hold their tags. -/
lemma Represents.relink {m : Links Word} (h : Represents cs c s)
    (hm : Rep (lists cs) m (tags cs rq all))
    (hthreads : ∀ t, (∃ p < prioNum, t ∈ rq p) ∨ t ∈ all → IsThread cs t) :
    Represents cs { c with links := m } { s with rq := rq, allList := all } where
  fields := congrArg (fun s : Scheduler Word => { s with rq := rq, allList := all }) h.fields
  links := hm
  threads := hthreads

end View

section Unlisted

variable {cs t e L : Word} {c : LinkedScheduler} {s : Scheduler Word} {m : Links Word}

/-- A tag is not a tag or an end of a list if it is no element of that list. -/
lemma IsThread.unlisted (ht : IsThread cs t) {o : ℕ} (ho : o < 4096)
    (hpos : 0 < o) (hrq : ∀ p < prioNum, t + BitVec.ofNat 32 o ∉ (s.rq p).map readyTag)
    (hall : t + BitVec.ofNat 32 o ∉ s.allList.map allListTag) :
    Unlisted (lists cs) (tags cs s.rq s.allList) (t + BitVec.ofNat 32 o) := by
  refine ⟨tag_ne_zero ht.page ho hpos, fun L hL hmem => ?_⟩
  obtain ⟨hhead, htail⟩ := ht.not_end hL ho
  rw [nodes, List.mem_cons, List.mem_append, List.mem_singleton] at hmem
  have hin := (hmem.resolve_left hhead).resolve_right htail
  rw [tags] at hin
  split_ifs at hin with hlt
  · exact hrq _ hlt hin
  · exact hall hin

lemma Represents.notMem_rq (h : Represents cs c s) (ht : IsThread cs t) {o : ℕ} (ho : o < 4096)
    (hne : o ≠ 40) {p : ℕ} (hp : p < prioNum) :
    t + BitVec.ofNat 32 o ∉ (s.rq p).map readyTag := by
  intro hmem
  obtain ⟨u, hu, he⟩ := List.mem_map.mp hmem
  exact tag_ne_tag (h.threads u (.inl ⟨p, hp, hu⟩)).page ht.page (by norm_num) ho hne.symm he

lemma Represents.notMem_all (h : Represents cs c s) (ht : IsThread cs t) {o : ℕ} (ho : o < 4096)
    (hne : o ≠ 56) : t + BitVec.ofNat 32 o ∉ s.allList.map allListTag := by
  intro hmem
  obtain ⟨u, hu, he⟩ := List.mem_map.mp hmem
  exact tag_ne_tag (h.threads u (.inr hu)).page ht.page (by norm_num) ho hne.symm he

lemma Represents.unlisted_readyTag (h : Represents cs c s) (ht : IsThread cs t)
    (hlink : ¬ s.Linked t) : Unlisted (lists cs) (tags cs s.rq s.allList) (readyTag t) := by
  refine ht.unlisted (o := 40) (by norm_num) (by norm_num) (fun p hp hmem => ?_)
    (h.notMem_all ht (by norm_num) (by norm_num))
  obtain ⟨u, hu, he⟩ := List.mem_map.mp hmem
  exact hlink ⟨p, hp, readyTag_injective he ▸ hu⟩

lemma Represents.unlisted_pendTag (h : Represents cs c s) (ht : IsThread cs t) :
    Unlisted (lists cs) (tags cs s.rq s.allList) (pendTag t) :=
  ht.unlisted (o := 48) (by norm_num) (by norm_num)
    (fun _ hp => h.notMem_rq ht (by norm_num) (by norm_num) hp)
    (h.notMem_all ht (by norm_num) (by norm_num))

lemma Represents.unlisted_allListTag (h : Represents cs c s) (ht : IsThread cs t)
    (hall : t ∉ s.allList) : Unlisted (lists cs) (tags cs s.rq s.allList) (allListTag t) := by
  refine ht.unlisted (o := 56) (by norm_num) (by norm_num)
    (fun _ hp => h.notMem_rq ht (by norm_num) (by norm_num) hp) fun hmem => ?_
  obtain ⟨u, hu, he⟩ := List.mem_map.mp hmem
  exact hall (allListTag_injective he ▸ hu)

lemma runs_onLinks {α : Type} {p : ListProg α} {m' : Links Word} {a : α}
    (h : p.Runs c.links [] m' a) : (onLinks p).Runs c [] { c with links := m' } a :=
  Runs.onPart (v := linksPart) h

/-- Clearing an element that is in no list leaves the lists alone. -/
lemma runs_clearElem {lists : List Word} {sq : Word → List Word} (h : Rep lists m sq)
    (he : Unlisted lists sq e) : ∃ m', (clearElem e).Runs m [] m' () ∧ Rep lists m' sq := by
  refine ⟨_, (runs_setPrev he.1 m).bind_silent (runs_setNext he.1 _), ?_, h.nodup, h.apart, h.nonzero⟩
  intro L hL
  have hne : ∀ x ∈ nodes L (sq L), x ≠ e := fun x hx hxe => he.2 L hL (hxe ▸ hx)
  exact (h.chained L hL).congr
    (fun x hx => Function.update_of_ne (hne x (List.mem_of_mem_dropLast hx)) _ _)
    fun x hx => Function.update_of_ne (hne x (List.mem_of_mem_tail hx)) _ _

end Unlisted

section Operations

variable {cs t e : Word} {c : LinkedScheduler} {s s' : Scheduler Word}

lemma Represents.yields_read {α : Type} (h : Represents cs c s) (f : LinkedScheduler → α)
    (g : Scheduler Word → α) (hfg : ∀ rq all, f c = g (c.view rq all)) :
    (Prog.read f : SchedProg α).Yields c (g s) (Represents cs · s) := by
  rw [← h.read f g hfg]
  exact Prog.yields_read h

lemma Represents.yields_modify {f : LinkedScheduler → LinkedScheduler} (h : Represents cs c s)
    (g : Scheduler Word → Scheduler Word) (hview : ∀ rq all, (f c).view rq all = g (c.view rq all))
    (hlinks : (f c).links = c.links) :
    (Prog.modify f : SchedProg Unit).Yields c () (Represents cs · (g s)) :=
  Prog.yields_modify (h.modify hview hlinks)

lemma Represents.setTcb (h : Represents cs c s) (t : Word) (f : Tcb → Tcb) :
    (setTcb t f).Yields c () (Represents cs · (s.setTcb t f)) :=
  h.yields_modify (fun s => s.setTcb t f) (fun _ _ => rfl) rfl

lemma Represents.clearElem (h : Represents cs c s)
    (he : Unlisted (lists cs) (tags cs s.rq s.allList) e) :
    (onLinks (clearElem e)).Yields c () (Represents cs · s) := by
  obtain ⟨m', hrun, hrep⟩ := runs_clearElem h.links he
  exact ⟨_, runs_onLinks hrun, h.relink hrep h.threads⟩

lemma Represents.pidAlloc (h : Represents cs c s) (t : Word) :
    (pidAlloc t).Yields c () (Represents cs · (OsI386.pidAlloc s t)) := by
  refine (h.yields_read _ (fun s => (List.range maxThreadNum).find? fun i =>
    (s.threadTable i).isNone) fun _ _ => rfl).bind fun c1 h1 => ?_
  rw [OsI386.pidAlloc]
  cases (List.range maxThreadNum).find? fun i => (s.threadTable i).isNone with
  | none => exact .ret h1
  | some i =>
    refine (h1.setTcb t _).bind fun c2 h2 => ?_
    exact h2.yields_modify
      (fun s => { s with threadTable := Function.update s.threadTable i (some t) })
      (fun _ _ => rfl) rfl

lemma Represents.threadTcbInit (h : Represents cs c s) (ht : IsThread cs t) (hlink : ¬ s.Linked t)
    (hall : t ∉ s.allList) (prio : ℕ) :
    (threadTcbInit t prio).Yields c () (Represents cs · (OsI386.threadTcbInit s t prio)) := by
  refine (h.clearElem (h.unlisted_readyTag ht hlink)).bind fun c1 h1 => ?_
  refine (h1.clearElem (h1.unlisted_pendTag ht)).bind fun c2 h2 => ?_
  refine (h2.clearElem (h2.unlisted_allListTag ht hall)).bind fun c3 h3 => ?_
  refine (h3.yields_read _ (fun s => s.idleThread) fun _ _ => rfl).bind fun c4 h4 => ?_
  refine (h4.setTcb t _).bind fun c5 h5 => ?_
  exact (h5.pidAlloc t).bind fun c6 h6 => h6.setTcb t _

/-- The state after linking, with the links for it. -/
lemma Represents.inserted (h : Represents cs c s) (ht : IsThread cs t)
    {link : List Word → List Word} (hlink : ∀ l, ∀ u ∈ link l, u = t ∨ u ∈ l)
    (hs : schedulerRqInsert s t link = some s') {m : Links Word}
    (hm : Rep (lists cs) m (Function.update (tags cs s.rq s.allList) (thisRq cs (s.tcb t).priority)
      ((link (s.rq (s.tcb t).priority)).map readyTag))) :
    Represents cs { c with links := m, rqMask := bitmapSet c.rqMask (s.tcb t).priority } s' := by
  simp only [schedulerRqInsert] at hs
  split_ifs at hs with hok
  obtain rfl := Option.some.inj hs
  refine (h.relink (m := m) (hm.congr fun L hL => tags_update_rq hok.1 _ hL) ?_).modify
    (f := fun c => { c with rqMask := bitmapSet c.rqMask (s.tcb t).priority })
    (g := fun s1 => { s1 with rqMask := bitmapSet s1.rqMask (s.tcb t).priority })
    (fun _ _ => rfl) rfl
  rintro u (⟨p, hp, hu⟩ | hu)
  · by_cases he : p = (s.tcb t).priority
    · rw [he, Function.update_self] at hu
      obtain rfl | hold := hlink _ u hu
      · exact ht
      · exact h.threads u (.inl ⟨_, hok.1, hold⟩)
    · rw [Function.update_of_ne he] at hu
      exact h.threads u (.inl ⟨p, hp, hu⟩)
  · exact h.threads u (.inr hu)

lemma insert_allowed {link : List Word → List Word} (hs : schedulerRqInsert s t link = some s') :
    (s.tcb t).priority < prioNum ∧ ¬ s.Linked t := by
  simp only [schedulerRqInsert] at hs
  split_ifs at hs with hok
  exact hok

lemma thisRq_mem {k : ℕ} (hk : k < prioNum) : thisRq cs k ∈ lists cs :=
  mem_lists.mpr ⟨k, Nat.lt_succ_of_lt hk, rfl⟩

lemma allList_mem (cs : Word) : allList cs ∈ lists cs :=
  mem_lists.mpr ⟨32, by norm_num, allList_eq cs⟩

/-- The list functions without a value. -/
lemma runs_of_exec {p : ListProg Unit} {m m' : Links Word} {r : Option Word}
    (h : (p >>= fun _ => Prog.ret none).Runs m [] m' r) : p.Runs m [] m' () := by
  obtain ⟨tr, m1, a, tr', hrun, hret⟩ := h.bind_inv
  obtain rfl : m1 = m' := congrArg Result.state hret
  cases tr with
  | nil => exact hrun
  | cons x _ => exact x.elim

lemma Represents.joinOnly (h : Represents cs c s) (ht : IsThread cs t)
    (hs : OsI386.schedulerRqJoinOnly s t = some s') :
    (schedulerRqJoinOnly cs t).Yields c () (Represents cs · s') := by
  obtain ⟨hprio, hlink⟩ := insert_allowed hs
  refine (h.yields_read _ (fun s => (s.tcb t).priority) fun _ _ => rfl).bind fun c1 h1 => ?_
  obtain ⟨m, r, hrun, hdone⟩ :=
    runs_pushBack h1.links (thisRq_mem hprio) (h1.unlisted_readyTag ht hlink)
  have hm := hdone.rep
  rw [ListOp.apply, tags_thisRq hprio, ← List.map_singleton, ← List.map_append] at hm
  exact ⟨_, (runs_onLinks (runs_of_exec hrun)).bind_silent (runs_modify _ _),
    h1.inserted ht (by simp [or_comm]) hs hm⟩

lemma Represents.jumpOnly (h : Represents cs c s) (ht : IsThread cs t)
    (hs : OsI386.schedulerRqJumpOnly s t = some s') :
    (schedulerRqJumpOnly cs t).Yields c () (Represents cs · s') := by
  obtain ⟨hprio, hlink⟩ := insert_allowed hs
  refine (h.yields_read _ (fun s => (s.tcb t).priority) fun _ _ => rfl).bind fun c1 h1 => ?_
  obtain ⟨m, r, hrun, hdone⟩ :=
    runs_pushFront h1.links (thisRq_mem hprio) (h1.unlisted_readyTag ht hlink)
  have hm := hdone.rep
  rw [ListOp.apply, tags_thisRq hprio, ← List.map_cons] at hm
  exact ⟨_, (runs_onLinks (runs_of_exec hrun)).bind_silent (runs_modify _ _),
    h1.inserted ht (by simp) hs hm⟩

lemma Represents.preemptCheck (h : Represents cs c s) (t : Word) :
    (preemptCheck t).Yields c () (Represents cs · (OsI386.preemptCheck s t)) := by
  refine h.yields_modify (fun s => OsI386.preemptCheck s t) (fun rq all => ?_) ?_
  · unfold OsI386.preemptCheck
    split_ifs with hc hc' hc'
    · rfl
    · exact absurd hc hc'
    · exact absurd hc' hc
    · rfl
  · split_ifs <;> rfl

lemma Represents.join (h : Represents cs c s) (ht : IsThread cs t)
    (hs : OsI386.schedulerRqJoin s t = some s') :
    (schedulerRqJoin cs t).Yields c () (Represents cs · s') := by
  obtain ⟨s1, hs1, rfl⟩ := Option.map_eq_some_iff.mp hs
  exact (h.joinOnly ht hs1).bind fun c1 h1 => h1.preemptCheck t

lemma Represents.jump (h : Represents cs c s) (ht : IsThread cs t)
    (hs : OsI386.schedulerRqJump s t = some s') :
    (schedulerRqJump cs t).Yields c () (Represents cs · s') := by
  obtain ⟨s1, hs1, rfl⟩ := Option.map_eq_some_iff.mp hs
  exact (h.jumpOnly ht hs1).bind fun c1 h1 => h1.preemptCheck t

lemma Represents.allListPushBack (h : Represents cs c s) (ht : IsThread cs t)
    (hs : OsI386.allListPushBack s t = some s') :
    (onLinks (listPushBack (allList cs) (allListTag t))).Yields c () (Represents cs · s') := by
  unfold OsI386.allListPushBack at hs
  split_ifs at hs with hall
  obtain rfl := Option.some.inj hs
  obtain ⟨m, r, hrun, hdone⟩ :=
    runs_pushBack h.links (allList_mem cs) (h.unlisted_allListTag ht hall)
  have hm := hdone.rep
  rw [ListOp.apply, tags_allList, ← List.map_singleton, ← List.map_append] at hm
  refine ⟨_, runs_onLinks (runs_of_exec hrun),
    h.relink (hm.congr fun L hL => tags_update_all _ hL) fun u hu => ?_⟩
  obtain hu | hu := hu
  · exact h.threads u (.inl hu)
  · obtain hu | hu := List.mem_append.mp hu
    · exact h.threads u (.inr hu)
    · rwa [List.mem_singleton.mp hu]

lemma tags_erase (h : Represents cs c s) (ht : IsThread cs t) (L : Word) :
    tags cs (fun p => (s.rq p).erase t) s.allList L =
      (tags cs s.rq s.allList L).erase (readyTag t) := by
  unfold tags
  split_ifs
  · exact List.map_erase readyTag_injective _
  · exact (List.erase_of_not_mem (h.notMem_all ht (o := 40) (by norm_num) (by norm_num))).symm

lemma Represents.unlink (h : Represents cs c s) (hl : s.Linked t) :
    (onLinks (listRemove (readyTag t))).Yields c ()
      (Represents cs · { s with rq := fun p => (s.rq p).erase t }) := by
  obtain ⟨p, hp, hmem⟩ := hl
  have hin : readyTag t ∈ tags cs s.rq s.allList (thisRq cs p) := by
    rw [tags_thisRq hp]
    exact List.mem_map_of_mem hmem
  obtain ⟨m, r, hrun, hdone⟩ := runs_remove h.links (thisRq_mem hp) hin
  have hm : Rep (lists cs) m (tags cs (fun p => (s.rq p).erase t) s.allList) :=
    hdone.rep.congr fun L _ => tags_erase h (h.threads t (.inl ⟨p, hp, hmem⟩)) L
  exact ⟨_, runs_onLinks (runs_of_exec hrun), h.relink hm fun u hu => h.threads u
    (hu.imp_left fun ⟨q, hq, hu⟩ => ⟨q, hq, List.mem_of_mem_erase hu⟩)⟩

lemma Represents.rqEmpty (h : Represents cs c s) {k : ℕ} (hk : k < prioNum) :
    (onLinks (listEmpty (thisRq cs k))).Yields c (decide (s.rq k = [])) (Represents cs · s) := by
  have hempty := (h.links.shows (thisRq_mem hk)).empty
  simp only [tags_thisRq hk, List.map_eq_nil_iff] at hempty
  exact ⟨c, runs_onLinks hempty, h⟩

lemma Represents.rqFirst (h : Represents cs c s) {k : ℕ} (hk : k < prioNum)
    (ht : (s.rq k).head? = some t) :
    (onLinks (listFirstElem (thisRq cs k))).Yields c (readyTag t) (Represents cs · s) := by
  have hfirst := (h.links.shows (thisRq_mem hk)).first
  obtain ⟨rest, hrest⟩ := List.head?_eq_some_iff.mp ht
  rw [tags_thisRq hk, hrest] at hfirst
  exact ⟨c, runs_onLinks hfirst, h⟩

lemma Represents.leaveOnly (h : Represents cs c s)
    (hs : OsI386.schedulerRqLeaveOnly s t = some s') :
    (schedulerRqLeaveOnly cs t).Yields c () (Represents cs · s') := by
  simp only [OsI386.schedulerRqLeaveOnly] at hs
  split_ifs at hs with hok hnil
  all_goals
    obtain rfl := Option.some.inj hs
    refine (h.yields_read _ (fun s => (s.tcb t).priority) fun _ _ => rfl).bind fun c1 h1 => ?_
    refine (h1.unlink hok.2).bind fun c2 h2 => (h2.rqEmpty hok.1).bind fun c3 h3 => ?_
  · rw [if_pos (decide_eq_true hnil)]
    exact h3.yields_modify (fun s1 => { s1 with rqMask := bitmapClear s1.rqMask (s.tcb t).priority })
      (fun _ _ => rfl) rfl
  · rw [if_neg (by simpa using hnil)]
    exact .ret h3

lemma Represents.leave (h : Represents cs c s) (hs : OsI386.schedulerRqLeave s t = some s') :
    (schedulerRqLeave cs t).Yields c () (Represents cs · s') := by
  obtain ⟨s1, hs1, rfl⟩ := Option.map_eq_some_iff.mp hs
  refine (h.leaveOnly hs1).bind fun c1 h1 => ?_
  refine h1.yields_modify (fun s => if t = s.runningThread then { s with needSchedule := true } else s)
    (fun rq all => ?_) ?_
  · split_ifs with hc hc' hc'
    · rfl
    · exact absurd hc hc'
    · exact absurd hc' hc
    · rfl
  · split_ifs <;> rfl

lemma Represents.pick (h : Represents cs c s) (hs : OsI386.nextThreadPick s = some t) :
    (nextThreadPick cs).Yields c t (Represents cs · s) := by
  simp only [OsI386.nextThreadPick] at hs
  split_ifs at hs with hk
  refine (h.yields_read _ OsI386.highestRqGet fun _ _ => rfl).bind fun c1 h1 => ?_
  refine (h1.rqFirst hk hs).bind fun c2 h2 => ?_
  rw [entryOfTag_readyTag]
  exact .ret h2

lemma Represents.sliceExpire (h : Represents cs c s) (hs : OsI386.sliceExpire s t = some s') :
    (sliceExpire cs t).Yields c () (Represents cs · s') := by
  obtain ⟨s1, hs1, hs⟩ := Option.bind_eq_some_iff.mp hs
  obtain ⟨s3, hs3, hs⟩ := Option.bind_eq_some_iff.mp hs
  obtain rfl := Option.some.inj hs
  have ht : IsThread cs t := by
    simp only [OsI386.schedulerRqLeaveOnly] at hs1
    split_ifs at hs1 with hok
    all_goals exact h.threads t (.inl hok.2)
  refine (h.leaveOnly hs1).bind fun c1 h1 => (h1.setTcb t _).bind fun c2 h2 => ?_
  refine (h2.joinOnly ht hs3).bind fun c3 h3 => ?_
  exact (h3.setTcb t _).bind fun c4 h4 => h4.setTcb t _

lemma Represents.switchThread (h : Represents cs c s) (hs : OsI386.nextThreadPick s = some t) :
    (switchThread cs).Yields c () (Represents cs ·
      { s.setTcb t (fun c => { c with status := .running }) with runningThread := t }) := by
  refine (h.pick hs).bind fun c1 h1 => (h1.setTcb t _).bind fun c2 h2 => ?_
  exact h2.yields_modify (fun s => { s with runningThread := t }) (fun _ _ => rfl) rfl

lemma Represents.mainSchedule (h : Represents cs c s) (hs : OsI386.mainSchedule s = some s') :
    (mainSchedule cs).Yields c () (Represents cs · s') := by
  refine (h.yields_read _ (fun s => s.runningThread) fun _ _ => rfl).bind fun c1 h1 => ?_
  refine (h1.yields_read _ (fun s => s.needSchedule) fun _ _ => rfl).bind fun c2 h2 => ?_
  by_cases hneed : s.needSchedule = true
  · simp only [OsI386.mainSchedule, if_pos hneed] at hs
    rw [if_pos hneed]
    refine (h2.yields_modify (fun s => { s with needSchedule := false }) (fun _ _ => rfl) rfl).bind
      fun c3 h3 => ?_
    refine (h3.yields_read _ (fun s1 => decide ((s1.tcb s.runningThread).status = .running))
      fun _ _ => rfl).bind fun c4 h4 => ?_
    dsimp only
    by_cases hst : (s.tcb s.runningThread).status = .running
    · rw [if_pos hst] at hs
      obtain ⟨s1, hs1, hs⟩ := Option.bind_eq_some_iff.mp hs
      obtain ⟨n, hn, hs⟩ := Option.bind_eq_some_iff.mp hs
      obtain rfl := Option.some.inj hs
      rw [if_pos (decide_eq_true hst)]
      exact (h4.sliceExpire hs1).bind fun c5 h5 => h5.switchThread hn
    · rw [if_neg hst] at hs
      obtain ⟨s1, hs1, hs⟩ := Option.bind_eq_some_iff.mp hs
      obtain rfl := Option.some.inj hs1
      obtain ⟨n, hn, hs⟩ := Option.bind_eq_some_iff.mp hs
      obtain rfl := Option.some.inj hs
      rw [if_neg (by simpa using hst)]
      exact h4.switchThread hn
  · simp only [OsI386.mainSchedule, if_neg hneed] at hs
    obtain rfl := Option.some.inj hs
    rw [if_neg hneed]
    exact .ret h2

lemma Represents.schedule (h : Represents cs c s) (hs : OsI386.schedule s = some s') :
    (schedule cs).Yields c () (Represents cs · s') := by
  refine (h.yields_read _ (fun s => s.needSchedule) fun _ _ => rfl).bind fun c1 h1 => ?_
  unfold OsI386.schedule at hs
  split_ifs at hs with hneed
  · rw [if_pos hneed]
    exact h1.mainSchedule hs
  · obtain rfl := Option.some.inj hs
    rw [if_neg hneed]
    exact .ret h1

lemma Represents.assert (h : Represents cs c s) {f : LinkedScheduler → Prop} [DecidablePred f]
    (hf : f c) : (assert f).Yields c () (Represents cs · s) := by
  refine (Prog.yields_read (Q := fun c' => c' = c) rfl).bind fun c1 h1 => ?_
  rw [if_pos (decide_eq_true hf), h1]
  exact .ret h

lemma Represents.threadBlock (h : Represents cs c s) {st : TaskStatus}
    (hs : OsI386.threadBlock s st = some s') :
    (threadBlock cs st).Yields c () (Represents cs · s') := by
  obtain ⟨s1, hs1, hs⟩ := Option.bind_eq_some_iff.mp hs
  unfold OsI386.threadSleep at hs1
  split_ifs at hs1 with hst
  refine (h.assert hst).bind fun c1 h1 => ?_
  refine (h1.yields_read _ (fun s => s.runningThread) fun _ _ => rfl).bind fun c2 h2 => ?_
  refine (h2.setTcb _ _).bind fun c3 h3 => (h3.leave hs1).bind fun c4 h4 => ?_
  exact h4.schedule hs

lemma Represents.threadUnblock (h : Represents cs c s) (ht : IsThread cs t)
    (hs : OsI386.threadUnblock s t = some s') :
    (threadUnblock cs t).Yields c () (Represents cs · s') := by
  unfold OsI386.threadUnblock at hs
  split_ifs at hs with hst
  have hst' : (c.tcb t).status.Sleeping := by
    rwa [h.read (fun c => (c.tcb t).status) (fun s => (s.tcb t).status) fun _ _ => rfl]
  refine (h.assert hst').bind fun c1 h1 => ?_
  exact (h1.setTcb _ _).bind fun c2 h2 => h2.jump ht hs

lemma Represents.newThread (h : Represents cs c s) (ht : IsThread cs t) (hall : t ∉ s.allList)
    {prio : ℕ} {s1 : Scheduler Word}
    (hs1 : OsI386.schedulerRqJoin (OsI386.threadTcbInit s t prio) t = some s1)
    (hs : OsI386.allListPushBack s1 t = some s') :
    (threadRun cs t prio).Yields c () (Represents cs · s') := by
  have hinit := threadTcbInit_spec s t prio
  obtain ⟨s2, hs2, -⟩ := Option.map_eq_some_iff.mp hs1
  have hlink : ¬ s.Linked t := by
    have hnot := (insert_allowed hs2).2
    rwa [Scheduler.Linked, hinit.rq] at hnot
  refine (h.threadTcbInit ht hlink hall prio).bind fun c1 h1 => ?_
  exact (h1.join ht hs1).bind fun c2 h2 => h2.allListPushBack ht hs

lemma Represents.intrTimerHandler (h : Represents cs c s)
    (hs : OsI386.intrTimerHandler s = some s') :
    intrTimerHandler.Yields c () (Represents cs · s') := by
  refine (h.yields_read _ (fun s => s.runningThread) fun _ _ => rfl).bind fun c1 h1 => ?_
  simp only [OsI386.intrTimerHandler] at hs
  split_ifs at hs with hmagic hticks
  all_goals
    obtain rfl := Option.some.inj hs
    have hmagic' : (c1.tcb s.runningThread).stackMagic = stackMagic := by
      rwa [h1.read (fun c => (c.tcb s.runningThread).stackMagic)
        (fun s1 => (s1.tcb s.runningThread).stackMagic) fun _ _ => rfl]
    refine (h1.assert hmagic').bind fun c2 h2 => (h2.setTcb _ _).bind fun c3 h3 => ?_
    refine (h3.yields_modify (fun s => { s with ticks := s.ticks + 1 }) (fun _ _ => rfl)
      rfl).bind fun c4 h4 => ?_
    refine (h4.yields_read _ (fun s1 => decide ((s1.tcb s.runningThread).ticks = 0))
      fun _ _ => rfl).bind fun c5 h5 => ?_
  · rw [if_pos (decide_eq_true hticks)]
    exact h5.yields_modify (fun s => { s with needSchedule := true }) (fun _ _ => rfl) rfl
  · rw [if_neg (by simpa using hticks)]
    exact h5.setTcb _ _

lemma Represents.timerInterrupt (h : Represents cs c s)
    (hs : OsI386.timerInterrupt s = some s') :
    (timerInterrupt cs).Yields c () (Represents cs · s') := by
  obtain ⟨s1, hs1, hs⟩ := Option.bind_eq_some_iff.mp hs
  exact (h.intrTimerHandler hs1).bind fun c1 h1 => h1.mainSchedule hs

end Operations

section Runs

variable {cs boot : Word} {c : LinkedScheduler} {s s₀ s' : Scheduler Word} {e : SchedEvent Word}
  {es : List (SchedEvent Word)} {page : ℕ → BitVec 8}

/-- What an operation asks of its callers, and pages for the tcbs of new threads. -/
def Permitted (cs : Word) (s : Scheduler Word) : SchedEvent Word → Prop
  | .threadRun t prio => SchedAllowed s (.threadRun t prio) ∧ IsThread cs t
  | .processRun t => SchedAllowed s (.processRun t) ∧ IsThread cs t
  | e => SchedAllowed s e

lemma Permitted.allowed (h : Permitted cs s e) : SchedAllowed s e := by
  cases e with
  | threadRun t prio => exact h.1
  | processRun t => exact h.1
  | threadBlock st => exact h
  | threadUnblock t => exact h
  | timerInterrupt => exact h
  | mainSchedule => exact h

/-- One event: the linked scheduler ends it where the scheduler of sequences does. -/
lemma Represents.exec (h : Represents cs c s) (ok : Permitted cs s e)
    (hs : schedStep s e = some s') : (exec cs e).Yields c () (Represents cs · s') := by
  cases e with
  | threadRun t prio =>
    obtain ⟨s1, hs1, hs2⟩ := Option.bind_eq_some_iff.mp hs
    exact h.newThread ok.2 ok.1.1 hs1 hs2
  | processRun t =>
    obtain ⟨s1, hs1, hs2⟩ := Option.bind_eq_some_iff.mp hs
    exact h.newThread ok.2 ok.1 hs1 hs2
  | threadBlock st => exact h.threadBlock hs
  | threadUnblock t => exact h.threadUnblock (h.threads t (.inr ok.1)) hs
  | timerInterrupt => exact h.timerInterrupt hs
  | mainSchedule => exact h.mainSchedule hs

lemma simulation (cs : Word) : Simulation schedStep (linkedStep cs)
    (fun s e => Permitted cs s e) fun s c => Represents cs c s where
  follow _ _ _ _ h ok hs := (h.exec ok hs).final

/-- `list_init` of all lists leaves empty queues. -/
lemma schedulerInit_represents (hcs : Placed cs) (c : LinkedScheduler) (hticks : c.ticks = 0) :
    (schedulerInit cs boot page).Yields c () (Represents cs ·
      (OsI386.schedulerInit boot page c.tcb)) := by
  obtain ⟨m, hrun, hjoined, -⟩ := runs_initAll (family_lists hcs) c.links
  have hempty : ∀ L ∈ lists cs, tags cs (fun _ => []) [] L = [] := by
    intro L _
    unfold tags
    split_ifs <;> rfl
  refine ⟨_, (runs_modify _ _).bind_silent ((runs_modify _ _).bind_silent
    ((runs_modify _ _).bind_silent ((runs_modify _ _).bind_silent
      ((runs_modify _ _).bind_silent (runs_onLinks hrun))))), ?_, ?_, ?_⟩
  · unfold view OsI386.schedulerInit
    rw [← hticks]
  · exact ((family_lists hcs).rep hjoined).congr hempty
  · rintro t (⟨p, -, hmem⟩ | hmem)
    · exact absurd hmem List.not_mem_nil
    · exact absurd hmem List.not_mem_nil

lemma threadAllInit_represents (hcs : Placed cs) (hboot : IsThread cs boot) (c : LinkedScheduler)
    (hticks : c.ticks = 0) (hs : OsI386.threadAllInit boot page c.tcb = some s₀) :
    (threadAllInit cs boot page).Yields c () (Represents cs · s₀) := by
  refine (schedulerInit_represents hcs c hticks).bind fun c1 h1 => ?_
  obtain ⟨s1, hs1, hs2⟩ := Option.bind_eq_some_iff.mp (threadRun_of_threadAllInit hs)
  exact h1.newThread hboot List.not_mem_nil hs1 hs2

/-- What the lists in memory show of a state of the scheduler. -/
structure ListsShow (cs : Word) (c : LinkedScheduler) (s : Scheduler Word) : Prop where
  fields : c.view s.rq s.allList = s
  queues : ∀ p < prioNum, Shows c.links (thisRq cs p) ((s.rq p).map readyTag)
  all : Shows c.links (allList cs) (s.allList.map allListTag)

lemma Represents.listsShow (h : Represents cs c s) : ListsShow cs c s where
  fields := h.fields
  queues p hp := by
    have htags : tags cs s.rq s.allList (thisRq cs p) = (s.rq p).map readyTag := tags_thisRq hp
    rw [← htags]
    exact h.links.shows (thisRq_mem hp)
  all := by
    have htags : tags cs s.rq s.allList (allList cs) = s.allList.map allListTag := tags_allList
    rw [← htags]
    exact h.links.shows (allList_mem cs)

/-- From `thread_all_init` on, over any permitted events, the scheduler over linked lists ends each
of them, in a state whose lists show the queues of the scheduler of sequences; and the next
permitted event ends, too. -/
theorem linked_scheduler_follows (hcs : Placed cs) (hboot : IsThread cs boot) (c : LinkedScheduler)
    (hticks : c.ticks = 0) (h₀ : OsI386.threadAllInit boot page c.tcb = some s₀)
    (hes : RunAllowed schedStep (Permitted cs) s₀ es) :
    ∃ c₀ s' c', (threadAllInit cs boot page).final c = some c₀ ∧ run schedStep s₀ es = some s' ∧
      run (linkedStep cs) c₀ es = some c' ∧ ListsShow cs c' s' ∧
      ∀ e, Permitted cs s' e → ∃ c'', linkedStep cs c' e = some c'' := by
  obtain ⟨c₀, hc₀, hrep₀⟩ := (threadAllInit_represents hcs hboot c hticks h₀).final
  obtain ⟨s', c', hs', hc', hrep⟩ := (simulation cs).run hrep₀ hes
  refine ⟨c₀, s', c', hc₀, hs', hc', hrep.listsShow, fun e he => ?_⟩
  obtain ⟨t, ht, hreach⟩ := RunAllowed.reach hes
  obtain rfl : t = s' := Option.some.inj (ht.symm.trans hs')
  have hinv := reach_schedInv h₀ (hreach.mono fun _ _ ok => ok.allowed)
  obtain ⟨s'', hs'', -⟩ := schedStep_spec hinv he.allowed
  obtain ⟨c'', hc'', -⟩ := (hrep.exec he hs'').final
  exact ⟨c'', hc''⟩

/-- A thread with priority 8 is made beside the boot thread, and a timer interrupt comes. -/
theorem linked_scheduler_follows_two : ∃ (c : LinkedScheduler) (s₀ : Scheduler Word)
    (c₀ : LinkedScheduler) (s' : Scheduler Word) (c' : LinkedScheduler),
    OsI386.threadAllInit 0xc009e000 (fun _ => 0xff) c.tcb = some s₀ ∧
      (threadAllInit 0xc0006000 0xc009e000 fun _ => 0xff).final c = some c₀ ∧
      run (linkedStep 0xc0006000) c₀ [.threadRun 0xc0101000 8, .timerInterrupt] = some c' ∧
      s'.allList = [0xc009e000, 0xc0101000] ∧ ListsShow 0xc0006000 c' s' := by
  let c : LinkedScheduler :=
    { runningThread := 0, needSchedule := false, idleThread := 0, threadTable := fun _ => none
      rqMask := bitmapInit (fun _ => 0) 0, tcb := fun _ => ⟨0, .died, 0, 0, 0, 0⟩, ticks := 0
      links := ⟨fun _ => 0, fun _ => 0⟩ }
  obtain ⟨s₀, h₀, hinv₀, hall₀⟩ := threadAllInit_spec (0xc009e000 : Word) (fun _ => 0xff) c.tcb
  have hnew : (0xc0101000 : Word) ∉ s₀.allList := by
    rw [hall₀]
    decide
  obtain ⟨s1, hs1, hinv1, hall1, -⟩ := threadRun_spec hinv₀ hnew (show 8 < prioNum by decide)
  obtain ⟨s2, hs2, -, hall2⟩ := timerInterrupt_spec hinv1
  have hthread : IsThread 0xc0006000 0xc0101000 := ⟨by decide, by decide⟩
  have hes : RunAllowed schedStep (Permitted 0xc0006000) s₀
      [.threadRun 0xc0101000 8, .timerInterrupt] :=
    ⟨⟨⟨hnew, by decide⟩, hthread⟩, s1, hs1, trivial, s2, hs2, trivial⟩
  have hplaced : Placed 0xc0006000 := ⟨by decide, by decide⟩
  obtain ⟨c₀, s', c', hc₀, hs', hc', hshow, -⟩ :=
    linked_scheduler_follows hplaced ⟨by decide, by decide⟩ c rfl h₀ hes
  have hrun : run schedStep s₀ [.threadRun 0xc0101000 8, .timerInterrupt] = some s2 :=
    Option.bind_eq_some_iff.mpr ⟨s1, hs1, Option.bind_eq_some_iff.mpr ⟨s2, hs2, rfl⟩⟩
  obtain rfl : s2 = s' := Option.some.inj (hrun.symm.trans hs')
  exact ⟨c, s₀, c₀, s2, c', h₀, hc₀, hc', by rw [hall2, hall1, hall₀]; rfl, hshow⟩

end Runs

end LinkedScheduler

end OsI386
