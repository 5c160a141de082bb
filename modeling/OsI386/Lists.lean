import OsI386.Paging
import OsI386.Program
import OsI386.X86

/-!
# lib/kernel/list.c

An element is known by its address and `Links` has the two fields of every element. A list is
known by the address of its header: the element `head` is there and `tail` is behind it. The
functions that disable interrupts do so around their stores; only the links are kept here.
-/
namespace OsI386
open Prog

/-- The fields of `struct list_elem`, for all elements. -/
structure Links (α : Type) where
  prev : α → α
  next : α → α

namespace Links

variable {α : Type} {m m' : Links α} {l l1 l2 : List α} {p e e1 e2 n x : α}

/-- The elements follow each other in both directions. -/
def Joined (m : Links α) (a b : α) : Prop := m.next a = b ∧ m.prev b = a

def Chained (m : Links α) (l : List α) : Prop := l.IsChain m.Joined

/-- The last element's `next` and the first one's `prev` do not count. -/
lemma Chained.congr (h : m.Chained l) (hnext : ∀ a ∈ l.dropLast, m'.next a = m.next a)
    (hprev : ∀ b ∈ l.tail, m'.prev b = m.prev b) : m'.Chained l := by
  induction l with
  | nil => exact List.isChain_nil
  | cons a l ih =>
    cases l with
    | nil => exact List.isChain_singleton a
    | cons b l =>
      obtain ⟨hab, hrest⟩ := List.isChain_cons_cons.mp h
      refine List.isChain_cons_cons.mpr ⟨⟨?_, ?_⟩, ih hrest (fun x hx => ?_) fun x hx => ?_⟩
      · rw [hnext a List.mem_cons_self]
        exact hab.1
      · rw [hprev b List.mem_cons_self]
        exact hab.2
      · exact hnext x (List.mem_cons_of_mem a hx)
      · exact hprev x (List.mem_cons_of_mem b hx)

lemma Chained.congr_front (h : m.Chained (l ++ [p])) (hnext : ∀ a ∈ l, m'.next a = m.next a)
    (hprev : ∀ b ∈ l ++ [p], m'.prev b = m.prev b) : m'.Chained (l ++ [p]) := by
  refine h.congr (fun a ha => hnext a ?_) fun b hb => hprev b (List.mem_of_mem_tail hb)
  rwa [List.dropLast_concat] at ha

lemma Chained.congr_back (h : m.Chained (e :: l)) (hnext : ∀ a ∈ e :: l, m'.next a = m.next a)
    (hprev : ∀ b ∈ l, m'.prev b = m.prev b) : m'.Chained (e :: l) :=
  h.congr (fun a ha => hnext a (List.mem_of_mem_dropLast ha)) hprev

lemma Chained.next_eq (h : m.Chained (x :: (l ++ [e]))) : m.next x = l.headD e := by
  cases l with
  | nil => exact (List.isChain_cons_cons.mp h).1.1
  | cons y l => exact (List.isChain_cons_cons.mp h).1.1

variable [DecidableEq α]

/-- The links after `e2` has been put before `e1`. -/
def insertBefore (m : Links α) (e1 e2 : α) : Links α where
  prev := Function.update (Function.update m.prev e2 (m.prev e1)) e1 e2
  next := Function.update (Function.update m.next (m.prev e1) e2) e2 e1

/-- The links after `e` has been taken out. -/
def remove (m : Links α) (e : α) : Links α where
  prev := Function.update m.prev (m.next e) (m.prev e)
  next := Function.update m.next (m.prev e) (m.next e)

lemma insertBefore_of_ne (hp : x ≠ m.prev e1) (h1 : x ≠ e1) (h2 : x ≠ e2) :
    (m.insertBefore e1 e2).next x = m.next x ∧ (m.insertBefore e1 e2).prev x = m.prev x := by
  constructor
  · exact (Function.update_of_ne h2 _ _).trans (Function.update_of_ne hp _ _)
  · exact (Function.update_of_ne h1 _ _).trans (Function.update_of_ne h2 _ _)

lemma remove_of_ne (hp : x ≠ m.prev e) (hn : x ≠ m.next e) :
    (m.remove e).next x = m.next x ∧ (m.remove e).prev x = m.prev x :=
  ⟨Function.update_of_ne hp _ _, Function.update_of_ne hn _ _⟩

lemma Chained.insertBefore (h : m.Chained (l1 ++ p :: e1 :: l2))
    (hnodup : (l1 ++ p :: e1 :: l2).Nodup) (he : e2 ∉ l1 ++ p :: e1 :: l2) :
    (m.insertBefore e1 e2).Chained (l1 ++ p :: e2 :: e1 :: l2) := by
  obtain ⟨hfront, ⟨hnext, hprev⟩, hback⟩ := List.isChain_append_cons_cons.mp h
  have hnext' : ∀ x, x ≠ p → x ≠ e2 → (m.insertBefore e1 e2).next x = m.next x := by
    intro x hp h2
    rw [← hprev] at hp
    exact (Function.update_of_ne h2 _ _).trans (Function.update_of_ne hp _ _)
  have hprev' : ∀ x, x ≠ e1 → x ≠ e2 → (m.insertBefore e1 e2).prev x = m.prev x := fun x h1 h2 =>
    (Function.update_of_ne h1 _ _).trans (Function.update_of_ne h2 _ _)
  have hne : p ≠ e1 ∧ p ≠ e2 ∧ e1 ≠ e2 := by grind
  have hold : p ∉ l1 ∧ p ∉ l2 ∧ e1 ∉ l1 ∧ e1 ∉ l2 := by grind
  have hnew : e2 ∉ l1 ∧ e2 ∉ l2 := by grind
  obtain ⟨hpe1, hpe2, he12⟩ := hne
  refine List.isChain_append_cons_cons.mpr ⟨?_, ⟨?_, ?_⟩,
    List.isChain_cons_cons.mpr ⟨⟨?_, ?_⟩, ?_⟩⟩
  · refine Chained.congr_front hfront (fun x hx => hnext' x ?_ ?_) fun x hx => hprev' x ?_ ?_
    all_goals grind
  · exact (Function.update_of_ne hpe2 _ _).trans (hprev ▸ Function.update_self _ _ _)
  · exact (Function.update_of_ne (Ne.symm he12) _ _).trans
      ((Function.update_self _ _ _).trans hprev)
  · exact Function.update_self _ _ _
  · exact Function.update_self _ _ _
  · refine Chained.congr_back hback (fun x hx => hnext' x ?_ ?_) fun x hx => hprev' x ?_ ?_
    all_goals grind

lemma Chained.remove (h : m.Chained (l1 ++ p :: e :: n :: l2))
    (hnodup : (l1 ++ p :: e :: n :: l2).Nodup) : (m.remove e).Chained (l1 ++ p :: n :: l2) := by
  obtain ⟨hfront, ⟨hnext, hprev⟩, hrest⟩ := List.isChain_append_cons_cons.mp h
  obtain ⟨⟨hnext', hprev'⟩, hback⟩ := List.isChain_cons_cons.mp hrest
  have hne : p ∉ l1 ∧ p ∉ l2 ∧ p ≠ n ∧ n ∉ l1 ∧ n ∉ l2 := by grind
  obtain ⟨hp1, hp2, hpn, hn1, hn2⟩ := hne
  have hnextOf : ∀ x, x ≠ p → (m.remove e).next x = m.next x := fun x hx =>
    Function.update_of_ne (hprev ▸ hx) _ _
  have hprevOf : ∀ x, x ≠ n → (m.remove e).prev x = m.prev x := fun x hx =>
    Function.update_of_ne (hnext' ▸ hx) _ _
  refine List.isChain_append_cons_cons.mpr ⟨?_, ⟨?_, ?_⟩, ?_⟩
  · refine Chained.congr_front hfront (fun x hx => hnextOf x ?_) fun x hx => hprevOf x ?_
    all_goals grind
  · rw [← hprev, ← hnext']
    exact Function.update_self _ _ _
  · rw [← hprev, ← hnext']
    exact Function.update_self _ _ _
  · refine Chained.congr_back hback (fun x hx => hnextOf x ?_) fun x hx => hprevOf x ?_
    all_goals grind

end Links

open X86

/-- Why a list function does not return. -/
inductive ListHalt
  | nullPointer | outOfRounds

abbrev ListProg := Prog (Links Word) Empty ListHalt

section Functions

def getPrev (e : Word) : ListProg Word :=
  if e = 0 then .stop .nullPointer else read fun m => m.prev e

def getNext (e : Word) : ListProg Word :=
  if e = 0 then .stop .nullPointer else read fun m => m.next e

def setPrev (e p : Word) : ListProg Unit :=
  if e = 0 then .stop .nullPointer
  else modify fun m => { m with prev := Function.update m.prev e p }

def setNext (e p : Word) : ListProg Unit :=
  if e = 0 then .stop .nullPointer
  else modify fun m => { m with next := Function.update m.next e p }

/-- `&list->head`. -/
def headOf (list : Word) : Word := list

/-- `&list->tail`. -/
def tailOf (list : Word) : Word := list + 8

def listInit (list : Word) : ListProg Unit := do
  setPrev (headOf list) 0
  setNext (headOf list) (tailOf list)
  setPrev (tailOf list) (headOf list)
  setNext (tailOf list) 0

def listInsertBefore (e1 e2 : Word) : ListProg Unit := do
  setNext (← getPrev e1) e2
  setPrev e2 (← getPrev e1)
  setNext e2 e1
  setPrev e1 e2

def listPushFront (list e : Word) : ListProg Unit := do
  listInsertBefore (← getNext (headOf list)) e

def listPushBack (list e : Word) : ListProg Unit := listInsertBefore (tailOf list) e

def listRemove (e : Word) : ListProg Unit := do
  setNext (← getPrev e) (← getNext e)
  setPrev (← getNext e) (← getPrev e)

def listPopFront (list : Word) : ListProg Word := do
  let ret ← getNext (headOf list)
  listRemove ret
  return ret

/-- The loop of `list_elem_find`. -/
def findLoop (list e : Word) : ℕ → Word → ListProg Bool
  | 0, _ => .stop .outOfRounds
  | rounds + 1, tmp =>
    if tmp ≠ tailOf list then
      if tmp = e then return true
      else do findLoop list e rounds (← getNext tmp)
    else return false

def listElemFind (rounds : ℕ) (list e : Word) : ListProg Bool := do
  findLoop list e rounds (← getNext (headOf list))

def listFirstElem (list : Word) : ListProg Word := getNext (headOf list)

/-- The loop of `list_len`. -/
def lenLoop (list : Word) : ℕ → Word → Word → ListProg Word
  | 0, _, _ => .stop .outOfRounds
  | rounds + 1, tmp, cnt =>
    if tmp ≠ tailOf list then do lenLoop list rounds (← getNext tmp) (cnt + 1)
    else return cnt

def listLen (rounds : ℕ) (list : Word) : ListProg Word := do
  lenLoop list rounds (← getNext (headOf list)) 0

def listEmpty (list : Word) : ListProg Bool := do
  return (← getNext (headOf list)) = tailOf list

end Functions

section Accesses

variable {m m' : Links Word} {e e1 e2 p : Word} {α : Type} {r : α} {tr : List Empty}

lemma runs_getNext_bind {k : Word → ListProg α} (he : e ≠ 0) (h : (k (m.next e)).Runs m tr m' r) :
    (getNext e >>= k).Runs m tr m' r := by
  rw [getNext, if_neg he]
  exact (runs_read _ m).bind_silent h

lemma runs_getPrev_bind {k : Word → ListProg α} (he : e ≠ 0) (h : (k (m.prev e)).Runs m tr m' r) :
    (getPrev e >>= k).Runs m tr m' r := by
  rw [getPrev, if_neg he]
  exact (runs_read _ m).bind_silent h

lemma runs_setNext (he : e ≠ 0) (m : Links Word) :
    (setNext e p).Runs m [] { m with next := Function.update m.next e p } () := by
  rw [setNext, if_neg he]
  exact runs_modify _ m

lemma runs_setPrev (he : e ≠ 0) (m : Links Word) :
    (setPrev e p).Runs m [] { m with prev := Function.update m.prev e p } () := by
  rw [setPrev, if_neg he]
  exact runs_modify _ m

lemma runs_listInsertBefore (h1 : e1 ≠ 0) (h2 : e2 ≠ 0) (hp : m.prev e1 ≠ 0) :
    (listInsertBefore e1 e2).Runs m [] (m.insertBefore e1 e2) () := by
  apply runs_getPrev_bind h1
  apply (runs_setNext hp m).bind_silent
  apply runs_getPrev_bind h1
  apply (runs_setPrev h2 _).bind_silent
  apply (runs_setNext h2 _).bind_silent
  exact runs_setPrev h1 _

/-- The second half reads the links that the first half has left alone. -/
lemma runs_listRemove (he : e ≠ 0) (hp : m.prev e ≠ 0) (hn : m.next e ≠ 0) (hne : m.prev e ≠ e) :
    (listRemove e).Runs m [] (m.remove e) () := by
  have hkept : Function.update m.next (m.prev e) (m.next e) e = m.next e :=
    Function.update_of_ne (Ne.symm hne) _ _
  apply runs_getPrev_bind he
  apply runs_getNext_bind he
  apply (runs_setNext hp m).bind_silent
  apply runs_getNext_bind he
  apply runs_getPrev_bind he
  simp only [hkept]
  exact runs_setPrev hn _

end Accesses

section Sequences

variable {lists : List Word} {s s' : Word → List Word} {m m' : Links Word} {L L' e e1 p n : Word}
  {l1 l2 l' : List Word}

/-- The elements of a list with its two ends. -/
def nodes (L : Word) (l : List Word) : List Word := headOf L :: (l ++ [tailOf L])

/-- The lists hold the sequences `s`, and no element is in two of them. -/
structure Rep (lists : List Word) (m : Links Word) (s : Word → List Word) : Prop where
  chained : ∀ L ∈ lists, m.Chained (nodes L (s L))
  nodup : ∀ L ∈ lists, (nodes L (s L)).Nodup
  apart : ∀ L ∈ lists, ∀ L' ∈ lists, ∀ x ∈ nodes L (s L), x ∈ nodes L' (s L') → L = L'
  nonzero : ∀ L ∈ lists, ∀ x ∈ nodes L (s L), x ≠ 0

/-- An element in no list. -/
def Unlisted (lists : List Word) (s : Word → List Word) (e : Word) : Prop :=
  e ≠ 0 ∧ ∀ L ∈ lists, e ∉ nodes L (s L)

/-- The links of all the other lists are as before. -/
def OtherLinksKept (lists : List Word) (s : Word → List Word) (m m' : Links Word) (L : Word) : Prop :=
  ∀ L' ∈ lists, L' ≠ L → ∀ x ∈ nodes L' (s L'), m'.next x = m.next x ∧ m'.prev x = m.prev x

/-- One list gets another sequence, of its own elements and of elements in no list. -/
lemma Rep.update (h : Rep lists m s) (hs : ∀ L' ∈ lists, L' ≠ L → s' L' = s L')
    (hchained : m'.Chained (nodes L (s' L))) (hnodup : (nodes L (s' L)).Nodup)
    (hnew : ∀ x ∈ nodes L (s' L), x ∈ nodes L (s L) ∨ Unlisted lists s x) (hL : L ∈ lists)
    (hframe : OtherLinksKept lists s m m' L) : Rep lists m' s' where
  chained L' hL' := by
    by_cases he : L' = L
    · rwa [he]
    · rw [hs L' hL' he]
      exact (h.chained L' hL').congr
        (fun x hx => (hframe L' hL' he x (List.mem_of_mem_dropLast hx)).1)
        fun x hx => (hframe L' hL' he x (List.mem_of_mem_tail hx)).2
  nodup L' hL' := by
    by_cases he : L' = L
    · rwa [he]
    · rw [hs L' hL' he]
      exact h.nodup L' hL'
  apart L1 h1 L2 h2 x hx1 hx2 := by
    have hout : ∀ L' ∈ lists, L' ≠ L → x ∈ nodes L (s' L) → x ∉ nodes L' (s L') := by
      intro L' hL' hne hx hx'
      rcases hnew x hx with hold | hun
      · exact hne (h.apart L hL L' hL' x hold hx').symm
      · exact hun.2 L' hL' hx'
    by_cases he1 : L1 = L
    · by_cases he2 : L2 = L
      · rw [he1, he2]
      · rw [he1] at hx1
        rw [hs L2 h2 he2] at hx2
        exact absurd hx2 (hout L2 h2 he2 hx1)
    · by_cases he2 : L2 = L
      · rw [he2] at hx2
        rw [hs L1 h1 he1] at hx1
        exact absurd hx1 (hout L1 h1 he1 hx2)
      · rw [hs L1 h1 he1] at hx1
        rw [hs L2 h2 he2] at hx2
        exact h.apart L1 h1 L2 h2 x hx1 hx2
  nonzero L' hL' x hx := by
    by_cases he : L' = L
    · rw [he] at hx
      rcases hnew x hx with hold | hun
      · exact h.nonzero L hL x hold
      · exact hun.1
    · rw [hs L' hL' he] at hx
      exact h.nonzero L' hL' x hx

/-- Nodes of one list are not nodes of another. -/
lemma Rep.ne_of_mem (h : Rep lists m s) (hL : L ∈ lists) (hL' : L' ∈ lists) (hne : L' ≠ L)
    {x y : Word} (hx : x ∈ nodes L' (s L')) (hy : y ∈ nodes L (s L)) : x ≠ y := by
  rintro rfl
  exact hne (h.apart L' hL' L hL x hx hy)

/-- `list_insert_before` of an element in no list. -/
lemma Rep.insert (h : Rep lists m s) (hL : L ∈ lists) (he : Unlisted lists s e)
    (hold : nodes L (s L) = l1 ++ p :: e1 :: l2) (hnew : nodes L l' = l1 ++ p :: e :: e1 :: l2) :
    ∃ m', (listInsertBefore e1 e).Runs m [] m' () ∧ Rep lists m' (Function.update s L l') ∧
      OtherLinksKept lists s m m' L := by
  have hchained := h.chained L hL
  have hnodup := h.nodup L hL
  have hnonzero := h.nonzero L hL
  have hnotMem := he.2 L hL
  have hp : p ∈ nodes L (s L) := by grind
  have he1 : e1 ∈ nodes L (s L) := by grind
  rw [hold] at hchained hnodup hnotMem
  have hprev : m.prev e1 = p := (List.isChain_append_cons_cons.mp hchained).2.1.2
  have hframe : OtherLinksKept lists s m (m.insertBefore e1 e) L := by
    intro L' hL' hne x hx
    have hother := fun {y} hy => h.ne_of_mem (y := y) hL hL' hne hx hy
    exact Links.insertBefore_of_ne (hprev ▸ hother hp) (hother he1)
      fun hxe => he.2 L' hL' (hxe ▸ hx)
  refine ⟨_, runs_listInsertBefore (hnonzero e1 he1) he.1 (hprev ▸ hnonzero p hp), ?_, hframe⟩
  refine h.update (fun L' _ hne => Function.update_of_ne hne _ _) ?_ ?_ ?_ hL hframe
  · rw [Function.update_self, hnew]
    exact hchained.insertBefore hnodup hnotMem
  · rw [Function.update_self, hnew]
    grind
  · rw [Function.update_self, hnew, hold]
    intro x hx
    grind

/-- `list_remove` of an element of a list. -/
lemma Rep.remove (h : Rep lists m s) (hL : L ∈ lists)
    (hold : nodes L (s L) = l1 ++ p :: e :: n :: l2) (hnew : nodes L l' = l1 ++ p :: n :: l2) :
    ∃ m', (listRemove e).Runs m [] m' () ∧ Rep lists m' (Function.update s L l') ∧
      OtherLinksKept lists s m m' L := by
  have hchained := h.chained L hL
  have hnodup := h.nodup L hL
  have hnonzero := h.nonzero L hL
  have hp : p ∈ nodes L (s L) := by grind
  have he : e ∈ nodes L (s L) := by grind
  have hn : n ∈ nodes L (s L) := by grind
  rw [hold] at hchained hnodup
  obtain ⟨-, ⟨-, hprev⟩, hrest⟩ := List.isChain_append_cons_cons.mp hchained
  have hnext : m.next e = n := (List.isChain_cons_cons.mp hrest).1.1
  have hpe : p ≠ e := by grind
  have hframe : OtherLinksKept lists s m (m.remove e) L := by
    intro L' hL' hne x hx
    have hother := fun {y} hy => h.ne_of_mem (y := y) hL hL' hne hx hy
    exact Links.remove_of_ne (hprev ▸ hother hp) (hnext ▸ hother hn)
  refine ⟨_, runs_listRemove (hnonzero e he) (hprev ▸ hnonzero p hp) (hnext ▸ hnonzero n hn)
    (hprev ▸ hpe), ?_, hframe⟩
  refine h.update (fun L' _ hne => Function.update_of_ne hne _ _) ?_ ?_ ?_ hL hframe
  · rw [Function.update_self, hnew]
    exact hchained.remove hnodup
  · rw [Function.update_self, hnew]
    grind
  · rw [Function.update_self, hnew, hold]
    intro x hx
    grind

end Sequences

section Operations

/-- A call of one of the functions that change lists. -/
inductive ListOp
  | pushFront (list e : Word)
  | pushBack (list e : Word)
  | remove (e : Word)
  | popFront (list : Word)

namespace ListOp

/-- The value is that of `list_pop_front`. -/
def exec : ListOp → ListProg (Option Word)
  | .pushFront list e => do
    listPushFront list e
    return none
  | .pushBack list e => do
    listPushBack list e
    return none
  | .remove e => do
    listRemove e
    return none
  | .popFront list => do
    let ret ← listPopFront list
    return some ret

/-- What the caller has to see to. -/
def Allowed (lists : List Word) (s : Word → List Word) : ListOp → Prop
  | .pushFront list e | .pushBack list e => list ∈ lists ∧ Unlisted lists s e
  | .remove e => ∃ list ∈ lists, e ∈ s list
  | .popFront list => list ∈ lists ∧ s list ≠ []

/-- What the call does to the sequences. -/
def apply (s : Word → List Word) : ListOp → Word → List Word
  | .pushFront list e => Function.update s list (e :: s list)
  | .pushBack list e => Function.update s list (s list ++ [e])
  | .remove e => fun list => (s list).erase e
  | .popFront list => Function.update s list (s list).tail

def result (s : Word → List Word) : ListOp → Option Word
  | .popFront list => (s list).head?
  | _ => none

/-- The list that the call changes. -/
def Touches (s : Word → List Word) (list : Word) : ListOp → Prop
  | .pushFront list' _ | .pushBack list' _ | .popFront list' => list = list'
  | .remove e => e ∈ s list

/-- The calls one after another, with their values. -/
def execAll : List ListOp → ListProg (List (Option Word))
  | [] => return []
  | op :: ops => do
    let r ← op.exec
    let rs ← execAll ops
    return r :: rs

def AllowedAll (lists : List Word) : (Word → List Word) → List ListOp → Prop
  | _, [] => True
  | s, op :: ops => op.Allowed lists s ∧ AllowedAll lists (op.apply s) ops

def results : (Word → List Word) → List ListOp → List (Option Word)
  | _, [] => []
  | s, op :: ops => op.result s :: results (op.apply s) ops

end ListOp

variable {lists : List Word} {s : Word → List Word} {m : Links Word} {L e : Word} {op : ListOp}
  {ops : List ListOp}

lemma Rep.head_next (h : Rep lists m s) (hL : L ∈ lists) :
    m.next (headOf L) = (s L).headD (tailOf L) :=
  (h.chained L hL).next_eq

lemma Rep.head_ne_zero (h : Rep lists m s) (hL : L ∈ lists) : headOf L ≠ 0 :=
  h.nonzero L hL _ List.mem_cons_self

/-- What one call does: the sequences change as they should, its value is right and the links of
the lists that it is not about stay. -/
structure OpDone (lists : List Word) (s : Word → List Word) (m m' : Links Word) (op : ListOp)
    (r : Option Word) : Prop where
  rep : Rep lists m' (op.apply s)
  result : r = op.result s
  kept : ∀ L ∈ lists, ¬ op.Touches s L → ∀ x ∈ nodes L (s L),
    m'.next x = m.next x ∧ m'.prev x = m.prev x

lemma runs_pushFront (h : Rep lists m s) (hL : L ∈ lists) (he : Unlisted lists s e) : ∃ m' r,
    (ListOp.exec (.pushFront L e)).Runs m [] m' r ∧ OpDone lists s m m' (.pushFront L e) r := by
  obtain ⟨e1, l2, hsplit⟩ : ∃ e1 l2, s L ++ [tailOf L] = e1 :: l2 :=
    List.exists_cons_of_ne_nil (List.append_ne_nil_of_right_ne_nil _ (List.cons_ne_nil _ _))
  have hold : nodes L (s L) = [] ++ headOf L :: e1 :: l2 := congrArg _ hsplit
  have hnew : nodes L (e :: s L) = [] ++ headOf L :: e :: e1 :: l2 :=
    congrArg (fun l => headOf L :: e :: l) hsplit
  have hnext : m.next (headOf L) = e1 := by
    have hchained := h.chained L hL
    rw [hold] at hchained
    exact (List.isChain_cons_cons.mp hchained).1.1
  obtain ⟨m', hrun, hrep, hothers⟩ := h.insert hL he hold hnew
  have hpush : (listPushFront L e).Runs m [] m' () :=
    runs_getNext_bind (h.head_ne_zero hL) (hnext ▸ hrun)
  exact ⟨m', none, hpush.bind_end (Runs.ret none m'), hrep, rfl, hothers⟩

lemma runs_pushBack (h : Rep lists m s) (hL : L ∈ lists) (he : Unlisted lists s e) : ∃ m' r,
    (ListOp.exec (.pushBack L e)).Runs m [] m' r ∧ OpDone lists s m m' (.pushBack L e) r := by
  obtain ⟨l1, p, hsplit⟩ : ∃ l1 p, headOf L :: s L = l1 ++ [p] :=
    ⟨_, _, (List.dropLast_append_getLast (List.cons_ne_nil _ _)).symm⟩
  have hold : nodes L (s L) = l1 ++ p :: tailOf L :: [] := by
    rw [nodes, ← List.cons_append, hsplit, List.append_assoc]
    rfl
  have hnew : nodes L (s L ++ [e]) = l1 ++ p :: e :: tailOf L :: [] := by
    rw [nodes, ← List.cons_append, ← List.cons_append, hsplit, List.append_assoc, List.append_assoc]
    rfl
  obtain ⟨m', hrun, hrep, hothers⟩ := h.insert hL he hold hnew
  exact ⟨m', none, Runs.bind_end hrun (Runs.ret none m'), hrep, rfl, hothers⟩

/-- An element between two parts of a list is taken out. -/
lemma Rep.remove_middle (h : Rep lists m s) (hL : L ∈ lists) {k1 k2 : List Word}
    (hs : s L = k1 ++ e :: k2) : ∃ m', (listRemove e).Runs m [] m' () ∧
      Rep lists m' (Function.update s L (k1 ++ k2)) ∧ OtherLinksKept lists s m m' L := by
  obtain ⟨l1, p, hfront⟩ : ∃ l1 p, headOf L :: k1 = l1 ++ [p] :=
    ⟨_, _, (List.dropLast_append_getLast (List.cons_ne_nil _ _)).symm⟩
  obtain ⟨n, l2, hback⟩ : ∃ n l2, k2 ++ [tailOf L] = n :: l2 :=
    List.exists_cons_of_ne_nil (List.append_ne_nil_of_right_ne_nil _ (List.cons_ne_nil _ _))
  have hold : nodes L (s L) = l1 ++ p :: e :: n :: l2 := by
    rw [nodes, hs, List.append_assoc, List.cons_append, hback, ← List.cons_append, hfront,
      List.append_assoc]
    rfl
  have hnew : nodes L (k1 ++ k2) = l1 ++ p :: n :: l2 := by
    rw [nodes, List.append_assoc, hback, ← List.cons_append, hfront, List.append_assoc]
    rfl
  exact h.remove hL hold hnew

lemma Rep.congr {s' : Word → List Word} (h : Rep lists m s) (hs : ∀ L ∈ lists, s' L = s L) :
    Rep lists m s' where
  chained L hL := hs L hL ▸ h.chained L hL
  nodup L hL := hs L hL ▸ h.nodup L hL
  apart L hL L' hL' := by
    rw [hs L hL, hs L' hL']
    exact h.apart L hL L' hL'
  nonzero L hL := hs L hL ▸ h.nonzero L hL

lemma mem_nodes {l : List Word} (h : e ∈ l) : e ∈ nodes L l :=
  List.mem_cons_of_mem _ (List.mem_append_left _ h)

lemma runs_remove (h : Rep lists m s) (hL : L ∈ lists) (he : e ∈ s L) : ∃ m' r,
    (ListOp.exec (.remove e)).Runs m [] m' r ∧ OpDone lists s m m' (.remove e) r := by
  obtain ⟨k1, k2, hs⟩ := List.append_of_mem he
  obtain ⟨m', hrun, hrep, hothers⟩ := h.remove_middle hL hs
  have hfirst : e ∉ k1 := by
    have hnodup := h.nodup L hL
    rw [nodes, hs] at hnodup
    grind
  have hnot : ∀ L' ∈ lists, L' ≠ L → e ∉ s L' := fun L' hL' hne hmem =>
    hne (h.apart L' hL' L hL e (mem_nodes hmem) (mem_nodes he))
  refine ⟨m', none, Runs.bind_end hrun (Runs.ret none m'), hrep.congr fun L' hL' => ?_, rfl,
    fun L' hL' htouch => hothers L' hL' fun heq => htouch (heq ▸ he)⟩
  change (s L').erase e = _
  by_cases heq : L' = L
  · rw [heq, Function.update_self, hs, List.erase_append_right _ hfirst, List.erase_cons_head]
  · rw [Function.update_of_ne heq, List.erase_of_not_mem (hnot L' hL' heq)]

lemma runs_popFront (h : Rep lists m s) (hL : L ∈ lists) (hne : s L ≠ []) : ∃ m' r,
    (ListOp.exec (.popFront L)).Runs m [] m' r ∧ OpDone lists s m m' (.popFront L) r := by
  obtain ⟨x, k, hs⟩ := List.exists_cons_of_ne_nil hne
  have hsplit : s L = [] ++ x :: k := hs
  obtain ⟨m', hrun, hrep, hothers⟩ := h.remove_middle hL hsplit
  have hnext : m.next (headOf L) = x := by
    have hhead := h.head_next hL
    rwa [hs] at hhead
  have hpop : (listPopFront L).Runs m [] m' x := by
    apply runs_getNext_bind (h.head_ne_zero hL)
    rw [hnext]
    exact hrun.bind_end (Runs.ret x m')
  refine ⟨m', some x, hpop.bind_end (Runs.ret (some x) m'), ?_, ?_, hothers⟩
  · change Rep lists m' (Function.update s L (s L).tail)
    rw [hs]
    exact hrep
  · change some x = (s L).head?
    rw [hs]
    rfl

/-- One call. -/
lemma runs_exec (h : Rep lists m s) (hop : op.Allowed lists s) : ∃ m' r,
    op.exec.Runs m [] m' r ∧ OpDone lists s m m' op r := by
  cases op with
  | pushFront L e => exact runs_pushFront h hop.1 hop.2
  | pushBack L e => exact runs_pushBack h hop.1 hop.2
  | remove e =>
    obtain ⟨L, hL, he⟩ := hop
    exact runs_remove h hL he
  | popFront L => exact runs_popFront h hop.1 hop.2

/-- By induction on the calls. -/
lemma runs_execAll (h : Rep lists m s) (hops : ListOp.AllowedAll lists s ops) : ∃ m',
    (ListOp.execAll ops).Runs m [] m' (ListOp.results s ops) ∧
      Rep lists m' (ops.foldl ListOp.apply s) := by
  induction ops generalizing m s with
  | nil => exact ⟨m, Runs.ret [] m, h⟩
  | cons op ops ih =>
    obtain ⟨m1, r, hrun1, hdone⟩ := runs_exec h hops.1
    obtain ⟨m2, hrun2, hrep⟩ := ih hdone.rep hops.2
    refine ⟨m2, ?_, hrep⟩
    rw [ListOp.results, ← hdone.result]
    exact hrun1.bind_silent (hrun2.bind_silent (Runs.ret _ m2))

end Operations

section Queries

variable {lists : List Word} {s : Word → List Word} {m : Links Word} {L e a : Word} {l : List Word}
  {rounds : ℕ}

/-- Following `next` from `a` meets the elements of `l` and then, for the first time, `b`. -/
def Path (next : Word → Word) : Word → List Word → Word → Prop
  | a, [], b => next a = b
  | a, x :: l, b => next a = x ∧ x ≠ b ∧ Path next x l b

lemma path_next (h : m.Chained (a :: (l ++ [e]))) (he : e ∉ l) : Path m.next a l e := by
  induction l generalizing a with
  | nil => exact (List.isChain_cons_cons.mp h).1.1
  | cons x l ih =>
    obtain ⟨hax, hrest⟩ := List.isChain_cons_cons.mp h
    exact ⟨hax.1, fun hxe => he (hxe ▸ List.mem_cons_self),
      ih hrest fun hmem => he (List.mem_cons_of_mem x hmem)⟩

/-- The links the other way round. -/
def Links.flip (m : Links Word) : Links Word := ⟨m.next, m.prev⟩

lemma Rep.path_next (h : Rep lists m s) (hL : L ∈ lists) :
    Path m.next (headOf L) (s L) (tailOf L) := by
  apply OsI386.path_next (h.chained L hL)
  have hnodup := h.nodup L hL
  rw [nodes] at hnodup
  grind

lemma Rep.path_prev (h : Rep lists m s) (hL : L ∈ lists) :
    Path m.prev (tailOf L) (s L).reverse (headOf L) := by
  have hback : m.flip.Chained (tailOf L :: ((s L).reverse ++ [headOf L])) := by
    have hrev : (nodes L (s L)).reverse = tailOf L :: ((s L).reverse ++ [headOf L]) := by
      simp [nodes]
    rw [← hrev]
    exact List.isChain_reverse.mpr ((h.chained L hL).imp fun a b hab => ⟨hab.2, hab.1⟩)
  apply OsI386.path_next hback
  have hnodup := h.nodup L hL
  rw [nodes] at hnodup
  grind

/-- By induction on what is left of the list; `tmp` is its first element or the end. -/
lemma runs_findLoop (h : m.Chained (l ++ [tailOf L])) (htail : tailOf L ∉ l)
    (hnonzero : ∀ x ∈ l, x ≠ 0) (hrounds : l.length < rounds) :
    (findLoop L e rounds (l.headD (tailOf L))).Runs m [] m (decide (e ∈ l)) := by
  induction l generalizing rounds with
  | nil =>
    obtain ⟨rounds, rfl⟩ := Nat.exists_eq_add_one_of_ne_zero (Nat.ne_zero_of_lt hrounds)
    rw [findLoop, List.headD_nil, if_neg (not_not.mpr rfl)]
    exact Runs.ret _ m
  | cons x l ih =>
    obtain ⟨rounds, rfl⟩ := Nat.exists_eq_add_one_of_ne_zero (Nat.ne_zero_of_lt hrounds)
    have hx : x ≠ tailOf L := fun hxe => htail (hxe ▸ List.mem_cons_self)
    rw [findLoop, List.headD_cons, if_pos hx]
    by_cases he : x = e
    · rw [if_pos he, decide_eq_true (he ▸ List.mem_cons_self)]
      exact Runs.ret _ m
    · have hnext : m.next x = l.headD (tailOf L) := Links.Chained.next_eq h
      have hmem : e ∈ x :: l ↔ e ∈ l := by
        rw [List.mem_cons]
        exact or_iff_right fun heq => he heq.symm
      rw [if_neg he, decide_eq_decide.mpr hmem]
      apply runs_getNext_bind (hnonzero x List.mem_cons_self)
      rw [hnext]
      exact ih (List.IsChain.tail h) (fun hmem => htail (List.mem_cons_of_mem x hmem))
        (fun y hy => hnonzero y (List.mem_cons_of_mem x hy)) (Nat.lt_of_succ_lt_succ hrounds)

lemma runs_lenLoop {cnt : Word} (h : m.Chained (l ++ [tailOf L])) (htail : tailOf L ∉ l)
    (hnonzero : ∀ x ∈ l, x ≠ 0) (hrounds : l.length < rounds) :
    (lenLoop L rounds (l.headD (tailOf L)) cnt).Runs m [] m (cnt + BitVec.ofNat 32 l.length) := by
  induction l generalizing rounds cnt with
  | nil =>
    obtain ⟨rounds, rfl⟩ := Nat.exists_eq_add_one_of_ne_zero (Nat.ne_zero_of_lt hrounds)
    rw [lenLoop, List.headD_nil, if_neg (not_not.mpr rfl), List.length_nil, BitVec.add_zero]
    exact Runs.ret _ m
  | cons x l ih =>
    obtain ⟨rounds, rfl⟩ := Nat.exists_eq_add_one_of_ne_zero (Nat.ne_zero_of_lt hrounds)
    have hx : x ≠ tailOf L := fun hxe => htail (hxe ▸ List.mem_cons_self)
    have hnext : m.next x = l.headD (tailOf L) := Links.Chained.next_eq h
    have hlen : cnt + BitVec.ofNat 32 (x :: l).length = cnt + 1 + BitVec.ofNat 32 l.length := by
      rw [List.length_cons, BitVec.ofNat_add, BitVec.add_comm (BitVec.ofNat 32 l.length),
        ← BitVec.add_assoc]
      rfl
    rw [lenLoop, List.headD_cons, if_pos hx, hlen]
    apply runs_getNext_bind (hnonzero x List.mem_cons_self)
    rw [hnext]
    exact ih (List.IsChain.tail h) (fun hmem => htail (List.mem_cons_of_mem x hmem))
      (fun y hy => hnonzero y (List.mem_cons_of_mem x hy)) (Nat.lt_of_succ_lt_succ hrounds)

/-- What a list shows to those who only look: its links both ways, and the values of the four
functions. -/
structure Shows (m : Links Word) (L : Word) (l : List Word) : Prop where
  next : Path m.next (headOf L) l (tailOf L)
  prev : Path m.prev (tailOf L) l.reverse (headOf L)
  empty : (listEmpty L).Runs m [] m (decide (l = []))
  first : (listFirstElem L).Runs m [] m (l.headD (tailOf L))
  len : ∃ n : Word, n.toNat = l.length ∧
    ∀ rounds, l.length < rounds → (listLen rounds L).Runs m [] m n
  find : ∀ e rounds, l.length < rounds → (listElemFind rounds L e).Runs m [] m (decide (e ∈ l))

/-- The elements have different addresses. -/
lemma length_lt_of_nodup {l : List Word} (h : (nodes L l).Nodup) : l.length < 2 ^ 32 := by
  have hmap : ((nodes L l).map BitVec.toNat).Nodup :=
    h.map fun x y hxy => BitVec.eq_of_toNat_eq hxy
  have hsub : (nodes L l).map BitVec.toNat ⊆ List.range (2 ^ 32) := by
    intro k hk
    obtain ⟨x, -, rfl⟩ := List.mem_map.mp hk
    exact List.mem_range.mpr x.isLt
  have hle := (hmap.subperm hsub).length_le
  rw [List.length_map, List.length_range] at hle
  simp only [nodes, List.length_cons, List.length_append, List.length_nil] at hle
  omega

lemma Rep.shows (h : Rep lists m s) (hL : L ∈ lists) : Shows m L (s L) := by
  have hnodup := h.nodup L hL
  have hzero := h.head_ne_zero hL
  have hnext := h.head_next hL
  have hrest : m.Chained (s L ++ [tailOf L]) := List.IsChain.tail (h.chained L hL)
  have htail : tailOf L ∉ s L := by
    rw [nodes] at hnodup
    grind
  have hnonzero : ∀ x ∈ s L, x ≠ 0 := fun x hx => h.nonzero L hL x (mem_nodes hx)
  refine ⟨h.path_next hL, h.path_prev hL, ?_, ?_, ⟨BitVec.ofNat 32 (s L).length, ?_, ?_⟩, ?_⟩
  · apply runs_getNext_bind hzero
    have hiff : m.next (headOf L) = tailOf L ↔ s L = [] := by
      rw [hnext]
      cases hs : s L with
      | nil => simp
      | cons x l =>
        rw [hs] at htail
        refine iff_of_false (fun hx => htail (List.mem_cons.mpr (.inl hx.symm))) ?_
        exact List.cons_ne_nil x l
    rw [← decide_eq_decide.mpr hiff]
    exact Runs.ret _ m
  · rw [← hnext, listFirstElem, getNext, if_neg hzero]
    exact runs_read _ m
  · rw [BitVec.toNat_ofNat, Nat.mod_eq_of_lt (length_lt_of_nodup hnodup)]
  · intro rounds hrounds
    apply runs_getNext_bind hzero
    rw [hnext, ← BitVec.zero_add (BitVec.ofNat 32 (s L).length)]
    exact runs_lenLoop hrest htail hnonzero hrounds
  · intro e rounds hrounds
    apply runs_getNext_bind hzero
    rw [hnext]
    exact runs_findLoop hrest htail hnonzero hrounds

end Queries

section Families

variable {lists : List Word} {m : Links Word} {L : Word} {ops : List ListOp}

def sentinels (L : Word) : List Word := [headOf L, tailOf L]

/-- Headers of lists: none of their elements is at `NULL` or in two of them. -/
structure Family (lists : List Word) : Prop where
  nodup : (lists.flatMap sentinels).Nodup
  nonzero : 0 ∉ lists.flatMap sentinels

/-- `list_init` of each list. -/
def initAll : List Word → ListProg Unit
  | [] => return ()
  | L :: lists => do
    listInit L
    initAll lists

lemma runs_listInit (hhead : headOf L ≠ 0) (htail : tailOf L ≠ 0) (hne : headOf L ≠ tailOf L)
    (m : Links Word) : ∃ m', (listInit L).Runs m [] m' () ∧ m'.Joined (headOf L) (tailOf L) ∧
      ∀ x ∉ sentinels L, m'.next x = m.next x ∧ m'.prev x = m.prev x := by
  refine ⟨_, (runs_setPrev hhead m).bind_silent ((runs_setNext hhead _).bind_silent
    ((runs_setPrev htail _).bind_silent (runs_setNext htail _))), ⟨?_, ?_⟩, fun x hx => ?_⟩
  · exact (Function.update_of_ne hne _ _).trans (Function.update_self _ _ _)
  · exact Function.update_self _ _ _
  · have hx' : x ≠ headOf L ∧ x ≠ tailOf L := by
      simpa [sentinels] using hx
    constructor
    · exact (Function.update_of_ne hx'.2 _ _).trans (Function.update_of_ne hx'.1 _ _)
    · exact (Function.update_of_ne hx'.2 _ _).trans (Function.update_of_ne hx'.1 _ _)

/-- By induction on the family; later initialisations leave the earlier lists alone. -/
lemma runs_initAll (h : Family lists) (m : Links Word) : ∃ m', (initAll lists).Runs m [] m' () ∧
    (∀ L ∈ lists, m'.Joined (headOf L) (tailOf L)) ∧
    ∀ x ∉ lists.flatMap sentinels, m'.next x = m.next x ∧ m'.prev x = m.prev x := by
  induction lists generalizing m with
  | nil => exact ⟨m, Runs.ret () m, fun L hL => absurd hL List.not_mem_nil, fun _ _ => ⟨rfl, rfl⟩⟩
  | cons L lists ih =>
    obtain ⟨hown, hrest, hdisj⟩ := List.nodup_append.mp h.nodup
    have hnonzero := h.nonzero
    rw [List.flatMap_cons, List.mem_append, not_or] at hnonzero
    have hne : headOf L ≠ tailOf L := by simpa [sentinels] using hown
    have hzero : 0 ≠ headOf L ∧ 0 ≠ tailOf L := by simpa [sentinels] using hnonzero.1
    obtain ⟨m1, hrun1, hjoined1, hframe1⟩ := runs_listInit hzero.1.symm hzero.2.symm hne m
    obtain ⟨m2, hrun2, hjoined2, hframe2⟩ := ih ⟨hrest, hnonzero.2⟩ m1
    have hkept : ∀ x ∈ sentinels L, m2.next x = m1.next x ∧ m2.prev x = m1.prev x := fun x hx =>
      hframe2 x fun hmem => hdisj x hx x hmem rfl
    refine ⟨m2, hrun1.bind_silent hrun2, fun L' hL' => ?_, fun x hx => ?_⟩
    · rcases List.mem_cons.mp hL' with rfl | hL'
      · refine ⟨(hkept _ List.mem_cons_self).1.trans hjoined1.1, ?_⟩
        exact (hkept _ (List.mem_cons_of_mem _ List.mem_cons_self)).2.trans hjoined1.2
      · exact hjoined2 L' hL'
    · rw [List.flatMap_cons, List.mem_append, not_or] at hx
      have h1 := hframe1 x hx.1
      have h2 := hframe2 x hx.2
      exact ⟨h2.1.trans h1.1, h2.2.trans h1.2⟩

lemma Family.rep (h : Family lists)
    (hjoined : ∀ L ∈ lists, m.Joined (headOf L) (tailOf L)) : Rep lists m fun _ => [] where
  chained L hL := List.isChain_cons_cons.mpr ⟨hjoined L hL, List.isChain_singleton _⟩
  nodup L hL := (List.nodup_flatMap.mp h.nodup).1 L hL
  apart L hL L' hL' x hx hx' := by
    by_contra hne
    have hpair := (List.nodup_flatMap.mp h.nodup).2
    have hsymm : Std.Symm (Function.onFun List.Disjoint sentinels) := ⟨fun _ _ hd => hd.symm⟩
    exact hpair.forall hL hL' hne hx hx'
  nonzero L hL x hx he := h.nonzero (List.mem_flatMap.mpr ⟨L, hL, he ▸ hx⟩)

/-- After `list_init` of each list of a family and any calls that are allowed, each list shows
the sequence that the calls make of it, and the calls have had the values of that sequence. Of any
further call, the lists that it is not about keep all their links. -/
theorem lists_are_sequences (h : Family lists)
    (hops : ListOp.AllowedAll lists (fun _ => []) ops) (m : Links Word) : ∃ m1 m2,
    (initAll lists).Runs m [] m1 () ∧
    (ListOp.execAll ops).Runs m1 [] m2 (ListOp.results (fun _ => []) ops) ∧
    (∀ L ∈ lists, Shows m2 L (ops.foldl ListOp.apply (fun _ => []) L)) ∧
    ∀ op : ListOp, op.Allowed lists (ops.foldl ListOp.apply fun _ => []) →
      ∃ m3 r, op.exec.Runs m2 [] m3 r ∧ ∀ L ∈ lists,
        ¬ op.Touches (ops.foldl ListOp.apply fun _ => []) L →
        ∀ x ∈ nodes L (ops.foldl ListOp.apply (fun _ => []) L),
          m3.next x = m2.next x ∧ m3.prev x = m2.prev x := by
  obtain ⟨m1, hinit, hjoined, -⟩ := runs_initAll h m
  obtain ⟨m2, hrun, hrep⟩ := runs_execAll (h.rep hjoined) hops
  refine ⟨m1, m2, hinit, hrun, fun L hL => hrep.shows hL, fun op hop => ?_⟩
  obtain ⟨m3, r, hop, hdone⟩ := runs_exec hrep hop
  exact ⟨m3, r, hop, hdone.kept⟩

/-- Two lists and three elements, one of which is taken out of one list and put into the other. -/
theorem lists_are_sequences_two :
    let lists : List Word := [0x1000, 0x2000]
    let ops : List ListOp := [.pushBack 0x1000 0x3000, .pushFront 0x1000 0x3008,
      .pushBack 0x2000 0x3010, .remove 0x3000, .pushFront 0x2000 0x3000, .popFront 0x2000]
    let s : Word → List Word := ops.foldl ListOp.apply fun _ => []
    ∃ m1 m2, (initAll lists).Runs ⟨fun _ => 0, fun _ => 0⟩ [] m1 () ∧
      (ListOp.execAll ops).Runs m1 [] m2 (ListOp.results (fun _ => []) ops) ∧
      (∀ L ∈ lists, Shows m2 L (s L)) ∧ ∀ op : ListOp, op.Allowed lists s →
        ∃ m3 r, op.exec.Runs m2 [] m3 r ∧ ∀ L ∈ lists, ¬ op.Touches s L →
          ∀ x ∈ nodes L (s L), m3.next x = m2.next x ∧ m3.prev x = m2.prev x :=
  lists_are_sequences ⟨by decide, by decide⟩
    (by
      simp [ListOp.AllowedAll, ListOp.Allowed, ListOp.apply, Unlisted, nodes, headOf, tailOf,
        Function.update])
    _

end Families

end OsI386
