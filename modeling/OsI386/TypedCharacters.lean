import OsI386.IoQueueHistory
import OsI386.Typing

/-!
# The way of the characters to the readers

An interrupt decodes one scan code and hands its character to `ioq_putchar` in the thread it finds
running. The thread may sleep there, so other interrupts may come first. A thread that has slept
there and goes on ends the handler in `hwi_tail_handle`, which loads a frame that was resumed
before; runs are followed as far as no thread does.
-/
namespace OsI386
open TransitionSystem

section Puts

variable {T : Type} [DecidableEq T] {s s' : IoqSystem T} {t : T} {put begun added : List Byte}
  {waiting : List (T × Byte)} {x : Option (IoqCall × IoqPoint)}

/-- What a suspended call has still to store. -/
def pendingByte : Option (IoqCall × IoqPoint) → List Byte
  | some (.putchar c, _) => [c]
  | _ => []

/-- The bytes of `put` are those stored and those the threads of `waiting` have still to store. -/
structure PutsKept (s : IoqSystem T) (put : List Byte) (waiting : List (T × Byte)) : Prop where
  nodup : (waiting.map Prod.fst).Nodup
  mem : ∀ t c, (t, c) ∈ waiting ↔ c ∈ pendingByte (s.pc t)
  perm : put.Perm (s.stored ++ waiting.map Prod.snd)

omit [DecidableEq T] in
lemma pendingByte_nodup : ((pendingByte x).map fun c => (t, c)).Nodup := by
  obtain _ | ⟨_ | c, point⟩ := x
  · exact List.nodup_nil
  · exact List.nodup_nil
  · exact List.nodup_singleton _

/-- The waiting threads with `t` moved to the front and its byte replaced. -/
def moveFront (t : T) (bytes : List Byte) (waiting : List (T × Byte)) : List (T × Byte) :=
  bytes.map (fun c => (t, c)) ++ waiting.filter fun p => p.1 ≠ t

lemma mem_moveFront {u : T} {c : Byte} {bytes : List Byte} :
    (u, c) ∈ moveFront t bytes waiting ↔ if u = t then c ∈ bytes else (u, c) ∈ waiting := by
  unfold moveFront
  by_cases hu : u = t
  · simp [hu]
  · simp [hu, Ne.symm hu]

lemma PutsKept.front (h : PutsKept s put waiting) (t : T) :
    waiting.Perm (moveFront t (pendingByte (s.pc t)) waiting) := by
  have hnodup : waiting.Nodup := h.nodup.of_map
  have hfront : (moveFront t (pendingByte (s.pc t)) waiting).Nodup := by
    refine pendingByte_nodup.append (hnodup.filter _) ?_
    intro p hp hq
    obtain ⟨c, _, rfl⟩ := List.mem_map.mp hp
    simp at hq
  rw [List.perm_ext_iff_of_nodup hnodup hfront]
  rintro ⟨u, c⟩
  rw [mem_moveFront]
  by_cases hu : u = t
  · rw [if_pos hu, ← hu, h.mem]
  · rw [if_neg hu]

/-- A call of one thread goes on: what it was to store it stores, or still has to. -/
lemma PutsKept.move (h : PutsKept s put waiting) (hpc : s'.pc = Function.update s.pc t x)
    (hstored : s'.stored = s.stored ++ added)
    (hbytes : (begun ++ pendingByte (s.pc t)).Perm (added ++ pendingByte x)) :
    PutsKept s' (put ++ begun) (moveFront t (pendingByte x) waiting) where
  nodup := by
    have hrest : ((waiting.filter fun p => p.1 ≠ t).map Prod.fst).Nodup :=
      h.nodup.sublist (List.filter_sublist.map _)
    have hout : t ∉ (waiting.filter fun p => p.1 ≠ t).map Prod.fst := by simp
    unfold moveFront
    rw [List.map_append]
    obtain _ | ⟨_ | c, point⟩ := x
    · exact hrest
    · exact hrest
    · exact List.nodup_cons.mpr ⟨hout, hrest⟩
  mem u c := by
    rw [mem_moveFront, hpc]
    by_cases hu : u = t
    · rw [if_pos hu, hu, Function.update_self]
    · rw [if_neg hu, Function.update_of_ne hu, h.mem]
  perm := by
    have hfront := (h.front t).map Prod.snd
    rw [List.perm_iff_count] at *
    intro b
    have hput := h.perm.count_eq b
    have hold := hfront b
    have hnew := hbytes b
    have hsnd : ∀ bytes : List Byte, (moveFront t bytes waiting).map Prod.snd =
        bytes ++ (waiting.filter fun p => p.1 ≠ t).map Prod.snd := fun bytes => by
      simp [moveFront, Function.comp_def]
    rw [hsnd] at hold ⊢
    rw [hstored]
    simp only [List.count_append] at *
    omega

/-- The byte of a put that an event starts. -/
def IoqEvent.started : IoqEvent T → List Byte
  | .call _ (.putchar c) => [c]
  | _ => []

/-- A segment: its bytes before, with what it starts, and after, with what it stores. -/
lemma PutsKept.commit {c : IoqCall} {r : IoqSegment T} (h : PutsKept s put waiting)
    (hr : CellChange s.q r.q c r.stop) (hs : s.commit t c r = some s')
    (hstart : begun ++ pendingByte (s.pc t) = pendingByte (some (c, .inLock))) :
    ∃ waiting', PutsKept s' (put ++ begun) waiting' := by
  generalize hstop : r.stop = stop at hr
  cases hr with
  | @sleep point =>
    obtain ⟨status, _, rfl⟩ := commit_sleep hstop hs
    refine ⟨_, h.move rfl (List.append_nil s.stored).symm ?_⟩
    rw [hstart]
    cases c <;> rfl
  | getchar =>
    obtain ⟨_, _, _, _, hpc, hget, _⟩ := commit_done hstop hs
    have hstored : s'.stored = s.stored ++ [] := (hget rfl).1.trans (List.append_nil _).symm
    refine ⟨_, h.move hpc hstored ?_⟩
    rw [hstart]
    rfl
  | putchar =>
    obtain ⟨_, _, _, _, hpc, _, hput⟩ := commit_done hstop hs
    refine ⟨_, h.move hpc (hput nofun).1 ?_⟩
    rw [hstart]
    rfl

/-- No byte of a put is lost or stored twice. -/
lemma PutsKept.step {e : IoqEvent T} (h : PutsKept s put waiting) (hs : s.step e = some s') :
    ∃ waiting', PutsKept s' (put ++ e.started) waiting' := by
  have hsame : s'.stored = s.stored → s'.pc = s.pc → e.started = [] →
      ∃ waiting', PutsKept s' (put ++ e.started) waiting' := fun hstored hpc hstart =>
    ⟨waiting, h.nodup, by rw [hpc]; exact h.mem, by
      rw [hstored, hstart, List.append_nil]
      exact h.perm⟩
  cases e with
  | call t c =>
    simp only [IoqSystem.step, Option.ite_none_right_eq_some] at hs
    obtain ⟨⟨_, hpc⟩, hc⟩ := hs
    have hcommit : s.commit t c (ioqLoop s.q t c) = some s' := by cases c <;> exact hc
    refine h.commit (ioqLoop_cells s.q t c) hcommit ?_
    rw [hpc]
    cases c <;> rfl
  | resume t =>
    cases hpc : s.pc t with
    | none => simp [IoqSystem.step, hpc] at hs
    | some cp =>
      obtain ⟨c, point⟩ := cp
      simp only [IoqSystem.step, hpc, Option.ite_none_right_eq_some, Option.bind_eq_some_iff] at hs
      obtain ⟨_, r, hr, hc⟩ := hs
      refine h.commit (ioqResume_cells hr) hc ?_
      rw [hpc]
      cases c <;> rfl
  | sleep t st =>
    simp only [IoqSystem.step, Option.ite_none_right_eq_some, Option.some.injEq] at hs
    obtain ⟨_, rfl⟩ := hs
    exact hsame rfl rfl rfl
  | wake t =>
    simp only [IoqSystem.step, Option.ite_none_right_eq_some, Option.some.injEq] at hs
    obtain ⟨_, rfl⟩ := hs
    exact hsame rfl rfl rfl

/-- No thread sleeps in a put. -/
def PutsDone (s : IoqSystem T) : Prop := ∀ t, pendingByte (s.pc t) = []

lemma PutsDone.commit {c : IoqCall} {r : IoqSegment T} (h : PutsDone s)
    (hr : CellChange s.q r.q c r.stop) (hs : s.commit t c r = some s')
    (hput : ∀ point, r.stop = .sleep point → c = .getchar) :
    PutsDone s' ∧ s'.stored = s.stored ++ pendingByte (some (c, .inLock)) := by
  have hdone : ∀ {x}, pendingByte x = [] → s'.pc = Function.update s.pc t x → PutsDone s' :=
    fun hx hpc u => by
      rw [hpc, Function.update_apply]
      split_ifs
      · exact hx
      · exact h u
  generalize hstop : r.stop = stop at hr
  cases hr with
  | sleep =>
    obtain rfl := hput _ hstop
    obtain ⟨status, _, rfl⟩ := commit_sleep hstop hs
    exact ⟨hdone rfl rfl, (List.append_nil _).symm⟩
  | getchar =>
    obtain ⟨_, _, _, _, hpc, hget, _⟩ := commit_done hstop hs
    exact ⟨hdone rfl hpc, (hget rfl).1.trans (List.append_nil _).symm⟩
  | putchar =>
    obtain ⟨_, _, _, _, hpc, _, hbyte⟩ := commit_done hstop hs
    exact ⟨hdone rfl hpc, (hbyte nofun).1⟩

/-- When each put finds room they are stored in order. -/
lemma PutsDone.step {e : IoqEvent T} (h : PutsDone s) (hs : s.step e = some s')
    (hroom : e.started ≠ [] → ioqFull s.q = false) :
    PutsDone s' ∧ s'.stored = s.stored ++ e.started := by
  cases e with
  | call t c =>
    simp only [IoqSystem.step, Option.ite_none_right_eq_some] at hs
    obtain ⟨_, hc⟩ := hs
    have hcommit : s.commit t c (ioqLoop s.q t c) = some s' := by cases c <;> exact hc
    have hcalled := h.commit (ioqLoop_cells s.q t c) hcommit fun point hstop => by
      cases c with
      | getchar => rfl
      | putchar byte =>
        have hfull := hroom (by simp [IoqEvent.started])
        have hwait : (IoqCall.putchar byte).mustWait s.q = false := hfull
        rw [ioqLoop, hwait] at hstop
        cases hstop
    cases c <;> exact hcalled
  | resume t =>
    cases hpc : s.pc t with
    | none => simp [IoqSystem.step, hpc] at hs
    | some cp =>
      obtain ⟨c, point⟩ := cp
      simp only [IoqSystem.step, hpc, Option.ite_none_right_eq_some, Option.bind_eq_some_iff] at hs
      obtain ⟨_, r, hr, hc⟩ := hs
      have hpending := h t
      rw [hpc] at hpending
      cases c with
      | getchar => exact h.commit (ioqResume_cells hr) hc fun _ _ => rfl
      | putchar byte => cases hpending
  | sleep t st =>
    simp only [IoqSystem.step, Option.ite_none_right_eq_some, Option.some.injEq] at hs
    obtain ⟨_, rfl⟩ := hs
    exact ⟨h, (List.append_nil _).symm⟩
  | wake t =>
    simp only [IoqSystem.step, Option.ite_none_right_eq_some, Option.some.injEq] at hs
    obtain ⟨_, rfl⟩ := hs
    exact ⟨h, (List.append_nil _).symm⟩

end Puts

/-- The keyboard, its queue and the threads that read it. `read` are the scan codes read. -/
structure Typing (T : Type) where
  kbd : Keyboard
  ioq : IoqSystem T
  read : List Byte

inductive TypingEvent (T : Type)
  | interrupt (t : T) (byte : Byte)
  | getchar (t : T)
  | resume (t : T)
  | sleep (t : T) (st : TaskStatus)
  | wake (t : T)

/-- The scan codes an event reads. -/
def TypingEvent.bytes {T : Type} : TypingEvent T → List Byte
  | .interrupt _ byte => [byte]
  | _ => []

namespace Typing

variable {T : Type} [DecidableEq T] {s s' : Typing T}

/-- `buf` is what `ioqueue_init` leaves in the buffer. -/
def init (buf : ℕ → Byte) : Typing T := ⟨keyboardInit, IoqSystem.init buf, []⟩

/-- The handler runs in thread `t`, which the interrupt finds outside of the calls: they run with
interrupts off. What it hands over goes through `ioq_putchar`, and the thread may sleep there. -/
def interrupt (s : Typing T) (t : T) (byte : Byte) : Option (Typing T) :=
  let (kbd, call) := intrKeyboardHandler s.kbd byte
  match call with
  | some (.ioqPutchar c) => do
    let ioq ← s.ioq.step (.call t (.putchar c))
    return ⟨kbd, ioq, s.read ++ [byte]⟩
  | _ =>
    if (s.ioq.status t).Runnable ∧ s.ioq.pc t = none then
      some { s with kbd := kbd, read := s.read ++ [byte] }
    else none

def other (s : Typing T) (e : IoqEvent T) : Option (Typing T) := do
  let ioq ← s.ioq.step e
  return { s with ioq := ioq }

/-- A reader goes on. There is no step for a thread that has slept in the handler. -/
def resume (s : Typing T) (t : T) : Option (Typing T) :=
  if pendingByte (s.ioq.pc t) = [] then s.other (.resume t) else none

def step (s : Typing T) : TypingEvent T → Option (Typing T)
  | .interrupt t byte => s.interrupt t byte
  | .getchar t => s.other (.call t .getchar)
  | .resume t => s.resume t
  | .sleep t st => s.other (.sleep t st)
  | .wake t => s.other (.wake t)

/-- The character a call of the handler hands over. -/
def handed : KbdCall → Option Byte
  | .ioqPutchar c => some c
  | .putStr _ => none

/-- The characters of the scan codes read. -/
def decoded (s : Typing T) : List Byte := (kbdCalls keyboardInit s.read).filterMap handed

/-- The bytes in the buffer, from the next one to be returned on. -/
def buffered (s : Typing T) : List Byte :=
  RingBuffer.cells s.ioq.q.buf bufSize s.ioq.q.tail s.ioq.q.head

/-- An interrupt that hands over a character finds room in the queue. -/
def FindsRoom (s : Typing T) (e : TypingEvent T) : Prop :=
  (kbdCalls s.kbd e.bytes).filterMap handed = [] ∨ ioqFull s.ioq.q = false

instance (s : Typing T) (e : TypingEvent T) : Decidable (FindsRoom s e) :=
  inferInstanceAs (Decidable (_ ∨ _))

/-- A step of the system is a step of the queue that puts the characters decoded, or none when
there are none. -/
structure StepsBy (s s' : Typing T) (bytes : List Byte) : Prop where
  kbd : s'.kbd = kbdRun s.kbd bytes
  read : s'.read = s.read ++ bytes
  ioq : (∃ e, s.ioq.step e = some s'.ioq ∧ e.started = (kbdCalls s.kbd bytes).filterMap handed) ∨
    s'.ioq = s.ioq ∧ (kbdCalls s.kbd bytes).filterMap handed = []

lemma stepsBy_interrupt {t : T} {byte : Byte} (h : s.interrupt t byte = some s') :
    StepsBy s s' [byte] := by
  have hcalls : kbdCalls s.kbd [byte] = (intrKeyboardHandler s.kbd byte).2.toList :=
    List.append_nil _
  have hkbd : kbdRun s.kbd [byte] = (intrKeyboardHandler s.kbd byte).1 := rfl
  unfold interrupt at h
  generalize hr : intrKeyboardHandler s.kbd byte = r at h hcalls hkbd
  obtain ⟨kbd, call⟩ := r
  dsimp only at h hcalls hkbd
  obtain _ | c | message := call
  · simp only [Option.ite_none_right_eq_some, Option.some.injEq] at h
    obtain ⟨_, rfl⟩ := h
    exact ⟨hkbd.symm, rfl, .inr ⟨rfl, by rw [hcalls]; rfl⟩⟩
  · obtain ⟨ioq, hioq, hs⟩ := Option.bind_eq_some_iff.mp h
    obtain rfl := Option.some.inj hs
    exact ⟨hkbd.symm, rfl, .inl ⟨_, hioq, by rw [hcalls]; rfl⟩⟩
  · simp only [Option.ite_none_right_eq_some, Option.some.injEq] at h
    obtain ⟨_, rfl⟩ := h
    exact ⟨hkbd.symm, rfl, .inr ⟨rfl, by rw [hcalls]; rfl⟩⟩

lemma stepsBy_other {e : IoqEvent T} (he : e.started = []) (h : s.other e = some s') :
    StepsBy s s' [] := by
  obtain ⟨ioq, hioq, hs⟩ := Option.bind_eq_some_iff.mp h
  obtain rfl := Option.some.inj hs
  exact ⟨rfl, (List.append_nil _).symm, .inl ⟨e, hioq, he⟩⟩

lemma stepsBy {e : TypingEvent T} (h : s.step e = some s') : StepsBy s s' e.bytes := by
  cases e with
  | interrupt t byte => exact stepsBy_interrupt h
  | getchar t => exact stepsBy_other rfl h
  | resume t => exact stepsBy_other rfl (Option.ite_none_right_eq_some.mp h).2
  | sleep t st => exact stepsBy_other rfl h
  | wake t => exact stepsBy_other rfl h

structure Inv (s : Typing T) : Prop where
  kbd : s.kbd = kbdRun keyboardInit s.read
  history : IoqHistory s.ioq
  puts : ∃ waiting, PutsKept s.ioq s.decoded waiting

omit [DecidableEq T] in
lemma inv_init (buf : ℕ → Byte) : Inv (init (T := T) buf) := by
  refine ⟨rfl, .init buf, [], List.nodup_nil, fun t c => ?_, .refl _⟩
  exact iff_of_false List.not_mem_nil List.not_mem_nil

lemma StepsBy.decoded {bytes : List Byte} (hs : StepsBy s s' bytes) (h : Inv s) :
    s'.decoded = s.decoded ++ (kbdCalls s.kbd bytes).filterMap handed := by
  rw [Typing.decoded, hs.read, kbdCalls_append, List.filterMap_append, ← h.kbd]
  rfl

lemma Inv.step {e : TypingEvent T} (h : Inv s) (hs : s.step e = some s') : Inv s' := by
  have hby := stepsBy hs
  obtain ⟨waiting, hputs⟩ := h.puts
  have hkbd : s'.kbd = kbdRun keyboardInit s'.read := by
    rw [hby.kbd, hby.read, h.kbd, kbdRun, kbdRun, kbdRun, List.foldl_append]
  rcases hby.ioq with ⟨e', he', hstart⟩ | ⟨hioq, hnone⟩
  · refine ⟨hkbd, h.history.step he', ?_⟩
    rw [hby.decoded h, ← hstart]
    exact hputs.step he'
  · refine ⟨hkbd, hioq ▸ h.history, waiting, ?_⟩
    rw [hby.decoded h, hnone, List.append_nil, hioq]
    exact hputs

lemma mem_pendingByte {x : Option (IoqCall × IoqPoint)} {c : Byte} :
    c ∈ pendingByte x ↔ ∃ point, x = some (.putchar c, point) := by
  obtain _ | ⟨_ | byte, point⟩ := x <;> simp [pendingByte, eq_comm]

/-- In every interleaving of interrupts and readers in which no thread goes on that has slept in
the handler, the characters decoded are those returned, those in the buffer and one for each
thread that sleeps in the handler, none lost and none twice. -/
theorem typed_conserved {buf : ℕ → Byte}
    (h : Reach Typing.step (fun _ _ => True) (init (T := T) buf) s) :
    s.kbd = kbdRun keyboardInit s.read ∧ ∃ waiting : List (T × Byte),
      (waiting.map Prod.fst).Nodup ∧
      (∀ t c, (t, c) ∈ waiting ↔ ∃ point, s.ioq.pc t = some (.putchar c, point)) ∧
      s.decoded.Perm (s.ioq.returned ++ s.buffered ++ waiting.map Prod.snd) := by
  have hI : Inv s := h.invariant (inv_init buf) fun _ _ _ hI _ hs => hI.step hs
  obtain ⟨waiting, hputs⟩ := hI.puts
  refine ⟨hI.kbd, waiting, hputs.nodup, fun t c => (hputs.mem t c).trans mem_pendingByte, ?_⟩
  have hstored : s.ioq.stored = s.ioq.returned ++ s.buffered := hI.history.stored
  rw [← hstored]
  exact hputs.perm

/-- Thread 0 sleeps in the handler of the second key that finds the queue full, thread 1 in that
of the third, and then thread 2 reads. -/
theorem typed_conserved_full : ∃ s : Typing ℕ,
    run Typing.step (init fun _ => 0) (List.replicate 63 (.interrupt 0 0x1e) ++
      [.interrupt 0 0x30, .interrupt 1 0x2e, .getchar 2]) = some s ∧
    ∃ waiting : List (ℕ × Byte), (waiting.map Prod.fst).Nodup ∧
      (∀ t c, (t, c) ∈ waiting ↔ ∃ point, s.ioq.pc t = some (.putchar c, point)) ∧
      s.decoded.Perm (s.ioq.returned ++ s.buffered ++ waiting.map Prod.snd) := by
  have hsome : (run Typing.step (init fun _ => 0) (List.replicate 63 (.interrupt 0 0x1e) ++
      [.interrupt 0 0x30, .interrupt 1 0x2e, .getchar 2])).isSome = true := by decide +kernel
  obtain ⟨s, hs⟩ := Option.isSome_iff_exists.mp hsome
  exact ⟨s, hs, (typed_conserved (Reach.of_run hs)).2⟩

structure InOrder (s : Typing T) : Prop where
  inv : Inv s
  done : PutsDone s.ioq
  stored : s.ioq.stored = s.decoded

lemma InOrder.step {e : TypingEvent T} (h : InOrder s) (ok : FindsRoom s e)
    (hs : s.step e = some s') : InOrder s' := by
  have hby := stepsBy hs
  have hdecoded := hby.decoded h.inv
  rcases hby.ioq with ⟨e', he', hstart⟩ | ⟨hioq, hnone⟩
  · obtain ⟨hdone, hstored⟩ := h.done.step he' fun hne => ok.resolve_left fun hnil =>
      hne (hstart.trans hnil)
    exact ⟨h.inv.step hs, hdone, by rw [hstored, h.stored, hstart, hdecoded]⟩
  · rw [hnone, List.append_nil] at hdecoded
    exact ⟨h.inv.step hs, hioq ▸ h.done, by rw [hioq, h.stored, hdecoded]⟩

/-- While each character finds room, the readers get the characters of the keys in the order in
which they were pressed. -/
theorem typed_in_order {buf : ℕ → Byte} {events : List KeyEvent}
    (h : Reach Typing.step FindsRoom (init (T := T) buf) s)
    (hread : s.read = events.flatMap KeyEvent.bytes) :
    s.ioq.returned ++ s.buffered = (typedCalls typistInit events).filterMap handed := by
  have hI : InOrder s :=
    h.invariant ⟨inv_init buf, fun _ => rfl, rfl⟩ fun _ _ _ hI ok hs => hI.step ok hs
  have hstored : s.ioq.returned ++ s.buffered = s.ioq.stored := hI.inv.history.stored.symm
  rw [hstored, hI.stored, decoded, hread, (kbdShows_init.events events).1]

/-- Shift with the key of `a`, the key again without it, and a reader that gets `A`. -/
theorem typed_in_order_shift : ∃ s : Typing ℕ,
    run Typing.step (init fun _ => 0) [.interrupt 0 0x2a, .interrupt 0 0x1e, .getchar 1,
      .interrupt 1 0x9e, .interrupt 0 0xaa, .interrupt 0 0x1e] = some s ∧
    s.ioq.returned ++ s.buffered = [0x41, 0x61] := by
  have hallowed : RunAllowed Typing.step FindsRoom (init (T := ℕ) fun _ => 0)
      [.interrupt 0 0x2a, .interrupt 0 0x1e, .getchar 1, .interrupt 1 0x9e, .interrupt 0 0xaa,
        .interrupt 0 0x1e] := by decide +kernel
  obtain ⟨s, hs, hreach⟩ := hallowed.reach
  have hread : s.read = [.press Modifier.shift.left, .press ⟨false, 0x1e, by decide⟩,
      .release ⟨false, 0x1e, by decide⟩, .release Modifier.shift.left,
      .press ⟨false, 0x1e, by decide⟩].flatMap KeyEvent.bytes := by
    have hmap := congrArg (Option.map Typing.read) hs
    exact (Option.some.inj hmap).symm
  exact ⟨s, hs, typed_in_order hreach hread⟩

end Typing

end OsI386
