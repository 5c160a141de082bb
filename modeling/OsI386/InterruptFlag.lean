import OsI386.TransitionSystem

/-!
# Threads that switch with an interrupt flag

The flag is one bit of the processor. A function keeps what it saved of it in its own code, a
switch inside a function saves the code and the stack but not the flag, an interrupt saves the flag
too. A context is the code and the stack as they were saved, also if it is loaded again.

`D` is the data, `F` the functions, `T` the threads and `V` the interrupts.
-/
namespace OsI386.InterruptFlag
open TransitionSystem

/-- What is left of a function. `act f next` goes on with `next` of the data it found and stops
where `f` is not defined; `own` is code of the thread that may be anything. -/
inductive Code (D F : Type)
  | ret
  | pushf (next : Bool → Code D F)
  | cli (next : Code D F)
  | sti (next : Code D F)
  | act (f : D → Option D) (next : D → Code D F)
  | jump (l : F)
  | call (l : F) (next : Code D F)
  | trap (next : Code D F)
  | load
  | own

namespace Code

variable {D F : Type}

def read (next : D → Code D F) : Code D F := .act some next

def modify (f : D → D) (next : Code D F) : Code D F := .act (fun d => some (f d)) fun _ => next

/-- Without `p` the code goes no further. -/
def assert (p : D → Prop) [DecidablePred p] (next : Code D F) : Code D F :=
  .act (fun d => if p d then some d else none) fun _ => next

end Code

/-- A call of `fn`, made when the flag was `entry`. -/
structure Activation (D F : Type) where
  fn : Option F
  entry : Bool
  code : Code D F

/-- What a call returns to, and what an interrupt returns to. -/
inductive Frame (D F : Type)
  | call (a : Activation D F)
  | intr (eflags : Bool) (a : Activation D F)

inductive Context (D F : Type)
  | fast (a : Activation D F) (stack : List (Frame D F))
  | all (eflags : Bool) (a : Activation D F) (stack : List (Frame D F))

structure Machine (D F T : Type) where
  data : D
  intr : Bool
  cur : Activation D F
  stack : List (Frame D F)
  stackTop : T → Option (Context D F)

/-- `start` is what a new thread begins with, `entry` what an interrupt begins with; threads
call what is `exported`. -/
structure Kernel (D F T V : Type) where
  body : F → Code D F
  running : D → T
  schedule : F
  start : Code D F
  entry : V → Code D F
  maskable : V → Bool
  exported : F → Bool

inductive Event (D F T V : Type)
  | exec
  | interrupt (v : V)
  | own (f : D → D)
  | cli
  | sti
  | call (l : F)
  | syscall
  | sysret
  | enterUser
  | create (t : T)

variable {D F T V : Type}

namespace Kernel

variable [DecidableEq T] (K : Kernel D F T V) (m : Machine D F T)

/-- The next step of a function. Behind the call of the scheduler in `trap` stands the code that
loads a context. -/
def exec : Option (Machine D F T) :=
  match m.cur.code with
  | .ret =>
    match m.stack with
    | .call a :: stack => some { m with cur := a, stack := stack }
    | _ => none
  | .pushf next => some { m with cur.code := next m.intr }
  | .cli next => some { m with intr := false, cur.code := next }
  | .sti next => some { m with intr := true, cur.code := next }
  | .act f next => (f m.data).map fun d => { m with data := d, cur.code := next m.data }
  | .jump l => some { m with cur.code := K.body l }
  | .call l next => some
    { m with
      cur := ⟨some l, m.intr, K.body l⟩
      stack := .call { m.cur with code := next } :: m.stack }
  | .trap next => some
    { m with
      cur.code := .call K.schedule .load
      stackTop := Function.update m.stackTop (K.running m.data)
        (some (.fast { m.cur with code := next } m.stack)) }
  | .load =>
    match m.stackTop (K.running m.data) with
    | some (.fast a stack) => some { m with cur := a, stack := stack }
    | some (.all eflags a stack) => some { m with intr := eflags, cur := a, stack := stack }
    | none => none
  | .own => none

def interrupt (v : V) : Option (Machine D F T) :=
  if m.intr = true ∨ K.maskable v = false then some
    { m with
      intr := false
      cur := ⟨none, false, K.entry v⟩
      stack := .intr m.intr m.cur :: m.stack
      stackTop := Function.update m.stackTop (K.running m.data)
        (some (.all m.intr m.cur m.stack)) }
  else none

/-- A step of the thread's own code. -/
def ownStep : Event D F T V → Option (Machine D F T)
  | .own f =>
    if K.running (f m.data) = K.running m.data then some { m with data := f m.data } else none
  | .cli => some { m with intr := false }
  | .sti => some { m with intr := true }
  | .call l =>
    if K.exported l then some
      { m with cur := ⟨some l, m.intr, K.body l⟩, stack := .call m.cur :: m.stack }
    else none
  | .syscall => some
    { m with
      intr := false
      cur := ⟨none, false, .own⟩
      stack := .intr m.intr m.cur :: m.stack }
  | .sysret =>
    match m.stack with
    | .intr eflags a :: stack => some { m with intr := eflags, cur := a, stack := stack }
    | _ => none
  | .enterUser =>
    match m.stack with
    | [] => some { m with intr := true }
    | _ => none
  | .create t =>
    match m.stackTop t with
    | none =>
      if t = K.running m.data then none
      else some
        { m with
          stackTop := Function.update m.stackTop t (some (.fast ⟨none, false, K.start⟩ [])) }
    | some _ => none
  | _ => none

def step : Event D F T V → Option (Machine D F T)
  | .exec => K.exec m
  | .interrupt v => K.interrupt m v
  | e =>
    match m.cur.code with
    | .own => K.ownStep m e
    | _ => none

end Kernel

section Discipline

/-- With the flag `n` the code restores the flag `e`. `spec l e n` says that a jump to `l` does. -/
def Balanced (spec : F → Bool → Bool → Prop) (e : Bool) : Bool → Code D F → Prop
  | n, .ret => n = e
  | n, .pushf next => Balanced spec e n (next n)
  | _, .cli next => Balanced spec e false next
  | _, .sti next => Balanced spec e true next
  | n, .act _ next => ∀ d, Balanced spec e n (next d)
  | n, .jump l => spec l e n
  | n, .call l next => spec l n n ∧ Balanced spec e n next
  | n, .trap next => n = false ∧ Balanced spec e false next
  | n, .load => n = false
  | _, .own => True

/-- The flag is off and stays off up to the switch, without a call. -/
def Quiet : Bool → Code D F → Prop
  | n, .ret => n = false
  | n, .pushf next => n = false ∧ Quiet n (next n)
  | n, .cli next => n = false ∧ Quiet false next
  | _, .sti _ => False
  | n, .act _ next => n = false ∧ ∀ d, Quiet n (next d)
  | _, .jump _ => False
  | _, .call _ _ => False
  | _, .trap _ => False
  | n, .load => n = false
  | _, .own => False

lemma Balanced.ite {spec : F → Bool → Bool → Prop} {e n : Bool} {p : Prop} [Decidable p]
    {c c' : Code D F} (h : Balanced spec e n c) (h' : Balanced spec e n c') :
    Balanced spec e n (if p then c else c') := by
  by_cases hp : p
  · rwa [if_pos hp]
  · rwa [if_neg hp]

lemma Quiet.ite {n : Bool} {p : Prop} [Decidable p] {c c' : Code D F} (h : Quiet n c)
    (h' : Quiet n c') : Quiet n (if p then c else c') := by
  by_cases hp : p
  · rwa [if_pos hp]
  · rwa [if_neg hp]

lemma Quiet.off {n : Bool} {c : Code D F} (h : Quiet n c) : n = false := by
  cases c with
  | ret => exact h
  | pushf => exact h.1
  | cli => exact h.1
  | sti => exact h.elim
  | act => exact h.1
  | jump => exact h.elim
  | call => exact h.elim
  | trap => exact h.elim
  | load => exact h
  | own => exact h.elim

lemma Quiet.balanced {spec : F → Bool → Bool → Prop} {n : Bool} {c : Code D F} (h : Quiet n c) :
    Balanced spec false n c := by
  induction c generalizing n with
  | ret => exact h
  | pushf next ih => exact ih n h.2
  | cli next ih => exact ih h.2
  | sti next ih => exact h.elim
  | act f next ih => exact fun d => ih d (h.2 d)
  | jump l => exact h.elim
  | call l next ih => exact h.elim
  | trap next ih => exact h.elim
  | load => exact h
  | own => exact h.elim

/-- The code of every function restores the flag, and the scheduler runs with the flag off. -/
structure Disciplined (K : Kernel D F T V) (spec : F → Bool → Bool → Prop) : Prop where
  body : ∀ l e n, spec l e n → Balanced spec e n (K.body l)
  schedule : spec K.schedule false false
  schedule_off : ∀ n, spec K.schedule n n → n = false
  quiet : Quiet false (K.body K.schedule)
  start : Balanced spec false false K.start
  entry : ∀ v, Balanced spec false false (K.entry v)
  exported : ∀ l, K.exported l = true → ∀ n, spec l n n

end Discipline

section Invariant

variable (K : Kernel D F T V) (spec : F → Bool → Bool → Prop)

/-- Going on with the flag `n`. -/
structure Activation.Ok (n : Bool) (a : Activation D F) : Prop where
  balanced : Balanced spec a.entry n a.code
  quiet : a.fn = some K.schedule → Quiet n a.code

/-- The frames below a call made with the flag `e`. -/
def StackOk : Bool → List (Frame D F) → Prop
  | _, [] => True
  | e, .call a :: stack => a.Ok K spec e ∧ StackOk a.entry stack
  | _, .intr eflags a :: stack => a.Ok K spec eflags ∧ StackOk a.entry stack

def Context.Ok : Context D F → Prop
  | .fast a stack => a.Ok K spec false ∧ StackOk K spec a.entry stack
  | .all eflags a stack => a.Ok K spec eflags ∧ StackOk K spec a.entry stack

structure Machine.Ok (m : Machine D F T) : Prop where
  cur : m.cur.Ok K spec m.intr
  stack : StackOk K spec m.cur.entry m.stack
  contexts : ∀ t c, m.stackTop t = some c → c.Ok K spec

end Invariant

section Steps

variable {K : Kernel D F T V} {spec : F → Bool → Bool → Prop} {m m' : Machine D F T}

/-- The rest of an activation that is not the scheduler's. -/
lemma Activation.Ok.of_not_schedule {n : Bool} {a : Activation D F} (hfn : a.fn ≠ some K.schedule)
    (hcode : Balanced spec a.entry n a.code) : a.Ok K spec n := ⟨hcode, fun h => absurd h hfn⟩

/-- A call is made by code that is not the scheduler's. -/
lemma Activation.Ok.not_schedule {n : Bool} {a : Activation D F} (ha : a.Ok K spec n)
    (hcode : ¬ Quiet n a.code) : a.fn ≠ some K.schedule := fun h => hcode (ha.quiet h)

/-- The activation of a function that is called with the flag `n`. -/
lemma Disciplined.called (hK : Disciplined K spec) {l : F} {n : Bool} (hl : spec l n n) :
    Activation.Ok K spec n ⟨some l, n, K.body l⟩ := by
  refine ⟨hK.body l n n hl, fun h => ?_⟩
  obtain rfl : l = K.schedule := Option.some.inj h
  obtain rfl : n = false := hK.schedule_off n hl
  exact hK.quiet

lemma Machine.Ok.ret (h : m.Ok K spec) (hcode : m.cur.code = .ret) {a : Activation D F}
    {stack : List (Frame D F)} (hstack : m.stack = .call a :: stack) :
    Machine.Ok K spec { m with cur := a, stack := stack } := by
  have hflag : m.intr = m.cur.entry := by
    have hbal := h.cur.balanced
    rwa [hcode] at hbal
  have hframes := h.stack
  rw [hstack] at hframes
  exact ⟨hflag ▸ hframes.1, hframes.2, h.contexts⟩

lemma Machine.Ok.call (hK : Disciplined K spec) (h : m.Ok K spec) {l : F} {next : Code D F}
    (hcode : m.cur.code = .call l next) :
    Machine.Ok K spec
      { m with
        cur := ⟨some l, m.intr, K.body l⟩
        stack := .call { m.cur with code := next } :: m.stack } := by
  have hbal := h.cur.balanced
  have hfn := h.cur.not_schedule (by rw [hcode]; exact id)
  rw [hcode] at hbal
  exact ⟨hK.called hbal.1, ⟨.of_not_schedule hfn hbal.2, h.stack⟩, h.contexts⟩

/-- Code that stays in its function. -/
lemma Machine.Ok.next (h : m.Ok K spec) {n : Bool} {next : Code D F} (d : D)
    (hbal : Balanced spec m.cur.entry n next)
    (hquiet : Quiet m.intr m.cur.code → Quiet n next) :
    Machine.Ok K spec { m with data := d, intr := n, cur.code := next } :=
  ⟨⟨hbal, fun hfn => hquiet (h.cur.quiet hfn)⟩, h.stack, h.contexts⟩

lemma Machine.Ok.own (h : m.Ok K spec) (hcode : m.cur.code = .own) (d : D) (n : Bool) :
    Machine.Ok K spec { m with data := d, intr := n } := by
  have hfn := h.cur.not_schedule (by rw [hcode]; exact id)
  refine ⟨.of_not_schedule hfn ?_, h.stack, h.contexts⟩
  rw [hcode]
  exact trivial

variable [DecidableEq T]

lemma contexts_update {stackTop : T → Option (Context D F)} {t : T} {c : Context D F}
    (hall : ∀ u d, stackTop u = some d → d.Ok K spec) (hc : c.Ok K spec) :
    ∀ u d, Function.update stackTop t (some c) u = some d → d.Ok K spec := by
  intro u d hd
  by_cases hut : u = t
  · subst hut
    rw [Function.update_self] at hd
    exact Option.some.inj hd ▸ hc
  · rw [Function.update_of_ne hut] at hd
    exact hall u d hd

lemma Machine.Ok.trap (hK : Disciplined K spec) (h : m.Ok K spec) {next : Code D F}
    (hcode : m.cur.code = .trap next) :
    Machine.Ok K spec
      { m with
        cur.code := .call K.schedule .load
        stackTop := Function.update m.stackTop (K.running m.data)
          (some (.fast { m.cur with code := next } m.stack)) } := by
  have hbal := h.cur.balanced
  have hfn := h.cur.not_schedule (by rw [hcode]; exact id)
  rw [hcode] at hbal
  obtain ⟨hoff, hnext⟩ := hbal
  refine ⟨.of_not_schedule hfn ⟨?_, hoff⟩, h.stack, ?_⟩
  · rw [hoff]
    exact hK.schedule
  · exact contexts_update h.contexts ⟨.of_not_schedule hfn hnext, h.stack⟩

lemma Machine.Ok.load (h : m.Ok K spec) (hcode : m.cur.code = .load)
    (hm : K.exec m = some m') : m'.Ok K spec := by
  have hoff : m.intr = false := by
    have hbal := h.cur.balanced
    rwa [hcode] at hbal
  rw [Kernel.exec, hcode] at hm
  dsimp only at hm
  cases hctx : m.stackTop (K.running m.data) with
  | none => rw [hctx] at hm; exact absurd hm (by simp)
  | some c =>
    have hc := h.contexts _ _ hctx
    rw [hctx] at hm
    cases c with
    | fast a stack =>
      obtain rfl := Option.some.inj hm
      exact ⟨hoff ▸ hc.1, hc.2, h.contexts⟩
    | all eflags a stack =>
      obtain rfl := Option.some.inj hm
      exact ⟨hc.1, hc.2, h.contexts⟩

lemma Machine.Ok.exec (hK : Disciplined K spec) (h : m.Ok K spec) (hm : K.exec m = some m') :
    m'.Ok K spec := by
  have hbal := h.cur.balanced
  cases hcode : m.cur.code with
  | ret =>
    rw [Kernel.exec, hcode] at hm
    dsimp only at hm
    split at hm
    · rename_i a stack hstack
      obtain rfl := Option.some.inj hm
      exact h.ret hcode hstack
    · exact absurd hm (by simp)
  | load => exact h.load hcode hm
  | own =>
    rw [Kernel.exec, hcode] at hm
    exact absurd hm (by simp)
  | call l next =>
    rw [Kernel.exec, hcode] at hm
    obtain rfl := Option.some.inj hm
    exact h.call hK hcode
  | trap next =>
    rw [Kernel.exec, hcode] at hm
    obtain rfl := Option.some.inj hm
    exact h.trap hK hcode
  | jump l =>
    rw [hcode] at hbal
    rw [Kernel.exec, hcode] at hm
    obtain rfl := Option.some.inj hm
    refine h.next m.data (hK.body l _ _ hbal) fun hquiet => ?_
    rw [hcode] at hquiet
    exact hquiet.elim
  | act f next =>
    rw [hcode] at hbal
    rw [Kernel.exec, hcode] at hm
    obtain ⟨d, -, rfl⟩ := Option.map_eq_some_iff.mp hm
    refine h.next d (hbal m.data) fun hquiet => ?_
    rw [hcode] at hquiet
    exact hquiet.2 m.data
  | pushf next =>
    rw [hcode] at hbal
    rw [Kernel.exec, hcode] at hm
    obtain rfl := Option.some.inj hm
    refine h.next m.data hbal fun hquiet => ?_
    rw [hcode] at hquiet
    exact hquiet.2
  | cli next =>
    rw [hcode] at hbal
    rw [Kernel.exec, hcode] at hm
    obtain rfl := Option.some.inj hm
    refine h.next m.data hbal fun hquiet => ?_
    rw [hcode] at hquiet
    exact hquiet.2
  | sti next =>
    rw [hcode] at hbal
    rw [Kernel.exec, hcode] at hm
    obtain rfl := Option.some.inj hm
    refine h.next m.data hbal fun hquiet => ?_
    rw [hcode] at hquiet
    exact hquiet.elim

lemma Machine.Ok.interrupt (hK : Disciplined K spec) (h : m.Ok K spec) {v : V}
    (hm : K.interrupt m v = some m') : m'.Ok K spec := by
  rw [Kernel.interrupt] at hm
  split at hm
  · obtain rfl := Option.some.inj hm
    exact ⟨.of_not_schedule (by simp) (hK.entry v), ⟨h.cur, h.stack⟩,
      contexts_update h.contexts ⟨h.cur, h.stack⟩⟩
  · exact absurd hm (by simp)

lemma Machine.Ok.ownStep (hK : Disciplined K spec) (h : m.Ok K spec) (hcode : m.cur.code = .own)
    {e : Event D F T V} (hm : K.ownStep m e = some m') : m'.Ok K spec := by
  cases e with
  | exec => exact absurd hm (by simp [Kernel.ownStep])
  | interrupt v => exact absurd hm (by simp [Kernel.ownStep])
  | own f =>
    rw [Kernel.ownStep] at hm
    split at hm
    · obtain rfl := Option.some.inj hm
      exact h.own hcode (f m.data) m.intr
    · exact absurd hm (by simp)
  | cli =>
    obtain rfl := Option.some.inj hm
    exact h.own hcode m.data false
  | sti =>
    obtain rfl := Option.some.inj hm
    exact h.own hcode m.data true
  | call l =>
    rw [Kernel.ownStep] at hm
    split at hm
    · rename_i hexported
      obtain rfl := Option.some.inj hm
      exact ⟨hK.called (hK.exported l hexported m.intr), ⟨h.cur, h.stack⟩, h.contexts⟩
    · exact absurd hm (by simp)
  | syscall =>
    obtain rfl := Option.some.inj hm
    exact ⟨.of_not_schedule (by simp) trivial, ⟨h.cur, h.stack⟩, h.contexts⟩
  | sysret =>
    rw [Kernel.ownStep] at hm
    split at hm
    · rename_i eflags a stack hstack
      obtain rfl := Option.some.inj hm
      have hframes := h.stack
      rw [hstack] at hframes
      exact ⟨hframes.1, hframes.2, h.contexts⟩
    · exact absurd hm (by simp)
  | enterUser =>
    rw [Kernel.ownStep] at hm
    split at hm
    · obtain rfl := Option.some.inj hm
      exact h.own hcode m.data true
    · exact absurd hm (by simp)
  | create t =>
    rw [Kernel.ownStep] at hm
    split at hm
    · split at hm
      · exact absurd hm (by simp)
      · obtain rfl := Option.some.inj hm
        exact ⟨h.cur, h.stack,
          contexts_update h.contexts ⟨.of_not_schedule (by simp) hK.start, trivial⟩⟩
    · exact absurd hm (by simp)

lemma Machine.Ok.step (hK : Disciplined K spec) (h : m.Ok K spec) {e : Event D F T V}
    (hm : K.step m e = some m') : m'.Ok K spec := by
  have hown : ∀ e : Event D F T V,
      (match m.cur.code with
        | .own => K.ownStep m e
        | _ => none) = some m' → m'.Ok K spec := by
    intro e hm
    split at hm
    · rename_i hcode
      exact h.ownStep hK hcode hm
    · exact absurd hm (by simp)
  cases e with
  | exec => exact h.exec hK hm
  | interrupt v => exact h.interrupt hK hm
  | own f => exact hown _ hm
  | cli => exact hown _ hm
  | sti => exact hown _ hm
  | call l => exact hown _ hm
  | syscall => exact hown _ hm
  | sysret => exact hown _ hm
  | enterUser => exact hown _ hm
  | create t => exact hown _ hm

/-- In every run a call returns with the flag it was made with, and the scheduler runs with the
flag off. -/
theorem Disciplined.runAlways (hK : Disciplined K spec) (h : m.Ok K spec)
    (events : List (Event D F T V)) :
    RunAlways K.step (fun m => (m.cur.code = .ret → m.intr = m.cur.entry) ∧
      (m.cur.fn = some K.schedule → m.intr = false)) m events := by
  have hok : ∀ m : Machine D F T, m.Ok K spec →
      (m.cur.code = .ret → m.intr = m.cur.entry) ∧
        (m.cur.fn = some K.schedule → m.intr = false) := by
    intro m h
    refine ⟨fun hcode => ?_, fun hfn => (h.cur.quiet hfn).off⟩
    have hbal := h.cur.balanced
    rwa [hcode] at hbal
  induction events generalizing m with
  | nil => exact hok m h
  | cons e events ih => exact ⟨hok m h, fun m' hm => ih (h.step hK hm)⟩

end Steps

end OsI386.InterruptFlag
