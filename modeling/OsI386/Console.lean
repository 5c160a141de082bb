import OsI386.CriticalSections
import OsI386.MutexExclusion
import OsI386.PrintNumbers

/-!
# device/console.c over lib/kernel/print.c

The functions of print.c as programs on the screen, which may be preempted between any two
accesses to the video memory and the ports, and the threads that call them with the console's mutex.
-/
namespace OsI386
open Prog TransitionSystem

/-- `outOfRounds` is a string without an end. -/
inductive ConsoleHalt
  | outOfRounds

abbrev ScreenProg := Prog Screen Empty ConsoleHalt

namespace Console

section Print

def outAddr (b : Byte) : ScreenProg Unit := modify fun s => s.outAddr b

def outData (b : Byte) : ScreenProg Unit := modify fun s => s.outData b

def inData : ScreenProg Byte := read Screen.inData

def store (a : Word) (b : Byte) : ScreenProg Unit := modify fun s => s.store a b

def setCursor (target : BitVec 16) : ScreenProg Unit := do
  let high : Byte := ((target >>> 8) &&& 0xff).setWidth 8
  let low : Byte := (target &&& 0xff).setWidth 8
  outAddr curPosHighIndex
  outData high
  outAddr curPosLowIndex
  outData low

def getCursor : ScreenProg (BitVec 16) := do
  outAddr curPosHighIndex
  let curPosHigh ← inData
  outAddr curPosLowIndex
  let curPosLow ← inData
  return (curPosHigh.setWidth 16 <<< 8) &&& 0xff00 ||| curPosLow.setWidth 16 &&& 0x00ff

/-- The loop of `memcpy` from its `i`th byte on, `n` bytes left. -/
def memcpyLoop (dst src : Word) (i : ℕ) : ℕ → ScreenProg Unit
  | 0 => return ()
  | n + 1 => do
    let b ← read fun s => s.mem (src + BitVec.ofNat 32 i)
    store (dst + BitVec.ofNat 32 i) b
    memcpyLoop dst src (i + 1) n

def rollScreen : ScreenProg Unit := memcpyLoop rollVideoDstAddr rollVideoSrcAddr 0 (960 * 4)

/-- The loop of `clean_last_line`, `n` cells left. -/
def cleanLoop (offset : ℕ) : ℕ → ScreenProg Unit
  | 0 => return ()
  | n + 1 => do
    store (videoBaseAddr + BitVec.ofNat 32 offset) 0x20
    store (videoBaseAddr + BitVec.ofNat 32 (offset + 1)) blkBackWhtWord
    cleanLoop (offset + 2) n

def cleanLastLine : ScreenProg Unit := cleanLoop 3840 80

/-- `CHECK_OUT_OF_SCREEN`. -/
def checkOutOfScreen (nextCurPos : BitVec 16) : ScreenProg (BitVec 16) :=
  if screenMax ≤ nextCurPos then do
    rollScreen
    cleanLastLine
    return screenMax - screenColMax
  else return nextCurPos

/-- A character and its attribute at an offset into the video memory. -/
def storeCell (offset : Word) (c : Byte) : ScreenProg Unit := do
  store (videoBaseAddr + offset) c
  store (videoBaseAddr + (offset + 1)) blkBackWhtWord

def putChar (c : Byte) : ScreenProg Unit := do
  let curPos ← getCursor
  if c = 0x0d ∨ c = 0x0a then do
    let nextCurPos ← checkOutOfScreen (curPos - curPos % 80 + 80)
    setCursor nextCurPos
  else if c = 0x08 then do
    storeCell ((curPos.setWidth 32 - 1) * 2) 0x20
    setCursor (curPos - 1)
  else do
    storeCell (curPos.setWidth 32 * 2) c
    let nextCurPos ← checkOutOfScreen (curPos + 1)
    setCursor nextCurPos

/-- The loop of `put_str` with `tmp` at index `i`. The bytes of the string do not change. -/
def putStr (message : ℕ → Byte) (i : ℕ) : ℕ → ScreenProg Unit
  | 0 => .stop .outOfRounds
  | n + 1 =>
    if message i = 0 then return ()
    else do
      putChar (message i)
      putStr message (i + 1) n

/-- `for_print` and `off` after the loop of `put_int`. -/
def forPrint (num : Word) : Option ((ℕ → Byte) × Byte) :=
  if num = 0 then putIntLoop (Function.update (fun _ => 0) 7 0x30) (7 - 1) num 9
  else putIntLoop (fun _ => 0) 7 num 9

def putInt (num : Word) : ScreenProg Unit :=
  match forPrint num with
  | some (digits, off) => putStr (fun i => digits ((off + 1).toNat + i)) 0 9
  | none => .stop .outOfRounds

end Print

section Runs

variable {s : Screen} {b c : Byte} {target p : BitVec 16} {i n k m : ℕ} {f : ℕ → Byte}

lemma runs_setCursor (s : Screen) (target : BitVec 16) :
    (setCursor target).Runs s [] (OsI386.setCursor s target) () :=
  (runs_modify _ s).bind_silent ((runs_modify _ _).bind_silent
    ((runs_modify _ _).bind_silent (runs_modify _ _)))

lemma runs_getCursor (s : Screen) :
    getCursor.Runs s [] { s with crtAddr := curPosLowIndex } s.cursor :=
  (runs_modify _ s).bind_silent ((runs_read _ _).bind_silent
    ((runs_modify _ _).bind_silent ((runs_read _ _).bind_silent (Runs.ret _ _))))

lemma runs_memcpyLoop (s : Screen) (dst src : Word) (i n : ℕ) :
    (memcpyLoop dst src i n).Runs s [] (OsI386.memcpyLoop s dst src i n) () := by
  induction n generalizing s i with
  | zero => exact Runs.ret () s
  | succ n ih => exact (runs_read _ s).bind_silent ((runs_modify _ _).bind_silent (ih _ (i + 1)))

lemma runs_cleanLoop (s : Screen) (offset n : ℕ) :
    (cleanLoop offset n).Runs s [] (OsI386.cleanLoop s offset n) () := by
  induction n generalizing s offset with
  | zero => exact Runs.ret () s
  | succ n ih =>
    exact (runs_modify _ s).bind_silent ((runs_modify _ _).bind_silent (ih _ (offset + 2)))

lemma runs_checkOutOfScreen (s : Screen) (p : BitVec 16) : (checkOutOfScreen p).Runs s []
    (OsI386.checkOutOfScreen s p).1 (OsI386.checkOutOfScreen s p).2 := by
  unfold checkOutOfScreen OsI386.checkOutOfScreen
  split_ifs
  · exact (runs_memcpyLoop s _ _ 0 _).bind_silent
      ((runs_cleanLoop _ 3840 80).bind_silent (Runs.ret _ _))
  · exact Runs.ret p s

lemma runs_storeCell (s : Screen) (offset : Word) (c : Byte) : (storeCell offset c).Runs s []
    ((s.store (videoBaseAddr + offset) c).store (videoBaseAddr + (offset + 1)) blkBackWhtWord) () :=
  (runs_modify _ s).bind_silent (runs_modify _ _)

/-- Alone, the program leaves the screen that `put_char` leaves. -/
lemma runs_putChar (s : Screen) (c : Byte) : (putChar c).Runs s [] (OsI386.putChar s c) () := by
  refine (runs_getCursor s).bind_silent ?_
  simp only [OsI386.putChar, getCursor_eq]
  split_ifs
  · exact (runs_checkOutOfScreen _ _).bind_silent (runs_setCursor _ _)
  · exact (runs_storeCell _ _ _).bind_silent (runs_setCursor _ _)
  · exact (runs_storeCell _ _ _).bind_silent
      ((runs_checkOutOfScreen _ _).bind_silent (runs_setCursor _ _))

lemma runs_putStr (hne : ∀ b ∈ bytesFrom f i m, b ≠ 0) (hend : f (i + m) = 0) (hn : m < n)
    (s : Screen) : (putStr f i n).Runs s [] ((bytesFrom f i m).foldl OsI386.putChar s) () := by
  induction m generalizing s i n with
  | zero =>
    obtain ⟨n, rfl⟩ := Nat.exists_eq_succ_of_ne_zero (show n ≠ 0 by omega)
    have hzero : f i = 0 := hend
    rw [putStr, if_pos hzero]
    exact Runs.ret () s
  | succ m ih =>
    obtain ⟨n, rfl⟩ := Nat.exists_eq_succ_of_ne_zero (show n ≠ 0 by omega)
    rw [bytesFrom_succ] at hne ⊢
    rw [putStr, if_neg (hne _ List.mem_cons_self)]
    refine (runs_putChar s _).bind_silent ?_
    exact ih (fun b hb => hne b (List.mem_cons_of_mem _ hb)) (by rw [← hend]; ring_nf) (by omega) _

/-- The digits are in the array, from behind `off` on. -/
lemma forPrint_eq (num : Word) : ∃ f k, forPrint num = some (f, BitVec.ofNat 8 k - 1) ∧ k ≤ 8 ∧
    f 8 = 0 ∧ bytesFrom f k (8 - k) = hexText num.toNat := by
  by_cases h0 : num = 0
  · subst h0
    exact ⟨Function.update (fun _ => 0) 7 0x30, 7, rfl, by norm_num, rfl, rfl⟩
  · obtain ⟨f, k, hloop, hk, hend, hbytes⟩ :=
      putIntLoop_eq (f := fun _ => 0) (k := 8) (n := 9) le_rfl num.isLt (by norm_num)
    have hpos : num.toNat ≠ 0 := BitVec.toNat_ne_iff_ne.mpr h0
    refine ⟨f, k, ?_, hk, hend, ?_⟩
    · rw [forPrint, if_neg h0]
      exact hloop
    · rw [hbytes, hexText, if_neg hpos]
      exact List.append_nil _

lemma runs_putInt (s : Screen) (num : Word) :
    (putInt num).Runs s [] ((hexText num.toNat).foldl OsI386.putChar s) () := by
  obtain ⟨f, k, heq, hk, hend, htext⟩ := forPrint_eq num
  have hoff : (BitVec.ofNat 8 k - 1 + 1 : Byte).toNat = k := by
    rw [sub_add_cancel, BitVec.toNat_ofNat]
    omega
  have hshift : bytesFrom (fun i => f (k + i)) 0 (8 - k) = bytesFrom f k (8 - k) := by
    simp [bytesFrom, List.range'_eq_map_range]
  have hlast : k + (8 - k) = 8 := by omega
  rw [putInt, heq, ← htext, ← hshift]
  simp only [hoff]
  refine runs_putStr (fun b hb => ?_) ?_ (by omega) s
  · rw [hshift, htext] at hb
    exact (mem_hexText hb).1
  · rw [Nat.zero_add, hlast]
    exact hend

end Runs

end Console

/-- A call of one of the three functions of console.c. -/
inductive ConsoleCall
  | putStr (message : List Byte)
  | putChar (c : Byte)
  | putInt (num : Word)

namespace ConsoleCall

/-- Between `console_acquire` and `console_release`. -/
def body : ConsoleCall → ScreenProg Unit
  | .putStr message => Console.putStr (fun i => message.getD i 0) 0 (message.length + 1)
  | .putChar c => Console.putChar c
  | .putInt num => Console.putInt num

/-- What the call has to put on the screen. -/
def text : ConsoleCall → List Byte
  | .putStr message => message.takeWhile (· ≠ 0)
  | .putChar c => [c]
  | .putInt num => hexText num.toNat

/-- By induction on the characters from index `i` on. -/
lemma runs_putStr_chars {f : ℕ → Byte} {l : List Byte} {i n : ℕ} (hf : ∀ j, f (i + j) = l.getD j 0)
    (hn : l.length < n) (s : Screen) : (Console.putStr f i n).Runs s []
      ((l.takeWhile (· ≠ 0)).foldl OsI386.putChar s) () := by
  induction l generalizing i n s with
  | nil =>
    obtain ⟨n, rfl⟩ := Nat.exists_eq_succ_of_ne_zero (show n ≠ 0 by omega)
    have hzero : f i = 0 := hf 0
    rw [Console.putStr, if_pos hzero]
    exact Runs.ret () s
  | cons c l ih =>
    obtain ⟨n, rfl⟩ := Nat.exists_eq_succ_of_ne_zero (show n ≠ 0 by omega)
    have hc : f i = c := hf 0
    rw [Console.putStr, hc]
    by_cases h0 : c = 0
    · rw [if_pos h0, List.takeWhile_cons_of_neg (by simpa using h0)]
      exact Runs.ret () s
    · rw [if_neg h0, List.takeWhile_cons_of_pos (by simpa using h0)]
      refine (Console.runs_putChar s c).bind_silent (ih (fun j => ?_) ?_ _)
      · rw [add_assoc, add_comm 1 j]
        exact hf (j + 1)
      · rw [List.length_cons] at hn
        omega

/-- Alone, the call puts its text. -/
lemma runs_body (call : ConsoleCall) (s : Screen) :
    call.body.Runs s [] (call.text.foldl OsI386.putChar s) () := by
  cases call with
  | putStr message =>
    exact runs_putStr_chars (fun j => by rw [Nat.zero_add]) (Nat.lt_succ_self _) s
  | putChar c => exact Console.runs_putChar s c
  | putInt num => exact Console.runs_putInt s num

end ConsoleCall

/-- The threads that print. `call` is the argument of a thread's call and `rest` what it has still
to do on the screen. `made` are the calls begun so far and `order` those that have passed
`sem_down`; the code has neither of the two. -/
structure ConsoleSystem (T : Type) where
  lock : LockSystem T
  screen : Screen
  call : T → ConsoleCall
  rest : T → ScreenProg Unit
  made : List (T × ConsoleCall)
  order : List (T × ConsoleCall)

/-- `access` is one access to the video memory or a port. A thread may call other functions that
block and wake between its calls here; what it prints without the mutex is left out. -/
inductive ConsoleEvent (T : Type)
  | call (t : T) (c : ConsoleCall)
  | resume (t : T)
  | setHolder (t : T)
  | access (t : T)
  | release (t : T)
  | clearHolder (t : T)
  | sleep (t : T) (st : TaskStatus)
  | wake (t : T)

namespace ConsoleSystem

variable {T : Type} [DecidableEq T]

def init (screen : Screen) : ConsoleSystem T where
  lock := LockSystem.init
  screen := screen
  call _ := .putStr []
  rest _ := .ret ()
  made := []
  order := []

/-- The call of `t` comes next if it has passed `sem_down`. -/
def letIn (x : ConsoleSystem T) (t : T) : ConsoleSystem T :=
  { x with order := if x.lock.pc t = .downDone then x.order ++ [(t, x.call t)] else x.order }

def withLock (x : ConsoleSystem T) (lock : LockSystem T) : ConsoleSystem T := { x with lock := lock }

def step (x : ConsoleSystem T) : ConsoleEvent T → Option (ConsoleSystem T)
  | .call t c =>
    let x := { x with
      call := Function.update x.call t c
      rest := Function.update x.rest t c.body
      made := x.made ++ [(t, c)] }
    (lockStep x.lock (.lock t)).map fun lock => (x.withLock lock).letIn t
  | .resume t => (lockStep x.lock (.resume t)).map fun lock => (x.withLock lock).letIn t
  | .setHolder t => (lockStep x.lock (.setHolder t)).map x.withLock
  | .access t =>
    if (x.lock.status t).Runnable ∧ x.lock.pc t = .locked then
      ((x.rest t).advance x.screen).map fun (_, screen, p) =>
        { x with screen := screen, rest := Function.update x.rest t p }
    else none
  | .release t =>
    match x.rest t with
    | .ret _ => (lockStep x.lock (.unlock t)).map x.withLock
    | _ => none
  | .clearHolder t => (lockStep x.lock (.clearHolder t)).map x.withLock
  | .sleep t st => (lockStep x.lock (.sleep t st)).map x.withLock
  | .wake t => (lockStep x.lock (.wake t)).map x.withLock

end ConsoleSystem

section Serial

variable {T : Type} [DecidableEq T] {lock lock' : LockSystem T} {x x' : ConsoleSystem T} {t u : T}
  {s₀ : Screen}

lemma lockDown_pc (s : LockSystem T) (t : T) : (lockDown s t).pc =
    Function.update s.pc t (if s.mtx.sem.val = 0 then .inDown else .downDone) := by
  unfold lockDown semDown
  split_ifs <;> rfl

lemma lockUp_pc (h : lockUp lock t = some lock') : lock'.pc = Function.update lock.pc t .upDone := by
  obtain ⟨p, -, h⟩ := Option.bind_eq_some_iff.mp h
  obtain ⟨st, -, h⟩ := Option.bind_eq_some_iff.mp h
  exact Option.some.inj h ▸ rfl

omit [DecidableEq T] in
lemma LockInv.none_inside (h : LockInv lock) (hv : lock.mtx.sem.val ≠ 0) (u : T) :
    ¬ lock.Inside u := by
  rcases h.counter with ⟨-, hno⟩ | ⟨h0, -⟩
  · exact hno u
  · exact absurd h0 hv

namespace ConsoleSystem

/-- The programs of the calls that have passed `sem_down`. -/
def bodies (x : ConsoleSystem T) : List (ScreenProg Unit) := x.order.map fun c => c.2.body

def callsOf (t : T) (calls : List (T × ConsoleCall)) : List (T × ConsoleCall) :=
  calls.filter fun c => c.1 = t

/-- A call that waits in `sem_down`. -/
def waiting (x : ConsoleSystem T) (t : T) : List (T × ConsoleCall) :=
  if x.lock.pc t = .inDown then [(t, x.call t)] else []

/-- The calls that have passed `sem_down` are sections one after another, and the thread inside is
in the last of them. -/
structure Inv (s₀ : Screen) (x : ConsoleSystem T) : Prop where
  lock : LockInv x.lock
  free : (∀ t, ¬ x.lock.Inside t) → ∃ tr, Sections s₀ x.bodies none tr x.screen
  taken : ∀ t, x.lock.Inside t → (∃ prev, x.order = prev ++ [(t, x.call t)]) ∧
    ∃ tr, Sections s₀ x.bodies (some (x.rest t)) tr x.screen
  entering : ∀ t, x.lock.pc t = .inDown → x.rest t = (x.call t).body
  calls : ∀ t, callsOf t x.made = callsOf t x.order ++ x.waiting t

lemma Inv.init (s₀ : Screen) : Inv s₀ (ConsoleSystem.init s₀ : ConsoleSystem T) where
  lock := LockInv.init
  free _ := ⟨[], .start⟩
  taken t ht := by simp [LockSystem.Inside, ConsoleSystem.init, LockSystem.init] at ht
  entering t ht := by simp [ConsoleSystem.init, LockSystem.init] at ht
  calls t := by simp [waiting, callsOf, ConsoleSystem.init, LockSystem.init]

/-- A step that lets no thread in or out and leaves the screen alone. -/
lemma Inv.move (h : Inv s₀ x) (hlock : LockInv lock)
    (hin : ∀ t, lock.Inside t ↔ x.lock.Inside t)
    (hdown : ∀ t, lock.pc t = .inDown ↔ x.lock.pc t = .inDown) : Inv s₀ (x.withLock lock) where
  lock := hlock
  free hno := h.free fun t ht => hno t ((hin t).mpr ht)
  taken t ht := h.taken t ((hin t).mp ht)
  entering t ht := h.entering t ((hdown t).mp ht)
  calls t := by
    have hwait : (x.withLock lock).waiting t = x.waiting t := by
      simp only [waiting, withLock, hdown t]
    rw [hwait]
    exact h.calls t

/-- Before the loop test of `sem_down`, at the start of the call or after a wake-up. -/
structure Entering (s₀ : Screen) (x : ConsoleSystem T) (t : T) : Prop where
  outside : ¬ x.lock.Inside t
  counter : x.lock.mtx.sem.val ≠ 0 → ∀ u, ¬ x.lock.Inside u
  free : (∀ u, ¬ x.lock.Inside u) → ∃ tr, Sections s₀ x.bodies none tr x.screen
  taken : ∀ u, x.lock.Inside u → (∃ prev, x.order = prev ++ [(u, x.call u)]) ∧
    ∃ tr, Sections s₀ x.bodies (some (x.rest u)) tr x.screen
  start : x.rest t = (x.call t).body
  entering : ∀ u ≠ t, x.lock.pc u = .inDown → x.rest u = (x.call u).body
  own : callsOf t x.made = callsOf t x.order ++ [(t, x.call t)]
  others : ∀ u ≠ t, callsOf u x.made = callsOf u x.order ++ x.waiting u

lemma callsOf_concat (calls : List (T × ConsoleCall)) (t u : T) (c : ConsoleCall) :
    callsOf u (calls ++ [(t, c)]) = callsOf u calls ++ if t = u then [(t, c)] else [] := by
  by_cases h : t = u <;> simp [callsOf, h]

/-- The mutex is taken: the thread waits. -/
lemma Entering.wait (h : Entering s₀ x t) (hv : x.lock.mtx.sem.val = 0)
    (hlock : LockInv (lockDown x.lock t)) :
    Inv s₀ ((x.withLock (lockDown x.lock t)).letIn t) := by
  have hpc : (lockDown x.lock t).pc = Function.update x.lock.pc t .inDown := by
    rw [lockDown_pc, if_pos hv]
  have hother : ∀ u ≠ t, (lockDown x.lock t).pc u = x.lock.pc u := fun u hu => by
    rw [hpc, Function.update_of_ne hu]
  have hself : (lockDown x.lock t).pc t = .inDown := by rw [hpc, Function.update_self]
  have hin : ∀ u, (lockDown x.lock t).Inside u ↔ x.lock.Inside u := by
    intro u
    by_cases hu : u = t
    · rw [hu]
      exact iff_of_false (by simp [LockSystem.Inside, hself]) h.outside
    · simp only [LockSystem.Inside, hother u hu]
  have horder : ((x.withLock (lockDown x.lock t)).letIn t).order = x.order :=
    if_neg (by simp [withLock, hself])
  have hbodies : ((x.withLock (lockDown x.lock t)).letIn t).bodies = x.bodies := by
    rw [bodies, horder, bodies]
  refine ⟨hlock, fun hno => ?_, fun u hu => ?_, fun u hu => ?_, fun u => ?_⟩
  · rw [hbodies]
    exact h.free fun u hu => hno u ((hin u).mpr hu)
  · rw [hbodies, horder]
    exact h.taken u ((hin u).mp hu)
  · by_cases he : u = t
    · exact he ▸ h.start
    · exact h.entering u he (hother u he ▸ hu)
  · rw [horder]
    by_cases he : u = t
    · have hwait : ((x.withLock (lockDown x.lock t)).letIn t).waiting t = [(t, x.call t)] :=
        if_pos hself
      rw [he, hwait]
      exact h.own
    · have hwait : ((x.withLock (lockDown x.lock t)).letIn t).waiting u = x.waiting u := by
        simp only [waiting, withLock, letIn, hother u he]
      rw [hwait]
      exact h.others u he

/-- The mutex is free: the thread goes in, the first one since the last release. -/
lemma Entering.pass (h : Entering s₀ x t) (hv : x.lock.mtx.sem.val ≠ 0)
    (hlock : LockInv (lockDown x.lock t)) :
    Inv s₀ ((x.withLock (lockDown x.lock t)).letIn t) := by
  have hpc : (lockDown x.lock t).pc = Function.update x.lock.pc t .downDone := by
    rw [lockDown_pc, if_neg hv]
  have hother : ∀ u ≠ t, (lockDown x.lock t).pc u = x.lock.pc u := fun u hu => by
    rw [hpc, Function.update_of_ne hu]
  have hself : (lockDown x.lock t).pc t = .downDone := by rw [hpc, Function.update_self]
  have hno := h.counter hv
  have horder : ((x.withLock (lockDown x.lock t)).letIn t).order = x.order ++ [(t, x.call t)] :=
    if_pos hself
  have hbodies : ((x.withLock (lockDown x.lock t)).letIn t).bodies =
      x.bodies ++ [(x.call t).body] := by
    rw [bodies, horder, List.map_append]
    rfl
  obtain ⟨tr, hsections⟩ := h.free hno
  refine ⟨hlock, fun hnone => absurd (.inl hself) (hnone t), fun u hu => ?_, fun u hu => ?_,
    fun u => ?_⟩
  · have he : u = t := by
      by_contra he
      refine hno u ?_
      simpa only [LockSystem.Inside, letIn, withLock, hother u he] using hu
    rw [he, hbodies, horder]
    refine ⟨⟨x.order, rfl⟩, tr, ?_⟩
    have hrest : ((x.withLock (lockDown x.lock t)).letIn t).rest t = (x.call t).body := h.start
    rw [hrest]
    exact hsections.enter _
  · by_cases he : u = t
    · exact he ▸ h.start
    · exact h.entering u he (hother u he ▸ hu)
  · rw [horder, callsOf_concat]
    by_cases he : u = t
    · have hwait : ((x.withLock (lockDown x.lock t)).letIn t).waiting t = [] := if_neg (by
        simp [letIn, withLock, hself])
      rw [he, hwait, if_pos rfl, List.append_nil]
      exact h.own
    · have hwait : ((x.withLock (lockDown x.lock t)).letIn t).waiting u = x.waiting u := by
        simp only [waiting, withLock, letIn, hother u he]
      rw [hwait, if_neg (Ne.symm he), List.append_nil]
      exact h.others u he

lemma Entering.down (h : Entering s₀ x t) (hlock : LockInv (lockDown x.lock t)) :
    Inv s₀ ((x.withLock (lockDown x.lock t)).letIn t) := by
  by_cases hv : x.lock.mtx.sem.val = 0
  · exact h.wait hv hlock
  · exact h.pass hv hlock

lemma Inv.resume (h : Inv s₀ x) (hpc : x.lock.pc t = .inDown)
    (hlock : LockInv (lockDown x.lock t)) :
    Inv s₀ ((x.withLock (lockDown x.lock t)).letIn t) := by
  refine Entering.down ⟨by simp [LockSystem.Inside, hpc], h.lock.none_inside, h.free, h.taken,
    h.entering t hpc, fun u _ => h.entering u, ?_, fun u _ => h.calls u⟩ hlock
  rw [h.calls t, waiting, if_pos hpc]

lemma Inv.call (h : Inv s₀ x) (hpc : x.lock.pc t = .outside) (c : ConsoleCall)
    (hlock : LockInv (lockDown x.lock t)) :
    Inv s₀ (({ x with
      call := Function.update x.call t c
      rest := Function.update x.rest t c.body
      made := x.made ++ [(t, c)] }.withLock (lockDown x.lock t)).letIn t) := by
  have hnot : ¬ x.lock.Inside t := by simp [LockSystem.Inside, hpc]
  have hwait : x.waiting t = [] := if_neg (by simp [hpc])
  refine Entering.down ⟨hnot, h.lock.none_inside, h.free, fun u hu => ?_, ?_, fun u he hu => ?_,
    ?_, fun u he => ?_⟩ hlock
  · have he : u ≠ t := fun he => hnot (he ▸ hu)
    simpa [bodies, he] using h.taken u hu
  · simp
  · simpa [he] using h.entering u hu
  · simp [callsOf_concat, h.calls t, hwait]
  · have hne : t ≠ u := Ne.symm he
    simp [callsOf_concat, h.calls u, waiting, he, hne]

/-- One access of the thread inside. -/
lemma Inv.access (h : Inv s₀ x) (hpc : x.lock.pc t = .locked) {ls : List Empty} {screen : Screen}
    {p : ScreenProg Unit} (hp : (x.rest t).advance x.screen = some (ls, screen, p)) :
    Inv s₀ { x with screen := screen, rest := Function.update x.rest t p } := by
  have hin : x.lock.Inside t := .inr hpc
  refine ⟨h.lock, fun hno => absurd hin (hno t), fun u hu => ?_, fun u hu => ?_, h.calls⟩
  · obtain rfl : u = t := h.lock.exclusive u t hu hin
    obtain ⟨hlast, tr, hsections⟩ := h.taken u hin
    refine ⟨hlast, tr ++ ls, ?_⟩
    simp only [Function.update_self]
    exact hsections.advance hp
  · have he : u ≠ t := by
      rintro rfl
      have hdown : x.lock.pc u = .inDown := hu
      rw [hpc] at hdown
      cases hdown
    simpa [he] using h.entering u hu

/-- The thread inside goes out with nothing left to do on the screen. -/
lemma Inv.release (h : Inv s₀ x) (hpc : x.lock.pc t = .locked) (hrest : x.rest t = .ret ())
    (hup : lockUp x.lock t = some lock) (hlock : LockInv lock) : Inv s₀ (x.withLock lock) := by
  have hin : x.lock.Inside t := .inr hpc
  have hpc' := lockUp_pc hup
  have hself : lock.pc t = .upDone := by rw [hpc', Function.update_self]
  have hother : ∀ u ≠ t, lock.pc u = x.lock.pc u := fun u hu => by
    rw [hpc', Function.update_of_ne hu]
  have hdown : ∀ u, lock.pc u = .inDown ↔ x.lock.pc u = .inDown := by
    intro u
    by_cases he : u = t
    · rw [he, hself, hpc]
      simp
    · rw [hother u he]
  have hno : ∀ u, ¬ lock.Inside u := by
    intro u hu
    by_cases he : u = t
    · rw [he] at hu
      simp [LockSystem.Inside, hself] at hu
    · have hold : x.lock.Inside u := by simpa only [LockSystem.Inside, hother u he] using hu
      exact he (h.lock.exclusive u t hold hin)
  obtain ⟨-, tr, hsections⟩ := h.taken t hin
  rw [hrest] at hsections
  refine ⟨hlock, fun _ => ⟨tr, hsections.leave⟩, fun u hu => absurd hu (hno u),
    fun u hu => h.entering u ((hdown u).mp hu), fun u => ?_⟩
  have hwait : (x.withLock lock).waiting u = x.waiting u := by
    simp only [waiting, withLock, hdown u]
  rw [hwait]
  exact h.calls u

/-- One event. -/
lemma Inv.step (h : Inv s₀ x) {e : ConsoleEvent T} (hs : x.step e = some x') : Inv s₀ x' := by
  cases e with
  | call t c =>
    obtain ⟨lock, hlock, rfl⟩ := Option.map_eq_some_iff.mp hs
    have hinv := h.lock.step hlock
    simp only [lockStep, Option.ite_none_right_eq_some, Option.some.injEq] at hlock
    obtain ⟨⟨-, hpc⟩, rfl⟩ := hlock
    exact h.call hpc c hinv
  | resume t =>
    obtain ⟨lock, hlock, rfl⟩ := Option.map_eq_some_iff.mp hs
    have hinv := h.lock.step hlock
    simp only [lockStep, Option.ite_none_right_eq_some, Option.some.injEq] at hlock
    obtain ⟨⟨-, hpc⟩, rfl⟩ := hlock
    exact h.resume hpc hinv
  | setHolder t =>
    obtain ⟨lock, hlock, rfl⟩ := Option.map_eq_some_iff.mp hs
    have hinv := h.lock.step hlock
    simp only [lockStep, Option.ite_none_right_eq_some, Option.some.injEq] at hlock
    obtain ⟨⟨-, hpc⟩, rfl⟩ := hlock
    refine h.move hinv (fun u => ?_) fun u => ?_
    · by_cases he : u = t <;> simp [LockSystem.Inside, he, hpc]
    · by_cases he : u = t <;> simp [he, hpc]
  | access t =>
    simp only [ConsoleSystem.step] at hs
    split_ifs at hs with hok
    obtain ⟨⟨ls, screen, p⟩, hp, rfl⟩ := Option.map_eq_some_iff.mp hs
    exact h.access hok.2 hp
  | release t =>
    simp only [ConsoleSystem.step] at hs
    split at hs
    · rename_i a hrest
      obtain ⟨lock, hlock, rfl⟩ := Option.map_eq_some_iff.mp hs
      have hinv := h.lock.step hlock
      simp only [lockStep, Option.ite_none_right_eq_some] at hlock
      obtain ⟨⟨-, hpc⟩, hup⟩ := hlock
      exact h.release hpc hrest hup hinv
    · cases hs
  | clearHolder t =>
    obtain ⟨lock, hlock, rfl⟩ := Option.map_eq_some_iff.mp hs
    have hinv := h.lock.step hlock
    simp only [lockStep, Option.ite_none_right_eq_some, Option.some.injEq] at hlock
    obtain ⟨⟨-, hpc⟩, rfl⟩ := hlock
    refine h.move hinv (fun u => ?_) fun u => ?_
    · by_cases he : u = t <;> simp [LockSystem.Inside, he, hpc]
    · by_cases he : u = t <;> simp [he, hpc]
  | sleep t st =>
    obtain ⟨lock, hlock, rfl⟩ := Option.map_eq_some_iff.mp hs
    have hinv := h.lock.step hlock
    simp only [lockStep, Option.ite_none_right_eq_some, Option.some.injEq] at hlock
    obtain ⟨-, rfl⟩ := hlock
    exact h.move hinv (fun _ => Iff.rfl) fun _ => Iff.rfl
  | wake t =>
    obtain ⟨lock, hlock, rfl⟩ := Option.map_eq_some_iff.mp hs
    have hinv := h.lock.step hlock
    simp only [lockStep, Option.ite_none_right_eq_some, Option.some.injEq] at hlock
    obtain ⟨-, rfl⟩ := hlock
    exact h.move hinv (fun _ => Iff.rfl) fun _ => Iff.rfl

/-- The texts of calls, one after another. -/
def texts (calls : List (T × ConsoleCall)) : List Byte := calls.flatMap fun c => c.2.text

omit [DecidableEq T] in
/-- By induction on the calls. -/
lemma runs_inOrder (s₀ : Screen) (calls : List (T × ConsoleCall)) :
    (inOrder (calls.map fun c => c.2.body)).Runs s₀ []
      ((texts calls).foldl OsI386.putChar s₀) () := by
  induction calls using List.reverseRecOn with
  | nil => exact Runs.ret () s₀
  | append_singleton calls c ih =>
    have htexts : texts (calls ++ [c]) = texts calls ++ c.2.text := by simp [texts]
    rw [List.map_append, List.map_singleton, inOrder_concat, htexts, List.foldl_append]
    exact ih.bind_silent (c.2.runs_body _)

/-- A terminal shows what the bytes make of it. -/
lemma displays_foldl {s : Screen} {terminal : Terminal} {l : List Byte} (h : Displays s terminal)
    (hl : 0x08 ∉ l) : Displays (l.foldl OsI386.putChar s) (l.foldl Terminal.put terminal) := by
  induction l generalizing s terminal with
  | nil => exact h
  | cons c l ih =>
    have hc : c ≠ 0x08 := fun he => hl (he ▸ List.mem_cons_self)
    exact ih (displays_putChar h fun he => absurd he hc) fun hm => hl (List.mem_cons_of_mem c hm)

lemma reach_inv (h : Reach ConsoleSystem.step (fun _ _ => True) (init s₀) x) : Inv s₀ x :=
  h.invariant (Inv.init s₀) fun _ _ _ hI _ hs => hI.step hs

/-- However the accesses of threads that print through console.c interleave: each thread's calls
take effect in the order in which it makes them, none twice and none lost but one that waits for
the mutex; between calls the screen is that of the texts put one after another in the order in
which their calls have passed `sem_down`, which a terminal shows if no text has a backspace; and
within a call it is some accesses further than that, all of this call. -/
theorem console_serial (h : Reach ConsoleSystem.step (fun _ _ => True) (init s₀) x) :
    (∀ t, callsOf t x.made = callsOf t x.order ++ x.waiting t) ∧
    ((∀ t, ¬ x.lock.Inside t) → x.screen = (texts x.order).foldl OsI386.putChar s₀ ∧
      (s₀.cursor.toNat < 2000 → s₀.written = [] → 0x08 ∉ texts x.order →
        Displays x.screen ((texts x.order).foldl Terminal.put s₀.terminal))) ∧
    ∀ t, x.lock.Inside t → ∃ prev, x.order = prev ++ [(t, x.call t)] ∧
      (x.call t).body.Steps ((texts prev).foldl OsI386.putChar s₀) [] x.screen (x.rest t) := by
  have hinv := reach_inv h
  refine ⟨hinv.calls, fun hno => ?_, fun t ht => ?_⟩
  · obtain ⟨tr, hsections⟩ := hinv.free hno
    have hscreen : x.screen = (texts x.order).foldl OsI386.putChar s₀ :=
      (hsections.serial.det (runs_inOrder s₀ x.order)).1
    refine ⟨hscreen, fun hcursor hwritten hback => hscreen ▸ displays_foldl ?_ hback⟩
    exact ⟨fun _ _ => rfl, rfl, hcursor, fun a ha => absurd (hwritten ▸ ha) List.not_mem_nil⟩
  · obtain ⟨⟨prev, hprev⟩, tr, hsections⟩ := hinv.taken t ht
    obtain ⟨qs, p, tr1, tr2, s1, hbodies, hrun, hsteps, -⟩ := hsections.current
    have hlast : x.bodies = (prev.map fun c => c.2.body) ++ [(x.call t).body] := by
      rw [bodies, hprev, List.map_append]
      rfl
    obtain ⟨hqs, hp⟩ := List.append_inj' (hbodies.symm.trans hlast) rfl
    have hp' : p = (x.call t).body := List.singleton_inj.mp hp
    have hs1 : s1 = (texts prev).foldl OsI386.putChar s₀ :=
      ((hqs ▸ hrun).det (runs_inOrder s₀ prev)).1
    have htr : tr2 = [] := List.eq_nil_iff_forall_not_mem.mpr fun a => a.elim
    refine ⟨prev, hprev, ?_⟩
    rw [← hs1, ← hp', ← htr]
    exact hsteps

/-- Thread 1 calls while thread 0 has only read half of the cursor. -/
theorem console_serial_two : ∃ x : ConsoleSystem ℕ,
    run ConsoleSystem.step (init zeroScreen) ([.call 0 (.putChar 0x41), .setHolder 0, .access 0,
      .access 0, .call 1 (.putChar 0x42)] ++ List.replicate 8 (.access 0) ++ [.release 0,
      .clearHolder 0, .resume 1, .setHolder 1] ++ List.replicate 10 (.access 1) ++ [.release 1]) =
        some x ∧
    x.order = [(0, .putChar 0x41), (1, .putChar 0x42)] ∧
    x.screen = [0x41, 0x42].foldl OsI386.putChar zeroScreen ∧
    Displays x.screen ([0x41, 0x42].foldl Terminal.put zeroScreen.terminal) := by
  obtain ⟨x, hrun, horder, hval⟩ : ∃ x : ConsoleSystem ℕ,
      run ConsoleSystem.step (init zeroScreen) ([.call 0 (.putChar 0x41), .setHolder 0, .access 0,
        .access 0, .call 1 (.putChar 0x42)] ++ List.replicate 8 (.access 0) ++ [.release 0,
        .clearHolder 0, .resume 1, .setHolder 1] ++ List.replicate 10 (.access 1) ++
        [.release 1]) = some x ∧
      x.order = [(0, .putChar 0x41), (1, .putChar 0x42)] ∧ x.lock.mtx.sem.val = 1 :=
    ⟨_, rfl, rfl, rfl⟩
  have hreach := Reach.of_run hrun
  have hno := (reach_inv hreach).lock.none_inside (by rw [hval]; exact one_ne_zero)
  obtain ⟨hscreen, hdisplays⟩ := (console_serial hreach).2.1 hno
  rw [horder] at hscreen hdisplays
  exact ⟨x, hrun, horder, hscreen, hdisplays (by decide) rfl (by decide)⟩

end ConsoleSystem

end Serial

end OsI386
