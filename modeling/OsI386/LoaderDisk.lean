import OsI386.AtaDrive
import OsI386.LoaderPaging
import OsI386.Segments

/-!
# rd_disk_m_16 of mbr.s and rd_disk_m_32 of loader.s

The cpu and the drive behind the ports 0x1f0 to 0x1f7. The flags that no jump reads are left out.
-/
namespace X86.State

def al (s : State) : BitVec 8 := low8 s.eax

def cl (s : State) : BitVec 8 := low8 s.ecx

def dx (s : State) : BitVec 16 := low16 s.edx

def setAl (s : State) (b : BitVec 8) : State := { s with eax := setLow8 s.eax b }

def setBx (s : State) (v : BitVec 16) : State := { s with ebx := setLow16 s.ebx v }

def setCl (s : State) (b : BitVec 8) : State := { s with ecx := setLow8 s.ecx b }

def setDx (s : State) (v : BitVec 16) : State := { s with edx := setLow16 s.edx v }

/-- `shr eax, cl`. -/
def shrEax (s : State) : State := { s with eax := s.eax >>> (s.cl.toNat % 32) }

end X86.State

namespace OsI386
open X86 Ata

structure BootState where
  cpu : State
  drive : Drive

namespace Boot

section Code

variable (x : Medium)

/-- An instruction of the cpu alone. -/
def exec (s : BootState) (f : State → State) : BootState := { s with cpu := f s.cpu }

/-- `out dx, al`. -/
def outAl (s : BootState) : BootState := { s with drive := s.drive.out x s.cpu.dx s.cpu.al }

/-- `in al, dx` for the status port. -/
def inAl (s : BootState) : BootState :=
  ⟨s.cpu.setAl (s.drive.status x).1, (s.drive.status x).2⟩

/-- `in ax, dx` for the data port. -/
def inAx (s : BootState) : BootState :=
  ⟨s.cpu.setAx (s.drive.data x).1, (s.drive.data x).2⟩

/-- Both routines up to `.not_ready`. -/
def command (s : BootState) : BootState :=
  let s := exec s fun c => { c with esi := c.eax }
  let s := exec s fun c => c.setDi c.cx
  let s := exec s fun c => c.setDx 0x1f2
  let s := exec s fun c => c.setAl c.cl
  let s := outAl x s
  let s := exec s fun c => { c with eax := c.esi }
  let s := exec s fun c => c.setDx 0x1f3
  let s := outAl x s
  let s := exec s fun c => c.setCl 8
  let s := exec s State.shrEax
  let s := exec s fun c => c.setDx 0x1f4
  let s := outAl x s
  let s := exec s State.shrEax
  let s := exec s fun c => c.setDx 0x1f5
  let s := outAl x s
  let s := exec s State.shrEax
  let s := exec s fun c => c.setAl (c.al &&& 0x0f)
  let s := exec s fun c => c.setAl (c.al ||| 0xe0)
  let s := exec s fun c => c.setDx 0x1f6
  let s := outAl x s
  let s := exec s fun c => c.setDx 0x1f7
  let s := exec s fun c => c.setAl 0x20
  outAl x s

/-- `.not_ready`; `none` is a loop that goes on. -/
def notReady : ℕ → BootState → Option BootState
  | 0, _ => none
  | fuel + 1, s =>
    let s := inAl x s
    let s := exec s fun c => c.setAl (c.al &&& 0x88)
    if s.cpu.al = 0x08 then some s else notReady fuel s

/-- The words to read, in `cx`. -/
def wordCount (s : BootState) : BootState :=
  let s := exec s fun c => c.setAx c.di
  let s := exec s fun c => c.setDx 256
  let s := exec s fun c => c.mul16 c.dx
  let s := exec s fun c => c.setCx c.ax
  exec s fun c => c.setDx 0x1f0

/-- `.go_on_read` with what a routine does with the word in `ax`; `left` are the passes its `loop`
has left. -/
def goOnRead (pass : State → State) (left : State → ℕ) : ℕ → BootState → BootState
  | 0, s => s
  | fuel + 1, s =>
    let s := exec (inAx x s) pass
    if left s.cpu = 0 then s else goOnRead pass left fuel s

/-- `mov [ebx], ax`, `add ebx, 2` and `loop` of loader.s. -/
def pass32 (c : State) : State :=
  let c := { c with mem := store16 c.mem c.ebx c.ax }
  let c := { c with ebx := c.ebx + 2 }
  { c with ecx := c.ecx - 1 }

/-- `mov [bx], ax`, `add bx, 2` and `loop` of mbr.s, where `ds` is 0. -/
def pass16 (c : State) : State :=
  let c := { c with mem := store16 c.mem (c.bx.setWidth 32) c.ax }
  let c := c.setBx (c.bx + 2)
  c.setCx (c.cx - 1)

/-- Up to the `ret`. -/
def rdDiskM32 (fuel : ℕ) (s : BootState) : Option BootState :=
  (notReady x fuel (command x s)).map fun s =>
    goOnRead x pass32 (fun c => c.ecx.toNat) (2 ^ 32) (wordCount s)

def rdDiskM16 (fuel : ℕ) (s : BootState) : Option BootState :=
  (notReady x fuel (command x s)).map fun s =>
    goOnRead x pass16 (fun c => c.cx.toNat) (2 ^ 16) (wordCount s)

end Code

section Command

variable {x : Medium} {s : BootState}

lemma high16_setLow8 (w : Word) (b : BitVec 8) : high16 (setLow8 w b) = high16 w := by
  apply BitVec.eq_of_getLsbD_eq
  intro i hi
  rw [high16, BitVec.getLsbD_extractLsb', setLow8, BitVec.getLsbD_append, BitVec.getLsbD_append]
  simp [hi]
  grind

/-- The drive when `command` has written its registers. -/
def programmed (s : BootState) : Drive :=
  { s.drive with
    count := low8 s.cpu.ecx
    lbaLow := low8 s.cpu.eax
    lbaMid := low8 (s.cpu.eax >>> 8)
    lbaHigh := low8 (s.cpu.eax >>> 8 >>> 8)
    device := low8 (s.cpu.eax >>> 8 >>> 8 >>> 8) &&& 0x0f ||| 0xe0 }

lemma command_spec (x : Medium) (s : BootState) :
    (command x s).drive = (programmed s).readSectors x ∧ (command x s).cpu.di = s.cpu.cx ∧
      high16 (command x s).cpu.ecx = high16 s.cpu.ecx ∧ (command x s).cpu.ebx = s.cpu.ebx ∧
      (command x s).cpu.mem = s.cpu.mem ∧ (command x s).cpu.esp = s.cpu.esp ∧
      (command x s).cpu.eip = s.cpu.eip := by
  refine ⟨?_, ?_, ?_, rfl, rfl, rfl, rfl⟩
  · simp [command, exec, outAl, State.dx, State.setDx, State.al, State.setAl, State.cl,
      State.setCl, State.setDi, State.shrEax, Drive.out, programmed]
  · exact low16_setLow16
  · exact high16_setLow8 _ _

/-- The sectors a count stands for. -/
def sectorCount (b : BitVec 8) : ℕ := if b = 0 then 256 else b.toNat

lemma lba_programmed : (programmed s).lba = s.cpu.eax.toNat % 2 ^ 28 := by
  have hnibble : ∀ b : BitVec 8, ((b &&& 0x0f ||| 0xe0) &&& 0x0f).toNat = b.toNat % 16 := by decide
  have hbyte : ∀ w : Word, (low8 w).toNat = w.toNat % 256 := fun w => by
    rw [low8_eq_setWidth, BitVec.toNat_setWidth]
  have hshift : ∀ w : Word, (w >>> 8).toNat = w.toNat / 256 := fun w => by
    rw [BitVec.toNat_ushiftRight, Nat.shiftRight_eq_div_pow]
  have hlt := s.cpu.eax.isLt
  simp only [programmed, Drive.lba, hnibble, hbyte, hshift]
  omega

lemma commanded (x : Medium) (s : BootState) : (command x s).drive.Commanded
    (s.cpu.eax.toNat % 2 ^ 28) (sectorCount (low8 s.cpu.ecx)) := by
  rw [(command_spec x s).1]
  exact ⟨lba_programmed, rfl, rfl⟩

lemma sectorCount_pos (b : BitVec 8) : 0 < sectorCount b := by
  unfold sectorCount
  split_ifs with hb
  · norm_num
  · exact Nat.pos_of_ne_zero fun hzero => hb (BitVec.eq_of_toNat_eq hzero)

lemma command_busy (x : Medium) (s : BootState) : (command x s).drive.busy = x.wait 0 := by
  have hne : 256 * (if low8 s.cpu.ecx = 0 then 256 else (low8 s.cpu.ecx).toNat) ≠ 0 := by
    have hpos := sectorCount_pos (low8 s.cpu.ecx)
    unfold sectorCount at hpos
    omega
  rw [(command_spec x s).1]
  exact if_pos ⟨rfl, hne⟩

/-- The loop ends when the drive is not busy any more, and takes one pass more than it is. -/
lemma notReady_spec {first n fuel : ℕ} (h : s.drive.Commanded first n) (hn : 0 < n)
    (hfuel : s.drive.busy < fuel) : ∃ eax, notReady x fuel s =
      some ⟨{ s.cpu with eax := eax }, { s.drive with busy := 0 }⟩ := by
  induction fuel generalizing s with
  | zero => omega
  | succ fuel ih =>
    obtain ⟨hbits, hdrive⟩ := status_ready (x := x) h hn
    have hal : (exec (inAl x s) fun c => c.setAl (c.al &&& 0x88)).cpu.al =
        (s.drive.status x).1 &&& 0x88 := by
      simp [exec, inAl, State.al, State.setAl]
    rw [notReady]
    dsimp only
    rw [hal, hbits]
    by_cases hbusy : s.drive.busy = 0
    · rw [if_pos hbusy, if_pos rfl]
      refine ⟨_, congrArg some (congrArg₂ BootState.mk rfl ?_)⟩
      change (s.drive.status x).2 = _
      rw [hdrive, hbusy]
    · rw [if_neg hbusy, if_neg (by decide)]
      have hnext : (exec (inAl x s) fun c => c.setAl (c.al &&& 0x88)).drive =
          { s.drive with busy := s.drive.busy - 1 } := hdrive
      obtain ⟨eax, heax⟩ := ih (s := exec (inAl x s) fun c => c.setAl (c.al &&& 0x88))
        (by rw [hnext]; exact h) (by rw [hnext]; change s.drive.busy - 1 < fuel; omega)
      refine ⟨eax, heax.trans (congrArg some (congrArg₂ BootState.mk rfl ?_))⟩
      rw [hnext]

end Command

section Reading

variable {x : Medium} {s : BootState} {pass : State → State} {addr : State → Word}
  {left : State → ℕ} {limit n fuel : ℕ}

/-- The bytes of a word in memory. -/
def wordBytes (w : BitVec 16) : List (BitVec 8) := [w.extractLsb' 0 8, w.extractLsb' 8 8]

/-- A pass stores `ax` at `addr`, which goes on by 2 below `limit`. -/
structure StoresWords (pass : State → State) (addr : State → Word) (left : State → ℕ)
    (limit : ℕ) : Prop where
  mem : ∀ c, (pass c).mem = store16 c.mem (addr c) c.ax
  esp : ∀ c, (pass c).esp = c.esp
  next : ∀ c, (addr c).toNat + 2 < limit → addr (pass c) = addr c + 2
  counts : ∀ c, 0 < left c → left (pass c) = left c - 1
  addrAx : ∀ c v, addr (State.setAx c v) = addr c
  leftAx : ∀ c v, left (State.setAx c v) = left c

lemma storesWords_pass32 : StoresWords pass32 State.ebx (fun c => c.ecx.toNat) (2 ^ 32) where
  mem _ := rfl
  esp _ := rfl
  next _ _ := rfl
  counts c hc := by
    have hone : (1 : Word).toNat = 1 := rfl
    have hlt := c.ecx.isLt
    change (c.ecx - 1).toNat = c.ecx.toNat - 1
    rw [BitVec.toNat_sub, hone]
    omega
  addrAx _ _ := rfl
  leftAx _ _ := rfl

lemma storesWords_pass16 :
    StoresWords pass16 (fun c => c.bx.setWidth 32) (fun c => c.cx.toNat) (2 ^ 16) where
  mem _ := rfl
  esp _ := rfl
  next c hc := by
    have hbx : (pass16 c).bx = c.bx + 2 := low16_setLow16
    have htwo : (2 : BitVec 16).toNat = 2 := rfl
    have htwo' : (2 : Word).toNat = 2 := rfl
    apply BitVec.eq_of_toNat_eq
    rw [BitVec.toNat_setWidth] at hc
    rw [hbx, BitVec.toNat_setWidth, BitVec.toNat_add, BitVec.toNat_add, BitVec.toNat_setWidth,
      htwo, htwo']
    omega
  counts c hc := by
    have hcx : (pass16 c).cx = c.cx - 1 := low16_setLow16
    have hone : (1 : BitVec 16).toNat = 1 := rfl
    have hlt := c.cx.isLt
    rw [hcx, BitVec.toNat_sub, hone]
    omega
  addrAx _ _ := rfl
  leftAx _ _ := rfl

/-- The words read are stored one behind another. -/
lemma goOnRead_spec (hpass : StoresWords pass addr left limit) (hlimit : limit ≤ 2 ^ 32)
    (hleft : left s.cpu = n) (hn : 0 < n) (hfuel : n ≤ fuel)
    (hroom : (addr s.cpu).toNat + 2 * n ≤ limit) :
    (goOnRead x pass left fuel s).cpu.mem =
        storeBytes s.cpu.mem (addr s.cpu) ((s.drive.read x n).flatMap wordBytes) ∧
      (goOnRead x pass left fuel s).cpu.esp = s.cpu.esp := by
  induction fuel generalizing s n with
  | zero => omega
  | succ fuel ih =>
    obtain ⟨k, rfl⟩ : ∃ k, n = k + 1 := ⟨n - 1, by omega⟩
    set w := (s.drive.data x).1 with hw
    set s1 := exec (inAx x s) pass with hs1
    have hmem : s1.cpu.mem = storeBytes s.cpu.mem (addr s.cpu) (wordBytes w) := by
      have hstore := hpass.mem (s.cpu.setAx w)
      have hax : (s.cpu.setAx w).ax = w := low16_setLow16
      rw [hax, hpass.addrAx, store16_eq_storeBytes] at hstore
      exact hstore
    have hleft1 : left s1.cpu = k := by
      have hcount := hpass.counts (s.cpu.setAx w) (by rw [hpass.leftAx, hleft]; omega)
      rw [hpass.leftAx, hleft] at hcount
      exact hcount
    have hesp : s1.cpu.esp = s.cpu.esp := hpass.esp (s.cpu.setAx w)
    rw [goOnRead, Drive.read, List.flatMap_cons]
    rw [← hs1, hleft1]
    by_cases hk : k = 0
    · rw [if_pos hk, hk, hmem]
      exact ⟨congrArg _ (List.append_nil _).symm, hesp⟩
    · have haddr : addr s1.cpu = addr s.cpu + 2 := by
        have hnext := hpass.next (s.cpu.setAx w) (by rw [hpass.addrAx]; omega)
        rw [hpass.addrAx] at hnext
        exact hnext
      have htoNat : (addr s1.cpu).toNat = (addr s.cpu).toNat + 2 := by
        have htwo : (2 : Word).toNat = 2 := rfl
        rw [haddr, BitVec.toNat_add, htwo]
        omega
      obtain ⟨hrest, hrestEsp⟩ := ih hleft1 (by omega) (by omega) (by omega)
      rw [if_neg hk, hrest, hmem, haddr, storeBytes_append, hrestEsp]
      exact ⟨rfl, hesp⟩

end Reading

section Routines

variable {x : Medium} {s : BootState} {n fuel : ℕ}

/-- The drive when it is asked for its first word. -/
def ready (x : Medium) (s : BootState) : Drive := { (command x s).drive with busy := 0 }

lemma wordCount_cx (t : BootState) : (wordCount t).cpu.cx =
    low16 (t.cpu.di.setWidth 32 * (256 : BitVec 16).setWidth 32) := by
  simp [wordCount, exec, State.mul16, State.setDx, State.dx, State.setCx, State.cx, State.setAx,
    State.ax]

lemma wordCount_same (t : BootState) : (wordCount t).drive = t.drive ∧
    high16 (wordCount t).cpu.ecx = high16 t.cpu.ecx ∧ (wordCount t).cpu.ebx = t.cpu.ebx ∧
    (wordCount t).cpu.mem = t.cpu.mem ∧ (wordCount t).cpu.esp = t.cpu.esp :=
  ⟨rfl, high16_append _ _, rfl, rfl, rfl⟩

/-- Both routines up to `.go_on_read`, for less than 256 sectors. -/
lemma ready_spec (hn : 0 < n) (hcount : s.cpu.cx.toNat = n) (hlt : n < 256)
    (hfuel : x.wait 0 < fuel) : ∃ t, notReady x fuel (command x s) = some t ∧
      (wordCount t).drive = ready x s ∧ (wordCount t).cpu.cx.toNat = 256 * n ∧
      high16 (wordCount t).cpu.ecx = high16 s.cpu.ecx ∧ (wordCount t).cpu.ebx = s.cpu.ebx ∧
      (wordCount t).cpu.mem = s.cpu.mem ∧ (wordCount t).cpu.esp = s.cpu.esp := by
  obtain ⟨-, hdi, hhigh, hebx, hmem, hesp, -⟩ := command_spec x s
  have hbusy : (command x s).drive.busy < fuel := by
    rw [command_busy]
    exact hfuel
  obtain ⟨eax, ht⟩ := notReady_spec (x := x) (commanded x s) (sectorCount_pos _) hbusy
  rw [ready]
  obtain ⟨r, hr⟩ : ∃ r, r = command x s := ⟨_, rfl⟩
  rw [← hr] at hdi hhigh hebx hmem hesp ht ⊢
  obtain ⟨hdrive, hhigh', hebx', hmem', hesp'⟩ :=
    wordCount_same ⟨{ r.cpu with eax := eax }, { r.drive with busy := 0 }⟩
  refine ⟨_, ht, hdrive, ?_, hhigh'.trans hhigh, hebx'.trans hebx, hmem'.trans hmem,
    hesp'.trans hesp⟩
  have hdi' : r.cpu.di.toNat = n := by rw [hdi, hcount]
  have hwide : ((256 : BitVec 16).setWidth 32).toNat = 256 := rfl
  rw [wordCount_cx, toNat_low16, BitVec.toNat_mul, BitVec.toNat_setWidth, hwide]
  change r.cpu.di.toNat % 2 ^ 32 * 256 % 2 ^ 32 % 2 ^ 16 = 256 * n
  omega

lemma ready_commanded (x : Medium) (s : BootState) : (ready x s).Commanded
    (s.cpu.eax.toNat % 2 ^ 28) (sectorCount (low8 s.cpu.ecx)) ∧ (ready x s).busy = 0 :=
  ⟨commanded x s, rfl⟩

/-- The words that the routines get. -/
def sectorWords (x : Medium) (s : BootState) (n : ℕ) : List (BitVec 16) :=
  (ready x s).read x (256 * n)

lemma rdDiskM32_spec (hn : 0 < n) (hcount : s.cpu.ecx.toNat = n) (hlt : n < 256)
    (hfuel : x.wait 0 < fuel) (hroom : s.cpu.ebx.toNat + 512 * n ≤ 2 ^ 32) :
    ∃ t, rdDiskM32 x fuel s = some t ∧ t.cpu.esp = s.cpu.esp ∧
      t.cpu.mem = storeBytes s.cpu.mem s.cpu.ebx ((sectorWords x s n).flatMap wordBytes) := by
  have hcx : s.cpu.cx.toNat = n := by
    rw [State.cx, toNat_low16]
    omega
  obtain ⟨t, ht, hdrive, hwords, hhigh, hebx, hmem, hesp⟩ := ready_spec hn hcx hlt hfuel
  have hecx : (wordCount t).cpu.ecx.toNat = 256 * n := by
    have hupper : (high16 s.cpu.ecx).toNat = 0 := by
      rw [toNat_high16]
      omega
    have hall := toNat_append16 (high16 (wordCount t).cpu.ecx) (wordCount t).cpu.cx
    rw [State.cx, high16_append_low16, hhigh, hupper] at hall
    rw [State.cx] at hwords
    omega
  have hpasses : 256 * n ≤ 2 ^ 32 := by omega
  obtain ⟨hread, hstack⟩ := goOnRead_spec (x := x) storesWords_pass32 le_rfl hecx (by omega) hpasses
    (by rw [hebx]; omega)
  refine ⟨_, congrArg (Option.map _) ht, hstack.trans hesp, ?_⟩
  rw [hread, hmem, hebx, hdrive, sectorWords]

lemma rdDiskM16_spec (hn : 0 < n) (hcount : s.cpu.cx.toNat = n) (hlt : n < 256)
    (hfuel : x.wait 0 < fuel) (hroom : s.cpu.bx.toNat + 512 * n ≤ 2 ^ 16) :
    ∃ t, rdDiskM16 x fuel s = some t ∧ t.cpu.esp = s.cpu.esp ∧
      t.cpu.mem = storeBytes s.cpu.mem (s.cpu.bx.setWidth 32)
        ((sectorWords x s n).flatMap wordBytes) := by
  obtain ⟨t, ht, hdrive, hwords, -, hebx, hmem, hesp⟩ := ready_spec hn hcount hlt hfuel
  have hbx : (wordCount t).cpu.bx = s.cpu.bx := congrArg low16 hebx
  have hwide : (s.cpu.bx.setWidth 32).toNat = s.cpu.bx.toNat := by
    have hsmall := s.cpu.bx.isLt
    rw [BitVec.toNat_setWidth]
    omega
  have hpasses : 256 * n ≤ 2 ^ 16 := by omega
  obtain ⟨hread, hstack⟩ := goOnRead_spec (x := x) storesWords_pass16 (by norm_num) hwords (by omega)
    hpasses (by rw [hbx, hwide]; omega)
  refine ⟨_, congrArg (Option.map _) ht, hstack.trans hesp, ?_⟩
  rw [hread, hmem, hbx, hdrive, sectorWords]

end Routines

section Sectors

variable {x : Medium} {ws : List (BitVec 16)} {w : BitVec 16} {g : ℕ}

lemma length_wordBytes (ws : List (BitVec 16)) : (ws.flatMap wordBytes).length = 2 * ws.length := by
  induction ws with
  | nil => rfl
  | cons w ws ih =>
    rw [List.flatMap_cons, List.length_append, ih, List.length_cons, wordBytes, List.length_cons,
      List.length_cons, List.length_nil]
    omega

/-- The low byte of a word comes first. -/
lemma wordBytes_get (h : ws[g]? = some w) :
    (ws.flatMap wordBytes)[2 * g]? = some (w.extractLsb' 0 8) ∧
      (ws.flatMap wordBytes)[2 * g + 1]? = some (w.extractLsb' 8 8) := by
  induction ws generalizing g with
  | nil => exact absurd h (by simp)
  | cons v ws ih =>
    cases g with
    | zero =>
      obtain rfl : v = w := Option.some.inj h
      exact ⟨rfl, rfl⟩
    | succ g => exact ih h

/-- The bytes of `n` sectors are at `a`, and the rest of memory is as before. -/
structure SectorsLoaded (byte : ℕ → BitVec 8) (first n : ℕ) (a : Word) (m m' : Mem) : Prop where
  loaded : ∀ l < 512 * n, m' (a + BitVec.ofNat 32 l) = byte (512 * first + l)
  others : ∀ b : Word, 512 * n ≤ (b - a).toNat → m' b = m b

variable {d : Drive} {first n : ℕ} {a : Word} {m : Mem}

lemma sectorsLoaded_of_steady (h : d.Commanded first n) (hbusy : d.busy = 0) (hsteady : x.Steady n)
    (hroom : 512 * n ≤ 2 ^ 32) : SectorsLoaded x.byte first n a m
      (storeBytes m a ((d.read x (256 * n)).flatMap wordBytes)) := by
  have hread := read_of_steady h hbusy hsteady
  have hlen : ((d.read x (256 * n)).flatMap wordBytes).length = 512 * n := by
    rw [length_wordBytes, length_read]
    omega
  constructor
  case loaded =>
    intro l hl
    have hword : (d.read x (256 * n))[l / 2]? = some (x.word (512 * first + 2 * (l / 2))) := by
      rw [hread, Medium.sectors, List.getElem?_map, List.getElem?_range (by omega)]
      rfl
    obtain ⟨hlow, hhigh⟩ := wordBytes_get hword
    refine storeBytes_get (by omega) ?_
    obtain heven | hodd : l = 2 * (l / 2) ∨ l = 2 * (l / 2) + 1 := by omega
    · rw [← heven] at hlow
      rw [hlow, Medium.word, BitVec.extractLsb'_append_eq_right]
    · rw [← hodd] at hhigh
      rw [hhigh, Medium.word, BitVec.extractLsb'_append_eq_left, add_assoc, ← hodd]
  case others => exact fun b hb => storeBytes_of_apart (by omega)

/-- Where the drive pauses, a byte that is none of the drive's is taken for the next sector. -/
lemma idle_of_pause {k : ℕ} (h : d.Commanded first n) (hbusy : d.busy = 0) (hk : k < n)
    (hpos : 0 < k) (hwait : x.wait k ≠ 0) (hfirst : ∀ j, 0 < j → j < k → x.wait j = 0)
    (hroom : 512 * n ≤ 2 ^ 32) :
    storeBytes m a ((d.read x (256 * n)).flatMap wordBytes) (a + BitVec.ofNat 32 (512 * k)) =
      x.idle.extractLsb' 0 8 := by
  have hword := read_of_pause h hbusy hk hpos hwait hfirst
  have hlen : ((d.read x (256 * n)).flatMap wordBytes).length = 512 * n := by
    rw [length_wordBytes, length_read]
    omega
  have hlow := (wordBytes_get hword).1
  rw [← mul_assoc] at hlow
  exact storeBytes_get (by omega) hlow

/-- The drive's bytes replaced by others. -/
def withBytes (x : Medium) (byte : ℕ → BitVec 8) : Medium := { x with byte := byte }

/-- Whatever is on the drive, `run` ends with `n` sectors at `a` and with the stack as it was. -/
def LoadsSectors (run : Medium → Option BootState) (x : Medium) (first n : ℕ) (a : Word)
    (s : BootState) : Prop :=
  ∀ byte, ∃ t, run (withBytes x byte) = some t ∧ t.cpu.esp = s.cpu.esp ∧
    SectorsLoaded byte first n a s.cpu.mem t.cpu.mem

lemma loadsSectors_iff {run : Medium → Option BootState} {s : BootState} (hlt : n < 256)
    (hcount : sectorCount (low8 s.cpu.ecx) = n)
    (hrun : ∀ byte, ∃ t, run (withBytes x byte) = some t ∧ t.cpu.esp = s.cpu.esp ∧
      t.cpu.mem = storeBytes s.cpu.mem a
        ((sectorWords (withBytes x byte) s n).flatMap wordBytes)) :
    LoadsSectors run x (s.cpu.eax.toNat % 2 ^ 28) n a s ↔ x.Steady n := by
  constructor
  case mp =>
    intro hloads
    by_contra hnot
    have hpause : ∃ k, 0 < k ∧ k < n ∧ x.wait k ≠ 0 := by
      unfold Medium.Steady at hnot
      push Not at hnot
      exact hnot
    classical
    obtain ⟨hpos, hk, hwait⟩ := Nat.find_spec hpause
    have hfirst : ∀ j, 0 < j → j < Nat.find hpause → x.wait j = 0 := by
      intro j hj hlow
      by_contra hne
      exact Nat.find_min hpause hlow ⟨hj, by omega, hne⟩
    set y : Medium := withBytes x fun _ => ~~~x.idle.extractLsb' 0 8
    obtain ⟨t, ht, -, hmem⟩ := hrun fun _ => ~~~x.idle.extractLsb' 0 8
    obtain ⟨t', ht', -, hloaded⟩ := hloads fun _ => ~~~x.idle.extractLsb' 0 8
    obtain rfl : t = t' := Option.some.inj (ht.symm.trans ht')
    obtain ⟨hcommand, hbusy⟩ := ready_commanded y s
    rw [hcount] at hcommand
    have hidle := idle_of_pause (x := y) (a := a) (m := s.cpu.mem) hcommand hbusy hk hpos hwait
      hfirst (by omega)
    have hbyte := hloaded.loaded (512 * Nat.find hpause) (by omega)
    rw [hmem, sectorWords, hidle] at hbyte
    have hne : ∀ b : BitVec 8, b ≠ ~~~b := by decide
    exact hne _ hbyte
  case mpr =>
    intro hsteady byte
    obtain ⟨t, ht, hesp, hmem⟩ := hrun byte
    obtain ⟨hcommand, hbusy⟩ := ready_commanded (withBytes x byte) s
    rw [hcount] at hcommand
    refine ⟨t, ht, hesp, ?_⟩
    rw [hmem, sectorWords]
    exact sectorsLoaded_of_steady (x := withBytes x byte) hcommand hbusy hsteady (by omega)

end Sectors

section Loads

variable {x : Medium} {s : BootState} {n fuel : ℕ}

lemma sectorCount_eq {b : BitVec 8} (hn : 0 < n) (hb : b.toNat = n) : sectorCount b = n := by
  unfold sectorCount
  rw [if_neg, hb]
  rintro rfl
  exact hn.ne hb

/-- Both routines wait for the first sector only, so that they load what is on the drive exactly
when it has no pause between the sectors. -/
theorem rdDisk_loads_iff (hn : 0 < n) (hlt : n < 256) (hfuel : x.wait 0 < fuel) :
    (s.cpu.cx.toNat = n → s.cpu.bx.toNat + 512 * n ≤ 2 ^ 16 →
      (LoadsSectors (fun y => rdDiskM16 y fuel s) x (s.cpu.eax.toNat % 2 ^ 28) n
        (s.cpu.bx.setWidth 32) s ↔ x.Steady n)) ∧
    (s.cpu.ecx.toNat = n → s.cpu.ebx.toNat + 512 * n ≤ 2 ^ 32 →
      (LoadsSectors (fun y => rdDiskM32 y fuel s) x (s.cpu.eax.toNat % 2 ^ 28) n
        s.cpu.ebx s ↔ x.Steady n)) := by
  have hbyte : ∀ w : Word, (low8 w).toNat = w.toNat % 256 := fun w => by
    rw [low8_eq_setWidth, BitVec.toNat_setWidth]
  constructor
  · intro hcount hroom
    have hcl : (low8 s.cpu.ecx).toNat = n := by
      rw [State.cx, toNat_low16] at hcount
      rw [hbyte]
      omega
    exact loadsSectors_iff hlt (sectorCount_eq hn hcl) fun byte =>
      rdDiskM16_spec (x := withBytes x byte) hn hcount hlt hfuel hroom
  · intro hcount hroom
    have hcl : (low8 s.cpu.ecx).toNat = n := by
      rw [hbyte]
      omega
    exact loadsSectors_iff hlt (sectorCount_eq hn hcl) fun byte =>
      rdDiskM32_spec (x := withBytes x byte) hn hcount hlt hfuel hroom

/-- A drive of zeros that is busy before sector `k` of a command. -/
def zeroDisk (k : ℕ) : Medium where
  byte _ := 0
  wait j := if j = k then 2 else 0
  idle := 0
  other := 0x50

/-- mbr.s calls for the four sectors of the loader. -/
def mbrCall : BootState where
  cpu := ⟨2, 0x900, 4, 0, 0, 0, 0, 0x7c00, 0, 0, 0, 0, 0, 0, 0, 0, fun _ => 0⟩
  drive := ⟨0, 0, 0, 0, 0, 0, 0, 0, 0⟩

theorem rdDisk_loads_four :
    LoadsSectors (fun y => rdDiskM16 y 3 mbrCall) (zeroDisk 0) 2 4 0x900 mbrCall ∧
      ¬ LoadsSectors (fun y => rdDiskM32 y 3 mbrCall) (zeroDisk 1) 2 4 0x900 mbrCall := by
  constructor
  · have hfuel : (zeroDisk 0).wait 0 < 3 := by decide
    refine ((rdDisk_loads_iff (s := mbrCall) (n := 4) (by decide) (by decide) hfuel).1 rfl
      (by decide)).mpr ?_
    intro k hk _
    exact if_neg hk.ne'
  · intro hloads
    have hfuel : (zeroDisk 1).wait 0 < 3 := by decide
    have hsteady := ((rdDisk_loads_iff (s := mbrCall) (n := 4) (by decide) (by decide) hfuel).2 rfl
      (by decide)).mp hloads
    exact absurd (hsteady 1 (by decide) (by decide)) (by decide)

end Loads

end Boot

end OsI386
