import OsI386.Bitmap
import OsI386.Paging
import OsI386.Program
import OsI386.Sync

/-!
# kernel/memory.c and the memory side of user/process.c

Each function is a program of single accesses to bitmaps, page tables, mutexes and the
running pointer, so that it can be run alone or be preempted between any two of them. A
bitmap update is a load and a store. Page tables are reached through the MMU, and a
translation that fails ends in the exception handler, which never returns; so do `ASSERT`
and `PANIC`. The maps, the tcbs and the pool records are objects of their own; physical
memory holds the page directories, the page tables and the pages handed out. A thread that
waits for a mutex is one whose next access is not enabled.

`bitmap_set` does not compare its index with the length of the map. A store behind the map goes
to the memory there, through the MMU: to a page directory, to the fields of a tcb that memory
management reads, or to another map. Kernel stacks and the fields of a tcb the scheduler uses are
not followed.

Labels mark where a search of a bitmap begins and what it ends with.
-/
namespace OsI386

/-- `enum pool_flags`. -/
inductive PoolFlags
  | kernel | user
  deriving DecidableEq

/-- The `struct pool` objects; every tcb has one for its user addresses. -/
inductive PoolId
  | kernelPhy | userPhy | kernelVir | userVir (thread : ℕ)
  deriving DecidableEq

structure Pool where
  btmp : Bitmap
  btmpBase : Word
  addrBase : Word
  poolSize : Word
  mtx : Mutex ℕ

structure MemState where
  pool : PoolId → Pool
  phys : Phys
  cr3 : FrameNo
  running : ℕ
  pgDir : ℕ → Word

inductive Fault
  | panic | pageFault
  deriving DecidableEq

/-- `scan` and `claim` begin the reservation of bits, the next five end it. `map` is a call of
`v2p_mapping`. -/
inductive MemLabel
  | scan (pool : PoolId)
  | claim (pool : PoolId) (idx : ℕ)
  | noFrame (pool : PoolId)
  | frame (pool : PoolId) (paddr : Word)
  | noRange (pool : PoolId)
  | range (pool : PoolId) (idx cnt : ℕ)
  | map (vaddr paddr : Word)
  deriving DecidableEq

abbrev MemProg := Prog MemState MemLabel Fault

open Prog

namespace MemState

def btmp (s : MemState) (p : PoolId) : Bitmap := (s.pool p).btmp

def setBtmp (s : MemState) (p : PoolId) (b : Bitmap) : MemState :=
  { s with pool := Function.update s.pool p { s.pool p with btmp := b } }

def setMtx (s : MemState) (p : PoolId) (m : Mutex ℕ) : MemState :=
  { s with pool := Function.update s.pool p { s.pool p with mtx := m } }

/-- Address `v` lies in the word at offset `off` of the tcb at `t`. -/
abbrev InField (t off : ℕ) (v : Word) : Prop := v.toNat / 4 * 4 = t + off

/-- `user_vaddr_pool` of the tcb at `t` after `*v |= bits`; `mask` is `bits` in its word. -/
def orPool (t : ℕ) (v mask : Word) (bits : BitVec 8) (p : Pool) : Pool where
  btmp :=
    { bitNum := if InField t 72 v then p.btmp.bitNum ||| mask.toNat else p.btmp.bitNum
      byteLen := if InField t 76 v then p.btmp.byteLen ||| mask.toNat else p.btmp.byteLen
      bytes := fun i => if i < p.btmp.byteLen ∧ v = p.btmpBase + BitVec.ofNat 32 i
        then p.btmp.bytes i ||| bits else p.btmp.bytes i }
  btmpBase := if InField t 68 v then p.btmpBase ||| mask else p.btmpBase
  addrBase := if InField t 80 v then p.addrBase ||| mask else p.addrBase
  poolSize := if InField t 84 v then p.poolSize ||| mask else p.poolSize
  mtx := p.mtx

/-- `*v |= bits` for a byte of the page in frame `f` that no shared map has. -/
def orByte (s : MemState) (v : Word) (f : FrameNo) (bits : BitVec 8) : MemState :=
  let mask := bits.setWidth 32 <<< (v.toNat % 4 * 8)
  { s with
    pool := fun
      | .userVir t => orPool t v mask bits (s.pool (.userVir t))
      | p => s.pool p
    phys := writeSlot s.phys f (wordIdx v) (s.phys f (wordIdx v) ||| mask)
    pgDir := fun t => if InField t 64 v then s.pgDir t ||| mask else s.pgDir t }

/-- The store of `bitmap_set` for an index behind the map of `p`. -/
def orBehind (s : MemState) (p : PoolId) (idx : ℕ) : Option MemState :=
  let v := (s.pool p).btmpBase + BitVec.ofNat 32 (idx / 8)
  (translate s.phys s.cr3 v).map fun f => s.orByte v f (1#8 <<< (idx % 8))

end MemState

def memBitmapBase : Word := 0xC009A000
def kHeapStart : Word := 0xC0100000
def pageDirStartAddr : Word := 0x100000
def userVaddrStart : Word := 0x8048000

section Init

/-- `setup_page` of the loader, over memory `m`: the low page table, its alias at 0xc0000000,
the 254 kernel tables after it, and the directory as its own last entry. -/
def setupPage (m : Phys) : Phys := fun f i =>
  if f = 0x100 then
    if i = 0 ∨ i = 768 then 0x101007
    else if i = 1023 then 0x100007
    else if 769 ≤ i then (0x102000 + (i - 769).setWidth 32 * 0x1000) ||| 7
    else 0
  else if f = 0x101 ∧ i < 256 then i.setWidth 32 * 4096 ||| 7
  else m f i

def btmpBytesLen4pages (poolSizePg : Word) : Word :=
  if poolSizePg % 8 = 0 then poolSizePg / 8 else poolSizePg / 8 + 1

/-- `pool_init`; `old` is the record and the memory at `btmp_base` before. -/
def poolInit (old : Pool) (btmpBase poolBase poolSizePg : Word) : Pool where
  btmp := bitmapInit old.btmp.bytes poolSizePg.toNat
  btmpBase := btmpBase
  addrBase := poolBase
  poolSize := 4096 * poolSizePg
  mtx := old.mtx

def memPoolInit (s : MemState) (allMem : Word) : MemState :=
  let pageTableSize : Word := 4096 * (1 + 255)
  let usedMem := pageTableSize + pageDirStartAddr
  let freeMem := allMem - usedMem
  let allFreePages := freeMem / 4096
  let kernelFreePages := allFreePages / 2
  let userFreePages := allFreePages - kernelFreePages
  let kbmLen := btmpBytesLen4pages kernelFreePages
  let ubmLen := btmpBytesLen4pages userFreePages
  let kpStart := usedMem
  let upStart := kpStart + kernelFreePages * 4096
  { s with pool := fun
      | .kernelPhy =>
        { poolInit (s.pool .kernelPhy) memBitmapBase kpStart kernelFreePages with
          mtx := mutexInit }
      | .userPhy =>
        { poolInit (s.pool .userPhy) (memBitmapBase + kbmLen) upStart userFreePages with
          mtx := mutexInit }
      | .kernelVir =>
        poolInit (s.pool .kernelVir) (memBitmapBase + kbmLen + ubmLen) kHeapStart kernelFreePages
      | .userVir t => s.pool (.userVir t) }

end Init

section Bitmaps

def bitmapGetAt (p : PoolId) (idx : ℕ) : MemProg ℕ := read fun s => bitmapGet (s.btmp p) idx

/-- The `while` loop of `bitmap_scan`, as in `scanLoop`. -/
def scanRounds (p : PoolId) (val cnt : ℕ) : ℕ → ℕ → ℕ → MemProg ℤ
  | 0, _, _ => return -1
  | fuel + 1, left, right => do
    let bit ← bitmapGetAt p right
    let left := if bit ≠ val then right + 1 else left
    if right + 1 - left = cnt then return toInt32 left
    else scanRounds p val cnt fuel left (right + 1)

def bitmapScanAt (p : PoolId) (val cnt : ℕ) : MemProg ℤ := do
  let bitNum ← read fun s => (s.btmp p).bitNum
  scanRounds p val cnt bitNum 0 0

/-- `base_addr[byte_off] |= (1 << bit_off)`, a load and a store. Behind the map nothing else
changes the byte between the two. -/
def bitmapSetAt (p : PoolId) (idx : ℕ) : MemProg Unit := do
  let byteOff := idx / 8
  let bitOff := idx % 8
  let byte ← read fun s => if (s.btmp p).Holds idx then some ((s.btmp p).bytes byteOff) else none
  match byte with
  | some byte =>
    modify fun s => s.setBtmp p { s.btmp p with
      bytes := Function.update (s.btmp p).bytes byteOff (byte ||| (1#8 <<< bitOff)) }
  | none => modifyOr (fun s => s.orBehind p idx) .pageFault

/-- `while (cnt < pg_cnt) bitmap_set(btmp, bit_idx_start + cnt++)`. -/
def bitmapSetRun (p : PoolId) (idx : ℕ) : ℕ → MemProg Unit
  | 0 => return ()
  | cnt + 1 => do
    bitmapSetAt p idx
    bitmapSetRun p (idx + 1) cnt

end Bitmaps

section Pages

def vaddrPool (pf : PoolFlags) (thread : ℕ) : PoolId :=
  match pf with
  | .kernel => .kernelVir
  | .user => .userVir thread

def phyPool (pf : PoolFlags) : PoolId :=
  match pf with
  | .kernel => .kernelPhy
  | .user => .userPhy

def vaddrGet (pf : PoolFlags) (pgCnt : ℕ) : MemProg Word := do
  let runningThread ← read MemState.running
  let p := vaddrPool pf runningThread
  label (.scan p)
  let bitIdxStart ← bitmapScanAt p 0 pgCnt
  if bitIdxStart = -1 then do
    label (.noRange p)
    return 0
  else do
    let idx := (BitVec.ofInt 32 bitIdxStart).toNat
    bitmapSetRun p idx pgCnt
    let addrBase ← read fun s => (s.pool p).addrBase
    label (.range p idx pgCnt)
    return addrBase + BitVec.ofInt 32 bitIdxStart * 4096

def pteVaddrGet (vaddr : Word) : Word :=
  (0xffc00000 : Word) + ((vaddr &&& 0xffc00000) >>> 10) + ((vaddr &&& 0x003ff000) >>> 12) * 4

def pdeVaddrGet (vaddr : Word) : Word :=
  (0xfffff000 : Word) + ((vaddr &&& 0xffc00000) >>> 22) * 4

def paddrGet (memPool : PoolId) : MemProg Word := do
  label (.scan memPool)
  let bitIdx ← bitmapScanAt memPool 0 1
  if bitIdx = -1 then do
    label (.noFrame memPool)
    return 0
  else do
    bitmapSetAt memPool (BitVec.ofInt 32 bitIdx).toNat
    let addrBase ← read fun s => (s.pool memPool).addrBase
    let pagePhyaddr := BitVec.ofInt 32 bitIdx * 4096 + addrBase
    label (.frame memPool pagePhyaddr)
    return pagePhyaddr

def loadAt (vaddr : Word) : MemProg Word := readOr (fun s => loadWord s.phys s.cr3 vaddr) .pageFault

def storeAt (vaddr w : Word) : MemProg Unit :=
  modifyOr (fun s => (storeWord s.phys s.cr3 vaddr w).map fun m => { s with phys := m }) .pageFault

/-- `memset(page, 0, PG_SIZE)`. -/
def clearPage (page : Word) : MemProg Unit :=
  modifyOr (fun s => (translate s.phys s.cr3 page).map fun f =>
    { s with phys := Function.update s.phys f fun _ => 0 }) .pageFault

/-- `addr | PG_US_U | PG_RW_W | PG_P_1`. -/
def entryOf (paddr : Word) : Word := paddr ||| 4 ||| 2 ||| 1

def v2pMapping (vaddr paddr : Word) : MemProg Unit := do
  label (.map vaddr paddr)
  let pde := pdeVaddrGet vaddr
  let pte := pteVaddrGet vaddr
  let pdeVal ← loadAt pde
  if pdeVal &&& 1 ≠ 0 then do
    -- the assertion, then the test of the `if`
    let pteVal ← loadAt pte
    if pteVal &&& 1 ≠ 0 then .stop .panic
    else do
      let pteVal ← loadAt pte
      if pteVal &&& 1 ≠ 0 then .stop .panic else storeAt pte (entryOf paddr)
  else do
    let ptPaddr ← paddrGet .kernelPhy
    storeAt pde (entryOf ptPaddr)
    clearPage (pte &&& 0xfffff000)
    let pteVal ← loadAt pte
    if pteVal &&& 1 ≠ 0 then .stop .panic else storeAt pte (entryOf paddr)

/-- The loop of `malloc_page` with `cnt` pages left. -/
def mallocPages (phyPool : PoolId) (vaddrStart : Word) : ℕ → Word → MemProg Word
  | 0, _ => return vaddrStart
  | cnt + 1, vaddr => do
    let paddrStart ← paddrGet phyPool
    if paddrStart = 0 then return 0
    else do
      v2pMapping vaddr paddrStart
      mallocPages phyPool vaddrStart cnt (vaddr + 4096)

def mallocPage (pf : PoolFlags) (pgCnt : ℕ) : MemProg Word :=
  if 0 < pgCnt ∧ pgCnt < 3840 then do
    let vaddrStart ← vaddrGet pf pgCnt
    if vaddrStart = 0 then return 0
    else mallocPages (phyPool pf) vaddrStart pgCnt vaddrStart
  else .stop .panic

/-- `sem_down` lets no one past while the value is 0. -/
def mutexLockAt (p : PoolId) : MemProg Unit :=
  await fun s => match semDown (s.pool p).mtx.sem s.running with
    | .taken sem => some (s.setMtx p ⟨some s.running, sem⟩)
    | .sleep _ => none

def mutexUnlockAt (p : PoolId) : MemProg Unit :=
  modifyOr (fun s => (mutexUnlock (s.pool p).mtx).map fun m => s.setMtx p m.1) .panic

def kernelPagesMalloc (pgCnt : ℕ) : MemProg Word := mallocPage .kernel pgCnt

def userPagesMalloc (pgCnt : ℕ) : MemProg Word := do
  mutexLockAt .userPhy
  let vaddr ← mallocPage .user pgCnt
  mutexUnlockAt .userPhy
  return vaddr

/-- The bit `target_vaddr_malloc` sets in the map of pool `p`; it need not be one of the map. -/
def MemState.targetBit (s : MemState) (p : PoolId) (vaddr : Word) : ℕ :=
  ((vaddr - (s.pool p).addrBase) / 4096).toNat

def targetReserve (p : PoolId) (vaddr : Word) : MemProg Unit := do
  let bitIdx ← read fun s => s.targetBit p vaddr
  label (.claim p bitIdx)
  bitmapSetAt p bitIdx
  label (.range p bitIdx 1)

/-- `target_vaddr_malloc` after the pool `p` of the virtual page is chosen. -/
def targetMalloc (memPool p : PoolId) (vaddr : Word) : MemProg Word := do
  targetReserve p vaddr
  let pagePhyAddr ← paddrGet memPool
  if pagePhyAddr = 0 then return 0
  else do
    v2pMapping vaddr pagePhyAddr
    mutexUnlockAt memPool
    return vaddr

def targetVaddrMalloc (pf : PoolFlags) (vaddr : Word) : MemProg Word := do
  let runningThread ← read MemState.running
  let memPool := phyPool pf
  mutexLockAt memPool
  let pgDir ← read fun s => s.pgDir runningThread
  if pgDir ≠ 0 ∧ pf = .user then targetMalloc memPool (.userVir runningThread) vaddr
  else if pgDir = 0 ∧ pf = .kernel then targetMalloc memPool .kernelVir vaddr
  else .stop .panic

def addrV2p (vaddr : Word) : MemProg Word := do
  let pte ← loadAt (pteVaddrGet vaddr)
  return (pte &&& 0xfffff000) + (vaddr &&& 0xfff)

end Pages

section Process

/-- The tcb page `thread_init` clears, as far as memory management reads it; `memset` asserts
that there is one. -/
def threadInit (task : ℕ) : MemProg Unit :=
  if task = 0 then .stop .panic
  else modify fun s => { s with
    pool := Function.update s.pool (.userVir task)
      { btmp := { s.btmp (.userVir task) with bitNum := 0, byteLen := 0 }
        btmpBase := 0
        addrBase := 0
        poolSize := 0
        mtx := ⟨none, semInit 0⟩ }
    pgDir := Function.update s.pgDir task 0 }

/-- With no page for the map, the `memset` of `bitmap_init` is given NULL, which it asserts it is
not. -/
def userVaddrBitmapCreate (task : ℕ) : MemProg Unit := do
  let userFreePagesNum : Word := (0xc0000000 - userVaddrStart) / 4096
  let bitmapPagesNeed : Word := (userFreePagesNum / 8 + 1) / 4096 + 1
  let base ← kernelPagesMalloc bitmapPagesNeed.toNat
  if base = 0 then .stop .panic
  else modify fun s => { s with
    pool := Function.update s.pool (.userVir task)
      { s.pool (.userVir task) with
        btmp := bitmapInit (s.btmp (.userVir task)).bytes userFreePagesNum.toNat
        btmpBase := base
        addrBase := userVaddrStart } }

/-- `memcpy` of the kernel's entries: slots 768 to 1023 of one page to another. -/
def copyKernelEntries (src dst : Word) : MemProg Unit :=
  modifyOr (fun s => do
    let f ← translate s.phys s.cr3 src
    let g ← translate s.phys s.cr3 dst
    return { s with phys := Function.update s.phys g fun i =>
      if 768 ≤ i.toNat then s.phys f i else s.phys g i }) .pageFault

def pageDirCreate : MemProg Word := do
  let pageDirVaddr ← kernelPagesMalloc 1
  if pageDirVaddr = 0 then return 0
  else do
    copyKernelEntries 0xfffff000 pageDirVaddr
    let pageDirPhyAddr ← addrV2p pageDirVaddr
    storeAt (pageDirVaddr + 1023 * 4) (entryOf pageDirPhyAddr)
    return pageDirVaddr

/-- `process_run` up to the ready queue. -/
def processRunMemory : MemProg Word := do
  let task ← kernelPagesMalloc 1
  threadInit task.toNat
  userVaddrBitmapCreate task.toNat
  let pgDir ← pageDirCreate
  modify fun s => { s with pgDir := Function.update s.pgDir task.toNat pgDir }
  return task

/-- `process_activate` for the thread `main_schedule` switches to. -/
def processActivate (thread : ℕ) : MemProg Unit := do
  let pgDir ← read fun s => s.pgDir thread
  if pgDir ≠ 0 then do
    let pageDirPhyAddr ← addrV2p pgDir
    modify fun s => { s with running := thread, cr3 := frameOf pageDirPhyAddr }
  else modify fun s => { s with running := thread, cr3 := frameOf pageDirStartAddr }

end Process

end OsI386
