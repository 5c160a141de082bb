import Mathlib

/-!
# An ATA drive behind its ports

`READ SECTORS` in PIO mode with 28-bit sector numbers. A drive is busy for some reads of its ports
before each sector of a command, the first one included, and its data port has no data then.
-/
namespace Ata

abbrev Byte := BitVec 8

/-- The bytes on a drive, the number of reads for which it is busy before a sector of a command, the
word on its data port when there is no data, and the bits of its status besides `BSY` and `DRQ`. -/
structure Medium where
  byte : ℕ → Byte
  wait : ℕ → ℕ
  idle : BitVec 16
  other : Byte

/-- The registers, and the command: its first sector, the words it has given and those left. -/
structure Drive where
  count : Byte
  lbaLow : Byte
  lbaMid : Byte
  lbaHigh : Byte
  device : Byte
  first : ℕ
  given : ℕ
  left : ℕ
  busy : ℕ

variable (x : Medium)

def Medium.word (p : ℕ) : BitVec 16 := x.byte (p + 1) ++ x.byte p

/-- How long the drive is busy when it has given `given` words and `left` are left. -/
def Medium.pause (given left : ℕ) : ℕ :=
  if given % 256 = 0 ∧ left ≠ 0 then x.wait (given / 256) else 0

namespace Drive

/-- Bits 24 to 27 are in the device register. -/
def lba (d : Drive) : ℕ :=
  d.lbaLow.toNat + 2 ^ 8 * d.lbaMid.toNat + 2 ^ 16 * d.lbaHigh.toNat +
    2 ^ 24 * (d.device &&& 0x0f).toNat

/-- A count of 0 stands for 256 sectors. -/
def readSectors (d : Drive) : Drive :=
  let left := 256 * (if d.count = 0 then 256 else d.count.toNat)
  { d with first := d.lba, given := 0, left := left, busy := x.pause 0 left }

def out (d : Drive) (port : BitVec 16) (b : Byte) : Drive :=
  if port = 0x1f2 then { d with count := b }
  else if port = 0x1f3 then { d with lbaLow := b }
  else if port = 0x1f4 then { d with lbaMid := b }
  else if port = 0x1f5 then { d with lbaHigh := b }
  else if port = 0x1f6 then { d with device := b }
  else if port = 0x1f7 ∧ b = 0x20 then d.readSectors x
  else d

/-- `BSY` is bit 7 and `DRQ` bit 3. -/
def status (d : Drive) : Byte × Drive :=
  if 0 < d.busy then (x.other &&& 0x77 ||| 0x80, { d with busy := d.busy - 1 })
  else if d.left = 0 then (x.other &&& 0x77, d)
  else (x.other &&& 0x77 ||| 0x08, d)

def data (d : Drive) : BitVec 16 × Drive :=
  if 0 < d.busy then (x.idle, { d with busy := d.busy - 1 })
  else if d.left = 0 then (x.idle, d)
  else (x.word (512 * d.first + 2 * d.given),
    { d with
      given := d.given + 1
      left := d.left - 1
      busy := x.pause (d.given + 1) (d.left - 1) })

/-- The words of `n` reads of the data port. -/
def read (d : Drive) : ℕ → List (BitVec 16)
  | 0 => []
  | n + 1 => (d.data x).1 :: read (d.data x).2 n

/-- The drive has taken the command for `n` sectors from `first` on. -/
def Commanded (d : Drive) (first n : ℕ) : Prop := d.first = first ∧ d.given = 0 ∧ d.left = 256 * n

end Drive

/-- What the data port has for the `left` words behind the first `given` ones of a command. -/
def Medium.words (first : ℕ) : ℕ → ℕ → List (BitVec 16)
  | _, 0 => []
  | given, left + 1 => x.word (512 * first + 2 * given) ::
      (List.replicate (x.pause (given + 1) left) x.idle ++ words first (given + 1) left)

section Reads

variable {x} {d : Drive} {first given left n k : ℕ}

/-- What the data port still has. -/
def Drive.pending (x : Medium) (d : Drive) : List (BitVec 16) :=
  List.replicate d.busy x.idle ++ x.words d.first d.given d.left

/-- One read takes the first word, if there is one. -/
lemma pending_data (d : Drive) : (d.pending x = (d.data x).1 :: (d.data x).2.pending x) ∨
    d.pending x = [] ∧ (d.data x).1 = x.idle ∧ (d.data x).2 = d := by
  unfold Drive.pending Drive.data
  by_cases hbusy : 0 < d.busy
  · obtain ⟨b, hb⟩ : ∃ b, d.busy = b + 1 := ⟨d.busy - 1, by omega⟩
    left
    rw [if_pos hbusy, hb, List.replicate_succ]
    rfl
  · have hzero : d.busy = 0 := by omega
    rw [if_neg hbusy, hzero]
    cases hleft : d.left with
    | zero => exact .inr ⟨rfl, rfl, rfl⟩
    | succ left => exact .inl rfl

/-- The words read are those pending, and idle ones behind them. -/
lemma read_eq (d : Drive) (n : ℕ) :
    d.read x n = (d.pending x ++ List.replicate n x.idle).take n := by
  induction n generalizing d with
  | zero => rfl
  | succ n ih =>
    rw [Drive.read, ih]
    rcases pending_data (x := x) d with hcons | ⟨hnil, hidle, hsame⟩
    · have hlen : n ≤ ((d.data x).2.pending x ++ List.replicate n x.idle).length := by simp
      rw [hcons, List.cons_append, List.take_succ_cons, List.replicate_succ',
        ← List.append_assoc, List.take_append_of_le_length hlen]
    · rw [hnil, hidle, hsame, hnil, List.replicate_succ]
      rfl

lemma length_read (d : Drive) (n : ℕ) : (d.read x n).length = n := by
  induction n generalizing d with
  | zero => rfl
  | succ n ih => rw [Drive.read, List.length_cons, ih]

/-- Without pauses the words of the sectors come one after another. -/
lemma words_of_ready (hready : ∀ j, given < 256 * j → 256 * j < given + left → x.wait j = 0) :
    x.words first given left =
      (List.range left).map fun g => x.word (512 * first + 2 * (given + g)) := by
  induction left generalizing given with
  | zero => rfl
  | succ left ih =>
    have hpause : x.pause (given + 1) left = 0 := by
      unfold Medium.pause
      split_ifs with h
      · exact hready _ (by omega) (by omega)
      · rfl
    have hready' : ∀ j, given + 1 < 256 * j → 256 * j < given + 1 + left → x.wait j = 0 :=
      fun j hj hj' => hready j (by omega) (by omega)
    have hrest := ih hready'
    rw [Medium.words, hpause, hrest, List.range_succ_eq_map, List.map_cons, List.map_map]
    refine congrArg₂ _ rfl ?_
    refine List.map_congr_left fun g _ => ?_
    rw [Function.comp_apply, Nat.succ_eq_add_one, add_assoc, add_comm 1 g]

/-- The first pause puts an idle word where the next sector should start. -/
lemma words_pause (hk : given < 256 * k) (hleft : 256 * k < given + left) (hwait : x.wait k ≠ 0)
    (hready : ∀ j, given < 256 * j → j < k → x.wait j = 0) :
    (x.words first given left)[256 * k - given]? = some x.idle := by
  induction left generalizing given with
  | zero => omega
  | succ left ih =>
    obtain ⟨i, hi⟩ : ∃ i, 256 * k - given = i + 1 := ⟨256 * k - given - 1, by omega⟩
    rw [Medium.words, hi, List.getElem?_cons_succ]
    by_cases hnow : given + 1 = 256 * k
    · have hpause : x.pause (given + 1) left = x.wait k := by
        unfold Medium.pause
        rw [hnow, if_pos ⟨by omega, by omega⟩, Nat.mul_div_cancel_left k (by norm_num)]
      have hzero : i = 0 := by omega
      obtain ⟨w, hw⟩ : ∃ w, x.wait k = w + 1 := ⟨x.wait k - 1, by omega⟩
      rw [hpause, hw, hzero]
      rfl
    · have hpause : x.pause (given + 1) left = 0 := by
        unfold Medium.pause
        split_ifs with h
        · exact hready _ (by omega) (by omega)
        · rfl
      have hk' : given + 1 < 256 * k := by omega
      have hleft' : 256 * k < given + 1 + left := by omega
      have hrest := ih hk' hleft' fun j hj hj' => hready j (by omega) hj'
      have hsub : 256 * k - (given + 1) = i := by omega
      rw [hsub] at hrest
      rw [hpause]
      exact hrest

/-- The words of `n` sectors. -/
def Medium.sectors (x : Medium) (first n : ℕ) : List (BitVec 16) :=
  (List.range (256 * n)).map fun g => x.word (512 * first + 2 * g)

/-- No pause between the sectors of a command. -/
def Medium.Steady (x : Medium) (n : ℕ) : Prop := ∀ k, 0 < k → k < n → x.wait k = 0

variable (h : d.Commanded first n) (hbusy : d.busy = 0)

include h hbusy

lemma read_of_steady (hsteady : x.Steady n) : d.read x (256 * n) = x.sectors first n := by
  obtain ⟨hfirst, hgiven, hleft⟩ := h
  have hwords : x.words first 0 (256 * n) =
      (List.range (256 * n)).map fun g => x.word (512 * first + 2 * (0 + g)) :=
    words_of_ready fun j hj hj' => hsteady j (by omega) (by omega)
  rw [read_eq, Drive.pending, hfirst, hgiven, hleft, hbusy, hwords, List.replicate_zero,
    List.nil_append, List.take_append_of_le_length (by simp), List.take_of_length_le (by simp)]
  exact List.map_congr_left fun g _ => by rw [zero_add]

/-- At the first pause the reader gets what is no word of the drive. -/
lemma read_of_pause (hk : k < n) (hpos : 0 < k) (hwait : x.wait k ≠ 0)
    (hfirst : ∀ j, 0 < j → j < k → x.wait j = 0) :
    (d.read x (256 * n))[256 * k]? = some x.idle := by
  obtain ⟨hfirst', hgiven, hleft⟩ := h
  have hword : (x.words first 0 (256 * n))[256 * k - 0]? = some x.idle :=
    words_pause (by omega) (by omega) hwait fun j hj hj' => hfirst j (by omega) hj'
  rw [Nat.sub_zero] at hword
  have hlen := (List.getElem?_eq_some_iff.mp hword).1
  rw [read_eq, Drive.pending, hfirst', hgiven, hleft, hbusy, List.replicate_zero, List.nil_append,
    List.getElem?_take_of_lt (by omega), List.getElem?_append_left hlen]
  exact hword

end Reads

section Polling

variable {x} {d : Drive} {first n : ℕ}

/-- A drive that has data to give says so in its status as soon as it is not busy. -/
lemma status_ready (h : d.Commanded first n) (hn : 0 < n) :
    (d.status x).1 &&& 0x88 = (if d.busy = 0 then 0x08 else 0x80) ∧
      (d.status x).2 = { d with busy := d.busy - 1 } := by
  have hother : ∀ b : Byte, (b &&& 0x77 ||| 0x80) &&& 0x88 = 0x80 ∧
      (b &&& 0x77 ||| 0x08) &&& 0x88 = 0x08 := by decide
  have hleft : d.left ≠ 0 := by
    rw [h.2.2]
    omega
  unfold Drive.status
  by_cases hbusy : d.busy = 0
  · have hsame : { d with busy := d.busy - 1 } = d := by
      cases d
      cases hbusy
      rfl
    rw [if_neg (by omega), if_neg hleft, if_pos hbusy, hsame]
    exact ⟨(hother x.other).2, rfl⟩
  · rw [if_pos (by omega), if_neg hbusy]
    exact ⟨(hother x.other).1, rfl⟩

end Polling

end Ata
