import Mathlib

/-!
# Circular buffers with one free cell

Two indices below `n` delimit the occupied cells of a buffer: `tail` is the oldest one
and `head` the first free one, so equal indices mean empty and at most `n - 1` cells
are occupied. Stale cells are unrestricted.
-/
namespace OsI386.RingBuffer

variable {α : Type*} {n tail head : ℕ}

/-- Number of cells from `tail` up to `head`. -/
def count (n tail head : ℕ) : ℕ := (head + n - tail) % n

/-- The cells from `tail` up to `head`, oldest first. -/
def cells (buf : ℕ → α) (n tail head : ℕ) : List α :=
  (List.range (count n tail head)).map fun i => buf ((tail + i) % n)

@[simp] lemma length_cells (buf : ℕ → α) : (cells buf n tail head).length = count n tail head := by
  simp [cells]

lemma index_eq {i : ℕ} (ht : tail < n) (hi : i < n) :
    (tail + i) % n = if tail + i < n then tail + i else tail + i - n := by
  split
  · rename_i h
    exact Nat.mod_eq_of_lt h
  · rw [Nat.mod_eq_sub_mod (by omega), Nat.mod_eq_of_lt (by omega)]

lemma next_lt (hn : 0 < n) : (tail + 1) % n < n := Nat.mod_lt _ hn

lemma next_eq (ht : tail < n) : (tail + 1) % n = if tail + 1 = n then 0 else tail + 1 := by
  split
  · rename_i h
    simp [h]
  · exact Nat.mod_eq_of_lt (by omega)

lemma count_eq (ht : tail < n) (hh : head < n) :
    count n tail head = if tail ≤ head then head - tail else head + n - tail := by
  unfold count
  split
  · rename_i h
    have hsplit : head + n - tail = head - tail + n := by omega
    rw [hsplit, Nat.add_mod_right, Nat.mod_eq_of_lt (by omega)]
  · exact Nat.mod_eq_of_lt (by omega)

lemma count_lt (hn : 0 < n) : count n tail head < n := Nat.mod_lt _ hn

lemma count_eq_zero (ht : tail < n) (hh : head < n) : count n tail head = 0 ↔ head = tail := by
  rw [count_eq ht hh]
  split <;> omega

lemma count_push (ht : tail < n) (hh : head < n) (hroom : (head + 1) % n ≠ tail) :
    count n tail ((head + 1) % n) = count n tail head + 1 := by
  rw [count_eq ht (next_lt (by omega)), count_eq ht hh]
  rw [next_eq hh] at hroom ⊢
  split_ifs at hroom ⊢ <;> omega

lemma count_pop (ht : tail < n) (hh : head < n) (hne : head ≠ tail) :
    count n ((tail + 1) % n) head + 1 = count n tail head := by
  rw [count_eq (next_lt (by omega)) hh, count_eq ht hh, next_eq ht]
  split_ifs <;> omega

/-- Writing at `head` and advancing it appends one cell. -/
theorem cells_push (buf : ℕ → α) (b : α) (ht : tail < n) (hh : head < n)
    (hroom : (head + 1) % n ≠ tail) :
    cells (Function.update buf head b) n tail ((head + 1) % n) = cells buf n tail head ++ [b] := by
  have hc := count_eq ht hh
  have hlt : count n tail head < n := count_lt (by omega)
  have hnew : (tail + count n tail head) % n = head := by
    rw [index_eq ht hlt, hc]
    split_ifs <;> omega
  rw [cells, count_push ht hh hroom, List.range_succ, List.map_append, List.map_singleton, hnew,
    Function.update_self]
  congr 1
  apply List.map_congr_left
  intro i hi
  have hin := List.mem_range.mp hi
  have hne : (tail + i) % n ≠ head := by
    rw [index_eq ht (by omega)]
    split_ifs at hc ⊢ <;> omega
  rw [Function.update_of_ne hne]

/-- Advancing `tail` drops the oldest cell. -/
theorem cells_pop (buf : ℕ → α) (ht : tail < n) (hh : head < n) (hne : head ≠ tail) :
    cells buf n tail head = buf tail :: cells buf n ((tail + 1) % n) head := by
  have hc := count_pop ht hh hne
  have hlt : count n tail head < n := count_lt (by omega)
  rw [cells, ← hc, List.range_succ_eq_map, List.map_cons, List.map_map, Nat.add_zero,
    Nat.mod_eq_of_lt ht]
  congr 1
  apply List.map_congr_left
  intro i _
  have hstep : (tail + 1) % n + i ≡ tail + (i + 1) [MOD n] := by
    rw [show tail + (i + 1) = tail + 1 + i by omega]
    exact Nat.ModEq.add_right i (Nat.mod_modEq _ _)
  exact congrArg buf hstep.symm

end OsI386.RingBuffer
