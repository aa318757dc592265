import Mathlib.Data.List.Nodup
import Mathlib.Data.Nat.ModEq
import Mathlib.Logic.Function.Basic

/-! # Ring buffers with separate head, tail and count

A bounded FIFO kept in an array of `n` cells with three registers: `head` (oldest cell), `tail` (next
free cell) and `count`. The registers are machine integers of modulus `w` (`256` for a `uint8_t`), so
every assignment is reduced modulo `w`; the cells hold values of an arbitrary type.

* `RingBuffer.WF n` — the register invariant `tail = (head + count) % n`, `count ≤ n`.
* `RingBuffer.toList n` — the FIFO a ring stands for, oldest entry first.
* `toList_put`, `toList_drop` — storing appends to that list, dropping removes its head; both keep
  `WF`, provided the registers are wide enough (`n ≤ w`, and one more for a full ring to be counted). -/

namespace Lib

variable {α : Type*}

/-- The cells and the three registers of a ring buffer. Cells at index `n` and above are never
addressed by a ring of size `n`. -/
structure RingBuffer (α : Type*) where
  /-- The backing array. -/
  buf : ℕ → α
  /-- Index of the oldest entry. -/
  head : ℕ
  /-- Index the next entry is stored at. -/
  tail : ℕ
  /-- Number of entries. -/
  count : ℕ

namespace RingBuffer

/-- The FIFO held by a ring of `n` cells, oldest entry first. -/
def toList (n : ℕ) (r : RingBuffer α) : List α :=
  (List.range r.count).map fun i => r.buf ((r.head + i) % n)

/-- **Register invariant** of a ring of `n` cells. -/
structure WF (n : ℕ) (r : RingBuffer α) : Prop where
  head_lt : r.head < n
  tail_eq : r.tail = (r.head + r.count) % n
  count_le : r.count ≤ n

instance (n : ℕ) (r : RingBuffer α) : Decidable (r.WF n) :=
  decidable_of_iff (r.head < n ∧ r.tail = (r.head + r.count) % n ∧ r.count ≤ n)
    ⟨fun ⟨hh, ht, hc⟩ => ⟨hh, ht, hc⟩, fun ⟨hh, ht, hc⟩ => ⟨hh, ht, hc⟩⟩

/-- Store `x` at the tail and advance, with registers of modulus `w`. -/
def put (w n : ℕ) (x : α) (r : RingBuffer α) : RingBuffer α :=
  { r with
    buf := Function.update r.buf r.tail x
    tail := (r.tail + 1) % n % w
    count := (r.count + 1) % w }

/-- Advance the head past the oldest entry, with registers of modulus `w`. -/
def drop (w n : ℕ) (r : RingBuffer α) : RingBuffer α :=
  { r with
    head := (r.head + 1) % n % w
    count := r.count - 1 }

/-- Append `x` unless the ring is full; a full ring is left alone. -/
def push (w n : ℕ) (x : α) (r : RingBuffer α) : RingBuffer α :=
  if n ≤ r.count then r else r.put w n x

/-- Remove the oldest entry, if there is one. -/
def pop (w n : ℕ) (r : RingBuffer α) : Option α × RingBuffer α :=
  if r.count = 0 then (none, r) else (some (r.buf r.head), r.drop w n)

/-! ## The list view -/

/-- The list view has as many entries as the count register says. -/
@[simp] theorem length_toList (n : ℕ) (r : RingBuffer α) : (r.toList n).length = r.count := by
  simp [toList]

/-- A ring is empty exactly when its count register is zero. -/
theorem toList_eq_nil_iff {n : ℕ} {r : RingBuffer α} : r.toList n = [] ↔ r.count = 0 := by
  rw [← List.length_eq_zero_iff, length_toList]

/-- A ring whose registers are all zero is well formed, whatever its cells hold. -/
theorem WF.zero {n : ℕ} (hn : 0 < n) (buf : ℕ → α) : WF n ⟨buf, 0, 0, 0⟩ :=
  ⟨hn, by simp, Nat.zero_le n⟩

/-- A ring whose count is zero stands for the empty FIFO. -/
@[simp] theorem toList_zero (n : ℕ) (buf : ℕ → α) (h t : ℕ) :
    toList n ⟨buf, h, t, 0⟩ = [] := by simp [toList]

/-- Two offsets less than one revolution apart address different cells. -/
theorem index_ne {h i c n : ℕ} (hi : i < c) (hc : c < n) : (h + i) % n ≠ (h + c) % n := by
  intro heq
  have hmod : i ≡ c [MOD n] := Nat.ModEq.add_left_cancel' h heq
  exact hi.ne (hmod.eq_of_lt_of_lt (hi.trans hc) hc)

/-! ## Storing -/

/-- Storing into a ring that is not full keeps the register invariant, provided that the registers can
hold the next index and the new count. -/
theorem WF.put_of_index {w n : ℕ} {r : RingBuffer α} (h : r.WF n) (hw : (r.tail + 1) % n < w)
    (hc : r.count < n) (hcw : r.count + 1 < w) (x : α) : (r.put w n x).WF n := by
  have htail : (r.tail + 1) % n % w = (r.tail + 1) % n := Nat.mod_eq_of_lt hw
  have hcount : (r.count + 1) % w = r.count + 1 := Nat.mod_eq_of_lt hcw
  refine ⟨h.head_lt, ?_, ?_⟩
  · simp only [RingBuffer.put, htail, hcount]
    rw [h.tail_eq, Nat.mod_add_mod, Nat.add_assoc]
  · simp only [RingBuffer.put, hcount]; omega

/-- Storing into a ring that is not full keeps the register invariant, provided that the registers can
hold every index and the new count. -/
theorem WF.put_of_count {w n : ℕ} {r : RingBuffer α} (h : r.WF n) (hw : n ≤ w) (hc : r.count < n)
    (hcw : r.count + 1 < w) (x : α) : (r.put w n x).WF n :=
  h.put_of_index (lt_of_lt_of_le (Nat.mod_lt _ (by omega)) hw) hc hcw x

/-- Storing into a ring that is not full keeps the register invariant. -/
theorem WF.put {w n : ℕ} {r : RingBuffer α} (h : r.WF n) (hw : n < w) (hc : r.count < n) (x : α) :
    (r.put w n x).WF n :=
  h.put_of_count hw.le hc (by omega) x

/-- Storing adds its argument at the end of the FIFO, provided that the count register can hold the new
count. -/
theorem toList_put_of_count {w n : ℕ} {r : RingBuffer α} (h : r.WF n) (hc : r.count < n)
    (hcw : r.count + 1 < w) (x : α) : (r.put w n x).toList n = r.toList n ++ [x] := by
  have hcount : (r.count + 1) % w = r.count + 1 := Nat.mod_eq_of_lt hcw
  simp only [toList, RingBuffer.put, hcount, List.range_succ, List.map_append, List.map_cons,
    List.map_nil]
  congr 1
  · -- the occupied cells are all different from the one written
    refine List.map_congr_left fun i hi => ?_
    rw [Function.update_of_ne]
    rw [h.tail_eq]
    exact index_ne (List.mem_range.mp hi) hc
  · rw [h.tail_eq, Function.update_self]

/-- **Storing appends**: into a ring that is not full, `put` adds its argument at the end of the
FIFO. -/
theorem toList_put {w n : ℕ} {r : RingBuffer α} (h : r.WF n) (hw : n < w) (hc : r.count < n)
    (x : α) : (r.put w n x).toList n = r.toList n ++ [x] :=
  toList_put_of_count h hc (by omega) x

/-! ## Dropping -/

/-- Dropping from a non-empty ring keeps the register invariant, provided that the register can hold the
next index. -/
theorem WF.drop_of_index {w n : ℕ} {r : RingBuffer α} (h : r.WF n) (hw : (r.head + 1) % n < w)
    (hc : r.count ≠ 0) : (r.drop w n).WF n := by
  have hn : 0 < n := lt_of_le_of_lt (Nat.zero_le _) h.head_lt
  have hhead : (r.head + 1) % n % w = (r.head + 1) % n := Nat.mod_eq_of_lt hw
  have hle := h.count_le
  refine ⟨?_, ?_, ?_⟩
  · simp only [RingBuffer.drop, hhead]; exact Nat.mod_lt _ hn
  · simp only [RingBuffer.drop, hhead]
    rw [h.tail_eq, Nat.mod_add_mod]
    congr 1
    omega
  · simp only [RingBuffer.drop]; omega

/-- Dropping from a non-empty ring keeps the register invariant. -/
theorem WF.drop {w n : ℕ} {r : RingBuffer α} (h : r.WF n) (hw : n ≤ w) (hc : r.count ≠ 0) :
    (r.drop w n).WF n :=
  h.drop_of_index (lt_of_lt_of_le (Nat.mod_lt _ (Nat.zero_lt_of_lt h.head_lt)) hw) hc

/-- Dropping removes the head, provided that the register can hold the next index. -/
theorem toList_drop_of_index {w n : ℕ} {r : RingBuffer α} (h : r.WF n) (hw : (r.head + 1) % n < w)
    (hc : r.count ≠ 0) : r.toList n = r.buf r.head :: (r.drop w n).toList n := by
  have hhead : (r.head + 1) % n % w = (r.head + 1) % n := Nat.mod_eq_of_lt hw
  obtain ⟨c, hcs⟩ := Nat.exists_eq_succ_of_ne_zero hc
  simp only [toList, RingBuffer.drop, hhead, hcs, Nat.succ_eq_add_one, List.range_succ_eq_map,
    List.map_cons, List.map_map, Nat.add_zero, Nat.mod_eq_of_lt h.head_lt, Nat.add_sub_cancel]
  congr 1
  refine List.map_congr_left fun i _ => ?_
  simp only [Function.comp_apply, Nat.mod_add_mod]
  congr 2
  omega

/-- **Dropping removes the head**: a non-empty ring stands for its head cell followed by what is left
after `drop`. -/
theorem toList_drop {w n : ℕ} {r : RingBuffer α} (h : r.WF n) (hw : n ≤ w) (hc : r.count ≠ 0) :
    r.toList n = r.buf r.head :: (r.drop w n).toList n :=
  toList_drop_of_index h (lt_of_lt_of_le (Nat.mod_lt _ (Nat.zero_lt_of_lt h.head_lt)) hw) hc

/-! ## Bounded push and pop -/

/-- `push` keeps the register invariant, full or not. -/
theorem WF.push {w n : ℕ} {r : RingBuffer α} (h : r.WF n) (hw : n < w) (x : α) :
    (r.push w n x).WF n := by
  unfold RingBuffer.push
  split
  · exact h
  · exact h.put hw (by omega) x

/-- `push` appends while there is room. -/
theorem toList_push_of_lt {w n : ℕ} {r : RingBuffer α} (h : r.WF n) (hw : n < w)
    (hc : r.count < n) (x : α) : (r.push w n x).toList n = r.toList n ++ [x] := by
  rw [RingBuffer.push, if_neg (by omega), toList_put h hw hc]

/-- Whatever the occupancy, `push` only ever adds its argument: every entry afterwards was there
before or is the pushed one. -/
theorem mem_toList_push {w n : ℕ} {r : RingBuffer α} (h : r.WF n) (hw : n < w) {x y : α}
    (hy : y ∈ (r.push w n x).toList n) : y ∈ r.toList n ∨ y = x := by
  by_cases hc : r.count < n
  · rw [toList_push_of_lt h hw hc] at hy
    simpa using hy
  · rw [RingBuffer.push, if_pos (by omega)] at hy
    exact Or.inl hy

/-- `pop` keeps the register invariant, empty or not. -/
theorem WF.pop {w n : ℕ} {r : RingBuffer α} (h : r.WF n) (hw : n ≤ w) : (r.pop w n).2.WF n := by
  unfold RingBuffer.pop
  split
  · exact h
  · exact h.drop hw ‹_›

/-- **`pop` is the FIFO pop**: it returns the head of the list view and leaves its tail. -/
theorem pop_spec {w n : ℕ} {r : RingBuffer α} (h : r.WF n) (hw : n ≤ w) :
    (r.pop w n).1 = (r.toList n).head? ∧ (r.pop w n).2.toList n = (r.toList n).tail := by
  unfold RingBuffer.pop
  split
  · rename_i hc
    rw [toList_eq_nil_iff.mpr hc]
    exact ⟨rfl, rfl⟩
  · rename_i hc
    rw [toList_drop h hw hc]
    exact ⟨rfl, rfl⟩

/-- A successful `pop` splits the FIFO into the returned entry and the rest. -/
theorem toList_of_pop_some {w n : ℕ} {r : RingBuffer α} (h : r.WF n) (hw : n ≤ w) {x : α}
    (hp : (r.pop w n).1 = some x) : r.toList n = x :: (r.pop w n).2.toList n := by
  obtain ⟨h1, h2⟩ := pop_spec h hw
  rw [h1] at hp
  rw [h2, List.head?_eq_some_iff.mp hp |>.choose_spec]
  rfl

/-- `pop` returns nothing exactly on an empty ring, and then leaves it alone. -/
theorem pop_eq_none_iff {w n : ℕ} {r : RingBuffer α} :
    (r.pop w n).1 = none ↔ r.count = 0 := by
  unfold RingBuffer.pop
  split <;> simp_all

/-- Popping an empty ring leaves it alone. -/
theorem pop_snd_of_none {w n : ℕ} {r : RingBuffer α} (h : (r.pop w n).1 = none) :
    (r.pop w n).2 = r := by
  rw [RingBuffer.pop, if_pos (pop_eq_none_iff.mp h)]

/-! ## Cells beyond the ring -/

/-- The next entry is stored at a cell of the ring. -/
theorem WF.tail_lt {n : ℕ} {r : RingBuffer α} (h : r.WF n) : r.tail < n := by
  rw [h.tail_eq]
  exact Nat.mod_lt _ (Nat.zero_lt_of_lt h.head_lt)

/-- Storing an entry touches no cell beyond the ring. -/
theorem WF.put_buf {w n m : ℕ} {r : RingBuffer α} (h : r.WF n) (hm : n ≤ m) (x : α) :
    (r.put w n x).buf m = r.buf m := by
  have hne : m ≠ r.tail := by
    have hlt := h.tail_lt
    omega
  exact Function.update_of_ne hne x r.buf

/-- A push touches no cell beyond the ring. -/
theorem WF.push_buf {w n m : ℕ} {r : RingBuffer α} (h : r.WF n) (hm : n ≤ m) (x : α) :
    (r.push w n x).buf m = r.buf m := by
  unfold RingBuffer.push
  split
  · rfl
  · exact h.put_buf hm x

/-- A pop touches no cell. -/
theorem pop_buf (w n : ℕ) (r : RingBuffer α) : (r.pop w n).2.buf = r.buf := by
  unfold RingBuffer.pop
  split <;> rfl

end RingBuffer

end Lib
