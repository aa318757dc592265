import Mathlib.Algebra.Group.Nat.Defs
import Mathlib.Data.List.Induction

/-! # Byte-addressed memory, words and descending stacks

The memory of a 32-bit little-endian machine is a function from addresses to bytes. Addresses wrap, so a
range of bytes is given by its first address and its length, and membership is the distance
`x - base`, read as a number; none of the laws below needs the range to end before `2 ^ 32`.

* `Region` — a range of addresses as an array has it, and when two of them are `Apart`.
* `Memory.store`, `Memory.load` — one word, four bytes, lowest byte first.
* `Memory.Holds m a ws` — the words `ws` lie in memory from `a` upwards.
* `Memory.storeAll` — stores at ascending addresses, as a store-multiple instruction makes them.
* `DescStack.push`, `DescStack.pushAll` — a full descending stack, `*(--sp) = v`. What has been pushed
  is held upwards from the stack pointer, latest word first (`holds_pushAll`), and nothing but the bytes
  between the two stack pointers has changed (`pushAll_mem_of_not_inRange`). -/

namespace Lib

/-- A machine word, and an address. -/
abbrev Word := BitVec 32

/-! ## Masks -/

/-- Clearing the bits of a mask subtracts what the mask selects. -/
theorem toNat_and_not {w : ℕ} (x mask : BitVec w) :
    (x &&& ~~~mask).toNat = x.toNat - (x &&& mask).toNat := by
  have hdisj : (x &&& ~~~mask) &&& (x &&& mask) = 0#w := by
    apply BitVec.eq_of_getLsbD_eq
    intro i hi
    simp only [BitVec.getLsbD_and, BitVec.getLsbD_not, BitVec.getLsbD_zero]
    grind
  -- the two parts have no bit in common, so their sum is their union
  have hsum : (x &&& ~~~mask) + (x &&& mask) = x := by
    rw [BitVec.add_eq_or_of_and_eq_zero _ _ hdisj]
    apply BitVec.eq_of_getLsbD_eq
    intro i hi
    simp only [BitVec.getLsbD_or, BitVec.getLsbD_and, BitVec.getLsbD_not]
    grind
  have hadd := BitVec.toNat_add_of_and_eq_zero hdisj
  rw [hsum] at hadd
  omega

/-- Rounding an address down to eight bytes. -/
theorem toNat_and_not_seven (x : Word) : (x &&& ~~~7).toNat = x.toNat - x.toNat % 8 := by
  rw [toNat_and_not, BitVec.toNat_and, show (7 : Word).toNat = 2 ^ 3 - 1 from rfl,
    Nat.and_two_pow_sub_one_eq_mod]

/-- Bit 2 of an address: whether it is in the upper half of its eight bytes. -/
theorem getLsbD_two (x : Word) : x.getLsbD 2 = decide (x.toNat / 4 % 2 = 1) := by
  rw [← BitVec.testBit_toNat, Nat.testBit_eq_decide_div_mod_eq]

/-- Selecting bit 2. -/
theorem and_four (x : Word) : x &&& 4 = if x.toNat / 4 % 2 = 1 then 4 else 0 := by
  have h := BitVec.and_twoPow x 2
  simp only [getLsbD_two, decide_eq_true_eq] at h
  exact h

/-! ## Ranges of addresses -/

/-- `x` is one of the `n` addresses from `base` upwards, modulo the address space. -/
def InRange (base : Word) (n : ℕ) (x : Word) : Prop := (x - base).toNat < n

instance (base : Word) (n : ℕ) (x : Word) : Decidable (InRange base n x) :=
  inferInstanceAs (Decidable (_ < _))

/-- A range that ends inside the address space is an interval. -/
theorem inRange_iff {base : Word} {n : ℕ} (h : base.toNat + n ≤ 2 ^ 32) {x : Word} :
    InRange base n x ↔ base.toNat ≤ x.toNat ∧ x.toNat < base.toNat + n := by
  unfold InRange
  bv_omega

/-- A word inside a range: the part of a range after its first `k` words is a range. -/
theorem InRange.drop {base x : Word} {k n : ℕ}
    (h : InRange (base + BitVec.ofNat 32 (4 * k)) (4 * n) x) : InRange base (4 * (k + n)) x := by
  unfold InRange at *
  bv_omega

/-- The first bytes of a range are in the range. -/
theorem InRange.take {base x : Word} {k n : ℕ} (hkn : k ≤ n) (h : InRange base k x) :
    InRange base n x :=
  Nat.lt_of_lt_of_le h hkn

/-- What comes after the first `k` words is not among them. -/
theorem InRange.not_take {base x : Word} {k n : ℕ} (hn : 4 * (k + n) ≤ 2 ^ 32)
    (h : InRange (base + BitVec.ofNat 32 (4 * k)) (4 * n) x) : ¬ InRange base (4 * k) x := by
  unfold InRange at *
  bv_omega

/-! ## Regions -/

/-- **A region of memory**, such as an array the linker has placed: its first address and its size, as
numbers. -/
structure Region where
  base : ℕ
  size : ℕ
  deriving DecidableEq, Repr

namespace Region

/-- The address after the last one. -/
def stop (r : Region) : ℕ := r.base + r.size

/-- `x` is an address of the region. -/
def Contains (r : Region) (x : Word) : Prop := r.base ≤ x.toNat ∧ x.toNat < r.stop

instance (r : Region) (x : Word) : Decidable (r.Contains x) := inferInstanceAs (Decidable (_ ∧ _))

/-- The regions have no address in common: one ends before the other begins. -/
def Apart (r r' : Region) : Prop := r.stop ≤ r'.base ∨ r'.stop ≤ r.base

instance (r r' : Region) : Decidable (r.Apart r') := inferInstanceAs (Decidable (_ ∨ _))

theorem Apart.symm {r r' : Region} (h : r.Apart r') : r'.Apart r := Or.symm h

/-- An address of one region is not an address of the other. -/
theorem Apart.not_contains {r r' : Region} (h : r.Apart r') {x : Word} (hx : r.Contains x) :
    ¬ r'.Contains x := by
  unfold Apart Contains at *
  omega

end Region

/-! ## Words in memory -/

/-- **Memory** of a 32-bit machine, one byte an address. -/
abbrev Memory := Word → BitVec 8

namespace Memory

/-- Byte `i` of a word, byte 0 the lowest. -/
def byteOf (v : Word) (i : ℕ) : BitVec 8 := v.extractLsb' (8 * i) 8

/-- Store a word at `a`, lowest byte first. -/
def store (m : Memory) (a v : Word) : Memory :=
  fun x => if InRange a 4 x then byteOf v (x - a).toNat else m x

/-- Load the word at `a`. -/
def load (m : Memory) (a : Word) : Word := m (a + 3) ++ m (a + 2) ++ m (a + 1) ++ m a

/-- The four bytes of a word make up the word. -/
theorem byteOf_append (v : Word) : byteOf v 3 ++ byteOf v 2 ++ byteOf v 1 ++ byteOf v 0 = v := by
  apply BitVec.eq_of_getLsbD_eq
  intro i hi
  simp only [byteOf, BitVec.getLsbD_append, BitVec.getLsbD_extractLsb']
  grind

/-- A store leaves every other byte alone. -/
theorem store_of_not_inRange (m : Memory) {a x : Word} (v : Word) (h : ¬ InRange a 4 x) :
    m.store a v x = m x :=
  if_neg h

/-- Byte `i` of the word just stored. -/
theorem store_byte (m : Memory) (a v : Word) {i : Word} (hi : i.toNat < 4) :
    m.store a v (a + i) = byteOf v i.toNat := by
  have hd : a + i - a = i := by bv_omega
  unfold store
  rw [if_pos (show InRange a 4 (a + i) by rwa [InRange, hd]), hd]

/-- **What is stored is loaded.** -/
@[simp] theorem load_store (m : Memory) (a v : Word) : (m.store a v).load a = v := by
  have h0 : m.store a v a = byteOf v 0 := by
    simpa using m.store_byte a v (show (0 : Word).toNat < 4 by decide)
  rw [load, h0, m.store_byte a v (i := 1) (by decide), m.store_byte a v (i := 2) (by decide),
    m.store_byte a v (i := 3) (by decide)]
  exact byteOf_append v

/-- A load looks at the four bytes of its word only. -/
theorem load_congr {m m' : Memory} {a : Word} (h : ∀ x, InRange a 4 x → m' x = m x) :
    m'.load a = m.load a := by
  have hbyte : ∀ i : Word, i.toNat < 4 → m' (a + i) = m (a + i) := fun i hi =>
    h _ (by unfold InRange; bv_omega)
  have h0 : m' a = m a := by simpa using hbyte 0 (by decide)
  rw [load, load, h0, hbyte 1 (by decide), hbyte 2 (by decide), hbyte 3 (by decide)]

/-! ## Lists of words -/

/-- The words `ws` lie in memory from address `a` upwards. -/
def Holds (m : Memory) : Word → List Word → Prop
  | _, [] => True
  | a, w :: ws => m.load a = w ∧ Holds m (a + 4) ws

@[simp] theorem holds_nil (m : Memory) (a : Word) : m.Holds a [] := trivial

/-- The first word lies at `a`, the others from the next word on. -/
theorem holds_cons {m : Memory} {a w : Word} {ws : List Word} :
    m.Holds a (w :: ws) ↔ m.load a = w ∧ m.Holds (a + 4) ws :=
  Iff.rfl

/-- Two lists one after the other. -/
theorem holds_append {m : Memory} {a : Word} {vs ws : List Word} :
    m.Holds a (vs ++ ws) ↔ m.Holds a vs ∧ m.Holds (a + BitVec.ofNat 32 (4 * vs.length)) ws := by
  induction vs generalizing a with
  | nil => simp
  | cons v vs ih =>
      have haddr : a + 4 + BitVec.ofNat 32 (4 * vs.length) =
          a + BitVec.ofNat 32 (4 * (v :: vs).length) := by
        rw [List.length_cons]
        bv_omega
      rw [List.cons_append, holds_cons, holds_cons, ih, haddr, and_assoc]

/-- **Words stay in memory** as long as their bytes do. -/
theorem Holds.congr {m m' : Memory} {a : Word} {ws : List Word} (h : m.Holds a ws)
    (heq : ∀ x, InRange a (4 * ws.length) x → m' x = m x) : m'.Holds a ws := by
  induction ws generalizing a with
  | nil => exact holds_nil m' a
  | cons w ws ih =>
      rw [List.length_cons, Nat.add_comm] at heq
      refine ⟨?_, ih h.2 fun x hx => heq x (InRange.drop hx)⟩
      rw [← h.1]
      exact load_congr fun x hx => heq x (hx.take (by omega))

/-- Store words at ascending addresses. -/
def storeAll (m : Memory) : Word → List Word → Memory
  | _, [] => m
  | a, w :: ws => (m.store a w).storeAll (a + 4) ws

/-- The first word goes to `a`, the others to the words above. -/
theorem storeAll_cons (m : Memory) (a w : Word) (ws : List Word) :
    m.storeAll a (w :: ws) = (m.store a w).storeAll (a + 4) ws :=
  rfl

/-- Storing words leaves every byte outside their range alone. -/
theorem storeAll_of_not_inRange {m : Memory} {a x : Word} {ws : List Word}
    (h : ¬ InRange a (4 * ws.length) x) : m.storeAll a ws x = m x := by
  induction ws generalizing m a with
  | nil => rfl
  | cons w ws ih =>
      rw [List.length_cons, Nat.add_comm] at h
      have hhead : ¬ InRange a 4 x := fun hx => h (hx.take (by omega))
      have htail : ¬ InRange (a + 4) (4 * ws.length) x := fun hx => h (InRange.drop hx)
      rw [storeAll_cons, ih htail, store_of_not_inRange m w hhead]

/-- **Words stored one after the other are held.** The later stores lie above the first. -/
theorem holds_storeAll (m : Memory) {a : Word} {ws : List Word} (hlen : 4 * ws.length ≤ 2 ^ 32) :
    (m.storeAll a ws).Holds a ws := by
  induction ws generalizing m a with
  | nil => exact holds_nil _ a
  | cons w ws ih =>
      rw [List.length_cons] at hlen
      rw [storeAll_cons]
      refine ⟨Eq.trans ?_ (m.load_store a w), ih (m.store a w) (by omega)⟩
      refine load_congr fun x hx => storeAll_of_not_inRange fun htail => ?_
      exact InRange.not_take (k := 1) (n := ws.length) (by omega) htail hx

end Memory

/-! ## Descending stacks -/

/-- A full descending stack: the stack pointer is at the latest word. -/
structure DescStack where
  mem : Memory
  sp : Word

namespace DescStack

/-- `*(--sp) = v`. -/
def push (v : Word) (s : DescStack) : DescStack := ⟨s.mem.store (s.sp - 4) v, s.sp - 4⟩

/-- The word just pushed lies right below the earlier ones. -/
theorem push_sp_add (v : Word) (s : DescStack) : (s.push v).sp + 4 = s.sp := by
  show s.sp - 4 + 4 = s.sp
  bv_omega

/-- Push words in the order of the list. -/
def pushAll (vs : List Word) (s : DescStack) : DescStack := vs.foldl (fun s v => s.push v) s

/-- The word pushed last comes last. -/
theorem pushAll_concat (vs : List Word) (v : Word) (s : DescStack) :
    s.pushAll (vs ++ [v]) = (s.pushAll vs).push v := by
  rw [pushAll, List.foldl_append]
  rfl

/-- Each push takes the stack pointer down by a word. -/
theorem pushAll_sp (vs : List Word) (s : DescStack) :
    (s.pushAll vs).sp = s.sp - BitVec.ofNat 32 (4 * vs.length) := by
  induction vs using List.reverseRecOn with
  | nil => simp [pushAll]
  | append_singleton vs v ih =>
      rw [pushAll_concat, push, ih, List.length_append, List.length_singleton]
      bv_omega

/-- **Pushing leaves the bytes outside the pushed words alone.** -/
theorem pushAll_mem_of_not_inRange (vs : List Word) {s : DescStack} {x : Word}
    (h : ¬ InRange (s.pushAll vs).sp (4 * vs.length) x) : (s.pushAll vs).mem x = s.mem x := by
  induction vs using List.reverseRecOn with
  | nil => rfl
  | append_singleton vs v ih =>
      rw [pushAll_concat] at h ⊢
      rw [List.length_append, List.length_singleton, Nat.add_comm] at h
      -- the latest word is at the bottom of the range, the earlier ones follow upwards
      have hlast : ¬ InRange ((s.pushAll vs).sp - 4) 4 x := fun hx => h (hx.take (by omega))
      have hrest : ¬ InRange (s.pushAll vs).sp (4 * vs.length) x := fun hx =>
        h (InRange.drop ((push_sp_add v (s.pushAll vs)).symm ▸ hx))
      rw [← ih hrest]
      exact Memory.store_of_not_inRange _ v hlast

/-- **What has been pushed is held** from the stack pointer upwards, latest word first. -/
theorem holds_pushAll (vs : List Word) (s : DescStack) (hlen : 4 * vs.length ≤ 2 ^ 32) :
    (s.pushAll vs).mem.Holds (s.pushAll vs).sp vs.reverse := by
  induction vs using List.reverseRecOn with
  | nil => exact Memory.holds_nil _ _
  | append_singleton vs v ih =>
      rw [pushAll_concat, List.reverse_append, List.reverse_singleton, List.singleton_append]
      rw [List.length_append, List.length_singleton] at hlen
      refine ⟨Memory.load_store _ _ v, ?_⟩
      rw [push_sp_add]
      -- the earlier words lie above the one pushed last
      refine (ih (by omega)).congr fun x hx => Memory.store_of_not_inRange _ v ?_
      rw [List.length_reverse] at hx
      exact InRange.not_take (k := 1) (n := vs.length) (by omega)
        ((push_sp_add v (s.pushAll vs)).symm ▸ hx)

end DescStack

end Lib
