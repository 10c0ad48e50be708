import Mathlib.Data.List.Basic
import Mathlib.Data.Int.Init
import Mathlib.Algebra.Group.Int.Defs
import Mathlib.Algebra.Group.Nat.Defs
import Mathlib.Algebra.GroupWithZero.Nat
import Mathlib.Algebra.Ring.Int.Defs

/-!
# Byte memory

A memory gives each address a byte. Addresses are integers, so that a
pointer difference, and a pointer that arithmetic on a wrong size has moved
before a buffer, can be written down. `store m p bs` is
`memcpy(p, bs, bs.length)`, and `read m p n` the `n` bytes from `p`.

* `read_store_self`: reading back what was stored gives it;
* `read_store_of_le`, `read_store_of_ge`: a store leaves the bytes before and
  after it alone;
* `read_add`: a read splits at any length, so that a buffer filled in parts
  reads as their concatenation (`read_store_append`), and a part of a read is
  a read (`take_read`, `drop_read`).

`memmove` and `memchr` are a store of what is read and a search of it.

A memory of bytes holds words: `readWord m p n` is the little-endian number
spelled by the `n` bytes from `p`, and storing `toBytes v n` writes `v` there
(`readWord_store_self`). `read_store_inside` reads a part of a store, such
as a word inside a `memset`.
-/

/-- A memory of `α`s. -/
abbrev Mem (α : Type*) := ℤ → α

namespace Mem

variable {α : Type*} (m : Mem α)

/-- `memcpy(p, bs, bs.length)`. -/
def store (p : ℤ) (bs : List α) : Mem α := fun a =>
  if p ≤ a ∧ a < p + bs.length then bs.getD (a - p).toNat (m a) else m a

/-- The `n` bytes from `p`. -/
def read (p : ℤ) (n : ℕ) : List α := (List.range n).map fun i : ℕ => m (p + i)

@[simp] theorem length_read (p : ℤ) (n : ℕ) : (m.read p n).length = n := by
  simp [read]

@[simp] theorem read_zero (p : ℤ) : m.read p 0 = [] := rfl

theorem read_add (p : ℤ) (n k : ℕ) : m.read p (n + k) = m.read p n ++ m.read (p + n) k := by
  simp only [read, List.range_add, List.map_append, List.map_map]
  congr 2
  funext i
  simp only [Function.comp]
  congr 1
  omega

/-- Two memories that agree on `n` bytes read the same there. -/
theorem read_congr {m' : Mem α} {p : ℤ} {n : ℕ} (h : ∀ i < n, m (p + i) = m' (p + i)) :
    m.read p n = m'.read p n := by
  simp only [read]
  exact List.map_congr_left fun i hi => h i (List.mem_range.mp hi)

theorem store_of_not_mem {p a : ℤ} {bs : List α} (h : a < p ∨ p + bs.length ≤ a) :
    m.store p bs a = m a := by
  rw [store, if_neg]
  omega

/-- Reading the first `k` bytes stored gives them. -/
theorem read_store_take (p : ℤ) (bs : List α) {k : ℕ} (hk : k ≤ bs.length) :
    (m.store p bs).read p k = bs.take k := by
  apply List.ext_getElem (by simp [hk])
  intro i hi hi'
  simp only [read, List.getElem_map, List.getElem_range, store, List.getElem_take]
  simp only [length_read] at hi
  rw [if_pos (by omega), show (p + i - p).toNat = i by omega, List.getD_eq_getElem?_getD,
    List.getElem?_eq_getElem (by omega)]
  rfl

theorem read_store_self (p : ℤ) (bs : List α) : (m.store p bs).read p bs.length = bs := by
  rw [read_store_take _ _ _ (Nat.le_refl _), List.take_length]

theorem read_store_of_le {p q : ℤ} {n : ℕ} (bs : List α) (h : q + n ≤ p) :
    (m.store p bs).read q n = m.read q n :=
  read_congr _ fun i hi => m.store_of_not_mem (Or.inl (by omega))

theorem read_store_of_ge {p q : ℤ} {n : ℕ} {bs : List α} (h : p + bs.length ≤ q) :
    (m.store p bs).read q n = m.read q n :=
  read_congr _ fun i _ => m.store_of_not_mem (Or.inr (by omega))

/-- Storing right after `n` bytes extends them by what is stored. -/
theorem read_store_append (q : ℤ) (n : ℕ) (bs : List α) {k : ℕ} (hk : k ≤ bs.length) :
    (m.store (q + n) bs).read q (n + k) = m.read q n ++ bs.take k := by
  rw [read_add, read_store_of_le _ _ (Int.le_refl _), read_store_take _ _ _ hk]

theorem take_read (p : ℤ) {n k : ℕ} (hk : k ≤ n) : (m.read p n).take k = m.read p k := by
  obtain ⟨d, rfl⟩ := Nat.exists_eq_add_of_le hk
  rw [read_add, List.take_left' (length_read _ _ _)]

theorem drop_read (p : ℤ) {n k : ℕ} (hk : k ≤ n) : (m.read p n).drop k = m.read (p + k) (n - k) := by
  obtain ⟨d, rfl⟩ := Nat.exists_eq_add_of_le hk
  rw [read_add, List.drop_left' (length_read _ _ _), Nat.add_sub_cancel_left]

/-- `memmove(d, s, n)`: the bytes are read before any is written, so the two
    ranges may overlap. -/
def memmove (d s : ℤ) (n : ℕ) : Mem α := m.store d (m.read s n)

theorem read_memmove (d s : ℤ) (n : ℕ) : (m.memmove d s n).read d n = m.read s n := by
  simpa only [memmove, length_read] using read_store_self m d (m.read s n)

/-- `memchr(p, c, n)`: the offset from `p` of the first `c` among the `n`
    bytes there. -/
def memchr [BEq α] (p : ℤ) (c : α) (n : ℕ) : Option ℕ := (m.read p n).idxOf? c

/-- A part of a store reads as that part of what was stored. -/
theorem read_store_inside {p q : ℤ} {k : ℕ} (bs : List α) (hpq : p ≤ q) (hk : q + k ≤ p + bs.length) :
    (m.store p bs).read q k = (bs.drop (q - p).toNat).take k := by
  obtain ⟨d, rfl⟩ : ∃ d : ℕ, q = p + d := ⟨(q - p).toNat, by omega⟩
  have hdrop := drop_read (m.store p bs) p (Nat.le_add_right d k)
  rw [Nat.add_sub_cancel_left] at hdrop
  rw [show (p + d - p).toNat = d by omega, ← hdrop, read_store_take _ _ _ (by omega), List.drop_take,
    Nat.add_sub_cancel_left]

/-! ## Words -/

/-- The little-endian number the bytes spell. -/
def ofBytes : List UInt8 → ℕ
  | [] => 0
  | b :: bs => b.toNat + 256 * ofBytes bs

/-- The `n` little-endian bytes of `v`, which drop what is above `256 ^ n`. -/
def toBytes (v : ℕ) : ℕ → List UInt8
  | 0 => []
  | n + 1 => UInt8.ofNat v :: toBytes (v / 256) n

@[simp]
theorem length_toBytes (v n : ℕ) : (toBytes v n).length = n := by
  induction n generalizing v with
  | zero => rfl
  | succ n ih => simp [toBytes, ih]

theorem ofBytes_toBytes (v n : ℕ) : ofBytes (toBytes v n) = v % 256 ^ n := by
  induction n generalizing v with
  | zero => simp [toBytes, ofBytes, Nat.mod_one]
  | succ n ih =>
    rw [toBytes, ofBytes, ih, Nat.pow_succ', Nat.mod_mul]
    simp

/-- The word of `n` bytes at `p`. -/
def readWord (m : Mem UInt8) (p : ℤ) (n : ℕ) : ℕ := ofBytes (m.read p n)

theorem readWord_store_self (m : Mem UInt8) (p : ℤ) (v n : ℕ) :
    readWord (m.store p (toBytes v n)) p n = v % 256 ^ n := by
  have hread := read_store_self m p (toBytes v n)
  rw [length_toBytes] at hread
  rw [readWord, hread, ofBytes_toBytes]

end Mem
