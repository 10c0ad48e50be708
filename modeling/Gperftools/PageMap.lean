import Gperftools.Lib.Scan
import Gperftools.Lib.Word
import Mathlib.Logic.Function.Basic

/-!
# Page maps

The page heap keeps the span of every page in `pagemap_`, a radix tree over
the page numbers below `2 ^ BITS` (pagemap.h): `TCMalloc_PageMap2` with two
levels, `TCMalloc_PageMap3` with three. Before a key is set, `Ensure` must
have allocated the nodes on its path, with memory from an allocator that can
fail. What such a tree is for is a flat map from keys to values, the one
`TCMalloc_PageMap1` keeps in an array: `get` reads it, `set` writes it, and
`Next(k)` is its first value at or after `k` (`flatNext`).

This module states that once for both trees. A tree is an `Impl`: its
`get`, `set` and `Ensure`, and the keys whose nodes exist (`covered`);
`Impl.Lawful` are the laws that make it a flat map. From them:

* `Impl.run_get`: along a run of `Ensure`s and `set`s in which every `set` is
  on a key that an earlier successful `Ensure` covered, and no `Ensure`
  range wraps around `2 ^ 64`, no `set` writes through a missing node, and
  `get(k)` is the last value set for `k` (`lastSet`);
* `Impl.IsFlatMap`: all that a tree with its `Next` must do to be the flat
  map of the keys below `2 ^ bits`.
-/

namespace Gperftools.PageMap

variable {σ α : Type}

/-- `Next(k)` of the flat map `f` of `2 ^ bits` keys: its first value at or
    after `k` (the loop of `TCMalloc_PageMap1::Next`). -/
def flatNext (bits : ℕ) (f : ℕ → Option α) (k : ℕ) : Option α := scanFrom f (2 ^ bits - k) k

/-- `start + n - 1`, the last key of `Ensure(start, n)`, as a `uintptr_t`. -/
def lastKey (start n : ℕ) : ℕ := Word.sub 64 (Word.add 64 start n) 1

theorem lastKey_lt (start n : ℕ) : lastKey start n < 2 ^ 64 := Word.sub_lt

/-- Away from the wrap, the last key of a range is `start + n - 1`. -/
theorem lastKey_eq {start n : ℕ} (h1 : 1 ≤ start + n) (h2 : start + n ≤ 2 ^ 64) :
    lastKey start n = start + n - 1 := by
  unfold lastKey
  rcases Nat.lt_or_ge (start + n) (2 ^ 64) with hlt | heq
  · rw [Word.add_of_lt hlt, Word.sub_of_le h1 hlt]
  · -- `start + n = 2 ^ 64` wraps to 0, and 0 - 1 back to `2 ^ 64 - 1`
    have : Word.add 64 start n = 0 := by
      unfold Word.add
      rw [show start + n = 2 ^ 64 by omega, Nat.mod_self]
    rw [this]
    unfold Word.sub
    rw [show start + n = 2 ^ 64 by omega]
    decide

/-- A range that ends past `2 ^ bits` without wrapping around has its last
    key from `2 ^ bits` on, and not before its start. -/
theorem le_lastKey {bits start n : ℕ} (hn : 1 ≤ n) (hbits : 2 ^ bits < start + n)
    (hwrap : start + n ≤ 2 ^ 64) : 2 ^ bits ≤ lastKey start n ∧ start ≤ lastKey start n := by
  rw [lastKey_eq (by omega) hwrap]
  omega

/-- A map read through leaves of `2 ^ L` keys: below `2 ^ bits`, the value
    of `k` is the value at `k % 2 ^ L` of the leaf `k / 2 ^ L`, if that leaf
    exists. -/
def ReadsLeaves (g : ℕ → Option α) (leafAt : ℕ → Option (ℕ → Option α)) (bits L : ℕ) : Prop :=
  ∀ k, k < 2 ^ bits → g k = (leafAt (k / 2 ^ L)).bind fun leaf => leaf (k % 2 ^ L)

/-- A scan of the keys of a leaf from `k` on is a scan of the leaf, or finds
    nothing if the leaf is missing. -/
theorem ReadsLeaves.scanFrom_eq {g : ℕ → Option α} {leafAt : ℕ → Option (ℕ → Option α)}
    {bits L : ℕ} (h : ReadsLeaves g leafAt bits L) {k : ℕ}
    (hk : (k / 2 ^ L + 1) * 2 ^ L ≤ 2 ^ bits) :
    scanFrom g (2 ^ L - k % 2 ^ L) k =
      (leafAt (k / 2 ^ L)).bind fun leaf => scanFrom leaf (2 ^ L - k % 2 ^ L) (k % 2 ^ L) := by
  have hpos := Nat.two_pow_pos L
  have hmod := Nat.mod_lt k hpos
  have hk' : k = k % 2 ^ L + k / 2 ^ L * 2 ^ L := by rw [Nat.mod_add_div']
  -- the keys of the leaf, `j + k / 2 ^ L * 2 ^ L` for `j` from `k % 2 ^ L` on
  have hkey : ∀ j, j < 2 ^ L → (j + k / 2 ^ L * 2 ^ L) / 2 ^ L = k / 2 ^ L ∧
      (j + k / 2 ^ L * 2 ^ L) % 2 ^ L = j ∧ j + k / 2 ^ L * 2 ^ L < 2 ^ bits := by
    intro j hj
    refine ⟨?_, by rw [Nat.add_mul_mod_self_right, Nat.mod_eq_of_lt hj], ?_⟩
    · rw [Nat.add_mul_div_right _ _ hpos, Nat.div_eq_of_lt hj, Nat.zero_add]
    · rw [Nat.succ_mul] at hk
      omega
  generalize hn : 2 ^ L - k % 2 ^ L = n
  conv_lhs => rw [hk']
  rw [← scanFrom_shift]
  cases hleaf : leafAt (k / 2 ^ L) with
  | none =>
    refine scanFrom_eq_none_iff.2 fun j hj1 hj2 => ?_
    obtain ⟨hdiv, -, hlt⟩ := hkey j (by omega)
    rw [h _ hlt, hdiv, hleaf]
    rfl
  | some leaf =>
    refine scanFrom_congr fun j hj1 hj2 => ?_
    obtain ⟨hdiv, hmod', hlt⟩ := hkey j (by omega)
    rw [h _ hlt, hdiv, hleaf, hmod']
    rfl

/-- A scan of the map from `k` up to `2 ^ bits` is a scan of the leaf of `k`
    from `k` on, then one from the first key of the next leaf: a round of the
    loop of `Next`. -/
theorem ReadsLeaves.scanFrom_eq_or {g : ℕ → Option α} {leafAt : ℕ → Option (ℕ → Option α)}
    {bits L : ℕ} (h : ReadsLeaves g leafAt bits L) {k : ℕ}
    (hk : (k / 2 ^ L + 1) * 2 ^ L ≤ 2 ^ bits) :
    scanFrom g (2 ^ bits - k) k =
      ((leafAt (k / 2 ^ L)).bind fun leaf => scanFrom leaf (2 ^ L - k % 2 ^ L) (k % 2 ^ L)).or
        (scanFrom g (2 ^ bits - (k / 2 ^ L + 1) * 2 ^ L) ((k / 2 ^ L + 1) * 2 ^ L)) := by
  have hlt : k < (k / 2 ^ L + 1) * 2 ^ L := by
    rw [Nat.succ_mul]
    exact Nat.lt_div_mul_add (Nat.two_pow_pos L)
  have hlen : (k / 2 ^ L + 1) * 2 ^ L - k = 2 ^ L - k % 2 ^ L := by
    have := Nat.mod_add_div' k (2 ^ L)
    rw [Nat.succ_mul]
    omega
  rw [scanFrom_sub_split hlt.le hk, hlen, h.scanFrom_eq hk]

/-- The calls that change a page map. -/
inductive Op (α : Type)
  | ensure (start n : ℕ)
  | set (k : ℕ) (v : Option α)

/-- The last values that the calls set, over the values of `f`. -/
def lastSet (f : ℕ → Option α) : List (Op α) → ℕ → Option α
  | [] => f
  | .ensure _ _ :: ops => lastSet f ops
  | .set k v :: ops => lastSet (Function.update f k v) ops

/-- No `Ensure` range of the calls wraps around `2 ^ 64`. -/
def NoWrap (ops : List (Op α)) : Prop := ∀ start n, Op.ensure start n ∈ ops → start + n ≤ 2 ^ 64

/-- A page map: its state, its calls, and the keys whose nodes exist. `set`
    is `none` where the code writes through a missing node. -/
structure Impl (σ α : Type) where
  get : σ → ℕ → Option α
  set : σ → ℕ → Option α → Option σ
  ensure : σ → ℕ → ℕ → σ × Bool
  covered : σ → ℕ → Prop

namespace Impl

variable (impl : Impl σ α)

/-- Performs the calls in order; `none` once a `set` writes through a
    missing node. -/
def run : σ → List (Op α) → Option σ
  | m, [] => some m
  | m, .ensure start n :: ops => run (impl.ensure m start n).1 ops
  | m, .set k v :: ops => (impl.set m k v).bind fun m => run m ops

/-- Every `set` of the calls is on a key in the range of an earlier `Ensure`
    that returned `true`; `K` holds the keys covered so far. -/
def SetsEnsured : σ → (ℕ → Prop) → List (Op α) → Prop
  | _, _, [] => True
  | m, K, .ensure start n :: ops =>
    SetsEnsured (impl.ensure m start n).1
      (fun k => K k ∨ ((impl.ensure m start n).2 = true ∧ start ≤ k ∧ k < start + n)) ops
  | m, K, .set k v :: ops => K k ∧ ∀ m', impl.set m k v = some m' → SetsEnsured m' K ops

/-- The laws that make a tree a flat map: `Ensure` changes no value and
    keeps the nodes there are, a successful `Ensure` makes the nodes of its
    range, and a `set` on a key whose node exists writes that key alone. -/
structure Lawful : Prop where
  get_ensure : ∀ m start n k, impl.get (impl.ensure m start n).1 k = impl.get m k
  covered_ensure : ∀ m start n k, impl.covered m k → impl.covered (impl.ensure m start n).1 k
  covered_of_ensure : ∀ m start n k, start + n ≤ 2 ^ 64 → (impl.ensure m start n).2 = true →
    start ≤ k → k < start + n → impl.covered (impl.ensure m start n).1 k
  set_of_covered : ∀ m k v, impl.covered m k → ∃ m', impl.set m k v = some m' ∧
    (∀ k', impl.get m' k' = Function.update (impl.get m) k v k') ∧
    ∀ k', impl.covered m k' → impl.covered m' k'

variable {impl}

/-- Along a run whose `set`s are on keys covered by earlier successful
    `Ensure`s, with no range wrapping around, no `set` writes through a
    missing node and every key holds the last value set for it: by induction
    on the calls, with the keys covered so far all having their nodes. -/
theorem run_get (hl : impl.Lawful) (ops : List (Op α)) (m : σ) (K : ℕ → Prop)
    (hK : ∀ k, K k → impl.covered m k) (hs : impl.SetsEnsured m K ops) (hw : NoWrap ops) :
    ∃ m', impl.run m ops = some m' ∧ ∀ k, impl.get m' k = lastSet (impl.get m) ops k := by
  induction ops generalizing m K with
  | nil => exact ⟨m, rfl, fun _ => rfl⟩
  | cons op ops ih =>
    have hw' : NoWrap ops := fun start n h => hw start n (List.mem_cons_of_mem _ h)
    cases op with
    | ensure start n =>
      -- the keys covered before stay covered, and the range is covered if `Ensure` worked
      have hK' : ∀ k, (K k ∨ ((impl.ensure m start n).2 = true ∧ start ≤ k ∧ k < start + n)) →
          impl.covered (impl.ensure m start n).1 k := by
        rintro k (hk | ⟨hok, h1, h2⟩)
        · exact hl.covered_ensure m start n k (hK k hk)
        · exact hl.covered_of_ensure m start n k (hw start n List.mem_cons_self) hok h1 h2
      obtain ⟨m', hrun, hget⟩ := ih _ _ hK' hs hw'
      refine ⟨m', hrun, fun k => ?_⟩
      rw [hget]
      have : impl.get (impl.ensure m start n).1 = impl.get m := funext (hl.get_ensure m start n)
      rw [this]
      rfl
    | set k v =>
      obtain ⟨hk, hs⟩ := hs
      obtain ⟨m'', hset, hget'', hcov''⟩ := hl.set_of_covered m k v (hK k hk)
      obtain ⟨m', hrun, hget⟩ := ih m'' K (fun k' hk' => hcov'' k' (hK k' hk')) (hs m'' hset) hw'
      refine ⟨m', ?_, fun k' => ?_⟩
      · simp only [run, hset, Option.bind_some, hrun]
      · rw [hget, funext hget'']
        rfl

/-- A page map of the keys below `2 ^ bits`, with its `Next`, is the flat
    map: along every run whose `set`s are on covered keys and whose ranges do
    not wrap around, every key holds the last value set for it; no key from
    `2 ^ bits` on holds a value; `Ensure` changes no value, covers its range
    when it works, and fails on a range that ends past `2 ^ bits` without
    wrapping around; and `Next(k)` is the first value at or after `k`. -/
structure IsFlatMap (impl : Impl σ α) (next : σ → ℕ → Option α) (bits : ℕ) : Prop where
  run_get : ∀ ops m (K : ℕ → Prop), (∀ k, K k → impl.covered m k) → impl.SetsEnsured m K ops →
    NoWrap ops → ∃ m', impl.run m ops = some m' ∧ ∀ k, impl.get m' k = lastSet (impl.get m) ops k
  get_of_le : ∀ m k, 2 ^ bits ≤ k → impl.get m k = none
  get_ensure : ∀ m start n k, impl.get (impl.ensure m start n).1 k = impl.get m k
  covered_of_ensure : ∀ m start n k, start + n ≤ 2 ^ 64 → (impl.ensure m start n).2 = true →
    start ≤ k → k < start + n → impl.covered (impl.ensure m start n).1 k
  ensure_eq_false : ∀ m start n, 1 ≤ n → 2 ^ bits < start + n → start + n ≤ 2 ^ 64 →
    (impl.ensure m start n).2 = false
  next_eq : ∀ m k, next m k = flatNext bits (impl.get m) k

end Impl

end Gperftools.PageMap
