import Gperftools.PageMap

/-!
# The two-level page map

`TCMalloc_PageMap2<BITS>` splits a key into a root index, its high
`ROOT_BITS = BITS - LEAF_BITS` bits, and a leaf index, its low
`LEAF_BITS = ⌈BITS / 2⌉` bits. `root_` holds a pointer to a leaf of
`2 ^ LEAF_BITS` values, or `nullptr` until `Ensure` allocates it. The
allocator is an oracle: `alloc i` says whether its `i`-th call finds memory.
The loops are recursions over the leaves left, at most `2 ^ ROOT_BITS + 1`:
each round moves to the next root index, and the round at the root index
`2 ^ ROOT_BITS` ends the loop.

* `lawful`: the tree is a lawful page map (`PageMap.Impl.Lawful`);
* `next_eq_flatNext`: `Next(k)`, which skips the missing leaves and scans
  the others, is the first value of the flat map at or after `k`;
* `ensure_eq_true`: with an allocator that never fails, `Ensure(start, n)`
  works when `1 ≤ n` and `start + n ≤ 2 ^ BITS`;
* `ensure_eq_false`: whatever the allocator, `Ensure` fails once its last key
  `start + n - 1`, as a `uintptr_t`, reaches `2 ^ BITS` while its start does
  not pass it;
* `ensure_at_wrap`: so `Ensure(0, 0)` fails, and a range that wraps around
  `2 ^ 64` covers nothing and still returns `true`;
* `ensure_add`: below `BITS = 64`, where the key of the next leaf cannot
  wrap, the loop of `Ensure` ends on its own condition, within the rounds
  the model gives it;
* `isFlatMap`: the tree is the flat map of the keys below `2 ^ BITS`.
-/

namespace Gperftools

/-- The state of a `TCMalloc_PageMap2`: the leaves of `root_`, each the
    values of its keys, and the calls made to the allocator so far. -/
structure PageMap2 (α : Type) where
  root : ℕ → Option (ℕ → Option α)
  calls : ℕ

namespace PageMap2

variable {α : Type} (bits : ℕ) (alloc : ℕ → Bool)

/-- `LEAF_BITS`. -/
def leafBits : ℕ := (bits + 1) / 2

/-- `ROOT_BITS`. -/
def rootBits : ℕ := bits - leafBits bits

/-- The map that `TCMalloc_PageMap2(allocator)` builds: `root_` zeroed. -/
def init : PageMap2 α := ⟨fun _ => none, 0⟩

/-- `get(k)`. -/
def get (m : PageMap2 α) (k : ℕ) : Option α :=
  if 0 < k >>> bits then none
  else match m.root (k >>> leafBits bits) with
    | none => none
    | some leaf => leaf (k &&& (2 ^ leafBits bits - 1))

/-- `set(k, v)`: `none` where the leaf of `k` is missing and the code writes
    through a null pointer. -/
def set (m : PageMap2 α) (k : ℕ) (v : Option α) : Option (PageMap2 α) :=
  match m.root (k >>> leafBits bits) with
  | none => none
  | some leaf => some ⟨Function.update m.root (k >>> leafBits bits)
      (some (Function.update leaf (k &&& (2 ^ leafBits bits - 1)) v)), m.calls⟩

/-- The leaf `i1` for `Ensure`: allocated and zeroed if missing; `false` if
    the allocator finds no memory for it. -/
def ensureLeaf (m : PageMap2 α) (i1 : ℕ) : PageMap2 α × Bool :=
  match m.root i1 with
  | some _ => (m, true)
  | none =>
    if alloc m.calls then (⟨Function.update m.root i1 (some fun _ => none), m.calls + 1⟩, true)
    else ({ m with calls := m.calls + 1 }, false)

/-- The loop of `Ensure` up to the key `last`, from `key`, with `fuel`
    rounds left. The key is a `Number`, a `uintptr_t`: the first key of the
    next leaf wraps at `2 ^ 64`, which it reaches only at `BITS = 64`. Below
    that, the rounds `ensure` gives are more than the loop takes
    (`ensure_add`). -/
def ensureLoop (last : ℕ) : ℕ → PageMap2 α → ℕ → PageMap2 α × Bool
  | 0, m, _ => (m, true)
  | fuel + 1, m, key =>
    if key ≤ last then
      -- the check for overflow of the root index
      if 2 ^ rootBits bits ≤ key >>> leafBits bits then (m, false)
      else
        let r := ensureLeaf alloc m (key >>> leafBits bits)
        if r.2 then ensureLoop last fuel r.1 ((((key >>> leafBits bits) + 1) <<< leafBits bits) % 2 ^ 64)
        else (r.1, false)
    else (m, true)

/-- `Ensure(start, n)`: the leaves of the keys from `start` to
    `start + n - 1`. -/
def ensure (m : PageMap2 α) (start n : ℕ) : PageMap2 α × Bool :=
  ensureLoop bits alloc (PageMap.lastKey start n) (2 ^ rootBits bits + 1) m start

/-- The loop of `Next(k)`, with `fuel` rounds left: the first value of the
    leaf of `k` from `k` on, or else of the leaves after it. -/
def nextLoop (m : PageMap2 α) : ℕ → ℕ → Option α
  | 0, _ => none
  | fuel + 1, k =>
    if k < 2 ^ bits then
      let found := match m.root (k >>> leafBits bits) with
        | some leaf => scanFrom leaf (2 ^ leafBits bits - (k &&& (2 ^ leafBits bits - 1)))
            (k &&& (2 ^ leafBits bits - 1))
        | none => none
      match found with
      | some v => some v
      | none => nextLoop m fuel ((((k >>> leafBits bits) + 1) <<< leafBits bits) % 2 ^ 64)
    else none

/-- `Next(k)`. -/
def next (m : PageMap2 α) (k : ℕ) : Option α := nextLoop bits m (2 ^ rootBits bits + 1) k

/-- The keys whose leaf exists. -/
def covered (m : PageMap2 α) (k : ℕ) : Prop :=
  k < 2 ^ bits ∧ (m.root (k >>> leafBits bits)).isSome

/-- The tree as a page map. -/
def impl : PageMap.Impl (PageMap2 α) α := ⟨get bits, set bits, ensure bits alloc, covered bits⟩

/-! ## Keys as root and leaf indices -/

variable {bits}

theorem leafBits_add_rootBits : leafBits bits + rootBits bits = bits := by
  unfold rootBits leafBits
  omega

theorem two_pow_bits : 2 ^ bits = 2 ^ rootBits bits * 2 ^ leafBits bits := by
  rw [← Nat.pow_add, Nat.add_comm, leafBits_add_rootBits]

/-- A key below `2 ^ BITS` has a root index below `2 ^ ROOT_BITS`. -/
theorem div_lt_of_lt {k : ℕ} (hk : k < 2 ^ bits) : k / 2 ^ leafBits bits < 2 ^ rootBits bits := by
  rw [two_pow_bits, Nat.mul_comm] at hk
  exact Nat.div_lt_of_lt_mul hk

/-- The first key of the leaf after a root index in range is at most
    `2 ^ BITS`. -/
theorem succ_mul_le_two_pow {q : ℕ} (hq : q < 2 ^ rootBits bits) :
    (q + 1) * 2 ^ leafBits bits ≤ 2 ^ bits := by
  rw [@two_pow_bits bits]
  exact Nat.mul_le_mul_right _ hq

/-- Below `BITS = 64`, that key does not wrap. -/
theorem succ_mul_mod (hbits : bits < 64) {q : ℕ} (hq : q < 2 ^ rootBits bits) :
    (q + 1) * 2 ^ leafBits bits % 2 ^ 64 = (q + 1) * 2 ^ leafBits bits :=
  Nat.mod_eq_of_lt (lt_of_le_of_lt (succ_mul_le_two_pow hq) (Nat.pow_lt_pow_right (by decide) hbits))

/-- The keys of the leaf `i` are those from `i * 2 ^ LEAF_BITS` on, before the
    next leaf's. -/
theorem div_eq_iff {k i : ℕ} :
    k / 2 ^ leafBits bits = i ↔ i * 2 ^ leafBits bits ≤ k ∧ k < (i + 1) * 2 ^ leafBits bits := by
  rw [Nat.div_eq_iff (Nat.two_pow_pos _), Nat.succ_mul]
  have := Nat.two_pow_pos (leafBits bits)
  omega

/-- `get(k)`, with the bit operations read as division. -/
theorem get_eq (m : PageMap2 α) (k : ℕ) :
    get bits m k = if 2 ^ bits ≤ k then none
      else match m.root (k / 2 ^ leafBits bits) with
        | none => none
        | some leaf => leaf (k % 2 ^ leafBits bits) := by
  simp only [get, Nat.shiftRight_eq_div_pow, Nat.and_two_pow_sub_one_eq_mod,
    Nat.div_pos_iff, Nat.two_pow_pos, true_and]

theorem get_of_le {m : PageMap2 α} {k : ℕ} (hk : 2 ^ bits ≤ k) : get bits m k = none := by
  rw [get_eq, if_pos hk]

/-- The tree reads its keys through the leaves of `root_`. -/
theorem readsLeaves (m : PageMap2 α) :
    PageMap.ReadsLeaves (get bits m) m.root bits (leafBits bits) := fun k hk => by
  rw [get_eq, if_neg (Nat.not_le.2 hk)]
  cases m.root (k / 2 ^ leafBits bits) <;> rfl

/-! ## `Ensure` -/

variable {alloc}

/-- A new leaf holds no value, where there was no leaf. -/
theorem get_ensureLeaf (m : PageMap2 α) (i1 k : ℕ) :
    get bits (ensureLeaf alloc m i1).1 k = get bits m k := by
  unfold ensureLeaf
  cases hroot : m.root i1 with
  | some leaf => rfl
  | none =>
    cases ha : alloc m.calls
    · rfl
    · simp only [if_true]
      rw [get_eq, get_eq]
      split_ifs with hk
      · rfl
      · by_cases hi : k / 2 ^ leafBits bits = i1
        · simp [hi, hroot]
        · simp [Function.update_of_ne hi]

/-- `Ensure` keeps the leaves there are. -/
theorem isSome_ensureLeaf {m : PageMap2 α} {i1 j : ℕ} (h : (m.root j).isSome) :
    ((ensureLeaf alloc m i1).1.root j).isSome := by
  unfold ensureLeaf
  cases hroot : m.root i1 with
  | some _ => exact h
  | none =>
    cases ha : alloc m.calls
    · exact h
    · by_cases hj : j = i1
      · subst hj
        simp
      · simp [Function.update_of_ne hj, h]

/-- After a round that worked, the leaf of the round exists. -/
theorem isSome_ensureLeaf_self {m : PageMap2 α} {i1 : ℕ} (h : (ensureLeaf alloc m i1).2 = true) :
    ((ensureLeaf alloc m i1).1.root i1).isSome := by
  unfold ensureLeaf at h ⊢
  cases hroot : m.root i1 with
  | some _ => simp [hroot]
  | none =>
    cases ha : alloc m.calls
    · simp [hroot, ha] at h
    · simp

theorem get_ensureLoop (last : ℕ) :
    ∀ fuel (m : PageMap2 α) key, get bits (ensureLoop bits alloc last fuel m key).1 = get bits m
  | 0, _, _ => rfl
  | fuel + 1, m, key => by
    simp only [ensureLoop]
    split_ifs
    · rfl
    · rw [get_ensureLoop last fuel, funext (get_ensureLeaf m _)]
    · exact funext (get_ensureLeaf m _)
    · rfl

theorem isSome_ensureLoop (last : ℕ) {j : ℕ} :
    ∀ fuel (m : PageMap2 α) key, (m.root j).isSome →
      ((ensureLoop bits alloc last fuel m key).1.root j).isSome
  | 0, _, _, h => h
  | fuel + 1, m, key, h => by
    simp only [ensureLoop]
    split_ifs
    · exact h
    · exact isSome_ensureLoop last fuel _ _ (isSome_ensureLeaf h)
    · exact isSome_ensureLeaf h
    · exact h

/-- A loop that worked, with rounds enough to reach the root index
    `2 ^ ROOT_BITS`, made the leaves of every key from `key` to `last`: the
    keys of the round's leaf, and by induction those after it. -/
theorem covered_ensureLoop {last : ℕ} (hlast : last < 2 ^ 64) :
    ∀ fuel (m : PageMap2 α) key, (ensureLoop bits alloc last fuel m key).2 = true → 1 ≤ fuel →
      2 ^ rootBits bits + 1 ≤ fuel + key / 2 ^ leafBits bits →
      ∀ k, key ≤ k → k ≤ last → covered bits (ensureLoop bits alloc last fuel m key).1 k
  | 0, _, _, _, h1, _ => absurd h1 (by decide)
  | fuel + 1, m, key, hok, _, hfuel => by
    intro k hk1 hk2
    simp only [ensureLoop, Nat.shiftRight_eq_div_pow, Nat.shiftLeft_eq] at hok ⊢
    have hkey : key ≤ last := le_trans hk1 hk2
    rw [if_pos hkey] at hok ⊢
    by_cases hroot : 2 ^ rootBits bits ≤ key / 2 ^ leafBits bits
    · rw [if_pos hroot] at hok
      cases hok
    rw [if_neg hroot] at hok ⊢
    by_cases hleaf : (ensureLeaf alloc m (key / 2 ^ leafBits bits)).2 = true
    · rw [if_pos hleaf] at hok ⊢
      have hpos := Nat.two_pow_pos (leafBits bits)
      have hnext : (key / 2 ^ leafBits bits + 1) * 2 ^ leafBits bits / 2 ^ leafBits bits =
          key / 2 ^ leafBits bits + 1 := Nat.mul_div_cancel _ hpos
      by_cases hk : k < (key / 2 ^ leafBits bits + 1) * 2 ^ leafBits bits
      · -- `k` is a key of this round's leaf
        have hi : k / 2 ^ leafBits bits = key / 2 ^ leafBits bits := by
          rw [div_eq_iff]
          exact ⟨le_trans (Nat.div_mul_le_self key _) hk1, hk⟩
        refine ⟨lt_of_lt_of_le hk (succ_mul_le_two_pow (Nat.lt_of_not_le hroot)), ?_⟩
        rw [Nat.shiftRight_eq_div_pow, hi]
        exact isSome_ensureLoop last fuel _ _ (isSome_ensureLeaf_self hleaf)
      · -- `k` is a key of a later leaf, whose first key, at most `last`, does not wrap
        rw [Nat.mod_eq_of_lt (by omega)] at hok ⊢
        exact covered_ensureLoop hlast fuel _ _ hok (by omega) (by rw [hnext]; omega) k
          (by omega) hk2
    · rw [if_neg hleaf] at hok
      cases hok

/-- With an allocator that never fails, the loop only fails at a key past
    `2 ^ BITS`: it works when `last` is below it. -/
theorem ensureLoop_eq_true (halloc : ∀ i, alloc i = true) {last : ℕ} (hlast : last < 2 ^ bits) :
    ∀ fuel (m : PageMap2 α) key, (ensureLoop bits alloc last fuel m key).2 = true
  | 0, _, _ => rfl
  | fuel + 1, m, key => by
    simp only [ensureLoop, Nat.shiftRight_eq_div_pow]
    split_ifs with hkey hroot hleaf
    · -- a key up to `last` has its root index in range
      exact absurd (lt_of_le_of_lt hkey hlast) (by
        have := (Nat.le_div_iff_mul_le (Nat.two_pow_pos _)).1 hroot
        rw [@two_pow_bits bits]
        omega)
    · exact ensureLoop_eq_true halloc hlast fuel _ _
    · exfalso
      apply hleaf
      unfold ensureLeaf
      cases m.root (key / 2 ^ leafBits bits) <;> simp [halloc]
    · rfl

/-- Whatever the allocator, a loop whose `last` reaches `2 ^ BITS` fails,
    given rounds enough to reach the root index `2 ^ ROOT_BITS`. -/
theorem ensureLoop_eq_false {last : ℕ} (hlast : 2 ^ bits ≤ last) (hlast64 : last < 2 ^ 64) :
    ∀ fuel (m : PageMap2 α) key, key ≤ last → 1 ≤ fuel →
      2 ^ rootBits bits + 1 ≤ fuel + key / 2 ^ leafBits bits →
      (ensureLoop bits alloc last fuel m key).2 = false
  | 0, _, _, _, h1, _ => absurd h1 (by decide)
  | fuel + 1, m, key, hkey, _, hfuel => by
    simp only [ensureLoop, Nat.shiftRight_eq_div_pow, Nat.shiftLeft_eq, if_pos hkey]
    split_ifs with hroot hleaf
    · rfl
    · have hnext : (key / 2 ^ leafBits bits + 1) * 2 ^ leafBits bits / 2 ^ leafBits bits =
          key / 2 ^ leafBits bits + 1 := Nat.mul_div_cancel _ (Nat.two_pow_pos _)
      -- the next key is at most `2 ^ BITS`, so at most `last`, and does not wrap
      have hle := succ_mul_le_two_pow (Nat.lt_of_not_le hroot)
      rw [Nat.mod_eq_of_lt (by omega)]
      exact ensureLoop_eq_false hlast hlast64 fuel _ _ (le_trans hle hlast) (by omega)
        (by rw [hnext]; omega)
    · rfl

/-- With an allocator that never fails, `Ensure(start, n)` works when
    `1 ≤ n` and `start + n ≤ 2 ^ BITS`. -/
theorem ensure_eq_true (halloc : ∀ i, alloc i = true) (hbits : bits ≤ 64) (m : PageMap2 α)
    {start n : ℕ} (hn : 1 ≤ n) (hrange : start + n ≤ 2 ^ bits) :
    (ensure bits alloc m start n).2 = true := by
  have h64 : 2 ^ bits ≤ 2 ^ 64 := Nat.pow_le_pow_right (by decide) hbits
  have hlast : PageMap.lastKey start n = start + n - 1 := PageMap.lastKey_eq (by omega) (by omega)
  exact ensureLoop_eq_true halloc (by omega) _ _ _

/-- Whatever the allocator, `Ensure(start, n)` fails when its last key, as a
    `uintptr_t`, reaches `2 ^ BITS` and its start does not pass it. -/
theorem ensure_eq_false (m : PageMap2 α) {start n : ℕ} (hlast : 2 ^ bits ≤ PageMap.lastKey start n)
    (hstart : start ≤ PageMap.lastKey start n) : (ensure bits alloc m start n).2 = false :=
  ensureLoop_eq_false hlast (PageMap.lastKey_lt _ _) _ _ _ hstart (Nat.le_add_left 1 _) (Nat.le_add_right _ _)

/-- With rounds enough to reach the root index `2 ^ ROOT_BITS`, more rounds
    change nothing: below `BITS = 64` the loop ends on its own condition. The
    induction is on the rounds. -/
theorem ensureLoop_add (hbits : bits < 64) (last e : ℕ) :
    ∀ fuel (m : PageMap2 α) key, 1 ≤ fuel → 2 ^ rootBits bits + 1 ≤ fuel + key / 2 ^ leafBits bits →
      ensureLoop bits alloc last (fuel + e) m key = ensureLoop bits alloc last fuel m key
  | 0, _, _, h1, _ => absurd h1 (by decide)
  | fuel + 1, m, key, _, hfuel => by
    rw [show fuel + 1 + e = fuel + e + 1 by omega]
    simp only [ensureLoop, Nat.shiftRight_eq_div_pow, Nat.shiftLeft_eq]
    split_ifs with hkey hroot hleaf
    · rfl
    · -- the round's root index is in range, so the next key does not wrap
      have hq := Nat.lt_of_not_le hroot
      rw [succ_mul_mod hbits hq]
      exact ensureLoop_add hbits last e fuel _ _ (by omega)
        (by rw [Nat.mul_div_cancel _ (Nat.two_pow_pos _)]; omega)
    · rfl
    · rfl

/-- `Ensure(start, n)` below `BITS = 64`: its loop, given any more rounds,
    ends the same. -/
theorem ensure_add (hbits : bits < 64) (m : PageMap2 α) (start n e : ℕ) :
    ensureLoop bits alloc (PageMap.lastKey start n) (2 ^ rootBits bits + 1 + e) m start =
      ensure bits alloc m start n :=
  ensureLoop_add hbits _ e _ m start (Nat.le_add_left 1 _) (Nat.le_add_right _ _)

/-- A successful `Ensure` whose range does not wrap around made the leaves of
    its range. -/
theorem covered_of_ensure (m : PageMap2 α) {start n k : ℕ} (hwrap : start + n ≤ 2 ^ 64)
    (hok : (ensure bits alloc m start n).2 = true) (hk1 : start ≤ k) (hk2 : k < start + n) :
    covered bits (ensure bits alloc m start n).1 k := by
  have hlast := PageMap.lastKey_eq (by omega) hwrap
  exact covered_ensureLoop (PageMap.lastKey_lt _ _) _ _ _ hok (Nat.le_add_left 1 _)
    (Nat.le_add_right _ _) k hk1 (by omega)

/-! ## `set` -/

/-- A `set` on a key whose leaf exists writes that key alone, and keeps the
    leaves. -/
theorem set_of_covered {m : PageMap2 α} {k : ℕ} (v : Option α) (hk : covered bits m k) :
    ∃ m', set bits m k v = some m' ∧
      (∀ k', get bits m' k' = Function.update (get bits m) k v k') ∧
      ∀ k', covered bits m k' → covered bits m' k' := by
  obtain ⟨hklt, hsome⟩ := hk
  obtain ⟨leaf, hleaf⟩ := Option.isSome_iff_exists.1 hsome
  refine ⟨⟨Function.update m.root (k >>> leafBits bits)
    (some (Function.update leaf (k &&& (2 ^ leafBits bits - 1)) v)), m.calls⟩,
    by simp only [set, hleaf], fun k' => ?_, fun k' ⟨hk', hs'⟩ => ⟨hk', ?_⟩⟩
  · simp only [Nat.shiftRight_eq_div_pow, Nat.and_two_pow_sub_one_eq_mod] at hleaf ⊢
    by_cases hkk : k' = k
    · subst hkk
      rw [Function.update_self, get_eq, if_neg (Nat.not_le.2 hklt)]
      simp
    rw [Function.update_of_ne hkk, get_eq, get_eq]
    split_ifs with hk'
    · rfl
    · by_cases hd : k' / 2 ^ leafBits bits = k / 2 ^ leafBits bits
      · -- the same leaf, at another index
        have hm : k' % 2 ^ leafBits bits ≠ k % 2 ^ leafBits bits :=
          fun hm => hkk (Nat.ext_div_mod hd hm)
        simp [hd, hleaf, Function.update_of_ne hm]
      · simp [Function.update_of_ne hd]
  · by_cases hd : k' >>> leafBits bits = k >>> leafBits bits
    · simp [hd]
    · simp [Function.update_of_ne hd, hs']

/-- The two-level tree is a lawful page map. -/
theorem lawful : (impl bits alloc : PageMap.Impl (PageMap2 α) α).Lawful where
  get_ensure m start _ k := congrFun (get_ensureLoop _ _ m start) k
  covered_ensure m start _ _ hk := ⟨hk.1, isSome_ensureLoop _ _ m start hk.2⟩
  covered_of_ensure m _ _ _ hwrap hok hk1 hk2 := covered_of_ensure m hwrap hok hk1 hk2
  set_of_covered _ _ v hk := set_of_covered v hk

/-! ## `Next` -/

/-- The loop of `Next`, with rounds enough to reach the root index
    `2 ^ ROOT_BITS`, is the scan of the flat map from `k` to `2 ^ BITS`: by
    induction on the rounds, the leaf of `k` scanned in the first, or found
    missing, and the rest of the keys in the later ones. -/
theorem nextLoop_eq (hbits : bits < 64) (m : PageMap2 α) :
    ∀ fuel k, 2 ^ rootBits bits ≤ fuel + k / 2 ^ leafBits bits →
      nextLoop bits m fuel k = scanFrom (get bits m) (2 ^ bits - k) k
  | 0, k, h => by
    -- no round is left only past the last leaf
    have : 2 ^ bits ≤ k := by
      rw [@two_pow_bits bits]
      exact (Nat.le_div_iff_mul_le (Nat.two_pow_pos _)).1 (by omega)
    rw [Nat.sub_eq_zero_of_le this]
    rfl
  | fuel + 1, k, h => by
    simp only [nextLoop, Nat.shiftRight_eq_div_pow, Nat.and_two_pow_sub_one_eq_mod,
      Nat.shiftLeft_eq]
    split_ifs with hk
    · have hend := succ_mul_le_two_pow (div_lt_of_lt hk)
      rw [succ_mul_mod hbits (div_lt_of_lt hk)]
      have hfuel : 2 ^ rootBits bits ≤
          fuel + (k / 2 ^ leafBits bits + 1) * 2 ^ leafBits bits / 2 ^ leafBits bits := by
        rw [Nat.mul_div_cancel _ (Nat.two_pow_pos _)]
        omega
      -- the keys of the leaf of `k` from `k` on, and the keys after them
      rw [(readsLeaves m).scanFrom_eq_or hend]
      cases m.root (k / 2 ^ leafBits bits) with
      | none =>
        -- a missing leaf: on to the next leaf
        rw [nextLoop_eq hbits m fuel _ hfuel]
        rfl
      | some leaf =>
        simp only [Option.bind_some]
        cases scanFrom leaf (2 ^ leafBits bits - k % 2 ^ leafBits bits) (k % 2 ^ leafBits bits) with
        | some v => rfl
        | none =>
          rw [nextLoop_eq hbits m fuel _ hfuel]
          rfl
    · rw [Nat.sub_eq_zero_of_le (Nat.le_of_not_lt hk)]
      rfl

/-- `Next(k)` is the first value of the flat map at or after `k`. -/
theorem next_eq_flatNext (hbits : bits < 64) (m : PageMap2 α) (k : ℕ) :
    next bits m k = PageMap.flatNext bits (get bits m) k :=
  nextLoop_eq hbits m _ k (Nat.le_add_right_of_le (Nat.le_add_right _ 1))

/-- The two-level tree, with its `Next`, is the flat map of the keys below
    `2 ^ BITS`. -/
theorem isFlatMap (hbits : bits < 64) :
    (impl bits alloc : PageMap.Impl (PageMap2 α) α).IsFlatMap (next bits) bits where
  run_get ops m K hK hs hw := PageMap.Impl.run_get lawful ops m K hK hs hw
  get_of_le _ _ hk := get_of_le hk
  get_ensure := lawful.get_ensure
  covered_of_ensure := lawful.covered_of_ensure
  ensure_eq_false m _ _ hn hlt hwrap :=
    ensure_eq_false m (PageMap.le_lastKey hn hlt hwrap).1 (PageMap.le_lastKey hn hlt hwrap).2
  next_eq := next_eq_flatNext hbits

end PageMap2

end Gperftools
