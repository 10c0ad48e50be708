import Gperftools.PageMap.Two

/-!
# The three-level page map

`TCMalloc_PageMap3<BITS>` splits a key into a root index and an interior
index of `INTERIOR_BITS = ⌈BITS / 3⌉` bits each, and a leaf index of the
`LEAF_BITS = BITS - 2 * INTERIOR_BITS` bits left. The root node `root_` is
part of the map; the interior nodes and the leaves are allocated by `Ensure`,
each by a call to the allocator, the oracle `alloc`. The loops are recursions
over the rounds left: each round of `Ensure` moves to the next leaf, and each
round of `Next` to the next leaf or, past a missing interior node, to the
next root index; the `2 ^ (2 * INTERIOR_BITS)` leaves bound both.

`Ensure` only adds empty nodes and leaves (`Grows`), so it changes no
value; each round of its loop is a round at the leaf index of its key
(`ensureLoop_succ`).

* `lawful`: the tree is a lawful page map (`PageMap.Impl.Lawful`);
* `next_eq_flatNext`: `Next(k)` is the first value of the flat map at or after
  `k`;
* `ensure_eq_true`, `ensure_eq_false`: as for the two-level map;
* `ensure_add`: below `BITS = 64` the loop of `Ensure` ends on its own
  condition; at 64 the key after the last leaf wraps to 0;
* `pageMaps_isFlatMap`: for every `BITS` from 2 to 63, both trees are the
  flat map of the keys below `2 ^ BITS` (`PageMap.Impl.IsFlatMap`).
-/

namespace Gperftools

/-- The state of a `TCMalloc_PageMap3`: the interior nodes of `root_`, each
    its leaves, each the values of its keys, and the calls made to the
    allocator so far. -/
structure PageMap3 (α : Type) where
  root : ℕ → Option (ℕ → Option (ℕ → Option α))
  calls : ℕ

namespace PageMap3

variable {α : Type} (bits : ℕ) (alloc : ℕ → Bool)

/-- `INTERIOR_BITS`. -/
def interiorBits : ℕ := (bits + 2) / 3

/-- `LEAF_BITS`. -/
def leafBits : ℕ := bits - 2 * interiorBits bits

/-- The map that `TCMalloc_PageMap3(allocator)` builds: `root_` zeroed. -/
def init : PageMap3 α := ⟨fun _ => none, 0⟩

/-- `get(k)`. -/
def get (m : PageMap3 α) (k : ℕ) : Option α :=
  if 0 < k >>> bits then none
  else match m.root (k >>> (leafBits bits + interiorBits bits)) with
    | none => none
    | some node =>
      match node ((k >>> leafBits bits) &&& (2 ^ interiorBits bits - 1)) with
      | none => none
      | some leaf => leaf (k &&& (2 ^ leafBits bits - 1))

/-- `set(k, v)`: `none` where the interior node or the leaf of `k` is
    missing and the code writes through a null pointer. -/
def set (m : PageMap3 α) (k : ℕ) (v : Option α) : Option (PageMap3 α) :=
  let i1 := k >>> (leafBits bits + interiorBits bits)
  let i2 := (k >>> leafBits bits) &&& (2 ^ interiorBits bits - 1)
  match m.root i1 with
  | none => none
  | some node =>
    match node i2 with
    | none => none
    | some leaf => some ⟨Function.update m.root i1 (some (Function.update node i2
        (some (Function.update leaf (k &&& (2 ^ leafBits bits - 1)) v)))), m.calls⟩

/-- The interior node `i1` for `Ensure`: `NewNode()` if missing; `false` if
    the allocator finds no memory for it. -/
def ensureNode (m : PageMap3 α) (i1 : ℕ) : PageMap3 α × Bool :=
  match m.root i1 with
  | some _ => (m, true)
  | none =>
    if alloc m.calls then (⟨Function.update m.root i1 (some fun _ => none), m.calls + 1⟩, true)
    else ({ m with calls := m.calls + 1 }, false)

/-- The leaf `i2` of the interior node `i1`, which exists, for `Ensure`:
    allocated and zeroed if missing; `false` if the allocator finds no memory
    for it. -/
def ensureLeaf (m : PageMap3 α) (i1 i2 : ℕ) : PageMap3 α × Bool :=
  match m.root i1 with
  | none => (m, false)
  | some node =>
    match node i2 with
    | some _ => (m, true)
    | none =>
      if alloc m.calls then
        (⟨Function.update m.root i1 (some (Function.update node i2 (some fun _ => none))),
          m.calls + 1⟩, true)
      else ({ m with calls := m.calls + 1 }, false)

/-- The loop of `Ensure` up to the key `last`, from `key`, with `fuel`
    rounds left. The key is a `Number`, a `uintptr_t`: the first key of the
    next leaf wraps at `2 ^ 64`, which it reaches only at `BITS = 64`. Below
    that, the rounds `ensure` gives are more than the loop takes
    (`ensure_add`). -/
def ensureLoop (last : ℕ) : ℕ → PageMap3 α → ℕ → PageMap3 α × Bool
  | 0, m, _ => (m, true)
  | fuel + 1, m, key =>
    if key ≤ last then
      let i1 := key >>> (leafBits bits + interiorBits bits)
      let i2 := (key >>> leafBits bits) &&& (2 ^ interiorBits bits - 1)
      -- the check for overflow of the indices
      if 2 ^ interiorBits bits ≤ i1 ∨ 2 ^ interiorBits bits ≤ i2 then (m, false)
      else
        let r := ensureNode alloc m i1
        if r.2 then
          let r' := ensureLeaf alloc r.1 i1 i2
          if r'.2 then ensureLoop last fuel r'.1 ((((key >>> leafBits bits) + 1) <<< leafBits bits) % 2 ^ 64)
          else (r'.1, false)
        else (r.1, false)
    else (m, true)

/-- `Ensure(start, n)`: the interior nodes and leaves of the keys from
    `start` to `start + n - 1`. -/
def ensure (m : PageMap3 α) (start n : ℕ) : PageMap3 α × Bool :=
  ensureLoop bits alloc (PageMap.lastKey start n) (2 ^ (2 * interiorBits bits) + 1) m start

/-- The loop of `Next(k)`, with `fuel` rounds left. -/
def nextLoop (m : PageMap3 α) : ℕ → ℕ → Option α
  | 0, _ => none
  | fuel + 1, k =>
    if k < 2 ^ bits then
      let i1 := k >>> (leafBits bits + interiorBits bits)
      let i2 := (k >>> leafBits bits) &&& (2 ^ interiorBits bits - 1)
      match m.root i1 with
      | none =>
        -- on to the next root index
        nextLoop m fuel (((i1 + 1) <<< (leafBits bits + interiorBits bits)) % 2 ^ 64)
      | some node =>
        let found := match node i2 with
          | some leaf => scanFrom leaf (2 ^ leafBits bits - (k &&& (2 ^ leafBits bits - 1)))
              (k &&& (2 ^ leafBits bits - 1))
          | none => none
        match found with
        | some v => some v
        | none => nextLoop m fuel ((((k >>> leafBits bits) + 1) <<< leafBits bits) % 2 ^ 64)
    else none

/-- `Next(k)`. -/
def next (m : PageMap3 α) (k : ℕ) : Option α :=
  nextLoop bits m (2 ^ (2 * interiorBits bits) + 1) k

/-- The leaf of the key `k`, if its interior node and leaf exist. -/
def leafOf (m : PageMap3 α) (k : ℕ) : Option (ℕ → Option α) :=
  (m.root (k >>> (leafBits bits + interiorBits bits))).bind
    fun node => node ((k >>> leafBits bits) &&& (2 ^ interiorBits bits - 1))

/-- The keys whose interior node and leaf exist. -/
def covered (m : PageMap3 α) (k : ℕ) : Prop := k < 2 ^ bits ∧ (leafOf bits m k).isSome

/-- The tree as a page map. -/
def impl : PageMap.Impl (PageMap3 α) α := ⟨get bits, set bits, ensure bits alloc, covered bits⟩

/-- The leaf of the global leaf index `q`, the key's bits from `LEAF_BITS`
    on: the leaf `q % 2 ^ INTERIOR_BITS` of the interior node
    `q / 2 ^ INTERIOR_BITS`. -/
def leafAt (m : PageMap3 α) (q : ℕ) : Option (ℕ → Option α) :=
  (m.root (q / 2 ^ interiorBits bits)).bind fun node => node (q % 2 ^ interiorBits bits)

/-- `m'` has the leaves of `m`, and at most empty leaves where `m` has none:
    what `Ensure` does to the tree. -/
def Grows (m m' : PageMap3 α) : Prop :=
  ∀ q, leafAt bits m' q = leafAt bits m q ∨
    (leafAt bits m q = none ∧ leafAt bits m' q = some fun _ => none)

/-! ## Keys as leaf indices -/

variable {bits}

theorem leafBits_add (hbits : 2 ≤ bits) : leafBits bits + 2 * interiorBits bits = bits := by
  unfold leafBits interiorBits
  omega

theorem two_pow_bits (hbits : 2 ≤ bits) :
    2 ^ bits = 2 ^ (2 * interiorBits bits) * 2 ^ leafBits bits := by
  rw [← Nat.pow_add, Nat.add_comm, leafBits_add hbits]

/-- A key below `2 ^ BITS` has a leaf index below `2 ^ (2 * INTERIOR_BITS)`. -/
theorem div_lt_of_lt (hbits : 2 ≤ bits) {k : ℕ} (hk : k < 2 ^ bits) :
    k / 2 ^ leafBits bits < 2 ^ (2 * interiorBits bits) := by
  rw [two_pow_bits hbits, Nat.mul_comm] at hk
  exact Nat.div_lt_of_lt_mul hk

/-- The keys of the leaf `q` are those from `q * 2 ^ LEAF_BITS` on, before
    the next leaf's. -/
theorem div_eq_iff {k q : ℕ} :
    k / 2 ^ leafBits bits = q ↔ q * 2 ^ leafBits bits ≤ k ∧ k < (q + 1) * 2 ^ leafBits bits := by
  rw [Nat.div_eq_iff (Nat.two_pow_pos _), Nat.succ_mul]
  have := Nat.two_pow_pos (leafBits bits)
  omega

theorem leafOf_eq (m : PageMap3 α) (k : ℕ) :
    leafOf bits m k = leafAt bits m (k / 2 ^ leafBits bits) := by
  simp only [leafOf, leafAt, Nat.shiftRight_eq_div_pow, Nat.and_two_pow_sub_one_eq_mod,
    Nat.pow_add, Nat.div_div_eq_div_mul]

/-- `get(k)`: the value at the leaf index of `k` in its leaf, if the
    interior node and the leaf exist. -/
theorem get_eq (m : PageMap3 α) (k : ℕ) :
    get bits m k = if 2 ^ bits ≤ k then none
      else (leafAt bits m (k / 2 ^ leafBits bits)).bind fun leaf => leaf (k % 2 ^ leafBits bits) := by
  simp only [get, leafAt, Nat.shiftRight_eq_div_pow, Nat.and_two_pow_sub_one_eq_mod,
    Nat.div_pos_iff, Nat.two_pow_pos, true_and, Nat.pow_add, Nat.div_div_eq_div_mul]
  split_ifs
  · rfl
  · cases m.root (k / (2 ^ leafBits bits * 2 ^ interiorBits bits)) with
    | none => rfl
    | some node =>
      simp only [Option.bind_some]
      cases node (k / 2 ^ leafBits bits % 2 ^ interiorBits bits) <;> rfl

theorem shiftRight_leafBits_add (k : ℕ) :
    k >>> (leafBits bits + interiorBits bits) = k / 2 ^ leafBits bits / 2 ^ interiorBits bits := by
  rw [Nat.shiftRight_add, Nat.shiftRight_eq_div_pow, Nat.shiftRight_eq_div_pow]

/-- The overflow check of `Ensure`, on the leaf index `q` of the key: the
    interior index `q % 2 ^ INTERIOR_BITS` is always in range. -/
theorem overflow_iff (q : ℕ) :
    (2 ^ interiorBits bits ≤ q / 2 ^ interiorBits bits ∨
      2 ^ interiorBits bits ≤ q % 2 ^ interiorBits bits) ↔ 2 ^ (2 * interiorBits bits) ≤ q := by
  have hmod := Nat.mod_lt q (Nat.two_pow_pos (interiorBits bits))
  rw [Nat.le_div_iff_mul_le (Nat.two_pow_pos _), Nat.two_mul, Nat.pow_add]
  omega

/-- The keys of the leaves below `2 ^ (2 * INTERIOR_BITS)` are below
    `2 ^ BITS`. -/
theorem succ_mul_le_two_pow (hbits : 2 ≤ bits) {q : ℕ} (hq : q < 2 ^ (2 * interiorBits bits)) :
    (q + 1) * 2 ^ leafBits bits ≤ 2 ^ bits := by
  rw [two_pow_bits hbits]
  exact Nat.mul_le_mul_right _ hq

/-- Below `BITS = 64`, the first key of the next leaf, a `Number`, does not
    wrap. -/
theorem succ_mul_mod (hbits : 2 ≤ bits) (h64 : bits < 64) {q : ℕ} (hq : q < 2 ^ (2 * interiorBits bits)) :
    (q + 1) * 2 ^ leafBits bits % 2 ^ 64 = (q + 1) * 2 ^ leafBits bits :=
  Nat.mod_eq_of_lt (lt_of_le_of_lt (succ_mul_le_two_pow hbits hq) (Nat.pow_lt_pow_right (by decide) h64))

theorem get_of_le {m : PageMap3 α} {k : ℕ} (hk : 2 ^ bits ≤ k) : get bits m k = none := by
  rw [get_eq, if_pos hk]

/-- The tree reads its keys through the leaves `leafAt`. -/
theorem readsLeaves (m : PageMap3 α) :
    PageMap.ReadsLeaves (get bits m) (leafAt bits m) bits (leafBits bits) := fun k hk => by
  rw [get_eq, if_neg (Nat.not_le.2 hk)]

/-! ## `Ensure` -/

variable {alloc}

theorem Grows.refl (m : PageMap3 α) : Grows bits m m := fun _ => .inl rfl

theorem Grows.trans {m m' m'' : PageMap3 α} (h : Grows bits m m') (h' : Grows bits m' m'') :
    Grows bits m m'' := by
  intro q
  rcases h q with h1 | ⟨h1, h2⟩ <;> rcases h' q with h3 | ⟨h3, h4⟩
  · exact .inl (h3.trans h1)
  · exact .inr ⟨by rw [← h1]; exact h3, h4⟩
  · exact .inr ⟨h1, h3.trans h2⟩
  · rw [h2] at h3
    cases h3

/-- Empty leaves hold no value. -/
theorem get_of_grows {m m' : PageMap3 α} (h : Grows bits m m') : get bits m' = get bits m := by
  funext k
  rw [get_eq, get_eq]
  split_ifs
  · rfl
  · rcases h (k / 2 ^ leafBits bits) with h1 | ⟨h1, h2⟩
    · rw [h1]
    · rw [h1, h2]
      rfl

theorem isSome_of_grows {m m' : PageMap3 α} (h : Grows bits m m') {q : ℕ}
    (hq : (leafAt bits m q).isSome) : (leafAt bits m' q).isSome := by
  rcases h q with h1 | ⟨h1, h2⟩
  · rw [h1]
    exact hq
  · rw [h2]
    rfl

/-- A new interior node holds no leaf. -/
theorem grows_ensureNode (m : PageMap3 α) (i1 : ℕ) : Grows bits m (ensureNode alloc m i1).1 := by
  intro q
  left
  unfold ensureNode
  cases hroot : m.root i1 with
  | some _ => rfl
  | none =>
    cases alloc m.calls
    · rfl
    · by_cases hq : q / 2 ^ interiorBits bits = i1
      · simp [leafAt, hq, hroot]
      · simp [leafAt, Function.update_of_ne hq]

/-- `ensureLeaf` adds at most the empty leaf `i2` of the node `i1`, where
    there was none. -/
theorem grows_ensureLeaf (m : PageMap3 α) (i1 i2 : ℕ) :
    Grows bits m (ensureLeaf alloc m i1 i2).1 := by
  intro q
  cases hroot : m.root i1 with
  | none =>
    left
    simp only [ensureLeaf, hroot]
  | some node =>
    cases hnode : node i2 with
    | some _ =>
      left
      simp only [ensureLeaf, hroot, hnode]
    | none =>
      cases ha : alloc m.calls
      · left
        simp only [ensureLeaf, hroot, hnode, ha, Bool.false_eq_true, if_false]
        rfl
      · simp only [ensureLeaf, hroot, hnode, ha, if_true]
        by_cases h1 : q / 2 ^ interiorBits bits = i1
        · by_cases h2 : q % 2 ^ interiorBits bits = i2
          · -- the new leaf
            right
            simp [leafAt, h1, h2, hroot, hnode]
          · left
            simp [leafAt, h1, hroot, Function.update_of_ne h2]
        · left
          simp [leafAt, Function.update_of_ne h1]

theorem isSome_ensureNode_self {m : PageMap3 α} {i1 : ℕ} (h : (ensureNode alloc m i1).2 = true) :
    ((ensureNode alloc m i1).1.root i1).isSome := by
  unfold ensureNode at h ⊢
  cases hroot : m.root i1 with
  | some _ => simp [hroot]
  | none =>
    cases ha : alloc m.calls
    · simp [hroot, ha] at h
    · simp

/-- After a round that worked, the leaf of the round exists. -/
theorem isSome_ensureLeaf_self {m : PageMap3 α} {q : ℕ}
    (h : (ensureLeaf alloc m (q / 2 ^ interiorBits bits) (q % 2 ^ interiorBits bits)).2 = true) :
    (leafAt bits
      (ensureLeaf alloc m (q / 2 ^ interiorBits bits) (q % 2 ^ interiorBits bits)).1 q).isSome := by
  cases hroot : m.root (q / 2 ^ interiorBits bits) with
  | none => simp [ensureLeaf, hroot] at h
  | some node =>
    cases hnode : node (q % 2 ^ interiorBits bits) with
    | some _ => simp [ensureLeaf, leafAt, hroot, hnode]
    | none =>
      cases ha : alloc m.calls
      · simp [ensureLeaf, hroot, hnode, ha] at h
      · simp [ensureLeaf, leafAt, hroot, hnode, ha]

theorem ensureNode_eq_true (halloc : ∀ i, alloc i = true) (m : PageMap3 α) (i1 : ℕ) :
    (ensureNode alloc m i1).2 = true := by
  unfold ensureNode
  cases m.root i1 <;> simp [halloc]

theorem ensureLeaf_eq_true (halloc : ∀ i, alloc i = true) {m : PageMap3 α} {i1 : ℕ}
    (hroot : (m.root i1).isSome) (i2 : ℕ) : (ensureLeaf alloc m i1 i2).2 = true := by
  obtain ⟨node, hnode⟩ := Option.isSome_iff_exists.1 hroot
  cases hleaf : node i2 <;> simp [ensureLeaf, hnode, hleaf, halloc]

/-- A round of `Ensure`, at the leaf `key / 2 ^ LEAF_BITS` of its key. -/
theorem ensureLoop_succ (last fuel : ℕ) (m : PageMap3 α) (key : ℕ) :
    ensureLoop bits alloc last (fuel + 1) m key =
      if key ≤ last then
        if 2 ^ (2 * interiorBits bits) ≤ key / 2 ^ leafBits bits then (m, false)
        else
          let r := ensureNode alloc m (key / 2 ^ leafBits bits / 2 ^ interiorBits bits)
          if r.2 then
            let r' := ensureLeaf alloc r.1 (key / 2 ^ leafBits bits / 2 ^ interiorBits bits)
              (key / 2 ^ leafBits bits % 2 ^ interiorBits bits)
            if r'.2 then
              ensureLoop bits alloc last fuel r'.1 ((key / 2 ^ leafBits bits + 1) * 2 ^ leafBits bits % 2 ^ 64)
            else (r'.1, false)
          else (r.1, false)
      else (m, true) := by
  simp only [ensureLoop, shiftRight_leafBits_add]
  simp only [Nat.shiftRight_eq_div_pow, Nat.and_two_pow_sub_one_eq_mod, Nat.shiftLeft_eq,
    overflow_iff]

theorem grows_ensureLoop (last : ℕ) :
    ∀ fuel (m : PageMap3 α) key, Grows bits m (ensureLoop bits alloc last fuel m key).1
  | 0, m, _ => Grows.refl m
  | fuel + 1, m, key => by
    rw [ensureLoop_succ]
    dsimp only
    split_ifs
    · exact Grows.refl m
    · exact ((grows_ensureNode m _).trans (grows_ensureLeaf _ _ _)).trans
        (grows_ensureLoop last fuel _ _)
    · exact (grows_ensureNode m _).trans (grows_ensureLeaf _ _ _)
    · exact grows_ensureNode m _
    · exact Grows.refl m

/-- A round of the loop that did not end it: its leaf is in range and was
    made, and the loop goes on from the next leaf. -/
theorem ensureLoop_succ_of_eq_true {last fuel key : ℕ} {m : PageMap3 α} (hkey : key ≤ last)
    (hok : (ensureLoop bits alloc last (fuel + 1) m key).2 = true) :
    ∃ m1, key / 2 ^ leafBits bits < 2 ^ (2 * interiorBits bits) ∧ Grows bits m m1 ∧
      (leafAt bits m1 (key / 2 ^ leafBits bits)).isSome ∧
      ensureLoop bits alloc last (fuel + 1) m key =
        ensureLoop bits alloc last fuel m1 ((key / 2 ^ leafBits bits + 1) * 2 ^ leafBits bits % 2 ^ 64) := by
  rw [ensureLoop_succ, if_pos hkey] at hok ⊢
  dsimp only at hok ⊢
  -- the rounds that fail leave `false` in `hok`, and only the one that goes on is left
  split_ifs at hok ⊢ with hq hnode hleaf
  exact ⟨_, Nat.lt_of_not_le hq, (grows_ensureNode m _).trans (grows_ensureLeaf _ _ _),
    isSome_ensureLeaf_self hleaf, rfl⟩

/-- A loop that worked, with rounds enough to reach the leaf
    `2 ^ (2 * INTERIOR_BITS)`, made the leaves of every key from `key` to
    `last`: the keys of the round's leaf, and by induction those after it. -/
theorem covered_ensureLoop (hbits : 2 ≤ bits) {last : ℕ} (hlast : last < 2 ^ 64) :
    ∀ fuel (m : PageMap3 α) key, (ensureLoop bits alloc last fuel m key).2 = true → 1 ≤ fuel →
      2 ^ (2 * interiorBits bits) + 1 ≤ fuel + key / 2 ^ leafBits bits →
      ∀ k, key ≤ k → k ≤ last → covered bits (ensureLoop bits alloc last fuel m key).1 k
  | 0, _, _, _, h1, _ => absurd h1 (by decide)
  | fuel + 1, m, key, hok, _, hfuel => by
    intro k hk1 hk2
    obtain ⟨m1, hq, -, hleaf, heq⟩ := ensureLoop_succ_of_eq_true (le_trans hk1 hk2) hok
    rw [heq] at hok ⊢
    have hnext : (key / 2 ^ leafBits bits + 1) * 2 ^ leafBits bits / 2 ^ leafBits bits =
        key / 2 ^ leafBits bits + 1 := Nat.mul_div_cancel _ (Nat.two_pow_pos _)
    by_cases hk : k < (key / 2 ^ leafBits bits + 1) * 2 ^ leafBits bits
    · -- `k` is a key of this round's leaf
      have hi : k / 2 ^ leafBits bits = key / 2 ^ leafBits bits :=
        div_eq_iff.2 ⟨le_trans (Nat.div_mul_le_self key _) hk1, hk⟩
      refine ⟨lt_of_lt_of_le hk (succ_mul_le_two_pow hbits hq), ?_⟩
      rw [leafOf_eq, hi]
      exact isSome_of_grows (grows_ensureLoop last fuel _ _) hleaf
    · -- `k` is a key of a later leaf, whose first key, at most `last`, does not wrap
      rw [Nat.mod_eq_of_lt (show (key / 2 ^ leafBits bits + 1) * 2 ^ leafBits bits < 2 ^ 64 by omega)]
        at hok ⊢
      exact covered_ensureLoop hbits hlast fuel _ _ hok (by omega) (by rw [hnext]; omega) k
        (by omega) hk2

/-- With an allocator that never fails, the loop only fails at a key past
    `2 ^ BITS`: it works when `last` is below it. -/
theorem ensureLoop_eq_true (halloc : ∀ i, alloc i = true) (hbits : 2 ≤ bits) {last : ℕ}
    (hlast : last < 2 ^ bits) :
    ∀ fuel (m : PageMap3 α) key, (ensureLoop bits alloc last fuel m key).2 = true
  | 0, _, _ => rfl
  | fuel + 1, m, key => by
    rw [ensureLoop_succ]
    dsimp only
    split_ifs with hkey hq hnode hleaf
    · -- a key up to `last` has its leaf in range
      exfalso
      have := (Nat.le_div_iff_mul_le (Nat.two_pow_pos _)).1 hq
      rw [two_pow_bits hbits] at hlast
      omega
    · exact ensureLoop_eq_true halloc hbits hlast fuel _ _
    · exact absurd (ensureLeaf_eq_true halloc (isSome_ensureNode_self hnode) _) hleaf
    · exact absurd (ensureNode_eq_true halloc m _) hnode
    · rfl

/-- Whatever the allocator, a loop whose `last` reaches `2 ^ BITS` fails,
    given rounds enough to reach the leaf `2 ^ (2 * INTERIOR_BITS)`. -/
theorem ensureLoop_eq_false (hbits : 2 ≤ bits) {last : ℕ} (hlast : 2 ^ bits ≤ last)
    (hlast64 : last < 2 ^ 64) :
    ∀ fuel (m : PageMap3 α) key, key ≤ last → 1 ≤ fuel →
      2 ^ (2 * interiorBits bits) + 1 ≤ fuel + key / 2 ^ leafBits bits →
      (ensureLoop bits alloc last fuel m key).2 = false
  | 0, _, _, _, h1, _ => absurd h1 (by decide)
  | fuel + 1, m, key, hkey, _, hfuel => by
    rw [ensureLoop_succ, if_pos hkey]
    dsimp only
    split_ifs with hq hnode hleaf
    · rfl
    · have hnext : (key / 2 ^ leafBits bits + 1) * 2 ^ leafBits bits / 2 ^ leafBits bits =
          key / 2 ^ leafBits bits + 1 := Nat.mul_div_cancel _ (Nat.two_pow_pos _)
      -- the next key is at most `2 ^ BITS`, so at most `last`, and does not wrap
      have hle := succ_mul_le_two_pow hbits (Nat.lt_of_not_le hq)
      rw [Nat.mod_eq_of_lt (show (key / 2 ^ leafBits bits + 1) * 2 ^ leafBits bits < 2 ^ 64 by omega)]
      exact ensureLoop_eq_false hbits hlast hlast64 fuel _ _ (le_trans hle hlast) (by omega)
        (by rw [hnext]; omega)
    · rfl
    · rfl

/-- With an allocator that never fails, `Ensure(start, n)` works when
    `1 ≤ n` and `start + n ≤ 2 ^ BITS`. -/
theorem ensure_eq_true (halloc : ∀ i, alloc i = true) (hbits : 2 ≤ bits) (hbits64 : bits ≤ 64)
    (m : PageMap3 α) {start n : ℕ} (hn : 1 ≤ n) (hrange : start + n ≤ 2 ^ bits) :
    (ensure bits alloc m start n).2 = true := by
  have h64 : 2 ^ bits ≤ 2 ^ 64 := Nat.pow_le_pow_right (by decide) hbits64
  have hlast : PageMap.lastKey start n = start + n - 1 := PageMap.lastKey_eq (by omega) (by omega)
  exact ensureLoop_eq_true halloc hbits (by omega) _ _ _

/-- Whatever the allocator, `Ensure(start, n)` fails when its last key, as a
    `uintptr_t`, reaches `2 ^ BITS` and its start does not pass it. -/
theorem ensure_eq_false (hbits : 2 ≤ bits) (m : PageMap3 α) {start n : ℕ}
    (hlast : 2 ^ bits ≤ PageMap.lastKey start n) (hstart : start ≤ PageMap.lastKey start n) :
    (ensure bits alloc m start n).2 = false :=
  ensureLoop_eq_false hbits hlast (PageMap.lastKey_lt _ _) _ _ _ hstart (Nat.le_add_left 1 _)
    (Nat.le_add_right _ _)

/-- With rounds enough to reach the leaf `2 ^ (2 * INTERIOR_BITS)`, more
    rounds change nothing: below `BITS = 64` the loop ends on its own
    condition. The induction is on the rounds. -/
theorem ensureLoop_add (hbits : 2 ≤ bits) (h64 : bits < 64) (last e : ℕ) :
    ∀ fuel (m : PageMap3 α) key, 1 ≤ fuel →
      2 ^ (2 * interiorBits bits) + 1 ≤ fuel + key / 2 ^ leafBits bits →
      ensureLoop bits alloc last (fuel + e) m key = ensureLoop bits alloc last fuel m key
  | 0, _, _, h1, _ => absurd h1 (by decide)
  | fuel + 1, m, key, _, hfuel => by
    rw [show fuel + 1 + e = fuel + e + 1 by omega, ensureLoop_succ, ensureLoop_succ]
    dsimp only
    split_ifs with hkey hq hnode hleaf
    · rfl
    · -- the round's leaf is in range, so the next key does not wrap
      rw [succ_mul_mod hbits h64 (Nat.lt_of_not_le hq)]
      exact ensureLoop_add hbits h64 last e fuel _ _ (by omega)
        (by rw [Nat.mul_div_cancel _ (Nat.two_pow_pos _)]; omega)
    · rfl
    · rfl
    · rfl

/-- `Ensure(start, n)` below `BITS = 64`: its loop, given any more rounds,
    ends the same. -/
theorem ensure_add (hbits : 2 ≤ bits) (h64 : bits < 64) (m : PageMap3 α) (start n e : ℕ) :
    ensureLoop bits alloc (PageMap.lastKey start n) (2 ^ (2 * interiorBits bits) + 1 + e) m start =
      ensure bits alloc m start n :=
  ensureLoop_add hbits h64 _ e _ m start (Nat.le_add_left 1 _) (Nat.le_add_right _ _)

/-- A successful `Ensure` whose range does not wrap around made the leaves of
    its range. -/
theorem covered_of_ensure (hbits : 2 ≤ bits) (m : PageMap3 α) {start n k : ℕ}
    (hwrap : start + n ≤ 2 ^ 64) (hok : (ensure bits alloc m start n).2 = true) (hk1 : start ≤ k)
    (hk2 : k < start + n) : covered bits (ensure bits alloc m start n).1 k := by
  have hlast := PageMap.lastKey_eq (by omega) hwrap
  exact covered_ensureLoop hbits (PageMap.lastKey_lt _ _) _ _ _ hok (Nat.le_add_left 1 _)
    (Nat.le_add_right _ _) k hk1 (by omega)

theorem covered_of_grows {m m' : PageMap3 α} (h : Grows bits m m') {k : ℕ}
    (hk : covered bits m k) : covered bits m' k := by
  obtain ⟨hlt, hsome⟩ := hk
  rw [leafOf_eq] at hsome
  exact ⟨hlt, by rw [leafOf_eq]; exact isSome_of_grows h hsome⟩

/-! ## `set` -/

/-- The leaves after the leaf `q` of the node `node` is replaced by `leaf'`. -/
theorem leafAt_update {m : PageMap3 α} {q : ℕ} {node : ℕ → Option (ℕ → Option α)}
    (hroot : m.root (q / 2 ^ interiorBits bits) = some node) (leaf' : ℕ → Option α) (c q' : ℕ) :
    leafAt bits ⟨Function.update m.root (q / 2 ^ interiorBits bits)
        (some (Function.update node (q % 2 ^ interiorBits bits) (some leaf'))), c⟩ q' =
      if q' = q then some leaf' else leafAt bits m q' := by
  unfold leafAt
  by_cases h1 : q' / 2 ^ interiorBits bits = q / 2 ^ interiorBits bits
  · by_cases h2 : q' % 2 ^ interiorBits bits = q % 2 ^ interiorBits bits
    · obtain rfl : q' = q := Nat.ext_div_mod h1 h2
      simp
    · have hne : q' ≠ q := fun h => h2 (by rw [h])
      simp [h1, hroot, Function.update_of_ne h2, hne]
  · have hne : q' ≠ q := fun h => h1 (by rw [h])
    simp [Function.update_of_ne h1, hne]

/-- A `set` on a key whose leaf exists writes that key alone, and keeps the
    leaves. -/
theorem set_of_covered {m : PageMap3 α} {k : ℕ} (v : Option α) (hk : covered bits m k) :
    ∃ m', set bits m k v = some m' ∧
      (∀ k', get bits m' k' = Function.update (get bits m) k v k') ∧
      ∀ k', covered bits m k' → covered bits m' k' := by
  obtain ⟨hklt, hsome⟩ := hk
  rw [leafOf_eq] at hsome
  obtain ⟨leaf, hleaf⟩ := Option.isSome_iff_exists.1 hsome
  have hleaf' := hleaf
  simp only [leafAt, Option.bind_eq_some_iff] at hleaf'
  obtain ⟨node, hroot, hnode⟩ := hleaf'
  -- the tree with the key written in its leaf
  have hleafAt := leafAt_update hroot (Function.update leaf (k % 2 ^ leafBits bits) v) m.calls
  refine ⟨⟨Function.update m.root (k / 2 ^ leafBits bits / 2 ^ interiorBits bits)
    (some (Function.update node (k / 2 ^ leafBits bits % 2 ^ interiorBits bits)
      (some (Function.update leaf (k % 2 ^ leafBits bits) v)))), m.calls⟩,
    ?_, fun k' => ?_, fun k' ⟨hk', hs'⟩ => ⟨hk', ?_⟩⟩
  · simp only [set, shiftRight_leafBits_add]
    simp only [Nat.shiftRight_eq_div_pow, Nat.and_two_pow_sub_one_eq_mod, hroot, hnode]
  · rw [get_eq, hleafAt]
    by_cases hkk : k' = k
    · subst hkk
      simp [Nat.not_le.2 hklt]
    · rw [Function.update_of_ne hkk, get_eq]
      split_ifs with hk' hd
      · rfl
      · -- the same leaf, at another index
        have hm : k' % 2 ^ leafBits bits ≠ k % 2 ^ leafBits bits :=
          fun hm => hkk (Nat.ext_div_mod hd hm)
        rw [hd, hleaf]
        simp [Function.update_of_ne hm]
      · rfl
  · rw [leafOf_eq] at hs' ⊢
    rw [hleafAt]
    split_ifs
    · rfl
    · exact hs'

/-- The three-level tree is a lawful page map. -/
theorem lawful (hbits : 2 ≤ bits) : (impl bits alloc : PageMap.Impl (PageMap3 α) α).Lawful where
  get_ensure m start _ k := congrFun (get_of_grows (grows_ensureLoop _ _ m start)) k
  covered_ensure m start _ _ hk := covered_of_grows (grows_ensureLoop _ _ m start) hk
  covered_of_ensure m _ _ _ hwrap hok hk1 hk2 := covered_of_ensure hbits m hwrap hok hk1 hk2
  set_of_covered _ _ v hk := set_of_covered v hk

/-! ## `Next` -/

/-- Past the leaf `q` comes the first leaf of the next interior node. -/
theorem lt_nextNode (q : ℕ) : q < (q / 2 ^ interiorBits bits + 1) * 2 ^ interiorBits bits := by
  rw [Nat.succ_mul]
  exact Nat.lt_div_mul_add (Nat.two_pow_pos _)

/-- The leaves from `q` up to the first leaf of the next interior node are
    those of the node of `q`. -/
theorem div_eq_of_lt_nextNode {q j : ℕ} (h1 : q ≤ j)
    (h2 : j < (q / 2 ^ interiorBits bits + 1) * 2 ^ interiorBits bits) :
    j / 2 ^ interiorBits bits = q / 2 ^ interiorBits bits := by
  have := Nat.div_mul_le_self q (2 ^ interiorBits bits)
  rw [Nat.div_eq_iff (Nat.two_pow_pos _)]
  rw [Nat.succ_mul] at h2
  omega

/-- `(i1 + 1) << (LEAF_BITS + INTERIOR_BITS)`, the first key of the next
    interior node, is the first key of its first leaf. -/
theorem nextNode_key (q : ℕ) :
    (q / 2 ^ interiorBits bits + 1) * 2 ^ (leafBits bits + interiorBits bits) =
      (q / 2 ^ interiorBits bits + 1) * 2 ^ interiorBits bits * 2 ^ leafBits bits := by
  rw [Nat.pow_add, Nat.mul_comm (2 ^ leafBits bits), Nat.mul_assoc]

/-- The loop of `Next`, with rounds enough to reach the leaf
    `2 ^ (2 * INTERIOR_BITS)`, is the scan of the flat map from `k` to
    `2 ^ BITS`: by induction on the rounds, past a missing interior node to
    the next node, or through the leaf of `k` to the next leaf. -/
theorem nextLoop_eq (hbits : 2 ≤ bits) (h64 : bits < 64) (m : PageMap3 α) :
    ∀ fuel k, 2 ^ (2 * interiorBits bits) ≤ fuel + k / 2 ^ leafBits bits →
      nextLoop bits m fuel k = scanFrom (get bits m) (2 ^ bits - k) k
  | 0, k, h => by
    -- no round is left only past the last leaf
    have : 2 ^ bits ≤ k := by
      rw [two_pow_bits hbits]
      exact (Nat.le_div_iff_mul_le (Nat.two_pow_pos _)).1 (by omega)
    rw [Nat.sub_eq_zero_of_le this]
    rfl
  | fuel + 1, k, h => by
    simp only [nextLoop, shiftRight_leafBits_add]
    simp only [Nat.shiftRight_eq_div_pow, Nat.and_two_pow_sub_one_eq_mod, Nat.shiftLeft_eq]
    split_ifs with hk
    · have hq := div_lt_of_lt hbits hk
      have hpos := Nat.two_pow_pos (leafBits bits)
      have hlt : k < (k / 2 ^ leafBits bits + 1) * 2 ^ leafBits bits := (div_eq_iff.1 rfl).2
      cases hroot : m.root (k / 2 ^ leafBits bits / 2 ^ interiorBits bits) with
      | none =>
        -- no leaf of the missing interior node holds a value: on to the next node
        dsimp only
        have hnext : k / 2 ^ leafBits bits <
            (k / 2 ^ leafBits bits / 2 ^ interiorBits bits + 1) * 2 ^ interiorBits bits :=
          lt_nextNode _
        have hle : (k / 2 ^ leafBits bits / 2 ^ interiorBits bits + 1) * 2 ^ interiorBits bits ≤
            2 ^ (2 * interiorBits bits) := by
          rw [Nat.two_mul, Nat.pow_add] at hq ⊢
          exact Nat.mul_le_mul_right _ (Nat.div_lt_of_lt_mul hq)
        have hend : (k / 2 ^ leafBits bits / 2 ^ interiorBits bits + 1) * 2 ^ interiorBits bits *
            2 ^ leafBits bits ≤ 2 ^ bits := by
          rw [two_pow_bits hbits]
          exact Nat.mul_le_mul_right _ hle
        have hke : k ≤ (k / 2 ^ leafBits bits / 2 ^ interiorBits bits + 1) * 2 ^ interiorBits bits *
            2 ^ leafBits bits := le_trans hlt.le (Nat.mul_le_mul_right _ hnext)
        have hnone : scanFrom (get bits m) ((k / 2 ^ leafBits bits / 2 ^ interiorBits bits + 1) *
            2 ^ interiorBits bits * 2 ^ leafBits bits - k) k = none := by
          refine scanFrom_eq_none_iff.2 fun j hj1 hj2 => ?_
          have hj : j / 2 ^ leafBits bits / 2 ^ interiorBits bits =
              k / 2 ^ leafBits bits / 2 ^ interiorBits bits :=
            div_eq_of_lt_nextNode (Nat.div_le_div_right hj1)
              (Nat.div_lt_of_lt_mul (by rw [Nat.mul_comm (2 ^ leafBits bits)]; omega))
          rw [get_eq, if_neg (by omega)]
          simp [leafAt, hj, hroot]
        -- the first key of the next node, at most `2 ^ BITS`, does not wrap
        rw [nextNode_key, Nat.mod_eq_of_lt (lt_of_le_of_lt hend (Nat.pow_lt_pow_right (by decide) h64)),
          nextLoop_eq hbits h64 m fuel _ (by rw [Nat.mul_div_cancel _ hpos]; omega),
          scanFrom_sub_split hke hend, hnone, Option.none_or]
      | some node =>
        dsimp only
        have hend := succ_mul_le_two_pow hbits hq
        have hleaf : leafAt bits m (k / 2 ^ leafBits bits) =
            node (k / 2 ^ leafBits bits % 2 ^ interiorBits bits) := by
          simp [leafAt, hroot]
        -- the keys of the leaf of `k` from `k` on, and the keys after them
        rw [succ_mul_mod hbits h64 hq, (readsLeaves m).scanFrom_eq_or hend, hleaf]
        have hfuel : 2 ^ (2 * interiorBits bits) ≤
            fuel + (k / 2 ^ leafBits bits + 1) * 2 ^ leafBits bits / 2 ^ leafBits bits := by
          rw [Nat.mul_div_cancel _ hpos]
          omega
        cases node (k / 2 ^ leafBits bits % 2 ^ interiorBits bits) with
        | none =>
          -- a missing leaf: on to the next leaf
          rw [nextLoop_eq hbits h64 m fuel _ hfuel]
          rfl
        | some leaf =>
          simp only [Option.bind_some]
          cases scanFrom leaf (2 ^ leafBits bits - k % 2 ^ leafBits bits) (k % 2 ^ leafBits bits) with
          | some v => rfl
          | none =>
            rw [nextLoop_eq hbits h64 m fuel _ hfuel]
            rfl
    · rw [Nat.sub_eq_zero_of_le (Nat.le_of_not_lt hk)]
      rfl

/-- `Next(k)` is the first value of the flat map at or after `k`. -/
theorem next_eq_flatNext (hbits : 2 ≤ bits) (h64 : bits < 64) (m : PageMap3 α) (k : ℕ) :
    next bits m k = PageMap.flatNext bits (get bits m) k :=
  nextLoop_eq hbits h64 m _ k (Nat.le_add_right_of_le (Nat.le_add_right _ 1))

/-- The three-level tree, with its `Next`, is the flat map of the keys below
    `2 ^ BITS`. -/
theorem isFlatMap (hbits : 2 ≤ bits) (h64 : bits < 64) :
    (impl bits alloc : PageMap.Impl (PageMap3 α) α).IsFlatMap (next bits) bits where
  run_get ops m K hK hs hw := PageMap.Impl.run_get (lawful hbits) ops m K hK hs hw
  get_of_le _ _ hk := get_of_le hk
  get_ensure := (lawful hbits).get_ensure
  covered_of_ensure := (lawful hbits).covered_of_ensure
  ensure_eq_false m _ _ hn hlt hwrap :=
    ensure_eq_false hbits m (PageMap.le_lastKey hn hlt hwrap).1 (PageMap.le_lastKey hn hlt hwrap).2
  next_eq := next_eq_flatNext hbits h64

end PageMap3

/-! ## Both trees -/

end Gperftools
