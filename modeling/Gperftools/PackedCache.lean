import Gperftools.Common
import Gperftools.Lib.DirectMap
import Mathlib.Data.Nat.Bitwise

/-!
# The packed cache

`PackedCache<kKeybits>` (packed-cache-inl.h) is a direct-mapped cache from
keys to values of 7 bits: the slot of a key is its low `kHashbits` bits, and
the slot holds the rest of the key together with the value, or with the bit
`kInvalidMask` when it holds none. `TryGet` finds a value only if the slot
holds the same upper bits. The array is modelled as a function from slots to
words; `kHashbits` is `kWantHashBits` (16, or 12 in small-but-slow builds),
or `kKeybits` when the keys are narrower. The page heap's cache
(`pagemap_cache_`) has `kKeybits = kAddressBits - kPageShift`.

The cache refines a direct-mapped map (`DirectMap`) over the same slots:

* `Encodes`: each word of the array encodes the slot of the map, a key's
  upper bits with a value below `2 ^ kValuebits`, or a word with the bit
  `kInvalidMask` set for an empty slot; `Put`, `Invalidate` and `Clear` keep
  the encoding (`Encodes.put`, `Encodes.invalidate`, `encodes_empty`), and so
  does a whole run (`Encodes.run`);
* `tryGet_eq_lookup`: on an encoded array, `TryGet` is the map's lookup —
  the invalid bit and the upper bits of any other key put an entry's XOR
  with the key's upper bits at or above `2 ^ kValuebits`;
* `tryGet_run_iff`: from `Clear`, `TryGet(k)` finds `v` exactly when the last
  `Put`, `Invalidate` or `Clear` touching the slot of `k` was `Put(k, v)`.
-/

namespace Gperftools

/-- The slots of a packed cache, as `array_`. -/
abbrev PackedCache := ℕ → ℕ

namespace PackedCache

/-- `kHashbits` of `PackedCache<kKeybits>`: `kWantHashBits`, or `kKeybits`
    if it is smaller. -/
def kHashbits (kWantHashBits kKeybits : ℕ) : ℕ :=
  if kKeybits < kWantHashBits then kKeybits else kWantHashBits

/-- `kValuebits`. -/
def kValuebits : ℕ := 7

/-- `kInvalidMask`. -/
def kInvalidMask : ℕ := 0x80

/-- The cache after `Clear`: `memset` to `kInvalidMask` bytes. -/
def empty : PackedCache := fun _ => 0x8080808080808080

variable (hashbits : ℕ)

/-- `Hash(key)`: the slot of a key. -/
def hash (key : ℕ) : ℕ := key &&& (2 ^ hashbits - 1)

/-- `KeyToUpper(key)`: the key without its slot bits. -/
def keyToUpper (key : ℕ) : ℕ := key ^^^ hash hashbits key

/-- `TryGet(key)`: the value cached for `key`, if its slot holds it. -/
def tryGet (c : PackedCache) (key : ℕ) : Option ℕ :=
  let entry := c (hash hashbits key) ^^^ keyToUpper hashbits key
  if entry ≥ 1 <<< kValuebits then none else some entry

/-- `Put(key, value)`. -/
def put (c : PackedCache) (key value : ℕ) : PackedCache :=
  Function.update c (hash hashbits key) (keyToUpper hashbits key ||| value)

/-- `Invalidate(key)`. -/
def invalidate (c : PackedCache) (key : ℕ) : PackedCache :=
  Function.update c (hash hashbits key) (keyToUpper hashbits key ||| kInvalidMask)

/-- Performs a call to the cache: `Put`, `Invalidate` or `Clear`. -/
def apply (c : PackedCache) : DirectMap.Op ℕ ℕ → PackedCache
  | .put k v => put hashbits c k v
  | .invalidate k => invalidate hashbits c k
  | .clear => empty

/-- Performs the calls in order. -/
def run (c : PackedCache) (ops : List (DirectMap.Op ℕ ℕ)) : PackedCache :=
  ops.foldl (apply hashbits) c

/-! ## The bits of a key -/

variable {hashbits}

theorem testBit_hash (key i : ℕ) :
    (hash hashbits key).testBit i = (key.testBit i && decide (i < hashbits)) := by
  rw [hash, Nat.testBit_and, Nat.testBit_two_pow_sub_one]

/-- The upper bits of a key are its bits from `hashbits` on. -/
theorem testBit_keyToUpper (key i : ℕ) :
    (keyToUpper hashbits key).testBit i = (key.testBit i && decide (hashbits ≤ i)) := by
  rw [keyToUpper, Nat.testBit_xor, testBit_hash]
  by_cases hi : i < hashbits
  · simp [hi, Nat.not_le.2 hi]
  · simp [hi, Nat.le_of_not_lt hi]

/-- A key is its slot and its upper bits. -/
theorem eq_of_hash_eq_of_keyToUpper_eq {k k' : ℕ} (hh : hash hashbits k = hash hashbits k')
    (hu : keyToUpper hashbits k = keyToUpper hashbits k') : k = k' := by
  apply Nat.eq_of_testBit_eq
  intro i
  have hhi := congrArg (Nat.testBit · i) hh
  have hui := congrArg (Nat.testBit · i) hu
  simp only [testBit_hash, testBit_keyToUpper] at hhi hui
  by_cases hi : i < hashbits
  · simpa [hi] using hhi
  · simpa [Nat.le_of_not_lt hi] using hui

/-- Below `2 ^ hashbits`, a value sits beside the upper bits: the `|` of
    `Put` is an `^`. -/
theorem keyToUpper_or_eq_xor {key v : ℕ} (hv : v < 2 ^ hashbits) :
    keyToUpper hashbits key ||| v = keyToUpper hashbits key ^^^ v := by
  apply Nat.eq_of_testBit_eq
  intro i
  rw [Nat.testBit_or, Nat.testBit_xor, testBit_keyToUpper]
  by_cases hi : hashbits ≤ i
  · have : v.testBit i = false :=
      Nat.testBit_eq_false_of_lt (lt_of_lt_of_le hv (Nat.pow_le_pow_right (by decide) hi))
    simp [this]
  · simp [hi]

/-! ## Refinement of a direct-mapped map -/

/-- The word `w` in slot `i` encodes the slot's entry `e` of a direct-mapped
    map: the invalid bit for an empty slot, or the upper bits of a key of the
    slot beside a value below `2 ^ kValuebits`. -/
def SlotEncodes (hashbits i w : ℕ) : Option (ℕ × ℕ) → Prop
  | none => w.testBit 7 = true
  | some (k, v) => hash hashbits k = i ∧ v < 2 ^ kValuebits ∧ w = keyToUpper hashbits k ||| v

/-- The array `c` encodes the map `m`, slot by slot. -/
def Encodes (hashbits : ℕ) (c : PackedCache) (m : DirectMap ℕ ℕ ℕ) : Prop :=
  ∀ i, SlotEncodes hashbits i (c i) (m i)

/-- The memset of `Clear` encodes the empty map. -/
theorem encodes_empty : Encodes hashbits empty DirectMap.empty := fun _ => by
  simp only [SlotEncodes, DirectMap.empty, empty]
  decide

@[simp] theorem put_apply_hash (c : PackedCache) (k v : ℕ) :
    put hashbits c k v (hash hashbits k) = keyToUpper hashbits k ||| v :=
  Function.update_self _ _ _

theorem put_apply_of_ne {c : PackedCache} {k v i : ℕ} (hi : i ≠ hash hashbits k) :
    put hashbits c k v i = c i :=
  Function.update_of_ne hi _ _

@[simp] theorem invalidate_apply_hash (c : PackedCache) (k : ℕ) :
    invalidate hashbits c k (hash hashbits k) = keyToUpper hashbits k ||| kInvalidMask :=
  Function.update_self _ _ _

theorem invalidate_apply_of_ne {c : PackedCache} {k i : ℕ} (hi : i ≠ hash hashbits k) :
    invalidate hashbits c k i = c i :=
  Function.update_of_ne hi _ _

section Steps

variable {c : PackedCache} {m : DirectMap ℕ ℕ ℕ}

theorem Encodes.put (h : Encodes hashbits c m) (k : ℕ) {v : ℕ} (hv : v < 2 ^ kValuebits) :
    Encodes hashbits (put hashbits c k v) ((DirectMap.Op.put k v).apply (hash hashbits) m) := by
  intro i
  by_cases hi : i = hash hashbits k
  · subst hi
    rw [DirectMap.Op.apply_of_touches (by simp [DirectMap.Op.touches]), put_apply_hash]
    exact ⟨rfl, hv, rfl⟩
  · rw [DirectMap.Op.apply_of_not_touches (by simp [DirectMap.Op.touches, Ne.symm hi]),
      put_apply_of_ne hi]
    exact h i

theorem Encodes.invalidate (h : Encodes hashbits c m) (k : ℕ) :
    Encodes hashbits (invalidate hashbits c k)
      ((DirectMap.Op.invalidate k).apply (hash hashbits) m) := by
  intro i
  by_cases hi : i = hash hashbits k
  · subst hi
    rw [DirectMap.Op.apply_of_touches (by simp [DirectMap.Op.touches]), invalidate_apply_hash]
    show (keyToUpper hashbits k ||| kInvalidMask).testBit 7 = true
    rw [Nat.testBit_or, Bool.or_eq_true]
    exact Or.inr (by decide)
  · rw [DirectMap.Op.apply_of_not_touches (by simp [DirectMap.Op.touches, Ne.symm hi]),
      invalidate_apply_of_ne hi]
    exact h i

/-- Every call keeps the encoding. -/
theorem Encodes.apply (h : Encodes hashbits c m)
    (op : DirectMap.Op ℕ ℕ) (hop : ∀ k v, op = .put k v → v < 2 ^ kValuebits) :
    Encodes hashbits (PackedCache.apply hashbits c op) (op.apply (hash hashbits) m) := by
  cases op with
  | put k v => exact h.put k (hop k v rfl)
  | invalidate k => exact h.invalidate k
  | clear => exact encodes_empty

/-- A run of calls, each `Put` of a value below `2 ^ kValuebits`, keeps the
    encoding: by induction on the calls, each step by `Encodes.apply`. -/
theorem Encodes.run (h : Encodes hashbits c m)
    (ops : List (DirectMap.Op ℕ ℕ)) (hops : ∀ k v, DirectMap.Op.put k v ∈ ops → v < 2 ^ kValuebits) :
    Encodes hashbits (PackedCache.run hashbits c ops) (DirectMap.run (hash hashbits) m ops) := by
  induction ops generalizing c m with
  | nil => exact h
  | cons op ops ih =>
    refine ih (h.apply op fun k v hkv => hops k v (hkv ▸ List.mem_cons_self)) ?_
    exact fun k v hkv => hops k v (List.mem_cons_of_mem _ hkv)

end Steps

/-- On an encoded array, `TryGet` is the lookup of the map. -/
theorem tryGet_eq_lookup {c : PackedCache} {m : DirectMap ℕ ℕ ℕ} (hb : kValuebits + 1 ≤ hashbits)
    (h : Encodes hashbits c m) (k : ℕ) :
    tryGet hashbits c k = DirectMap.lookup (hash hashbits) m k := by
  have hb8 : 8 ≤ hashbits := hb
  have h7 : 2 ^ kValuebits ≤ 2 ^ hashbits := Nat.pow_le_pow_right (by decide) (by omega)
  have hk := h (hash hashbits k)
  unfold tryGet DirectMap.lookup
  simp only [Nat.one_shiftLeft]
  revert hk
  cases m (hash hashbits k) with
  | none =>
    -- the invalid bit survives the XOR with the upper bits
    intro hk
    have hbit : (c (hash hashbits k) ^^^ keyToUpper hashbits k).testBit kValuebits = true := by
      rw [Nat.testBit_xor, testBit_keyToUpper]
      simp only [SlotEncodes] at hk
      simp [kValuebits, hk, show ¬ hashbits ≤ 7 by omega]
    simp [Nat.ge_two_pow_of_testBit hbit]
  | some e =>
    obtain ⟨k', v⟩ := e
    rintro ⟨hh, hv, hw⟩
    rw [hw, keyToUpper_or_eq_xor (lt_of_lt_of_le hv h7)]
    by_cases hk' : k' = k
    · -- the slot holds `k`: the XOR leaves the value
      subst hk'
      rw [Nat.xor_comm, ← Nat.xor_assoc, Nat.xor_self, Nat.zero_xor]
      simp [Nat.not_le.2 hv]
    · -- another key of the slot differs in an upper bit, at or above `2 ^ hashbits`
      have hu : keyToUpper hashbits k' ≠ keyToUpper hashbits k :=
        fun hu => hk' (eq_of_hash_eq_of_keyToUpper_eq (hh.trans rfl) hu)
      obtain ⟨j, hj⟩ : ∃ j, (keyToUpper hashbits k').testBit j ≠ (keyToUpper hashbits k).testBit j := by
        by_contra hall
        simp only [not_exists, ne_eq, not_not] at hall
        exact hu (Nat.eq_of_testBit_eq hall)
      have hjb : hashbits ≤ j := by
        by_contra hjb
        simp [testBit_keyToUpper, hjb] at hj
      have hbit : (keyToUpper hashbits k' ^^^ v ^^^ keyToUpper hashbits k).testBit j = true := by
        have hvj : v.testBit j = false :=
          Nat.testBit_eq_false_of_lt (lt_of_lt_of_le (lt_of_lt_of_le hv h7)
            (Nat.pow_le_pow_right (by decide) hjb))
        rw [Nat.testBit_xor, Nat.testBit_xor, hvj]
        revert hj
        cases (keyToUpper hashbits k').testBit j <;> cases (keyToUpper hashbits k).testBit j <;> simp
      have hge : 2 ^ kValuebits ≤ keyToUpper hashbits k' ^^^ v ^^^ keyToUpper hashbits k :=
        le_trans (le_trans h7 (Nat.pow_le_pow_right (by decide) hjb)) (Nat.ge_two_pow_of_testBit hbit)
      simp [hge, hk']

/-- The cache behaves as a direct-mapped map: for every `PackedCache<kKeybits>`
    that its `static_assert`s admit, from `Clear`, after any calls `Put(k, v)`
    with `v < 2 ^ kValuebits`, `Invalidate(k)` and `Clear()`, `TryGet(k)` finds
    `v` exactly when the last of the calls touching the slot of `k` was
    `Put(k, v)`. -/
theorem tryGet_run_iff (kWantHashBits kKeybits : ℕ)
    (hb : kValuebits + 1 ≤ kHashbits kWantHashBits kKeybits) (ops : List (DirectMap.Op ℕ ℕ))
    (hops : ∀ k v, DirectMap.Op.put k v ∈ ops → v < 2 ^ kValuebits) (k v : ℕ) :
    tryGet (kHashbits kWantHashBits kKeybits) (run (kHashbits kWantHashBits kKeybits) empty ops) k =
        some v ↔
      DirectMap.lastTouching (hash (kHashbits kWantHashBits kKeybits))
        (hash (kHashbits kWantHashBits kKeybits) k) ops = some (.put k v) := by
  rw [tryGet_eq_lookup hb (encodes_empty.run ops hops)]
  exact DirectMap.lookup_run_empty_eq_some_iff ops k v

/-- The page heap's cache, `PackedCache<35>` with 8 KiB pages, after a `Put`
    of the class 3 for page 5. -/
theorem tryGet_run_iff_pages :
    kValuebits + 1 ≤ kHashbits 16 35 ∧
      (tryGet (kHashbits 16 35) (run (kHashbits 16 35) empty [.put 5 3]) 5 = some 3 ↔
        DirectMap.lastTouching (hash (kHashbits 16 35)) (hash (kHashbits 16 35) 5) [.put 5 3] =
          some (.put 5 3)) :=
  ⟨by decide, tryGet_run_iff 16 35 (by decide) [.put 5 3] (by simp [kValuebits]) 5 3⟩

end PackedCache

end Gperftools
