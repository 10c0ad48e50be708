import Gperftools.HeapProfileTable
import Gperftools.AddressMap.Refine
import Gperftools.Lib.List
import Mathlib.Data.List.Find

/-!
# Accounting of the heap profile table

The counters of a bucket count the allocations made from its call stack and
not freed, the totals count all of them, and the allocation map holds the
allocations not freed: `Inv` relates the three, and keeps the hash table of
buckets a set of chains, one bucket for each call stack seen. The counters
wrap around `2 ^ 64`, so what they count is counted modulo `2 ^ 64`
(`Stats.Counts`).

* `AllocValue.bucket_setLive`, `AllocValue.bucket_setIgnore`: the flags
  share the low bits of the bucket pointer and never change the bucket;
* `Inv.getBucket`: `GetBucket` returns the bucket of the call stack, and makes
  one only for a stack that has none;
* `Inv.recordAlloc`, `Inv.recordFree`, `Inv.markAsLive`, `Inv.markAsIgnored`:
  each call keeps the invariant, and `Inv.run`: so does every run of them
  from `init` in which `RecordAlloc` records only pointers not recorded.

The buckets live where the allocator of the table puts them: the `n`-th one
at `bucketAddr n`, which for the invariant has to be a fresh 64-bit address
with its two low bits clear (`Fresh`).
-/

namespace Gperftools

namespace HeapProfileTable

/-! ## The flags -/

namespace AllocValue

theorem testBit_add_two_of_lt_four {c : ℕ} (hc : c < 4) (j : ℕ) : c.testBit (j + 1 + 1) = false := by
  have h := Nat.pow_le_pow_right (show 0 < 2 by decide) (show 2 ≤ j + 1 + 1 by omega)
  exact Nat.testBit_lt_two_pow (by omega)

/-- `set_live` writes bit 0, which `bucket()` masks out. -/
theorem bucket_setLive (v : AllocValue) (l : Bool) : (v.setLive l).bucket = v.bucket := by
  apply Nat.eq_of_testBit_eq
  intro i
  simp only [bucket, setLive, show kMask = 3 by rfl, kLive, Nat.testBit_and, Nat.testBit_or,
    Word.testBit_complement (show (3 : ℕ) < 2 ^ 64 by decide),
    Word.testBit_complement (show (1 : ℕ) < 2 ^ 64 by decide)]
  -- bits 0 and 1 are masked out; above them both flags are clear
  rcases i with _ | _ | i
  · cases l <;> simp
  · cases l <;> simp [show Nat.testBit 1 1 = false by decide, show Nat.testBit 3 1 = true by decide]
  · cases l <;> simp [testBit_add_two_of_lt_four (show (1 : ℕ) < 4 by decide),
      testBit_add_two_of_lt_four (show (3 : ℕ) < 4 by decide)]

/-- `set_ignore` writes bit 1, which `bucket()` masks out. -/
theorem bucket_setIgnore (v : AllocValue) (r : Bool) : (v.setIgnore r).bucket = v.bucket := by
  apply Nat.eq_of_testBit_eq
  intro i
  simp only [bucket, setIgnore, show kMask = 3 by rfl, kIgnore, Nat.testBit_and, Nat.testBit_or,
    Word.testBit_complement (show (3 : ℕ) < 2 ^ 64 by decide),
    Word.testBit_complement (show (2 : ℕ) < 2 ^ 64 by decide)]
  rcases i with _ | _ | i
  · cases r <;> simp [show Nat.testBit 2 0 = false by decide]
  · cases r <;> simp [show Nat.testBit 3 1 = true by decide]
  · cases r <;> simp [testBit_add_two_of_lt_four (show (2 : ℕ) < 4 by decide),
      testBit_add_two_of_lt_four (show (3 : ℕ) < 4 by decide)]

/-- `set_bucket(b)` of a 64-bit bucket pointer with its two low bits clear
    reads back `b`. -/
theorem bucket_mk {b : ℕ} (hb : b % 4 = 0) (hb' : b < 2 ^ 64) (n : ℕ) :
    (⟨b, n⟩ : AllocValue).bucket = b := by
  rw [bucket, show kMask = 2 ^ 2 - 1 by rfl, Word.and_complement (by decide) hb']
  omega

end AllocValue

/-! ## What the counters count -/

/-- A recorded allocation: its pointer, the bucket it is attributed to, and
    its size. -/
structure Record where
  ptr : ℕ
  bucket : ℕ
  bytes : ℕ
deriving DecidableEq

/-- The counters `s` count the allocations `rs`, not freed, modulo `2 ^ 64`:
    as many more allocations than frees, and as many more bytes. -/
def Stats.Counts (s : Stats) (rs : List Record) : Prop :=
  Word.add 64 s.frees rs.length = s.allocs ∧
    Word.add 64 s.freeSize (rs.map Record.bytes).sum = s.allocSize

namespace Stats

variable {s : Stats} {rs : List Record}

theorem counts_zero : Stats.zero.Counts [] := ⟨rfl, rfl⟩

theorem Counts.perm {rs' : List Record} (h : s.Counts rs) (hp : rs.Perm rs') : s.Counts rs' := by
  rw [Counts, ← hp.length_eq, ← (hp.map Record.bytes).sum_eq]
  exact h

theorem Counts.recordAlloc (h : s.Counts rs) (r : Record) : (s.recordAlloc r.bytes).Counts (r :: rs) := by
  obtain ⟨hallocs, hsize⟩ := h
  constructor
  · show Word.add 64 s.frees (rs.length + 1) = Word.add 64 s.allocs 1
    rw [← hallocs, Word.add_add]
  · show Word.add 64 s.freeSize (r.bytes + (rs.map Record.bytes).sum) = Word.add 64 s.allocSize r.bytes
    rw [← hsize, Word.add_add, Nat.add_comm]

theorem Counts.recordFree {r : Record} (h : s.Counts (r :: rs)) : (s.recordFree r.bytes).Counts rs := by
  obtain ⟨hallocs, hsize⟩ := h
  constructor
  · show Word.add 64 (Word.add 64 s.frees 1) rs.length = s.allocs
    rw [Word.add_add, Nat.add_comm, ← hallocs]
    rfl
  · show Word.add 64 (Word.add 64 s.freeSize r.bytes) (rs.map Record.bytes).sum = s.allocSize
    rw [Word.add_add, ← hsize]
    rfl

/-- What `allocs - frees` and `alloc_size - free_size` read: the count and
    the bytes of the allocations, modulo `2 ^ 64`. -/
theorem Counts.sub (h : s.Counts rs) :
    Word.sub 64 s.allocs s.frees = rs.length % 2 ^ 64 ∧
      Word.sub 64 s.allocSize s.freeSize = (rs.map Record.bytes).sum % 2 ^ 64 := by
  rw [← h.1, ← h.2]
  exact ⟨Word.sub_add_self _ _, Word.sub_add_self _ _⟩

end Stats

/-! ## Views of the table -/

variable (t : HeapProfileTable)

/-- The buckets of chain `s` of the hash table. -/
def slotBuckets (s : ℕ) : List ℕ := Chain.walk t.bucketNext t.numBuckets (t.bucketTable s)

/-- The buckets of the table. -/
def allBuckets : List ℕ := (List.range kHashTableSize).flatMap t.slotBuckets

/-- The chain of a call stack. -/
def slotOf (key : List ℕ) : ℕ := stackHash key % 2 ^ 32 % kHashTableSize

/-- The recorded allocations, one for each pointer of the allocation map. -/
def recs : List Record := t.addressMap.pairs.map fun p => ⟨p.1, p.2.bucket, p.2.bytes⟩

/-- The recorded allocations attributed to bucket `b`. -/
def attributed (b : ℕ) : List Record := t.recs.filter fun r => r.bucket == b

theorem slotOf_lt (key : List ℕ) : slotOf key < kHashTableSize := Nat.mod_lt _ (by decide)

theorem mem_allBuckets {b : ℕ} : b ∈ t.allBuckets ↔ ∃ s < kHashTableSize, b ∈ t.slotBuckets s := by
  simp [allBuckets]

/-- The block that `alloc_` returns for the `n`-th bucket: a 64-bit address
    with the two flag bits clear, not that of an earlier bucket. -/
def Fresh (bucketAddr : ℕ → ℕ) (n : ℕ) : Prop :=
  bucketAddr n % 4 = 0 ∧ bucketAddr n < 2 ^ 64 ∧ ∀ k < n, bucketAddr k ≠ bucketAddr n

instance (bucketAddr : ℕ → ℕ) (n : ℕ) : Decidable (Fresh bucketAddr n) :=
  inferInstanceAs (Decidable (_ ∧ _ ∧ _))

variable (bucketAddr : ℕ → ℕ) in
/-- The invariant of the table. -/
structure Inv : Prop where
  addressMap : t.addressMap.Inv
  slot_chain : ∀ s < kHashTableSize, Chain t.bucketNext (t.bucketTable s) (t.slotBuckets s)
  slot_of : ∀ s < kHashTableSize, ∀ b ∈ t.slotBuckets s, slotOf (t.buckets b).stack = s
  bucket_hash : ∀ b ∈ t.allBuckets, (t.buckets b).hash = stackHash (t.buckets b).stack
  bucket_depth : ∀ b ∈ t.allBuckets, (t.buckets b).depth = (t.buckets b).stack.length
  stacks_nodup : (t.allBuckets.map fun b => (t.buckets b).stack).Nodup
  num_buckets : t.allBuckets.length = t.numBuckets
  bucket_addr : ∀ b ∈ t.allBuckets, ∃ n < t.numBuckets, bucketAddr n = b
  bucket_word : ∀ b ∈ t.allBuckets, b % 4 = 0 ∧ b < 2 ^ 64
  rec_bucket : ∀ r ∈ t.recs, r.bucket ∈ t.allBuckets
  bucket_counts : ∀ b ∈ t.allBuckets, (t.buckets b).stats.Counts (t.attributed b)
  total_counts : t.total.Counts t.recs

section Inv

variable {t} {bucketAddr : ℕ → ℕ} (hm : t.Inv bucketAddr)
include hm

theorem Inv.stack_inj {x y : ℕ} (hx : x ∈ t.allBuckets) (hy : y ∈ t.allBuckets)
    (hxy : (t.buckets x).stack = (t.buckets y).stack) : x = y :=
  List.inj_on_of_nodup_map hm.stacks_nodup hx hy hxy

omit hm in
theorem slot_subset {s : ℕ} (hs : s < kHashTableSize) : t.slotBuckets s ⊆ t.allBuckets :=
  fun _ hb => t.mem_allBuckets.mpr ⟨s, hs, hb⟩

theorem Inv.slot_length_le {s : ℕ} (hs : s < kHashTableSize) : (t.slotBuckets s).length ≤ t.numBuckets := by
  rw [← hm.num_buckets]
  exact (List.subperm_of_subset (hm.slot_chain s hs).nodup (t.slot_subset hs)).length_le

/-- A bucket outside the table has nothing attributed to it. -/
theorem Inv.attributed_eq_nil {b : ℕ} (hb : b ∉ t.allBuckets) : t.attributed b = [] :=
  List.filter_eq_nil_iff.mpr fun r hr hrb => hb (beq_iff_eq.mp hrb ▸ hm.rec_bucket r hr)

end Inv

/-! ## Counters and the allocation map change, the chains do not -/

section Shape

variable {t} {t' : HeapProfileTable} (htable : t'.bucketTable = t.bucketTable)
  (hnum : t'.numBuckets = t.numBuckets)
  (hshape : ∀ x, t'.buckets x = { t.buckets x with stats := (t'.buckets x).stats })
include htable hnum hshape

theorem slotBuckets_of_shape : t'.slotBuckets = t.slotBuckets := by
  have hnext : t'.bucketNext = t.bucketNext := funext fun x => by
    rw [bucketNext, hshape x]
    rfl
  funext s
  rw [slotBuckets, slotBuckets, hnext, htable, hnum]

theorem allBuckets_of_shape : t'.allBuckets = t.allBuckets := by
  rw [allBuckets, allBuckets, slotBuckets_of_shape htable hnum hshape]

omit htable hnum in
theorem stack_of_shape (x : ℕ) : (t'.buckets x).stack = (t.buckets x).stack := by
  rw [hshape x]

/-- A table with the chains of `t` and other counters and allocations keeps
    the invariant when the counters count the allocations. -/
theorem Inv.of_shape {bucketAddr : ℕ → ℕ} (hm : t.Inv bucketAddr) (ham : t'.addressMap.Inv)
    (hrec : ∀ r ∈ t'.recs, r.bucket ∈ t.allBuckets)
    (hcounts : ∀ b ∈ t.allBuckets, (t'.buckets b).stats.Counts (t'.attributed b))
    (htotal : t'.total.Counts t'.recs) : t'.Inv bucketAddr := by
  have hslot := slotBuckets_of_shape htable hnum hshape
  have hall := allBuckets_of_shape htable hnum hshape
  have hnext : t'.bucketNext = t.bucketNext := funext fun x => by
    rw [bucketNext, hshape x]
    rfl
  have hfield : ∀ x, (t'.buckets x).hash = (t.buckets x).hash ∧
      (t'.buckets x).depth = (t.buckets x).depth := fun x => by
    rw [hshape x]
    exact ⟨rfl, rfl⟩
  refine ⟨ham, ?_, ?_, ?_, ?_, ?_, ?_, ?_, ?_, ?_, ?_, htotal⟩
  · intro s hs
    rw [hslot, hnext, htable]
    exact hm.slot_chain s hs
  · intro s hs b hb
    rw [stack_of_shape hshape]
    exact hm.slot_of s hs b (hslot ▸ hb)
  · intro b hb
    rw [(hfield b).1, stack_of_shape hshape]
    exact hm.bucket_hash b (hall ▸ hb)
  · intro b hb
    rw [(hfield b).2, stack_of_shape hshape]
    exact hm.bucket_depth b (hall ▸ hb)
  · rw [hall, List.map_congr_left fun x _ => stack_of_shape hshape x]
    exact hm.stacks_nodup
  · rw [hall, hnum]
    exact hm.num_buckets
  · rw [hall, hnum]
    exact hm.bucket_addr
  · rw [hall]
    exact hm.bucket_word
  · rw [hall]
    exact hrec
  · rw [hall]
    exact hcounts

end Shape

/-- Writing `b`'s counters keeps the rest of every bucket. -/
theorem update_stats_shape (buckets : ℕ → Bucket) (b : ℕ) (s : Stats) (x : ℕ) :
    Function.update buckets b { buckets b with stats := s } x =
      { buckets x with stats := (Function.update buckets b { buckets b with stats := s } x).stats } := by
  by_cases hx : x = b
  · subst hx
    simp
  · simp [Function.update_of_ne hx]

/-- Allocations that are a permutation of those of `t`, with one more, add
    it to the allocations of its bucket. -/
theorem attributed_perm_cons {t' : HeapProfileTable} {r : Record} (h : t'.recs.Perm (r :: t.recs))
    (b : ℕ) : (t'.attributed b).Perm (if r.bucket = b then r :: t.attributed b else t.attributed b) := by
  rw [attributed, attributed]
  refine (h.filter _).trans ?_
  by_cases hrb : r.bucket = b <;> simp [hrb]

variable {t} in
/-- A table with the allocation map replaced, to one with the same
    allocations up to order, keeps the invariant. -/
theorem Inv.of_recs_perm {bucketAddr : ℕ → ℕ} (hm : t.Inv bucketAddr) {am : AddressMap AllocValue}
    (ham : am.Inv) (hperm : ({ t with addressMap := am } : HeapProfileTable).recs.Perm t.recs) :
    ({ t with addressMap := am } : HeapProfileTable).Inv bucketAddr := by
  refine Inv.of_shape (by rfl) (by rfl) (by intro; rfl) hm ham (fun r hr => hm.rec_bucket r (hperm.subset hr))
    (fun b hb => (hm.bucket_counts b hb).perm (hperm.filter _).symm) (hm.total_counts.perm hperm.symm)

/-! ## `GetBucket` -/

section GetBucketFields

variable (bucketAddr : ℕ → ℕ) (key : List ℕ)

@[simp] theorem getBucket_addressMap : (t.getBucket bucketAddr key).2.addressMap = t.addressMap := by
  dsimp only [getBucket]
  split <;> rfl

@[simp] theorem getBucket_recs : (t.getBucket bucketAddr key).2.recs = t.recs := by
  rw [recs, getBucket_addressMap]
  rfl

theorem getBucket_numBuckets_le : (t.getBucket bucketAddr key).2.numBuckets ≤ t.numBuckets + 1 := by
  dsimp only [getBucket]
  split
  · exact Nat.le_succ _
  · exact le_refl _

end GetBucketFields

section GetBucket

variable {t} {bucketAddr : ℕ → ℕ} (hm : t.Inv bucketAddr) (key : List ℕ)
include hm

/-- On the chain of a stack, the test of `GetBucket` (hash, depth, then the
    frames) is the test of the frames. -/
theorem Inv.search_eq :
    Chain.search t.bucketNext (fun b => (t.buckets b).hash == stackHash key &&
        (t.buckets b).depth == key.length && (t.buckets b).stack == key) t.numBuckets
        (t.bucketTable (slotOf key)) =
      (t.slotBuckets (slotOf key)).find? fun b => (t.buckets b).stack == key := by
  have hs := slotOf_lt key
  rw [(hm.slot_chain _ hs).search_eq (hm.slot_length_le hs)]
  refine List.find?_congr fun b hb => ?_
  have hb' := t.slot_subset hs hb
  by_cases hkey : (t.buckets b).stack = key
  · simp [hm.bucket_hash b hb', hm.bucket_depth b hb', hkey]
  · simp [hkey]

theorem Inv.getBucket_eq : t.getBucket bucketAddr key =
    match (t.slotBuckets (slotOf key)).find? fun b => (t.buckets b).stack == key with
    | some b => (b, t)
    | none => (bucketAddr t.numBuckets,
        t.newBucket (bucketAddr t.numBuckets) (stackHash key) (slotOf key) key) := by
  rw [← hm.search_eq key]
  rfl

/-- A stack that has a bucket gets it; one that has none gets a new one. -/
theorem Inv.getBucket_cases :
    (∃ b ∈ t.allBuckets, (t.buckets b).stack = key ∧ t.getBucket bucketAddr key = (b, t)) ∨
      ((∀ b ∈ t.allBuckets, (t.buckets b).stack ≠ key) ∧ t.getBucket bucketAddr key =
        (bucketAddr t.numBuckets, t.newBucket (bucketAddr t.numBuckets) (stackHash key) (slotOf key) key)) := by
  by_cases hex : ∃ b ∈ t.allBuckets, (t.buckets b).stack = key
  · obtain ⟨b, hb, hkey⟩ := hex
    obtain ⟨s, hs, hbs⟩ := t.mem_allBuckets.mp hb
    have hslot : slotOf key = s := hkey ▸ hm.slot_of s hs b hbs
    -- the stacks of a chain are distinct, so the search finds `b`
    have hnodup : ((t.slotBuckets s).map fun x => (t.buckets x).stack).Nodup :=
      (List.nodup_map_iff_inj_on (hm.slot_chain s hs).nodup).mpr fun x hx y hy =>
        hm.stack_inj (t.slot_subset hs hx) (t.slot_subset hs hy)
    refine Or.inl ⟨b, hb, hkey, ?_⟩
    rw [hm.getBucket_eq, hslot,
      List.find?_eq_some_of_nodup_map (f := fun x => (t.buckets x).stack) hkey hnodup hbs]
  · push Not at hex
    refine Or.inr ⟨hex, ?_⟩
    rw [hm.getBucket_eq, List.find?_eq_none.mpr fun b hb hkey =>
      hex b (t.slot_subset (slotOf_lt key) hb) (beq_iff_eq.mp hkey)]

end GetBucket

/-! ## A new bucket -/

section NewBucket

variable (b h s : ℕ) (key : List ℕ)

@[simp] theorem newBucket_numBuckets : (t.newBucket b h s key).numBuckets = t.numBuckets + 1 := rfl
@[simp] theorem newBucket_recs : (t.newBucket b h s key).recs = t.recs := rfl
@[simp] theorem newBucket_attributed : (t.newBucket b h s key).attributed = t.attributed := rfl

theorem newBucket_buckets_of_ne {x : ℕ} (hx : x ≠ b) : (t.newBucket b h s key).buckets x = t.buckets x :=
  Function.update_of_ne hx _ _

@[simp] theorem newBucket_buckets_self :
    (t.newBucket b h s key).buckets b = ⟨Stats.zero, h, key.length, key, t.bucketTable s⟩ :=
  Function.update_self _ _ _

theorem newBucket_bucketNext :
    (t.newBucket b h s key).bucketNext = Function.update t.bucketNext b (t.bucketTable s) := by
  funext x
  by_cases hx : x = b
  · subst hx
    simp [bucketNext]
  · simp [bucketNext, newBucket_buckets_of_ne t b h s key hx, Function.update_of_ne hx]

@[simp] theorem newBucket_bucketTable_self : (t.newBucket b h s key).bucketTable s = some b :=
  Function.update_self _ _ _

theorem newBucket_bucketTable_of_ne {s' : ℕ} (hs : s' ≠ s) :
    (t.newBucket b h s key).bucketTable s' = t.bucketTable s' :=
  Function.update_of_ne hs _ _

end NewBucket

section NewBucketInv

variable {t} {bucketAddr : ℕ → ℕ} (hm : t.Inv bucketAddr) {b : ℕ} (hb : b ∉ t.allBuckets) (h : ℕ)
  {s : ℕ} (hs : s < kHashTableSize) (key : List ℕ)
include hm hb hs

/-- The new bucket goes first in its chain; the other chains are kept. -/
theorem Inv.newBucket_chain {s' : ℕ} (hs' : s' < kHashTableSize) :
    Chain (t.newBucket b h s key).bucketNext ((t.newBucket b h s key).bucketTable s')
      (if s' = s then b :: t.slotBuckets s else t.slotBuckets s') := by
  have hframe : ∀ {s''}, s'' < kHashTableSize →
      Chain (t.newBucket b h s key).bucketNext (t.bucketTable s'') (t.slotBuckets s'') := fun hs'' =>
    (hm.slot_chain _ hs'').frame fun x hx => by
      rw [newBucket_bucketNext, Function.update_of_ne fun hxb : x = b => hb (hxb ▸ t.slot_subset hs'' hx)]
  split_ifs with hss
  · rw [hss, newBucket_bucketTable_self]
    refine Chain.cons ?_
    rw [show (t.newBucket b h s key).bucketNext b = t.bucketTable s by
      rw [newBucket_bucketNext, Function.update_self]]
    exact hframe hs
  · rw [newBucket_bucketTable_of_ne t b h s key hss]
    exact hframe hs'

theorem Inv.slotBuckets_newBucket {s' : ℕ} (hs' : s' < kHashTableSize) :
    (t.newBucket b h s key).slotBuckets s' =
      if s' = s then b :: t.slotBuckets s else t.slotBuckets s' := by
  refine (hm.newBucket_chain hb h hs key hs').walk_eq ?_
  have := hm.slot_length_le hs'
  have := hm.slot_length_le hs
  split_ifs with hss
  · subst hss
    simp only [List.length_cons, newBucket_numBuckets]
    omega
  · simp only [newBucket_numBuckets]
    omega

/-- The table has one bucket more. -/
theorem Inv.allBuckets_newBucket : (t.newBucket b h s key).allBuckets.Perm (b :: t.allBuckets) := by
  have hupdate := List.flatMap_perm_of_update (f := t.slotBuckets)
    (g := (t.newBucket b h s key).slotBuckets) List.nodup_range (List.mem_range.mpr hs)
    fun x hx hxs => by rw [hm.slotBuckets_newBucket hb h hs key (List.mem_range.mp hx), if_neg hxs]
  rw [hm.slotBuckets_newBucket hb h hs key hs, if_pos rfl] at hupdate
  rw [← List.perm_append_right_iff (t.slotBuckets s)]
  exact hupdate.trans List.perm_middle

theorem Inv.mem_allBuckets_newBucket {x : ℕ} :
    x ∈ (t.newBucket b h s key).allBuckets ↔ x = b ∨ x ∈ t.allBuckets := by
  rw [(hm.allBuckets_newBucket hb h hs key).mem_iff, List.mem_cons]

end NewBucketInv

section NewBucketInv

variable {t} {bucketAddr : ℕ → ℕ} (hm : t.Inv bucketAddr) (key : List ℕ)
  (hfresh : Fresh bucketAddr t.numBuckets)
include hm hfresh

theorem Inv.not_mem_of_fresh : bucketAddr t.numBuckets ∉ t.allBuckets := fun hb => by
  obtain ⟨n, hn, hbn⟩ := hm.bucket_addr _ hb
  exact hfresh.2.2 n hn hbn

/-- A new bucket for a stack that has none keeps the invariant. -/
theorem Inv.newBucket (hkey : ∀ x ∈ t.allBuckets, (t.buckets x).stack ≠ key) :
    (t.newBucket (bucketAddr t.numBuckets) (stackHash key) (slotOf key) key).Inv bucketAddr := by
  have hb := hm.not_mem_of_fresh hfresh
  have hs := slotOf_lt key
  have hmem := fun x => hm.mem_allBuckets_newBucket hb (stackHash key) hs key (x := x)
  have hold : ∀ x ∈ t.allBuckets, (t.newBucket (bucketAddr t.numBuckets) (stackHash key) (slotOf key) key).buckets x = t.buckets x :=
    fun x hx => newBucket_buckets_of_ne _ _ _ _ _ fun hxb => hb (hxb ▸ hx)
  refine ⟨hm.addressMap, ?_, ?_, ?_, ?_, ?_, ?_, ?_, ?_, ?_, ?_, hm.total_counts⟩
  · intro s' hs'
    rw [hm.slotBuckets_newBucket hb _ hs key hs']
    exact hm.newBucket_chain hb _ hs key hs'
  · intro s' hs' x hx
    rw [hm.slotBuckets_newBucket hb _ hs key hs'] at hx
    split_ifs at hx with hss
    · rcases List.mem_cons.mp hx with rfl | hx
      · rw [newBucket_buckets_self, hss]
      · rw [hold x (t.slot_subset hs hx), hss]
        exact hm.slot_of _ hs x hx
    · rw [hold x (t.slot_subset hs' hx)]
      exact hm.slot_of s' hs' x hx
  · intro x hx
    rcases (hmem x).mp hx with rfl | hx
    · simp
    · rw [hold x hx]
      exact hm.bucket_hash x hx
  · intro x hx
    rcases (hmem x).mp hx with rfl | hx
    · simp
    · rw [hold x hx]
      exact hm.bucket_depth x hx
  · -- the new stack is not among the old ones
    rw [((hm.allBuckets_newBucket hb _ hs key).map _).nodup_iff, List.map_cons, newBucket_buckets_self,
      List.map_congr_left fun x hx => congrArg Bucket.stack (hold x hx), List.nodup_cons]
    refine ⟨fun hk => ?_, hm.stacks_nodup⟩
    obtain ⟨x, hx, hxk⟩ := List.mem_map.mp hk
    exact hkey x hx hxk
  · rw [(hm.allBuckets_newBucket hb _ hs key).length_eq, List.length_cons, hm.num_buckets]
    rfl
  · intro x hx
    rcases (hmem x).mp hx with rfl | hx
    · exact ⟨t.numBuckets, Nat.lt_succ_self _, rfl⟩
    · obtain ⟨n, hn, hxn⟩ := hm.bucket_addr x hx
      exact ⟨n, Nat.lt_succ_of_lt hn, hxn⟩
  · intro x hx
    rcases (hmem x).mp hx with rfl | hx
    · exact ⟨hfresh.1, hfresh.2.1⟩
    · exact hm.bucket_word x hx
  · intro r hr
    exact (hmem _).mpr (Or.inr (hm.rec_bucket r hr))
  · intro x hx
    rcases (hmem x).mp hx with rfl | hx
    · rw [newBucket_buckets_self, newBucket_attributed, hm.attributed_eq_nil hb]
      exact Stats.counts_zero
    · rw [hold x hx]
      exact hm.bucket_counts x hx

/-- `GetBucket` keeps the invariant, returns a bucket of the table for the
    stack, and keeps the buckets the table had. -/
theorem Inv.getBucket :
    (t.getBucket bucketAddr key).2.Inv bucketAddr ∧
      (t.getBucket bucketAddr key).1 ∈ (t.getBucket bucketAddr key).2.allBuckets ∧
      ((t.getBucket bucketAddr key).2.buckets (t.getBucket bucketAddr key).1).stack = key ∧
      ∀ x ∈ t.allBuckets, x ∈ (t.getBucket bucketAddr key).2.allBuckets ∧
        (t.getBucket bucketAddr key).2.buckets x = t.buckets x := by
  rcases hm.getBucket_cases key with ⟨b, hb, hkey, hget⟩ | ⟨hnone, hget⟩
  · rw [hget]
    exact ⟨hm, hb, hkey, fun x hx => ⟨hx, rfl⟩⟩
  · have hb := hm.not_mem_of_fresh hfresh
    rw [hget]
    refine ⟨hm.newBucket key hfresh hnone,
      (hm.mem_allBuckets_newBucket hb _ (slotOf_lt key) key).mpr (Or.inl rfl), by simp,
      fun x hx => ⟨(hm.mem_allBuckets_newBucket hb _ (slotOf_lt key) key).mpr (Or.inr hx), ?_⟩⟩
    exact newBucket_buckets_of_ne _ _ _ _ _ fun hxb => hb (hxb ▸ hx)

end NewBucketInv

/-! ## `RecordAlloc`, `RecordFree` and the flags -/

/-- Counters written at bucket `b` only, which count what they must there. -/
theorem counts_update {buckets : ℕ → Bucket} {b : ℕ} {s : Stats} {A A' : ℕ → List Record}
    {L : List ℕ} (hcounts : ∀ x ∈ L, (buckets x).stats.Counts (A x))
    (hother : ∀ x, x ≠ b → (A' x).Perm (A x)) (hb : s.Counts (A' b)) :
    ∀ x ∈ L, (Function.update buckets b { buckets b with stats := s } x).stats.Counts (A' x) := by
  intro x hx
  by_cases hxb : x = b
  · subst hxb
    simpa using hb
  · rw [Function.update_of_ne hxb]
    exact (hcounts x hx).perm (hother x hxb).symm

section Record

variable {t} {bucketAddr : ℕ → ℕ} (hm : t.Inv bucketAddr)
include hm

/-- The table after `RecordAlloc` has found or made bucket `b`: one record
    more, counted by `b` and by the totals. -/
theorem Inv.recordAlloc_of {t' : HeapProfileTable} {b ptr bytes : ℕ} (hb : b ∈ t.allBuckets)
    (hnone : t.addressMap.find ptr = none) (htable : t'.bucketTable = t.bucketTable)
    (hnum : t'.numBuckets = t.numBuckets)
    (hbuckets : t'.buckets =
      Function.update t.buckets b { t.buckets b with stats := (t.buckets b).stats.recordAlloc bytes })
    (htotal : t'.total = t.total.recordAlloc bytes)
    (ham : t'.addressMap = t.addressMap.insert ptr ⟨b, bytes⟩) :
    t'.Inv bucketAddr ∧ t'.recs.Perm (⟨ptr, b, bytes⟩ :: t.recs) := by
  obtain ⟨hins, hfind, -⟩ := hm.addressMap.insert ptr ⟨b, bytes⟩
  have hword := hm.bucket_word b hb
  -- the map has one pair more, whose value reads back bucket `b`
  have hperm : t'.recs.Perm (⟨ptr, b, bytes⟩ :: t.recs) := by
    have hpairs := hm.addressMap.pairs_perm_cons hins hnone hfind
    rw [recs, ham]
    refine (hpairs.map _).trans ?_
    rw [List.map_cons, AllocValue.bucket_mk hword.1 hword.2]
    rfl
  have hshape : ∀ x, t'.buckets x = { t.buckets x with stats := (t'.buckets x).stats } := fun x => by
    rw [hbuckets]
    exact update_stats_shape _ _ _ x
  refine ⟨Inv.of_shape htable hnum hshape hm (ham ▸ hins) ?_ ?_ ?_, hperm⟩
  · intro r hr
    rcases List.mem_cons.mp (hperm.subset hr) with rfl | hr
    · exact hb
    · exact hm.rec_bucket r hr
  · rw [hbuckets]
    refine counts_update hm.bucket_counts (fun x hxb => ?_) ?_
    · have h := attributed_perm_cons t hperm x
      rwa [if_neg (Ne.symm hxb)] at h
    · have h := attributed_perm_cons t hperm b
      rw [if_pos rfl] at h
      exact ((hm.bucket_counts b hb).recordAlloc ⟨ptr, b, bytes⟩).perm h.symm
  · rw [htotal]
    exact (hm.total_counts.recordAlloc ⟨ptr, b, bytes⟩).perm hperm.symm

/-- The table after `RecordFree` has removed the pointer `ptr` of value `v`:
    one record less, uncounted by its bucket and by the totals. -/
theorem Inv.recordFree_of {t' : HeapProfileTable} {ptr : ℕ} {v : AllocValue}
    (hsome : t.addressMap.find ptr = some v) (htable : t'.bucketTable = t.bucketTable)
    (hnum : t'.numBuckets = t.numBuckets)
    (hbuckets : t'.buckets = Function.update t.buckets v.bucket
      { t.buckets v.bucket with stats := (t.buckets v.bucket).stats.recordFree v.bytes })
    (htotal : t'.total = t.total.recordFree v.bytes)
    (ham : t'.addressMap = (t.addressMap.findAndRemove ptr).2) :
    t'.Inv bucketAddr ∧ t.recs.Perm (⟨ptr, v.bucket, v.bytes⟩ :: t'.recs) := by
  obtain ⟨-, hrem, hfind⟩ := hm.addressMap.findAndRemove ptr
  rw [← ham] at hrem hfind
  -- the map had one pair more than it has now
  have hperm : t.recs.Perm (⟨ptr, v.bucket, v.bytes⟩ :: t'.recs) := by
    have hnone : t'.addressMap.find ptr = none := by rw [hfind, Function.update_self]
    have hback : t.addressMap.find = Function.update t'.addressMap.find ptr (some v) := by
      rw [hfind, Function.update_idem, ← hsome, Function.update_eq_self]
    exact (hrem.pairs_perm_cons hm.addressMap hnone hback).map _
  have hb : v.bucket ∈ t.allBuckets := hm.rec_bucket _ (hperm.symm.subset List.mem_cons_self)
  have hshape : ∀ x, t'.buckets x = { t.buckets x with stats := (t'.buckets x).stats } := fun x => by
    rw [hbuckets]
    exact update_stats_shape _ _ _ x
  refine ⟨Inv.of_shape htable hnum hshape hm hrem ?_ ?_ ?_, hperm⟩
  · exact fun r hr => hm.rec_bucket r (hperm.symm.subset (List.mem_cons_of_mem _ hr))
  · rw [hbuckets]
    refine counts_update hm.bucket_counts (fun x hxb => ?_) ?_
    · have h := attributed_perm_cons t' hperm x
      rw [if_neg (Ne.symm hxb)] at h
      exact h.symm
    · have h := attributed_perm_cons t' hperm v.bucket
      rw [if_pos rfl] at h
      exact ((hm.bucket_counts _ hb).perm h).recordFree
  · rw [htotal]
    exact (hm.total_counts.perm hperm).recordFree

/-- A value written over entry `e` with the same bucket and size keeps the
    records. -/
theorem Inv.setValue {e : ℕ} {v : AllocValue}
    (hv : v.bucket = (t.addressMap.entries e).value.bucket ∧ v.bytes = (t.addressMap.entries e).value.bytes) :
    ({ t with addressMap := t.addressMap.setValue e v } : HeapProfileTable).Inv bucketAddr ∧
      ({ t with addressMap := t.addressMap.setValue e v } : HeapProfileTable).recs = t.recs := by
  have hrecs : ({ t with addressMap := t.addressMap.setValue e v } : HeapProfileTable).recs = t.recs := by
    rw [recs, recs]
    dsimp only
    rw [AddressMap.setValue_eq_mapValues, AddressMap.pairs_mapValues, AddressMap.pairs, List.map_map,
      List.map_map]
    refine List.map_congr_left fun x _ => ?_
    by_cases hx : x = e
    · subst hx
      simp [hv.1, hv.2]
    · simp [hx]
  refine ⟨?_, hrecs⟩
  have ham := hm.addressMap.mapValues fun x w => if x = e then v else w
  rw [← AddressMap.setValue_eq_mapValues] at ham
  exact hm.of_recs_perm ham (List.Perm.of_eq hrecs)

end Record

section Calls

variable {t} {bucketAddr : ℕ → ℕ} (hm : t.Inv bucketAddr)
include hm

/-- `RecordAlloc` of a pointer not recorded keeps the invariant and records
    the pointer, attributed to the bucket of its call stack. -/
theorem Inv.recordAlloc (hfresh : Fresh bucketAddr t.numBuckets) {ptr : ℕ}
    (hptr : t.addressMap.find ptr = none) (bytes : ℕ) (cs : List ℕ) :
    (t.recordAlloc bucketAddr ptr bytes cs).Inv bucketAddr ∧
      (t.recordAlloc bucketAddr ptr bytes cs).recs.Perm
        (⟨ptr, (t.getBucket bucketAddr cs).1, bytes⟩ :: t.recs) := by
  obtain ⟨hm₁, hb, -, -⟩ := hm.getBucket cs hfresh
  have hrecs := getBucket_recs t bucketAddr cs
  have ham := getBucket_addressMap t bucketAddr cs
  unfold HeapProfileTable.recordAlloc
  generalize t.getBucket bucketAddr cs = g at hm₁ hb hrecs ham ⊢
  obtain ⟨b, t₁⟩ := g
  rw [← hrecs]
  exact hm₁.recordAlloc_of hb (ham ▸ hptr) rfl rfl rfl rfl rfl

/-- `RecordFree` keeps the invariant, and drops the record of the pointer if
    it has one. -/
theorem Inv.recordFree (ptr : ℕ) : (t.recordFree ptr).Inv bucketAddr := by
  have hfst := (hm.addressMap.findAndRemove ptr).1
  unfold HeapProfileTable.recordFree
  rcases hr : t.addressMap.findAndRemove ptr with ⟨_ | v, am⟩
  · -- nothing recorded: the map finds what it found
    obtain ⟨-, ham, hfind⟩ := hm.addressMap.findAndRemove ptr
    rw [hr] at hfst ham hfind
    dsimp only at hfst ham hfind ⊢
    rw [hfst, Function.update_eq_self] at hfind
    refine hm.of_recs_perm ham ((ham.pairs_perm hm.addressMap.pairs_nodup fun k w => ?_).map _)
    rw [hfind, hm.addressMap.mem_pairs_iff]
  · rw [hr] at hfst
    dsimp only at hfst ⊢
    exact And.left (hm.recordFree_of hfst.symm rfl rfl rfl rfl (by rw [hr]))

/-- `MarkAsLive` keeps the invariant and the records. -/
theorem Inv.markAsLive (ptr : ℕ) :
    (t.markAsLive ptr).2.Inv bucketAddr ∧ (t.markAsLive ptr).2.recs = t.recs := by
  unfold HeapProfileTable.markAsLive
  split
  · dsimp only
    split
    · exact hm.setValue ⟨AllocValue.bucket_setLive _ _, rfl⟩
    · exact ⟨hm, rfl⟩
  · exact ⟨hm, rfl⟩

/-- `MarkAsIgnored` keeps the invariant and the records. -/
theorem Inv.markAsIgnored (ptr : ℕ) :
    (t.markAsIgnored ptr).Inv bucketAddr ∧ (t.markAsIgnored ptr).recs = t.recs := by
  unfold HeapProfileTable.markAsIgnored
  split
  · exact hm.setValue ⟨AllocValue.bucket_setIgnore _ _, rfl⟩
  · exact ⟨hm, rfl⟩

end Calls

/-! ## Runs -/

/-- The calls of the table that change what it records. -/
inductive Op
  | recordAlloc (ptr bytes : ℕ) (callStack : List ℕ)
  | recordFree (ptr : ℕ)
  | markAsLive (ptr : ℕ)
  | markAsIgnored (ptr : ℕ)

variable (bucketAddr : ℕ → ℕ)

/-- One call. -/
def step : Op → HeapProfileTable
  | .recordAlloc ptr bytes callStack => t.recordAlloc bucketAddr ptr bytes callStack
  | .recordFree ptr => t.recordFree ptr
  | .markAsLive ptr => (t.markAsLive ptr).2
  | .markAsIgnored ptr => t.markAsIgnored ptr

/-- The calls the profiler makes: `RecordAlloc` only of a pointer not
    recorded. -/
def Op.allowed : Op → Bool
  | .recordAlloc ptr _ _ => (t.addressMap.find ptr).isNone
  | _ => true

/-- A run of calls. -/
def run : HeapProfileTable → List Op → HeapProfileTable
  | t, [] => t
  | t, op :: ops => run (t.step bucketAddr op) ops

/-- Every call of the run is allowed where it is made. -/
def valid : HeapProfileTable → List Op → Bool
  | _, [] => true
  | t, op :: ops => op.allowed t && valid (t.step bucketAddr op) ops

/-- A call makes at most one bucket. -/
theorem step_numBuckets_le (op : Op) : (t.step bucketAddr op).numBuckets ≤ t.numBuckets + 1 := by
  cases op with
  | recordAlloc ptr bytes cs =>
    have hle := getBucket_numBuckets_le t bucketAddr cs
    rw [step, HeapProfileTable.recordAlloc]
    generalize t.getBucket bucketAddr cs = g at hle ⊢
    obtain ⟨b, t₁⟩ := g
    exact hle
  | recordFree ptr =>
    rw [step, HeapProfileTable.recordFree]
    split <;> exact Nat.le_succ _
  | markAsLive ptr =>
    rw [step, HeapProfileTable.markAsLive]
    split
    · dsimp only
      split <;> exact Nat.le_succ _
    · exact Nat.le_succ _
  | markAsIgnored ptr =>
    rw [step, HeapProfileTable.markAsIgnored]
    split <;> exact Nat.le_succ _

theorem run_numBuckets_le (ops : List Op) :
    (t.run bucketAddr ops).numBuckets ≤ t.numBuckets + ops.length := by
  induction ops generalizing t with
  | nil => exact Nat.le_add_right _ _
  | cons op ops ih =>
    have := ih (t.step bucketAddr op)
    have := step_numBuckets_le t bucketAddr op
    simp only [run, List.length_cons]
    omega

variable {t bucketAddr}

/-- Every allowed call keeps the invariant, when a bucket it makes is fresh. -/
theorem Inv.step (hm : t.Inv bucketAddr) (hfresh : Fresh bucketAddr t.numBuckets) (op : Op)
    (hop : op.allowed t = true) : (t.step bucketAddr op).Inv bucketAddr := by
  cases op with
  | recordAlloc ptr bytes cs => exact (hm.recordAlloc hfresh (Option.isNone_iff_eq_none.mp hop) bytes cs).1
  | recordFree ptr => exact hm.recordFree ptr
  | markAsLive ptr => exact (hm.markAsLive ptr).1
  | markAsIgnored ptr => exact (hm.markAsIgnored ptr).1

/-- Every valid run keeps the invariant, when the buckets it can make are
    fresh: by induction on the calls, one `Inv.step` each. -/
theorem Inv.run (hm : t.Inv bucketAddr) (ops : List Op)
    (hfresh : ∀ n < t.numBuckets + ops.length, Fresh bucketAddr n) (hvalid : valid bucketAddr t ops = true) :
    (t.run bucketAddr ops).Inv bucketAddr := by
  induction ops generalizing t with
  | nil => exact hm
  | cons op ops ih =>
    rw [valid, Bool.and_eq_true] at hvalid
    have hstep := hm.step (hfresh _ (by simp)) op hvalid.1
    refine ih hstep (fun n hn => hfresh n ?_) hvalid.2
    have := step_numBuckets_le t bucketAddr op
    simp only [List.length_cons]
    omega

variable (bucketAddr)

@[simp] theorem init_numBuckets : init.numBuckets = 0 := rfl

@[simp] theorem init_slotBuckets (s : ℕ) : init.slotBuckets s = [] := rfl

@[simp] theorem init_allBuckets : init.allBuckets = [] := by
  simp [allBuckets]

@[simp] theorem init_recs : init.recs = [] := by
  simp [recs, AddressMap.pairs, init]

/-- The empty table keeps the invariant: it has no bucket and no record. -/
theorem init_inv : init.Inv bucketAddr where
  addressMap := AddressMap.init_inv
  slot_chain _ _ := Chain.nil
  slot_of := by simp
  bucket_hash := by simp
  bucket_depth := by simp
  stacks_nodup := by simp
  num_buckets := by simp
  bucket_addr := by simp
  bucket_word := by simp
  rec_bucket := by simp
  bucket_counts := by simp
  total_counts := by
    rw [init_recs]
    exact Stats.counts_zero

/-! ## What the table counts -/

variable (t) in
/-- What a table of the profiler reports: the counters count the recorded
    allocations modulo `2 ^ 64`, the buckets are one for each call stack and
    `GetBucket` returns the one of its stack, and the flags keep every
    allocation where it is. -/
structure Accounted : Prop where
  /-- the records are the pointers of the allocation map, each once -/
  ptrs_nodup : (t.recs.map Record.ptr).Nodup
  mem_recs : ∀ r : Record, r ∈ t.recs ↔
    ∃ v, t.addressMap.find r.ptr = some v ∧ v.bucket = r.bucket ∧ v.bytes = r.bytes
  /-- `total_.allocs - total_.frees` and `total_.alloc_size - total_.free_size` -/
  total_allocs : Word.sub 64 t.total.allocs t.total.frees = t.recs.length % 2 ^ 64
  total_size : Word.sub 64 t.total.allocSize t.total.freeSize = (t.recs.map Record.bytes).sum % 2 ^ 64
  /-- the same differences of each bucket -/
  bucket_allocs : ∀ b ∈ t.allBuckets,
    Word.sub 64 (t.buckets b).stats.allocs (t.buckets b).stats.frees = (t.attributed b).length % 2 ^ 64
  bucket_size : ∀ b ∈ t.allBuckets, Word.sub 64 (t.buckets b).stats.allocSize
    (t.buckets b).stats.freeSize = ((t.attributed b).map Record.bytes).sum % 2 ^ 64
  rec_bucket : ∀ r ∈ t.recs, r.bucket ∈ t.allBuckets
  /-- `GetBucket` returns the bucket of the stack and no other, and keeps the buckets -/
  getBucket_iff : ∀ key, ∀ b ∈ (t.getBucket bucketAddr key).2.allBuckets,
    (t.getBucket bucketAddr key).1 = b ↔ ((t.getBucket bucketAddr key).2.buckets b).stack = key
  getBucket_keeps : ∀ key, ∀ b ∈ t.allBuckets,
    b ∈ (t.getBucket bucketAddr key).2.allBuckets ∧ (t.getBucket bucketAddr key).2.buckets b = t.buckets b
  stacks_nodup : (t.allBuckets.map fun b => (t.buckets b).stack).Nodup
  /-- `num_buckets_` is the number of buckets in `bucket_table_` -/
  num_buckets : t.allBuckets.length = t.numBuckets
  markAsLive_recs : ∀ ptr, (t.markAsLive ptr).2.recs = t.recs
  markAsIgnored_recs : ∀ ptr, (t.markAsIgnored ptr).recs = t.recs

/-- The heap-profile accounting, after every run from the empty table in
    which `RecordAlloc` records only pointers not recorded and the buckets
    are made at fresh addresses: the flags never change the bucket of a
    value, and the table is `Accounted`. -/
theorem run_accounting (ops : List Op) (hfresh : ∀ n ≤ ops.length, Fresh bucketAddr n)
    (hvalid : valid bucketAddr init ops = true) :
    (∀ (v : AllocValue) (l : Bool), (v.setLive l).bucket = v.bucket ∧ (v.setIgnore l).bucket = v.bucket) ∧
      (init.run bucketAddr ops).Accounted bucketAddr := by
  have hm := (init_inv bucketAddr).run ops (fun n hn => hfresh n (by simp at hn; omega)) hvalid
  have hnext : Fresh bucketAddr (init.run bucketAddr ops).numBuckets :=
    hfresh _ (by simpa using run_numBuckets_le init bucketAddr ops)
  refine ⟨fun v l => ⟨AllocValue.bucket_setLive v l, AllocValue.bucket_setIgnore v l⟩, ?_⟩
  refine ⟨?_, fun r => ?_, hm.total_counts.sub.1, hm.total_counts.sub.2,
    fun b hb => (hm.bucket_counts b hb).sub.1, fun b hb => (hm.bucket_counts b hb).sub.2, hm.rec_bucket,
    fun key b hb => ?_, fun key => (hm.getBucket key hnext).2.2.2, hm.stacks_nodup, hm.num_buckets,
    fun ptr => (hm.markAsLive ptr).2, fun ptr => (hm.markAsIgnored ptr).2⟩
  · -- the pointers are the keys of the map
    simp only [recs, AddressMap.pairs, List.map_map]
    exact hm.addressMap.keys_nodup
  · simp only [recs, List.mem_map, Prod.exists]
    constructor
    · rintro ⟨k, v, hkv, rfl⟩
      exact ⟨v, hm.addressMap.mem_pairs_iff.mp hkv, rfl, rfl⟩
    · rintro ⟨v, hv, hb, hn⟩
      exact ⟨r.ptr, v, hm.addressMap.mem_pairs_iff.mpr hv, by rw [hb, hn]⟩
  · -- the stacks of the buckets are distinct
    obtain ⟨hm', hmem, hkey, -⟩ := hm.getBucket key hnext
    constructor
    · rintro rfl
      exact hkey
    · intro hb'
      exact hm'.stack_inj hmem hb (hkey.trans hb'.symm)

theorem run_accounting_three_calls :
    (∀ n ≤ 3, Fresh (fun n => 8 * n + 8) n) ∧
      valid (fun n => 8 * n + 8) init
        [.recordAlloc 16 100 [1, 2], .recordAlloc 32 50 [1, 2], .recordFree 16] = true ∧
      (∀ (v : AllocValue) (l : Bool), (v.setLive l).bucket = v.bucket ∧ (v.setIgnore l).bucket = v.bucket) ∧
      (init.run (fun n => 8 * n + 8)
        [.recordAlloc 16 100 [1, 2], .recordAlloc 32 50 [1, 2], .recordFree 16]).Accounted
        (fun n => 8 * n + 8) := by
  have hfresh : ∀ n ≤ 3, Fresh (fun n => 8 * n + 8) n := by decide
  have hvalid : valid (fun n => 8 * n + 8) init
      [.recordAlloc 16 100 [1, 2], .recordAlloc 32 50 [1, 2], .recordFree 16] = true := by
    decide +kernel
  exact ⟨hfresh, hvalid, run_accounting _ _ hfresh hvalid⟩

/-- The counters wrap: one allocation of `2 ^ 63` bytes makes
    `alloc_size - free_size` read `-2 ^ 63` as an `int64_t`, not the bytes
    recorded; so do two allocations of `2 ^ 62` bytes each, from two stacks,
    as the bytes add up. -/
theorem alloc_size_wraps :
    ((init.run (fun n => 8 * n + 8) [.recordAlloc 16 (2 ^ 63) [1]]).recs.map Record.bytes).sum = 2 ^ 63 ∧
      Word.signed 64 (Word.sub 64 (init.run (fun n => 8 * n + 8) [.recordAlloc 16 (2 ^ 63) [1]]).total.allocSize
        (init.run (fun n => 8 * n + 8) [.recordAlloc 16 (2 ^ 63) [1]]).total.freeSize) = -2 ^ 63 ∧
      ((init.run (fun n => 8 * n + 8) [.recordAlloc 16 (2 ^ 62) [1], .recordAlloc 32 (2 ^ 62) [2]]).recs.map
        Record.bytes).sum = 2 ^ 63 ∧
      Word.signed 64 (Word.sub 64
        (init.run (fun n => 8 * n + 8) [.recordAlloc 16 (2 ^ 62) [1], .recordAlloc 32 (2 ^ 62) [2]]).total.allocSize
        (init.run (fun n => 8 * n + 8) [.recordAlloc 16 (2 ^ 62) [1], .recordAlloc 32 (2 ^ 62) [2]]).total.freeSize) =
        -2 ^ 63 := by
  decide +kernel

end HeapProfileTable

end Gperftools
