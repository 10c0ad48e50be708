import Gperftools.Lib.Word
import Gperftools.SizeMap

/-!
# Carving a span into objects

`CentralFreeList::Populate` (central_freelist.cc) takes a span of `npages`
pages for a size class from the page heap and cuts it into objects of the
class's size, from the first byte of the span on, while the next object still
ends within the span and its end does not wrap around the address space.

* `dvd_of_mem_populateObjects`: an alignment up to the page that divides the
  size divides every object carved.

`CentralFreeList::Init(cl)` sizes the transfer cache of class `cl`: at most
1 MiB of objects, or one entry, whichever is more. It divides by the bytes a
transfer of the class moves, which is zero when the class moves no object.

* `CentralFreeList.init_ok`: with a class of positive size and a positive
  transfer size, the cache holds between 1 and `kMaxNumTransferEntries`
  entries.
* `CentralFreeList.init_flags_zero`: with a transfer size of 0, the division
  is by zero.
-/

namespace Gperftools

/-- The objects carved from `ptr` on, `size` bytes each, while the next
    pointer neither wraps around nor passes `limit`. -/
def carveObjects (size limit : ℕ) : ℕ → ℕ → List ℕ
  | 0, _ => []
  | fuel + 1, ptr =>
    let nextptr := Word.add 64 ptr size
    if nextptr < ptr ∨ limit < nextptr then [] else ptr :: carveObjects size limit fuel nextptr

/-- The objects `Populate` carves from the span at page `start` of `npages`
    pages: one per byte at most, so the loop ends within its fuel. -/
def populateObjects (b : Build) (start npages size : ℕ) : List ℕ :=
  let ptr := start <<< b.pageShift
  carveObjects size (ptr + (npages <<< b.pageShift)) ((npages <<< b.pageShift) + 1) ptr

/-- Objects carved from an aligned pointer in aligned steps are aligned: the
    step keeps the alignment, also when it wraps around. -/
theorem dvd_of_mem_carveObjects {size limit d : ℕ} (hd : d ∣ 2 ^ 64) (hsize : d ∣ size) :
    ∀ fuel ptr, d ∣ ptr → ∀ p ∈ carveObjects size limit fuel ptr, d ∣ p
  | 0, _, _, _, hp => absurd hp List.not_mem_nil
  | fuel + 1, ptr, hptr, p, hp => by
    simp only [carveObjects] at hp
    split_ifs at hp
    · exact absurd hp List.not_mem_nil
    · rcases List.mem_cons.1 hp with rfl | hp
      · exact hptr
      · exact dvd_of_mem_carveObjects hd hsize fuel _
          ((Nat.dvd_mod_iff hd).2 (Nat.dvd_add hptr hsize)) p hp

/-- Every object carved from a span for a size that is a multiple of
    `2 ^ j`, `j ≤ kPageShift`, is a multiple of `2 ^ j`. -/
theorem dvd_of_mem_populateObjects {b : Build} {start npages size j : ℕ} (hj : j ≤ b.pageShift)
    (hsize : 2 ^ j ∣ size) : ∀ p ∈ populateObjects b start npages size, 2 ^ j ∣ p := by
  have hps : 2 ^ j ∣ start <<< b.pageShift := by
    rw [Nat.shiftLeft_eq]
    exact Dvd.dvd.mul_left (Nat.pow_dvd_pow 2 hj) start
  exact dvd_of_mem_carveObjects (Nat.pow_dvd_pow 2 (hj.trans (b.pageShift_le.trans (by decide))))
    hsize _ _ hps

namespace CentralFreeList

/-- `kMaxNumTransferEntries`, without `TCMALLOC_SMALL_BUT_SLOW`. -/
def kMaxNumTransferEntries : ℕ := 64

/-- `CentralFreeList::Init(cl)`: `max_cache_size_` and `cache_size_`. The
    class's size and transfer count are `int32_t`s, whose product stays below
    `2 ^ 20` (a transfer is about 64 KiB, or two objects of at most
    `kMaxSize`); a zero product is a division by zero. -/
def init (m : SizeMap) (flags cl : ℕ) : Except String (ℕ × ℕ) :=
  if cl = 0 then .ok (kMaxNumTransferEntries, 16)
  else
    let bytes := m.classToSize cl
    let objsToMove := m.numObjectsToMove flags cl
    if bytes * objsToMove = 0 then .error "integer divide by zero"
    else
      let maxCacheSize := min kMaxNumTransferEntries (max 1 (1024 * 1024 / (bytes * objsToMove)))
      .ok (maxCacheSize, min 16 maxCacheSize)

/-- With a positive transfer size, a class of positive size gets a cache of
    at least one and at most `kMaxNumTransferEntries` entries, its
    `cache_size_` within them. -/
theorem init_ok {m : SizeMap} {flags cl : ℕ} (hflags : 0 < flags)
    (hbytes : cl ≠ 0 → 0 < m.classToSize cl) :
    ∃ r, init m flags cl = .ok r ∧ 1 ≤ r.2 ∧ r.2 ≤ r.1 ∧ r.1 ≤ kMaxNumTransferEntries := by
  unfold init
  by_cases hcl : cl = 0
  · rw [if_pos hcl]
    exact ⟨_, rfl, by decide, by decide, le_rfl⟩
  · -- a class of positive size moves at least one object
    have hobjs : 0 < m.numObjectsToMove flags cl :=
      SizeMap.numMoveSize_pos hflags (hbytes hcl)
    have hprod : m.classToSize cl * m.numObjectsToMove flags cl ≠ 0 :=
      Nat.mul_ne_zero (hbytes hcl).ne' hobjs.ne'
    rw [if_neg hcl]
    dsimp only
    rw [if_neg hprod]
    refine ⟨_, rfl, ?_, min_le_right _ _, min_le_left _ _⟩
    simp only [kMaxNumTransferEntries]
    omega

/-- With a transfer size of 0, every class but 0 divides by zero. -/
theorem init_flags_zero (m : SizeMap) {cl : ℕ} (hcl : cl ≠ 0) :
    init m 0 cl = .error "integer divide by zero" := by
  simp [init, hcl, SizeMap.numObjectsToMove]

end CentralFreeList

end Gperftools
