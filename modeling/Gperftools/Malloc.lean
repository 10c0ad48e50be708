import Gperftools.SizeMap.Builds
import Gperftools.CentralFreeList

/-!
# Allocation by size

The front end of tcmalloc (tcmalloc.cc) serves `memalign(align, size)` with
`align` up to the page as a `malloc` of `align_size_up(size, align)`: rounded
up to a multiple of `align` (`alignSizeUp`), or left alone when the rounding
wraps around. A rounded size up to `kMaxSize` is served from its size class,
by an object that `Populate` carved from a span of the class.

* `memalign_small_aligned`: in every configuration where `Init` succeeds, the
  class of the rounded size holds `size`, its size is a multiple of `align`,
  and so is every object carved for it — for every size up to `kMaxSize`, not
  only the sizes below the page that `Init` checks.
-/

namespace Gperftools

/-- `align_size_up(size, align)`, on 64-bit `size_t`. -/
def alignSizeUp (size align : ℕ) : ℕ :=
  let newSize := Word.add 64 size (align - 1) &&& Word.complement 64 (align - 1)
  -- a rounding to 0 is a wrap-around, or a size of 0
  if newSize = 0 then (if size = 0 then align else size) else newSize

section AlignSizeUp

variable {size j : ℕ}

/-- On an alignment `2 ^ j`, the mask of `align_size_up` rounds
    `size + align - 1` down to a multiple of `2 ^ j`. -/
theorem alignSizeUp_two_pow (hj : j ≤ 64) :
    alignSizeUp size (2 ^ j) =
      if Word.add 64 size (2 ^ j - 1) / 2 ^ j * 2 ^ j = 0 then (if size = 0 then 2 ^ j else size)
      else Word.add 64 size (2 ^ j - 1) / 2 ^ j * 2 ^ j := by
  simp only [alignSizeUp, Word.and_complement hj Word.add_lt]

/-- When `size + align - 1` wraps around, less than the alignment is left. -/
theorem add_lt_of_wrap (hj : j ≤ 64) (hsize : size < 2 ^ 64) (hw : 2 ^ 64 ≤ size + (2 ^ j - 1)) :
    Word.add 64 size (2 ^ j - 1) < 2 ^ j := by
  have : 2 ^ j ≤ 2 ^ 64 := Nat.pow_le_pow_right (by decide) hj
  unfold Word.add
  rw [Nat.mod_eq_sub_mod hw, Nat.mod_eq_of_lt (by omega)]
  omega

/-- Rounded up without a wrap-around, the size stays below the rounding. -/
theorem le_round (hpos : 0 < 2 ^ j) : size ≤ (size + (2 ^ j - 1)) / 2 ^ j * 2 ^ j := by
  have h : size + (2 ^ j - 1) < (size + (2 ^ j - 1)) / 2 ^ j * 2 ^ j + 2 ^ j :=
    Nat.lt_div_mul_add hpos
  omega

/-- `align_size_up` is at least the size. -/
theorem le_alignSizeUp (hj : j ≤ 64) (hsize : size < 2 ^ 64) :
    size ≤ alignSizeUp size (2 ^ j) := by
  have hpos := Nat.two_pow_pos j
  rw [alignSizeUp_two_pow hj]
  split_ifs with h0 h1
  · omega
  · exact le_rfl
  · by_cases hw : size + (2 ^ j - 1) < 2 ^ 64
    · rw [Word.add_of_lt hw]
      exact le_round hpos
    · -- a wrap-around leaves less than `2 ^ j`, rounded down to 0
      have := add_lt_of_wrap hj hsize (not_lt.1 hw)
      rw [Nat.div_eq_of_lt this, Nat.zero_mul] at h0
      exact absurd rfl h0

/-- `align_size_up` is positive. -/
theorem alignSizeUp_pos : 0 < alignSizeUp size (2 ^ j) := by
  simp only [alignSizeUp]
  split_ifs with h0 h1
  · exact Nat.two_pow_pos j
  · exact Nat.pos_of_ne_zero h1
  · exact Nat.pos_of_ne_zero h0

/-- A small `align_size_up` is a multiple of the alignment. -/
theorem dvd_alignSizeUp (hj : j ≤ 63) (hsmall : alignSizeUp size (2 ^ j) ≤ kMaxSize) :
    2 ^ j ∣ alignSizeUp size (2 ^ j) := by
  have hpos := Nat.two_pow_pos j
  rw [alignSizeUp_two_pow (Nat.le_succ_of_le hj)] at hsmall ⊢
  split_ifs at hsmall ⊢ with h0 h1
  · exact dvd_rfl
  · -- a small size does not wrap around, and rounds to a positive multiple
    have : 2 ^ j ≤ 2 ^ 63 := Nat.pow_le_pow_right (by decide) hj
    have hw : size + (2 ^ j - 1) < 2 ^ 64 := by
      simp only [kMaxSize] at hsmall
      omega
    rw [Word.add_of_lt hw] at h0
    have : size ≤ (size + (2 ^ j - 1)) / 2 ^ j * 2 ^ j := le_round hpos
    omega
  · exact Dvd.intro_left _ rfl

end AlignSizeUp

/-- Aligned allocation below the page: in every configuration where `Init`
    succeeds, for every alignment `2 ^ j` up to the page and every size whose
    `align_size_up` is at most `kMaxSize`, the rounded size has a class, the
    class holds `size`, its size is a multiple of `2 ^ j`, and so is every
    object `Populate` carves from a span of the class. -/
theorem memalign_small_aligned (b : Build) (flags k : ℕ) (m : SizeMap)
    (hinit : SizeMap.init b flags (2 ^ k) = .ok m) (j size : ℕ) (hj : j ≤ b.pageShift)
    (hsize : size < 2 ^ 64) (hsmall : alignSizeUp size (2 ^ j) ≤ kMaxSize) :
    m.getSizeClass (alignSizeUp size (2 ^ j)) = some (m.sizeClass (alignSizeUp size (2 ^ j))) ∧
      size ≤ m.classToSize (m.sizeClass (alignSizeUp size (2 ^ j))) ∧
      2 ^ j ∣ m.classToSize (m.sizeClass (alignSizeUp size (2 ^ j))) ∧
      ∀ start npages, ∀ p ∈ populateObjects b start npages
        (m.classToSize (m.sizeClass (alignSizeUp size (2 ^ j)))), 2 ^ j ∣ p := by
  -- `Init` succeeded, so the configuration is good and its tables are
  have hk : SizeMap.GoodConfig b k := by
    by_contra hk
    rw [SizeMap.init_error_of_bad b flags k hk] at hinit
    cases hinit
  obtain ⟨m', hinit', hf, hg⟩ := SizeMap.init_good b flags k hk
  obtain rfl : m' = m := by
    rw [hinit] at hinit'
    exact (Except.ok.inj hinit').symm
  have hj63 : j ≤ 63 := hj.trans (b.pageShift_le.trans (by decide))
  have hdvd := SizeMap.dvd_classToSize_sizeClass hf hg hj alignSizeUp_pos hsmall
    (dvd_alignSizeUp hj63 hsmall)
  refine ⟨SizeMap.getSizeClass_of_le m' hsmall, ?_, hdvd, fun start npages =>
    dvd_of_mem_populateObjects hj hdvd⟩
  exact (le_alignSizeUp (Nat.le_succ_of_le hj63) hsize).trans (SizeMap.le_classToSize_sizeClass hf hg hsmall)

/-- `memalign(16, 100)` on the default build with 4 KiB native pages. -/
theorem memalign_small_aligned_default :
    ∃ m : SizeMap, SizeMap.init Build.default 32 (2 ^ 12) = .ok m ∧
      m.getSizeClass (alignSizeUp 100 (2 ^ 4)) = some (m.sizeClass (alignSizeUp 100 (2 ^ 4))) ∧
      100 ≤ m.classToSize (m.sizeClass (alignSizeUp 100 (2 ^ 4))) ∧
      2 ^ 4 ∣ m.classToSize (m.sizeClass (alignSizeUp 100 (2 ^ 4))) ∧
      ∀ start npages, ∀ p ∈ populateObjects Build.default start npages
        (m.classToSize (m.sizeClass (alignSizeUp 100 (2 ^ 4)))), 2 ^ 4 ∣ p := by
  obtain ⟨m, hinit, -⟩ := SizeMap.init_good Build.default 32 12 (Or.inl (by decide))
  exact ⟨m, hinit, memalign_small_aligned Build.default 32 12 m hinit 4 100 (by decide) (by decide)
    (by decide)⟩


/-! ## `pvalloc` -/

/-- What `memalign_fast_path(align, size)` hands on: a `malloc` of the size
    rounded up by `align_size_up`, or, for an alignment beyond the page, the
    allocation of pages by `memalign_pages(align, size)`. -/
inductive MemalignRequest
  | malloc (size : ℕ)
  | pages (align size : ℕ)
  deriving DecidableEq, Repr

/-- `memalign_fast_path(align, size)`, as `tc_memalign` calls it. -/
def memalignFastPath (b : Build) (align size : ℕ) : MemalignRequest :=
  if b.kPageSize < align then .pages align size else .malloc (alignSizeUp size align)

/-- `tc_pvalloc(size)`, with `pagesize` the native page size: the size
    rounded up to a page, with no guard against the rounding wrapping around,
    handed to `tc_memalign(pagesize, size)`. -/
def tcPvalloc (b : Build) (pagesize size : ℕ) : MemalignRequest :=
  let size := if size = 0 then pagesize else size
  let size := Word.add 64 size (pagesize - 1) &&& Word.complement 64 (pagesize - 1)
  memalignFastPath b pagesize size

/-- `align_size_up(0, align)` is `align`. -/
theorem alignSizeUp_zero {j : ℕ} (hj : j ≤ 64) : alignSizeUp 0 (2 ^ j) = 2 ^ j := by
  have hlt : 2 ^ j - 1 < 2 ^ j := Nat.sub_lt (Nat.two_pow_pos j) Nat.one_pos
  have h64 : 2 ^ j ≤ 2 ^ 64 := Nat.pow_le_pow_right (by decide) hj
  rw [alignSizeUp_two_pow hj, Word.add_of_lt (by omega), Nat.zero_add, Nat.div_eq_of_lt hlt]
  simp

/-- A size within one page of `2 ^ 64` rounds up to 0, so that `pvalloc`
    asks `malloc` for a single page. -/
theorem tcPvalloc_of_wrap (b : Build) {k size : ℕ} (hk : 2 ^ k ≤ b.kPageSize)
    (hlo : 2 ^ 64 - 2 ^ k < size) (hsize : size < 2 ^ 64) :
    tcPvalloc b (2 ^ k) size = .malloc (2 ^ k) := by
  have hk64 : k ≤ 64 := by
    have := b.kPageSize_le_kMaxSize
    by_contra hk64
    have : 2 ^ 65 ≤ 2 ^ k := Nat.pow_le_pow_right (by decide) (by omega)
    simp only [kMaxSize] at *
    omega
  have hpos := Nat.two_pow_pos k
  have hk' : 2 ^ k ≤ 2 ^ 64 := Nat.pow_le_pow_right (by decide) hk64
  -- `size + pagesize - 1` wraps around to less than a page
  have hwrap : Word.add 64 size (2 ^ k - 1) < 2 ^ k := add_lt_of_wrap hk64 hsize (by omega)
  have hround : Word.add 64 size (2 ^ k - 1) &&& Word.complement 64 (2 ^ k - 1) = 0 := by
    rw [Word.and_complement hk64 Word.add_lt, Nat.div_eq_of_lt hwrap, Nat.zero_mul]
  simp only [tcPvalloc, if_neg (show size ≠ 0 by omega), hround, memalignFastPath,
    if_neg (Nat.not_lt.2 hk), alignSizeUp_zero hk64]

/-- `pvalloc(SIZE_MAX)` with 4 KiB native pages asks `malloc` for 4096
    bytes, and for every transfer size the class of 4096 bytes holds less
    than `SIZE_MAX` bytes. -/
theorem pvalloc_size_max :
    tcPvalloc Build.default (2 ^ 12) (2 ^ 64 - 1) = .malloc (2 ^ 12) ∧
      ∀ flags m, SizeMap.init Build.default flags (2 ^ 12) = .ok m →
        m.classToSize (m.sizeClass (2 ^ 12)) < 2 ^ 64 - 1 := by
  refine ⟨tcPvalloc_of_wrap Build.default (by decide) (by decide) (by decide), ?_⟩
  intro flags m hinit
  obtain ⟨m', hinit', -, hg⟩ := SizeMap.init_good Build.default flags 12 (Or.inl (by decide))
  obtain rfl : m' = m := by
    rw [hinit] at hinit'
    exact (Except.ok.inj hinit').symm
  have := SizeMap.classToSize_le_kMaxSize hg (m'.sizeClass (2 ^ 12))
  simp only [kMaxSize] at this
  omega

end Gperftools
