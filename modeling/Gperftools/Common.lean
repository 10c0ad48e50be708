import Mathlib.Data.Nat.Bitwise

/-!
# Build constants

The constants of `common.h` that the allocator's components share. Two of
them are chosen when tcmalloc is built: the page shift
(`TCMALLOC_PAGE_SIZE_SHIFT`, from 12 to 18, that is pages of 4 KiB to
256 KiB; 13 by default) and the minimum alignment (`kMinAlign`: 8 with
`TCMALLOC_ALIGN_8BYTES`, 16 otherwise). A `Build` carries them, with the
ranges the build system allows, so that no other build can be written down.

The machine is a 64-bit one: pointers and `size_t` have 64 bits, of which
the low `kAddressBits = 48` hold addresses.
-/

namespace Gperftools

/-- A build of tcmalloc: its page shift and its minimum alignment. -/
structure Build where
  /-- `kPageShift`: pages have `2 ^ pageShift` bytes. -/
  pageShift : ℕ
  pageShift_ge : 12 ≤ pageShift
  pageShift_le : pageShift ≤ 18
  /-- `kMinAlign`. -/
  minAlign : ℕ
  minAlign_eq : minAlign = 8 ∨ minAlign = 16

/-- `kMaxSize`: the largest size served from a size class. -/
def kMaxSize : ℕ := 256 * 1024

/-- `kAlignment`: the alignment of every object. -/
def kAlignment : ℕ := 8

/-- `kClassSizesMax`: the room for size classes. -/
def kClassSizesMax : ℕ := 128

/-- `kAddressBits`: the bits of an address. -/
def kAddressBits : ℕ := 48

namespace Build

variable (b : Build)

/-- `kPageSize`. -/
def kPageSize : ℕ := 1 <<< b.pageShift

theorem kPageSize_eq : b.kPageSize = 2 ^ b.pageShift := by
  rw [kPageSize, Nat.shiftLeft_eq, Nat.one_mul]

/-- A page is at most the largest size of a size class. -/
theorem kPageSize_le_kMaxSize : b.kPageSize ≤ kMaxSize := by
  rw [kPageSize_eq]
  exact (Nat.pow_le_pow_right (by decide) b.pageShift_le).trans (by decide)

/-- `kMaxPages`: spans of at most this many pages have exact-size free lists. -/
def kMaxPages : ℕ := 1 <<< (20 - b.pageShift)

/-- `kMaxValidPages`: the most pages a `size_t` can count in bytes. -/
def kMaxValidPages : ℕ := (2 ^ 64 - 1) >>> b.pageShift

/-- `pages(bytes)`: the pages holding `bytes` bytes. -/
def pages (bytes : ℕ) : ℕ :=
  (bytes >>> b.pageShift) + if 0 < bytes &&& (b.kPageSize - 1) then 1 else 0

/-- The default build: pages of 8 KiB, objects aligned to 16 bytes. -/
def default : Build where
  pageShift := 13
  pageShift_ge := by decide
  pageShift_le := by decide
  minAlign := 16
  minAlign_eq := Or.inr rfl

/-- The build with pages of 4 KiB (`TCMALLOC_PAGE_SIZE_SHIFT=12`) and objects
    aligned to 8 bytes (`TCMALLOC_ALIGN_8BYTES`). -/
def pages4kAlign8 : Build where
  pageShift := 12
  pageShift_ge := le_rfl
  pageShift_le := by decide
  minAlign := 8
  minAlign_eq := Or.inl rfl

end Build

end Gperftools
