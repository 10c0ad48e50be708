import Gperftools.PageHeap.Ops

/-!
# Carving and splitting spans

`Carve(span, n)` and `Split(span, n)` cut a span of `L` pages in two: the
first `n` pages stay in `span`, and the `extra = L - n` pages after them make
a new span. The code computes `extra` as an `int`: below `2 ^ 31` pages it is
`L - n`, but from `2 ^ 31` to `2 ^ 32` pages it is negative (`extra_of_ge`),
and then

* `carve_of_extra_neg`: `Carve` makes no leftover and hands out the whole
  span of `L` pages in use;
* `split_of_extra_neg`: `Split` makes a leftover of `2 ^ 64 - 2 ^ 32 + (L - n)`
  pages, whose last page, recorded in the pagemap, wraps around to lie before
  the leftover.

Both happen on runs of the page heap from its construction:
`carve_keeps_wide_span` frees a span of `2 ^ 31 + 1` pages and carves one page
out of it; in `newAligned_trailer_overlong`, the trailer that `NewAligned`
splits off is `2 ^ 64 - 2 ^ 32` pages too long, and in
`newAligned_blocks_coalescing` the pagemap entry written for its last page
keeps two free spans of the same location, side by side, from coalescing.
-/

namespace Gperftools.PageHeap

variable (b : Build) {h : PageHeap} {s : SpanId} {n : ℕ}

@[simp] theorem commitSpan_spans (h : PageHeap) (s : SpanId) :
    (commitSpan b h s).spans = h.spans := rfl

@[simp] theorem commitSpan_spanAllocator (h : PageHeap) (s : SpanId) :
    (commitSpan b h s).spanAllocator = h.spanAllocator := rfl

/-- From `2 ^ 31` to `2 ^ 32`, the `int` of `span->length - n` is negative,
    and as a `Length` it is `2 ^ 64 - 2 ^ 32` more than the difference. -/
theorem extra_of_ge {len : ℕ} (hn : n ≤ len) (hlen : len < 2 ^ 64) (hlo : 2 ^ 31 ≤ len - n)
    (hx : len - n < 2 ^ 32) :
    Word.signed 32 (Word.sub 64 len n) < 0 ∧
      Word.ofInt 64 (Word.signed 32 (Word.sub 64 len n)) = 2 ^ 64 - 2 ^ 32 + (len - n) := by
  rw [Word.sub_of_le hn hlen]
  refine ⟨?_, Word.ofInt_signed_of_ge (by decide) (by decide) hlo hx⟩
  rw [Word.signed_of_ge (by decide) hlo hx]
  omega

/-- The operating system of the runs below as `TCMalloc_SystemRelease`
    sees it: pages of 4 KiB, and a `madvise` that always works. Its `sbrk`
    and `mmap` are not read, since the page heap's `TCMalloc_SystemAlloc` is
    the oracle `Env.sysAlloc`. -/
def linuxSystem : SystemAlloc.Env where
  sbrk := fun _ _ => none
  mmap := fun _ _ _ => none
  madvise := fun _ => .ok
  pagesize := 4096
  memoryAligner := 64
  skipSbrk := false
  skipMmap := false
  disableRelease := false
  mmapFirst := false

/-- A system that hands out its first region 1 MiB below 16 TiB and the
    next ones at 16 TiB, as `sbrk` does after a first request of 1 MiB;
    `madvise` always works, the pagemap always finds memory, there is no heap
    limit, and after releasing `k` pages the heap waits `1000 k` pages, as at
    the default release rate. -/
def sbrkEnv : Env where
  sysAlloc := fun i size => (if i = 0 then 2 ^ 44 - 2 ^ 20 else 2 ^ 44, size)
  system := linuxSystem
  adviseAttempts := 1
  pagemapEnsure := fun _ => true
  heapLimitMb := 0
  releaseDisabled := false
  releaseWait := fun k => min (1000 * k) kMaxReleaseDelay

/-- The heap after `New(2 ^ 31 + 1)` and the `Delete` of the span it
    returns. -/
def wideFreeHeap : PageHeap :=
  (run Build.default sbrkEnv (init Build.default 1) [.new (2 ^ 31 + 1), .delete 0]).1

/-- The heap holds a free span of `2 ^ 31 + 1` pages; carving one page out of
    it hands out all `2 ^ 31 + 1` pages, and makes no leftover. -/
theorem carve_keeps_wide_span :
    (wideFreeHeap.spans 0).length = 2 ^ 31 + 1 ∧
      (wideFreeHeap.spans 0).location = .onReturnedFreelist ∧
      ((carve Build.default wideFreeHeap 0 1).spans 0).length = 2 ^ 31 + 1 ∧
      ((carve Build.default wideFreeHeap 0 1).spans 0).location = .inUse ∧
      (carve Build.default wideFreeHeap 0 1).spanAllocator = wideFreeHeap.spanAllocator := by
  decide +kernel

/-- The heap after `New(128)` and `New(2 ^ 32)`: the second span is the
    `2 ^ 32` pages from 16 TiB. -/
def tallSpanHeap : PageHeap :=
  (run Build.default sbrkEnv (init Build.default 1) [.new 128, .new (2 ^ 32)]).1

/-- The heap after a span `A` of 128 pages is allocated just below 16 TiB,
    `NewAligned(2 ^ 31, 2 ^ 31)` returns a span `X` at 16 TiB, `New(1)` takes
    one page, and `A` and `X` are freed. -/
def alignedRunHeap : PageHeap :=
  (run Build.default sbrkEnv (init Build.default 1)
    [.new 128, .newAligned (2 ^ 31) (2 ^ 31), .new 1, .delete 0, .delete 1]).1

/-- `NewAligned` took `2 ^ 32` pages and split off the last `2 ^ 31`: the
    trailer's last page landed on the last page of `A`. `New(1)` carved its
    page out of the trailer, which kept its object and is now in use, so
    freeing `X` looked up its neighbour there and found a span in use: `A`
    and `X` stay side by side, both on normal free lists, with aggressive
    decommit off. -/
theorem newAligned_blocks_coalescing :
    alignedRunHeap.aggressiveDecommit = false ∧ alignedRunHeap.spanAllocator = ⟨[], 4⟩ ∧
      (alignedRunHeap.spans 0).location = .onNormalFreelist ∧
      (alignedRunHeap.spans 1).location = .onNormalFreelist ∧
      (alignedRunHeap.spans 0).start + (alignedRunHeap.spans 0).length =
        (alignedRunHeap.spans 1).start ∧
      alignedRunHeap.pagemap (lastPage (alignedRunHeap.spans 0)) = some 2 ∧
      (alignedRunHeap.spans 2).location = .inUse := by
  decide +kernel

/-- The heap after a span of 128 pages is allocated just below 16 TiB. -/
def oneSpanHeap : PageHeap := (run Build.default sbrkEnv (init Build.default 1) [.new 128]).1

/-- `NewAligned(2 ^ 31, 2 ^ 31)` on `oneSpanHeap`, as `memalign(2 ^ 44, 2 ^ 44)`
    makes it. -/
def alignedCall : PageHeap × Option SpanId :=
  Op.apply Build.default sbrkEnv oneSpanHeap (.newAligned (2 ^ 31) (2 ^ 31))

/-- `NewAligned` returns the span `X` of `2 ^ 31` pages at a multiple of
    `2 ^ 31` pages, but its trailer is `2 ^ 64 - 2 ^ 31` pages long: the
    spans hold `2 ^ 64 - 2 ^ 32` pages more than the 128 pages before the
    call and the `2 ^ 32` pages the heap grew by. -/
theorem newAligned_trailer_overlong :
    alignedCall.2 = some 1 ∧ (alignedCall.1.spans 1).length = 2 ^ 31 ∧
      (alignedCall.1.spans 1).start % 2 ^ 31 = 0 ∧
      (alignedCall.1.spans 2).length = 2 ^ 64 - 2 ^ 31 ∧
      spanPages oneSpanHeap = 128 ∧
      alignedCall.1.stats.systemBytes - oneSpanHeap.stats.systemBytes = 2 ^ 32 * 2 ^ 13 ∧
      spanPages alignedCall.1 = 128 + 2 ^ 32 + (2 ^ 64 - 2 ^ 32) := by
  decide +kernel

end Gperftools.PageHeap
