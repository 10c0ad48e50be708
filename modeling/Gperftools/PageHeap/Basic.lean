import Gperftools.Lib.Word
import Gperftools.PackedCache
import Gperftools.SystemAlloc

/-!
# The page heap: state

`PageHeap` (page_heap.h) owns the memory tcmalloc takes from the system, in
runs of pages called *spans*. A span is in use, or free: on a *normal* free
list (its memory committed), or on a *returned* one (its memory given back
to the system with `TCMalloc_SystemRelease`). Free spans of at most
`kMaxPages` pages are on the exact-length lists `free_[length - 1]`, longer
ones in the ordered sets `large_normal_` and `large_returned_`, best fit
first. The pagemap maps pages to spans; the page heap keeps it right at the
first and last page of every span.

Span objects come from a `PageHeapAllocator`, which reuses freed objects
last in, first out; a span is named by its object (`SpanId`, a number
standing for its address), and a freed object keeps its old fields.

The page heap calls out to the system: `TCMalloc_SystemAlloc` for memory,
`TCMalloc_SystemRelease` to give it back, and the metadata allocator when the
pagemap grows. The outcomes of the first and the last are parameters of an
`Env`, read at the number of calls made so far, so that a theorem about every
`Env` covers every outcome. `TCMalloc_SystemRelease` is the model of
system-alloc.cc (`SystemAlloc.systemRelease`): it rounds the range to the
system's pages and asks `madvise`, whose answers are the oracle, on the
state of system-alloc.cc that the page heap carries. The release rate is a
`double`: the model takes from it whether releasing is disabled and the wait
it computes.

Page numbers and lengths are `uintptr_t`: natural numbers with the
arithmetic of `Word` where the code's arithmetic can wrap.
-/

namespace Gperftools

/-- A span object's address. -/
abbrev SpanId := ℕ

/-- `Span::location`. -/
inductive Span.Location
  | inUse
  | onNormalFreelist
  | onReturnedFreelist
  deriving DecidableEq, Repr

/-- The fields of a span (`struct Span`) that the page heap reads and
    writes. -/
structure Span where
  start : ℕ
  length : ℕ
  location : Span.Location
  sizeclass : ℕ
  sample : Bool
  deriving DecidableEq, Repr

/-- `PageHeapAllocator<Span>`: the free list of span objects, and how many
    objects have been carved so far. -/
structure SpanAllocator where
  freeList : List SpanId
  carved : ℕ
  deriving DecidableEq, Repr

namespace SpanAllocator

/-- After `Init`, which carves one object and frees it. -/
def init : SpanAllocator := ⟨[0], 1⟩

/-- `New`: the last freed object, or a new one. -/
def new (a : SpanAllocator) : SpanId × SpanAllocator :=
  match a.freeList with
  | s :: rest => (s, ⟨rest, a.carved⟩)
  | [] => (a.carved, ⟨[], a.carved + 1⟩)

/-- `Delete`. -/
def delete (a : SpanAllocator) (s : SpanId) : SpanAllocator := ⟨s :: a.freeList, a.carved⟩

end SpanAllocator

/-- The page heap's counters (`PageHeap::Stats`) that its code reads; all
    `uint64_t` byte counts. -/
structure PageHeap.Stats where
  /-- Bytes obtained from the system. -/
  systemBytes : ℕ
  /-- Bytes on normal free lists. -/
  freeBytes : ℕ
  /-- Bytes on returned free lists. -/
  unmappedBytes : ℕ
  /-- Bytes committed. -/
  committedBytes : ℕ
  deriving DecidableEq, Repr

/-- The outcomes of the page heap's calls to the system. -/
structure PageHeap.Env where
  /-- `tcmalloc_sys_alloc->Alloc(size, &actual_size, kPageSize)` at its `i`-th
      call: the address (`0` for `nullptr`) and the actual size. -/
  sysAlloc : ℕ → ℕ → ℕ × ℕ
  /-- The operating system as `TCMalloc_SystemRelease` reads it:
      `madvise`, `getpagesize()` and `FLAGS_malloc_disable_memory_release`. -/
  system : SystemAlloc.Env
  /-- The attempts of the `do ... while (!result && retry)` loop of
      `TCMalloc_SystemRelease`, which only a `madvise` that keeps failing
      with `EAGAIN` can exhaust. -/
  adviseAttempts : ℕ
  /-- The metadata allocator finds memory for the pagemap's `i`-th `Ensure`. -/
  pagemapEnsure : ℕ → Bool
  /-- `FLAGS_tcmalloc_heap_limit_mb`. -/
  heapLimitMb : ℕ
  /-- `FLAGS_tcmalloc_release_rate <= 1e-6`: releasing is disabled. -/
  releaseDisabled : Bool
  /-- After releasing `k` pages, the wait until the next scavenge:
      `static_cast<int64_t>(min(1000.0 / rate * k, kMaxReleaseDelay))`. -/
  releaseWait : ℕ → ℤ

/-- How many times each call to the system has been made, and how many
    calls to `TCMalloc_SystemRelease` failed. -/
structure PageHeap.Calls where
  sysAlloc : ℕ
  releaseFailures : ℕ
  pagemapEnsure : ℕ
  deriving DecidableEq, Repr

/-- The state of the page heap. -/
structure PageHeap where
  /-- `smallest_span_size_`: a power of two. -/
  smallestSpanSize : ℕ
  /-- The span objects, by address. -/
  spans : SpanId → Span
  /-- `Static::span_allocator()`. -/
  spanAllocator : SpanAllocator
  /-- `pagemap_`: the span of a page. -/
  pagemap : ℕ → Option SpanId
  /-- `pagemap_cache_`. -/
  cache : PackedCache
  /-- `free_[i].normal`, first to last. -/
  freeNormal : ℕ → List SpanId
  /-- `free_[i].returned`, first to last. -/
  freeReturned : ℕ → List SpanId
  /-- `large_normal_`: the spans with their lengths, in the order of
      `SpanBestFitLess`. -/
  largeNormal : List (SpanId × ℕ)
  /-- `large_returned_`. -/
  largeReturned : List (SpanId × ℕ)
  stats : PageHeap.Stats
  /-- `scavenge_counter_` (`int64_t`). -/
  scavengeCounter : ℤ
  /-- `release_index_`. -/
  releaseIndex : ℕ
  /-- `aggressive_decommit_`. -/
  aggressiveDecommit : Bool
  /-- `TCMalloc_SystemTaken`: bytes obtained from `TCMalloc_SystemAlloc`. -/
  systemTaken : ℕ
  /-- The state of system-alloc.cc that `TCMalloc_SystemRelease` changes:
      its calls to `madvise`. -/
  system : SystemAlloc.SysAlloc
  calls : PageHeap.Calls

namespace PageHeap

/-- `kMaxReleaseDelay`. -/
def kMaxReleaseDelay : ℤ := 1 <<< 20

/-- `kDefaultReleaseDelay`. -/
def kDefaultReleaseDelay : ℤ := 1 <<< 18

/-- `kForcedCoalesceInterval`. -/
def kForcedCoalesceInterval : ℕ := 128 * 1024 * 1024

variable (b : Build)

/-- A freshly constructed page heap (`PageHeap(smallest_span_size)`). -/
def init (smallestSpanSize : ℕ) : PageHeap where
  smallestSpanSize := smallestSpanSize
  spans := fun _ => ⟨0, 0, .inUse, 0, false⟩
  spanAllocator := SpanAllocator.init
  pagemap := fun _ => none
  cache := PackedCache.empty
  freeNormal := fun _ => []
  freeReturned := fun _ => []
  largeNormal := []
  largeReturned := []
  stats := ⟨0, 0, 0, 0⟩
  scavengeCounter := 0
  releaseIndex := b.kMaxPages
  aggressiveDecommit := false
  systemTaken := 0
  system := SystemAlloc.SysAlloc.init
  calls := ⟨0, 0, 0⟩


/-- Page counts in bytes: `length << kPageShift`, as a `uint64_t`. -/
def bytes (length : ℕ) : ℕ := (length <<< b.pageShift) % 2 ^ 64

/-! ## Spans and the pagemap -/

/-- `GetDescriptor(p)`: the pagemap holds no page at or beyond
    `2 ^ (kAddressBits - kPageShift)`. -/
def getDescriptor (h : PageHeap) (p : ℕ) : Option SpanId :=
  if 0 < p >>> (kAddressBits - b.pageShift) then none else h.pagemap p

/-- `pagemap_.set(p, span)`. -/
def setPage (h : PageHeap) (p : ℕ) (s : SpanId) : PageHeap :=
  { h with pagemap := Function.update h.pagemap p (some s) }

/-- The last page of a span: `start + length - 1`. -/
def lastPage (sp : Span) : ℕ := Word.sub 64 (Word.add 64 sp.start sp.length) 1

/-- `RecordSpan`: the pagemap at the first and the last page of `s`. -/
def recordSpan (h : PageHeap) (s : SpanId) : PageHeap :=
  let h' := h.setPage (h.spans s).start s
  if 1 < (h.spans s).length then h'.setPage (lastPage (h.spans s)) s else h'

/-- Rewrites the fields of the span `s`. -/
def setSpan (h : PageHeap) (s : SpanId) (sp : Span) : PageHeap :=
  { h with spans := Function.update h.spans s sp }

/-- `NewSpan(p, len)`: a span object, in use, of `len` pages from `p`. -/
def newSpan (h : PageHeap) (p len : ℕ) : PageHeap × SpanId :=
  let (s, a) := h.spanAllocator.new
  ({ h with spanAllocator := a }.setSpan s ⟨p, len, .inUse, 0, false⟩, s)

/-- `DeleteSpan(span)`. -/
def deleteSpan (h : PageHeap) (s : SpanId) : PageHeap :=
  { h with spanAllocator := h.spanAllocator.delete s }

/-- The span objects handed out and not deleted: the spans of the heap. -/
def liveSpans (h : PageHeap) : List SpanId :=
  (List.range h.spanAllocator.carved).filter fun s => !h.spanAllocator.freeList.contains s

/-- The pages of all the spans of the heap. -/
def spanPages (h : PageHeap) : ℕ := ((liveSpans h).map fun s => (h.spans s).length).sum

@[simp] theorem setPage_spans (h : PageHeap) (p : ℕ) (s : SpanId) :
    (h.setPage p s).spans = h.spans := rfl

@[simp] theorem setPage_pagemap (h : PageHeap) (p : ℕ) (s : SpanId) :
    (h.setPage p s).pagemap = Function.update h.pagemap p (some s) := rfl

@[simp] theorem recordSpan_spans (h : PageHeap) (s : SpanId) :
    (h.recordSpan s).spans = h.spans := by
  unfold recordSpan; split_ifs <;> rfl

theorem recordSpan_pagemap (h : PageHeap) (s : SpanId) :
    (h.recordSpan s).pagemap =
      if 1 < (h.spans s).length then
        Function.update (Function.update h.pagemap (h.spans s).start (some s))
          (lastPage (h.spans s)) (some s)
      else Function.update h.pagemap (h.spans s).start (some s) := by
  unfold recordSpan; split_ifs <;> rfl

@[simp] theorem recordSpan_spanAllocator (h : PageHeap) (s : SpanId) :
    (h.recordSpan s).spanAllocator = h.spanAllocator := by
  unfold recordSpan; split_ifs <;> rfl

@[simp] theorem setSpan_spans (h : PageHeap) (s : SpanId) (sp : Span) :
    (h.setSpan s sp).spans = Function.update h.spans s sp := rfl

@[simp] theorem setSpan_pagemap (h : PageHeap) (s : SpanId) (sp : Span) :
    (h.setSpan s sp).pagemap = h.pagemap := rfl

@[simp] theorem setSpan_spanAllocator (h : PageHeap) (s : SpanId) (sp : Span) :
    (h.setSpan s sp).spanAllocator = h.spanAllocator := rfl

@[simp] theorem newSpan_snd (h : PageHeap) (p len : ℕ) :
    (h.newSpan p len).2 = h.spanAllocator.new.1 := rfl

@[simp] theorem newSpan_fst_spans (h : PageHeap) (p len : ℕ) :
    (h.newSpan p len).1.spans =
      Function.update h.spans h.spanAllocator.new.1 ⟨p, len, .inUse, 0, false⟩ := rfl

@[simp] theorem newSpan_fst_pagemap (h : PageHeap) (p len : ℕ) :
    (h.newSpan p len).1.pagemap = h.pagemap := rfl

@[simp] theorem newSpan_fst_spanAllocator (h : PageHeap) (p len : ℕ) :
    (h.newSpan p len).1.spanAllocator = h.spanAllocator.new.2 := rfl

/-! ## Free lists -/

/-- `SpanBestFitLess`: by length, then by start. -/
def bestFitLess (h : PageHeap) (x y : SpanId × ℕ) : Bool :=
  x.2 < y.2 || (x.2 == y.2 && (h.spans x.1).start < (h.spans y.1).start)

/-- `set->insert(x)`: before the first element greater than `x`. -/
def setInsert (h : PageHeap) (x : SpanId × ℕ) : List (SpanId × ℕ) → List (SpanId × ℕ)
  | [] => [x]
  | y :: ys => if h.bestFitLess x y then x :: y :: ys else y :: setInsert h x ys

/-- `set->upper_bound(bound)`, for the bound of `n` pages starting at page
    `0`: the first span of at least `n` pages, but for one of `n` pages
    starting at page `0`. -/
def upperBound (h : PageHeap) (n : ℕ) : List (SpanId × ℕ) → Option SpanId
  | [] => none
  | y :: ys => if n < y.2 || (n == y.2 && 0 < (h.spans y.1).start) then some y.1
    else upperBound h n ys

/-- `DLL_Prepend` on the list `i` of `lists`. -/
def listPrepend (lists : ℕ → List SpanId) (i : ℕ) (s : SpanId) : ℕ → List SpanId :=
  Function.update lists i (s :: lists i)

/-- `DLL_Remove` of `s` from the list `i` of `lists`. -/
def listRemove (lists : ℕ → List SpanId) (i : ℕ) (s : SpanId) : ℕ → List SpanId :=
  Function.update lists i ((lists i).erase s)

/-- The counter of the free lists of a location, moved by `f`. -/
def Stats.onList (st : Stats) (normal : Bool) (f : ℕ → ℕ) : Stats :=
  if normal then { st with freeBytes := f st.freeBytes }
  else { st with unmappedBytes := f st.unmappedBytes }

/-- `PrependToFreeList(span)`. -/
def prependToFreeList (h : PageHeap) (s : SpanId) : PageHeap :=
  let sp := h.spans s
  let normal := sp.location == .onNormalFreelist
  let h := { h with stats := h.stats.onList normal (Word.add 64 · (bytes b sp.length)) }
  if b.kMaxPages < sp.length then
    if normal then { h with largeNormal := h.setInsert (s, sp.length) h.largeNormal }
    else { h with largeReturned := h.setInsert (s, sp.length) h.largeReturned }
  else if normal then { h with freeNormal := listPrepend h.freeNormal (sp.length - 1) s }
  else { h with freeReturned := listPrepend h.freeReturned (sp.length - 1) s }

@[simp] theorem prependToFreeList_spans (h : PageHeap) (s : SpanId) :
    (prependToFreeList b h s).spans = h.spans := by
  unfold prependToFreeList; dsimp only; split_ifs <;> rfl

@[simp] theorem prependToFreeList_spanAllocator (h : PageHeap) (s : SpanId) :
    (prependToFreeList b h s).spanAllocator = h.spanAllocator := by
  unfold prependToFreeList; dsimp only; split_ifs <;> rfl

/-- `RemoveFromFreeList(span)`. -/
def removeFromFreeList (h : PageHeap) (s : SpanId) : PageHeap :=
  let sp := h.spans s
  let normal := sp.location == .onNormalFreelist
  let h := { h with stats := h.stats.onList normal (Word.sub 64 · (bytes b sp.length)) }
  if b.kMaxPages < sp.length then
    if normal then { h with largeNormal := h.largeNormal.erase (s, sp.length) }
    else { h with largeReturned := h.largeReturned.erase (s, sp.length) }
  else if normal then { h with freeNormal := listRemove h.freeNormal (sp.length - 1) s }
  else { h with freeReturned := listRemove h.freeReturned (sp.length - 1) s }

@[simp] theorem removeFromFreeList_spans (h : PageHeap) (s : SpanId) :
    (removeFromFreeList b h s).spans = h.spans := by
  unfold removeFromFreeList; dsimp only; split_ifs <;> rfl

@[simp] theorem removeFromFreeList_spanAllocator (h : PageHeap) (s : SpanId) :
    (removeFromFreeList b h s).spanAllocator = h.spanAllocator := by
  unfold removeFromFreeList; dsimp only; split_ifs <;> rfl

/-! ## The size class cache -/

/-- `kHashbits` of `pagemap_cache_`, a `PackedCache<kAddressBits -
    kPageShift>` of a build that is not small-but-slow. -/
def cacheHashbits : ℕ := PackedCache.kHashbits 16 (kAddressBits - b.pageShift)

/-- `InvalidateCachedSizeClass(p)`. -/
def invalidateCachedSizeClass (h : PageHeap) (p : ℕ) : PageHeap :=
  { h with cache := PackedCache.invalidate (cacheHashbits b) h.cache p }

/-- `TryGetSizeClass(p)`. -/
def tryGetSizeClass (h : PageHeap) (p : ℕ) : Option ℕ :=
  PackedCache.tryGet (cacheHashbits b) h.cache p

/-- `SetCachedSizeClass(p, cl)`. -/
def setCachedSizeClass (h : PageHeap) (p cl : ℕ) : PageHeap :=
  { h with cache := PackedCache.put (cacheHashbits b) h.cache p cl }

end PageHeap

end Gperftools
