import Gperftools.PageHeap.Basic

/-!
# The page heap: operations

The functions of page_heap.cc, each on the state and returning the new
state with its result. Loops are recursions over the number of iterations
left: the round robin of `ReleaseAtLeastNPages` over the `kMaxPages + 1`
lists, and its outer loop, which releases at least one page per round or
stops, over the bytes on the normal free lists; the list search of
`SearchFreeAndLargeLists` over the lengths from `n` to `kMaxPages`. The
retry of `AllocLarge` after `EnsureLimit(n, true)` happens once: once the
limit is ensured, `EnsureLimit(n, false)` holds.

The public operations a client calls are those of `Op`.
-/

namespace Gperftools.PageHeap

variable (b : Build) (env : Env)

/-! ## Calls to the system -/

/-- `TCMalloc_SystemAlloc(size, &actual_size, kPageSize)`: the address (`0`
    for `nullptr`) and the actual size; `TCMalloc_SystemTaken` counts what
    it hands out. -/
def systemAlloc (h : PageHeap) (size : ℕ) : PageHeap × ℕ × ℕ :=
  if Word.add 64 size b.kPageSize < size then (h, 0, 0)
  else
    let (ptr, actual) := env.sysAlloc h.calls.sysAlloc size
    let h := { h with calls := { h.calls with sysAlloc := h.calls.sysAlloc + 1 } }
    if ptr = 0 then (h, 0, actual)
    else ({ h with systemTaken := Word.add 64 h.systemTaken actual }, ptr, actual)

/-- `TCMalloc_SystemRelease(start, length)`: the pages rounded in, and
    `madvise` asked; a failure is counted. -/
def systemRelease (h : PageHeap) (start length : ℕ) : PageHeap × Bool :=
  let (system, rv) := SystemAlloc.systemRelease env.system h.system start length env.adviseAttempts
  ({ h with system := system,
            calls := { h.calls with
              releaseFailures := if rv then h.calls.releaseFailures else h.calls.releaseFailures + 1 } },
    rv)

/-- `pagemap_.Ensure(start, n)`: fails for pages beyond the map, and when
    the metadata allocator finds no memory for a leaf. -/
def pagemapEnsure (h : PageHeap) (start n : ℕ) : PageHeap × Bool :=
  if 0 < Word.sub 64 (Word.add 64 start n) 1 >>> (kAddressBits - b.pageShift) then (h, false)
  else ({ h with calls := { h.calls with pagemapEnsure := h.calls.pagemapEnsure + 1 } },
    env.pagemapEnsure h.calls.pagemapEnsure)

/-- `CommitSpan(span)`. -/
def commitSpan (h : PageHeap) (s : SpanId) : PageHeap :=
  { h with stats := { h.stats with
      committedBytes := Word.add 64 h.stats.committedBytes (bytes b (h.spans s).length) } }

/-- `DecommitSpan(span)`: whether `TCMalloc_SystemRelease` worked on the
    span's bytes, `span->start << kPageShift` and `span->length << kPageShift`
    as `uintptr_t`. -/
def decommitSpan (h : PageHeap) (s : SpanId) : PageHeap × Bool :=
  let (h, rv) := systemRelease env h (((h.spans s).start <<< b.pageShift) % 2 ^ 64)
    (bytes b (h.spans s).length)
  if rv then
    ({ h with stats := { h.stats with
        committedBytes := Word.sub 64 h.stats.committedBytes (bytes b (h.spans s).length) } }, true)
  else (h, false)

/-! ## Carving and splitting -/

/-- `Carve(span, n)`: takes the free `span` off its list and keeps its first
    `n` pages in it, in use; the `extra` pages after them, if any, become a
    new span on the free list of the old location. `extra` is an `int`. -/
def carve (h : PageHeap) (s : SpanId) (n : ℕ) : PageHeap :=
  let oldLocation := (h.spans s).location
  let h := removeFromFreeList b h s
  let h := h.setSpan s { h.spans s with location := .inUse }
  let extra := Word.signed 32 (Word.sub 64 (h.spans s).length n)
  let h := if 0 < extra then
      let (h, leftover) := h.newSpan (Word.add 64 (h.spans s).start n) (Word.ofInt 64 extra)
      let h := h.setSpan leftover { h.spans leftover with location := oldLocation }
      let h := h.recordSpan leftover
      let h := prependToFreeList b h leftover
      let h := h.setSpan s { h.spans s with length := n }
      h.setPage (Word.sub 64 (Word.add 64 (h.spans s).start n) 1) s
    else h
  if oldLocation = .onReturnedFreelist then commitSpan b h s else h

/-- `Split(span, n)`: the span in use keeps its first `n` pages, and the
    `extra` pages after them become a new span in use, the result. -/
def split (h : PageHeap) (s : SpanId) (n : ℕ) : PageHeap × SpanId :=
  let extra := Word.signed 32 (Word.sub 64 (h.spans s).length n)
  let (h, leftover) := h.newSpan (Word.add 64 (h.spans s).start n) (Word.ofInt 64 extra)
  let h := h.recordSpan leftover
  let h := h.setPage (Word.sub 64 (Word.add 64 (h.spans s).start n) 1) s
  (h.setSpan s { h.spans s with length := n }, leftover)

/-! ## Coalescing and releasing -/

/-- `CheckAndHandlePreMerge(span, other)`: the neighbour `other`, taken off
    its list, if it can merge with `span`: in aggressive decommit mode a
    normal neighbour of a returned span is decommitted first. -/
def checkAndHandlePreMerge (h : PageHeap) (s : SpanId) :
    Option SpanId → PageHeap × Option SpanId
  | none => (h, none)
  | some o =>
    if h.aggressiveDecommit ∧ (h.spans o).location = .onNormalFreelist ∧
        (h.spans s).location = .onReturnedFreelist then
      let (h, worked) := decommitSpan b env h o
      if worked then (removeFromFreeList b h o, some o) else (h, none)
    else if (h.spans o).location ≠ (h.spans s).location then (h, none)
    else (removeFromFreeList b h o, some o)

/-- The start of `MergeIntoFreeList`: in aggressive decommit mode, a normal
    span is decommitted, and is returned if that worked. -/
def decommitMerging (h : PageHeap) (s : SpanId) : PageHeap :=
  if h.aggressiveDecommit ∧ (h.spans s).location = .onNormalFreelist then
    let (h, ok) := decommitSpan b env h s
    if ok then h.setSpan s { h.spans s with location := .onReturnedFreelist } else h
  else h

/-- The merge of the preceding span `prev`, if any, into `span`. -/
def mergePrev (h : PageHeap) (s : SpanId) : Option SpanId → PageHeap
  | some o =>
    let len := (h.spans o).length
    let h := h.deleteSpan o
    let h := h.setSpan s { h.spans s with
      start := Word.sub 64 (h.spans s).start len, length := Word.add 64 (h.spans s).length len }
    h.setPage (h.spans s).start s
  | none => h

/-- The merge of the next span `next`, if any, into `span`. -/
def mergeNext (h : PageHeap) (s : SpanId) : Option SpanId → PageHeap
  | some o =>
    let len := (h.spans o).length
    let h := h.deleteSpan o
    let h := h.setSpan s { h.spans s with length := Word.add 64 (h.spans s).length len }
    h.setPage (lastPage (h.spans s)) s
  | none => h

/-- `MergeIntoFreeList(span)`: coalesces the free `span` with the spans
    before and after it, when they can merge, and puts it on its list. -/
def mergeIntoFreeList (h : PageHeap) (s : SpanId) : PageHeap :=
  let p := (h.spans s).start
  let n := (h.spans s).length
  let h := decommitMerging b env h s
  let prev := checkAndHandlePreMerge b env h s (h.getDescriptor b (Word.sub 64 p 1))
  let h := mergePrev prev.1 s prev.2
  let next := checkAndHandlePreMerge b env h s (h.getDescriptor b (Word.add 64 p n))
  prependToFreeList b (mergeNext next.1 s next.2) s

/-- `ReleaseSpan(s)`: decommits the normal span `s` and moves it to the
    returned lists, coalescing; the pages released. -/
def releaseSpan (h : PageHeap) (s : SpanId) : PageHeap × ℕ :=
  let (h, ok) := decommitSpan b env h s
  if ok then
    let h := removeFromFreeList b h s
    let n := (h.spans s).length
    let h := h.setSpan s { h.spans s with location := .onReturnedFreelist }
    (mergeIntoFreeList b env h s, n)
  else (h, 0)

/-- The inner loop of `ReleaseAtLeastNPages`, with `k` iterations left: one
    span released from each list in turn, the last of a small list or the
    first of `large_normal_`. The pages released so far, and whether a
    release failed, which ends the whole loop. -/
def releaseRound (num : ℕ) : ℕ → PageHeap → ℕ → PageHeap × ℕ × Bool
  | 0, h, released => (h, released, false)
  | k + 1, h, released =>
    if released < num then
      let h := if b.kMaxPages < h.releaseIndex then { h with releaseIndex := 0 } else h
      let candidate := if h.releaseIndex = b.kMaxPages then h.largeNormal.head?.map Prod.fst
        else (h.freeNormal h.releaseIndex).getLast?
      match candidate with
      | none => releaseRound num k { h with releaseIndex := h.releaseIndex + 1 } released
      | some s =>
        let (h, len) := releaseSpan b env h s
        if len = 0 then (h, released, true)
        else releaseRound num k { h with releaseIndex := h.releaseIndex + 1 }
          (Word.add 64 released len)
    else (h, released, false)

/-- The outer loop of `ReleaseAtLeastNPages`, with `fuel` rounds left. -/
def releaseLoop (num : ℕ) : ℕ → PageHeap → ℕ → PageHeap × ℕ
  | 0, h, released => (h, released)
  | fuel + 1, h, released =>
    if released < num ∧ 0 < h.stats.freeBytes then
      let (h, released, stop) := releaseRound b env num (b.kMaxPages + 1) h released
      if stop then (h, released) else releaseLoop num fuel h released
    else (h, released)

/-- `ReleaseAtLeastNPages(num_pages)`: the pages released. -/
def releaseAtLeastNPages (h : PageHeap) (num : ℕ) : PageHeap × ℕ :=
  releaseLoop b env num (h.stats.freeBytes + 1) h 0

/-- `IncrementalScavenge(n)`, after `n` pages were freed. -/
def incrementalScavenge (h : PageHeap) (n : ℕ) : PageHeap :=
  let counter := Word.signed 64 (Word.sub 64 (Word.ofInt 64 h.scavengeCounter) n)
  let h := { h with scavengeCounter := counter }
  if 0 ≤ counter then h
  else if env.releaseDisabled then { h with scavengeCounter := kDefaultReleaseDelay }
  else
    let (h, released) := releaseAtLeastNPages b env h 1
    if released = 0 then { h with scavengeCounter := kDefaultReleaseDelay }
    else { h with scavengeCounter := env.releaseWait released }

/-- `DeleteLocked(span)`: the span in use becomes free, coalescing. -/
def deleteLocked (h : PageHeap) (s : SpanId) : PageHeap :=
  let n := (h.spans s).length
  let h := h.setSpan s { h.spans s with
    sizeclass := 0, sample := false, location := .onNormalFreelist }
  let h := mergeIntoFreeList b env h s
  incrementalScavenge b env h n

/-- `EnsureLimit(n, withRelease)`: whether `n` more pages keep the heap
    within `FLAGS_tcmalloc_heap_limit_mb`, releasing pages if allowed. -/
def ensureLimit (h : PageHeap) (n : ℕ) (withRelease : Bool) : PageHeap × Bool :=
  let limit := (env.heapLimitMb * 1024 * 1024 % 2 ^ 64) >>> b.pageShift
  if limit = 0 then (h, true)
  else
    let taken := Word.sub 64 (h.systemTaken >>> b.pageShift) (h.stats.unmappedBytes >>> b.pageShift)
    if limit < Word.add 64 taken n ∧ withRelease then
      let (h, released) := releaseAtLeastNPages b env h (Word.sub 64 (Word.add 64 taken n) limit)
      (h, Word.add 64 (Word.sub 64 taken released) n ≤ limit)
    else (h, Word.add 64 taken n ≤ limit)

/-! ## Allocation -/

/-- `AllocLarge(n)`: the best fit of at least `n` pages in the large sets,
    preferring a normal span to a returned one of the same length; with
    `fuel` retries left. -/
def allocLarge (n : ℕ) : ℕ → PageHeap → PageHeap × Option SpanId
  | 0, h => (h, none)
  | fuel + 1, h =>
    let bestNormal := h.upperBound n h.largeNormal
    let best := match bestNormal, h.upperBound n h.largeReturned with
      | some bn, some c => if (h.spans c).length < (h.spans bn).length then some c else some bn
      | none, some c => some c
      | bn, none => bn
    match best with
    | none => (h, none)
    | some s =>
      if best = bestNormal then (carve b h s n, some s)
      else
        let (h, ok) := ensureLimit b env h n false
        if ok then (carve b h s n, some s)
        else
          let (h, ok) := ensureLimit b env h n true
          if ok then allocLarge n fuel h else (h, none)

/-- The loop of `SearchFreeAndLargeLists(n)` from the length `s`, with `k`
    lengths left before `kMaxPages`. -/
def searchLists (n : ℕ) : ℕ → ℕ → PageHeap → PageHeap × Option SpanId
  | 0, _, h => allocLarge b env n 2 h
  | k + 1, s, h =>
    match h.freeNormal (s - 1) with
    | x :: _ => (carve b h x n, some x)
    | [] =>
      match h.freeReturned (s - 1) with
      | [] => searchLists n k (s + 1) h
      | _ :: _ =>
        let (h, ok) := ensureLimit b env h n true
        if ok then
          -- the list may have emptied by coalescing during the release
          match h.freeReturned (s - 1) with
          | x :: _ => (carve b h x n, some x)
          | [] => searchLists n k (s + 1) h
        else searchLists n k (s + 1) h

/-- `SearchFreeAndLargeLists(n)`. -/
def searchFreeAndLargeLists (h : PageHeap) (n : ℕ) : PageHeap × Option SpanId :=
  searchLists b env n (b.kMaxPages + 1 - n) n h

/-- `if (EnsureLimit(ask)) ptr = TCMalloc_SystemAlloc(ask << kPageShift,
    &actual_size, kPageSize);` in `GrowHeap`: no memory where the limit
    forbids it. -/
def allocWithinLimit (h : PageHeap) (ask : ℕ) : PageHeap × ℕ × ℕ :=
  let (h, ok) := ensureLimit b env h ask true
  if ok then systemAlloc b env h ((ask <<< b.pageShift) % 2 ^ 64) else (h, 0, 0)

/-- The first half of `GrowHeap(n)`, up to the memory it receives: `ask`
    pages, and, if that brought nothing and `n < ask`, just `n` pages. -/
def growAlloc (h : PageHeap) (n ask : ℕ) : PageHeap × ℕ × ℕ :=
  let (h, ptr, actual) := allocWithinLimit b env h ask
  if ptr = 0 ∧ n < ask then allocWithinLimit b env h n else (h, ptr, actual)

/-- The second half of `GrowHeap(n)`: the `actual` bytes at `ptr` are counted,
    the pagemap made to cover them and the pages around them, and given to
    the heap as a span that is freed at once. -/
def growInstall (h : PageHeap) (ptr actual : ℕ) : PageHeap × Bool :=
  let ask := actual >>> b.pageShift
  let h := { h with stats := { h.stats with
    systemBytes := Word.add 64 h.stats.systemBytes (bytes b ask),
    committedBytes := Word.add 64 h.stats.committedBytes (bytes b ask) } }
  let p := ptr >>> b.pageShift
  let ensured := pagemapEnsure b env h (p - 1) (ask + 2)
  if ensured.2 then
    let (h, s) := ensured.1.newSpan p ask
    (deleteLocked b env (h.recordSpan s) s, true)
  else (ensured.1, false)

/-- `GrowHeap(n)`: at least `n` pages from the system, given to the heap as
    a freed span, once the pagemap covers them and the pages around them. -/
def growHeap (h : PageHeap) (n : ℕ) : PageHeap × Bool :=
  if b.kMaxValidPages < n then (h, false)
  else
    let (h, ptr, actual) := growAlloc b env h n (if b.kMaxPages < n then n else b.kMaxPages)
    if ptr = 0 then (h, false) else growInstall b env h ptr actual

/-- `RoundUpSize(n)`: `n` rounded up to `smallest_span_size_`, or the
    largest such multiple on overflow. -/
def roundUpSize (h : PageHeap) (n : ℕ) : ℕ :=
  let mask := 2 ^ 64 - h.smallestSpanSize
  let rounded := Word.add 64 n (h.smallestSpanSize - 1) &&& mask
  if rounded < n then (2 ^ 64 - 1) &&& mask else rounded

/-- `NewLocked(n)`: a span in use of `n` pages (rounded up), from the free
    lists, after releasing everything if the heap would otherwise grow while
    much of it is free, or from the system. -/
def newLocked (h : PageHeap) (n : ℕ) : PageHeap × Option SpanId :=
  let n := roundUpSize h n
  let (h, r) := searchFreeAndLargeLists b env h n
  if r.isSome then (h, r)
  else
    let st := h.stats
    let (h, r) := if st.freeBytes ≠ 0 ∧ st.unmappedBytes ≠ 0 ∧
        st.systemBytes / 4 ≤ Word.add 64 st.freeBytes st.unmappedBytes ∧
        st.systemBytes / kForcedCoalesceInterval ≠
          Word.add 64 st.systemBytes (bytes b n) / kForcedCoalesceInterval then
        searchFreeAndLargeLists b env (releaseAtLeastNPages b env h 0x7fffffff).1 n
      else (h, none)
    if r.isSome then (h, r)
    else
      let (h, ok) := growHeap b env h n
      if ok then searchFreeAndLargeLists b env h n else (h, none)

/-- `RegisterSizeClass(span, sc)`: the span's size class (an 8-bit field),
    and the pagemap at all its pages. -/
def registerSizeClass (h : PageHeap) (s : SpanId) (sc : ℕ) : PageHeap :=
  let h := h.setSpan s { h.spans s with sizeclass := sc % 256 }
  (List.range' 1 ((h.spans s).length - 2)).foldl
    (fun h i => h.setPage (Word.add 64 (h.spans s).start i) s) h

/-- `NewWithSizeClass(n, sizeclass)`. -/
def newWithSizeClass (h : PageHeap) (n sc : ℕ) : PageHeap × Option SpanId :=
  match newLocked b env h n with
  | (h, none) => (h, none)
  | (h, some s) =>
    let h := h.invalidateCachedSizeClass b (h.spans s).start
    (if sc ≠ 0 then registerSizeClass h s sc else h, some s)

/-- The loop of `NewAligned` finding how many pages to skip from `start` to
    reach a page whose address has no bit of `mask`; with `fuel` steps left. -/
def alignSkip (start mask : ℕ) : ℕ → ℕ → ℕ
  | 0, skip => skip
  | fuel + 1, skip =>
    if (((Word.add 64 start skip) <<< b.pageShift) % 2 ^ 64) &&& mask ≠ 0 then
      alignSkip start mask fuel (skip + 1)
    else skip

/-- `NewAligned(n, align_pages)`: a span of `n` pages (rounded up) starting
    at a multiple of `align_pages` pages, cut out of a span of
    `n + align_pages` pages whose head and tail are freed. -/
def newAligned (h : PageHeap) (n alignPages : ℕ) : PageHeap × Option SpanId :=
  let n := roundUpSize h n
  let alloc := Word.add 64 n alignPages
  if alloc < n ∨ alloc < alignPages then
    -- `New(max)`, which cannot succeed, to report out of memory
    ((newWithSizeClass b env h (2 ^ 64 - 1) 0).1, none)
  else
    match newLocked b env h alloc with
    | (h, none) => (h, none)
    | (h, some s) =>
      let mask := ((alignPages <<< b.pageShift) % 2 ^ 64) - 1
      let skip := alignSkip b (h.spans s).start mask alloc 0
      let (h, s) := if 0 < skip then
          let (h, rest) := split h s skip
          (deleteLocked b env h s, rest)
        else (h, s)
      let h := if n < (h.spans s).length then
          let (h, trailer) := split h s n
          deleteLocked b env h trailer
        else h
      (h.invalidateCachedSizeClass b (h.spans s).start, some s)

/-! ## The interface -/

/-- The calls a client makes to the page heap. -/
inductive Op
  | new (n : ℕ)
  | newWithSizeClass (n sizeclass : ℕ)
  | newAligned (n alignPages : ℕ)
  | delete (s : SpanId)
  | registerSizeClass (s : SpanId) (sizeclass : ℕ)
  | releaseAtLeastNPages (n : ℕ)
  | setAggressiveDecommit (aggressive : Bool)

/-- Performs a call: the new state, and the span it returns, if any. -/
def Op.apply (h : PageHeap) : Op → PageHeap × Option SpanId
  | .new n => PageHeap.newWithSizeClass b env h n 0
  | .newWithSizeClass n sc => PageHeap.newWithSizeClass b env h n sc
  | .newAligned n align => PageHeap.newAligned b env h n align
  | .delete s => (deleteLocked b env h s, none)
  | .registerSizeClass s sc => (PageHeap.registerSizeClass h s sc, none)
  | .releaseAtLeastNPages n => ((PageHeap.releaseAtLeastNPages b env h n).1, none)
  | .setAggressiveDecommit a => ({ h with aggressiveDecommit := a }, none)

/-- Performs the calls in order: the last state, and what each call
    returned. -/
def run (h : PageHeap) : List Op → PageHeap × List (Option SpanId)
  | [] => (h, [])
  | op :: ops =>
    let (h, r) := Op.apply b env h op
    let (h, rs) := run h ops
    (h, r :: rs)

end Gperftools.PageHeap
