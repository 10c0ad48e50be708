import Gperftools.PageHeap.Carve
import Gperftools.PageMap

/-!
# Walking the ranges of the heap

`IterateOverRanges` (tcmalloc.cc) reports the spans of the heap to a
callback, one `base::MallocRange` each, from the page 1 on. Each round asks
`GetNextRange(page)` (page_heap.cc) for the span of the first pagemap entry
at or after `page`, which `pagemap_.Next(page)` finds (`PageMap.flatNext`),
and resumes at the page after the range, `(limit + kPageSize - 1) >>
kPageShift` with `limit = address + length` as a `uintptr_t`. The loop runs
until `GetNextRange` finds nothing; the model runs it for a number of rounds.

* `iterateOverRanges_never_ends`: after `NewAligned` has split off a trailer
  that wraps around (`Split`'s `int extra`), the walk goes back and forth
  between the aligned span and the trailer and never ends.
-/

namespace Gperftools.PageHeap

variable (b : Build)

/-- `base::MallocRange::Type`, for the locations a span can have. -/
inductive RangeType
  | inuse
  | free
  | unmapped
  deriving DecidableEq, Repr

/-- A `base::MallocRange`, without its `fraction`. -/
structure MallocRange where
  address : ℕ
  length : ℕ
  type : RangeType
  deriving DecidableEq, Repr

/-- The `switch (span->location)` of `GetNextRange`. -/
def rangeType : Span.Location → RangeType
  | .inUse => .inuse
  | .onNormalFreelist => .free
  | .onReturnedFreelist => .unmapped

/-- The range `GetNextRange` fills in for the span `s`:
    `span->start << kPageShift` and `span->length << kPageShift`. -/
def rangeOf (h : PageHeap) (s : SpanId) : MallocRange :=
  ⟨bytes b (h.spans s).start, bytes b (h.spans s).length, rangeType (h.spans s).location⟩

/-- `GetNextRange(start, r)`: `none` where it returns `false`. -/
def getNextRange (h : PageHeap) (start : ℕ) : Option MallocRange :=
  (PageMap.flatNext (kAddressBits - b.pageShift) h.pagemap start).map (rangeOf b h)

/-- The page the walk resumes at after the range `r`. -/
def resumePage (r : MallocRange) : ℕ :=
  Word.sub 64 (Word.add 64 (Word.add 64 r.address r.length) b.kPageSize) 1 >>> b.pageShift

/-- The loop of `IterateOverRanges` from `page`, for `fuel` rounds: the
    ranges it hands to `func`. -/
def walkRanges (h : PageHeap) : ℕ → ℕ → List MallocRange
  | 0, _ => []
  | fuel + 1, page =>
    match getNextRange b h page with
    | none => []
    | some r => r :: walkRanges h fuel (resumePage b r)

/-- `IterateOverRanges`, for `fuel` rounds: the walk from the page 1. -/
def iterateOverRanges (h : PageHeap) (fuel : ℕ) : List MallocRange := walkRanges b h fuel 1

/-! ## A walk that never ends -/

/-- The system of `sbrkEnv`, with its first region at 64 KiB. -/
def lowEnv : Env := { sbrkEnv with sysAlloc := fun i size => (if i = 0 then 2 ^ 16 else 2 ^ 44, size) }

/-- The heap after `New(2 ^ 31 - 8)` has taken the pages from 8 to `2 ^ 31`
    (span 0) and `NewAligned(2 ^ 31, 2 ^ 31)` has returned the span 1 of
    `2 ^ 31` pages at 16 TiB, splitting off the trailer, span 2. -/
def rangesHeap : PageHeap :=
  (run Build.default lowEnv (init Build.default 1)
    [.new (2 ^ 31 - 8), .newAligned (2 ^ 31) (2 ^ 31)]).1

/-- The rounds of the walk on `rangesHeap`: from the page 1 it finds span 0,
    from its end span 1, from there the trailer, and the trailer's end wraps
    around to the page of span 1. -/
theorem getNextRange_rangesHeap :
    getNextRange Build.default rangesHeap 1 = some (rangeOf Build.default rangesHeap 0) ∧
      getNextRange Build.default rangesHeap (2 ^ 31) = some (rangeOf Build.default rangesHeap 1) ∧
      getNextRange Build.default rangesHeap (2 ^ 32) = some (rangeOf Build.default rangesHeap 2) ∧
      resumePage Build.default (rangeOf Build.default rangesHeap 0) = 2 ^ 31 ∧
      resumePage Build.default (rangeOf Build.default rangesHeap 1) = 2 ^ 32 ∧
      resumePage Build.default (rangeOf Build.default rangesHeap 2) = 2 ^ 31 := by
  decide +kernel

/-- From span 1 on, the walk goes back and forth between span 1 and the
    trailer, and every round reports a range: by induction on the rounds,
    for both pages at once. -/
theorem length_walkRanges_rangesHeap :
    ∀ fuel, (walkRanges Build.default rangesHeap fuel (2 ^ 31)).length = fuel ∧
      (walkRanges Build.default rangesHeap fuel (2 ^ 32)).length = fuel
  | 0 => ⟨rfl, rfl⟩
  | fuel + 1 => by
    obtain ⟨-, hX, hT, -, hrX, hrT⟩ := getNextRange_rangesHeap
    obtain ⟨ih31, ih32⟩ := length_walkRanges_rangesHeap fuel
    simp only [walkRanges, hX, hT, hrX, hrT, List.length_cons, ih31, ih32, and_self]

/-- On a heap of three spans, where `NewAligned` split off a trailer of
    `2 ^ 64 - 2 ^ 31` pages, the walk never ends: every round reports a
    range, and from the third round on it reports span 1 and the trailer
    again and again. -/
theorem iterateOverRanges_never_ends :
    rangesHeap.spanAllocator = ⟨[], 3⟩ ∧ (rangesHeap.spans 2).length = 2 ^ 64 - 2 ^ 31 ∧
      (∀ fuel, (iterateOverRanges Build.default rangesHeap fuel).length = fuel) ∧
      iterateOverRanges Build.default rangesHeap 5 =
        [0, 1, 2, 1, 2].map (rangeOf Build.default rangesHeap) := by
  obtain ⟨hA, hX, hT, hrA, hrX, hrT⟩ := getNextRange_rangesHeap
  refine ⟨by decide +kernel, by decide +kernel, fun fuel => ?_, ?_⟩
  · cases fuel with
    | zero => rfl
    | succ fuel =>
      simp only [iterateOverRanges, walkRanges, hA, hrA, List.length_cons,
        (length_walkRanges_rangesHeap fuel).1]
  · simp only [iterateOverRanges, walkRanges, hA, hX, hT, hrA, hrX, hrT, List.map_cons,
      List.map_nil]

end Gperftools.PageHeap
