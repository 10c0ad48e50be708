import Gperftools.Lib.Word
import Gperftools.Lib.Except

/-!
# The low-level allocator

`LowLevelAlloc` (base/low_level_alloc.cc) is a first-fit allocator over
regions it gets from a `PagesAllocator`. Every block, free or allocated,
starts with an `AllocList::Header` of 32 bytes, whose `size` counts the whole
block. The free blocks are kept in address order in a skiplist: a free block
of `levels` levels is linked on the levels `0` to `levels - 1`, and a level
`i` links, in address order, the free blocks of more than `i` levels. The
number of levels of a block is `LLA_SkiplistLevels` of its size: about
`log2` of its size over `min_size`, plus a random part, capped by what fits
in the block (`max_fit`) and by `kMaxLevel - 1`.

* `AllocWithArena(request)` rounds `request` plus the header up to
  `roundup`, walks the level at which every block that large is linked, and
  takes the first block that fits; it splits off and frees the tail when the
  tail can make a block of `min_size`. When no block fits, it maps a region
  of at least `kMinimalRegion` bytes, frees it into the list, and searches
  again.
* `Free(p)` puts the block back in the list, and coalesces it with the
  free blocks just after and just before it when they touch it.
* `DeleteArena` unmaps every region of an arena with no allocated block.

The model keeps the skiplist as the list of its nodes in address order, each
with its number of levels: level `i` is the sublist of the nodes of more than
`i` levels. `Random()`'s generator is its `static uint32_t r`, carried in the
arena. The `PagesAllocator` is an oracle: its `k`-th `MapPages`, asked for
`n` bytes, answers `mapPages k n`. A `RAW_CHECK` that fails ends a call with
its message (`Failure.rawCheck`); the retry loop of `AllocWithArena` is given
a number of rounds, each of which maps a region.

* `maxFit_lt_one_of_lt`, `maxFit_lt_one_of_ge`, `le_size_of_skiplistLevels`:
  a block given a level has at least `48` bytes, and not within `320` bytes of
  `2 ^ 64`;
* `maxFit_large`, `maxFit_large_one`: `max_fit` is computed in `size_t` and
  narrowed to `int`, so for a block of `2 ^ 35 + 32` bytes it is `-1`, and for
  one of `2 ^ 35 + 48` bytes it is `1`;
* `allocWithArena_large_request`: so `AllocWithArena(2 ^ 35)` fails its first
  `RAW_CHECK`, whatever the arena holds, and a large free block can have
  fewer levels than a much smaller request is searched for on.
-/

namespace Gperftools

namespace LowLevelAlloc

/-! ## Sizes -/

/-- `kMaxLevel`. -/
def kMaxLevel : ℕ := 30

/-- `kMinimalRegion`. -/
def kMinimalRegion : ℕ := 2 ^ 20

/-- `sizeof(AllocList::Header)`: `size`, `magic`, `arena` and
    `dummy_for_alignment`. -/
def headerSize : ℕ := 32

/-- `OFFSETOF_MEMBER(AllocList, next)`: the header, then `int levels` padded
    to a pointer. -/
def nextOffset : ℕ := 40

/-- `sizeof(LowLevelAlloc::Arena)`: `mu`, the head `freelist` (an
    `AllocList` of 280 bytes), `allocation_count`, `roundup`, `min_size` and
    `allocator`. -/
def arenaSize : ℕ := 320

/-- `roundup`: the `Arena()` constructor doubles `16` up to
    `sizeof(freelist.header)`. -/
def roundup : ℕ := 32

/-- `min_size`: twice `roundup`. -/
def minSize : ℕ := 2 * roundup

/-- How a call ends without returning: a `RAW_CHECK` that fails, with its
    message, or the retry loop of `AllocWithArena` still searching when the
    rounds given to the model run out. -/
inductive Failure
  | rawCheck (message : String)
  | outOfRounds
  deriving DecidableEq, Repr

/-! ## Levels -/

/-- The halvings of `IntLog2`'s loop from `i` while `i > base`; `fuel`
    bounds them, and `i` halvings always reach `base`. -/
def intLog2Loop (base : ℕ) : ℕ → ℕ → ℕ
  | 0, _ => 0
  | fuel + 1, i => if base < i then intLog2Loop base fuel (i >>> 1) + 1 else 0

/-- `IntLog2(size, base)`. -/
def intLog2 (size base : ℕ) : ℕ := intLog2Loop base size size

/-- One step of the generator of `Random()`: `r = r * 1103515245 + 12345`. -/
def nextRandom (r : UInt32) : UInt32 := r * 1103515245 + 12345

/-- The loop of `Random()`: one more level while bit 30 of the next value of
    `r` is clear. The generator has period `2 ^ 32`, so the bit is set within
    `2 ^ 32` steps and the bound `fuel` is never reached. -/
def randomLoop : ℕ → UInt32 → ℕ → ℕ × UInt32
  | 0, r, result => (result, r)
  | fuel + 1, r, result =>
    if (nextRandom r >>> 30) &&& 1 = 0 then randomLoop fuel (nextRandom r) (result + 1)
    else (result, nextRandom r)

/-- `Random()` from the `static uint32_t r`: the result and the new `r`. -/
def random (r : UInt32) : ℕ × UInt32 := randomLoop (2 ^ 32) r 1

/-- `max_fit`, the levels that fit in a node of `size` bytes: computed in
    `size_t` and narrowed to `int`. -/
def maxFit (size : ℕ) : ℤ := Word.signed 32 (Word.sub 64 size nextOffset / 8)

/-- The level `LLA_SkiplistLevels(size, base, ...)` computes when the random
    part is `n`: `IntLog2(size, base) + n`, then capped by `max_fit` and by
    `kMaxLevel - 1`. -/
def clipLevels (size base n : ℕ) : ℤ :=
  let level : ℤ := intLog2 size base + n
  let level := if level > maxFit size then maxFit size else level
  if level > kMaxLevel - 1 then kMaxLevel - 1 else level

/-- `LLA_SkiplistLevels(size, base, random)`: the number of levels and the
    generator's `r` after it. -/
def skiplistLevels (r : UInt32) (size base : ℕ) (random : Bool) : Except Failure (ℕ × UInt32) :=
  let p := if random then LowLevelAlloc.random r else (1, r)
  let level := clipLevels size base p.1
  if 1 ≤ level then .ok (level.toNat, p.2)
  else .error (.rawCheck "block not big enough for even one level")

/-! ## The free list -/

/-- A node of the skiplist: a free block, the `size` in its header, and its
    `levels`. -/
structure FreeBlock where
  addr : ℕ
  size : ℕ
  levels : ℕ
  deriving DecidableEq, Repr

/-- The address interval of a block. -/
def FreeBlock.toPair (b : FreeBlock) : ℕ × ℕ := (b.addr, b.size)

@[simp] theorem FreeBlock.toPair_fst (b : FreeBlock) : b.toPair.1 = b.addr := rfl

@[simp] theorem FreeBlock.toPair_snd (b : FreeBlock) : b.toPair.2 = b.size := rfl

/-- `head->levels`: the most levels of a node. `LLA_SkiplistInsert` raises it
    to the levels of the node it inserts, and `LLA_SkiplistDelete` lowers it
    past the levels left empty. -/
def headLevels (l : List FreeBlock) : ℕ := l.foldr (fun b m => max b.levels m) 0

/-- `LLA_SkiplistInsert(head, e, prev)`: `e` goes before the first node at an
    address not below its own. -/
def skiplistInsert (e : FreeBlock) : List FreeBlock → List FreeBlock
  | [] => [e]
  | b :: l => if b.addr < e.addr then b :: skiplistInsert e l else e :: b :: l

/-- `LLA_SkiplistDelete(head, e, prev)` for the node at `x`: the first node at
    an address not below `x` must be it. -/
def skiplistDelete (x : ℕ) : List FreeBlock → Except Failure (List FreeBlock)
  | [] => .error (.rawCheck "element not in freelist")
  | b :: l =>
    if b.addr < x then (b :: ·) <$> skiplistDelete x l
    else if b.addr = x then .ok l
    else .error (.rawCheck "element not in freelist")

/-- `prev[0]` after `LLA_SkiplistInsert` of a node at `x`: the last node below
    `x`, `none` for the head. -/
def predecessor (x : ℕ) : List FreeBlock → Option FreeBlock
  | [] => none
  | b :: l => if b.addr < x then (predecessor x l).or (some b) else none

/-- The node at `x` and the node after it, `next[0]`. -/
def nodeAndNext (x : ℕ) : List FreeBlock → Option (FreeBlock × Option FreeBlock)
  | [] => none
  | b :: l => if b.addr = x then some (b, l.head?) else nodeAndNext x l

/-- `Coalesce(a)` for the node `a` at `x`: when the next node starts where `a`
    ends, both are deleted and `a`, grown by the next node's size, is
    inserted with new levels. -/
def coalesce (r : UInt32) (x : ℕ) (l : List FreeBlock) : Except Failure (List FreeBlock × UInt32) :=
  match nodeAndNext x l with
  | some (a, some n) =>
    if a.addr + a.size = n.addr then do
      let l ← skiplistDelete n.addr l
      let l ← skiplistDelete a.addr l
      let p ← skiplistLevels r (a.size + n.size) minSize true
      pure (skiplistInsert ⟨a.addr, a.size + n.size, p.1⟩ l, p.2)
    else pure (l, r)
  | _ => pure (l, r)

/-- `AddToFreelist(v, arena)` for the block `(addr, size)` whose header is
    marked allocated: it is inserted with random levels, then coalesced with
    the node after it and with the node before it. The head comes before every
    block and touches none, so `Coalesce` of the head does nothing. The
    `RAW_CHECK`s on the header's `magic` and `arena` pass: every caller has
    just checked or written them. -/
def addToFreelist (r : UInt32) (f : ℕ × ℕ) (l : List FreeBlock) :
    Except Failure (List FreeBlock × UInt32) := do
  let p ← skiplistLevels r f.2 minSize true
  let l := skiplistInsert ⟨f.1, f.2, p.1⟩ l
  let q ← coalesce p.2 f.1 l
  match predecessor f.1 l with
  | none => pure q
  | some b => coalesce q.2 b.addr q.1

/-! ## The arena -/

/-- A `PagesAllocator`: its `k`-th `MapPages`, asked for `n` bytes, returns
    the region `mapPages k n`, its address and the bytes it got, a mapping in
    the 64-bit address space. -/
structure PagesAllocator where
  mapPages : ℕ → ℕ → ℕ × ℕ
  lt : ∀ k n, (mapPages k n).1 + (mapPages k n).2 < 2 ^ 64

/-- An arena made by `NewArenaWithCustomAlloc`, and the regions its
    allocator mapped. -/
structure Arena where
  /-- The address of the `Arena` object, at the start of the first region. -/
  self : ℕ
  /-- The skiplist's nodes in address order. -/
  freelist : List FreeBlock
  /-- The blocks whose headers are marked `kMagicAllocated`. -/
  allocated : List (ℕ × ℕ)
  /-- `allocation_count`. -/
  allocationCount : ℕ
  /-- `Random()`'s `r`. -/
  rnd : UInt32
  /-- The regions `MapPages` returned, in the order of the calls. -/
  regions : List (ℕ × ℕ)
  deriving DecidableEq, Repr

/-- `InsertAllocatedMemoryLocked(new_pages, new_pages_size)`: the region is
    made a block marked allocated and freed into the list. -/
def insertAllocatedMemoryLocked (s : Arena) (newPages newPagesSize : ℕ) : Except Failure Arena := do
  let q ← addToFreelist s.rnd (newPages, newPagesSize) s.freelist
  pure { s with freelist := q.1, rnd := q.2 }

/-- `NewArenaWithCustomAlloc(a)`, with `Random()`'s `r` at `r`: the `Arena`
    object is placed at the start of a region of `kMinimalRegion` bytes, and
    the rest of the region is freed into its list. -/
def newArenaWithCustomAlloc (a : PagesAllocator) (r : UInt32) : Except Failure Arena :=
  let region := a.mapPages 0 kMinimalRegion
  insertAllocatedMemoryLocked
    { self := region.1, freelist := [], allocated := [], allocationCount := 0, rnd := r,
      regions := [region] }
    (region.1 + arenaSize) (Word.sub 64 region.2 arenaSize)

/-- `RoundUp(addr, align)` on `intptr_t`. -/
def roundUp (addr align : ℕ) : ℕ :=
  Word.add 64 addr (Word.sub 64 align 1) &&& Word.complement 64 (Word.sub 64 align 1)

/-- The walk of `AllocWithArena` along a level from `before` (`none` for the
    head): the first node of at least `reqRnd` bytes. `Next` checks that the
    level is in address order and that no node touches the next. -/
def walk (reqRnd : ℕ) : Option FreeBlock → List FreeBlock → Except Failure (Option FreeBlock)
  | _, [] => .ok none
  | before, s :: l =>
    match before with
    | some p =>
      if ¬ p.addr < s.addr then .error (.rawCheck "unordered freelist")
      else if ¬ p.addr + p.size < s.addr then .error (.rawCheck "malformed freelist")
      else if s.size < reqRnd then walk reqRnd (some s) l else .ok (some s)
    | none => if s.size < reqRnd then walk reqRnd (some s) l else .ok (some s)

/-- One search of the loop of `AllocWithArena`: the level `i` at which every
    block of `reqRnd` bytes is linked is walked from the head, if some node
    has that many levels; `none` when no block fits. -/
def search (reqRnd : ℕ) (s : Arena) : Except Failure (Option FreeBlock) := do
  let p ← skiplistLevels s.rnd reqRnd minSize false
  let i := p.1 - 1
  if i < headLevels s.freelist then walk reqRnd none (s.freelist.filter (i < ·.levels))
  else pure none

/-- What `AllocWithArena` does when no block fits: unlock, map a region of
    `RoundUp(req_rnd, kMinimalRegion)` bytes, lock, and free the region into
    the list. -/
def mapRegion (a : PagesAllocator) (reqRnd : ℕ) (s : Arena) : Except Failure Arena :=
  let region := a.mapPages s.regions.length (roundUp reqRnd kMinimalRegion)
  insertAllocatedMemoryLocked { s with regions := s.regions ++ [region] } region.1 region.2

/-- The `for (;;)` loop of `AllocWithArena`: search, and map a region when
    nothing fits, for at most `rounds` regions. -/
def allocLoop (a : PagesAllocator) (reqRnd : ℕ) : ℕ → Arena → Except Failure (FreeBlock × Arena) :=
  Retry.retry (search reqRnd) (mapRegion a reqRnd) .outOfRounds

/-- `AllocWithArena(request, arena)`, given `rounds` rounds of its retry loop:
    the pointer it returns and the arena after. -/
def allocWithArena (a : PagesAllocator) (rounds request : ℕ) (s : Arena) :
    Except Failure (ℕ × Arena) :=
  if request = 0 then .ok (0, s)
  else do
    let reqRnd := roundUp (Word.add 64 request headerSize) roundup
    let (b, s) ← allocLoop a reqRnd rounds s
    let l ← skiplistDelete b.addr s.freelist
    -- split off the tail when it can make a block of `min_size`
    if reqRnd + minSize ≤ b.size then
      let q ← addToFreelist s.rnd (b.addr + reqRnd, b.size - reqRnd) l
      pure (b.addr + headerSize,
        { s with freelist := q.1, rnd := q.2, allocated := (b.addr, reqRnd) :: s.allocated,
                 allocationCount := s.allocationCount + 1 })
    else
      pure (b.addr + headerSize,
        { s with freelist := l, allocated := (b.addr, b.size) :: s.allocated,
                 allocationCount := s.allocationCount + 1 })

/-- `Free(p)`: the block whose header is just before `p` goes back to the
    list. -/
def free (s : Arena) (p : ℕ) : Except Failure Arena :=
  if p = 0 then .ok s
  else
    let f := Word.sub 64 p headerSize
    match s.allocated.find? (·.1 = f) with
    | none => .error (.rawCheck "bad magic number in Free()")
    | some block => do
      let q ← addToFreelist s.rnd block s.freelist
      if s.allocationCount = 0 then throw (.rawCheck "nothing in arena to free")
      pure { s with freelist := q.1, rnd := q.2, allocated := s.allocated.erase block,
                    allocationCount := s.allocationCount - 1 }

/-- `UsableSize(p)`: the block's size less its header. -/
def usableSize (s : Arena) (p : ℕ) : Option ℕ :=
  (s.allocated.find? (·.1 = Word.sub 64 p headerSize)).map (·.2 - headerSize)

/-- The loop of `DeleteArena` along level 0 of the list: the size of the first
    region's block, if it was seen, and the `UnMapPages` calls for the other
    nodes, in address order. The `RAW_CHECK`s on the nodes' `magic` and
    `arena` pass: every node of the list is a free block of the arena. -/
def deleteLoop (firstRegion : ℕ) : Option ℕ → List FreeBlock → Except Failure (Option ℕ × List (ℕ × ℕ))
  | seen, [] => .ok (seen, [])
  | seen, b :: l =>
    if b.addr = firstRegion then
      if seen.isSome then .error (.rawCheck "") else deleteLoop firstRegion (some b.size) l
    else do
      let q ← deleteLoop firstRegion seen l
      pure (q.1, (b.addr, b.size) :: q.2)

/-- `DeleteArena(arena)` for an arena with a custom allocator: whether it
    returns `true`, and its `UnMapPages` calls. The `DCHECK_EQ` on an arena
    with allocated blocks is off in release builds. -/
def deleteArena (s : Arena) : Except Failure (Bool × List (ℕ × ℕ)) :=
  if s.allocationCount ≠ 0 then .ok (false, [])
  else do
    let q ← deleteLoop (s.self + arenaSize) none s.freelist
    match q.1 with
    | none => throw (.rawCheck "")
    | some size => pure (true, q.2 ++ [(s.self, Word.add 64 size arenaSize)])

/-- A call into the arena. -/
inductive Call
  | alloc (request : ℕ)
  | free (p : ℕ)
  deriving DecidableEq, Repr

/-- One call, given `rounds` rounds for `AllocWithArena`'s loop. -/
def step (a : PagesAllocator) (rounds : ℕ) (s : Arena) : Call → Except Failure Arena
  | .alloc request => (·.2) <$> allocWithArena a rounds request s
  | .free p => free s p

/-- A sequence of calls, until one fails. -/
def run (a : PagesAllocator) (rounds : ℕ) : Arena → List Call → Except Failure Arena
  | s, [] => .ok s
  | s, c :: cs => do run a rounds (← step a rounds s c) cs

/-! ## Levels and rounding -/

/-- The level is capped by `max_fit`. -/
theorem clipLevels_le_maxFit (size base n : ℕ) : clipLevels size base n ≤ maxFit size := by
  unfold clipLevels
  dsimp only
  split_ifs <;> omega

/-- Where `max_fit` is below one, `LLA_SkiplistLevels` fails its `RAW_CHECK`. -/
theorem skiplistLevels_of_maxFit_lt {size : ℕ} (h : maxFit size < 1) (r : UInt32) (base : ℕ)
    (random : Bool) :
    skiplistLevels r size base random =
      .error (.rawCheck "block not big enough for even one level") := by
  unfold skiplistLevels
  dsimp only
  rw [if_neg]
  have := clipLevels_le_maxFit size base (if random then LowLevelAlloc.random r else (1, r)).1
  omega

/-- A node of fewer than `48` bytes has no room for a level: `max_fit` is
    `0`, or, where `size - 40` wraps, a word just below `2 ^ 61` whose low
    half the `int` reads as negative. -/
theorem maxFit_lt_one_of_lt {size : ℕ} (h : size < 48) : maxFit size < 1 := by
  unfold maxFit
  rcases Nat.lt_or_ge size nextOffset with hs | hs
  · have hneg := Word.signed_neg_of_le_mod (w := 32) (x := Word.sub 64 size nextOffset / 8) (by decide)
      (by unfold Word.sub nextOffset at *; omega)
    omega
  · rw [Word.sub_of_le hs (by omega), Nat.div_eq_of_lt (by unfold nextOffset at *; omega)]
    decide

/-- Nor has a node whose size lies within `320` bytes of `2 ^ 64`, such as
    `got - sizeof(Arena)` wrapped from a region of fewer than `320` bytes. -/
theorem maxFit_lt_one_of_ge {size : ℕ} (h : 2 ^ 64 - 320 ≤ size) (h' : size < 2 ^ 64) :
    maxFit size < 1 := by
  unfold maxFit
  have hneg := Word.signed_neg_of_le_mod (w := 32) (x := Word.sub 64 size nextOffset / 8) (by decide)
    (by rw [Word.sub_of_le (by unfold nextOffset; omega) h']; unfold nextOffset; omega)
  omega

/-- A block that `LLA_SkiplistLevels` gives its levels has room for one. -/
theorem one_le_maxFit_of_skiplistLevels {r : UInt32} {size base : ℕ} {random : Bool}
    {p : ℕ × UInt32} (h : skiplistLevels r size base random = .ok p) : 1 ≤ maxFit size := by
  by_contra hlt
  rw [skiplistLevels_of_maxFit_lt (not_le.mp hlt)] at h
  cases h

/-- So it has at least `48` bytes. -/
theorem le_size_of_skiplistLevels {r : UInt32} {size base : ℕ} {random : Bool}
    {p : ℕ × UInt32} (h : skiplistLevels r size base random = .ok p) : 48 ≤ size := by
  by_contra hlt
  exact absurd (one_le_maxFit_of_skiplistLevels h) (not_le.mpr (maxFit_lt_one_of_lt (by omega)))

/-- `RoundUp` to a power of two rounds up to a multiple of it. -/
theorem roundUp_eq {x j : ℕ} (hj : j < 64) (hx : x + 2 ^ j - 1 < 2 ^ 64) :
    roundUp x (2 ^ j) = (x + 2 ^ j - 1) / 2 ^ j * 2 ^ j :=
  Word.add_sub_one_and_complement hj hx

/-- A block of `2 ^ 35 + 32` bytes: `max_fit` is `(2 ^ 35 - 8) / 8 = 2 ^ 32 - 1`,
    which the `int` reads as `-1`. -/
theorem maxFit_large : maxFit (2 ^ 35 + 32) = -1 := by
  rw [maxFit, nextOffset, Word.sub_of_le (by decide) (by decide),
    Word.signed_of_ge (by decide) (by decide) (by decide)]
  decide

/-- When `LLA_SkiplistLevels` fails for the rounded request, the loop of
    `AllocWithArena` fails in its first round. -/
theorem allocLoop_of_skiplistLevels {a : PagesAllocator} {reqRnd : ℕ} {s : Arena} {e : Failure}
    (h : skiplistLevels s.rnd reqRnd minSize false = .error e) (rounds : ℕ) :
    allocLoop a reqRnd rounds s = .error e := by
  have hsearch : search reqRnd s = .error e := by
    rw [search, h]
    rfl
  exact Retry.retry_of_search_error hsearch rounds

/-- A block of `2 ^ 35 + 48` bytes: `max_fit` is `2 ^ 32 + 1`, which the `int`
    reads as `1`. -/
theorem maxFit_large_one : maxFit (2 ^ 35 + 48) = 1 := by
  rw [maxFit, nextOffset, Word.sub_of_le (by decide) (by decide), ← Word.signed_mod,
    Word.signed_of_lt (by decide) (by decide)]
  decide

/-- `AllocWithArena(2 ^ 35)` fails the `RAW_CHECK` of `LLA_SkiplistLevels`
    before it looks at the free list: `req_rnd` is `2 ^ 35 + 32`, whose
    `max_fit` narrows to `-1`. So whatever the arena holds, and however many
    regions the allocator would map, no block is returned. And the levels are
    not monotone in the size: a free block of `2 ^ 35 + 48` bytes gets at most
    one level, whatever `Random()` draws, while a request rounded to
    `2 ^ 20 + 32` bytes is searched for on level `14`. -/
theorem allocWithArena_large_request :
    (∀ (a : PagesAllocator) (rounds : ℕ) (s : Arena), allocWithArena a rounds (2 ^ 35) s =
      .error (.rawCheck "block not big enough for even one level")) ∧
    (∀ n, clipLevels (2 ^ 35 + 48) minSize n ≤ 1) ∧ clipLevels (2 ^ 20 + 32) minSize 1 = 15 := by
  refine ⟨fun a rounds s => ?_, fun n => maxFit_large_one ▸ clipLevels_le_maxFit _ _ n, by decide⟩
  have hreq : roundUp (Word.add 64 (2 ^ 35) headerSize) roundup = 2 ^ 35 + 32 := by
    rw [Word.add_of_lt (by decide), headerSize, roundup, show (32 : ℕ) = 2 ^ 5 from rfl,
      roundUp_eq (by decide) (by decide)]
    decide
  have hloop : allocLoop a (2 ^ 35 + 32) rounds s = _ :=
    allocLoop_of_skiplistLevels
      (skiplistLevels_of_maxFit_lt (by rw [maxFit_large]; decide) s.rnd minSize false) rounds
  rw [allocWithArena, if_neg (by decide)]
  simp only [hreq, hloop]
  rfl

end LowLevelAlloc

end Gperftools
