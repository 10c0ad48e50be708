import Gperftools.Common

/-!
# Size classes

`SizeMap::Init` (common.cc) divides the sizes up to `kMaxSize` into size
classes. It walks the sizes from `kAlignment` up, each step the alignment
the current size asks for (`AlignmentForSize`), and gives each size the span
it would be carved from: the fewest multiples of the smallest span size
(`min_span_size`, the larger of the system's page and tcmalloc's) that waste
at most an eighth and hold enough objects for a transfer (`NumMoveSize`). A
size joins the class before it when its span has the same pages and holds as
many objects. Then it fills the table `class_array_` from sizes to classes,
indexed by `ClassIndex`, and checks the tables; a failed check crashes
(`Log(kCrash, ...)`, `CHECK_CONDITION`), here an `Except.error` carrying the
message.

Init reads the environment twice: `TCMALLOC_TRANSFER_NUM_OBJ`, the value of
`FLAGS_tcmalloc_transfer_num_objects` (`flags`), and the native page size
(`nativePageSize`, from `TCMALLOC_OVERRIDE_PAGESIZE` or `getpagesize()`).
The flag is an `int32_t`; the model takes the values it has when it is not
negative. A negative flag is left out: from -4 down, `NumMoveSize(size) / 4`
is negative, the test `(psize / size) < (blocks_to_move)` converts it to a
`size_t` near `2 ^ 64`, and the page loop of Init never ends.

The loops are recursions on a `fuel` that the loop cannot exhaust: each
iteration of the loops over sizes adds at least `kAlignment`, and the span
loops stop once the span holds eight objects and a transfer's worth.
-/

namespace Gperftools.SizeMap

/-- `kMaxSmallSize`: the sizes indexed in steps of 8. -/
def kMaxSmallSize : ℕ := 1024

/-- `kClassArraySize`. -/
def kClassArraySize : ℕ := ((kMaxSize + 127 + (120 <<< 7)) >>> 7) + 1

/-- `ClassIndex(s)`, for `s ≤ kMaxSize`: steps of 8 up to `kMaxSmallSize`,
    then steps of 128. -/
def classIndex (s : ℕ) : ℕ :=
  if s ≤ kMaxSmallSize then (s + 7) >>> 3 else (s + 127 + (120 <<< 7)) >>> 7

/-- `ClassIndexMaybe(s, &idx)`. -/
def classIndexMaybe (s : ℕ) : Option ℕ :=
  if s ≤ kMaxSmallSize then some ((s + 7) >>> 3)
  else if s ≤ kMaxSize then some ((s + 127 + (120 <<< 7)) >>> 7)
  else none

/-- `LgFloor(n)`: halving the exponent from 16 down to 1. -/
def lgFloor (n : ℕ) : ℕ :=
  ([4, 3, 2, 1, 0].foldl (fun (acc : ℕ × ℕ) i =>
    let x := acc.1 >>> (1 <<< i)
    if x ≠ 0 then (x, acc.2 + (1 <<< i)) else acc) (n, 0)).2

/-- `NumMoveSize(size)`: about 64 KiB of objects, at least 2 and at most
    `FLAGS_tcmalloc_transfer_num_objects`. The code divides `64.0 * 1024.0`
    by `size` in `double` and truncates; for sizes below `2 ^ 53` the rounded
    quotient does not reach the next integer, so this is the quotient of
    naturals. -/
def numMoveSize (flags size : ℕ) : ℕ :=
  if size = 0 then 0
  else
    let num := 65536 / size
    let num := if num < 2 then 2 else num
    if flags < num then flags else num

/-- With a transfer size of 0, no size moves an object. -/
@[simp] theorem numMoveSize_zero_left (size : ℕ) : numMoveSize 0 size = 0 := by
  unfold numMoveSize
  dsimp only
  split_ifs <;> omega

/-- With a positive transfer size, every size moves an object. -/
theorem numMoveSize_pos {flags size : ℕ} (hflags : 0 < flags) (hsize : 0 < size) :
    0 < numMoveSize flags size := by
  unfold numMoveSize
  dsimp only
  split_ifs <;> omega

variable (b : Build)

/-- `AlignmentForSize(size)`. -/
def alignmentForSize (size : ℕ) : Except String ℕ :=
  let alignment := if kMaxSize < size then b.kPageSize
    else if 128 ≤ size then (1 <<< lgFloor size) / 8
    else if b.minAlign ≤ size then b.minAlign
    else kAlignment
  let alignment := if b.kPageSize < alignment then b.kPageSize else alignment
  if ¬ (size < b.minAlign ∨ b.minAlign ≤ alignment) then
    .error "size < kMinAlign || alignment >= kMinAlign"
  else if alignment &&& (alignment - 1) ≠ 0 then .error "(alignment & (alignment - 1)) == 0"
  else .ok alignment

/-- The inner loop of the span computation: `psize += min_span_size` while
    the leftover `psize % size` is more than an eighth of `psize`. -/
def fitSpan (minSpanSize size : ℕ) : ℕ → ℕ → ℕ
  | 0, psize => psize
  | fuel + 1, psize =>
    if psize >>> 3 < psize % size then fitSpan minSpanSize size fuel (psize + minSpanSize)
    else psize

/-- The outer loop of the span computation: another `min_span_size`, then
    the inner loop, until the span holds `blocksToMove` objects. -/
def spanLoop (minSpanSize size blocksToMove : ℕ) : ℕ → ℕ → ℕ
  | 0, psize => psize
  | fuel + 1, psize =>
    let psize := fitSpan minSpanSize size kMaxSize (psize + minSpanSize)
    if psize / size < blocksToMove then spanLoop minSpanSize size blocksToMove fuel psize
    else psize

/-- The bytes of the span of a size: the loop from `psize = 0`. -/
def spanBytes (minSpanSize flags size : ℕ) : ℕ :=
  spanLoop minSpanSize size (numMoveSize flags size / 4) kMaxSize 0

/-- A size joins the classes made so far: the last class, of size
    `prevSize` and spans of `prevPages` pages, takes it if the size's span
    has as many pages and holds as many objects; else the size starts a
    class of its own. -/
def addSize (pageShift size myPages : ℕ) : List (ℕ × ℕ) → List (ℕ × ℕ)
  | (prevSize, prevPages) :: rest =>
    if myPages = prevPages ∧
        (myPages <<< pageShift) / size = (prevPages <<< pageShift) / prevSize then
      (size, prevPages) :: rest
    else (size, myPages) :: (prevSize, prevPages) :: rest
  | [] => [(size, myPages)]

/-- The loop of `Init` over sizes, from `size`, with the classes made so far,
    last first, as (`class_to_size_`, `class_to_pages_`). -/
def classLoop (minSpanSize flags : ℕ) : ℕ → ℕ → List (ℕ × ℕ) → Except String (List (ℕ × ℕ))
  | 0, _, classes => .ok classes
  | fuel + 1, size, classes =>
    if kMaxSize < size then .ok classes
    else match alignmentForSize b size with
    | .error e => .error e
    | .ok alignment =>
      if size % alignment ≠ 0 then .error "(size % alignment) == 0"
      else classLoop minSpanSize flags fuel (size + alignment)
        (addSize b.pageShift size (spanBytes minSpanSize flags size >>> b.pageShift) classes)

/-- The fill of `class_array_` for the class `c`, from `s` to `maxSize` in
    steps of `kAlignment`. -/
def fillClass (c maxSize : ℕ) : ℕ → ℕ → (ℕ → ℕ) → (ℕ → ℕ)
  | 0, _, arr => arr
  | fuel + 1, s, arr =>
    if s ≤ maxSize then fillClass c maxSize fuel (s + kAlignment) (Function.update arr (classIndex s) c)
    else arr

/-- The fill of `class_array_` for the classes from `c` on, of the given
    sizes, the smaller sizes done up to `nextSize`. -/
def fillClassArray : List ℕ → ℕ → ℕ → (ℕ → ℕ) → (ℕ → ℕ)
  | [], _, _, arr => arr
  | maxSize :: sizes, c, nextSize, arr =>
    fillClassArray sizes (c + 1) (maxSize + kAlignment)
      (fillClass c maxSize (kMaxSize / kAlignment + 1) nextSize arr)

end SizeMap

/-- The tables of `SizeMap` after `Init`. -/
structure SizeMap where
  /-- `num_size_classes`. -/
  numSizeClasses : ℕ
  /-- `class_to_size_[c]` and `class_to_pages_[c]` for the classes `c` from 1. -/
  classes : List (ℕ × ℕ)
  /-- `class_array_`: a class for each `ClassIndex`. -/
  classArray : ℕ → ℕ
  /-- `min_span_size_in_pages_`. -/
  minSpanSizeInPages : ℕ

namespace SizeMap

/-- `class_to_size(cl)`: `0` outside the classes, as the static array is. -/
def classToSize (m : SizeMap) (cl : ℕ) : ℕ := if cl = 0 then 0 else (m.classes.getD (cl - 1) (0, 0)).1

/-- `class_to_pages(cl)`. -/
def classToPages (m : SizeMap) (cl : ℕ) : ℕ :=
  if cl = 0 then 0 else (m.classes.getD (cl - 1) (0, 0)).2

/-- `SizeClass(size)`, for `size ≤ kMaxSize`. -/
def sizeClass (m : SizeMap) (size : ℕ) : ℕ := m.classArray (classIndex size)

/-- `GetSizeClass(size, &cl)`: the class, for sizes up to `kMaxSize`. -/
def getSizeClass (m : SizeMap) (size : ℕ) : Option ℕ := (classIndexMaybe size).map m.classArray

/-- `num_objects_to_move(cl)`, as `Init` sets it. -/
def numObjectsToMove (flags : ℕ) (m : SizeMap) (cl : ℕ) : ℕ := numMoveSize flags (m.classToSize cl)

/-- The loop of `Init` that checks every size class: over the sizes in
    steps of 8 up to `kMaxSmallSize`, then of 128. -/
def checkSizes (m : SizeMap) : ℕ → ℕ → Except String Unit
  | 0, _ => .ok ()
  | fuel + 1, size =>
    if kMaxSize < size then .ok ()
    else
      let sc := m.sizeClass size
      if sc = 0 ∨ m.numSizeClasses ≤ sc then .error "Bad size class (class, size)"
      else if 1 < sc ∧ size ≤ m.classToSize (sc - 1) then
        .error "Allocating unnecessarily large class (class, size)"
      else if m.classToSize sc < size ∨ m.classToSize sc = 0 then
        .error "Bad (class, size, requested)"
      else checkSizes m fuel (size + if size ≤ kMaxSmallSize then 8 else 128)

/-- The inner loop of `Init`'s alignment check: the sizes below the page
    that are multiples of `align`. -/
def checkAlignedSizes (m : SizeMap) (pageSize align : ℕ) : ℕ → ℕ → Except String Unit
  | 0, _ => .ok ()
  | fuel + 1, size =>
    if pageSize ≤ size then .ok ()
    else if m.classToSize (m.sizeClass size) % align ≠ 0 then
      .error "class_to_size_[SizeClass(size)] % align == 0"
    else checkAlignedSizes m pageSize align fuel (size + align)

/-- The outer loop of `Init`'s alignment check: the alignments from
    `kMinAlign` to the page, doubling. -/
def checkAlignments (m : SizeMap) (pageSize : ℕ) : ℕ → ℕ → Except String Unit
  | 0, _ => .ok ()
  | fuel + 1, align =>
    if pageSize < align then .ok ()
    else match checkAlignedSizes m pageSize align pageSize align with
      | .error e => .error e
      | .ok () => checkAlignments m pageSize fuel (align <<< 1)

variable (b : Build)

/-- `min_span_size`, as the first lines of `Init()` compute it from the native
    page size. -/
def minSpanSize (nativePageSize : ℕ) : ℕ :=
  let minSpanSize := max nativePageSize b.kPageSize
  -- a page size that is no multiple of tcmalloc's is logged and replaced
  if b.kPageSize < minSpanSize ∧ minSpanSize % b.kPageSize ≠ 0 then b.kPageSize else minSpanSize

/-- `Init()`, with the transfer size `flags` and the native page size. -/
def init (flags nativePageSize : ℕ) : Except String SizeMap :=
  let minSpanSize := minSpanSize b nativePageSize
  if classIndex 0 ≠ 0 then .error "Invalid class index for size 0"
  else if kClassArraySize ≤ classIndex kMaxSize then .error "Invalid class index for kMaxSize"
  else match classLoop b minSpanSize flags (kMaxSize / kAlignment + 1) kAlignment [] with
    | .error e => .error e
    | .ok classes =>
      let sc := classes.length + 1
      if kClassSizesMax < sc then .error "too many size classes: (found vs. max)"
      else
        let m : SizeMap := {
          numSizeClasses := sc
          classes := classes.reverse
          classArray := fillClassArray (classes.reverse.map Prod.fst) 1 0 fun _ => 0
          minSpanSizeInPages := minSpanSize / b.kPageSize }
        match checkSizes m (kMaxSize / kAlignment + 1) 0 with
        | .error e => .error e
        | .ok () => match checkAlignments m b.kPageSize (b.pageShift + 1) b.minAlign with
          | .error e => .error e
          | .ok () => .ok m

/-- The smallest span that `Init` records is the one its first lines compute. -/
theorem init_minSpanSizeInPages {flags nativePageSize : ℕ} {m : SizeMap}
    (h : init b flags nativePageSize = .ok m) :
    m.minSpanSizeInPages = minSpanSize b nativePageSize / b.kPageSize := by
  unfold init at h
  dsimp only at h
  split_ifs at h
  -- past the class loop and the count, every exit but the last is an error
  split at h
  · cases h
  · split_ifs at h
    split at h
    · cases h
    · split at h
      · cases h
      · cases h
        rfl

end Gperftools.SizeMap
