import Gperftools.Common
import Gperftools.Lib.Word
import Gperftools.Lib.Intervals

/-!
# The system allocators

`TCMalloc_SystemAlloc(size, &actual_size, alignment)` (system-alloc.cc) is
where tcmalloc takes memory from the operating system. It discards requests
whose `size + alignment` wraps, raises the alignment to
`sizeof(MemoryAligner)`, and asks `DefaultSysAllocator`, which tries its two
children in turn, the `sbrk` allocator and the `mmap` allocator (the `mmap`
one first in 64-bit debug builds), skipping a child that failed before until
both have failed. It then checks that the block ends below
`2 ^ kAddressBits` and adds its size to `TCMalloc_SystemTaken`.

* `SbrkSysAllocator::Alloc` rounds the size up to the alignment, extends the
  break by it, and when the break was not aligned extends it again by the
  missing bytes, or, when that is not contiguous, asks for
  `size + alignment - 1` bytes and aligns within them;
* `MmapSysAllocator::Alloc` raises the alignment to a page, tries to continue
  the previous mapping at `hint_`, and otherwise maps `alignment - pagesize`
  bytes more than it needs and unmaps what lies before and after the aligned
  block.

The operating system is an oracle (`Env`): `sbrk` and `mmap` answer at the
number of calls made so far, which the state counts. The state logs the
memory the system handed out (every `sbrk` of a positive increment and every
`mmap` that succeeded) and every `munmap` made, so that the theorems can say
where the blocks lie. `TCMalloc_SystemRelease` hands pages back with
`madvise`, whose `k`-th call answers too. The lazy `InitSystemAllocators`
is the initial state, and `tc_get_sysalloc_override` keeps the default
allocator.
-/

namespace Gperftools

namespace SystemAlloc

/-- What `madvise` (or `mmap(MAP_FIXED)` with `PROT_NONE`) answers: success,
    failure with `errno == EAGAIN`, or another failure. -/
inductive Advice
  | ok
  | again
  | fail
  deriving DecidableEq, Repr

/-- The operating system, and the build and flags the allocators read. -/
structure Env where
  /-- `sbrk(increment)` at its `k`-th call: the old break, `none` for
      `(void*)-1`. -/
  sbrk : ℕ → ℕ → Option ℕ
  /-- `mmap(hint, length, ...)` of anonymous memory at its `k`-th call, the
      hint `0` for none: the address, `none` for `MAP_FAILED`. -/
  mmap : ℕ → ℕ → ℕ → Option ℕ
  /-- `madvise(start, length, MADV_FREE)` at its `k`-th call. -/
  madvise : ℕ → Advice
  /-- `getpagesize()`. -/
  pagesize : ℕ
  /-- `sizeof(MemoryAligner)`, a cache line. -/
  memoryAligner : ℕ
  /-- `FLAGS_malloc_skip_sbrk`. -/
  skipSbrk : Bool
  /-- `FLAGS_malloc_skip_mmap`. -/
  skipMmap : Bool
  /-- `FLAGS_malloc_disable_memory_release`. -/
  disableRelease : Bool
  /-- `kDebugMode && sizeof(void*) > 4`: the `mmap` allocator comes first. -/
  mmapFirst : Bool

/-- The children of `DefaultSysAllocator`. -/
inductive Child
  | sbrk
  | mmap
  deriving DecidableEq, Repr

/-- The state of the system allocators, and the log of what they asked of
    the system. -/
structure SysAlloc where
  /-- `MmapSysAllocator::hint_`. -/
  hint : ℕ
  /-- `DefaultSysAllocator::failed_`. -/
  failed : Fin 2 → Bool
  /-- `TCMalloc_SystemTaken`. -/
  systemTaken : ℕ
  /-- The calls made to `sbrk`, `mmap` and `madvise`. -/
  sbrkCalls : ℕ
  mmapCalls : ℕ
  madviseCalls : ℕ
  /-- The memory the system handed out, in the order of the calls. -/
  given : List (ℕ × ℕ)
  /-- The ranges given back with `munmap`. -/
  unmapped : List (ℕ × ℕ)
  /-- The ranges given to `madvise`. -/
  advised : List (ℕ × ℕ)

/-- After `InitSystemAllocators`: no child has failed, nothing is taken. -/
def SysAlloc.init : SysAlloc := ⟨0, fun _ => false, 0, 0, 0, 0, [], [], []⟩

variable (env : Env)

/-- `DefaultSysAllocator::allocs_`, in the order `InitSystemAllocators` sets
    them. -/
def Env.children : Fin 2 → Child := fun i =>
  if env.mmapFirst then (if i = 0 then .mmap else .sbrk) else (if i = 0 then .sbrk else .mmap)

/-! ## Calls to the system -/

/-- `sbrk(increment)`: the memory of a positive increment is logged. -/
def sbrkCall (st : SysAlloc) (increment : ℕ) : SysAlloc × Option ℕ :=
  let st' := { st with sbrkCalls := st.sbrkCalls + 1 }
  match env.sbrk st.sbrkCalls increment with
  | some p => (if increment = 0 then st' else { st' with given := st'.given ++ [(p, increment)] }, some p)
  | none => (st', none)

/-- `mmap` of `length` bytes near `hint`. -/
def mmapCall (st : SysAlloc) (length hint : ℕ) : SysAlloc × Option ℕ :=
  let st' := { st with mmapCalls := st.mmapCalls + 1 }
  match env.mmap st.mmapCalls length hint with
  | some a => ({ st' with given := st'.given ++ [(a, length)] }, some a)
  | none => (st', none)

/-- `munmap(addr, length)`. -/
def munmap (st : SysAlloc) (addr length : ℕ) : SysAlloc :=
  { st with unmapped := st.unmapped ++ [(addr, length)] }

/-! ## The allocators

An allocator returns the block's address, `0` for `nullptr`, and
`*actual_size`, which its caller reads only with a block; a failure before
`*actual_size` is set returns `(0, 0)`. -/

/-- `SbrkSysAllocator::Alloc(size, &actual_size, alignment)`. -/
def sbrkAlloc (st : SysAlloc) (size alignment : ℕ) : SysAlloc × ℕ × ℕ :=
  if env.skipSbrk then (st, 0, 0)
  -- `sbrk` gives memory back when passed a negative number
  else if 2 ^ 63 ≤ (size + alignment) % 2 ^ 64 then (st, 0, 0)
  else
    let size := (size + alignment - 1) % 2 ^ 64 / alignment * alignment % 2 ^ 64
    let (st, brk) := sbrkCall env st 0
    -- the break would wrap around the address space
    if (brk.getD (2 ^ 64 - 1) + size) % 2 ^ 64 < size then (st, 0, size)
    else
      match sbrkCall env st size with
      | (st, none) => (st, 0, size)
      | (st, some ptr) =>
        if ptr &&& (alignment - 1) = 0 then (st, ptr, size)
        else
          -- try to get more memory for alignment
          let extra := alignment - (ptr &&& (alignment - 1))
          let (st, r2) := sbrkCall env st extra
          -- `r2 == ptr + size`, where a failure reads as `(void*)-1`
          if r2.getD (2 ^ 64 - 1) = (ptr + size) % 2 ^ 64 then (st, (ptr + extra) % 2 ^ 64, size)
          else
            match sbrkCall env st ((size + alignment - 1) % 2 ^ 64) with
            | (st, none) => (st, 0, size)
            | (st, some ptr) =>
              let ptr := if ptr &&& (alignment - 1) ≠ 0 then
                  (ptr + (alignment - (ptr &&& (alignment - 1)))) % 2 ^ 64
                else ptr
              (st, ptr, size)

/-- The attempt of `MmapSysAllocator::Alloc` to continue the previous mapping
    at `hint_`, for `size` bytes aligned to `alignment`: the address, if it
    worked. -/
def mmapFromHint (st : SysAlloc) (size alignment : ℕ) : SysAlloc × Option ℕ :=
  if st.hint ≠ 0 ∧ size < (st.hint + size) % 2 ^ 64 ∧ st.hint &&& (alignment - 1) = 0 then
    match mmapCall env st size st.hint with
    | (st, some a) =>
      -- a mapping elsewhere that is not aligned is given back
      if a &&& (alignment - 1) ≠ 0 then (munmap st a size, none)
      else ({ st with hint := (a + size) % 2 ^ 64 }, some a)
    | (st, none) => (st, none)
  else (st, none)

/-- `MmapSysAllocator::Alloc(size, &actual_size, alignment)`. -/
def mmapAlloc (st : SysAlloc) (size alignment : ℕ) : SysAlloc × ℕ × ℕ :=
  if env.skipMmap then (st, 0, 0)
  else
    -- enforce page alignment
    let alignment := if alignment < env.pagesize then env.pagesize else alignment
    let alignedSize := (size + alignment - 1) % 2 ^ 64 / alignment * alignment % 2 ^ 64
    if alignedSize < size then (st, 0, 0)
    else
      let size := alignedSize
      match mmapFromHint env st size alignment with
      | (st, some a) => (st, a, size)
      | (st, none) =>
        -- ask for extra memory if the alignment is above a page
        let extra := if env.pagesize < alignment then alignment - env.pagesize else 0
        match mmapCall env st ((size + extra) % 2 ^ 64) 0 with
        | (st, none) => (st, 0, size)
        | (st, some ptr) =>
          let adjust := if ptr &&& (alignment - 1) ≠ 0 then alignment - (ptr &&& (alignment - 1)) else 0
          -- the unused memory goes back to the system
          let st := if 0 < adjust then munmap st ptr adjust else st
          let st := if adjust < extra then munmap st ((ptr + adjust + size) % 2 ^ 64) (extra - adjust)
            else st
          let ptr := (ptr + adjust) % 2 ^ 64
          ({ st with hint := (ptr + size) % 2 ^ 64 }, ptr, size)

/-- `allocs_[i]->Alloc(size, actual_size, alignment)`. -/
def childAlloc : Child → SysAlloc → ℕ → ℕ → SysAlloc × ℕ × ℕ
  | .sbrk => sbrkAlloc env
  | .mmap => mmapAlloc env

/-- One iteration of the loop of `DefaultSysAllocator::Alloc`: the child `i`,
    unless it failed before; it is marked failed when it returns `nullptr`. -/
def tryChild (i : Fin 2) (st : SysAlloc) (size alignment : ℕ) : SysAlloc × ℕ × ℕ :=
  if st.failed i then (st, 0, 0)
  else
    let (st, p, actual) := childAlloc env (env.children i) st size alignment
    if p ≠ 0 then (st, p, actual) else ({ st with failed := Function.update st.failed i true }, 0, actual)

/-- `DefaultSysAllocator::Alloc`: after both children failed, `failed_` is
    reset so that one failed allocation does not disable the allocator. -/
def defaultAlloc (st : SysAlloc) (size alignment : ℕ) : SysAlloc × ℕ × ℕ :=
  let (st, p, actual) := tryChild env 0 st size alignment
  if p ≠ 0 then (st, p, actual)
  else
    let (st, p, actual) := tryChild env 1 st size alignment
    if p ≠ 0 then (st, p, actual) else ({ st with failed := fun _ => false }, 0, actual)

/-- `TCMalloc_SystemAlloc(size, &actual_size, alignment)`: the block and
    `*actual_size`, `none` for `nullptr`; `none` where `CHECK_CONDITION`
    fails. -/
def systemAlloc (st : SysAlloc) (size alignment : ℕ) : Option (SysAlloc × Option (ℕ × ℕ)) :=
  -- discard requests that overflow
  if (size + alignment) % 2 ^ 64 < size then some (st, none)
  else
    let alignment := if alignment < env.memoryAligner then env.memoryAligner else alignment
    let (st, p, actual) := defaultAlloc env st size alignment
    if p = 0 then some (st, none)
    -- `CheckAddressBits(result + *actual_size - 1)`
    else if Word.sub 64 (Word.add 64 p actual) 1 >>> kAddressBits ≠ 0 then none
    else some ({ st with systemTaken := Word.add 64 st.systemTaken actual }, some (p, actual))

/-- A sequence of `TCMalloc_SystemAlloc(size, &actual_size, alignment)`
    calls, given as `(size, alignment)`: what each returned, and the state
    after; `none` where a `CHECK_CONDITION` fails. -/
def run : SysAlloc → List (ℕ × ℕ) → Option (List (Option (ℕ × ℕ)) × SysAlloc)
  | st, [] => some ([], st)
  | st, (size, alignment) :: reqs =>
    (systemAlloc env st size alignment).bind fun q =>
      (run q.1 reqs).map fun r => (q.2 :: r.1, r.2)

/-! ## Giving pages back -/

/-- The `do ... while (!result && retry)` loop of `TCMalloc_SystemRelease`
    on the pages from `newStart` to `newEnd`, for at most `fuel` attempts. -/
def adviseLoop (newStart newEnd : ℕ) : ℕ → SysAlloc → SysAlloc × Bool
  | 0, st => (st, false)
  | fuel + 1, st =>
    let answer := env.madvise st.madviseCalls
    let st := { st with madviseCalls := st.madviseCalls + 1,
                        advised := st.advised ++ [(newStart, newEnd - newStart)] }
    match answer with
    | .ok => (st, true)
    | .again => adviseLoop newStart newEnd fuel st
    | .fail => (st, false)

/-- `TCMalloc_SystemRelease(start, length)`, with `fuel` attempts of its
    loop: the start is rounded up and the end down to a page, and nothing is
    released when no whole page lies between them. -/
def systemRelease (st : SysAlloc) (start length fuel : ℕ) : SysAlloc × Bool :=
  if env.disableRelease then (st, false)
  else
    let pagemask := env.pagesize - 1
    let newEnd := (start + length) % 2 ^ 64 &&& Word.complement 64 pagemask
    let newStart := (start + env.pagesize - 1) % 2 ^ 64 &&& Word.complement 64 pagemask
    if newStart < newEnd then adviseLoop env newStart newEnd fuel st else (st, false)

end SystemAlloc

end Gperftools
