import Gperftools.Lib.Memory
import Gperftools.Lib.Word

/-!
# Headers of the debug allocator, and `memalign`

Every block of the debug allocator (debugallocation.cc) starts with a header
of four `size_t`s, `size1_`, `offset_`, `magic1_` and `alloc_type_`, and the
caller's data follows it, at `data_addr()`. `FromRawPointer(p)` finds the
header at `p - data_offset()`. For `memalign`, `do_debug_memalign` allocates
`alignment - 1 + data_offset()` bytes more, rounds the data address up past
room for a second, fake header, and writes into the fake header's `offset_`
the distance back to the real one, which `FromRawPointer` follows.

The memory is one of bytes (`Mem UInt8`), and a `size_t` is the little-endian
word of 8 bytes (`word`). Where the block lies, the address that `do_malloc`
returns or that the page fence computes, is given as `b`, `0` when the
allocation failed.

* `fromRawPointer_debugAllocate`: the data of every block that `DebugAllocate`
  makes leads back to its own header, and holds `size` bytes;
* `doDebugMemalign_eq`: for a power-of-two alignment, `do_debug_memalign`
  returns the data address rounded up past the fake header, with the distance
  back to the data in the fake `offset_`, as an `int`;
* `memalign_round_trip`: for alignments up to `2 ^ 30` the result is aligned,
  leads back to the real header and holds `size` bytes, and the fake header
  lies inside the data;
* `memalign_offset_narrowed`: `set_offset` takes an `int`, and with an
  alignment of `2 ^ 32` the distance does not fit: `FromRawPointer` then
  finds a fake `offset_` of `-32` and stops at the first of its checks.
-/

namespace Gperftools

namespace MallocBlock

/-- `MallocBlock::data_offset()`: `size1_`, `offset_`, `magic1_` and
    `alloc_type_`, one `size_t` each. -/
def dataOffset : ℕ := 32

/-- `kMagicMalloc`. -/
def kMagicMalloc : ℕ := 0xDEADBEEF

/-- `kMagicMMap`. -/
def kMagicMMap : ℕ := 0xABCDEFAB

/-- `kMagicDeletedSizeT`: a `size_t` of `kMagicDeletedByte`s. -/
def kMagicDeletedSizeT : ℕ := 0xCDCDCDCDCDCDCDCD

/-- `kMagicUninitializedByte`. -/
def kMagicUninitializedByte : UInt8 := 0xAB

/-- The `size_t` at `a`. -/
def word (m : Mem UInt8) (a : ℕ) : ℕ := Mem.readWord m a 8

/-- Storing the `size_t` `v` at `a`. -/
def setWord (m : Mem UInt8) (a v : ℕ) : Mem UInt8 := m.store a (Mem.toBytes v 8)

/-- `size1_` of the header at `b`. -/
def size1 (m : Mem UInt8) (b : ℕ) : ℕ := word m b

/-- `offset_` of the header at `b`. -/
def offset (m : Mem UInt8) (b : ℕ) : ℕ := word m (b + 8)

/-- `alloc_type_` of the header at `b`. -/
def allocType (m : Mem UInt8) (b : ℕ) : ℕ := word m (b + 24)

/-- `data_addr()`. -/
def dataAddr (b : ℕ) : ℕ := b + dataOffset

/-- `size2_addr()`. -/
def size2Addr (m : Mem UInt8) (b : ℕ) : ℕ := dataAddr b + size1 m b

/-- `b->magic1_ = ...` in `Allocate(size, type)`, then `Initialize(size,
    type)`: the header, the copies of `size1_` and `magic1_` after the data
    unless the block is mmapped, and the data filled with
    `kMagicUninitializedByte`. -/
def initializeBlock (m : Mem UInt8) (b size : ℕ) (type : Int32) (mmapped : Bool) : Mem UInt8 :=
  let magic1 := if mmapped then kMagicMMap else kMagicMalloc
  let m := setWord m (b + 16) magic1
  let m := setWord m b size
  let m := setWord m (b + 8) 0
  let m := setWord m (b + 24) (Word.ofInt 64 type.toInt)
  -- `bit_store(magic2_addr(), &magic1_)`, `bit_store(size2_addr(), &size)`
  let m := if mmapped then m
    else setWord (setWord m (dataAddr b + size + 8) magic1) (dataAddr b + size) size
  m.store (dataAddr b) (List.replicate size kMagicUninitializedByte)

/-- `MallocBlock::Allocate(size, type)`: the memory and the block, `0` for
    `nullptr`. -/
def allocate (m : Mem UInt8) (b size : ℕ) (type : Int32) (mmapped : Bool) : Mem UInt8 × ℕ :=
  -- "Massive size passed to malloc"
  if 2 ^ 64 - 1 - (dataOffset + 16) < size then (m, 0)
  else if b = 0 then (m, 0)
  else (initializeBlock m b size type mmapped, b)

/-- `DebugAllocate(size, type)`. -/
def debugAllocate (m : Mem UInt8) (b size : ℕ) (type : Int32) (mmapped : Bool) : Mem UInt8 × ℕ :=
  let (m, ptr) := allocate m b size type mmapped
  if ptr = 0 then (m, 0) else (m, dataAddr ptr)

/-- `RoundUp(value, alignment)` on `intptr_t`. -/
def roundUp (value alignment : ℕ) : ℕ :=
  Word.add 64 value (Word.sub 64 alignment 1) &&& Word.complement 64 (Word.sub 64 alignment 1)

/-- `do_debug_memalign(alignment, size, type)`: the memory and the pointer,
    `0` for `nullptr`; `none` where the `RAW_CHECK` fails. -/
def doDebugMemalign (m : Mem UInt8) (b alignment size : ℕ) (type : Int32) (mmapped : Bool) :
    Option (Mem UInt8 × ℕ) :=
  -- `RAW_CHECK((alignment & (alignment - 1)) == 0, "must be power of two")`
  if alignment &&& Word.sub 64 alignment 1 ≠ 0 then none
  else
    let extraBytes := (dataOffset + alignment - 1) % 2 ^ 64
    if Word.add 64 size extraBytes < size then some (m, 0)
    else
      let (m, p) := debugAllocate m b (Word.add 64 size extraBytes) type mmapped
      if p = 0 then some (m, 0)
      else
        let origP := p
        let p := roundUp (Word.add 64 origP dataOffset) alignment
        let fakeHdr := Word.sub 64 p dataOffset
        -- `set_offset(int offset)`: the distance passes through an `int`
        some (setWord m (fakeHdr + 8) (Word.ofInt 64 (Word.signed 32 (Word.sub 64 p origP))), p)

/-- `MallocBlock::FromRawPointer(p)`: the header, `none` where it calls
    `RAW_LOG(FATAL, ...)`. -/
def fromRawPointer (m : Mem UInt8) (p : ℕ) : Option ℕ :=
  let mb := Word.sub 64 p dataOffset
  -- "has been already deallocated"
  if allocType m mb = kMagicDeletedSizeT then none
  else if offset m mb = 0 then some mb
  else
    let mainBlock := Word.sub 64 mb (offset m mb)
    -- "offset_ field is corrupted. Need 0 but got"
    if offset m mainBlock ≠ 0 then none
    -- "Detected main_block address overflow"
    else if p ≤ mainBlock then none
    -- "It points below it's own main_block"
    else if size2Addr m mainBlock < p then none
    else some mainBlock

/-- `actual_data_size(raw_ptr)` of the header at `b`: `none` where a
    `CHECK_CONDITION` fails. -/
def actualDataSize (m : Mem UInt8) (b rawPtr : ℕ) : Option ℕ :=
  let rawBegin := dataAddr b
  let rawEnd := rawBegin + size1 m b
  if rawBegin ≤ rawEnd ∧ rawBegin ≤ rawPtr ∧ rawPtr ≤ rawEnd then some (rawEnd - rawPtr) else none

/-! ## Words of memory -/

section Words

variable {m : Mem UInt8}

theorem word_setWord_self {a v : ℕ} (hv : v < 2 ^ 64) : word (setWord m a v) a = v := by
  rw [word, setWord, Mem.readWord_store_self]
  exact Nat.mod_eq_of_lt hv

theorem word_setWord_of_disjoint {a a' v : ℕ} (h : a + 8 ≤ a' ∨ a' + 8 ≤ a) :
    word (setWord m a' v) a = word m a := by
  unfold word setWord Mem.readWord
  rcases h with h | h
  · rw [Mem.read_store_of_le _ _ (by omega)]
  · rw [Mem.read_store_of_ge _ (by simp; omega)]

theorem word_fill_of_disjoint {a p n : ℕ} {c : UInt8} (h : a + 8 ≤ p ∨ p + n ≤ a) :
    word (m.store p (List.replicate n c)) a = word m a := by
  unfold word Mem.readWord
  rcases h with h | h
  · rw [Mem.read_store_of_le _ _ (by omega)]
  · rw [Mem.read_store_of_ge _ (by simp; omega)]

/-- A word inside a `memset` spells the filling byte. -/
theorem word_fill_inside {a p n : ℕ} {c : UInt8} (h : p ≤ a) (h' : a + 8 ≤ p + n) :
    word (m.store p (List.replicate n c)) a = Mem.ofBytes (List.replicate 8 c) := by
  unfold word Mem.readWord
  rw [Mem.read_store_inside _ _ (by omega) (by simp; omega), List.drop_replicate, List.take_replicate,
    Nat.min_eq_left (by omega)]

end Words

/-! ## The header `Initialize` writes -/

section Initialize

variable {m : Mem UInt8} {b size : ℕ} {type : Int32} {mmapped : Bool}

theorem ofInt_lt (z : ℤ) : Word.ofInt 64 z < 2 ^ 64 := by
  unfold Word.ofInt
  omega

/-- The header and the data sit before the copies after the data and the
    fill, which leave a word of the header alone. -/
theorem word_initializeBlock_header {a : ℕ} (ha : a + 8 ≤ dataAddr b) :
    word (initializeBlock m b size type mmapped) a =
      word (setWord (setWord (setWord (setWord m (b + 16) (if mmapped then kMagicMMap else kMagicMalloc)) b size)
        (b + 8) 0) (b + 24) (Word.ofInt 64 type.toInt)) a := by
  unfold initializeBlock
  dsimp only
  rw [word_fill_of_disjoint (Or.inl ha)]
  cases mmapped
  · rw [if_neg Bool.false_ne_true, word_setWord_of_disjoint (Or.inl (by omega)),
      word_setWord_of_disjoint (Or.inl (by omega))]
  · rfl

theorem size1_initializeBlock (hsize : size < 2 ^ 64) : size1 (initializeBlock m b size type mmapped) b = size := by
  rw [size1, word_initializeBlock_header (by unfold dataAddr dataOffset; omega),
    word_setWord_of_disjoint (Or.inl (by omega)), word_setWord_of_disjoint (Or.inl (by omega)),
    word_setWord_self hsize]

theorem offset_initializeBlock : offset (initializeBlock m b size type mmapped) b = 0 := by
  rw [offset, word_initializeBlock_header (by unfold dataAddr dataOffset; omega),
    word_setWord_of_disjoint (Or.inl (by omega)), word_setWord_self (by decide)]

theorem allocType_initializeBlock :
    allocType (initializeBlock m b size type mmapped) b = Word.ofInt 64 type.toInt := by
  rw [allocType, word_initializeBlock_header (by unfold dataAddr dataOffset; omega), word_setWord_self (ofInt_lt _)]

/-- Every word of the data reads as `kMagicUninitializedByte`s. -/
theorem word_initializeBlock_data {a : ℕ} (h : dataAddr b ≤ a) (h' : a + 8 ≤ dataAddr b + size) :
    word (initializeBlock m b size type mmapped) a = 0xABABABABABABABAB := by
  unfold initializeBlock
  rw [word_fill_inside h h']
  rfl

end Initialize

/-! ## `DebugAllocate` -/

/-- Where the allocation succeeds, `DebugAllocate` initializes the block and
    returns its data. -/
theorem debugAllocate_eq {m : Mem UInt8} {b size : ℕ} (type : Int32) (mmapped : Bool) (hb : b ≠ 0)
    (hsize : size ≤ 2 ^ 64 - 1 - (dataOffset + 16)) :
    debugAllocate m b size type mmapped = (initializeBlock m b size type mmapped, dataAddr b) := by
  rw [debugAllocate, allocate, if_neg (by omega), if_neg hb]
  dsimp only
  rw [if_neg hb]

/-- The data of a block that `DebugAllocate` makes leads back to its own
    header, whose `offset_` is `0`, and holds `size` bytes. -/
theorem fromRawPointer_debugAllocate (m : Mem UInt8) (b size : ℕ) (type : Int32) (mmapped : Bool)
    (hb : b ≠ 0) (hfit : dataAddr b + size + 16 ≤ 2 ^ 64) :
    debugAllocate m b size type mmapped = (initializeBlock m b size type mmapped, dataAddr b) ∧
      offset (initializeBlock m b size type mmapped) b = 0 ∧
      fromRawPointer (initializeBlock m b size type mmapped) (dataAddr b) = some b ∧
      actualDataSize (initializeBlock m b size type mmapped) b (dataAddr b) = some size := by
  unfold dataAddr dataOffset at hfit
  have hmb : Word.sub 64 (dataAddr b) dataOffset = b := by
    rw [Word.sub_of_le (by unfold dataAddr; omega) (by unfold dataAddr dataOffset; omega)]
    unfold dataAddr
    omega
  -- a sign-extended `int` is never a `size_t` of `kMagicDeletedByte`s
  have htype : Word.ofInt 64 type.toInt ≠ kMagicDeletedSizeT := by
    have hlo := Int32.le_toInt type
    have hhi := Int32.toInt_lt type
    unfold Word.ofInt kMagicDeletedSizeT
    omega
  refine ⟨debugAllocate_eq type mmapped hb (by unfold dataOffset; omega), offset_initializeBlock, ?_, ?_⟩
  · rw [fromRawPointer]
    dsimp only
    rw [hmb, allocType_initializeBlock, if_neg htype, offset_initializeBlock, if_pos rfl]
  · rw [actualDataSize, size1_initializeBlock (by omega)]
    rw [if_pos ⟨by omega, le_refl _, by omega⟩, Nat.add_sub_cancel_left]

/-- A block of 100 bytes at `4096`, in zeroed memory. -/
theorem fromRawPointer_debugAllocate_page :
    debugAllocate (fun _ => 0) 4096 100 0 false = (initializeBlock (fun _ => 0) 4096 100 0 false, dataAddr 4096) ∧
      offset (initializeBlock (fun _ => 0) 4096 100 0 false) 4096 = 0 ∧
      fromRawPointer (initializeBlock (fun _ => 0) 4096 100 0 false) (dataAddr 4096) = some 4096 ∧
      actualDataSize (initializeBlock (fun _ => 0) 4096 100 0 false) 4096 (dataAddr 4096) = some 100 :=
  fromRawPointer_debugAllocate _ 4096 100 0 false (by decide) (by decide)

/-! ## `do_debug_memalign` -/

section Memalign

variable {j : ℕ}

/-- A power of two passes the `RAW_CHECK`. -/
theorem two_pow_and_sub_one (hj : j < 64) : 2 ^ j &&& Word.sub 64 (2 ^ j) 1 = 0 := by
  have : 2 ^ j < 2 ^ 64 := Nat.pow_lt_pow_right (by decide) hj
  rw [Word.sub_of_le Nat.one_le_two_pow this, Nat.and_two_pow_sub_one_eq_mod, Nat.mod_self]

/-- `RoundUp` rounds up to a multiple of the alignment. -/
theorem roundUp_eq {x : ℕ} (hj : j < 64) (hx : x + 2 ^ j - 1 < 2 ^ 64) :
    roundUp x (2 ^ j) = (x + 2 ^ j - 1) / 2 ^ j * 2 ^ j := by
  have : 2 ^ j < 2 ^ 64 := Nat.pow_lt_pow_right (by decide) hj
  have h1 : 1 ≤ 2 ^ j := Nat.one_le_two_pow
  rw [roundUp, Word.sub_of_le h1 this, Word.add_of_lt (by omega), Nat.add_sub_assoc h1,
    Word.and_complement hj.le (by omega)]

/-- What `do_debug_memalign` computes for a power-of-two alignment and a block
    that fits: the data rounded up past the fake header, with the distance
    back to the data, narrowed to an `int`, in the fake `offset_`. -/
theorem doDebugMemalign_eq (m : Mem UInt8) (b size : ℕ) (type : Int32) (mmapped : Bool) (hj : j < 64)
    (hb : b ≠ 0) (hfit : dataAddr b + (size + dataOffset + 2 ^ j - 1) + 16 ≤ 2 ^ 64) :
    doDebugMemalign m b (2 ^ j) size type mmapped =
      some (setWord (initializeBlock m b (size + dataOffset + 2 ^ j - 1) type mmapped)
          ((dataAddr b + dataOffset + 2 ^ j - 1) / 2 ^ j * 2 ^ j - dataOffset + 8)
          (Word.ofInt 64 (Word.signed 32 ((dataAddr b + dataOffset + 2 ^ j - 1) / 2 ^ j * 2 ^ j - dataAddr b))),
        (dataAddr b + dataOffset + 2 ^ j - 1) / 2 ^ j * 2 ^ j) := by
  have h1 : 1 ≤ 2 ^ j := Nat.one_le_two_pow
  unfold dataAddr dataOffset at hfit
  -- the size asked, and the rounded pointer, do not wrap
  have hextra : Word.add 64 size ((dataOffset + 2 ^ j - 1) % 2 ^ 64) = size + dataOffset + 2 ^ j - 1 := by
    unfold dataOffset
    rw [Nat.mod_eq_of_lt (by omega), Word.add_of_lt (by omega)]
    omega
  have hp := Nat.div_add_mod' (dataAddr b + dataOffset + 2 ^ j - 1) (2 ^ j)
  have hr := Nat.mod_lt (dataAddr b + dataOffset + 2 ^ j - 1) (Nat.two_pow_pos j)
  generalize hP : (dataAddr b + dataOffset + 2 ^ j - 1) / 2 ^ j * 2 ^ j = p at hp ⊢
  unfold dataAddr dataOffset at hp hr
  rw [doDebugMemalign, if_neg (by rw [two_pow_and_sub_one hj]; exact not_not_intro rfl)]
  dsimp only
  rw [hextra, if_neg (by omega), debugAllocate_eq type mmapped hb (by unfold dataOffset; omega)]
  dsimp only
  rw [if_neg (by unfold dataAddr; omega), Word.add_of_lt (by unfold dataAddr dataOffset; omega),
    roundUp_eq hj (by unfold dataAddr dataOffset; omega), hP, Word.sub_of_le (by unfold dataOffset; omega)
      (by omega), Word.sub_of_le (by unfold dataAddr dataOffset; omega) (by omega)]

/-- The pointer `do_debug_memalign` returns for alignments up to `2 ^ 30`,
    from a block that fits in the address space: it is aligned, leads back
    through the fake header to the real one, passing the checks of
    `FromRawPointer`, holds at least `size` bytes, and the fake header lies in
    the data of the block. -/
theorem memalign_round_trip (m : Mem UInt8) (b size : ℕ) (type : Int32) (mmapped : Bool) (hj : j ≤ 30)
    (hb : b ≠ 0) (hfit : dataAddr b + (size + dataOffset + 2 ^ j - 1) + 16 ≤ 2 ^ 64) :
    ∃ m' p, doDebugMemalign m b (2 ^ j) size type mmapped = some (m', p) ∧ p % 2 ^ j = 0 ∧
      fromRawPointer m' p = some b ∧
      (∃ n, actualDataSize m' b p = some n ∧ size ≤ n) ∧
      dataAddr b ≤ p - dataOffset ∧ p ≤ dataAddr b + size1 m' b := by
  have hj30 : 2 ^ j ≤ 2 ^ 30 := Nat.pow_le_pow_right (by decide) hj
  have h1 : 1 ≤ 2 ^ j := Nat.one_le_two_pow
  have hp := Nat.div_add_mod' (dataAddr b + dataOffset + 2 ^ j - 1) (2 ^ j)
  have hr := Nat.mod_lt (dataAddr b + dataOffset + 2 ^ j - 1) (Nat.two_pow_pos j)
  have hdvd : (dataAddr b + dataOffset + 2 ^ j - 1) / 2 ^ j * 2 ^ j % 2 ^ j = 0 := Nat.mul_mod_left _ _
  rw [doDebugMemalign_eq m b size type mmapped (by omega) hb hfit]
  generalize (dataAddr b + dataOffset + 2 ^ j - 1) / 2 ^ j * 2 ^ j = p at hp hdvd ⊢
  generalize hsize' : size + dataOffset + 2 ^ j - 1 = size' at hfit ⊢
  unfold dataAddr dataOffset at *
  -- the distance back to the data fits in an `int`
  have hd : Word.ofInt 64 (Word.signed 32 (p - (b + 32))) = p - (b + 32) := by
    rw [Word.signed_of_lt (by decide) (by omega), Word.ofInt_natCast_of_lt (by omega)]
  rw [hd]
  generalize hm1 : initializeBlock m b size' type mmapped = m1
  have hsize1 : size1 m1 b = size' := by rw [← hm1, size1_initializeBlock (by omega)]
  -- the fake `offset_` is written inside the data, away from the real header
  have hsize1' : size1 (setWord m1 (p - 32 + 8) (p - (b + 32))) b = size' := by
    rw [size1, word_setWord_of_disjoint (Or.inl (by omega)), ← size1, hsize1]
  refine ⟨_, p, rfl, hdvd, ?_, ⟨b + 32 + size' - p, ?_, by omega⟩, by omega, by rw [hsize1']; omega⟩
  · rw [fromRawPointer]
    dsimp only
    have hmb : Word.sub 64 p dataOffset = p - 32 := Word.sub_of_le (by unfold dataOffset; omega) (by omega)
    have htype : allocType (setWord m1 (p - 32 + 8) (p - (b + 32))) (p - 32) = 0xABABABABABABABAB := by
      rw [allocType, word_setWord_of_disjoint (Or.inr (by omega)), ← hm1,
        word_initializeBlock_data (by unfold dataAddr dataOffset; omega) (by unfold dataAddr dataOffset; omega)]
    have hfake : offset (setWord m1 (p - 32 + 8) (p - (b + 32))) (p - 32) = p - (b + 32) := by
      rw [offset, word_setWord_self (by omega)]
    have hmain : Word.sub 64 (p - 32) (p - (b + 32)) = b := by
      rw [Word.sub_of_le (by omega) (by omega)]
      omega
    have hreal : offset (setWord m1 (p - 32 + 8) (p - (b + 32))) b = 0 := by
      rw [offset, word_setWord_of_disjoint (Or.inl (by omega)), ← offset, ← hm1, offset_initializeBlock]
    rw [hmb, htype, if_neg (by unfold kMagicDeletedSizeT; omega), hfake, if_neg (by omega), hmain, hreal,
      if_neg (not_not_intro rfl), if_neg (by omega), size2Addr, hsize1', dataAddr, dataOffset,
      if_neg (by omega)]
  · rw [actualDataSize, hsize1', dataAddr, dataOffset, if_pos ⟨by omega, by omega, by omega⟩]

/-- `memalign(4096, 100)` from the block that `do_malloc` puts at `4096`, in
    zeroed memory. -/
theorem memalign_round_trip_page :
    ∃ m' p, doDebugMemalign (fun _ => 0) 4096 (2 ^ 12) 100 0 false = some (m', p) ∧ p % 2 ^ 12 = 0 ∧
      fromRawPointer m' p = some 4096 ∧
      (∃ n, actualDataSize m' 4096 p = some n ∧ 100 ≤ n) ∧
      dataAddr 4096 ≤ p - dataOffset ∧ p ≤ dataAddr 4096 + size1 m' 4096 :=
  memalign_round_trip _ 4096 100 0 false (j := 12) (by decide) (by decide) (by decide)

/-- `do_debug_memalign(2 ^ 32, 1, type)` from the block that `do_malloc` puts
    at `2 ^ 32`: the data is at `2 ^ 32 + 32` and the pointer at `2 ^ 33`, so
    the distance back is `2 ^ 32 - 32`, which `set_offset(int)` narrows to
    `-32`: the fake `offset_` reads `2 ^ 64 - 32`, `FromRawPointer` follows it
    forward to `2 ^ 33` and, reading the data there for an `offset_`, fails
    its check "offset_ field is corrupted. Need 0 but got". -/
theorem memalign_offset_narrowed (m : Mem UInt8) (type : Int32) :
    ∃ m', doDebugMemalign m (2 ^ 32) (2 ^ 32) 1 type false = some (m', 2 ^ 33) ∧
      offset m' (2 ^ 33 - dataOffset) = 2 ^ 64 - 32 ∧ fromRawPointer m' (2 ^ 33) = none := by
  rw [doDebugMemalign_eq m (2 ^ 32) 1 type false (by decide) (by decide) (by decide)]
  have hp : (dataAddr (2 ^ 32) + dataOffset + 2 ^ 32 - 1) / 2 ^ 32 * 2 ^ 32 = 2 ^ 33 := by decide
  have hd : Word.ofInt 64 (Word.signed 32 (2 ^ 33 - dataAddr (2 ^ 32))) = 2 ^ 64 - 32 := by decide
  rw [hp, hd]
  generalize hm1 : initializeBlock m (2 ^ 32) (1 + dataOffset + 2 ^ 32 - 1) type false = m1
  have hfake : offset (setWord m1 (2 ^ 33 - dataOffset + 8) (2 ^ 64 - 32)) (2 ^ 33 - dataOffset) = 2 ^ 64 - 32 := by
    rw [offset, word_setWord_self (by decide)]
  refine ⟨_, rfl, hfake, ?_⟩
  rw [fromRawPointer]
  dsimp only
  have hmb : Word.sub 64 (2 ^ 33) dataOffset = 2 ^ 33 - dataOffset := Word.sub_of_le (by decide) (by decide)
  have htype : allocType (setWord m1 (2 ^ 33 - dataOffset + 8) (2 ^ 64 - 32)) (2 ^ 33 - dataOffset) =
      0xABABABABABABABAB := by
    rw [allocType, word_setWord_of_disjoint (Or.inr (by unfold dataOffset; omega)), ← hm1,
      word_initializeBlock_data (by unfold dataAddr dataOffset; omega) (by unfold dataAddr dataOffset; omega)]
  -- the fake `offset_` sends `FromRawPointer` forward, into the data
  have hmain : Word.sub 64 (2 ^ 33 - dataOffset) (2 ^ 64 - 32) = 2 ^ 33 := by decide
  have hdata : offset (setWord m1 (2 ^ 33 - dataOffset + 8) (2 ^ 64 - 32)) (2 ^ 33) = 0xABABABABABABABAB := by
    rw [offset, word_setWord_of_disjoint (Or.inr (by unfold dataOffset; omega)), ← hm1,
      word_initializeBlock_data (by unfold dataAddr dataOffset; omega) (by unfold dataAddr dataOffset; omega)]
  rw [hmb, htype, if_neg (by decide), hfake, if_neg (by decide), hmain, hdata, if_pos (by decide)]

end Memalign

end MallocBlock

end Gperftools
