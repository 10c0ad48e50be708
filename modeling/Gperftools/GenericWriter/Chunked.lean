import Gperftools.GenericWriter
import Mathlib.Algebra.Order.BigOperators.Group.List

/-!
# Writing into chunks

`WithWriterToStrDup` (generic_writer.cc) gives its body a
`ChunkedStorageWriter`, whose buffers are chunks of
`ChunkedWriterConfig::buffer_size` bytes or more, allocated one after the
other and linked from the last to the first. `RecycleBuffer` records in the
current chunk how much of it was filled (`CloseChunk`) and appends a new
one. At the end `StrDupAndRelease` copies the chunks into one
NUL-terminated string, from the last chunk backwards.

The storage is the list of chunks, the last first, as `last_chunk` and the
`next` pointers link them. The writer's pointers are into the data of the
last chunk; the bytes of a new chunk are never read before they are
written, and are taken to be NULs.

* `fillBackwards_read`: the backward copy lays the chunks out in the order
  they were written.
* `withWriterToStrDup_run`: for every sequence of `AppendMem`, `AppendStr`
  and `AppendF` calls, with outputs that a chunk can hold, the string
  returned is the bytes appended, in order, and a NUL.
-/

namespace Gperftools

/-- A `ChunkedStorage::Chunk`. -/
structure Chunk where
  /-- `size`: the bytes of `data` the writer may fill. -/
  size : ℤ
  /-- `used`: the bytes filled, once the chunk is closed. -/
  used : ℤ
  data : Mem Char

namespace Chunk

/-- The bytes of a closed chunk. -/
def bytes (c : Chunk) : List Char := c.data.read 0 c.used.toNat

/-- `sizeof(Chunk)`: `next`, `size`, `used` and one byte of `data`, padded
    to 8 bytes. -/
def sizeofChunk : ℤ := 24

/-- The chunk `AppendChunk(want_at_least)` allocates:
    `std::max<int>(want_at_least + sizeof(Chunk), config.buffer_size)` bytes,
    of which all but the header are data. -/
def new (bufferSize wantAtLeast : ℤ) : Chunk :=
  let size := max (toInt (wantAtLeast + sizeofChunk)) bufferSize
  let kChunkSize := sizeofChunk - 1
  ⟨size - kChunkSize, 0, fun _ => '\x00'⟩

end Chunk

namespace ChunkedStorage

/-- The bytes of the closed chunks, the first one first. -/
def closedBytes (cs : List Chunk) : List Char := (cs.reverse.map Chunk.bytes).flatten

/-- `CloseChunk(actually_filled)`: the last chunk's `used`. -/
def closeChunk (cs : List Chunk) (actuallyFilled : ℤ) : List Chunk :=
  match cs with
  | c :: cs => { c with used := actuallyFilled } :: cs
  | [] => []

/-- `ChunkedStorageWriter`, over the chunks, the last first. -/
def sink (bufferSize : ℤ) : Sink (List Chunk) where
  store cs p bs := match cs with
    | c :: cs => { c with data := c.data.store p bs } :: cs
    | [] => []
  recycleBuffer cs bufBegin bufEnd wantAtLeast :=
    let cs := if cs ≠ [] then closeChunk cs (bufEnd - bufBegin) else cs
    if wantAtLeast = 0 then (cs, 0, 0)
    else
      let chunk := Chunk.new bufferSize wantAtLeast
      (chunk :: cs, 0, chunk.size)

/-- The loop of `StrDupAndRelease` that copies the chunks, from the last,
    each before the bytes of those after it. -/
def fillBackwards : List Chunk → Mem Char → ℤ → Mem Char
  | [], data, _ => data
  | c :: cs, data, totalSize =>
    fillBackwards cs (data.store (totalSize - c.used) c.bytes) (totalSize - c.used)

/-- `StrDupAndRelease()`, into the memory `malloc` returns: the bytes of the
    string, with its NUL. -/
def strDupAndRelease (mem : Mem Char) (cs : List Chunk) : List Char :=
  let totalSize := (cs.map Chunk.used).sum
  let data := mem.store totalSize ['\x00']
  (fillBackwards cs data totalSize).read 0 (totalSize.toNat + 1)

@[simp] theorem bytes_length (c : Chunk) : c.bytes.length = c.used.toNat := by
  simp [Chunk.bytes]

theorem closedBytes_cons (c : Chunk) (cs : List Chunk) :
    closedBytes (c :: cs) = closedBytes cs ++ c.bytes := by
  simp [closedBytes]

section FillBackwards

variable {cs : List Chunk} (hused : ∀ c ∈ cs, 0 ≤ c.used)
include hused

/-- The backward copy writes only between `p` and `p` plus the bytes of the
    chunks. -/
theorem fillBackwards_frame (data : Mem Char) (p : ℤ) {a : ℤ}
    (ha : a < p ∨ p + (cs.map Chunk.used).sum ≤ a) :
    fillBackwards cs data (p + (cs.map Chunk.used).sum) a = data a := by
  induction cs generalizing data with
  | nil => rfl
  | cons c cs ih =>
    have hc := hused c List.mem_cons_self
    have hcs : ∀ c ∈ cs, 0 ≤ c.used := fun c' h => hused c' (List.mem_cons_of_mem _ h)
    have hsum : 0 ≤ (cs.map Chunk.used).sum := List.sum_nonneg (by simpa using hcs)
    simp only [List.map_cons, List.sum_cons] at ha ⊢
    rw [fillBackwards, show p + (c.used + (cs.map Chunk.used).sum) - c.used =
      p + (cs.map Chunk.used).sum by omega, ih hcs _ (by omega)]
    exact Mem.store_of_not_mem _ (by rw [bytes_length]; omega)

/-- The backward copy lays out the chunks in the order they were written. -/
theorem fillBackwards_read (data : Mem Char) (p : ℤ) :
    (fillBackwards cs data (p + (cs.map Chunk.used).sum)).read p (cs.map Chunk.used).sum.toNat =
      closedBytes cs := by
  induction cs generalizing data with
  | nil => rfl
  | cons c cs ih =>
    have hc := hused c List.mem_cons_self
    have hcs : ∀ c ∈ cs, 0 ≤ c.used := fun c' h => hused c' (List.mem_cons_of_mem _ h)
    have hsum : 0 ≤ (cs.map Chunk.used).sum := List.sum_nonneg (by simpa using hcs)
    simp only [List.map_cons, List.sum_cons]
    rw [fillBackwards, show p + (c.used + (cs.map Chunk.used).sum) - c.used =
        p + (cs.map Chunk.used).sum by omega,
      show (c.used + (cs.map Chunk.used).sum).toNat =
        (cs.map Chunk.used).sum.toNat + c.used.toNat by omega,
      Mem.read_add, ih hcs, closedBytes_cons]
    congr 1
    -- the last chunk sits after the earlier ones, which the rest of the copy does not touch
    rw [Mem.read_congr _ fun i _ => fillBackwards_frame hcs _ p (a := _) (Or.inr (by omega)),
      show p + ((cs.map Chunk.used).sum.toNat : ℤ) = p + (cs.map Chunk.used).sum by omega,
      ← bytes_length, Mem.read_store_self]

/-- `StrDupAndRelease` returns the bytes of the closed chunks, first to last,
    and a NUL. -/
theorem strDupAndRelease_eq (mem : Mem Char) :
    strDupAndRelease mem cs = closedBytes cs ++ ['\x00'] := by
  have hsum : 0 ≤ (cs.map Chunk.used).sum := List.sum_nonneg (by simpa using hused)
  have hread := fillBackwards_read hused (mem.store (cs.map Chunk.used).sum ['\x00']) 0
  rw [Int.zero_add] at hread
  rw [strDupAndRelease, Mem.read_add, hread]
  congr 1
  -- the NUL after the bytes is left alone
  have hnul := fillBackwards_frame hused (mem.store (cs.map Chunk.used).sum ['\x00']) 0
    (a := (cs.map Chunk.used).sum) (Or.inr (by omega))
  rw [Int.zero_add] at hnul
  simp only [Mem.read, List.range_one, List.map_cons, List.map_nil]
  rw [show (0 : ℤ) + ((cs.map Chunk.used).sum.toNat : ℤ) + ((0 : ℕ) : ℤ) =
    (cs.map Chunk.used).sum by omega, hnul]
  simp [Mem.store]

end FillBackwards

end ChunkedStorage

namespace ChunkedStorage

/-- The room of the last chunk, where the writer's buffer is. -/
def room : List Chunk → ℤ
  | c :: _ => c.size
  | [] => 0

/-- The bytes a chunked writer holds: those of the closed chunks, then those
    filled in the last one. -/
def held (w : GenericWriter (List Chunk)) : List Char :=
  match w.sink with
  | c :: cs => closedBytes cs ++ c.data.read 0 w.bufFill.toNat
  | [] => []

/-- The writer fills the data of the last chunk, the closed chunks record
    what was filled in them, and the bytes held are the bytes appended. -/
structure Holds (w : GenericWriter (List Chunk)) (W : List Char) : Prop where
  buf : w.buf = 0
  fill_nonneg : 0 ≤ w.bufFill
  fill_le : w.bufFill ≤ w.bufEnd
  end_eq : w.bufEnd = room w.sink
  end_lt : w.bufEnd < 2 ^ 31
  closed : ∀ c ∈ w.sink.tail, 0 ≤ c.used
  contents : held w = W

theorem holds_init : Holds (GenericWriter.init []) [] :=
  ⟨rfl, Int.le_refl 0, Int.le_refl 0, rfl, by decide, fun _ hc => absurd hc List.not_mem_nil, rfl⟩

/-- The chunk appended for a want below `2 ^ 31 - 24` has room for it, and
    its room is an `int`. -/
theorem new_size {bufferSize want : ℤ} (hbuffer : bufferSize < 2 ^ 31) (h1 : 1 ≤ want)
    (hwant : want ≤ 2 ^ 31 - 25) :
    want ≤ (Chunk.new bufferSize want).size ∧ (Chunk.new bufferSize want).size < 2 ^ 31 := by
  have hint : toInt (want + Chunk.sizeofChunk) = want + 24 :=
    toInt_of_lt (by unfold Chunk.sizeofChunk; omega) (by unfold Chunk.sizeofChunk; omega)
  simp only [Chunk.new]
  rw [hint]
  simp only [Chunk.sizeofChunk]
  omega

/-- A recycle closes the last chunk with the bytes filled. -/
theorem closedBytes_recycle {w : GenericWriter (List Chunk)} {W : List Char} (h : Holds w W) :
    closedBytes (if w.sink ≠ [] then closeChunk w.sink (w.bufFill - w.buf) else w.sink) = W ∧
      ∀ c ∈ (if w.sink ≠ [] then closeChunk w.sink (w.bufFill - w.buf) else w.sink), 0 ≤ c.used := by
  have hcontents := h.contents
  have hclosed := h.closed
  rw [h.buf, Int.sub_zero]
  unfold held at hcontents
  split at hcontents
  · rename_i c cs hsink
    rw [hsink] at hclosed ⊢
    simp only [ne_eq, reduceCtorEq, not_false_eq_true, if_true, closeChunk, closedBytes_cons,
      Chunk.bytes]
    refine ⟨hcontents, ?_⟩
    rintro c' (_ | ⟨_, hc'⟩)
    · exact h.fill_nonneg
    · exact hclosed c' hc'
  · rename_i hsink
    rw [hsink] at hclosed ⊢
    simp [closedBytes, ← hcontents]

/-- With chunks of at most `2 ^ 31` bytes, the writer keeps `Holds` for
    every want a chunk can be allocated for. -/
theorem keeps {bufferSize : ℤ} (hbuffer : bufferSize < 2 ^ 31) :
    GenericWriter.Keeps (sink bufferSize) Holds (2 ^ 31 - 25) where
  space w W h := by
    have := h.fill_le
    have := h.fill_nonneg
    have := h.end_lt
    unfold GenericWriter.spaceLeft
    omega
  write w W bs extra h hroom := by
    unfold GenericWriter.spaceLeft at hroom
    have hfill := h.fill_nonneg
    have hcontents := h.contents
    have hend := h.end_eq
    unfold held at hcontents
    split at hcontents
    · rename_i c cs hsink
      rw [hsink] at hend
      refine ⟨h.buf, by simp only; omega, by simp only; omega, ?_, h.end_lt, ?_, ?_⟩
      · simpa [sink, hsink, room] using hend
      · simpa [sink, hsink] using h.closed
      -- the new bytes extend those filled in the last chunk
      have hstore : w.bufFill = 0 + (w.bufFill.toNat : ℤ) := by omega
      have hread := c.data.read_store_append 0 w.bufFill.toNat (bs ++ extra) (k := bs.length)
        (by simp)
      rw [← hstore, List.take_left] at hread
      simp only [held, sink, hsink]
      rw [show (w.bufFill + bs.length).toNat = w.bufFill.toNat + bs.length by omega, hread,
        ← List.append_assoc, hcontents]
    · -- no chunk yet: there is no room, and nothing is written
      rename_i hsink
      rw [hsink] at hend
      have hbs : bs = [] := List.eq_nil_of_length_eq_zero (by simp [room] at hend; omega)
      subst hbs
      refine ⟨h.buf, by simp only; omega, by simp only; omega, ?_, h.end_lt, ?_, ?_⟩
      · simpa [sink, hsink, room] using hend
      · simp [sink, hsink]
      · simp [held, sink, hsink, ← hcontents]
  recycle w W want h h1 hcap := by
    obtain ⟨hbytes, hused⟩ := closedBytes_recycle h
    obtain ⟨hroom, hsize⟩ := new_size hbuffer h1 hcap
    have hne : want ≠ 0 := by omega
    simp only [GenericWriter.recycle, GenericWriter.spaceLeft, sink, if_neg hne]
    refine ⟨⟨rfl, Int.le_refl 0, show (0 : ℤ) ≤ (Chunk.new bufferSize want).size by omega, rfl,
      hsize, hused, ?_⟩, by omega⟩
    simp only [held, Int.toNat_zero, Mem.read_zero, List.append_nil]
    exact hbytes

end ChunkedStorage

/-- `DoWithWriterToStrDup(config, body, arg)`, with a body that makes the
    calls `ops`. -/
def withWriterToStrDup (bufferSize : ℤ) (mem : Mem Char) (ops : List WriterOp) :
    Except String (List Char) :=
  match (GenericWriter.init []).run (ChunkedStorage.sink bufferSize) ops with
  | .error e => .error e
  | .ok w =>
    -- the writer is destroyed, and releases its last chunk into the storage
    .ok (ChunkedStorage.strDupAndRelease mem (w.finalRecycle (ChunkedStorage.sink bufferSize)).sink)

/-- `WithWriterToStrDup`: for every buffer size and every sequence of calls
    whose `AppendF` outputs a chunk can hold, the string returned is the
    bytes appended, in order, and a NUL. -/
theorem withWriterToStrDup_run {bufferSize : ℤ} (hbuffer : bufferSize < 2 ^ 31) (mem : Mem Char)
    (ops : List WriterOp) (hops : ∀ op ∈ ops, op.Fits (2 ^ 31 - 25)) :
    withWriterToStrDup bufferSize mem ops = .ok ((ops.map WriterOp.text).flatten ++ ['\x00']) := by
  obtain ⟨w, hrun, h⟩ :=
    (ChunkedStorage.keeps hbuffer).run (by decide) ops _ _ ChunkedStorage.holds_init hops
  rw [List.nil_append] at h
  obtain ⟨hbytes, hused⟩ := ChunkedStorage.closedBytes_recycle h
  rw [withWriterToStrDup, hrun]
  -- the last recycle closes the last chunk, and asks for none
  simp only [GenericWriter.finalRecycle, ChunkedStorage.sink, if_true]
  rw [ChunkedStorage.strDupAndRelease_eq hused, hbytes]

/-- Chunks of 64 bytes, and the calls of `mixedCalls`. -/
theorem withWriterToStrDup_run_small :
    withWriterToStrDup 64 (fun _ => ' ') mixedCalls = .ok ((mixedCalls.map WriterOp.text).flatten ++ ['\x00']) :=
  withWriterToStrDup_run (by decide) _ mixedCalls (by simp [mixedCalls, WriterOp.Fits])

end Gperftools
