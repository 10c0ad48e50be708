import Gperftools.GenericWriter
import Gperftools.Lib.Word

/-!
# Writing into a string

`StringGenericWriter` (generic_writer.cc) appends to a `std::string`. Its
buffer is the unused suffix of the string, `unused_size_` bytes long, an
`int`. `RecycleBuffer` counts the bytes filled as used and, when fewer than
`want_at_least` bytes are left, grows the string to the larger of what is
wanted and twice its size, adding the growth to `unused_size_`. The
destructor cuts the unused bytes off.

The string is its size and a memory of its bytes: `resize` keeps the bytes
below the old size and fills the new ones with NULs.

* `stringWriter_appendMem_overflow`: from a string of `2 ^ 31` bytes, one
  appended byte doubles the string, and its growth of `2 ^ 31` bytes, added
  to `unused_size_`, is `-2 ^ 31` as an `int`: the buffer returned ends
  `2 ^ 31` bytes before it starts, and `AppendMem` copies a negative amount.
-/

namespace Gperftools

/-- The state of `StringGenericWriter`: the string `*s_` and
    `unused_size_`. -/
structure StringWriter where
  /-- `s_->size()`. -/
  size : ℕ
  /-- The bytes of `*s_`. -/
  data : Mem Char
  /-- `unused_size_`. -/
  unusedSize : ℤ

namespace StringWriter

/-- `s_->resize(n)`. -/
def resize (s : StringWriter) (n : ℕ) : StringWriter :=
  { s with size := n, data := fun a => if a < s.size then s.data a else '\x00' }

/-- `StringGenericWriter`: its buffers are in the string, addressed from
    `s_->data()`. -/
def sink : Sink StringWriter where
  store s p bs := { s with data := s.data.store p bs }
  recycleBuffer s bufBegin bufEnd wantAtLeast :=
    let unusedSize := toInt (s.unusedSize - (bufEnd - bufBegin))
    let deficit := toInt (wantAtLeast - unusedSize)
    let s := { s with unusedSize }
    let s := if 0 < deficit then
        let newSize := max (s.size + deficit.toNat) (s.size * 2)
        { s.resize newSize with unusedSize := toInt (unusedSize + (newSize - s.size : ℕ)) }
      else s
    -- `s_->data() + size - unused_size_`
    let ptr := (s.size : ℤ) - s.unusedSize
    (s, ptr, ptr + s.unusedSize)

@[simp] theorem sink_store (s : StringWriter) (p : ℤ) (bs : List Char) :
    sink.store s p bs = { s with data := s.data.store p bs } := rfl

/-- `StringGenericWriter(s)`. -/
def create (size : ℕ) (data : Mem Char) : GenericWriter StringWriter :=
  GenericWriter.init ⟨size, data, 0⟩

/-- `~StringGenericWriter()`: `FinalRecycle()`, then the unused bytes cut
    off; the string's bytes. -/
def destroy (w : GenericWriter StringWriter) : List Char :=
  let s := (w.finalRecycle sink).sink
  let s := if s.unusedSize ≠ 0 then s.resize (Word.ofInt 64 (s.size - s.unusedSize)) else s
  s.data.read 0 s.size

end StringWriter

/-- A string of `2 ^ 31` bytes, whatever they are, and `AppendMem` of one
    byte: the string grows to `2 ^ 32` bytes, `unused_size_` wraps around to
    `-2 ^ 31`, and the copy is of a negative amount. -/
theorem stringWriter_appendMem_overflow (data : Mem Char) :
    (StringWriter.create (2 ^ 31) data).appendMem StringWriter.sink ['x'] =
      .error "memcpy of a negative amount" := by
  -- the fresh writer has no buffer: the first round copies nothing, and recycles
  have hfirst : min (min intMax ((['x'] : List Char).length : ℤ)) (toInt (0 - 0)) = 0 := by
    decide
  simp only [GenericWriter.appendMem, GenericWriter.appendMemLoop, StringWriter.create,
    GenericWriter.init, hfirst, Int.lt_irrefl, if_false, Int.toNat_zero, List.drop_zero,
    List.take_zero, reduceCtorEq]
  -- the string doubles, and its growth of `2 ^ 31` is `-2 ^ 31` as an `int`
  have hsnd : (StringWriter.sink.recycleBuffer ⟨2 ^ 31, data.store 0 [], 0⟩ 0 0 1).2 =
      (2 ^ 32 + 2 ^ 31, 2 ^ 32) := by
    have hdeficit : toInt (1 - toInt (0 - (0 - 0))) = 1 := by decide
    have hsize : max (2 ^ 31 + (1 : ℤ).toNat) (2 ^ 31 * 2) = 2 ^ 32 := by decide
    have hwrap : toInt (toInt (0 - (0 - 0)) + ((2 ^ 32 - 2 ^ 31 : ℕ) : ℤ)) = -2 ^ 31 := by decide
    simp only [StringWriter.sink, hdeficit, if_pos Int.one_pos, StringWriter.resize, hsize, hwrap]
    decide
  simp only [GenericWriter.copy, GenericWriter.recycle, List.length_nil, Nat.cast_zero,
    Int.add_zero]
  rw [StringWriter.sink_store, hsnd]
  -- the second round: the buffer ends `2 ^ 31` bytes before it starts
  have hsecond : min (min intMax ((['x'] : List Char).length : ℤ))
      (toInt (2 ^ 32 - (2 ^ 32 + 2 ^ 31))) = -2 ^ 31 := by decide
  rw [show (['x'] : List Char).length = 0 + 1 from rfl, GenericWriter.appendMemLoop]
  dsimp only
  rw [hsecond, if_pos (by decide)]

end Gperftools
