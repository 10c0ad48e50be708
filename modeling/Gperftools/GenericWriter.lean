import Gperftools.Lib.Memory

/-!
# Generic writers

`GenericWriter` (base/generic_writer.h, generic_writer.cc) is the sink the
profilers print into. It fills a buffer `[buf_, buf_end_)` from `buf_fill_`,
and when the buffer is full asks its implementation for another with
`RecycleBuffer(buf_, buf_fill_, want_at_least)`, which takes the bytes
`[buf_, buf_fill_)` and returns a buffer of at least `want_at_least` bytes
(none when it is 0: `FinalRecycle`, at the end). `AppendMem` copies at most
`INT_MAX` bytes at a time; `AppendF` formats into the space left and, when
the output did not fit, recycles and formats again.

An implementation is a `Sink`: the memory its buffers are in, and its
`RecycleBuffer`. Pointers are integer addresses in that memory, `0` for the
null pointers a fresh writer starts with. A format is given by its output:
`vsnprintf` writes as much of it as fits, with a NUL, and returns its
length; outputs are shorter than `INT_MAX`.

* `Keeps.run`: for an invariant that writing into the space left and
  recycling keep (`Keeps`), every sequence of `AppendMem`, `AppendStr` and
  `AppendF` runs, and the invariant holds of all the bytes appended.
* `writeFnWriter_run`: `WriteFnWriter<kSize>` (and so `RawFDGenericWriter`)
  hands `write_fn` exactly the bytes appended, in order, when every `AppendF`
  output is shorter than `kSize`.
-/

namespace Gperftools

/-- `std::numeric_limits<int>::max()`. -/
def intMax : ℤ := 2 ^ 31 - 1

/-- A value converted to `int`: its low 32 bits, in two's complement. -/
def toInt (z : ℤ) : ℤ := z.bmod (2 ^ 32)

theorem toInt_of_lt {z : ℤ} (h1 : -2 ^ 31 ≤ z) (h2 : z < 2 ^ 31) : toInt z = z :=
  Int.bmod_eq_of_le (by omega) (by omega)

/-- An implementation of `GenericWriter`: `memcpy` into the memory of its
    buffers, and `RecycleBuffer(buf_begin, buf_end, want_at_least)`, which
    returns the new buffer's bounds. -/
structure Sink (σ : Type) where
  store : σ → ℤ → List Char → σ
  recycleBuffer : σ → ℤ → ℤ → ℤ → σ × ℤ × ℤ

/-- A `GenericWriter` over the state `σ` of its implementation. -/
structure GenericWriter (σ : Type) where
  sink : σ
  /-- `buf_`. -/
  buf : ℤ
  /-- `buf_fill_`. -/
  bufFill : ℤ
  /-- `buf_end_`. -/
  bufEnd : ℤ

namespace GenericWriter

variable {σ : Type} (S : Sink σ)

/-- A fresh writer: its three pointers are null. -/
def init (s : σ) : GenericWriter σ := ⟨s, 0, 0, 0⟩

/-- `buf_end_ - buf_fill_`. -/
def spaceLeft (w : GenericWriter σ) : ℤ := w.bufEnd - w.bufFill

/-- `memcpy(buf_fill_, str, amount)`, then `buf_fill_ += amount`. -/
def copy (w : GenericWriter σ) (bs : List Char) : GenericWriter σ :=
  { w with sink := S.store w.sink w.bufFill bs, bufFill := w.bufFill + bs.length }

/-- `std::tie(buf_, buf_end_) = RecycleBuffer(buf_, buf_fill_, want_at_least)`,
    then `buf_fill_ = buf_`. -/
def recycle (w : GenericWriter σ) (want : ℤ) : GenericWriter σ :=
  let r := S.recycleBuffer w.sink w.buf w.bufFill want
  ⟨r.1, r.2.1, r.2.1, r.2.2⟩

/-- `FinalRecycle()`: the implementation takes the last bytes. -/
def finalRecycle (w : GenericWriter σ) : GenericWriter σ :=
  { w with sink := (S.recycleBuffer w.sink w.buf w.bufFill 0).1, bufFill := w.buf }

/-- The loop of `AppendMem(str, sz)`, for at most `fuel` rounds. A negative
    amount, from a buffer whose end is before its fill pointer, is a
    `memcpy` of nearly `2 ^ 64` bytes. -/
def appendMemLoop : ℕ → GenericWriter σ → List Char → Except String (GenericWriter σ)
  | 0, _, _ => .error "AppendMem does not return"
  | fuel + 1, w, str =>
    -- first, cap amount to be at most MAX_INT
    let amount := min (min intMax str.length) (toInt (w.bufEnd - w.bufFill))
    if amount < 0 then .error "memcpy of a negative amount"
    else
      let w := w.copy S (str.take amount.toNat)
      let str := str.drop amount.toNat
      if str = [] then .ok w
      else appendMemLoop fuel (w.recycle S 1) str

/-- `AppendMem(str, sz)`: each round after the first copies a byte at least
    when the implementation recycles into a buffer with room. -/
def appendMem (w : GenericWriter σ) (str : List Char) : Except String (GenericWriter σ) :=
  appendMemLoop S (str.length + 1) w str

/-- `vsnprintf(p, size, fmt, ...)` for a format whose output is `text`: as
    much of it as fits, and a NUL; nothing when `size` is 0. A negative
    `size` is a huge `size_t`, and all of it is written. -/
def vsnprintf (s : σ) (p size : ℤ) (text : List Char) : σ :=
  if size = 0 then s
  else if size < 0 then S.store s p (text ++ ['\x00'])
  else S.store s p (text.take (size - 1).toNat ++ ['\x00'])

/-- `AppendF(fmt, ...)`, for a format whose output is `text`. -/
def appendF (w : GenericWriter σ) (text : List Char) : GenericWriter σ :=
  let spaceLeft := toInt (w.bufEnd - w.bufFill)
  let sink := vsnprintf S w.sink w.bufFill spaceLeft text
  let written : ℤ := text.length
  if spaceLeft ≤ written then
    let w := ({ w with sink } : GenericWriter σ).recycle S (written + 1)
    let spaceLeft := toInt (w.bufEnd - w.buf)
    let sink := vsnprintf S w.sink w.buf spaceLeft text
    -- in case the recycled buffer is still too small (checked in debug builds only)
    let written := min written (spaceLeft - 1)
    { w with sink, bufFill := w.bufFill + written }
  else { w with sink, bufFill := w.bufFill + written }

end GenericWriter

/-- The calls a writer is given. -/
inductive WriterOp where
  | appendMem (str : List Char)
  | appendStr (str : List Char)
  /-- `AppendF` of a format whose output is `text`. -/
  | appendF (text : List Char)

namespace WriterOp

/-- The bytes a call appends: for `AppendStr`, those before the NUL. -/
def text : WriterOp → List Char
  | .appendMem str => str
  | .appendStr str => str.takeWhile (· ≠ '\x00')
  | .appendF text => text

/-- The calls whose output a want of `cap` bytes holds, with its NUL. -/
def Fits (cap : ℤ) : WriterOp → Prop
  | .appendF text => (text.length : ℤ) + 1 ≤ cap
  | _ => True

variable {σ : Type} (S : Sink σ)

/-- One call. -/
def apply (w : GenericWriter σ) : WriterOp → Except String (GenericWriter σ)
  | .appendMem str => w.appendMem S str
  -- `AppendMem(str, strlen(str))`
  | .appendStr str => w.appendMem S (str.takeWhile (· ≠ '\x00'))
  | .appendF text => .ok (w.appendF S text)

end WriterOp

namespace GenericWriter

variable {σ : Type} (S : Sink σ)

/-- A sequence of calls, until one crashes. -/
def run (w : GenericWriter σ) : List WriterOp → Except String (GenericWriter σ)
  | [] => .ok w
  | op :: ops => match op.apply S w with
    | .ok w => run w ops
    | .error e => .error e

/-- An output shorter than the space is written whole, with its NUL. -/
theorem vsnprintf_of_lt (s : σ) (p size : ℤ) {text : List Char} (h : (text.length : ℤ) < size) :
    vsnprintf S s p size text = S.store s p (text ++ ['\x00']) := by
  unfold vsnprintf
  rw [if_neg (by omega), if_neg (by omega), List.take_of_length_le (by omega)]

/-! ## What an implementation has to keep -/

/-- An invariant of a writer and the bytes appended so far that writing into
    the space left and recycling keep: the space left is an `int`; a write of
    `bs` followed by bytes that are not kept (the NUL of `vsnprintf`, the part
    of an output that did not fit) appends `bs`; and a recycle asked for up
    to `cap` bytes gives at least that many. -/
structure Keeps (P : GenericWriter σ → List Char → Prop) (cap : ℤ) : Prop where
  space : ∀ w W, P w W → 0 ≤ w.spaceLeft ∧ w.spaceLeft < 2 ^ 31
  write : ∀ w W (bs extra : List Char), P w W → (bs.length : ℤ) + extra.length ≤ w.spaceLeft →
    P { w with sink := S.store w.sink w.bufFill (bs ++ extra), bufFill := w.bufFill + bs.length }
      (W ++ bs)
  recycle : ∀ w W want, P w W → 1 ≤ want → want ≤ cap →
    P (w.recycle S want) W ∧ want ≤ (w.recycle S want).spaceLeft

section Keeps

variable {S} {P : GenericWriter σ → List Char → Prop} {cap : ℤ} (hk : Keeps S P cap)
include hk

theorem Keeps.copy {w : GenericWriter σ} {W : List Char} (hP : P w W) {bs : List Char}
    (hbs : (bs.length : ℤ) ≤ w.spaceLeft) : P (w.copy S bs) (W ++ bs) := by
  have := hk.write w W bs [] hP (by simpa using hbs)
  rwa [List.append_nil] at this

/-- Bytes written at the fill pointer and not counted leave the invariant. -/
theorem Keeps.scratch {w : GenericWriter σ} {W : List Char} (hP : P w W) {extra : List Char}
    (hextra : (extra.length : ℤ) ≤ w.spaceLeft) :
    P { w with sink := S.store w.sink w.bufFill extra } W := by
  have := hk.write w W [] extra hP (by simpa using hextra)
  simpa using this

/-- The space left needs no narrowing to `int`. -/
theorem Keeps.toInt_spaceLeft {w : GenericWriter σ} {W : List Char} (hP : P w W) :
    toInt (w.bufEnd - w.bufFill) = w.spaceLeft := by
  obtain ⟨h0, h1⟩ := hk.space w W hP
  exact toInt_of_lt (by unfold spaceLeft at h0; omega) h1

/-- The loop of `AppendMem` from a buffer with room, or with nothing to
    copy, ends within one round a byte, and appends the bytes. -/
theorem Keeps.appendMemLoop (hcap : 1 ≤ cap) :
    ∀ (fuel : ℕ) (w : GenericWriter σ) (W str : List Char), P w W →
      (str ≠ [] → 1 ≤ w.spaceLeft) → str.length ≤ fuel → 0 < fuel →
      ∃ w', appendMemLoop S fuel w str = .ok w' ∧ P w' (W ++ str)
  | 0, _, _, _, _, _, _, h0 => absurd h0 (Nat.lt_irrefl 0)
  | fuel + 1, w, W, str, hP, hroom, hlen, _ => by
    have hspace := hk.space w W hP
    have hmax : intMax = 2 ^ 31 - 1 := rfl
    -- the amount copied: what is left of `str`, capped by `INT_MAX` and the room
    obtain ⟨amount, hamount⟩ : ∃ amount, amount = min (min intMax (str.length : ℤ)) w.spaceLeft :=
      ⟨_, rfl⟩
    have hnonneg : 0 ≤ amount := by omega
    have hP1 : P (w.copy S (str.take amount.toNat)) (W ++ str.take amount.toNat) :=
      hk.copy hP (by rw [List.length_take]; omega)
    simp only [GenericWriter.appendMemLoop, hk.toInt_spaceLeft hP, spaceLeft] at hamount ⊢
    rw [← hamount, if_neg (by omega)]
    by_cases hrest : str.drop amount.toNat = []
    · rw [if_pos hrest]
      refine ⟨_, rfl, ?_⟩
      rw [List.take_of_length_le (List.drop_eq_nil_iff.mp hrest)] at hP1 ⊢
      exact hP1
    · rw [if_neg hrest]
      -- something was copied, as the buffer had room
      have hne : str ≠ [] := fun h => hrest (by rw [h, List.drop_nil])
      have hroom1 := hroom hne
      have hlen1 : 1 ≤ str.length := List.length_pos_iff.mpr hne
      unfold spaceLeft at hroom1
      obtain ⟨hP2, hroom2⟩ := hk.recycle _ _ 1 hP1 (Int.le_refl 1) hcap
      have hdrop : (str.drop amount.toNat).length ≤ fuel := by
        rw [List.length_drop]
        omega
      obtain ⟨w', hrun, hP'⟩ := Keeps.appendMemLoop hcap fuel _ _ _ hP2 (fun _ => hroom2) hdrop
        (by have := List.length_pos_iff.mpr hrest; omega)
      refine ⟨w', hrun, ?_⟩
      rwa [List.append_assoc, List.take_append_drop] at hP'

/-- `AppendMem` appends its bytes: from a full buffer, its first round only
    recycles. -/
theorem Keeps.appendMem (hcap : 1 ≤ cap) {w : GenericWriter σ} {W : List Char} (hP : P w W)
    (str : List Char) : ∃ w', w.appendMem S str = .ok w' ∧ P w' (W ++ str) := by
  by_cases hroom : str ≠ [] → 1 ≤ w.spaceLeft
  · exact hk.appendMemLoop hcap _ w W str hP hroom (Nat.le_succ _) (Nat.succ_pos _)
  · obtain ⟨hne, hfull⟩ := Classical.not_imp.mp hroom
    have hzero : w.spaceLeft = 0 := by have := (hk.space w W hP).1; omega
    have hP1 : P (w.copy S []) (W ++ []) := hk.copy hP (by simp [hzero])
    obtain ⟨hP2, hroom2⟩ := hk.recycle _ _ 1 hP1 (Int.le_refl 1) hcap
    obtain ⟨w', hrun, hP'⟩ := hk.appendMemLoop hcap str.length _ _ str hP2 (fun _ => hroom2)
      (Nat.le_refl _) (List.length_pos_iff.mpr hne)
    refine ⟨w', ?_, by simpa using hP'⟩
    have hamount : min (min intMax (str.length : ℤ)) (toInt (w.bufEnd - w.bufFill)) = 0 := by
      rw [hk.toInt_spaceLeft hP, hzero]
      unfold intMax
      omega
    simp only [GenericWriter.appendMem, GenericWriter.appendMemLoop, hamount, Int.toNat_zero,
      List.take_zero, List.drop_zero, if_neg hne, Int.lt_irrefl, if_false]
    exact hrun

/-- What `vsnprintf` writes into the space left is not counted. -/
theorem Keeps.vsnprintf_scratch {w : GenericWriter σ} {W : List Char} (hP : P w W) (text : List Char) :
    P { w with sink := vsnprintf S w.sink w.bufFill w.spaceLeft text } W := by
  have h0 := (hk.space w W hP).1
  unfold GenericWriter.vsnprintf
  split_ifs with hzero hneg
  · exact hP
  · exact absurd hneg (Int.not_lt.mpr h0)
  · exact hk.scratch hP (by simp; omega)

/-- `AppendF` appends the output of its format, when a recycle can make room
    for it and its NUL. -/
theorem Keeps.appendF {w : GenericWriter σ} {W : List Char} (hP : P w W) (text : List Char)
    (hfit : (text.length : ℤ) + 1 ≤ cap) : P (w.appendF S text) (W ++ text) := by
  unfold GenericWriter.appendF
  simp only [hk.toInt_spaceLeft hP]
  split_ifs with hfull
  · -- the output did not fit: the first attempt is scratch, then a buffer with room
    have hP1 := hk.vsnprintf_scratch hP text
    obtain ⟨hP2, hroom⟩ := hk.recycle _ _ (text.length + 1) hP1 (by omega) hfit
    generalize hw2 : ({ w with sink := vsnprintf S w.sink w.bufFill w.spaceLeft text } :
      GenericWriter σ).recycle S (text.length + 1) = w2 at hP2 hroom
    -- the recycled buffer starts at its fill pointer
    have hbuf : w2.buf = w2.bufFill := by rw [← hw2]; rfl
    have hstore : vsnprintf S w2.sink w2.buf (toInt (w2.bufEnd - w2.buf)) text =
        S.store w2.sink w2.bufFill (text ++ ['\x00']) := by
      rw [hbuf, hk.toInt_spaceLeft hP2, vsnprintf_of_lt S _ _ _ (by omega)]
    have hwritten : min (text.length : ℤ) (toInt (w2.bufEnd - w2.buf) - 1) = text.length := by
      rw [hbuf, hk.toInt_spaceLeft hP2]
      omega
    rw [hstore, hwritten]
    exact hk.write w2 W text ['\x00'] hP2 (by simp; omega)
  · rw [vsnprintf_of_lt S _ _ _ (by omega)]
    exact hk.write w W text ['\x00'] hP (by simp; omega)

/-- Every sequence of calls runs, and appends the bytes of its calls. -/
theorem Keeps.run (hcap : 1 ≤ cap) :
    ∀ (ops : List WriterOp) (w : GenericWriter σ) (W : List Char), P w W →
      (∀ op ∈ ops, op.Fits cap) →
      ∃ w', w.run S ops = .ok w' ∧ P w' (W ++ (ops.map WriterOp.text).flatten)
  | [], w, W, hP, _ => ⟨w, rfl, by simpa using hP⟩
  | op :: ops, w, W, hP, hfits => by
    -- one call appends its bytes
    obtain ⟨w1, happly, hP1⟩ : ∃ w1, op.apply S w = .ok w1 ∧ P w1 (W ++ op.text) := by
      cases op with
      | appendMem str => exact hk.appendMem hcap hP str
      | appendStr str => exact hk.appendMem hcap hP _
      | appendF text => exact ⟨_, rfl, hk.appendF hP text (hfits _ List.mem_cons_self)⟩
    obtain ⟨w', hrun, hP'⟩ :=
      Keeps.run hcap ops w1 _ hP1 fun op' h => hfits op' (List.mem_cons_of_mem _ h)
    refine ⟨w', by rw [GenericWriter.run, happly]; exact hrun, ?_⟩
    simpa [List.append_assoc] using hP'

end Keeps

end GenericWriter

/-! ## `WriteFnWriter` -/

/-- The state of `WriteFnWriter<WriteFn, kSize>`: its `static_buffer_`, and
    the calls of `write_fn_` so far, each with the bytes it was given. -/
structure WriteFnWriter where
  staticBuffer : Mem Char
  writes : List (List Char)

namespace WriteFnWriter

/-- `WriteFnWriter<WriteFn, kSize>`, its `static_buffer_` at address 0:
    `RecycleBuffer` hands the bytes filled to `write_fn_` and returns the
    whole buffer again. -/
def sink (kSize : ℕ) : Sink WriteFnWriter where
  store s p bs := { s with staticBuffer := s.staticBuffer.store p bs }
  recycleBuffer s bufBegin bufEnd _ :=
    let actuallyFilled := bufEnd - bufBegin
    let s := if 0 < actuallyFilled then
        { s with writes := s.writes ++ [s.staticBuffer.read 0 actuallyFilled.toNat] }
      else s
    (s, 0, kSize)

/-- The writer is in its static buffer, and the bytes handed to `write_fn_`
    and those filled are the bytes appended. -/
structure Holds (kSize : ℕ) (w : GenericWriter WriteFnWriter) (W : List Char) : Prop where
  buf : w.buf = 0
  fill_nonneg : 0 ≤ w.bufFill
  fill_le : w.bufFill ≤ w.bufEnd
  end_le : w.bufEnd ≤ kSize
  contents : w.sink.writes.flatten ++ w.sink.staticBuffer.read 0 w.bufFill.toNat = W

theorem holds_init (kSize : ℕ) (staticBuffer : Mem Char) :
    Holds kSize (GenericWriter.init ⟨staticBuffer, []⟩) [] :=
  ⟨rfl, Int.le_refl 0, Int.le_refl 0, Int.natCast_nonneg kSize, rfl⟩

/-- A recycle returns the whole static buffer. -/
@[simp] theorem recycleBuffer_snd (kSize : ℕ) (s : WriteFnWriter) (bufBegin bufEnd want : ℤ) :
    ((sink kSize).recycleBuffer s bufBegin bufEnd want).2 = ((0 : ℤ), (kSize : ℤ)) := rfl

/-- A recycle hands `write_fn_` what was filled. -/
theorem writes_flatten_recycle {kSize : ℕ} {w : GenericWriter WriteFnWriter} (hbuf : w.buf = 0)
    (hfill : 0 ≤ w.bufFill) (want : ℤ) :
    ((sink kSize).recycleBuffer w.sink w.buf w.bufFill want).1.writes.flatten =
      w.sink.writes.flatten ++ w.sink.staticBuffer.read 0 w.bufFill.toNat := by
  simp only [sink, hbuf, Int.sub_zero]
  split_ifs with hpos
  · simp
  · rw [show w.bufFill.toNat = 0 by omega]
    simp

/-- With a static buffer of `kSize` bytes, the writer keeps `Holds` for every
    output of less than `kSize` bytes. -/
theorem keeps {kSize : ℕ} (hsize : kSize < 2 ^ 31) : GenericWriter.Keeps (sink kSize) (Holds kSize) kSize where
  space w W h := by
    have := h.fill_nonneg
    have := h.fill_le
    have := h.end_le
    unfold GenericWriter.spaceLeft
    omega
  write w W bs extra h hroom := by
    unfold GenericWriter.spaceLeft at hroom
    have hfill := h.fill_nonneg
    refine ⟨h.buf, by simp only; omega, by simp only; omega, h.end_le, ?_⟩
    -- the new bytes extend those filled
    have hstore : w.bufFill = 0 + (w.bufFill.toNat : ℤ) := by omega
    have hread := w.sink.staticBuffer.read_store_append 0 w.bufFill.toNat (bs ++ extra)
      (k := bs.length) (by simp)
    simp only [sink, ← hstore, List.take_left] at hread ⊢
    rw [show (w.bufFill + bs.length).toNat = w.bufFill.toNat + bs.length by omega, hread,
      ← List.append_assoc, h.contents]
  recycle w W want h h1 hcap := by
    refine ⟨⟨rfl, Int.le_refl 0, Int.natCast_nonneg kSize, Int.le_refl _, ?_⟩, ?_⟩
    · simp only [GenericWriter.recycle, recycleBuffer_snd, Int.toNat_zero, Mem.read_zero,
        List.append_nil]
      rw [writes_flatten_recycle h.buf h.fill_nonneg, h.contents]
    · simp only [GenericWriter.recycle, GenericWriter.spaceLeft, recycleBuffer_snd]
      omega

end WriteFnWriter

/-- `WriteFnWriter<WriteFn, kSize>`: for every sequence of `AppendMem`,
    `AppendStr` and `AppendF` calls whose outputs are shorter than `kSize`,
    the calls of `write_fn`, once the writer is destroyed, have been given
    exactly the bytes appended, in order. -/
theorem writeFnWriter_run {kSize : ℕ} (hpos : 1 ≤ kSize) (hsize : kSize < 2 ^ 31)
    (staticBuffer : Mem Char) (ops : List WriterOp) (hops : ∀ op ∈ ops, op.Fits kSize) :
    ∃ w, (GenericWriter.init ⟨staticBuffer, []⟩).run (WriteFnWriter.sink kSize) ops = .ok w ∧
      (w.finalRecycle (WriteFnWriter.sink kSize)).sink.writes.flatten =
        (ops.map WriterOp.text).flatten := by
  obtain ⟨w, hrun, h⟩ := (WriteFnWriter.keeps hsize).run (by exact_mod_cast hpos) ops _ _
    (WriteFnWriter.holds_init kSize staticBuffer) hops
  refine ⟨w, hrun, ?_⟩
  rw [GenericWriter.finalRecycle, WriteFnWriter.writes_flatten_recycle h.buf h.fill_nonneg,
    h.contents, List.nil_append]

/-- A string with a NUL inside, a line longer than a small buffer, and a
    short formatted number. -/
def mixedCalls : List WriterOp :=
  [.appendStr "abc\x00de".toList, .appendMem "a line longer than sixteen bytes".toList, .appendF "x = 42".toList]

theorem writeFnWriter_run_sixteen :
    ∃ w, (GenericWriter.init ⟨fun _ => ' ', []⟩).run (WriteFnWriter.sink 16) mixedCalls = .ok w ∧
      (w.finalRecycle (WriteFnWriter.sink 16)).sink.writes.flatten = (mixedCalls.map WriterOp.text).flatten :=
  writeFnWriter_run (by decide) (by decide) _ mixedCalls (by simp [mixedCalls, WriterOp.Fits])

end Gperftools
