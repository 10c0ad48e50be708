import Gperftools.Lib.Memory
import Gperftools.GenericWriter

/-!
# Lines of a stream

`tcmalloc::ForEachLine<BufSize>(reader, body)` (base/for_each_line.h) reads a
stream through a buffer of `BufSize` bytes and gives the body each line. The
text read and not yet split is the window `[sbuf, ebuf)` of the buffer. When
it holds no newline, the loop moves it to the start of the buffer and asks
the reader for the room left before `buf_end`, one byte short of the end of
the buffer, so that a last line without a newline can be given one; a read
of nothing ends the stream. The reader is a `FunctionRef<int(void*, int)>`:
the room it is asked for is narrowed to `int` (`toInt`), as the length
`count` of the window is.

The reader returns a text `S` in chunks of any sizes: asked at its `i`-th
call for `r > 0` bytes, it returns `choose i r` of them, at least one and at
most `r`, while any are left (`chunk`). The body sees a line and how many it
saw before; the loop is run on `State`, with the reader's and the body's view
of the run.

* `deliver` is what the loop is for: the lines of `S`, in order, go to the
  body until it returns false or a line is longer than `BufSize - 2` bytes,
  which fails;
* `loop_eq`: from any state of the invariant `Inv`, with more fuel than its
  `measure`, the loop does what `deliver` does with the lines of what is left
  to split. The windows of two states it goes through differ by a line taken
  off the front, a newline added at the end, or a read: each keeps the lines
  still to come, and lowers the measure;
* `forEachLine_eq_deliver`: so for buffers of 2 to `2 ^ 31` bytes the lines
  the body is given do not depend on how the reader chunks the stream;
* `forEachLine_two_pow_32`: for a larger buffer the room asked for can wrap
  to 0, and the stream then ends at once.
-/

namespace Gperftools

namespace ForEachLine

/-! ## What the loop is for -/

/-- The lines of a text, after a line `cur` begun before it: the segments
    before each newline, then what follows the last one, if anything does. -/
def linesFrom : List Char → List Char → List (List Char)
  | [], cur => if cur = [] then [] else [cur]
  | c :: cs, cur => if c = '\n' then cur :: linesFrom cs [] else linesFrom cs (cur ++ [c])

/-- The lines of a text. -/
def lines (t : List Char) : List (List Char) := linesFrom t []

example : lines "ab\n\ncd".toList = ["ab".toList, [], "cd".toList] := by decide

/-- What `ForEachLine<B>` is for: the lines `ls` go to the body in order, the
    first as its `i`-th, until it returns false, which ends the loop with
    true, or a line is longer than `B - 2` bytes, which fails. The result,
    and the lines the body was given. -/
def deliver (B : ℕ) (body : ℕ → List Char → Bool) :
    ℕ → List (List Char) → Bool × List (List Char)
  | _, [] => (true, [])
  | i, l :: ls =>
    if B - 2 < l.length then (false, [])
    else if body i l then
      let r := deliver B body (i + 1) ls
      (r.1, l :: r.2)
    else (true, [l])

theorem linesFrom_append_of_not_mem {w : List Char} (hw : '\n' ∉ w) (r cur : List Char) :
    linesFrom (w ++ r) cur = linesFrom r (cur ++ w) := by
  induction w generalizing cur with
  | nil => rw [List.nil_append, List.append_nil]
  | cons c w ih =>
    have hc : c ≠ '\n' := fun h => hw (h ▸ List.mem_cons_self)
    rw [List.cons_append, linesFrom, if_neg hc, ih (fun h => hw (List.mem_cons_of_mem _ h)),
      List.append_assoc, List.singleton_append]

/-- The first newline of a text ends its first line. -/
theorem linesFrom_of_idxOf? {w : List Char} {j : ℕ} (hj : w.idxOf? '\n' = some j)
    (r cur : List Char) :
    linesFrom (w ++ r) cur = (cur ++ w.take j) :: linesFrom (w.drop (j + 1) ++ r) [] := by
  induction w generalizing j cur with
  | nil => cases hj
  | cons c w ih =>
    rw [List.idxOf?_cons] at hj
    rw [List.cons_append, linesFrom]
    by_cases hc : c = '\n'
    · rw [if_pos (beq_iff_eq.mpr hc), Option.some_inj] at hj
      subst hj
      rw [if_pos hc, List.take_zero, List.append_nil, List.drop_one, List.tail_cons]
    · rw [if_neg (fun h => hc (beq_iff_eq.mp h))] at hj
      obtain ⟨j', hj', rfl⟩ := Option.map_eq_some_iff.mp hj
      rw [if_neg hc, ih hj', List.take_succ_cons, List.drop_succ_cons, List.append_assoc,
        List.singleton_append]

/-- A line begun is the start of the first line. -/
theorem linesFrom_head {cur : List Char} (hcur : cur ≠ []) (r : List Char) :
    ∃ l ls, linesFrom r cur = l :: ls ∧ cur.length ≤ l.length := by
  induction r generalizing cur with
  | nil => exact ⟨cur, [], by rw [linesFrom, if_neg hcur], Nat.le_refl _⟩
  | cons c r ih =>
    rw [linesFrom]
    by_cases hc : c = '\n'
    · exact ⟨cur, _, if_pos hc, Nat.le_refl _⟩
    · obtain ⟨l, ls, h, hl⟩ := ih (show cur ++ [c] ≠ [] by simp)
      refine ⟨l, ls, by rw [if_neg hc, h], ?_⟩
      rw [List.length_append] at hl
      omega

/-- A text whose last line has no newline splits as if it had one. -/
theorem lines_append_newline {w : List Char} (hw : '\n' ∉ w) (hne : w ≠ []) :
    lines (w ++ ['\n']) = lines w := by
  have h := linesFrom_append_of_not_mem hw [] []
  rw [List.append_nil] at h
  rw [lines, lines, h, linesFrom_append_of_not_mem hw, List.nil_append]
  simp [linesFrom, hne]

/-- The bytes of lines, with a newline each. -/
def lineBytes (ls : List (List Char)) : ℕ := (ls.map fun l => l.length + 1).sum

@[simp] theorem lineBytes_nil : lineBytes [] = 0 := rfl

@[simp] theorem lineBytes_cons (l : List Char) (ls : List (List Char)) :
    lineBytes (l :: ls) = l.length + 1 + lineBytes ls := by
  simp [lineBytes]

theorem lineBytes_linesFrom_le (t cur : List Char) :
    lineBytes (linesFrom t cur) ≤ t.length + cur.length + 1 := by
  induction t generalizing cur with
  | nil =>
    rw [linesFrom]
    split_ifs <;> simp
  | cons c t ih =>
    rw [linesFrom]
    split_ifs
    · have := ih []
      simp only [lineBytes_cons, List.length_nil, List.length_cons] at this ⊢
      omega
    · have := ih (cur ++ [c])
      simp only [List.length_append, List.length_cons, List.length_nil] at this ⊢
      omega

/-- A text that ends a line: nothing, or a newline last. -/
def EndsLine (w : List Char) : Prop := w = [] ∨ ∃ v, w = v ++ ['\n']

theorem EndsLine.drop {w : List Char} (h : EndsLine w) (k : ℕ) : EndsLine (w.drop k) := by
  rcases h with rfl | ⟨v, rfl⟩
  · exact Or.inl List.drop_nil
  · rw [List.drop_append]
    rcases Nat.lt_or_ge v.length k with hk | hk
    · left
      rw [List.drop_eq_nil_of_le (Nat.le_of_lt hk),
        List.drop_eq_nil_of_le (by simp only [List.length_singleton]; omega), List.append_nil]
    · exact Or.inr ⟨v.drop k, by rw [Nat.sub_eq_zero_of_le hk, List.drop_zero]⟩

theorem EndsLine.mem {w : List Char} (h : EndsLine w) (hne : w ≠ []) : '\n' ∈ w := by
  rcases h with rfl | ⟨v, rfl⟩
  · exact absurd rfl hne
  · exact List.mem_append_right _ (List.mem_singleton_self _)

/-! ## The loop -/

/-- The locals of the loop, as offsets from `buf`, and what the run has done
    so far: the bytes the reader has still to return, how many reads it
    served, and the lines the body was given. -/
structure State where
  buf : Mem Char
  sbuf : ℤ
  ebuf : ℤ
  eof : Bool
  rest : List Char
  reads : ℕ
  given : List (List Char)

/-- The reader: asked at its `i`-th call for `r` bytes, it returns
    `choose i r` of those left, at least one and at most `r`; asked for no
    room, it returns nothing. -/
def chunk (choose : ℕ → ℕ → ℕ) (rest : List Char) (i : ℕ) (r : ℤ) : List Char :=
  if r ≤ 0 then [] else rest.take (min (max (choose i r.toNat) 1) r.toNat)

variable (B : ℕ) (choose : ℕ → ℕ → ℕ) (body : ℕ → List Char → Bool)

/-- The `for (;;)` of `ForEachLine<B>`, for at most `fuel` passes: whether it
    returns true, and the state it ends in. -/
def loop : ℕ → State → Bool × State
  | 0, s => (true, s)
  | fuel + 1, s =>
    let bufEnd : ℤ := B - 1
    match Mem.memchr s.buf s.sbuf '\n' (s.ebuf - s.sbuf).toNat with
    | some j =>
      -- the newline becomes a NUL, and the line before it goes to the body
      let nextline := s.sbuf + j
      let line := Mem.read s.buf s.sbuf j
      let s' := { s with buf := Mem.store s.buf nextline ['\x00'], given := s.given ++ [line] }
      if body s.given.length line then loop fuel { s' with sbuf := nextline + 1 } else (true, s')
    | none =>
      let count := toInt (s.ebuf - s.sbuf)
      if s.eof then
        if count = 0 then (true, s)
        -- the last line has no newline: it gets one, in the byte kept for it
        else loop fuel { s with buf := Mem.store s.buf s.ebuf ['\n'], ebuf := s.ebuf + 1 }
      else if s.ebuf = bufEnd ∧ s.sbuf = 0 then (false, s)
      else
        -- the window moves to the start of the buffer, and the room after it
        -- is read into; a read of nothing is the end of the stream
        let buf := Mem.memmove s.buf 0 s.sbuf count.toNat
        let ebuf := count
        let bytes := chunk choose s.rest s.reads (toInt (bufEnd - ebuf))
        loop fuel { s with
          buf := Mem.store buf ebuf bytes
          sbuf := 0
          ebuf := ebuf + bytes.length
          eof := if bytes.length = 0 then true else s.eof
          rest := s.rest.drop bytes.length
          reads := s.reads + 1 }

/-- `ForEachLine<B>(reader, body)`, with a buffer that holds `buf` at first
    and a reader of `S`: its result, and the lines the body was given. -/
def forEachLine (buf : Mem Char) (S : List Char) : Bool × List (List Char) :=
  let r := loop B choose body (4 * S.length + 6) ⟨buf, 0, 0, false, S, 0, []⟩
  (r.1, r.2.given)

/-! ## The reader -/

section Chunk

variable {choose : ℕ → ℕ → ℕ} {rest : List Char} {i : ℕ} {r : ℤ}

/-- A chunk is the front of what the reader holds. -/
theorem chunk_eq_take : chunk choose rest i r = rest.take (chunk choose rest i r).length := by
  unfold chunk
  split_ifs
  · rfl
  · rw [List.length_take, ← List.take_eq_take_min]

theorem length_chunk_le (hr : 0 < r) : (chunk choose rest i r).length ≤ r.toNat := by
  rw [chunk, if_neg (Int.not_le.mpr hr), List.length_take]
  omega

/-- Asked for room, the reader returns something while it holds anything. -/
theorem rest_eq_nil_of_chunk (hr : 0 < r) (h : (chunk choose rest i r).length = 0) :
    rest = [] := by
  rw [chunk, if_neg (Int.not_le.mpr hr), List.length_take] at h
  exact List.eq_nil_of_length_eq_zero (by omega)

end Chunk

/-! ## The window -/

namespace State

/-- The window: the text read and not yet split. -/
def window (s : State) : List Char := Mem.read s.buf s.sbuf (s.ebuf - s.sbuf).toNat

/-- What is left to split: the window, then what the reader holds. -/
def text (s : State) : List Char := s.window ++ s.rest

/-- A bound on the passes the loop has left: a pass takes a line off the
    text, gives a last line its newline, or reads, which takes bytes from the
    reader or ends the stream. -/
def measure (s : State) : ℕ :=
  3 * lineBytes (lines s.text) + s.rest.length + (if s.eof then 0 else 2) +
    (if s.eof ∧ s.window ≠ [] ∧ '\n' ∉ s.window then 1 else 0)

@[simp] theorem length_window (s : State) : s.window.length = (s.ebuf - s.sbuf).toNat :=
  Mem.length_read _ _ _

/-- The state after the body took the line before the newline at `sbuf + j`. -/
def afterLine (s : State) (j : ℕ) : State :=
  { s with
    buf := Mem.store s.buf (s.sbuf + j) ['\x00']
    sbuf := s.sbuf + j + 1
    given := s.given ++ [Mem.read s.buf s.sbuf j] }

/-- The state after a last line got its newline. -/
def closeLine (s : State) : State :=
  { s with buf := Mem.store s.buf s.ebuf ['\n'], ebuf := s.ebuf + 1 }

/-- The state after the window of `count` bytes moved to the start of the
    buffer and `bytes` were read after it. -/
def afterRead (s : State) (count : ℤ) (bytes : List Char) : State :=
  { s with
    buf := Mem.store (Mem.memmove s.buf 0 s.sbuf count.toNat) count bytes
    sbuf := 0
    ebuf := count + bytes.length
    eof := if bytes.length = 0 then true else s.eof
    rest := s.rest.drop bytes.length
    reads := s.reads + 1 }

end State

/-- The invariant of the loop: the window lies in the buffer before
    `buf_end`; at the end of the stream the reader holds nothing, and a last
    line without a newline has room for one. -/
structure Inv (s : State) : Prop where
  sbuf_nonneg : 0 ≤ s.sbuf
  sbuf_le : s.sbuf ≤ s.ebuf
  ebuf_le : s.ebuf ≤ (B : ℤ) - 1
  rest_eof : s.eof = true → s.rest = []
  room_eof : s.eof = true → s.ebuf ≤ (B : ℤ) - 2 ∨ EndsLine s.window

section Step

variable {B} {s : State}

/-- `int count = ebuf - sbuf` does not wrap. -/
theorem Inv.count (hs : Inv B s) (hB : B ≤ 2 ^ 31) :
    toInt (s.ebuf - s.sbuf) = ((s.ebuf - s.sbuf).toNat : ℤ) := by
  have := hs.sbuf_le
  have := hs.ebuf_le
  have := hs.sbuf_nonneg
  rw [Int.toNat_of_nonneg (by omega)]
  exact toInt_of_lt (by omega) (by omega)

/-! ### A newline in the window -/

section Newline

variable {j : ℕ} (hj : s.window.idxOf? '\n' = some j)
include hj

theorem lt_of_newline : j < (s.ebuf - s.sbuf).toNat := by
  simpa using (List.idxOf?_eq_some_iff.mp hj).1

/-- The body is given the window up to the newline. -/
theorem read_newline : Mem.read s.buf s.sbuf j = s.window.take j :=
  (Mem.take_read _ _ (Nat.le_of_lt (lt_of_newline hj))).symm

theorem window_afterLine : (s.afterLine j).window = s.window.drop (j + 1) := by
  have hlt := lt_of_newline hj
  simp only [State.window, State.afterLine]
  rw [Mem.read_store_of_ge _ (by simp only [List.length_singleton]; omega), Mem.drop_read _ _ hlt]
  congr 1 <;> omega

theorem lines_afterLine : lines s.text = s.window.take j :: lines (s.afterLine j).text := by
  have h := linesFrom_of_idxOf? hj s.rest []
  rw [List.nil_append] at h
  rw [lines, State.text, h, State.text, window_afterLine hj, lines]
  rfl

theorem Inv.afterLine (hs : Inv B s) : Inv B (s.afterLine j) where
  sbuf_nonneg := by simp only [State.afterLine]; have := hs.sbuf_nonneg; omega
  sbuf_le := by simp only [State.afterLine]; have := lt_of_newline hj; omega
  ebuf_le := hs.ebuf_le
  rest_eof := hs.rest_eof
  room_eof he := (hs.room_eof he).imp_right fun h => by
    rw [window_afterLine hj]
    exact h.drop _

theorem measure_afterLine : (s.afterLine j).measure + 2 ≤ s.measure := by
  have hl := lines_afterLine hj
  simp only [State.measure, hl, lineBytes_cons]
  have hrest : (s.afterLine j).rest = s.rest := rfl
  have heof : (s.afterLine j).eof = s.eof := rfl
  rw [hrest, heof]
  split_ifs <;> omega

end Newline

/-! ### The end of the stream -/

section Eof

variable (hs : Inv B s) (he : s.eof = true) (hw : '\n' ∉ s.window) (hne : s.window ≠ [])

include hs in
theorem window_closeLine : s.closeLine.window = s.window ++ ['\n'] := by
  have hn : s.ebuf = s.sbuf + ((s.ebuf - s.sbuf).toNat : ℤ) := by have := hs.sbuf_le; omega
  have h := Mem.read_store_append s.buf s.sbuf (s.ebuf - s.sbuf).toNat ['\n'] (Nat.le_refl 1)
  rw [← hn] at h
  simp only [State.window, State.closeLine]
  rw [show (s.ebuf + 1 - s.sbuf).toNat = (s.ebuf - s.sbuf).toNat + 1 by have := hs.sbuf_le; omega,
    h, List.take_one, List.head?_cons, Option.toList_some]

include hs he hw hne in
theorem lines_closeLine : lines s.closeLine.text = lines s.text := by
  have hrest : s.closeLine.rest = [] := hs.rest_eof he
  rw [State.text, State.text, hrest, hs.rest_eof he, List.append_nil, List.append_nil,
    window_closeLine hs, lines_append_newline hw hne]

include hs he hw hne in
theorem Inv.closeLine : Inv B s.closeLine where
  sbuf_nonneg := hs.sbuf_nonneg
  sbuf_le := by simp only [State.closeLine]; have := hs.sbuf_le; omega
  ebuf_le := by
    -- a window without a newline does not end a line, so it left the byte
    have := (hs.room_eof he).resolve_right fun h => hw (h.mem hne)
    simp only [State.closeLine]
    omega
  rest_eof := hs.rest_eof
  room_eof _ := Or.inr (Or.inr ⟨s.window, window_closeLine hs⟩)

include hs he hw hne in
theorem measure_closeLine : s.closeLine.measure + 1 ≤ s.measure := by
  have hmem : '\n' ∈ s.closeLine.window := by
    rw [window_closeLine hs]
    exact List.mem_append_right _ (List.mem_singleton_self _)
  -- the last line waited for its newline, and no longer does
  have hafter : ¬(s.closeLine.eof = true ∧ s.closeLine.window ≠ [] ∧ '\n' ∉ s.closeLine.window) :=
    fun h => h.2.2 hmem
  have hbefore : s.eof = true ∧ s.window ≠ [] ∧ '\n' ∉ s.window := ⟨he, hne, hw⟩
  have hrest : s.closeLine.rest = s.rest := rfl
  have heof : s.closeLine.eof = s.eof := rfl
  have hnew : s.closeLine.measure =
      3 * lineBytes (lines s.text) + s.rest.length + (if s.eof then 0 else 2) + 0 := by
    unfold State.measure
    rw [if_neg hafter, lines_closeLine hs he hw hne, hrest, heof]
  have hold : s.measure =
      3 * lineBytes (lines s.text) + s.rest.length + (if s.eof then 0 else 2) + 1 := by
    unfold State.measure
    rw [if_pos hbefore]
  omega

end Eof

/-! ### A read -/

section Read

variable {bytes : List Char} (hs : Inv B s)
  (hroom : ((s.ebuf - s.sbuf).toNat : ℤ) < (B : ℤ) - 1)
  (htake : bytes = s.rest.take bytes.length)
  (hlen : (bytes.length : ℤ) ≤ (B : ℤ) - 1 - (s.ebuf - s.sbuf).toNat)
  (hnil : bytes.length = 0 → s.rest = [])

theorem window_afterRead :
    (s.afterRead ((s.ebuf - s.sbuf).toNat : ℤ) bytes).window = s.window ++ bytes := by
  have h := Mem.read_store_append (Mem.memmove s.buf 0 s.sbuf (s.ebuf - s.sbuf).toNat) 0
    (s.ebuf - s.sbuf).toNat bytes (Nat.le_refl _)
  rw [Int.zero_add, List.take_length, Mem.read_memmove] at h
  simp only [State.window, State.afterRead, Int.toNat_natCast]
  rw [show (((s.ebuf - s.sbuf).toNat : ℤ) + bytes.length - 0).toNat =
    (s.ebuf - s.sbuf).toNat + bytes.length by omega, h]

include htake in
theorem text_afterRead : (s.afterRead ((s.ebuf - s.sbuf).toNat : ℤ) bytes).text = s.text := by
  have hrest : (s.afterRead ((s.ebuf - s.sbuf).toNat : ℤ) bytes).rest =
      s.rest.drop bytes.length := rfl
  rw [State.text, State.text, window_afterRead, hrest, List.append_assoc]
  nth_rewrite 1 [htake]
  rw [List.take_append_drop]

include hroom hlen hnil in
theorem Inv.afterRead (he : s.eof = false) :
    Inv B (s.afterRead ((s.ebuf - s.sbuf).toNat : ℤ) bytes) where
  sbuf_nonneg := Int.le_refl 0
  sbuf_le := by simp only [State.afterRead]; omega
  ebuf_le := by simp only [State.afterRead]; omega
  rest_eof h := by
    simp only [State.afterRead, he] at h ⊢
    split_ifs at h with h0
    · rw [h0, List.drop_zero, hnil h0]
  room_eof h := by
    simp only [State.afterRead, he] at h ⊢
    split_ifs at h with h0
    · left
      rw [h0]
      omega

include htake hnil in
theorem measure_afterRead (he : s.eof = false) :
    (s.afterRead ((s.ebuf - s.sbuf).toNat : ℤ) bytes).measure < s.measure := by
  have hle : bytes.length ≤ s.rest.length := by
    rw [htake, List.length_take]
    omega
  have hrest : (s.afterRead ((s.ebuf - s.sbuf).toNat : ℤ) bytes).rest.length =
      s.rest.length - bytes.length := List.length_drop
  have heof : (s.afterRead ((s.ebuf - s.sbuf).toNat : ℤ) bytes).eof = decide (bytes.length = 0) := by
    simp only [State.afterRead, he]
    split_ifs with h0 <;> simp [h0]
  -- before the read, no last line waits for its newline
  have hnot : ¬(s.eof = true ∧ s.window ≠ [] ∧ '\n' ∉ s.window) := fun h =>
    Bool.false_ne_true (he ▸ h.1)
  unfold State.measure
  rw [text_afterRead htake, hrest, heof, if_neg hnot, he]
  by_cases h0 : bytes.length = 0
  · -- the read ends the stream
    rw [hnil h0]
    simp only [h0, decide_true, List.length_nil, Bool.false_eq_true, true_and, ↓reduceIte]
    split_ifs <;> omega
  · simp only [h0, decide_false, Bool.false_eq_true, false_and, if_false]
    omega

end Read

end Step

/-! ## The run -/

variable {B}

/-- From any state of the invariant, with more fuel than its measure, the loop
    gives the body what `deliver` gives it of the lines left to split. By
    induction on the fuel: a pass either ends as `deliver` does, or goes to a
    state of the invariant with a smaller measure and the same lines to come. -/
theorem loop_eq (hB : 2 ≤ B) (hB' : B ≤ 2 ^ 31) :
    ∀ fuel (s : State), Inv B s → s.measure < fuel →
      ((loop B choose body fuel s).1, (loop B choose body fuel s).2.given) =
        ((deliver B body s.given.length (lines s.text)).1,
          s.given ++ (deliver B body s.given.length (lines s.text)).2) := by
  intro fuel
  induction fuel with
  | zero => intro s _ h; omega
  | succ fuel ih =>
    intro s hs hμ
    rw [loop]
    split
    next j hj =>
      -- a newline: the line before it is the first of the lines left
      change s.window.idxOf? '\n' = some j at hj
      have hshort : ¬B - 2 < (Mem.read s.buf s.sbuf j).length := by
        have := lt_of_newline hj
        have := hs.ebuf_le
        have := hs.sbuf_nonneg
        rw [Mem.length_read]
        omega
      dsimp only
      rw [lines_afterLine hj, ← read_newline hj, deliver, if_neg hshort]
      by_cases hbody : body s.given.length (Mem.read s.buf s.sbuf j) = true
      · rw [if_pos hbody, if_pos hbody]
        show ((loop B choose body fuel (s.afterLine j)).1,
          (loop B choose body fuel (s.afterLine j)).2.given) = _
        rw [ih _ (hs.afterLine hj) (by have := measure_afterLine hj; omega)]
        simp [State.afterLine]
      · rw [if_neg hbody, if_neg hbody]
    next hj =>
      change s.window.idxOf? '\n' = none at hj
      have hw := List.idxOf?_eq_none_iff.mp hj
      dsimp only
      rw [hs.count hB']
      by_cases he : s.eof = true
      · rw [if_pos he]
        by_cases hc : ((s.ebuf - s.sbuf).toNat : ℤ) = 0
        · -- the end: nothing is left to split
          have htext : s.text = [] := by
            rw [State.text, hs.rest_eof he, List.append_nil, ← List.length_eq_zero_iff,
              State.length_window]
            omega
          rw [if_pos hc, htext]
          simp [lines, linesFrom, deliver]
        · -- a last line without a newline gets one
          have hne : s.window ≠ [] := by
            rw [ne_eq, ← List.length_eq_zero_iff, State.length_window]
            omega
          rw [if_neg hc]
          show ((loop B choose body fuel s.closeLine).1,
            (loop B choose body fuel s.closeLine).2.given) = _
          rw [ih _ (hs.closeLine he hw hne) (by have := measure_closeLine hs he hw hne; omega),
            lines_closeLine hs he hw hne]
          rfl
      · rw [if_neg he]
        have he' : s.eof = false := Bool.eq_false_iff.mpr he
        by_cases hfull : s.ebuf = (B : ℤ) - 1 ∧ s.sbuf = 0
        · -- a full buffer without a newline: its line is too long
          rw [if_pos hfull]
          have hne : s.window ≠ [] := by
            rw [ne_eq, ← List.length_eq_zero_iff, State.length_window]
            omega
          obtain ⟨l, ls, hl, hlen⟩ := linesFrom_head hne s.rest
          have hlines : lines s.text = l :: ls := by
            rw [lines, State.text, linesFrom_append_of_not_mem hw, List.nil_append, hl]
          have hlong : B - 2 < l.length := by
            rw [State.length_window] at hlen
            omega
          rw [hlines, deliver, if_pos hlong]
          simp
        · -- a read into the room after the window
          rw [if_neg hfull]
          have hroom : ((s.ebuf - s.sbuf).toNat : ℤ) < (B : ℤ) - 1 := by
            have := hs.ebuf_le
            have := hs.sbuf_nonneg
            have := hs.sbuf_le
            omega
          have hpos : 0 < (B : ℤ) - 1 - (s.ebuf - s.sbuf).toNat := by omega
          rw [toInt_of_lt (by omega) (by omega)]
          have htake := @chunk_eq_take choose s.rest s.reads ((B : ℤ) - 1 - (s.ebuf - s.sbuf).toNat)
          have hnil := @rest_eq_nil_of_chunk choose s.rest s.reads _ hpos
          have hlen := @length_chunk_le choose s.rest s.reads _ hpos
          generalize chunk choose s.rest s.reads ((B : ℤ) - 1 - (s.ebuf - s.sbuf).toNat) = bytes
            at htake hnil hlen ⊢
          show ((loop B choose body fuel (s.afterRead _ bytes)).1,
            (loop B choose body fuel (s.afterRead _ bytes)).2.given) = _
          rw [ih _ (Inv.afterRead hroom (by omega) hnil he')
              (by have := measure_afterRead htake hnil he'; omega),
            text_afterRead htake]
          rfl

/-- For buffers of 2 to `2 ^ 31` bytes, whatever the chunks the reader
    returns the stream in, `ForEachLine` gives the body its lines as
    `deliver` does. -/
theorem forEachLine_eq_deliver (hB : 2 ≤ B) (hB' : B ≤ 2 ^ 31) (buf : Mem Char)
    (S : List Char) : forEachLine B choose body buf S = deliver B body 0 (lines S) := by
  have hinit : Inv B ⟨buf, 0, 0, false, S, 0, []⟩ :=
    { sbuf_nonneg := Int.le_refl 0
      sbuf_le := Int.le_refl 0
      ebuf_le := show (0 : ℤ) ≤ (B : ℤ) - 1 by omega
      rest_eof := fun h => absurd h Bool.false_ne_true
      room_eof := fun h => absurd h Bool.false_ne_true }
  have htext : State.text ⟨buf, 0, 0, false, S, 0, []⟩ = S := rfl
  have hμ : State.measure ⟨buf, 0, 0, false, S, 0, []⟩ < 4 * S.length + 6 := by
    have := lineBytes_linesFrom_le S []
    simp only [State.measure, htext, lines, List.length_nil, Bool.false_eq_true, false_and,
      ↓reduceIte] at this ⊢
    omega
  have h := loop_eq choose body hB hB' _ _ hinit hμ
  rw [htext] at h
  simp only [forEachLine, h, List.nil_append, List.length_nil]

theorem forEachLine_eq_deliver_lines :
    2 ≤ 8 ∧ 8 ≤ 2 ^ 31 ∧
      forEachLine 8 (fun _ _ => 1) (fun _ _ => true) (fun _ => ' ') "ab\ncd".toList =
        deliver 8 (fun _ _ => true) 0 (lines "ab\ncd".toList) :=
  ⟨by decide, by decide, forEachLine_eq_deliver _ _ (by decide) (by decide) _ _⟩

/-- With a buffer of `2 ^ 32 + 1` bytes, the room the first read asks for is
    narrowed to 0, so the reader returns nothing and the stream ends: the body
    is never given the line of "a\n". -/
theorem forEachLine_two_pow_32 (buf : Mem Char) :
    lines "a\n".toList = ["a".toList] ∧
      forEachLine (2 ^ 32 + 1) choose body buf "a\n".toList = (true, []) := by
  refine ⟨by decide, ?_⟩
  have hnone : Mem.memchr buf 0 '\n' ((0 : ℤ) - 0).toNat = none := rfl
  have hcount : toInt (0 - 0) = 0 := by decide
  have hfull : ¬((0 : ℤ) = ((2 ^ 32 + 1 : ℕ) : ℤ) - 1 ∧ (0 : ℤ) = 0) := by decide
  -- the first read is asked for `toInt (2 ^ 32) = 0` bytes
  have hreq : toInt (((2 ^ 32 + 1 : ℕ) : ℤ) - 1 - 0) = 0 := by decide
  have hchunk : chunk choose "a\n".toList 0 0 = [] := rfl
  simp only [forEachLine]
  rw [show 4 * "a\n".toList.length + 6 = 12 + 1 + 1 from rfl, loop]
  dsimp only
  rw [hnone]
  dsimp only
  rw [if_neg Bool.false_ne_true, if_neg hfull, hcount, hreq, hchunk, loop]
  dsimp only
  -- the read of nothing ends the stream, with an empty window
  have hnone' : ∀ m : Mem Char,
      Mem.memchr m 0 '\n' ((0 : ℤ) + (([] : List Char).length : ℤ) - 0).toNat = none :=
    fun _ => rfl
  rw [hnone']
  dsimp only
  simp only [List.length_nil, Int.sub_zero, ↓reduceIte]
  rw [if_pos (show toInt (0 + ((0 : ℕ) : ℤ)) = 0 by decide)]

/-- So with the test's `StringReader`, which returns all it is asked for, the
    body never sees the line of "a\n". -/
theorem forEachLine_two_pow_32_stringReader :
    lines "a\n".toList = ["a".toList] ∧
      forEachLine (2 ^ 32 + 1) (fun _ r => r) (fun _ _ => true) (fun _ => ' ') "a\n".toList =
        (true, []) :=
  forEachLine_two_pow_32 (fun _ r => r) (fun _ _ => true) (fun _ => ' ')

end ForEachLine

end Gperftools
