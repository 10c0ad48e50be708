import Gperftools.ProcMapsIterator
import Gperftools.ForEachLine

/-!
# Iterating over `/proc/self/maps`

On Linux, `DoForEachProcMapping` is `DoIterateLinux("/proc/self/maps", ...)`
(base/proc_maps_iterator.cc). It reads the file through `ForEachLine<1024>`,
and parses each line with `ParseProcMapsLine`. For a line that parses, it
gives the body a `ProcMapping`: the numbers, the flags copied into
`flags_tmp`, and the filename, read in place from where the parser says it
begins to the `'\0'` that `ForEachLine` put on the newline. A line that does
not parse makes the body of `ForEachLine` return false, which ends the loop
with `true`. `SaveProcSelfMaps` writes what `ForEachProcMapping` gives as
`FormatLine` lines.

The file is its text, `none` where `open` fails; the reader returns it in
chunks of any sizes (`ForEachLine.chunk`). A line is read as the C string it
starts: up to its first `'\0'`.

* `doIterateLinux_eq_parseLines`: however the reader chunks the file,
  `DoIterateLinux` gives the body the mappings of the lines, in order, up to
  the first line the parser rejects, where it stops and still returns `true`;
  a line of more than `1022` bytes before that makes it return `false`
  (`parseLines`);
* `doIterateLinux_saveProcSelfMaps`: the text `SaveProcSelfMaps` writes for
  mappings with 64-bit numbers, flags of the form `[r-][w-][x-][p-]`, a
  filename with no newline and no blank first, and lines that fit the buffer,
  is read back as the same mappings.
-/

namespace Gperftools

namespace ProcMapsIterator

/-- `ProcMapping` (base/proc_maps_iterator.h), with the C strings `flags` and
    `filename` as their characters. -/
structure ProcMapping where
  start : ℕ
  endAddr : ℕ
  flags : List Char
  offset : ℕ
  inode : ℕ
  filename : List Char
  deriving DecidableEq, Repr

/-- The C string at the start of a line: up to its first `'\0'`. -/
def cString (line : List Char) : List Char := line.takeWhile (· != '\x00')

/-- The mapping `DoIterateLinux` fills for a line `ParseProcMapsLine`
    accepted: the filename is `line_start + filename_offset`. -/
def mappingOf (line : List Char) (m : ProcMapsLine) : ProcMapping :=
  ⟨m.start, m.endAddr, m.flags, m.offset, m.inode, line.drop m.filenameOffset⟩

/-- `DoIterateLinux(path, body, arg)` on a file that holds `file`, through a
    reader that returns `choose i r` bytes at its `i`-th call, and a buffer
    that holds `buf` at first: what it returns, and the mappings it gives the
    body, in order. -/
def doIterateLinux (choose : ℕ → ℕ → ℕ) (buf : Mem Char) : Option (List Char) → Bool × List ProcMapping
  -- `open` failed
  | none => (false, [])
  | some S =>
    let r := ForEachLine.forEachLine 1024 choose
      (fun _ line => (parseProcMapsLine (cString line)).isSome) buf S
    (r.1, r.2.filterMap fun line => (parseProcMapsLine (cString line)).map (mappingOf (cString line)))

/-- `SaveProcSelfMaps(writer)`: the text it appends, a `FormatLine` line with
    `dev` `0` for each mapping `ForEachProcMapping` gives. -/
def saveProcSelfMaps (ms : List ProcMapping) : List Char :=
  ms.flatMap fun m => formatLine m.start m.endAddr m.flags m.offset m.inode m.filename 0

/-! ## What the iteration gives -/

/-- What `DoIterateLinux` does with the lines of a file: the mappings of the
    lines in order, until a line that `ParseProcMapsLine` rejects, which ends
    the iteration with `true`, or a line longer than the `1022` bytes
    `ForEachLine<1024>` holds, which fails. -/
def parseLines : List (List Char) → Bool × List ProcMapping
  | [] => (true, [])
  | l :: ls =>
    if 1022 < l.length then (false, [])
    else
      match parseProcMapsLine (cString l) with
      | none => (true, [])
      | some m => ((parseLines ls).1, mappingOf (cString l) m :: (parseLines ls).2)

/-- The lines the body of `ForEachLine` is given, less the one it rejected,
    are those `parseLines` parses. -/
theorem deliver_parse (i : ℕ) (ls : List (List Char)) :
    ((ForEachLine.deliver 1024 (fun _ line => (parseProcMapsLine (cString line)).isSome) i ls).1,
      (ForEachLine.deliver 1024 (fun _ line => (parseProcMapsLine (cString line)).isSome) i ls).2.filterMap
        fun line => (parseProcMapsLine (cString line)).map (mappingOf (cString line))) =
      parseLines ls := by
  induction ls generalizing i with
  | nil => rfl
  | cons l ls ih =>
    rw [ForEachLine.deliver, parseLines, show 1024 - 2 = 1022 from rfl]
    by_cases hlong : 1022 < l.length
    · simp only [hlong, if_true]
      rfl
    · simp only [hlong, if_false]
      -- the body takes the line exactly when it parses
      cases hparse : parseProcMapsLine (cString l) with
      | none => simp [hparse]
      | some m =>
        simp only [hparse, Option.isSome_some, if_true, List.filterMap_cons, Option.map_some]
        rw [← ih (i + 1)]

/-- The state `ForEachLine` starts in keeps its invariant, and its measure is
    below the fuel the loop is given. -/
theorem forEachLine_init (B : ℕ) (hB : 2 ≤ B) (buf : Mem Char) (S : List Char) :
    ForEachLine.Inv B ⟨buf, 0, 0, false, S, 0, []⟩ ∧
      ForEachLine.State.measure ⟨buf, 0, 0, false, S, 0, []⟩ < 4 * S.length + 6 := by
  refine ⟨{ sbuf_nonneg := Int.le_refl 0
            sbuf_le := Int.le_refl 0
            ebuf_le := show (0 : ℤ) ≤ (B : ℤ) - 1 by omega
            rest_eof := fun h => absurd h Bool.false_ne_true
            room_eof := fun h => absurd h Bool.false_ne_true }, ?_⟩
  have htext : ForEachLine.State.text ⟨buf, 0, 0, false, S, 0, []⟩ = S := rfl
  have := ForEachLine.lineBytes_linesFrom_le S []
  simp only [ForEachLine.State.measure, htext, ForEachLine.lines, List.length_nil, Bool.false_eq_true,
    false_and, ↓reduceIte] at this ⊢
  omega

/-- `DoIterateLinux` over every file, however the reader chunks it: the
    mappings of its lines, in order, until a line `ParseProcMapsLine`
    rejects, where it stops and still returns `true`; a line of more than
    `1022` bytes before that makes it return `false`, with the mappings of
    the lines before it. -/
theorem doIterateLinux_eq_parseLines (choose : ℕ → ℕ → ℕ) (buf : Mem Char) (S : List Char) :
    doIterateLinux choose buf (some S) = parseLines (ForEachLine.lines S) := by
  obtain ⟨hinit, hμ⟩ := forEachLine_init 1024 (by decide) buf S
  have h := ForEachLine.loop_eq choose (fun _ line => (parseProcMapsLine (cString line)).isSome)
    (by decide) (by decide) _ _ hinit hμ
  have htext : ForEachLine.State.text ⟨buf, 0, 0, false, S, 0, []⟩ = S := rfl
  rw [htext] at h
  simp only [List.nil_append, List.length_nil] at h
  rw [← deliver_parse 0]
  simp only [doIterateLinux, ForEachLine.forEachLine, Prod.mk.injEq] at h ⊢
  rw [h.1, h.2]
  exact ⟨rfl, rfl⟩

/-! ## Reading back what `SaveProcSelfMaps` writes -/

/-- A mapping `SaveProcSelfMaps` writes and `DoIterateLinux` reads back as it
    was. -/
structure ProcMapping.Plain (m : ProcMapping) : Prop where
  /-- The numbers are 64-bit. -/
  start_lt : m.start < 2 ^ 64
  end_lt : m.endAddr < 2 ^ 64
  offset_lt : m.offset < 2 ^ 64
  inode_lt : m.inode < 2 ^ 64
  /-- The flags are of the form `[r-][w-][x-][p-]`. -/
  flags : ∃ r w x p, m.flags = [r, w, x, p] ∧ (r = 'r' ∨ r = '-') ∧ (w = 'w' ∨ w = '-') ∧
    (x = 'x' ∨ x = '-') ∧ (p = 'p' ∨ p = '-')
  /-- The filename is a C string on one line, with no blank first. -/
  filename_newline : '\n' ∉ m.filename
  filename_nul : '\x00' ∉ m.filename
  filename_head : ∀ c ∈ m.filename.head?, isspace c = false
  /-- The line, its newline included, fits the buffer of `ForEachLine<1024>`
      less the byte it keeps free. -/
  fits : (formatLine m.start m.endAddr m.flags m.offset m.inode m.filename 0).length ≤ 1023

/-- `FormatLine` writes its flags as letters or `-`. -/
theorem formatFlags_printable (flags : List Char) :
    ∀ c ∈ formatFlags flags, c ≠ '\n' ∧ c ≠ '\x00' := by
  intro c hc
  simp only [formatFlags, List.mem_cons, List.not_mem_nil, or_false] at hc
  rcases hc with rfl | rfl | rfl | rfl <;> split_ifs <;> decide

/-- The characters `FormatLine` writes before the filename are digits,
    flags and separators: no newline and no `'\0'`. -/
theorem mem_formatLine {start endAddr offset inode : ℕ} {flags filename : List Char} {dev : ℕ}
    {c : Char} (hc : c ∈ (formatLine start endAddr flags offset inode filename dev).dropLast) :
    c ∈ filename ∨ (c ≠ '\n' ∧ c ≠ '\x00') := by
  -- a digit in a base up to `16` is neither
  have hdigit : ∀ {base}, isDigitIn base c = true → base ≤ 16 → c ≠ '\n' ∧ c ≠ '\x00' := by
    intro base hd hb
    constructor <;> rintro rfl
    · rw [isDigitIn, show digitValue '\n' = 36 by decide, decide_eq_true_iff] at hd
      omega
    · rw [isDigitIn, show digitValue '\x00' = 36 by decide, decide_eq_true_iff] at hd
      omega
  rw [dropLast_formatLine] at hc
  simp only [List.mem_append, List.mem_cons] at hc
  rcases hc with h | rfl | h | rfl | h | rfl | h | rfl | h | rfl | h | rfl | h | rfl | h
  all_goals first
    | exact .inl h
    | exact .inr (hdigit (isDigitIn_hexField _ _ c h) le_rfl)
    | exact .inr (hdigit (isDigitIn_of_mem_toDigits (by decide) (by decide) _ c h) (by decide))
    | exact .inr (formatFlags_printable flags c h)
    | exact .inr ⟨by decide, by decide⟩

/-- A mapping of plain form is written as a line that `DoIterateLinux` parses
    back into it. -/
theorem ProcMapping.Plain.parse {m : ProcMapping} (hm : m.Plain) :
    let line := (formatLine m.start m.endAddr m.flags m.offset m.inode m.filename 0).dropLast
    line.length ≤ 1022 ∧ '\n' ∉ line ∧ cString line = line ∧
      ∃ pm, parseProcMapsLine line = some pm ∧ mappingOf line pm = m := by
  intro line
  obtain ⟨r, w, x, p, hflags, hr, hw, hx, hp⟩ := hm.flags
  have hnot : ∀ c ∈ line, c ≠ '\n' ∧ c ≠ '\x00' := fun c hc => by
    rcases mem_formatLine hc with h | h
    · exact ⟨fun hn => hm.filename_newline (hn ▸ h), fun hn => hm.filename_nul (hn ▸ h)⟩
    · exact h
  refine ⟨by rw [List.length_dropLast]; have := hm.fits; omega,
    fun h => (hnot _ h).1 rfl, List.takeWhile_eq_self_iff.mpr fun c hc => by simpa using (hnot c hc).2, ?_⟩
  obtain ⟨n, hparse, hdrop⟩ := parse_formatLine_of_valid hm.start_lt hm.end_lt hm.offset_lt hm.inode_lt
    hr hw hx hp m.filename 0 hm.filename_head
  rw [← hflags] at hparse hdrop
  refine ⟨_, hparse, ?_⟩
  -- the filename runs from where the parser says it begins to the end of the line
  have hname : line.drop n = m.filename := by
    rw [← List.dropLast_drop_eq_drop_dropLast, hdrop, List.dropLast_concat]
  cases m
  simp only [mappingOf, hname]

/-- A `FormatLine` line ends in its newline. -/
theorem formatLine_eq_dropLast (start endAddr : ℕ) (flags : List Char) (offset inode : ℕ)
    (filename : List Char) (dev : ℕ) :
    formatLine start endAddr flags offset inode filename dev =
      (formatLine start endAddr flags offset inode filename dev).dropLast ++ ['\n'] := by
  unfold formatLine
  rw [List.dropLast_concat]

/-- The lines of the text `SaveProcSelfMaps` writes are its `FormatLine`
    lines, without their newlines. -/
theorem lines_saveProcSelfMaps (ms : List ProcMapping) (hms : ∀ m ∈ ms, m.Plain) :
    ForEachLine.lines (saveProcSelfMaps ms) =
      ms.map fun m => (formatLine m.start m.endAddr m.flags m.offset m.inode m.filename 0).dropLast := by
  induction ms with
  | nil => rfl
  | cons m ms ih =>
    obtain ⟨-, hnl, -, -⟩ := (hms m List.mem_cons_self).parse
    rw [saveProcSelfMaps, List.flatMap_cons, ← saveProcSelfMaps, formatLine_eq_dropLast, List.append_assoc,
      List.singleton_append, ForEachLine.lines, ForEachLine.linesFrom_append_of_not_mem hnl,
      ForEachLine.linesFrom, if_pos rfl, List.nil_append, ← ForEachLine.lines,
      ih fun m' hm' => hms m' (List.mem_cons_of_mem _ hm'), List.map_cons]

/-- `/proc/self/maps` round trip: for mappings with 64-bit numbers, flags of
    the form `[r-][w-][x-][p-]`, a filename with no newline, no `'\0'` and no
    blank first, and lines that fit the buffer of `ForEachLine<1024>`,
    `DoIterateLinux` over the text `SaveProcSelfMaps` writes returns `true`
    and gives the body the same mappings, in order, however the reader
    chunks the text. -/
theorem doIterateLinux_saveProcSelfMaps (choose : ℕ → ℕ → ℕ) (buf : Mem Char) (ms : List ProcMapping)
    (hms : ∀ m ∈ ms, m.Plain) :
    doIterateLinux choose buf (some (saveProcSelfMaps ms)) = (true, ms) := by
  rw [doIterateLinux_eq_parseLines, lines_saveProcSelfMaps ms hms]
  induction ms with
  | nil => rfl
  | cons m ms ih =>
    obtain ⟨hlen, -, hc, pm, hparse, hpm⟩ := (hms m List.mem_cons_self).parse
    rw [List.map_cons, parseLines, if_neg (by omega), hc, hparse]
    dsimp only
    rw [ih fun m' hm' => hms m' (List.mem_cons_of_mem _ hm'), hpm]

/-- A mapping of the C library's text. -/
def libcMapping : ProcMapping :=
  ⟨0x7f0000000000, 0x7f0000021000, ['r', '-', 'x', 'p'], 0x1000, 1234, ['/', 'l', 'i', 'b', 'c', '.', 's', 'o']⟩

theorem doIterateLinux_saveProcSelfMaps_libc :
    (∀ m ∈ [libcMapping], m.Plain) ∧
      doIterateLinux (fun _ _ => 7) (fun _ => ' ') (some (saveProcSelfMaps [libcMapping])) =
        (true, [libcMapping]) := by
  have hplain : ∀ m ∈ [libcMapping], m.Plain := by
    simp only [List.mem_singleton, forall_eq]
    refine ⟨by decide +kernel, by decide +kernel, by decide +kernel, by decide +kernel,
      ⟨'r', '-', 'x', 'p', rfl, by decide⟩, by decide +kernel, by decide +kernel, ?_, by decide +kernel⟩
    intro c hc
    have hhead : libcMapping.filename.head? = some '/' := rfl
    rw [Option.mem_def, hhead, Option.some_inj] at hc
    rw [← hc]
    rfl
  exact ⟨hplain, doIterateLinux_saveProcSelfMaps _ _ _ hplain⟩

end ProcMapsIterator

end Gperftools
