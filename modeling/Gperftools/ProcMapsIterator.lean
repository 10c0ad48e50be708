import Mathlib.Data.List.TakeWhile
import Gperftools.Lib.List
import Mathlib.Tactic.IntervalCases

/-!
# Reading and writing a line of `/proc/self/maps`

`ParseProcMapsLine` (base/proc_maps_iterator.cc) reads a line of
`/proc/<pid>/maps` field by field, in place of
`sscanf(text, "%"SCNx64"-%"SCNx64" %4s %"SCNx64" %x:%x %"SCNd64" %n", ...)`.
Each field is cut at its delimiter with `strchr` (`ExtractUntilChar`), read
with `strtoull`, and kept when `strtoull` stopped at the delimiter.
`FormatLine` writes a line of the same shape, with `%08x` fields.

A line is the C string before its `'\0'`, a `List Char`, and a pointer into
it is a position; a position past the end points to the `'\0'`. `strtoull` is
glibc's: leading blanks, a sign, a `0x` prefix in base 16, then the digits,
with `ULLONG_MAX` on overflow; when it converts nothing, its end pointer is
the start of the text.

* `parse_formatLine`: every line `FormatLine` writes, with numbers below
  `2 ^ 64` and a filename that does not begin with a blank, is read back: the
  numbers, the four flag characters it wrote (`formatFlags`), and the offset
  at which the filename begins. It is assembled from one lemma per kind of
  field (`stringToIntegerUntilCharWithCheck_field`,
  `copyStringUntilChar_field`);
* `formatFlags_of_valid`: flags of the form `[r-][w-][x-][p-]` are written as
  they are;
* `parseProcMapsLine_accepts_empty_field`: `FormatLine` writes a shared
  mapping's `s` as `-`, so the flags read back differ; and a line whose start
  field is empty is accepted with start `0`, because `strtoull` on the empty
  field stops where the field ends (`strtoull_nil`), where the `sscanf` it
  stands in for fails.
-/

namespace Gperftools

namespace ProcMapsIterator

/-! ## The C library -/

/-- `isspace` in the "C" locale. -/
def isspace (c : Char) : Bool :=
  c == ' ' || c == '\t' || c == '\n' || c == '\x0b' || c == '\x0c' || c == '\r'

/-- The value of a character as a digit of `strtoull`, in any base up to 36;
    `36` for a character that is no digit. -/
def digitValue (c : Char) : ℕ :=
  if '0' ≤ c ∧ c ≤ '9' then c.toNat - '0'.toNat
  else if 'a' ≤ c ∧ c ≤ 'z' then c.toNat - 'a'.toNat + 10
  else if 'A' ≤ c ∧ c ≤ 'Z' then c.toNat - 'A'.toNat + 10
  else 36

/-- A digit in `base`. -/
def isDigitIn (base : ℕ) (c : Char) : Bool := decide (digitValue c < base)

/-- The number that digits spell, the most significant first. -/
def digitsValue (base : ℕ) (ds : List Char) : ℕ :=
  ds.foldl (fun acc c => acc * base + digitValue c) 0

/-- The characters of a `0x` prefix that `strtoull` skips: in base 16, a `0x`
    or `0X` before a hexadecimal digit. glibc reads a `0x` with no digit after
    it as the number `0`, with its end pointer on the `x`, which is what
    reading the `0` alone gives. -/
def hexPrefix (base : ℕ) : List Char → ℕ
  | z :: x :: d :: _ =>
    if base = 16 ∧ z = '0' ∧ (x = 'x' ∨ x = 'X') ∧ isDigitIn 16 d = true then 2 else 0
  | _ => 0

/-- `strtoull(s, &endptr, base)` on the C string `s`: the value, and the
    number of characters before `endptr`. -/
def strtoull (s : List Char) (base : ℕ) : ℕ × ℕ :=
  let blanks := (s.takeWhile isspace).length
  let t := s.drop blanks
  let negative := t.head? == some '-'
  let sign := if t.head? = some '-' ∨ t.head? = some '+' then 1 else 0
  let t := t.drop sign
  let pre := hexPrefix base t
  let digits := (t.drop pre).takeWhile (isDigitIn base)
  -- no conversion: `endptr` is `s`
  if digits = [] then (0, 0)
  else
    let value := digitsValue base digits
    -- overflow gives `ULLONG_MAX`; a `-` negates in unsigned arithmetic
    (if 2 ^ 64 ≤ value then 2 ^ 64 - 1
      else if negative then (2 ^ 64 - value) % 2 ^ 64 else value,
      blanks + sign + pre + digits.length)

/-! ### Digits -/

theorem digitValue_digitChar {d : ℕ} (hd : d < 16) : digitValue (Nat.digitChar d) = d := by
  interval_cases d <;> rfl

/-- A blank is no digit. -/
theorem digitValue_of_isspace {c : Char} (h : isspace c = true) : digitValue c = 36 := by
  simp only [isspace, Bool.or_eq_true, beq_iff_eq] at h
  rcases h with (((((rfl | rfl) | rfl) | rfl) | rfl) | rfl) <;> rfl

theorem isspace_of_isDigitIn {base : ℕ} {c : Char} (hb : base ≤ 16) (h : isDigitIn base c = true) :
    isspace c = false := by
  rw [isDigitIn, decide_eq_true_eq] at h
  by_contra hc
  rw [digitValue_of_isspace (Bool.eq_true_of_not_eq_false hc)] at h
  omega

theorem isDigitIn_digitChar {base d : ℕ} (hb : base ≤ 16) (hd : d < base) :
    isDigitIn base (Nat.digitChar d) = true := by
  rw [isDigitIn, digitValue_digitChar (by omega)]
  exact decide_eq_true hd

theorem isDigitIn_of_mem_toDigits {base : ℕ} (hb : 1 < base) (hb' : base ≤ 16) :
    ∀ (n : ℕ), ∀ c ∈ Nat.toDigits base n, isDigitIn base c = true := by
  intro n
  induction n using Nat.strong_induction_on with
  | _ n ih =>
    intro c hc
    rw [Nat.toDigits_eq_if hb] at hc
    split at hc
    · rw [List.mem_singleton.mp hc]
      exact isDigitIn_digitChar hb' ‹_›
    · rcases List.mem_append.mp hc with hc | hc
      · exact ih (n / base) (Nat.div_lt_self (by omega) hb) c hc
      · rw [List.mem_singleton.mp hc]
        exact isDigitIn_digitChar hb' (Nat.mod_lt n (by omega))

theorem digitsValue_concat (base : ℕ) (ds : List Char) (c : Char) :
    digitsValue base (ds ++ [c]) = digitsValue base ds * base + digitValue c := by
  rw [digitsValue, List.foldl_append, List.foldl_cons, List.foldl_nil, ← digitsValue]

/-- `Nat.toDigits` is read back by `digitsValue`. -/
theorem digitsValue_toDigits {base : ℕ} (hb : 1 < base) (hb' : base ≤ 16) (n : ℕ) :
    digitsValue base (Nat.toDigits base n) = n := by
  induction n using Nat.strong_induction_on with
  | _ n ih =>
    rw [Nat.toDigits_eq_if hb]
    split
    · rw [digitsValue, List.foldl_cons, List.foldl_nil, digitValue_digitChar (by omega)]
      omega
    · rw [digitsValue_concat, ih (n / base) (Nat.div_lt_self (by omega) hb),
        digitValue_digitChar (Nat.lt_of_lt_of_le (Nat.mod_lt n (by omega)) hb')]
      exact Nat.div_add_mod' n base

/-- Leading zeros add nothing. -/
theorem digitsValue_replicate_zero (base k : ℕ) (ds : List Char) :
    digitsValue base (List.replicate k '0' ++ ds) = digitsValue base ds := by
  have hzeros : ∀ k, (List.replicate k '0').foldl (fun acc c => acc * base + digitValue c) 0 = 0 := by
    intro k
    induction k with
    | zero => rfl
    | succ k ih =>
      rw [List.replicate_succ, List.foldl_cons, Nat.zero_mul, show digitValue '0' = 0 from rfl]
      exact ih
  rw [digitsValue, List.foldl_append, hzeros, ← digitsValue]

/-! ## The parser -/

/-- `ExtractUntilChar(text + p, c, &endptr)`: the position of the first `c`
    from `p` on (`strchr`), `none` for `nullptr`. It also writes a `'\0'`
    there, which every caller puts back. -/
def extractUntilChar (s : List Char) (p : ℕ) (c : Char) : Option ℕ :=
  ((s.drop p).idxOf? c).map (p + ·)

/-- The rounds of `SkipWhileWhitespace`'s loop from the start of `t`: while a
    character and the next are both blanks. -/
def blankRun : List Char → ℕ
  | a :: b :: rest => if isspace a && isspace b then blankRun (b :: rest) + 1 else 0
  | _ => 0

/-- `SkipWhileWhitespace(&p, c)`: when the delimiter `c` is a blank, moves `p`
    to the last blank of the run it starts. -/
def skipWhileWhitespace (s : List Char) (p : ℕ) (c : Char) : ℕ :=
  if isspace c then p + blankRun (s.drop p) else p

/-- `StringToIntegerUntilChar(text + p, base, c, &endptr)`: the value, and
    `endptr` (`none` for `nullptr`). -/
def stringToIntegerUntilChar (s : List Char) (p base : ℕ) (c : Char) : ℕ × Option ℕ :=
  match extractUntilChar s p c with
  | none => (0, none)
  | some q =>
    -- `strtoull` reads the field, which the `'\0'` at `q` ends
    let r := strtoull ((s.drop p).take (q - p)) base
    if q ≠ p + r.2 then (0, none)
    else (r.1, some (skipWhileWhitespace s q c))

/-- `CopyStringUntilChar(text + p, out_len, c, out)`: the C string `out` holds
    after `strncpy` and `out[out_len - 1] = '\0'`, and the end pointer. -/
def copyStringUntilChar (s : List Char) (p outLen : ℕ) (c : Char) :
    Option (List Char × ℕ) :=
  match extractUntilChar s p c with
  | none => none
  | some q => some (((s.drop p).take (q - p)).take (outLen - 1), skipWhileWhitespace s q c)

/-- `StringToIntegerUntilCharWithCheck(&out, text + p, base, c, &endptr)`: the
    value and the position after the delimiter, `none` when it returns
    `false`. -/
def stringToIntegerUntilCharWithCheck (s : List Char) (p base : ℕ) (c : Char) :
    Option (ℕ × ℕ) :=
  match stringToIntegerUntilChar s p base c with
  | (_, none) => none
  -- `**endptr == '\0'`
  | (value, some e) => if s.length ≤ e then none else some (value, e + 1)

/-- What `ParseProcMapsLine` writes through its pointers (`endAddr` is
    `end`). -/
structure ProcMapsLine where
  start : ℕ
  endAddr : ℕ
  flags : List Char
  offset : ℕ
  inode : ℕ
  filenameOffset : ℕ
  deriving DecidableEq, Repr

/-- `ParseProcMapsLine(text, ...)` on the line `s`: what it writes, `none`
    when it returns `false`. -/
def parseProcMapsLine (s : List Char) : Option ProcMapsLine :=
  if s = [] then none else do
  let (start, p) ← stringToIntegerUntilCharWithCheck s 0 16 '-'
  let (endAddr, p) ← stringToIntegerUntilCharWithCheck s p 16 ' '
  let (flags, p) ← copyStringUntilChar s p 5 ' '
  if s.length ≤ p then none else do
  let (offset, p) ← stringToIntegerUntilCharWithCheck s (p + 1) 16 ' '
  -- the device's major and minor numbers are read and dropped
  let (_, p) ← stringToIntegerUntilCharWithCheck s p 16 ':'
  let (_, p) ← stringToIntegerUntilCharWithCheck s p 16 ' '
  let (inode, p) ← stringToIntegerUntilCharWithCheck s p 10 ' '
  -- `*filename_offset` is an `unsigned`
  pure ⟨start, endAddr, flags, offset, inode, p % 2 ^ 32⟩

/-! ### Reading a field

A field is read in place: the line from the field on is the field `ds`, its
delimiter `c`, and the rest of the line. -/

section Field

variable {s ds rest : List Char} {p : ℕ} {c : Char}

/-- The line after the delimiter. -/
theorem drop_field (hs : s.drop p = ds ++ c :: rest) : s.drop (p + ds.length + 1) = rest := by
  rw [Nat.add_assoc, ← List.drop_drop, hs, ← List.drop_drop, List.drop_left, List.drop_one,
    List.tail_cons]

theorem drop_delimiter (hs : s.drop p = ds ++ c :: rest) : s.drop (p + ds.length) = c :: rest := by
  rw [← List.drop_drop, hs, List.drop_left]

theorem take_field (hs : s.drop p = ds ++ c :: rest) : (s.drop p).take (p + ds.length - p) = ds := by
  rw [hs, Nat.add_sub_cancel_left, List.take_left]

theorem extractUntilChar_field (hs : s.drop p = ds ++ c :: rest) (hc : c ∉ ds) :
    extractUntilChar s p c = some (p + ds.length) := by
  rw [extractUntilChar, hs, List.idxOf?_append_cons hc]
  rfl

/-- Before a character that is no blank, `SkipWhileWhitespace` stays. -/
theorem skipWhileWhitespace_field {q : ℕ} (hs : s.drop q = c :: rest)
    (hnext : isspace c = true → ∀ a ∈ rest.head?, isspace a = false) :
    skipWhileWhitespace s q c = q := by
  rw [skipWhileWhitespace]
  split_ifs with hblank
  · rw [hs]
    cases rest with
    | nil => rfl
    | cons a rest =>
      rw [blankRun, if_neg (by rw [hnext hblank a rfl, Bool.and_false]; decide), Nat.add_zero]
  · rfl

/-- A field before its delimiter is read by `strtoull` as the field alone. -/
theorem stringToIntegerUntilChar_field {base v : ℕ} (hs : s.drop p = ds ++ c :: rest)
    (hc : c ∉ ds) (hr : strtoull ds base = (v, ds.length)) :
    stringToIntegerUntilChar s p base c = (v, some (skipWhileWhitespace s (p + ds.length) c)) := by
  rw [stringToIntegerUntilChar, extractUntilChar_field hs hc]
  dsimp only
  rw [take_field hs, hr, if_neg (not_not.mpr rfl)]

theorem stringToIntegerUntilCharWithCheck_field {base v : ℕ} (hs : s.drop p = ds ++ c :: rest)
    (hc : c ∉ ds) (hr : strtoull ds base = (v, ds.length))
    (hnext : isspace c = true → ∀ a ∈ rest.head?, isspace a = false) :
    stringToIntegerUntilCharWithCheck s p base c = some (v, p + ds.length + 1) := by
  have hq := drop_delimiter hs
  -- the delimiter is a character of the line, not its `'\0'`
  have hlen : p + ds.length < s.length := by
    have h := congrArg List.length hq
    rw [List.length_drop, List.length_cons] at h
    omega
  rw [stringToIntegerUntilCharWithCheck, stringToIntegerUntilChar_field hs hc hr,
    skipWhileWhitespace_field hq hnext]
  exact if_neg (Nat.not_le.mpr hlen)

theorem copyStringUntilChar_field (outLen : ℕ) (hs : s.drop p = ds ++ c :: rest) (hc : c ∉ ds)
    (hnext : isspace c = true → ∀ a ∈ rest.head?, isspace a = false) :
    copyStringUntilChar s p outLen c = some (ds.take (outLen - 1), p + ds.length) := by
  rw [copyStringUntilChar, extractUntilChar_field hs hc]
  dsimp only
  rw [take_field hs, skipWhileWhitespace_field (drop_delimiter hs) hnext]

end Field

/-! ### Reading a number -/

/-- A digit of a base up to 16 is none of the characters that are no digit
    there. -/
theorem ne_of_isDigitIn {base : ℕ} {a c : Char} (hb : base ≤ 16) (ha : isDigitIn base a = true)
    (hc : 16 ≤ digitValue c) : a ≠ c := by
  rintro rfl
  rw [isDigitIn, decide_eq_true_eq] at ha
  omega

/-- A `0x` prefix needs an `x`, which is no digit. -/
theorem hexPrefix_of_digits {base : ℕ} (hb : base ≤ 16) :
    ∀ {t : List Char}, (∀ a ∈ t, isDigitIn base a = true) → hexPrefix base t = 0
  | [], _ | [_], _ | [_, _], _ => rfl
  | z :: x :: d :: t, ht => by
    have hx := ht x (List.mem_cons_of_mem _ List.mem_cons_self)
    rw [hexPrefix, if_neg]
    rintro ⟨-, -, rfl | rfl, -⟩ <;> exact ne_of_isDigitIn hb hx (by decide) rfl

/-- `strtoull` on a field of digits reads all of them. -/
theorem strtoull_digits {base : ℕ} {ds : List Char} (hb : base ≤ 16) (hne : ds ≠ [])
    (hds : ∀ a ∈ ds, isDigitIn base a = true) (hv : digitsValue base ds < 2 ^ 64) :
    strtoull ds base = (digitsValue base ds, ds.length) := by
  obtain ⟨d, ds', rfl⟩ := List.exists_cons_of_ne_nil hne
  have hd := hds d List.mem_cons_self
  -- the first digit is no blank and no sign
  have hblank : (d :: ds').takeWhile isspace = [] := by
    rw [List.takeWhile_cons_of_neg (by rw [isspace_of_isDigitIn hb hd]; decide)]
  have hminus : d ≠ '-' := ne_of_isDigitIn hb hd (by decide)
  have hplus : d ≠ '+' := ne_of_isDigitIn hb hd (by decide)
  simp only [strtoull, hblank, List.length_nil, List.drop_zero, List.head?_cons,
    Option.some_inj, hminus, hplus, or_self, if_false, hexPrefix_of_digits hb hds,
    List.takeWhile_eq_self_iff.mpr hds, hne, if_neg (Nat.not_le.mpr hv)]
  simp [hminus]

/-- A numeric field as `strtoull` reads all of it: digits of `base`, and a
    value that fits in 64 bits. -/
structure IsNumber (base : ℕ) (ds : List Char) : Prop where
  ne_nil : ds ≠ []
  digits : ∀ a ∈ ds, isDigitIn base a = true
  value_lt : digitsValue base ds < 2 ^ 64

section Number

variable {base : ℕ} {s ds rest : List Char} {p : ℕ} {c : Char}

theorem IsNumber.not_mem (hn : IsNumber base ds) (hc : isDigitIn base c = false) : c ∉ ds :=
  fun h => Bool.false_ne_true (hc.symm.trans (hn.digits c h))

/-- A number begins with no blank. -/
theorem IsNumber.head (hn : IsNumber base ds) (hb : base ≤ 16) (rest : List Char) :
    ∀ a ∈ (ds ++ rest).head?, isspace a = false := by
  obtain ⟨d, ds', hcons⟩ := List.exists_cons_of_ne_nil hn.ne_nil
  intro a ha
  rw [hcons, List.cons_append, List.head?_cons, Option.mem_def, Option.some_inj] at ha
  rw [← ha]
  exact isspace_of_isDigitIn hb (hn.digits d (hcons ▸ List.mem_cons_self))

/-- A number before a delimiter that is no digit is read to its value. -/
theorem IsNumber.read (hn : IsNumber base ds) (hb : base ≤ 16) (hs : s.drop p = ds ++ c :: rest)
    (hc : isDigitIn base c = false)
    (hnext : isspace c = true → ∀ a ∈ rest.head?, isspace a = false) :
    stringToIntegerUntilCharWithCheck s p base c = some (digitsValue base ds, p + ds.length + 1) :=
  stringToIntegerUntilCharWithCheck_field hs (hn.not_mem hc)
    (strtoull_digits hb hn.ne_nil hn.digits hn.value_lt) hnext

end Number

/-- `ParseProcMapsLine` on a line of seven fields: six numbers, and flags of
    at most four characters, none a blank, each field before its delimiter
    and a single blank. It returns the numbers, the flags, and the position
    after the inode's blank. -/
theorem parseProcMapsLine_eq {s a b f o mj mn i filename : List Char}
    (hs : s = a ++ '-' :: (b ++ ' ' :: (f ++ ' ' :: (o ++ ' ' :: (mj ++ ':' ::
      (mn ++ ' ' :: (i ++ ' ' :: filename)))))))
    (ha : IsNumber 16 a) (hb : IsNumber 16 b) (ho : IsNumber 16 o) (hmj : IsNumber 16 mj)
    (hmn : IsNumber 16 mn) (hi : IsNumber 10 i) (hf : f ≠ []) (hf4 : f.length ≤ 4)
    (hfb : ∀ x ∈ f, isspace x = false) (hname : ∀ x ∈ filename.head?, isspace x = false) :
    parseProcMapsLine s = some ⟨digitsValue 16 a, digitsValue 16 b, f, digitsValue 16 o,
      digitsValue 10 i,
      (a.length + b.length + f.length + o.length + mj.length + mn.length + i.length + 7) % 2 ^ 32⟩ := by
  -- the fields in turn, each read where the one before it left off
  have h0 := (show s.drop 0 = s from List.drop_zero).trans hs
  have r0 := ha.read (by decide) h0 (by decide) (fun h => absurd h (by decide))
  have h1 := drop_field h0
  have hfhead : ∀ x ∈ (f ++ ' ' :: (o ++ ' ' :: (mj ++ ':' :: (mn ++ ' ' :: (i ++ ' ' ::
      filename))))).head?, isspace x = false := by
    obtain ⟨x, f', rfl⟩ := List.exists_cons_of_ne_nil hf
    intro y hy
    rw [List.cons_append, List.head?_cons, Option.mem_def, Option.some_inj] at hy
    exact hy ▸ hfb x List.mem_cons_self
  have r1 := hb.read (by decide) h1 (by decide) fun _ => hfhead
  have h2 := drop_field h1
  have r2 := copyStringUntilChar_field 5 h2
    (fun h => absurd (hfb ' ' h) (by decide)) fun _ => ho.head (by decide) _
  have h3 := drop_field h2
  have r3 := ho.read (by decide) h3 (by decide) fun _ => hmj.head (by decide) _
  have h4 := drop_field h3
  have r4 := hmj.read (by decide) h4 (by decide) (fun h => absurd h (by decide))
  have h5 := drop_field h4
  have r5 := hmn.read (by decide) h5 (by decide) fun _ => hi.head (by decide) _
  have h6 := drop_field h5
  have r6 := hi.read (by decide) h6 (by decide) fun _ => hname
  -- after the flags, `*endptr` is their blank, not the end of the line
  have hflags : ¬ s.length ≤ 0 + a.length + 1 + b.length + 1 + f.length := by
    have h := congrArg List.length (drop_delimiter h2)
    rw [List.length_drop, List.length_cons] at h
    omega
  have hne : s ≠ [] := by
    rw [hs]
    exact List.append_ne_nil_of_right_ne_nil a (List.cons_ne_nil _ _)
  rw [parseProcMapsLine, if_neg hne]
  simp only [r0, r1, r2, Option.bind_eq_bind, Option.bind_some, if_neg hflags, r3, r4, r5, r6,
    List.take_of_length_le hf4]
  congr 3
  omega

/-! ## The formatter -/

/-- `%0<width>x`: `n` in lowercase hexadecimal, with `0`s in front up to
    `width` digits. -/
def hexField (width n : ℕ) : List Char :=
  List.replicate (width - (Nat.toDigits 16 n).length) '0' ++ Nat.toDigits 16 n

/-- The four flag characters `FormatLine` writes for the C string `flags`. -/
def formatFlags (flags : List Char) : List Char :=
  -- `flags[i]`, the `'\0'` that ends the string included
  let f := fun i => flags.getD i '\x00'
  let r := if f 0 = 'r' then 'r' else '-'
  let w := if f 0 ≠ '\x00' ∧ f 1 = 'w' then 'w' else '-'
  let x := if f 0 ≠ '\x00' ∧ f 1 ≠ '\x00' ∧ f 2 = 'x' then 'x' else '-'
  -- "p always seems set on linux, so we set the default to 'p', not '-'"
  let p := if f 0 ≠ '\x00' ∧ f 1 ≠ '\x00' ∧ f 2 ≠ '\x00' ∧ f 3 ≠ 'p' then '-' else 'p'
  [r, w, x, p]

/-- `FormatLine(writer, start, end, flags, offset, inode, filename, dev)`: the
    text it appends: the `AppendF` of the fields, then `filename` and `"\n"`.
    `dev / 256` and `dev % 256` go through `int` to `%02x`. -/
def formatLine (start endAddr : ℕ) (flags : List Char) (offset inode : ℕ)
    (filename : List Char) (dev : ℕ) : List Char :=
  (hexField 8 start ++ '-' :: (hexField 8 endAddr ++ ' ' :: (formatFlags flags ++ ' ' ::
    (hexField 8 offset ++ ' ' :: (hexField 2 (dev / 256 % 2 ^ 32) ++ ':' ::
    (hexField 2 (dev % 256) ++ ' ' :: (Nat.toDigits 10 inode ++ [' '])))))) ++ filename) ++
    ['\n']

theorem hexField_ne_nil (width n : ℕ) : hexField width n ≠ [] := by
  simp [hexField]

theorem isDigitIn_hexField (width n : ℕ) : ∀ c ∈ hexField width n, isDigitIn 16 c = true := by
  intro c hc
  rcases List.mem_append.mp hc with hc | hc
  · rw [List.eq_of_mem_replicate hc]
    rfl
  · exact isDigitIn_of_mem_toDigits (by decide) le_rfl n c hc

theorem digitsValue_hexField (width n : ℕ) : digitsValue 16 (hexField width n) = n := by
  rw [hexField, digitsValue_replicate_zero, digitsValue_toDigits (by decide) le_rfl]

theorem length_hexField_le {width n k : ℕ} (hw : width ≤ k) (hn : n < 16 ^ k) (hk : 0 < k) :
    (hexField width n).length ≤ k := by
  have hdigits := (Nat.length_toDigits_le_iff (by decide : 1 < 16) hk).mpr hn
  rw [hexField, List.length_append, List.length_replicate]
  omega

theorem isNumber_toDigits {base n : ℕ} (hb : 1 < base) (hb' : base ≤ 16) (hn : n < 2 ^ 64) :
    IsNumber base (Nat.toDigits base n) :=
  ⟨Nat.toDigits_ne_nil, isDigitIn_of_mem_toDigits hb hb' n,
    (digitsValue_toDigits hb hb' n).symm ▸ hn⟩

theorem isNumber_hexField (width : ℕ) {n : ℕ} (hn : n < 2 ^ 64) : IsNumber 16 (hexField width n) :=
  ⟨hexField_ne_nil width n, isDigitIn_hexField width n, (digitsValue_hexField width n).symm ▸ hn⟩

theorem length_formatFlags (flags : List Char) : (formatFlags flags).length = 4 := rfl

/-- `FormatLine` writes no blank among the flags. -/
theorem isspace_formatFlags (flags : List Char) : ∀ x ∈ formatFlags flags, isspace x = false := by
  intro x hx
  simp only [formatFlags, List.mem_cons, List.not_mem_nil, or_false] at hx
  rcases hx with rfl | rfl | rfl | rfl <;> split_ifs <;> decide

/-- Flags of the form `[r-][w-][x-][p-]` are written as they are. -/
theorem formatFlags_of_valid {r w x p : Char} (hr : r = 'r' ∨ r = '-') (hw : w = 'w' ∨ w = '-')
    (hx : x = 'x' ∨ x = '-') (hp : p = 'p' ∨ p = '-') : formatFlags [r, w, x, p] = [r, w, x, p] := by
  rcases hr with rfl | rfl <;> rcases hw with rfl | rfl <;> rcases hx with rfl | rfl <;>
    rcases hp with rfl | rfl <;> rfl

/-- A shared mapping's `s` is written as `-`. -/
theorem formatFlags_shared {r w x : Char} (hr : r = 'r' ∨ r = '-') (hw : w = 'w' ∨ w = '-')
    (hx : x = 'x' ∨ x = '-') : formatFlags [r, w, x, 's'] = [r, w, x, '-'] := by
  rcases hr with rfl | rfl <;> rcases hw with rfl | rfl <;> rcases hx with rfl | rfl <;> rfl

/-! ## Reading back what `FormatLine` writes -/

/-- The line `FormatLine` writes, without its newline, field by field. -/
theorem dropLast_formatLine (start endAddr : ℕ) (flags : List Char) (offset inode : ℕ)
    (filename : List Char) (dev : ℕ) :
    (formatLine start endAddr flags offset inode filename dev).dropLast =
      hexField 8 start ++ '-' :: (hexField 8 endAddr ++ ' ' :: (formatFlags flags ++ ' ' ::
        (hexField 8 offset ++ ' ' :: (hexField 2 (dev / 256 % 2 ^ 32) ++ ':' ::
        (hexField 2 (dev % 256) ++ ' ' :: (Nat.toDigits 10 inode ++ ' ' :: filename)))))) := by
  rw [formatLine, List.dropLast_concat]
  simp only [List.append_assoc, List.cons_append, List.nil_append]

/-- `ParseProcMapsLine` reads back every line `FormatLine` writes for 64-bit
    numbers and a filename that does not begin with a blank: the numbers, the
    flags as written, and the offset at which the filename begins. -/
theorem parse_formatLine {start endAddr offset inode : ℕ} (hstart : start < 2 ^ 64)
    (hend : endAddr < 2 ^ 64) (hoffset : offset < 2 ^ 64) (hinode : inode < 2 ^ 64)
    (flags filename : List Char) (dev : ℕ) (hname : ∀ x ∈ filename.head?, isspace x = false) :
    ∃ n, parseProcMapsLine (formatLine start endAddr flags offset inode filename dev).dropLast =
        some ⟨start, endAddr, formatFlags flags, offset, inode, n⟩ ∧
      (formatLine start endAddr flags offset inode filename dev).drop n = filename ++ ['\n'] := by
  have hmajor : dev / 256 % 2 ^ 32 < 2 ^ 64 := by omega
  have hminor : dev % 256 < 2 ^ 64 := by omega
  have hparse := parseProcMapsLine_eq (dropLast_formatLine start endAddr flags offset inode filename dev)
    (isNumber_hexField 8 hstart) (isNumber_hexField 8 hend) (isNumber_hexField 8 hoffset)
    (isNumber_hexField 2 hmajor) (isNumber_hexField 2 hminor)
    (isNumber_toDigits (by decide) (by decide) hinode)
    (List.ne_nil_of_length_pos (by rw [length_formatFlags]; decide))
    (length_formatFlags flags).le (isspace_formatFlags flags) hname
  rw [digitsValue_hexField, digitsValue_hexField, digitsValue_hexField,
    digitsValue_toDigits (by decide) (by decide)] at hparse
  -- the fields are short, so the offset of the filename fits in an `unsigned`
  have hpow : (2 : ℕ) ^ 64 = 16 ^ 16 := by norm_num
  have l0 : (hexField 8 start).length ≤ 16 := length_hexField_le (by decide) (hpow ▸ hstart) (by decide)
  have l1 : (hexField 8 endAddr).length ≤ 16 := length_hexField_le (by decide) (hpow ▸ hend) (by decide)
  have l2 : (hexField 8 offset).length ≤ 16 :=
    length_hexField_le (by decide) (hpow ▸ hoffset) (by decide)
  have l3 : (hexField 2 (dev / 256 % 2 ^ 32)).length ≤ 8 :=
    length_hexField_le (by decide) (Nat.mod_lt _ (by decide)) (by decide)
  have l4 : (hexField 2 (dev % 256)).length ≤ 2 :=
    length_hexField_le le_rfl (Nat.mod_lt _ (by decide)) (by decide)
  have l5 : (Nat.toDigits 10 inode).length ≤ 20 :=
    (Nat.length_toDigits_le_iff (by decide) (by decide)).mpr
      (hinode.trans (by norm_num : (2 : ℕ) ^ 64 < 10 ^ 20))
  refine ⟨_, hparse, ?_⟩
  rw [Nat.mod_eq_of_lt (by rw [length_formatFlags]; omega), formatLine, List.append_assoc,
    List.drop_left']
  simp only [List.length_append, List.length_cons, length_formatFlags, List.length_nil]
  omega

/-- For flags of the form `[r-][w-][x-][p-]`, the flags read back are the
    flags given. -/
theorem parse_formatLine_of_valid {start endAddr offset inode : ℕ} {r w x p : Char}
    (hstart : start < 2 ^ 64) (hend : endAddr < 2 ^ 64) (hoffset : offset < 2 ^ 64)
    (hinode : inode < 2 ^ 64) (hr : r = 'r' ∨ r = '-') (hw : w = 'w' ∨ w = '-')
    (hx : x = 'x' ∨ x = '-') (hp : p = 'p' ∨ p = '-') (filename : List Char) (dev : ℕ)
    (hname : ∀ c ∈ filename.head?, isspace c = false) :
    ∃ n, parseProcMapsLine (formatLine start endAddr [r, w, x, p] offset inode filename dev).dropLast =
        some ⟨start, endAddr, [r, w, x, p], offset, inode, n⟩ ∧
      (formatLine start endAddr [r, w, x, p] offset inode filename dev).drop n =
        filename ++ ['\n'] := by
  obtain ⟨n, hparse, hdrop⟩ := parse_formatLine hstart hend hoffset hinode [r, w, x, p] filename dev hname
  rw [formatFlags_of_valid hr hw hx hp] at hparse
  exact ⟨n, hparse, hdrop⟩

/-- Where the parser and the formatter disagree. A line whose start field is
    empty is accepted, with start `0`: `strtoull` on the empty field converts
    nothing and leaves its end pointer at the `'\0'` that `ExtractUntilChar`
    put on the `-`, which is the check `StringToIntegerUntilChar` makes; the
    `%x` of `sscanf` fails there. And every line `FormatLine` writes for a
    shared mapping, flags `[r-][w-][x-]s`, is read back with `-` for the `s`. -/
theorem parseProcMapsLine_formatLine_disagree :
    parseProcMapsLine "-00001000 r-xp 00000000 00:00 0 x".toList =
        some ⟨0, 0x1000, "r-xp".toList, 0, 0, 32⟩ ∧
      ∀ (start endAddr offset inode : ℕ) (r w x : Char) (filename : List Char),
        start < 2 ^ 64 → endAddr < 2 ^ 64 → offset < 2 ^ 64 → inode < 2 ^ 64 →
        (r = 'r' ∨ r = '-') → (w = 'w' ∨ w = '-') → (x = 'x' ∨ x = '-') →
        (∀ c ∈ filename.head?, isspace c = false) →
        ∃ n, parseProcMapsLine (formatLine start endAddr [r, w, x, 's'] offset inode filename 0).dropLast =
          some ⟨start, endAddr, [r, w, x, '-'], offset, inode, n⟩ := by
  refine ⟨by decide, ?_⟩
  intro start endAddr offset inode r w x filename hstart hend hoffset hinode hr hw hx hname
  obtain ⟨n, hparse, -⟩ := parse_formatLine hstart hend hoffset hinode [r, w, x, 's'] filename 0 hname
  rw [formatFlags_shared hr hw hx] at hparse
  exact ⟨n, hparse⟩

end ProcMapsIterator

end Gperftools
