import Gperftools.Lib.List
import Gperftools.Lib.Word

/-!
# The dump of sampled stack traces

`ProduceStackTracesDump` (stack_trace_table.cc) writes stack traces into one
array of words, which `MallocExtension` (malloc_extension.cc) reads back: for
each trace a count of `1`, its size and its depth, then its `depth` program
counters, and a null word after the last. It sizes the array in a first pass
over the traces, with `int` counters, and fills it in a second. The reader
walks the array with `entry += 3 + Depth(entry)` while `Count(entry) != 0`.

The array is a list of slots, `none` where nothing was written; a read of a
slot outside the array, or not written, is a failed read (`none`), as is a
read past the `kMaxStackDepth` program counters a trace holds. The `int`
counters are kept as their 32-bit patterns. The traces are the list that
`next_fn` walks from `head`.

* `produceStackTracesDump_eq`: when `out_len` fits an `int`, every slot of the
  array is written, with the words of `dumpWords`;
* `forEachEntry_eq`: over such an array, the reader's loop runs its body on
  each trace in turn and stops at the null word;
* `dump_round_trip`: `PrintStackEntry` reads back each trace in order, and
  `PrintHeader`'s totals count them and sum their sizes modulo `2 ^ 64`;
  `dump_too_long`: when `out_len` overflows, no dump is made.
-/

namespace Gperftools

namespace StackTraceTable

/-- `kMaxStackDepth` (common.h). -/
def kMaxStackDepth : ℕ := 31

/-- `StackTrace` (common.h): the size of the object, the number of program
    counters stored, and the `kMaxStackDepth` slots that store them. -/
structure StackTrace where
  size : ℕ
  depth : ℕ
  stack : List ℕ
  stack_length : stack.length = kMaxStackDepth

/-! ## The writer -/

/-- The first pass: `depth_total` and `bucket_total`. -/
def countPass : List StackTrace → ℕ → ℕ → ℕ × ℕ
  | [], depthTotal, bucketTotal => (depthTotal, bucketTotal)
  | trace :: traces, depthTotal, bucketTotal =>
    countPass traces (Word.add 32 depthTotal trace.depth) (Word.add 32 bucketTotal 1)

/-- `out_len = bucket_total * 3 + depth_total + 1`, an `int`. -/
def outLen (depthTotal bucketTotal : ℕ) : ℤ := Word.signed 32 (bucketTotal * 3 + depthTotal + 1)

/-- The words the second pass writes for one trace: the count, the size and
    the depth, then `stack[d]` for each `d < depth`. -/
def entryWords (trace : StackTrace) : Option (List ℕ) :=
  ((List.range trace.depth).mapM fun d => trace.stack[d]?).map fun pcs =>
    [1, trace.size, trace.depth] ++ pcs

/-- The second pass: the words of every trace, then the null word. -/
def fillPass : List StackTrace → Option (List ℕ)
  | [] => some [0]
  | trace :: traces => do
    let words ← entryWords trace
    let rest ← fillPass traces
    pure (words ++ rest)

/-- `ProduceStackTracesDump(next_fn, head)`: the `out_len` slots of the
    array. -/
def produceStackTracesDump (traces : List StackTrace) : Option (List (Option ℕ)) :=
  let (depthTotal, bucketTotal) := countPass traces 0 0
  let len := outLen depthTotal bucketTotal
  -- `new void*[out_len]` throws on a negative length
  if len < 0 then none
  else do
    let written ← fillPass traces
    -- a write past the end of the array
    if len.toNat < written.length then none
    else some ((List.range len.toNat).map fun i => written[i]?)

/-! ## The reader -/

/-- The word in slot `p`. -/
def slot (entries : List (Option ℕ)) (p : ℕ) : Option ℕ := entries[p]?.join

/-- `Count(entry)` of the entry at slot `p`. -/
def count (entries : List (Option ℕ)) (p : ℕ) : Option ℕ := slot entries p

/-- `Size(entry)`. -/
def size (entries : List (Option ℕ)) (p : ℕ) : Option ℕ := slot entries (p + 1)

/-- `Depth(entry)`. -/
def depth (entries : List (Option ℕ)) (p : ℕ) : Option ℕ := slot entries (p + 2)

/-- `PC(entry, i)`. -/
def pc (entries : List (Option ℕ)) (p i : ℕ) : Option ℕ := slot entries (p + 3 + i)

/-- The loop of the reader,
    `for (entry = entries; Count(entry) != 0; entry += 3 + Depth(entry))`,
    with `body` run on each entry: with `fuel` rounds at most. -/
def forEachEntry {σ : Type} (entries : List (Option ℕ)) (body : σ → ℕ → Option σ) :
    ℕ → ℕ → σ → Option σ
  | 0, _, _ => none
  | fuel + 1, p, acc => do
    let c ← count entries p
    if c = 0 then pure acc
    else do
      let acc ← body acc p
      let d ← depth entries p
      forEachEntry entries body fuel (p + 3 + d) acc

/-- What `PrintStackEntry` reads of the entry at `p`: its count, its size, its
    depth and its `Depth(entry)` program counters. -/
def readEntry (entries : List (Option ℕ)) (p : ℕ) : Option (ℕ × ℕ × ℕ × List ℕ) := do
  let c ← count entries p
  let s ← size entries p
  let d ← depth entries p
  let pcs ← (List.range d).mapM (pc entries p)
  pure (c, s, d, pcs)

/-- The entries that `GetHeapSample` prints, one `PrintStackEntry` each. -/
def printedEntries (entries : List (Option ℕ)) (fuel : ℕ) : Option (List (ℕ × ℕ × ℕ × List ℕ)) :=
  forEachEntry entries (fun printed p => (readEntry entries p).map (printed ++ [·])) fuel 0 []

/-- The totals of `PrintHeader`: `total_count` and `total_size`, summed as
    `uintptr_t`s. -/
def printHeaderTotals (entries : List (Option ℕ)) (fuel : ℕ) : Option (ℕ × ℕ) :=
  forEachEntry entries (fun totals p => do
    let c ← count entries p
    let s ← size entries p
    pure (Word.add 64 totals.1 c, Word.add 64 totals.2 s)) fuel 0 (0, 0)

/-! ## The words of a dump -/

/-- The words of one trace in the dump. -/
def entryOf (trace : StackTrace) : List ℕ := [1, trace.size, trace.depth] ++ trace.stack.take trace.depth

/-- The words of the dump of `traces`. -/
def dumpWords (traces : List StackTrace) : List ℕ := traces.flatMap entryOf ++ [0]

@[simp] theorem dumpWords_nil : dumpWords [] = [0] := rfl

@[simp] theorem dumpWords_cons (trace : StackTrace) (traces : List StackTrace) :
    dumpWords (trace :: traces) = entryOf trace ++ dumpWords traces := by
  simp [dumpWords]

section Depth

variable {trace : StackTrace} (hd : trace.depth ≤ kMaxStackDepth)
include hd

theorem length_entryOf : (entryOf trace).length = 3 + trace.depth := by
  simp [entryOf, trace.stack_length, Nat.min_eq_left hd]
  omega

theorem entryWords_eq : entryWords trace = some (entryOf trace) := by
  rw [entryWords, List.mapM_getElem?_range _ (trace.stack_length ▸ hd)]
  rfl

end Depth

variable {traces : List StackTrace}

theorem length_dumpWords (hdepth : ∀ trace ∈ traces, trace.depth ≤ kMaxStackDepth) :
    (dumpWords traces).length = 3 * traces.length + (traces.map StackTrace.depth).sum + 1 := by
  induction traces with
  | nil => rfl
  | cons trace traces ih =>
    rw [dumpWords_cons, List.length_append, length_entryOf (hdepth trace List.mem_cons_self),
      ih fun t ht => hdepth t (List.mem_cons_of_mem _ ht)]
    simp only [List.length_cons, List.map_cons, List.sum_cons]
    omega

theorem fillPass_eq (hdepth : ∀ trace ∈ traces, trace.depth ≤ kMaxStackDepth) :
    fillPass traces = some (dumpWords traces) := by
  induction traces with
  | nil => rfl
  | cons trace traces ih =>
    rw [fillPass, entryWords_eq (hdepth trace List.mem_cons_self),
      ih fun t ht => hdepth t (List.mem_cons_of_mem _ ht), dumpWords_cons]
    rfl

/-- The first pass sums the depths and counts the traces, modulo `2 ^ 32`. -/
theorem countPass_eq {depthTotal bucketTotal : ℕ} (hd : depthTotal < 2 ^ 32) (hb : bucketTotal < 2 ^ 32) :
    countPass traces depthTotal bucketTotal =
      (Word.add 32 depthTotal (traces.map StackTrace.depth).sum,
        Word.add 32 bucketTotal traces.length) := by
  induction traces generalizing depthTotal bucketTotal with
  | nil =>
    simp only [countPass, List.map_nil, List.sum_nil, List.length_nil]
    rw [Word.add_of_lt (by omega), Word.add_of_lt (by omega)]
    rfl
  | cons trace traces ih =>
    rw [countPass, ih Word.add_lt Word.add_lt, Word.add_add, Word.add_add, List.length_cons,
      Nat.add_comm 1]
    rfl

/-- When `out_len` fits an `int`, the dump is the array of the words of
    `dumpWords`, each written. -/
theorem produceStackTracesDump_eq (hdepth : ∀ trace ∈ traces, trace.depth ≤ kMaxStackDepth)
    (hlen : 3 * traces.length + (traces.map StackTrace.depth).sum + 1 < 2 ^ 31) :
    produceStackTracesDump traces = some ((dumpWords traces).map some) := by
  have hlength := length_dumpWords hdepth
  -- the counters do not wrap, and `out_len` is the length of the words
  have hout : outLen (Word.add 32 0 (traces.map StackTrace.depth).sum) (Word.add 32 0 traces.length) =
      (dumpWords traces).length := by
    rw [outLen, Word.add_of_lt (by omega), Word.add_of_lt (by omega), Nat.zero_add, Nat.zero_add,
      Word.signed_of_lt (by decide) (by omega), hlength]
    push_cast
    omega
  rw [produceStackTracesDump, countPass_eq (by decide) (by decide)]
  dsimp only
  rw [hout, if_neg (by omega), fillPass_eq hdepth]
  simp [List.map_getElem?_range]

/-! ## Reading a dump back -/

section Reader

variable {entries : List (Option ℕ)}

/-- The slots from `p` on hold the words `ws`. -/
theorem slot_of_drop {p : ℕ} {ws : List ℕ} (h : entries.drop p = ws.map some) (k : ℕ) :
    slot entries (p + k) = ws[k]? := by
  rw [slot, ← List.getElem?_drop, h, List.getElem?_map]
  cases ws[k]? <;> rfl

variable {p : ℕ} {trace : StackTrace} (hdrop : entries.drop p = (dumpWords (trace :: traces)).map some)
  (hd : trace.depth ≤ kMaxStackDepth)
include hdrop hd

omit hd in
theorem count_of_drop : count entries p = some 1 := by
  simpa [count, entryOf] using slot_of_drop hdrop 0

omit hd in
theorem size_of_drop : size entries p = some trace.size := by
  simpa [size, entryOf] using slot_of_drop hdrop 1

omit hd in
theorem depth_of_drop : depth entries p = some trace.depth := by
  simpa [depth, entryOf] using slot_of_drop hdrop 2

theorem pc_of_drop {i : ℕ} (hi : i < trace.depth) : pc entries p i = trace.stack[i]? := by
  rw [pc, Nat.add_assoc, slot_of_drop hdrop, dumpWords_cons, entryOf, List.append_assoc,
    List.getElem?_append_right (by simp), List.getElem?_append_left (by simp [trace.stack_length]; omega)]
  simp [hi]

omit hd in
/-- After the words of the first trace come those of the others. -/
theorem drop_next (hd : trace.depth ≤ kMaxStackDepth) :
    entries.drop (p + 3 + trace.depth) = (dumpWords traces).map some := by
  rw [Nat.add_assoc, ← List.drop_drop, hdrop, dumpWords_cons, List.map_append,
    ← length_entryOf hd, ← List.length_map some, List.drop_left]

/-- `PrintStackEntry` reads the trace back. -/
theorem readEntry_of_drop :
    readEntry entries p = some (1, trace.size, trace.depth, trace.stack.take trace.depth) := by
  have hpcs : (List.range trace.depth).mapM (pc entries p) = some (trace.stack.take trace.depth) := by
    rw [← List.mapM_getElem?_range _ (trace.stack_length ▸ hd)]
    exact List.mapM_congr fun i hi => pc_of_drop hdrop hd (List.mem_range.mp hi)
  simp [readEntry, count_of_drop hdrop, size_of_drop hdrop, depth_of_drop hdrop, hpcs]

end Reader

/-- Over a dump, the reader's loop runs `body` on each trace in turn, as
    `g` does, and stops at the null word: by induction on the traces, each
    round reading the count, the entry and the depth of one. -/
theorem forEachEntry_eq {σ : Type} {entries : List (Option ℕ)} {body : σ → ℕ → Option σ}
    {g : σ → StackTrace → σ}
    (hbody : ∀ p trace traces acc, trace.depth ≤ kMaxStackDepth →
      entries.drop p = (dumpWords (trace :: traces)).map some → body acc p = some (g acc trace)) :
    ∀ (traces : List StackTrace) (p : ℕ) (acc : σ) (fuel : ℕ),
      (∀ trace ∈ traces, trace.depth ≤ kMaxStackDepth) → entries.drop p = (dumpWords traces).map some →
      traces.length < fuel → forEachEntry entries body fuel p acc = some (traces.foldl g acc)
  | [], p, acc, fuel + 1, _, hdrop, _ => by
    have hnull : count entries p = some 0 := by simpa [count] using slot_of_drop hdrop 0
    simp [forEachEntry, hnull]
  | trace :: traces, p, acc, fuel + 1, hdepth, hdrop, hfuel => by
    have hd := hdepth trace List.mem_cons_self
    have hrest := forEachEntry_eq hbody traces (p + 3 + trace.depth) (g acc trace) fuel
      (fun t ht => hdepth t (List.mem_cons_of_mem _ ht)) (drop_next hdrop hd)
      (by simp only [List.length_cons] at hfuel; omega)
    simp [forEachEntry, count_of_drop hdrop, hbody p trace traces acc hd hdrop,
      depth_of_drop hdrop, hrest]

/-- `PrintHeader` adds one to the count and the size of each trace. -/
theorem foldl_totals (traces : List StackTrace) {a b : ℕ} (ha : a < 2 ^ 64) (hb : b < 2 ^ 64) :
    traces.foldl (fun totals trace => (Word.add 64 totals.1 1, Word.add 64 totals.2 trace.size)) (a, b) =
      (Word.add 64 a traces.length, Word.add 64 b (traces.map StackTrace.size).sum) := by
  induction traces generalizing a b with
  | nil =>
    simp only [List.foldl_nil, List.map_nil, List.sum_nil, List.length_nil]
    rw [Word.add_of_lt (by omega), Word.add_of_lt (by omega)]
    rfl
  | cons trace traces ih =>
    rw [List.foldl_cons, ih Word.add_lt Word.add_lt, Word.add_add, Word.add_add, List.length_cons,
      Nat.add_comm 1]
    rfl

/-- Stack-trace dump round trip: a dump whose `out_len` fits an `int` fills
    every slot, and the reader visits one entry per trace, in order, reading
    the trace back, stops at the null word, and counts the traces and sums
    their sizes modulo `2 ^ 64`. -/
theorem dump_round_trip (traces : List StackTrace)
    (hdepth : ∀ trace ∈ traces, trace.depth ≤ kMaxStackDepth)
    (hlen : 3 * traces.length + (traces.map StackTrace.depth).sum + 1 < 2 ^ 31)
    (fuel : ℕ) (hfuel : traces.length < fuel) :
    ∃ entries, produceStackTracesDump traces = some entries ∧
      entries.length = 3 * traces.length + (traces.map StackTrace.depth).sum + 1 ∧
      (∀ e ∈ entries, e.isSome) ∧
      slot entries (entries.length - 1) = some 0 ∧
      printedEntries entries fuel =
        some (traces.map fun trace => (1, trace.size, trace.depth, trace.stack.take trace.depth)) ∧
      printHeaderTotals entries fuel =
        some (traces.length % 2 ^ 64, (traces.map StackTrace.size).sum % 2 ^ 64) := by
  have hlength := length_dumpWords hdepth
  have hdrop : (((dumpWords traces).map some).drop 0) = (dumpWords traces).map some := rfl
  refine ⟨_, produceStackTracesDump_eq hdepth hlen, by simp [hlength], by simp, ?_, ?_, ?_⟩
  · -- the last word is the null word
    rw [List.length_map, slot, List.getElem?_map, dumpWords, List.length_append, List.length_singleton,
      Nat.add_sub_cancel, List.getElem?_append_right (le_refl _), Nat.sub_self]
    rfl
  · have hprinted := @forEachEntry_eq _ _
      (fun printed p => (readEntry ((dumpWords traces).map some) p).map (printed ++ [·]))
      (fun printed trace => printed ++ [(1, trace.size, trace.depth, trace.stack.take trace.depth)])
      (fun p trace traces' acc hd hdrop' => by rw [readEntry_of_drop hdrop' hd]; rfl)
      traces 0 [] fuel hdepth hdrop hfuel
    rw [printedEntries, hprinted, List.foldl_append_singleton, List.nil_append]
  · have htotals := @forEachEntry_eq _ _
      (fun totals p => do
        let c ← count ((dumpWords traces).map some) p
        let s ← size ((dumpWords traces).map some) p
        pure (Word.add 64 totals.1 c, Word.add 64 totals.2 s))
      (fun totals trace => (Word.add 64 totals.1 1, Word.add 64 totals.2 trace.size))
      (fun p trace traces' acc hd hdrop' => by
        simp [count_of_drop hdrop', size_of_drop hdrop'])
      traces 0 (0, 0) fuel hdepth hdrop hfuel
    rw [printHeaderTotals, htotals, foldl_totals traces (by decide) (by decide)]
    simp [Word.add]

theorem dump_round_trip_two_traces :
    (∀ trace ∈ [(⟨100, 2, List.replicate 31 7, rfl⟩ : StackTrace), ⟨40, 0, List.replicate 31 0, rfl⟩],
        trace.depth ≤ kMaxStackDepth) ∧
      3 * 2 + 2 + 1 < 2 ^ 31 ∧ 2 < 3 ∧
      ∃ entries, produceStackTracesDump
          [⟨100, 2, List.replicate 31 7, rfl⟩, ⟨40, 0, List.replicate 31 0, rfl⟩] = some entries ∧
        entries.length = 3 * 2 + 2 + 1 ∧ (∀ e ∈ entries, e.isSome) ∧
        slot entries (entries.length - 1) = some 0 ∧
        printedEntries entries 3 = some [(1, 100, 2, [7, 7]), (1, 40, 0, [])] ∧
        printHeaderTotals entries 3 = some (2, 140) := by
  have hdepth : ∀ trace ∈ [(⟨100, 2, List.replicate 31 7, rfl⟩ : StackTrace), ⟨40, 0, List.replicate 31 0, rfl⟩],
      trace.depth ≤ kMaxStackDepth := by
    simp [kMaxStackDepth]
  exact ⟨hdepth, by decide, by decide, dump_round_trip _ hdepth (by decide) 3 (by decide)⟩

/-- A dump of `715827883` traces: `out_len` is `2 ^ 31 + 2`, which wraps to a
    negative `int`, so `new` throws and no dump is made. -/
theorem dump_too_long :
    produceStackTracesDump (List.replicate 715827883 ⟨0, 0, List.replicate 31 0, rfl⟩) = none := by
  rw [produceStackTracesDump, countPass_eq (by decide) (by decide)]
  simp only [List.map_replicate, List.sum_replicate, List.length_replicate]
  rw [if_pos (by decide)]

end StackTraceTable

end Gperftools
