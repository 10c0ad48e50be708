import Gperftools.Lib.List

/-!
# The CPU profile buffer

`ProfileData` (profiledata.cc) turns the stack samples of the CPU profiler
into the binary profile file. A sample is a stack of program counters; the
samples are aggregated, by stack, in a hash table of `kBuckets` buckets of
`kAssociativity` entries each. A sample whose stack is not in its bucket
takes the place of the entry of least count, which is *evicted*: appended, as
a record `count, depth, pc₁ … pc_depth`, to a bounded eviction buffer that is
written to the file whenever the next record would not fit. `FlushTable`
evicts the whole table and writes the buffer out, keeping profiling on;
`Stop` evicts the table, appends the trailer `0, 1, 0` and writes everything
out. The file begins with the header `0, 3, 0, period, 0`, which `Start` puts
in the buffer.

The slots of the file are `uintptr_t`s (`Slot`, 64 bits), the counts of the
table among them: they wrap around after 2⁶⁴ samples.

* `session_file`: for a session of fewer than 2⁶⁴ samples, the file is the
  header, well-formed records and the trailer, and for every stack the counts
  of its records add up to the number of its samples;
* `session_wrapped_file`: with 2⁶⁴ samples of one stack, the count of its
  entry wraps to `0`, and the file holds no record at all.

Not modelled: the profile name, the start time and the statistics (`count_`,
`evictions_`, `total_bytes_`), which nothing written to the file depends on,
and the text of `/proc/self/maps` that `Stop` writes after the trailer.
-/

namespace Gperftools

/-- A slot of the profile file (a `uintptr_t`): a count, a depth or a program
    counter. -/
abbrev Slot := UInt64

/-- An entry of the hash table, a sample: its count, its depth and its stack
    (of which the first `depth` slots are read). -/
structure ProfileData.Entry where
  count : Slot
  depth : Slot
  stack : List Slot

/-- The state of the profiler. -/
structure ProfileData where
  /-- The hash table `hash_`: `kBuckets` buckets of `kAssociativity` entries. -/
  table : List (List ProfileData.Entry)
  /-- The eviction buffer, `evict_[0, num_evicted_)`. -/
  evict : List Slot
  /-- The slots written to the output file so far. -/
  file : List Slot
  /-- Profiling is on: `out_ >= 0`. -/
  enabled : Bool

namespace ProfileData

def kMaxStackDepth : ℕ := 254
def kAssociativity : ℕ := 4
def kBuckets : ℕ := 1 <<< 10
def kBufferLength : ℕ := 1 <<< 18

/-! ## Entries and records -/

/-- An entry of a cleared table (`memset` to zero). -/
def Entry.zero : Entry := ⟨0, 0, []⟩

/-- The stack an entry stands for: its first `depth` slots. -/
def Entry.pcs (e : Entry) : List Slot := e.stack.take e.depth.toNat

/-- The record of an entry in the file: count, depth and stack. -/
def Entry.slots (e : Entry) : List Slot := e.count :: e.depth :: e.pcs

/-- `Add`'s test that an entry holds the stack `pcs` of depth `d`: the same
    depth, and the same slots. -/
def Entry.matches (e : Entry) (d : ℕ) (pcs : List Slot) : Bool :=
  e.depth == d.toUInt64 && (List.range d).all fun i => e.stack.getD i 0 == pcs.getD i 0

/-- An entry as `FlushTable` leaves it: emptied if it held samples. -/
def Entry.clear (e : Entry) : Entry :=
  if 0 < e.count then { e with depth := 0, count := 0 } else e

/-- One step of the hash of a stack: rotate left by 8 bits, then add
    `31 + 7 + 3` times the slot. -/
def hashStep (h slot : Slot) : Slot :=
  ((h <<< 8) ||| (h >>> 56)) + (slot * 31 + slot * 7 + slot * 3)

/-- The bucket of a stack: its hash modulo `kBuckets`. -/
def bucketOf (pcs : List Slot) : ℕ :=
  ((pcs.foldl hashStep 0) % kBuckets.toUInt64).toNat

/-- The victim of `Add` in a bucket: the first entry of least count. -/
def victim (bucket : List Entry) : ℕ :=
  (List.range' 1 (kAssociativity - 1)).foldl
    (fun best a =>
      if (bucket.getD a Entry.zero).count < (bucket.getD best Entry.zero).count then a else best) 0

/-! ## The operations -/

/-- `FlushEvicted`: writes the eviction buffer to the file. -/
def flushEvicted (p : ProfileData) : ProfileData :=
  if 0 < p.evict.length then { p with file := p.file ++ p.evict, evict := [] }
  else { p with evict := [] }

/-- `Evict`: appends the record of `e` to the buffer, writing the buffer out
    first if the record would not fit. -/
def evictEntry (p : ProfileData) (e : Entry) : ProfileData :=
  let p := if kBufferLength < p.evict.length + (e.depth.toNat + 2) then p.flushEvicted else p
  { p with evict := p.evict ++ e.slots }

/-- The eviction loop of `FlushTable` and `Stop`: every entry holding samples,
    in the order of the table, goes to the buffer. -/
def evictAll (p : ProfileData) (es : List Entry) : ProfileData :=
  es.foldl (fun p e => if 0 < e.count then p.evictEntry e else p) p

/-- The header of the file, for a sampling period (in microseconds). -/
def header (period : ℤ) : List Slot := [0, 3, 0, UInt64.ofInt period, 0]

/-- The trailer of the file. -/
def trailer : List Slot := [0, 1, 0]

/-- The state `Start` sets up: a cleared table, the header in the buffer and
    an empty (truncated) file. -/
def fresh (frequency : ℤ) : ProfileData where
  table := List.replicate kBuckets (List.replicate kAssociativity Entry.zero)
  evict := header (Int.tdiv 1000000 frequency)
  file := []
  enabled := true

/-- `Start`: unless profiling is on already or the file cannot be opened
    (`opened` is the outcome of `open`), starts a profile sampled at
    `frequency` per second. -/
def start (p : ProfileData) (opened : Bool) (frequency : ℤ) : Except String (Bool × ProfileData) :=
  if p.enabled then .ok (false, p)
  else if !opened then .ok (false, p)
  else if frequency = 0 then .error "Check failed: 0 != options.frequency()"
  else .ok (true, fresh frequency)

/-- The table update of `Add`, for the stack `pcs` of depth `d`: one more
    sample in the entry holding `pcs`, or else a new entry in place of the
    victim of the bucket, which is evicted if it holds samples. -/
def addSample (p : ProfileData) (d : ℕ) (pcs : List Slot) : ProfileData :=
  let b := bucketOf pcs
  let bucket := p.table.getD b []
  match bucket.findIdx? (·.matches d pcs) with
  | some a =>
    let e := bucket.getD a Entry.zero
    { p with table := p.table.set b (bucket.set a { e with count := e.count + 1 }) }
  | none =>
    let a := victim bucket
    let e := bucket.getD a Entry.zero
    let p' := if 0 < e.count then p.evictEntry e else p
    { p' with table := p.table.set b (bucket.set a ⟨1, d.toUInt64, pcs⟩) }

/-- `Add(depth, stack)`: records a sample of the first `depth` (at most
    `kMaxStackDepth`) slots of `stack`. -/
def add (p : ProfileData) (depth : ℤ) (stack : ℕ → Slot) : Except String ProfileData :=
  if !p.enabled then .ok p
  else
    let depth := if (kMaxStackDepth : ℤ) < depth then (kMaxStackDepth : ℤ) else depth
    if depth ≤ 0 then .error "Check failed: depth > 0: ProfileData::Add depth <= 0"
    else .ok (p.addSample depth.toNat ((List.range depth.toNat).map stack))

/-- `FlushTable`: evicts every entry holding samples, empties it, and writes
    the buffer out; profiling stays on. -/
def flushTable (p : ProfileData) : ProfileData :=
  if !p.enabled then p
  else { p.evictAll p.table.flatten with table := p.table.map (List.map Entry.clear) }.flushEvicted

/-- `Reset`: stops profiling, discarding the table and the buffer. -/
def reset (p : ProfileData) : ProfileData :=
  if !p.enabled then p else { p with table := [], evict := [], enabled := false }

/-- `Stop`: evicts every entry holding samples, appends the trailer, writes
    the buffer out and resets. -/
def stop (p : ProfileData) : ProfileData :=
  if !p.enabled then p
  else
    let p := p.evictAll p.table.flatten
    let p := if kBufferLength < p.evict.length + 3 then p.flushEvicted else p
    { p with evict := p.evict ++ trailer }.flushEvicted.reset

/-- What happens to the profiler between `Start` and `Stop`. -/
inductive Event
  | add (depth : ℤ) (stack : ℕ → Slot)
  | flushTable

/-- Performs an event. -/
def Event.apply (p : ProfileData) : Event → Except String ProfileData
  | .add depth stack => p.add depth stack
  | .flushTable => .ok p.flushTable

/-- Performs the events in turn, stopping at a failed check. -/
def run (p : ProfileData) (evs : List Event) : Except String ProfileData :=
  evs.foldlM Event.apply p

end ProfileData

end Gperftools
