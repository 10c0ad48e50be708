import Gperftools.AddressMap

/-!
# The heap profile table

`HeapProfileTable` (heap-profile-table.cc) records the live allocations of a
program: an `AddressMap` from each allocated pointer to its size and the
bucket of its call stack, and a hash table of buckets, one for each call
stack seen, each counting the allocations and frees made from that stack, as
`total_` counts all of them.

The counters are `int64_t` and are kept as their 64-bit patterns: they wrap
around `2 ^ 64`, as `alloc_size += bytes` does when it adds a `size_t`. The
bucket pointer of an `AllocValue` keeps two flags in its low bits. Buckets
live at the addresses that `alloc_` returns, `bucketAddr n` for the bucket
made when there are `n`; a loop over a chain of buckets is a `Chain.search`
with as much fuel as there are buckets. The stack that `GetBucket` copies is
kept as the list of its frames. The profile writers, which only read the
table, are left out.
-/

namespace Gperftools

namespace HeapProfileTable

/-- `kHashTableSize`. -/
def kHashTableSize : ℕ := 179999

/-- `HeapProfileStats`: four `int64_t` counters, as 64-bit patterns. -/
structure Stats where
  allocs : ℕ
  frees : ℕ
  allocSize : ℕ
  freeSize : ℕ

/-- Zeroed counters. -/
def Stats.zero : Stats := ⟨0, 0, 0, 0⟩

/-- `allocs++; alloc_size += bytes`. -/
def Stats.recordAlloc (s : Stats) (bytes : ℕ) : Stats :=
  { s with allocs := Word.add 64 s.allocs 1, allocSize := Word.add 64 s.allocSize bytes }

/-- `frees++; free_size += bytes`. -/
def Stats.recordFree (s : Stats) (bytes : ℕ) : Stats :=
  { s with frees := Word.add 64 s.frees 1, freeSize := Word.add 64 s.freeSize bytes }

/-- `HeapProfileBucket`: the counters of a call stack, its hash, depth and
    frames, and the next bucket of its chain. -/
structure Bucket where
  stats : Stats
  hash : ℕ
  depth : ℕ
  stack : List ℕ
  next : Option ℕ

/-- `kLive`. -/
def kLive : ℕ := 1
/-- `kIgnore`. -/
def kIgnore : ℕ := 2
/-- `kMask`. -/
def kMask : ℕ := kLive ||| kIgnore

/-- `AllocValue`: the bucket pointer with the flags in its low bits, and the
    size of the allocation. -/
structure AllocValue where
  bucketRep : ℕ
  bytes : ℕ
deriving Inhabited

namespace AllocValue

/-- `bucket()`. -/
def bucket (v : AllocValue) : ℕ := v.bucketRep &&& Word.complement 64 kMask

/-- `live()`. -/
def live (v : AllocValue) : Bool := v.bucketRep &&& kLive != 0

/-- `set_live(l)`. -/
def setLive (v : AllocValue) (l : Bool) : AllocValue :=
  { v with bucketRep := (v.bucketRep &&& Word.complement 64 kLive) ||| (if l then kLive else 0) }

/-- `ignore()`. -/
def ignore (v : AllocValue) : Bool := v.bucketRep &&& kIgnore != 0

/-- `set_ignore(r)`. -/
def setIgnore (v : AllocValue) (r : Bool) : AllocValue :=
  { v with bucketRep := (v.bucketRep &&& Word.complement 64 kIgnore) ||| (if r then kIgnore else 0) }

end AllocValue

/-- One round of the hash of `GetBucket`, over a frame `x`:
    `h += x; h += h << 10; h ^= h >> 6` on `uintptr_t`. -/
def hashStep (h x : ℕ) : ℕ :=
  let h := Word.add 64 h x
  let h := Word.add 64 h (h <<< 10 % 2 ^ 64)
  h ^^^ (h >>> 6)

/-- The hash of a call stack: the rounds, then `h += h << 3; h ^= h >> 11`. -/
def stackHash (key : List ℕ) : ℕ :=
  let h := key.foldl hashStep 0
  let h := Word.add 64 h (h <<< 3 % 2 ^ 64)
  h ^^^ (h >>> 11)

end HeapProfileTable

open HeapProfileTable in
/-- `HeapProfileTable`: the chains of buckets by hash, the buckets allocated,
    `num_buckets_`, `total_` and the allocation map. -/
structure HeapProfileTable where
  bucketTable : ℕ → Option ℕ
  buckets : ℕ → Bucket
  numBuckets : ℕ
  total : Stats
  addressMap : AddressMap AllocValue

namespace HeapProfileTable

variable (bucketAddr : ℕ → ℕ) (t : HeapProfileTable)

/-- `HeapProfileTable(alloc, dealloc)`: a zeroed hash table, zeroed totals
    and an empty allocation map. -/
def init : HeapProfileTable :=
  ⟨fun _ => none, fun _ => ⟨Stats.zero, 0, 0, [], none⟩, 0, Stats.zero, AddressMap.init⟩

/-- `b->next` -/
def bucketNext (b : ℕ) : Option ℕ := (t.buckets b).next

/-- The end of `GetBucket`: a zeroed bucket at `b` for the call stack `key`
    of hash `h`, first in the chain `buck`. -/
def newBucket (b h buck : ℕ) (key : List ℕ) : HeapProfileTable :=
  { t with
    buckets := Function.update t.buckets b ⟨Stats.zero, h, key.length, key, t.bucketTable buck⟩
    bucketTable := Function.update t.bucketTable buck (some b)
    numBuckets := t.numBuckets + 1 }

/-- `GetBucket(depth, key)`: the bucket of the call stack, made if it is
    missing. -/
def getBucket (key : List ℕ) : ℕ × HeapProfileTable :=
  let h := stackHash key
  let buck := h % 2 ^ 32 % kHashTableSize
  match Chain.search t.bucketNext (fun b => (t.buckets b).hash == h &&
      (t.buckets b).depth == key.length && (t.buckets b).stack == key) t.numBuckets
      (t.bucketTable buck) with
  | some b => (b, t)
  | none =>
    let b := bucketAddr t.numBuckets
    (b, t.newBucket b h buck key)

/-- `RecordAlloc(ptr, bytes, stack_depth, call_stack)`. -/
def recordAlloc (ptr bytes : ℕ) (callStack : List ℕ) : HeapProfileTable :=
  let (b, t) := t.getBucket bucketAddr callStack
  let t := { t with
    buckets := Function.update t.buckets b
      { t.buckets b with stats := (t.buckets b).stats.recordAlloc bytes }
    total := t.total.recordAlloc bytes }
  -- `v.set_bucket(b)` leaves both flags clear
  { t with addressMap := t.addressMap.insert ptr ⟨b, bytes⟩ }

/-- `RecordFree(ptr)`. -/
def recordFree (ptr : ℕ) : HeapProfileTable :=
  match t.addressMap.findAndRemove ptr with
  | (none, am) => { t with addressMap := am }
  | (some v, am) =>
    let b := v.bucket
    { t with
      addressMap := am
      buckets := Function.update t.buckets b
        { t.buckets b with stats := (t.buckets b).stats.recordFree v.bytes }
      total := t.total.recordFree v.bytes }

/-- `MarkAsLive(ptr)`. -/
def markAsLive (ptr : ℕ) : Bool × HeapProfileTable :=
  match t.addressMap.findMutable ptr with
  | some e =>
    let v := (t.addressMap.entries e).value
    if !v.live then (true, { t with addressMap := t.addressMap.setValue e (v.setLive true) })
    else (false, t)
  | none => (false, t)

/-- `MarkAsIgnored(ptr)`. -/
def markAsIgnored (ptr : ℕ) : HeapProfileTable :=
  match t.addressMap.findMutable ptr with
  | some e =>
    { t with addressMap := t.addressMap.setValue e ((t.addressMap.entries e).value.setIgnore true) }
  | none => t

end HeapProfileTable

end Gperftools
