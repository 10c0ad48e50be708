import Gperftools.Lib.Chain
import Gperftools.Lib.Word

/-!
# The address map

`AddressMap<Value>` (addressmap-inl.h) maps addresses to values in three
levels. A hash table of `kHashSize` chains finds the cluster of an address
(an aligned 1 MB region, `clusterID`); a cluster holds a list of entries for
each of its `kClusterBlocks` blocks of 128 bytes (`blockID`); an entry holds
a key, its value and the next entry of its block. Entries are allocated
`ALLOC_COUNT` at a time and recycled through a free list shared by all
clusters.

The model keeps the heap that the map allocates: clusters and entries are
numbered in the order `New` allocates them, and a pointer to one is its
number (`Option ℕ`, with `none` the null pointer); the numbers reached so far
are `numClusters` and `numEntries`. Memory from `New` is zeroed; a zeroed
`Value` is `default`. A loop over a chain of clusters or entries is a
`Chain.walk` or `Chain.search` with as much fuel as there are objects, which
the invariant of `Gperftools.AddressMap.Refine` shows is enough. The list of
all allocated objects, which only the destructor reads, is left out.
-/

namespace Gperftools

namespace AddressMap

/-- `kBlockBits`. -/
def kBlockBits : ℕ := 7
/-- `kClusterBits`. -/
def kClusterBits : ℕ := 13
/-- `kClusterBlocks`. -/
def kClusterBlocks : ℕ := 2 ^ kClusterBits
/-- `kBlockSize`. -/
def kBlockSize : ℕ := 2 ^ kBlockBits
/-- `kClusterSize`. -/
def kClusterSize : ℕ := 2 ^ (kBlockBits + kClusterBits)
/-- `kHashBits`. -/
def kHashBits : ℕ := 12
/-- `kHashSize`. -/
def kHashSize : ℕ := 2 ^ kHashBits
/-- `ALLOC_COUNT`: the entries allocated at a time. -/
def allocCount : ℕ := 64
/-- `kHashMultiplier`. -/
def kHashMultiplier : ℕ := 2654435769

/-- `HashInt(x)`: the top `kHashBits` bits of the bottom 32 bits of
    `x * kHashMultiplier`. -/
def hashInt (x : ℕ) : ℕ := (x % 2 ^ 32 * kHashMultiplier % 2 ^ 32) >>> (32 - kHashBits)

/-- `address >> (kBlockBits + kClusterBits)`: the id of the cluster of an
    address. -/
def clusterID (address : ℕ) : ℕ := address >>> (kBlockBits + kClusterBits)

/-- `BlockID(address)`: the block of an address within its cluster. -/
def blockID (address : ℕ) : ℕ := (address >>> kBlockBits) &&& (kClusterBlocks - 1)

/-- `Entry`. -/
structure Entry (V : Type*) where
  next : Option ℕ
  key : ℕ
  value : V

/-- How a loop of `FindInside` ends: the function returns the entry found,
    if any, or the loop breaks with the address `num`. -/
inductive Exit
  | ret (r : Option ℕ)
  | next (num : ℕ)

/-- `Cluster`. -/
structure Cluster where
  next : Option ℕ
  id : ℕ
  blocks : ℕ → Option ℕ

/-- A zeroed cluster. -/
def Cluster.zero : Cluster := ⟨none, 0, fun _ => none⟩

end AddressMap

open AddressMap in
/-- `AddressMap<Value>`: the hash table, the clusters and the entries
    allocated, and the free list. -/
structure AddressMap (V : Type*) where
  hashtable : ℕ → Option ℕ
  clusters : ℕ → Cluster
  numClusters : ℕ
  entries : ℕ → Entry V
  numEntries : ℕ
  free : Option ℕ

namespace AddressMap

variable {V : Type*} [Inhabited V] (m : AddressMap V)

/-- `AddressMap(alloc, dealloc)`: a zeroed hash table, nothing else. -/
def init : AddressMap V :=
  ⟨fun _ => none, fun _ => Cluster.zero, 0, fun _ => ⟨none, 0, default⟩, 0, none⟩

/-- `c->next` -/
def clusterNext (c : ℕ) : Option ℕ := (m.clusters c).next

/-- `e->next` -/
def entryNext (e : ℕ) : Option ℕ := (m.entries e).next

/-- `New<Cluster>(1)` in `FindCluster`: a zeroed cluster, numbered
    `numClusters`, with the id `clusterId` and put first in the chain `h`. -/
def newCluster (h clusterId : ℕ) : AddressMap V :=
  { m with
    clusters := Function.update m.clusters m.numClusters ⟨m.hashtable h, clusterId, fun _ => none⟩
    numClusters := m.numClusters + 1
    hashtable := Function.update m.hashtable h (some m.numClusters) }

/-- `FindCluster(address, create)`: the cluster of the address, created
    if it is missing and `create` holds. -/
def findCluster (address : ℕ) (create : Bool) : Option ℕ × AddressMap V :=
  let clusterId := clusterID address
  let h := hashInt clusterId
  match Chain.search m.clusterNext (fun c => (m.clusters c).id == clusterId) m.numClusters
      (m.hashtable h) with
  | some c => (some c, m)
  | none => if create then (some m.numClusters, m.newCluster h clusterId) else (none, m)

/-- The entry of `key` in the list of block `block` of cluster `c`. -/
def findEntry (c block key : ℕ) : Option ℕ :=
  Chain.search m.entryNext (fun e => (m.entries e).key == key) m.numEntries
    ((m.clusters c).blocks block)

/-- `FindMutable(key)`: the entry holding `key`, through whose value the
    caller may change it. -/
def findMutable (key : ℕ) : Option ℕ :=
  match (m.findCluster key false).1 with
  | none => none
  | some c => m.findEntry c (blockID key) key

/-- `Find(key)`. -/
def find (key : ℕ) : Option V := (m.findMutable key).map fun e => (m.entries e).value

/-- A write of `v` through the pointer to the value of entry `e`. -/
def setValue (e : ℕ) (v : V) : AddressMap V :=
  { m with entries := Function.update m.entries e { m.entries e with value := v } }

/-- `New<Entry>(ALLOC_COUNT)`, put on the free list. -/
def newEntries : AddressMap V :=
  let n := m.numEntries
  { m with
    -- `array[i].next = &array[i + 1]`, and the last one links to `free_`
    entries := fun e =>
      if n ≤ e ∧ e < n + allocCount then
        ⟨if e + 1 < n + allocCount then some (e + 1) else m.free, 0, default⟩
      else m.entries e
    numEntries := n + allocCount
    free := some n }

/-- The end of `Insert`: entry `e`, first on the free list, leaves it with
    the key and the value, and goes first in the list of block `block` of
    cluster `c`. -/
def push (c block e key : ℕ) (value : V) : AddressMap V :=
  { m with
    free := (m.entries e).next
    entries := Function.update m.entries e ⟨(m.clusters c).blocks block, key, value⟩
    clusters := Function.update m.clusters c
      { m.clusters c with blocks := Function.update (m.clusters c).blocks block (some e) } }

/-- `Insert(key, value)`. -/
def insert (key : ℕ) (value : V) : AddressMap V :=
  match m.findCluster key true with
  | (none, m) => m
  | (some c, m) =>
    let block := blockID key
    match m.findEntry c block key with
    | some e => m.setValue e value
    | none =>
      let m := if m.free = none then m.newEntries else m
      match m.free with
      | none => m
      | some e => m.push c block e key value

/-- Entry `e`, found at `*p`, leaves its block for the free list:
    `*p = e->next; e->next = free_; free_ = e`, where `prev` is the entry whose
    `next` field `p` points to, or `none` for `&c->blocks[block]`. -/
def unlink (c block : ℕ) (prev : Option ℕ) (e : ℕ) : AddressMap V :=
  let m := match prev with
    | none => { m with
        clusters := Function.update m.clusters c
          { m.clusters c with
            blocks := Function.update (m.clusters c).blocks block (m.entries e).next } }
    | some p => { m with
        entries := Function.update m.entries p { m.entries p with next := (m.entries e).next } }
  { m with
    entries := Function.update m.entries e { m.entries e with next := m.free }
    free := some e }

/-- The loop of `FindAndRemove` over `Entry** p`, for at most `fuel` entries:
    `prev` is the entry whose `next` field `p` points to, or `none` while `p`
    is `&c->blocks[block]`; `cur` is `*p`. -/
def removeLoop (key c block : ℕ) :
    ℕ → Option ℕ → Option ℕ → AddressMap V → Option V × AddressMap V
  | 0, _, _, m => (none, m)
  | _ + 1, _, none, m => (none, m)
  | fuel + 1, prev, some e, m =>
    if (m.entries e).key = key then (some (m.entries e).value, m.unlink c block prev e)
    else removeLoop key c block fuel (some e) (m.entries e).next m

/-- `FindAndRemove(key, &removed_value)`: the value removed, if the key was
    there. -/
def findAndRemove (key : ℕ) : Option V × AddressMap V :=
  match (m.findCluster key false).1 with
  | none => (none, m)
  | some c => removeLoop key c (blockID key) m.numEntries none ((m.clusters c).blocks (blockID key)) m

/-- The loop of `FindInside` over the entries `es` of a block: the first
    whose key is `keyNum` or whose range holds it, and whether a key below
    `keyNum` was seen (`had_smaller_key`). Addresses are `uintptr_t`, so the
    end of a range wraps around `2 ^ 64`. -/
def scanBlock (sizeFunc : V → ℕ) (keyNum : ℕ) : List ℕ → Bool → Option ℕ × Bool
  | [], hadSmallerKey => (none, hadSmallerKey)
  | e :: es, hadSmallerKey =>
    let eNum := (m.entries e).key
    if eNum ≤ keyNum then
      if eNum = keyNum ∨ keyNum < Word.add 64 eNum (sizeFunc (m.entries e).value) then
        (some e, hadSmallerKey)
      else scanBlock sizeFunc keyNum es true
    else scanBlock sizeFunc keyNum es hadSmallerKey

/-- The loop of `FindInside` over the blocks of cluster `c`, from the block
    of `num` down to block 0, for at most `fuel` blocks. -/
def blockLoop (sizeFunc : V → ℕ) (maxSize keyNum c : ℕ) : ℕ → ℕ → Exit
  | 0, num => .next num
  | fuel + 1, num =>
    let block := blockID num
    match m.scanBlock sizeFunc keyNum
        (Chain.walk m.entryNext m.numEntries ((m.clusters c).blocks block)) false with
    | (some e, _) => .ret (some e)
    -- a range before `key` did not contain it
    | (none, true) => .ret none
    | (none, false) =>
      if block = 0 then .next num
      else
        -- the last address of the previous block
        let num := Word.sub 64 (num ||| (kBlockSize - 1)) kBlockSize
        if Word.sub 64 keyNum num > maxSize then .ret none
        else blockLoop sizeFunc maxSize keyNum c fuel num

/-- The outer loop of `FindInside` over the clusters, from the one of `num`
    down, for at most `fuel` clusters. -/
def clusterLoop (sizeFunc : V → ℕ) (maxSize keyNum : ℕ) : ℕ → ℕ → Option ℕ
  | 0, _ => none
  | fuel + 1, num =>
    let exit := match (m.findCluster num false).1 with
      | some c => m.blockLoop sizeFunc maxSize keyNum c kClusterBlocks num
      | none => .next num
    match exit with
    | .ret r => r
    | .next num =>
      -- the first cluster
      if num < kClusterSize then none
      else
        -- the last address of the previous cluster
        let num := Word.sub 64 (num ||| (kClusterSize - 1)) kClusterSize
        if Word.sub 64 keyNum num > maxSize then none
        else clusterLoop sizeFunc maxSize keyNum fuel num

/-- `FindInside(size_func, max_size, key, &res_key)`: the key (`res_key`)
    and the value of the entry found. Each round of the outer loop that goes
    on moves to the previous cluster, so `key / kClusterSize + 1` rounds
    reach the first one. -/
def findInside (sizeFunc : V → ℕ) (maxSize key : ℕ) : Option (ℕ × V) :=
  (m.clusterLoop sizeFunc maxSize key (key / kClusterSize + 1) key).map fun e =>
    ((m.entries e).key, (m.entries e).value)

/-- `Iterate(body)`: the keys that `body` is called on, in order, and the map
    after it changed their values. `body` does not change the links, so the
    loops visit the entries the chains hold before it runs. -/
def iterate (body : ℕ → V → V) : List ℕ × AddressMap V :=
  let es := (List.range kHashSize).flatMap fun h =>
    (Chain.walk m.clusterNext m.numClusters (m.hashtable h)).flatMap fun c =>
      (List.range kClusterBlocks).flatMap fun b =>
        Chain.walk m.entryNext m.numEntries ((m.clusters c).blocks b)
  (es.map fun e => (m.entries e).key,
    es.foldl (fun m e => m.setValue e (body (m.entries e).key (m.entries e).value)) m)

end AddressMap

end Gperftools
