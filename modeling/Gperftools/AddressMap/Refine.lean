import Mathlib.Data.List.Nodup
import Gperftools.AddressMap
import Gperftools.Lib.List

/-!
# The address map refines a finite map

The views of an `AddressMap` are the lists its chains hold: the clusters of
each chain of the hash table (`bucket`), the entries of each block
(`blockEntries`) and of the free list (`freeEntries`), and all the entries
of the blocks of its clusters (`mapEntries`). The invariant `Inv` says that
the chains end, number only what was allocated, and are where their hashes,
ids and keys put them, with no cluster id or key twice; and that no entry is
on two lists at once (`entries_nodup`).

Under it the map finds a key exactly when one of its entries holds it
(`Inv.find_eq_some_iff`). Each operation is said once by what it does to the
views: a new cluster joins a chain and holds no entry, a new batch of entries
joins the free list, an entry moves between the free list and a block.

* `Inv.insert`, `Inv.findAndRemove`, `Inv.update`, `Inv.iterate`: every
  call keeps the invariant and changes what the map finds as it changes a
  finite map (`Op.apply`);
* `Inv.run`: and so does every sequence of calls (`run`);
* `run_refines`: from the empty map, what the callers see: `Find`,
  `FindAndRemove`, `Insert` on a key there and `Iterate` over the keys.
-/

namespace Gperftools

namespace AddressMap

theorem hashInt_lt (x : ℕ) : hashInt x < kHashSize := by
  have := Nat.mod_lt (x % 2 ^ 32 * kHashMultiplier) (show 0 < 2 ^ 32 by decide)
  unfold hashInt kHashSize kHashBits
  rw [Nat.shiftRight_eq_div_pow]
  omega

theorem blockID_lt (address : ℕ) : blockID address < kClusterBlocks := by
  have := Nat.and_le_right (n := address >>> kBlockBits) (m := kClusterBlocks - 1)
  unfold blockID kClusterBlocks kClusterBits at *
  omega

variable {V : Type*} (m : AddressMap V)

/-! ## Views -/

/-- The clusters of chain `h` of the hash table. -/
def bucket (h : ℕ) : List ℕ := Chain.walk m.clusterNext m.numClusters (m.hashtable h)

/-- The entries of block `b` of cluster `c`. -/
def blockEntries (c b : ℕ) : List ℕ :=
  Chain.walk m.entryNext m.numEntries ((m.clusters c).blocks b)

/-- The entries of the free list. -/
def freeEntries : List ℕ := Chain.walk m.entryNext m.numEntries m.free

/-- The clusters of the hash table. -/
def allClusters : List ℕ := (List.range kHashSize).flatMap m.bucket

/-- The entries of the blocks of cluster `c`. -/
def clusterEntries (c : ℕ) : List ℕ := (List.range kClusterBlocks).flatMap (m.blockEntries c)

/-- The entries of the map. -/
def mapEntries : List ℕ := m.allClusters.flatMap m.clusterEntries

/-- The cluster that the hash table has for an id. -/
def clusterOf (id : ℕ) : Option ℕ :=
  (m.bucket (hashInt id)).find? fun c => (m.clusters c).id == id

/-- The entry that the map has for a key. -/
def entryOf (key : ℕ) : Option ℕ :=
  (m.clusterOf (clusterID key)).bind fun c =>
    (m.blockEntries c (blockID key)).find? fun e => (m.entries e).key == key

theorem mem_allClusters {c : ℕ} : c ∈ m.allClusters ↔ ∃ h < kHashSize, c ∈ m.bucket h := by
  simp [allClusters]

theorem mem_mapEntries {e : ℕ} :
    e ∈ m.mapEntries ↔ ∃ c ∈ m.allClusters, ∃ b < kClusterBlocks, e ∈ m.blockEntries c b := by
  simp [mapEntries, clusterEntries]

theorem mem_mapEntries_of_mem {c b e : ℕ} (hc : c ∈ m.allClusters) (hb : b < kClusterBlocks)
    (he : e ∈ m.blockEntries c b) : e ∈ m.mapEntries :=
  m.mem_mapEntries.mpr ⟨c, hc, b, hb, he⟩

variable {m}

theorem clusterOf_spec {id c : ℕ} (h : m.clusterOf id = some c) :
    c ∈ m.allClusters ∧ (m.clusters c).id = id := by
  have h' : (m.bucket (hashInt id)).find? (fun c => (m.clusters c).id == id) = some c := h
  exact ⟨m.mem_allClusters.mpr ⟨_, hashInt_lt id, List.mem_of_find?_eq_some h'⟩,
    by simpa using List.find?_some h'⟩

/-! ## The invariant -/

variable (m) in
/-- The invariant of the map. -/
structure Inv : Prop where
  bucket_chain : ∀ h < kHashSize, Chain m.clusterNext (m.hashtable h) (m.bucket h)
  cluster_lt : ∀ c ∈ m.allClusters, c < m.numClusters
  cluster_hash : ∀ h < kHashSize, ∀ c ∈ m.bucket h, hashInt (m.clusters c).id = h
  bucket_ids : ∀ h < kHashSize, ((m.bucket h).map fun c => (m.clusters c).id).Nodup
  block_chain : ∀ c ∈ m.allClusters, ∀ b < kClusterBlocks,
    Chain m.entryNext ((m.clusters c).blocks b) (m.blockEntries c b)
  block_key : ∀ c ∈ m.allClusters, ∀ b < kClusterBlocks, ∀ e ∈ m.blockEntries c b,
    clusterID (m.entries e).key = (m.clusters c).id ∧ blockID (m.entries e).key = b
  block_keys : ∀ c ∈ m.allClusters, ∀ b < kClusterBlocks,
    ((m.blockEntries c b).map fun e => (m.entries e).key).Nodup
  free_chain : Chain m.entryNext m.free m.freeEntries
  entry_lt : ∀ e ∈ m.mapEntries ++ m.freeEntries, e < m.numEntries
  entries_nodup : (m.mapEntries ++ m.freeEntries).Nodup

section Inv

variable (hm : Inv m)
include hm

theorem Inv.bucket_length_le {h : ℕ} (hh : h < kHashSize) :
    (m.bucket h).length ≤ m.numClusters :=
  List.length_le_of_nodup_of_lt (hm.bucket_chain h hh).nodup fun c hc =>
    hm.cluster_lt c (m.mem_allClusters.mpr ⟨h, hh, hc⟩)

theorem Inv.block_length_le {c b : ℕ} (hc : c ∈ m.allClusters) (hb : b < kClusterBlocks) :
    (m.blockEntries c b).length ≤ m.numEntries :=
  List.length_le_of_nodup_of_lt (hm.block_chain c hc b hb).nodup fun e he =>
    hm.entry_lt e (List.mem_append_left _ (m.mem_mapEntries.mpr ⟨c, hc, b, hb, he⟩))

/-- `FindCluster` without creating finds what the hash table has. -/
theorem Inv.findCluster_false (key : ℕ) :
    (m.findCluster key false).1 = m.clusterOf (clusterID key) := by
  have hs : Chain.search m.clusterNext (fun c => (m.clusters c).id == clusterID key) m.numClusters
      (m.hashtable (hashInt (clusterID key))) = m.clusterOf (clusterID key) :=
    (hm.bucket_chain _ (hashInt_lt (clusterID key))).search_eq
      (hm.bucket_length_le (hashInt_lt _)) _
  unfold findCluster
  dsimp only
  rw [hs]
  cases m.clusterOf (clusterID key) <;> rfl

theorem Inv.findEntry_eq {c b : ℕ} (hc : c ∈ m.allClusters) (hb : b < kClusterBlocks)
    (key : ℕ) : m.findEntry c b key = (m.blockEntries c b).find? fun e => (m.entries e).key == key :=
  (hm.block_chain c hc b hb).search_eq (hm.block_length_le hc hb) _

theorem Inv.findMutable_eq (key : ℕ) : m.findMutable key = m.entryOf key := by
  unfold findMutable entryOf
  rw [hm.findCluster_false]
  cases hc : m.clusterOf (clusterID key) with
  | none => rfl
  | some c => exact hm.findEntry_eq (clusterOf_spec hc).1 (blockID_lt key) key

/-- The map has, for a key, the one of its entries that holds it. -/
theorem Inv.entryOf_eq_some_iff {key e : ℕ} :
    m.entryOf key = some e ↔ e ∈ m.mapEntries ∧ (m.entries e).key = key := by
  constructor
  · intro h
    obtain ⟨c, hc, he⟩ := Option.bind_eq_some_iff.mp h
    exact ⟨m.mem_mapEntries.mpr ⟨c, (clusterOf_spec hc).1, _, blockID_lt key,
      List.mem_of_find?_eq_some he⟩, by simpa using List.find?_some he⟩
  · rintro ⟨he, rfl⟩
    obtain ⟨c, hc, b, hb, heb⟩ := m.mem_mapEntries.mp he
    obtain ⟨hcid, hbid⟩ := hm.block_key c hc b hb e heb
    obtain ⟨h, hh, hch⟩ := m.mem_allClusters.mp hc
    -- the hash of the id leads to the chain of `c`, where no other cluster has the id
    have hclusterOf : m.clusterOf (clusterID (m.entries e).key) = some c := by
      unfold clusterOf
      rw [hcid, hm.cluster_hash h hh c hch]
      exact List.find?_eq_some_of_nodup_map rfl (hm.bucket_ids h hh) hch
    unfold entryOf
    rw [hclusterOf, Option.bind_some, hbid]
    exact List.find?_eq_some_of_nodup_map rfl (hm.block_keys c hc b hb) heb

/-- The map finds the value of the entry that holds the key. -/
theorem Inv.find_eq_some_iff {key : ℕ} {v : V} :
    m.find key = some v ↔ ∃ e ∈ m.mapEntries, (m.entries e).key = key ∧ (m.entries e).value = v := by
  rw [find, hm.findMutable_eq, Option.map_eq_some_iff]
  constructor
  · rintro ⟨e, he, rfl⟩
    obtain ⟨hmem, hkey⟩ := hm.entryOf_eq_some_iff.mp he
    exact ⟨e, hmem, hkey, rfl⟩
  · rintro ⟨e, hmem, hkey, rfl⟩
    exact ⟨e, hm.entryOf_eq_some_iff.mpr ⟨hmem, hkey⟩, rfl⟩

/-- No entry is both in the map and on the free list. -/
theorem Inv.free_ne_of_mem {x y : ℕ} (hx : x ∈ m.mapEntries) (hy : y ∈ m.freeEntries) : x ≠ y :=
  (List.nodup_append.mp hm.entries_nodup).2.2 x hx y hy

/-- A key the map does not find is held by none of its entries. -/
theorem Inv.key_ne_of_find_eq_none {key x : ℕ} (hnone : m.find key = none) (hx : x ∈ m.mapEntries) :
    (m.entries x).key ≠ key := fun hkey => by
  rw [hm.find_eq_some_iff.mpr ⟨x, hx, hkey, rfl⟩] at hnone
  exact Option.some_ne_none _ hnone

/-- No two entries of the map hold the same key. -/
theorem Inv.keys_nodup : (m.mapEntries.map fun e => (m.entries e).key).Nodup :=
  List.Nodup.map_on (fun x hx y hy hxy => by
      have hx' := hm.entryOf_eq_some_iff.mpr ⟨hx, rfl⟩
      rw [hxy, hm.entryOf_eq_some_iff.mpr ⟨hy, rfl⟩] at hx'
      exact (Option.some_inj.mp hx').symm)
    hm.entries_nodup.of_append_left

end Inv

/-! ## A new cluster -/

section NewCluster

variable (m) (h id : ℕ)

@[simp] theorem newCluster_numClusters :
    (m.newCluster h id).numClusters = m.numClusters + 1 := rfl
@[simp] theorem newCluster_entries : (m.newCluster h id).entries = m.entries := rfl
@[simp] theorem newCluster_numEntries : (m.newCluster h id).numEntries = m.numEntries := rfl
@[simp] theorem newCluster_free : (m.newCluster h id).free = m.free := rfl
@[simp] theorem newCluster_entryNext : (m.newCluster h id).entryNext = m.entryNext := rfl

theorem newCluster_clusterNext :
    (m.newCluster h id).clusterNext =
      Function.update m.clusterNext m.numClusters (m.hashtable h) := by
  funext c
  by_cases hc : c = m.numClusters
  · subst hc
    simp [newCluster, clusterNext]
  · simp [newCluster, clusterNext, Function.update_of_ne hc]

@[simp] theorem newCluster_hashtable_self :
    (m.newCluster h id).hashtable h = some m.numClusters := Function.update_self _ _ _

theorem newCluster_hashtable_of_ne {h' : ℕ} (hh : h' ≠ h) :
    (m.newCluster h id).hashtable h' = m.hashtable h' := Function.update_of_ne hh _ _

theorem newCluster_clusters_of_ne {c : ℕ} (hc : c ≠ m.numClusters) :
    (m.newCluster h id).clusters c = m.clusters c :=
  Function.update_of_ne hc _ _

@[simp] theorem newCluster_clusters_self :
    (m.newCluster h id).clusters m.numClusters = ⟨m.hashtable h, id, fun _ => none⟩ :=
  Function.update_self _ _ _

theorem newCluster_blockEntries_of_ne {c : ℕ} (hc : c ≠ m.numClusters) (b : ℕ) :
    (m.newCluster h id).blockEntries c b = m.blockEntries c b := by
  simp only [blockEntries, newCluster_entryNext, newCluster_numEntries,
    newCluster_clusters_of_ne m h id hc]

/-- The new cluster holds no entry. -/
@[simp] theorem newCluster_blockEntries_self (b : ℕ) :
    (m.newCluster h id).blockEntries m.numClusters b = [] := by
  simp [blockEntries]

theorem newCluster_clusterEntries_self :
    (m.newCluster h id).clusterEntries m.numClusters = [] := by
  simp [clusterEntries]

end NewCluster

section NewClusterInv

variable (hm : Inv m) {h : ℕ} (hh : h < kHashSize) (id : ℕ)
include hm hh

theorem Inv.not_mem_bucket : m.numClusters ∉ m.bucket h := fun hc =>
  Nat.lt_irrefl _ (hm.cluster_lt _ (m.mem_allClusters.mpr ⟨h, hh, hc⟩))

/-- The new cluster goes first in its chain; the other chains are kept. -/
theorem Inv.newCluster_chain {h' : ℕ} (hh' : h' < kHashSize) :
    Chain (m.newCluster h id).clusterNext ((m.newCluster h id).hashtable h')
      (if h' = h then m.numClusters :: m.bucket h else m.bucket h') := by
  have hframe : ∀ {h''}, h'' < kHashSize →
      Chain (m.newCluster h id).clusterNext (m.hashtable h'') (m.bucket h'') := fun hh'' =>
    (hm.bucket_chain _ hh'').frame fun c hc => by
      rw [newCluster_clusterNext,
        Function.update_of_ne fun hce : c = m.numClusters => hm.not_mem_bucket hh'' (hce ▸ hc)]
  split_ifs with hhh
  · rw [hhh, newCluster_hashtable_self]
    refine Chain.cons ?_
    rw [show (m.newCluster h id).clusterNext m.numClusters = m.hashtable h by
      rw [newCluster_clusterNext, Function.update_self]]
    exact hframe hh
  · rw [newCluster_hashtable_of_ne m h id hhh]
    exact hframe hh'

theorem Inv.bucket_newCluster {h' : ℕ} (hh' : h' < kHashSize) :
    (m.newCluster h id).bucket h' = if h' = h then m.numClusters :: m.bucket h else m.bucket h' := by
  refine (hm.newCluster_chain hh id hh').walk_eq ?_
  have := hm.bucket_length_le hh'
  have := hm.bucket_length_le hh
  split_ifs with hhh
  · subst hhh
    simp only [List.length_cons, newCluster_numClusters]
    omega
  · simp only [newCluster_numClusters]
    omega

theorem Inv.mem_allClusters_newCluster {c : ℕ} :
    c ∈ (m.newCluster h id).allClusters ↔ c = m.numClusters ∨ c ∈ m.allClusters := by
  simp only [mem_allClusters]
  constructor
  · rintro ⟨h', hh', hc⟩
    rw [hm.bucket_newCluster hh id hh'] at hc
    split_ifs at hc with hhh
    · rcases List.mem_cons.mp hc with hc | hc
      · exact Or.inl hc
      · exact Or.inr ⟨h, hh, hc⟩
    · exact Or.inr ⟨h', hh', hc⟩
  · rintro (rfl | ⟨h', hh', hc⟩)
    · refine ⟨h, hh, ?_⟩
      rw [hm.bucket_newCluster hh id hh, if_pos rfl]
      exact List.mem_cons_self
    · refine ⟨h', hh', ?_⟩
      rw [hm.bucket_newCluster hh id hh']
      split_ifs with hhh
      · exact List.mem_cons_of_mem _ (hhh ▸ hc)
      · exact hc

omit hh in
theorem Inv.blockEntries_newCluster {c : ℕ} (hc : c ∈ m.allClusters) (b : ℕ) :
    (m.newCluster h id).blockEntries c b = m.blockEntries c b :=
  newCluster_blockEntries_of_ne m h id (fun hce => Nat.lt_irrefl _ (hce ▸ hm.cluster_lt c hc)) b

/-- A new cluster adds no entry to the map. -/
theorem Inv.mapEntries_newCluster : (m.newCluster h id).mapEntries = m.mapEntries := by
  -- the clusters already there keep their entries
  have hold : ∀ h' < kHashSize, ∀ c ∈ m.bucket h',
      (m.newCluster h id).clusterEntries c = m.clusterEntries c := fun h' hh' c hc => by
    unfold clusterEntries
    exact List.flatMap_congr fun b _ =>
      hm.blockEntries_newCluster id (m.mem_allClusters.mpr ⟨h', hh', hc⟩) b
  unfold mapEntries allClusters
  rw [List.flatMap_assoc, List.flatMap_assoc]
  refine List.flatMap_congr fun h' hh' => ?_
  have hh' := List.mem_range.mp hh'
  rw [hm.bucket_newCluster hh id hh']
  split_ifs with hhh
  · subst hhh
    rw [List.flatMap_cons, newCluster_clusterEntries_self, List.nil_append]
    exact List.flatMap_congr (hold h' hh')
  · exact List.flatMap_congr (hold h' hh')

end NewClusterInv

/-- A cluster created for an id that the hash table lacks keeps the
    invariant. -/
theorem Inv.newCluster (hm : Inv m) {id : ℕ} (hnone : m.clusterOf id = none) :
    Inv (m.newCluster (hashInt id) id) := by
  have hh := hashInt_lt id
  have hold : ∀ {c}, c ∈ m.allClusters → c ≠ m.numClusters := fun hc hce =>
    Nat.lt_irrefl _ (hce ▸ hm.cluster_lt _ hc)
  have hclusters : ∀ {c}, c ∈ m.allClusters →
      (m.newCluster (hashInt id) id).clusters c = m.clusters c := fun hc =>
    newCluster_clusters_of_ne _ _ _ (hold hc)
  -- no cluster of the chain has the id
  have hfresh : ∀ c ∈ m.bucket (hashInt id), (m.clusters c).id ≠ id := fun c hc hid => by
    have := List.find?_eq_none.mp hnone c hc
    simp [hid] at this
  constructor
  · intro h' hh'
    rw [hm.bucket_newCluster hh id hh']
    exact hm.newCluster_chain hh id hh'
  · intro c hc
    rcases (hm.mem_allClusters_newCluster hh id).mp hc with rfl | hc
    · simp
    · have := hm.cluster_lt c hc
      simp only [newCluster_numClusters]
      omega
  · intro h' hh' c hc
    rw [hm.bucket_newCluster hh id hh'] at hc
    split_ifs at hc with hhh
    · rcases List.mem_cons.mp hc with rfl | hc
      · simp [hhh]
      · rw [hclusters (m.mem_allClusters.mpr ⟨_, hh, hc⟩), hhh]
        exact hm.cluster_hash _ hh c hc
    · rw [hclusters (m.mem_allClusters.mpr ⟨h', hh', hc⟩)]
      exact hm.cluster_hash h' hh' c hc
  · intro h' hh'
    have hmap : ∀ {h''}, h'' < kHashSize →
        (m.bucket h'').map (fun c => ((m.newCluster (hashInt id) id).clusters c).id) =
          (m.bucket h'').map fun c => (m.clusters c).id := fun hh'' =>
      List.map_congr_left fun c hc => by rw [hclusters (m.mem_allClusters.mpr ⟨_, hh'', hc⟩)]
    rw [hm.bucket_newCluster hh id hh']
    split_ifs with hhh
    · rw [List.map_cons, List.nodup_cons, hmap hh, newCluster_clusters_self]
      exact ⟨fun hmem => by
        obtain ⟨c, hc, hid⟩ := List.mem_map.mp hmem
        exact hfresh c hc hid, hm.bucket_ids _ hh⟩
    · rw [hmap hh']
      exact hm.bucket_ids h' hh'
  · intro c hc b hb
    rcases (hm.mem_allClusters_newCluster hh id).mp hc with rfl | hc
    · rw [newCluster_blockEntries_self, newCluster_clusters_self]
      exact Chain.nil
    · rw [hm.blockEntries_newCluster id hc, hclusters hc]
      exact hm.block_chain c hc b hb
  · intro c hc b hb e he
    rcases (hm.mem_allClusters_newCluster hh id).mp hc with rfl | hc
    · simp at he
    · rw [hm.blockEntries_newCluster id hc] at he
      rw [hclusters hc]
      exact hm.block_key c hc b hb e he
  · intro c hc b hb
    rcases (hm.mem_allClusters_newCluster hh id).mp hc with rfl | hc
    · simp
    · rw [hm.blockEntries_newCluster id hc]
      exact hm.block_keys c hc b hb
  · exact hm.free_chain
  · rw [hm.mapEntries_newCluster hh id]
    exact hm.entry_lt
  · rw [hm.mapEntries_newCluster hh id]
    exact hm.entries_nodup

/-! ## A new batch of entries -/

section NewEntries

variable [Inhabited V] (m)

@[simp] theorem newEntries_numEntries : m.newEntries.numEntries = m.numEntries + allocCount := rfl
@[simp] theorem newEntries_free : m.newEntries.free = some m.numEntries := rfl

theorem newEntries_entries_of_lt {e : ℕ} (he : e < m.numEntries) :
    m.newEntries.entries e = m.entries e := by
  simp only [newEntries]
  rw [if_neg (by omega)]

theorem newEntries_entryNext_of_lt {e : ℕ} (he : e < m.numEntries) :
    m.newEntries.entryNext e = m.entryNext e :=
  congrArg Entry.next (m.newEntries_entries_of_lt he)

/-- The entries of a batch link to one another, the last to the free list. -/
theorem newEntries_entryNext {k : ℕ} (hk : k < allocCount) :
    m.newEntries.entryNext (m.numEntries + allocCount - (k + 1)) =
      if k = 0 then m.free else some (m.numEntries + allocCount - k) := by
  have hin : m.numEntries ≤ m.numEntries + allocCount - (k + 1) ∧
      m.numEntries + allocCount - (k + 1) < m.numEntries + allocCount := ⟨by omega, by omega⟩
  simp only [entryNext, newEntries, if_pos hin]
  by_cases hk0 : k = 0
  · rw [if_pos hk0, if_neg (by omega)]
  · rw [if_neg hk0, if_pos (by omega)]
    congr 1
    omega

end NewEntries

section NewEntriesInv

variable [Inhabited V] (hm : Inv m)
include hm

theorem Inv.entryNext_newEntries {e : ℕ} (he : e ∈ m.mapEntries ++ m.freeEntries) :
    m.newEntries.entryNext e = m.entryNext e :=
  m.newEntries_entryNext_of_lt (hm.entry_lt e he)

theorem Inv.newEntries_block_chain {c b : ℕ} (hc : c ∈ m.allClusters) (hb : b < kClusterBlocks) :
    Chain m.newEntries.entryNext ((m.clusters c).blocks b) (m.blockEntries c b) :=
  (hm.block_chain c hc b hb).frame fun _ he =>
    hm.entryNext_newEntries (List.mem_append_left _ (m.mem_mapEntries.mpr ⟨c, hc, b, hb, he⟩))

theorem Inv.blockEntries_newEntries {c b : ℕ} (hc : c ∈ m.allClusters) (hb : b < kClusterBlocks) :
    m.newEntries.blockEntries c b = m.blockEntries c b :=
  (hm.newEntries_block_chain hc hb).walk_eq (by
    have := hm.block_length_le hc hb
    simp only [newEntries_numEntries]
    omega)

theorem Inv.mapEntries_newEntries : m.newEntries.mapEntries = m.mapEntries :=
  List.flatMap_congr fun _ hc => List.flatMap_congr fun _ hb =>
    hm.blockEntries_newEntries hc (List.mem_range.mp hb)

/-- The batch goes, in order, before the free list. -/
theorem Inv.newEntries_free_chain :
    Chain m.newEntries.entryNext m.newEntries.free
      (List.range' m.numEntries allocCount ++ m.freeEntries) := by
  -- the list from the `k`-th last entry of the batch, by induction on `k`
  have hfrom : ∀ k ≤ allocCount, Chain m.newEntries.entryNext
      (if k = 0 then m.free else some (m.numEntries + allocCount - k))
      (List.range' (m.numEntries + allocCount - k) k ++ m.freeEntries) := by
    intro k
    induction k with
    | zero =>
      intro _
      rw [if_pos rfl, List.range'_zero, List.nil_append]
      exact hm.free_chain.frame fun e he => hm.entryNext_newEntries (List.mem_append_right _ he)
    | succ k ih =>
      intro hk
      rw [if_neg (Nat.succ_ne_zero k), List.range'_succ, List.cons_append]
      refine Chain.cons ?_
      rw [m.newEntries_entryNext (by omega),
        show m.numEntries + allocCount - (k + 1) + 1 = m.numEntries + allocCount - k by omega]
      exact ih (by omega)
  have h := hfrom allocCount (Nat.le_refl _)
  rwa [if_neg (by decide), Nat.add_sub_cancel] at h

theorem Inv.freeEntries_newEntries :
    m.newEntries.freeEntries = List.range' m.numEntries allocCount ++ m.freeEntries := by
  refine hm.newEntries_free_chain.walk_eq ?_
  have := List.length_le_of_nodup_of_lt hm.entries_nodup.of_append_right fun e he =>
    hm.entry_lt e (List.mem_append_right _ he)
  simp only [List.length_append, List.length_range', newEntries_numEntries]
  omega

/-- A new batch of entries keeps the invariant. -/
theorem Inv.newEntries : Inv m.newEntries where
  bucket_chain := hm.bucket_chain
  cluster_lt := hm.cluster_lt
  cluster_hash := hm.cluster_hash
  bucket_ids := hm.bucket_ids
  block_chain c hc b hb := by
    rw [hm.blockEntries_newEntries hc hb]
    exact hm.newEntries_block_chain hc hb
  block_key c hc b hb e he := by
    rw [hm.blockEntries_newEntries hc hb] at he
    rw [m.newEntries_entries_of_lt (hm.entry_lt e
      (List.mem_append_left _ (m.mem_mapEntries.mpr ⟨c, hc, b, hb, he⟩)))]
    exact hm.block_key c hc b hb e he
  block_keys c hc b hb := by
    rw [hm.blockEntries_newEntries hc hb,
      List.map_congr_left fun e he => by
        rw [m.newEntries_entries_of_lt (hm.entry_lt e
          (List.mem_append_left _ (m.mem_mapEntries.mpr ⟨c, hc, b, hb, he⟩)))]]
    exact hm.block_keys c hc b hb
  free_chain := by
    rw [hm.freeEntries_newEntries]
    exact hm.newEntries_free_chain
  entry_lt e he := by
    rw [hm.mapEntries_newEntries, hm.freeEntries_newEntries] at he
    simp only [List.mem_append, List.mem_range'_1] at he
    have := fun h => hm.entry_lt e (List.mem_append.mpr h)
    simp only [newEntries_numEntries]
    rcases he with he | he | he
    · have := this (Or.inl he)
      omega
    · omega
    · have := this (Or.inr he)
      omega
  entries_nodup := by
    rw [hm.mapEntries_newEntries, hm.freeEntries_newEntries]
    -- the batch is fresh: every entry already there is below it
    have hfresh : ∀ e ∈ m.mapEntries ++ m.freeEntries, e ∉ List.range' m.numEntries allocCount :=
      fun e he hmem => by
        have := hm.entry_lt e he
        rw [List.mem_range'_1] at hmem
        omega
    have hperm : (m.mapEntries ++ (List.range' m.numEntries allocCount ++ m.freeEntries)).Perm
        (List.range' m.numEntries allocCount ++ (m.mapEntries ++ m.freeEntries)) := by
      rw [← List.append_assoc, ← List.append_assoc]
      exact List.perm_append_comm.append_right _
    refine hperm.nodup_iff.mpr (List.nodup_append.mpr ⟨List.nodup_range', hm.entries_nodup, ?_⟩)
    intro a ha b hb hab
    exact hfresh b hb (hab ▸ ha)

end NewEntriesInv

/-! ## One block changes -/

section Block

variable (hm : Inv m)
include hm

/-- No cluster is on two chains: the hash of its id says which it is on. -/
theorem Inv.allClusters_nodup : m.allClusters.Nodup := by
  refine List.nodup_flatMap.mpr ⟨fun h hh => (hm.bucket_chain h (List.mem_range.mp hh)).nodup, ?_⟩
  refine List.nodup_range.pairwise_of_forall_ne fun h₁ hh₁ h₂ hh₂ hne c hc₁ hc₂ => hne ?_
  rw [← hm.cluster_hash h₁ (List.mem_range.mp hh₁) c hc₁,
    hm.cluster_hash h₂ (List.mem_range.mp hh₂) c hc₂]

open scoped List in
/-- When the list of one block changes and the others are kept, the entries
    of the map change as that list does. -/
theorem Inv.mapEntries_perm_of_block {m' : AddressMap V}
    (hclusters : m'.allClusters = m.allClusters) {c b : ℕ} (hc : c ∈ m.allClusters)
    (hb : b < kClusterBlocks)
    (hkeep : ∀ c' ∈ m.allClusters, ∀ b' < kClusterBlocks, (c', b') ≠ (c, b) →
      m'.blockEntries c' b' = m.blockEntries c' b') :
    (m'.mapEntries ++ m.blockEntries c b).Perm (m.mapEntries ++ m'.blockEntries c b) := by
  -- within the cluster of the block
  have hinner : (m'.clusterEntries c ++ m.blockEntries c b).Perm
      (m.clusterEntries c ++ m'.blockEntries c b) :=
    List.flatMap_perm_of_update List.nodup_range (List.mem_range.mpr hb) fun b' hb' hne =>
      hkeep c hc b' (List.mem_range.mp hb') fun h => hne (Prod.mk.inj h).2
  -- over the clusters
  have houter : (m'.mapEntries ++ m.clusterEntries c).Perm
      (m.mapEntries ++ m'.clusterEntries c) := by
    unfold mapEntries
    rw [hclusters]
    refine List.flatMap_perm_of_update hm.allClusters_nodup hc fun c' hc' hne => ?_
    exact List.flatMap_congr fun b' hb' =>
      hkeep c' hc' b' (List.mem_range.mp hb') fun h => hne (Prod.mk.inj h).1
  refine (List.perm_append_right_iff (m.clusterEntries c)).mp ?_
  calc m'.mapEntries ++ m.blockEntries c b ++ m.clusterEntries c
      _ ~ m'.mapEntries ++ m.clusterEntries c ++ m.blockEntries c b := by
        rw [List.append_assoc, List.append_assoc]
        exact List.perm_append_comm.append_left _
      _ ~ m.mapEntries ++ m'.clusterEntries c ++ m.blockEntries c b := houter.append_right _
      _ ~ m.mapEntries ++ (m.clusterEntries c ++ m'.blockEntries c b) := by
        rw [List.append_assoc]
        exact hinner.append_left _
      _ ~ m.mapEntries ++ m'.blockEntries c b ++ m.clusterEntries c := by
        rw [List.append_assoc]
        exact List.perm_append_comm.append_left _

end Block

/-! ## An entry goes from the free list to a block -/

section Push

variable (m) (c block e key : ℕ) (value : V)

@[simp] theorem push_free : (m.push c block e key value).free = m.entryNext e := rfl
@[simp] theorem push_numEntries : (m.push c block e key value).numEntries = m.numEntries := rfl
@[simp] theorem push_numClusters :
    (m.push c block e key value).numClusters = m.numClusters := rfl
@[simp] theorem push_entries_self :
    (m.push c block e key value).entries e = ⟨(m.clusters c).blocks block, key, value⟩ :=
  Function.update_self _ _ _

theorem push_entries_of_ne {x : ℕ} (hx : x ≠ e) :
    (m.push c block e key value).entries x = m.entries x :=
  Function.update_of_ne hx _ _

theorem push_entryNext : (m.push c block e key value).entryNext =
    Function.update m.entryNext e ((m.clusters c).blocks block) := by
  funext x
  by_cases hx : x = e
  · subst hx
    simp [entryNext]
  · simp [entryNext, m.push_entries_of_ne c block e key value hx, Function.update_of_ne hx]

theorem push_clusters_next (c' : ℕ) :
    ((m.push c block e key value).clusters c').next = (m.clusters c').next := by
  by_cases hc : c' = c
  · subst hc
    simp [push]
  · simp [push, Function.update_of_ne hc]

theorem push_clusterNext : (m.push c block e key value).clusterNext = m.clusterNext :=
  funext (m.push_clusters_next c block e key value)

theorem push_bucket : (m.push c block e key value).bucket = m.bucket := by
  funext h
  simp only [bucket, push_clusterNext, push_numClusters]
  rfl

theorem push_allClusters : (m.push c block e key value).allClusters = m.allClusters := by
  simp only [allClusters, push_bucket]

theorem push_blocks (c' b' : ℕ) : ((m.push c block e key value).clusters c').blocks b' =
    if c' = c ∧ b' = block then some e else (m.clusters c').blocks b' := by
  by_cases hc : c' = c
  · subst hc
    by_cases hb : b' = block
    · subst hb
      simp [push]
    · simp [push, hb]
  · simp [push, hc]

end Push

section Free

variable (hm : Inv m) {e : ℕ} (hfree : m.free = some e)
include hm hfree

/-- The entry first on the free list, and the list after it. -/
theorem Inv.free_eq_cons :
    m.freeEntries = e :: m.freeEntries.tail ∧ Chain m.entryNext (m.entryNext e) m.freeEntries.tail := by
  have h := hm.free_chain
  rw [hfree] at h
  obtain ⟨l, hl, hchain⟩ := Chain.some_iff.mp h
  rw [hl]
  exact ⟨rfl, hchain⟩

theorem Inv.not_mem_mapEntries_of_free : e ∉ m.mapEntries := fun he => by
  have hnodup := hm.entries_nodup
  rw [(hm.free_eq_cons hfree).1] at hnodup
  exact (List.nodup_append.mp hnodup).2.2 e he e List.mem_cons_self rfl

theorem Inv.not_mem_free_tail : e ∉ m.freeEntries.tail := by
  have hnodup := hm.free_chain.nodup
  rw [(hm.free_eq_cons hfree).1] at hnodup
  exact (List.nodup_cons.mp hnodup).1

end Free

section PushInv

variable (hm : Inv m) {c block e : ℕ} (key : ℕ) (value : V) (hfree : m.free = some e)
  (hc : c ∈ m.allClusters) (hb : block < kClusterBlocks)
include hm hfree hc hb

/-- The entry pushed goes first in its block, and the other lists are kept. -/
theorem Inv.push_block_chain {c' b' : ℕ} (hc' : c' ∈ m.allClusters) (hb' : b' < kClusterBlocks) :
    Chain (m.push c block e key value).entryNext (((m.push c block e key value).clusters c').blocks b')
      (if c' = c ∧ b' = block then e :: m.blockEntries c block else m.blockEntries c' b') := by
  have hframe : ∀ {c'' b''}, c'' ∈ m.allClusters → b'' < kClusterBlocks →
      Chain (m.push c block e key value).entryNext ((m.clusters c'').blocks b'')
        (m.blockEntries c'' b'') := fun hc'' hb'' =>
    (hm.block_chain _ hc'' _ hb'').frame fun x hx => by
      rw [push_entryNext, Function.update_of_ne]
      intro hxe
      exact hm.not_mem_mapEntries_of_free hfree (hxe ▸ m.mem_mapEntries_of_mem hc'' hb'' hx)
  rw [push_blocks]
  split_ifs with hcb
  · obtain ⟨rfl, rfl⟩ := hcb
    refine Chain.cons ?_
    have hhead : (m.push c' b' e key value).entryNext e = (m.clusters c').blocks b' := by
      rw [push_entryNext, Function.update_self]
    rw [hhead]
    exact hframe hc hb
  · exact hframe hc' hb'

theorem Inv.blockEntries_push {c' b' : ℕ} (hc' : c' ∈ m.allClusters) (hb' : b' < kClusterBlocks) :
    (m.push c block e key value).blockEntries c' b' =
      if c' = c ∧ b' = block then e :: m.blockEntries c block else m.blockEntries c' b' := by
  refine (hm.push_block_chain key value hfree hc hb hc' hb').walk_eq_of_lt fun x hx => ?_
  have hold : ∀ {c'' b''}, c'' ∈ m.allClusters → b'' < kClusterBlocks →
      x ∈ m.blockEntries c'' b'' → x < m.numEntries := fun hc'' hb'' hx' =>
    hm.entry_lt x (List.mem_append_left _ (m.mem_mapEntries_of_mem hc'' hb'' hx'))
  rw [push_numEntries]
  split_ifs at hx with hcb
  · rcases List.mem_cons.mp hx with rfl | hx
    · exact hm.entry_lt x (List.mem_append_right _ ((hm.free_eq_cons hfree).1 ▸ List.mem_cons_self))
    · exact hold hc hb hx
  · exact hold hc' hb' hx

omit hc hb in
theorem Inv.freeEntries_push :
    (m.push c block e key value).freeEntries = m.freeEntries.tail := by
  have htail : Chain (m.push c block e key value).entryNext (m.entryNext e) m.freeEntries.tail :=
    (hm.free_eq_cons hfree).2.frame fun x hx => by
      rw [push_entryNext,
        Function.update_of_ne fun hxe : x = e => hm.not_mem_free_tail hfree (hxe ▸ hx)]
  refine htail.walk_eq_of_lt fun x hx => hm.entry_lt x (List.mem_append_right _ ?_)
  rw [(hm.free_eq_cons hfree).1]
  exact List.mem_cons_of_mem _ hx

/-- The entry pushed leaves the free list for the map. -/
theorem Inv.mapEntries_push : (m.push c block e key value).mapEntries.Perm (e :: m.mapEntries) := by
  have h := hm.mapEntries_perm_of_block (m.push_allClusters c block e key value) hc hb
    fun c' hc' b' hb' hne => by
      rw [hm.blockEntries_push key value hfree hc hb hc' hb',
        if_neg fun h => hne (by rw [h.1, h.2])]
  rw [hm.blockEntries_push key value hfree hc hb hc hb, if_pos ⟨rfl, rfl⟩,
    ← List.singleton_append, ← List.append_assoc] at h
  exact ((List.perm_append_right_iff _).mp h).trans (List.perm_append_singleton _ _)

/-- The entries of the map and of the free list, all taken together, are
    kept. -/
theorem Inv.entries_push : ((m.push c block e key value).mapEntries ++
    (m.push c block e key value).freeEntries).Perm (m.mapEntries ++ m.freeEntries) := by
  rw [hm.freeEntries_push key value hfree]
  nth_rewrite 2 [(hm.free_eq_cons hfree).1]
  exact ((hm.mapEntries_push key value hfree hc hb).append_right _).trans List.perm_middle.symm

/-- An entry pushed with a key of its block that the block lacks keeps the
    invariant. -/
theorem Inv.push (hid : clusterID key = (m.clusters c).id) (hblock : blockID key = block)
    (habsent : ∀ x ∈ m.blockEntries c block, (m.entries x).key ≠ key) :
    Inv (m.push c block e key value) := by
  have hid' : ∀ c', ((m.push c block e key value).clusters c').id = (m.clusters c').id := fun c' => by
    by_cases hc' : c' = c
    · subst hc'
      simp [AddressMap.push]
    · simp [AddressMap.push, Function.update_of_ne hc']
  -- an entry of a block is not the one pushed
  have hne : ∀ {c' b' x}, c' ∈ m.allClusters → b' < kClusterBlocks → x ∈ m.blockEntries c' b' →
      (m.push c block e key value).entries x = m.entries x := fun hc' hb' hx =>
    m.push_entries_of_ne c block e key value fun hxe =>
      hm.not_mem_mapEntries_of_free hfree (hxe ▸ m.mem_mapEntries_of_mem hc' hb' hx)
  have hperm := hm.entries_push key value hfree hc hb
  constructor
  · intro h hh
    rw [push_bucket, push_clusterNext]
    exact hm.bucket_chain h hh
  · rw [push_allClusters]
    exact hm.cluster_lt
  · intro h hh c' hc'
    rw [push_bucket] at hc'
    rw [hid']
    exact hm.cluster_hash h hh c' hc'
  · intro h hh
    rw [push_bucket, List.map_congr_left fun c' _ => hid' c']
    exact hm.bucket_ids h hh
  · intro c' hc' b' hb'
    rw [push_allClusters] at hc'
    rw [hm.blockEntries_push key value hfree hc hb hc' hb']
    exact hm.push_block_chain key value hfree hc hb hc' hb'
  · intro c' hc' b' hb' x hx
    rw [push_allClusters] at hc'
    rw [hm.blockEntries_push key value hfree hc hb hc' hb'] at hx
    rw [hid']
    split_ifs at hx with hcb
    · obtain ⟨rfl, rfl⟩ := hcb
      rcases List.mem_cons.mp hx with rfl | hx
      · simp [hid, hblock]
      · rw [hne hc' hb' hx]
        exact hm.block_key c' hc' b' hb' x hx
    · rw [hne hc' hb' hx]
      exact hm.block_key c' hc' b' hb' x hx
  · intro c' hc' b' hb'
    rw [push_allClusters] at hc'
    rw [hm.blockEntries_push key value hfree hc hb hc' hb']
    split_ifs with hcb
    · obtain ⟨rfl, rfl⟩ := hcb
      rw [List.map_cons, push_entries_self, List.map_congr_left fun x hx => by rw [hne hc' hb' hx]]
      refine List.nodup_cons.mpr ⟨fun hmem => ?_, hm.block_keys c' hc' b' hb'⟩
      obtain ⟨x, hx, hkey⟩ := List.mem_map.mp hmem
      exact habsent x hx hkey
    · rw [List.map_congr_left fun x hx => by rw [hne hc' hb' hx]]
      exact hm.block_keys c' hc' b' hb'
  · rw [hm.freeEntries_push key value hfree, push_free]
    exact (hm.free_eq_cons hfree).2.frame fun x hx => by
      rw [push_entryNext,
        Function.update_of_ne fun hxe : x = e => hm.not_mem_free_tail hfree (hxe ▸ hx)]
  · intro x hx
    rw [push_numEntries]
    exact hm.entry_lt x (hperm.subset hx)
  · exact hperm.nodup_iff.mpr hm.entries_nodup

/-- An entry pushed for a key that the map lacks adds that key and keeps
    the others. -/
theorem Inv.find_push (hid : clusterID key = (m.clusters c).id) (hblock : blockID key = block)
    (hnone : m.find key = none) :
    (m.push c block e key value).find = Function.update m.find key (some value) := by
  have habsent : ∀ x ∈ m.mapEntries, (m.entries x).key ≠ key := fun x hx =>
    hm.key_ne_of_find_eq_none hnone hx
  have hm' := hm.push key value hfree hc hb hid hblock fun x hx =>
    habsent x (m.mem_mapEntries_of_mem hc hb hx)
  have hperm := hm.mapEntries_push key value hfree hc hb
  have hkeep : ∀ x ∈ m.mapEntries, (m.push c block e key value).entries x = m.entries x :=
    fun x hx => m.push_entries_of_ne c block e key value fun hxe =>
      hm.not_mem_mapEntries_of_free hfree (hxe ▸ hx)
  funext k
  refine Option.ext fun v => ?_
  rw [hm'.find_eq_some_iff]
  by_cases hk : k = key
  · -- the key found is the one pushed
    subst hk
    rw [Function.update_self]
    constructor
    · rintro ⟨x, hx, hkx, hvx⟩
      rcases List.mem_cons.mp (hperm.subset hx) with rfl | hx
      · rw [push_entries_self] at hvx
        exact congrArg some hvx
      · rw [hkeep x hx] at hkx
        exact absurd hkx (habsent x hx)
    · intro hv
      refine ⟨e, hperm.symm.subset List.mem_cons_self, by rw [push_entries_self], ?_⟩
      rw [push_entries_self]
      exact Option.some_inj.mp hv
  · rw [Function.update_of_ne hk, hm.find_eq_some_iff]
    constructor
    · rintro ⟨x, hx, hkx, hvx⟩
      rcases List.mem_cons.mp (hperm.subset hx) with rfl | hx
      · rw [push_entries_self] at hkx
        exact absurd hkx.symm hk
      · rw [hkeep x hx] at hkx hvx
        exact ⟨x, hx, hkx, hvx⟩
    · rintro ⟨x, hx, hkx, hvx⟩
      refine ⟨x, hperm.symm.subset (List.mem_cons_of_mem _ hx), ?_, ?_⟩
      · rw [hkeep x hx, hkx]
      · rw [hkeep x hx, hvx]

end PushInv

/-! ## An entry goes from a block to the free list -/

section Unlink

variable (m) (c block : ℕ) (prev : Option ℕ) (e : ℕ)

@[simp] theorem unlink_free : (m.unlink c block prev e).free = some e := by
  cases prev <;> rfl
@[simp] theorem unlink_numEntries : (m.unlink c block prev e).numEntries = m.numEntries := by
  cases prev <;> rfl
@[simp] theorem unlink_numClusters : (m.unlink c block prev e).numClusters = m.numClusters := by
  cases prev <;> rfl
@[simp] theorem unlink_hashtable : (m.unlink c block prev e).hashtable = m.hashtable := by
  cases prev <;> rfl

/-- Only links change: the keys and the values stay. -/
theorem unlink_entries (x : ℕ) : ((m.unlink c block prev e).entries x).key = (m.entries x).key ∧
    ((m.unlink c block prev e).entries x).value = (m.entries x).value := by
  cases prev <;> simp only [unlink, Function.update_apply] <;> split_ifs <;> simp_all

theorem unlink_clusters (c' : ℕ) : ((m.unlink c block prev e).clusters c').next = (m.clusters c').next ∧
    ((m.unlink c block prev e).clusters c').id = (m.clusters c').id := by
  cases prev with
  | none => simp only [unlink, Function.update_apply]; split_ifs <;> simp_all
  | some p => simp [unlink]

theorem unlink_clusterNext : (m.unlink c block prev e).clusterNext = m.clusterNext :=
  funext fun c' => (m.unlink_clusters c block prev e c').1

theorem unlink_bucket : (m.unlink c block prev e).bucket = m.bucket := by
  funext h
  simp only [bucket, unlink_clusterNext, unlink_numClusters, unlink_hashtable]

theorem unlink_allClusters : (m.unlink c block prev e).allClusters = m.allClusters := by
  simp only [allClusters, unlink_bucket]

theorem unlink_entryNext_self : (m.unlink c block prev e).entryNext e = m.free := by
  cases prev <;> simp [unlink, entryNext]

theorem unlink_entryNext_prev {p : ℕ} (hpe : p ≠ e) :
    (m.unlink c block (some p) e).entryNext p = m.entryNext e := by
  simp [unlink, entryNext, Function.update_of_ne hpe]

theorem unlink_entryNext_of_ne {x : ℕ} (hxe : x ≠ e) (hxp : prev ≠ some x) :
    (m.unlink c block prev e).entryNext x = m.entryNext x := by
  cases prev with
  | none => simp [unlink, entryNext, Function.update_of_ne hxe]
  | some p =>
    have hpx : x ≠ p := fun h => hxp (h ▸ rfl)
    simp [unlink, entryNext, Function.update_of_ne hxe, Function.update_of_ne hpx]

theorem unlink_blocks (c' b' : ℕ) : ((m.unlink c block prev e).clusters c').blocks b' =
    if prev = none ∧ c' = c ∧ b' = block then m.entryNext e else (m.clusters c').blocks b' := by
  cases prev with
  | none =>
    by_cases hc : c' = c
    · subst hc
      by_cases hb : b' = block
      · subst hb
        simp [unlink, entryNext]
      · simp [unlink, hb]
    · simp [unlink, hc]
  | some p => simp [unlink]

end Unlink

section UnlinkInv

variable (hm : Inv m)
include hm

/-- A cluster is the one of the hash table with its id. -/
theorem Inv.cluster_eq_of_id {c c' : ℕ} (hc : c ∈ m.allClusters) (hc' : c' ∈ m.allClusters)
    (hid : (m.clusters c).id = (m.clusters c').id) : c = c' := by
  obtain ⟨h, hh, hch⟩ := m.mem_allClusters.mp hc
  obtain ⟨h', hh', hch'⟩ := m.mem_allClusters.mp hc'
  have hhh : h' = h := by
    rw [← hm.cluster_hash h hh c hch, ← hm.cluster_hash h' hh' c' hch', hid]
  subst hhh
  exact List.inj_on_of_nodup_map (hm.bucket_ids h' hh) hch hch' hid

/-- An entry is on the list of the block of its key only. -/
theorem Inv.block_eq_of_mem {c b c' b' x : ℕ} (hc : c ∈ m.allClusters) (hb : b < kClusterBlocks)
    (hc' : c' ∈ m.allClusters) (hb' : b' < kClusterBlocks) (hx : x ∈ m.blockEntries c b)
    (hx' : x ∈ m.blockEntries c' b') : c = c' ∧ b = b' := by
  obtain ⟨hid, hbid⟩ := hm.block_key c hc b hb x hx
  obtain ⟨hid', hbid'⟩ := hm.block_key c' hc' b' hb' x hx'
  exact ⟨hm.cluster_eq_of_id hc hc' (hid.symm.trans hid'), hbid.symm.trans hbid'⟩

variable {c block e : ℕ} {P l₂ : List ℕ} (hc : c ∈ m.allClusters) (hb : block < kClusterBlocks)
  (hsplit : m.blockEntries c block = P ++ e :: l₂)
include hc hb hsplit

omit hm in
theorem Inv.unlink_mem : e ∈ m.mapEntries ∧ ∀ p ∈ P, p ∈ m.mapEntries :=
  ⟨m.mem_mapEntries_of_mem hc hb (hsplit ▸ List.mem_append_right _ List.mem_cons_self),
    fun _ hp => m.mem_mapEntries_of_mem hc hb (hsplit ▸ List.mem_append_left _ hp)⟩

/-- The block loses the entry, and the other lists are kept. -/
theorem Inv.unlink_block_chain {c' b' : ℕ} (hc' : c' ∈ m.allClusters) (hb' : b' < kClusterBlocks) :
    Chain (m.unlink c block P.getLast? e).entryNext
      (((m.unlink c block P.getLast? e).clusters c').blocks b')
      (if c' = c ∧ b' = block then P ++ l₂ else m.blockEntries c' b') := by
  have hchain := hm.block_chain c hc block hb
  rw [hsplit] at hchain
  have hnodup := hchain.nodup
  have heP : e ∉ P := fun he => (List.nodup_append.mp hnodup).2.2 e he e List.mem_cons_self rfl
  have hel₂ : e ∉ l₂ := (List.nodup_cons.mp (List.nodup_append.mp hnodup).2.1).1
  split_ifs with hcb
  · obtain ⟨rfl, rfl⟩ := hcb
    rcases List.eq_nil_or_concat P with rfl | ⟨P', p, rfl⟩
    · -- the entry was first: the block now starts after it
      rw [unlink_blocks, if_pos ⟨rfl, rfl, rfl⟩]
      obtain ⟨_, hl, htail⟩ := Chain.some_iff.mp (hchain.head_eq ▸ hchain)
      rw [List.nil_append] at hl ⊢
      obtain rfl := (List.cons.inj hl).2
      exact htail.frame fun x hx => m.unlink_entryNext_of_ne c' b' none e
        (fun hxe => hel₂ (hxe ▸ hx)) (Option.some_ne_none x).symm
    · -- the entry before it now skips it
      rw [List.concat_eq_append] at hchain heP ⊢
      rw [List.getLast?_concat, unlink_blocks, if_neg fun h => Option.some_ne_none p h.1]
      have hpe : p ≠ e := fun hpe => heP (hpe ▸ List.mem_append_right _ (List.mem_singleton_self _))
      rw [List.append_assoc, List.singleton_append] at hchain ⊢
      refine (Chain.unlink hchain).frame fun x hx => ?_
      have hxe : x ≠ e := fun hxe => by
        subst hxe
        rcases List.mem_append.mp hx with hx | hx
        · exact heP (List.mem_append_left _ hx)
        · rcases List.mem_cons.mp hx with hx | hx
          · exact hpe hx.symm
          · exact hel₂ hx
      by_cases hxp : x = p
      · subst hxp
        rw [m.unlink_entryNext_prev c' b' e hpe, Function.update_self]
      · rw [m.unlink_entryNext_of_ne c' b' (some p) e hxe fun h => hxp (Option.some_inj.mp h).symm,
          Function.update_of_ne hxp]
  · -- another block holds neither the entry nor the one before it
    have hout : ∀ x ∈ m.blockEntries c' b', x ∉ P ++ e :: l₂ := fun x hx hx' => hcb (by
      obtain ⟨h1, h2⟩ := hm.block_eq_of_mem hc' hb' hc hb hx (hsplit ▸ hx')
      exact ⟨h1, h2⟩)
    rw [unlink_blocks, if_neg fun h => hcb h.2]
    refine (hm.block_chain c' hc' b' hb').frame fun x hx => ?_
    refine m.unlink_entryNext_of_ne c block _ e
      (fun hxe => hout x hx (hxe ▸ List.mem_append_right _ List.mem_cons_self)) fun hxp => ?_
    exact hout x hx (List.mem_append_left _ (List.mem_of_getLast? hxp))

theorem Inv.blockEntries_unlink {c' b' : ℕ} (hc' : c' ∈ m.allClusters) (hb' : b' < kClusterBlocks) :
    (m.unlink c block P.getLast? e).blockEntries c' b' =
      if c' = c ∧ b' = block then P ++ l₂ else m.blockEntries c' b' := by
  refine (hm.unlink_block_chain hc hb hsplit hc' hb').walk_eq_of_lt fun x hx => ?_
  rw [unlink_numEntries]
  split_ifs at hx with hcb
  · have hx' : x ∈ m.blockEntries c block := by
      rw [hsplit]
      rcases List.mem_append.mp hx with hx | hx
      · exact List.mem_append_left _ hx
      · exact List.mem_append_right _ (List.mem_cons_of_mem _ hx)
    exact hm.entry_lt x (List.mem_append_left _ (m.mem_mapEntries_of_mem hc hb hx'))
  · exact hm.entry_lt x (List.mem_append_left _ (m.mem_mapEntries_of_mem hc' hb' hx))

/-- The entry removed goes first on the free list. -/
theorem Inv.unlink_free_chain :
    Chain (m.unlink c block P.getLast? e).entryNext (some e) (e :: m.freeEntries) := by
  have hmem := Inv.unlink_mem hc hb hsplit
  refine Chain.cons ?_
  rw [unlink_entryNext_self]
  refine hm.free_chain.frame fun x hx => m.unlink_entryNext_of_ne c block _ e
    (fun hxe => hm.free_ne_of_mem hmem.1 hx hxe.symm) fun hxp => ?_
  exact hm.free_ne_of_mem (hmem.2 x (List.mem_of_getLast? hxp)) hx rfl

theorem Inv.freeEntries_unlink :
    (m.unlink c block P.getLast? e).freeEntries = e :: m.freeEntries := by
  have he := hm.entry_lt e (List.mem_append_left _ (Inv.unlink_mem hc hb hsplit).1)
  refine (m.unlink_free c block P.getLast? e ▸ hm.unlink_free_chain hc hb hsplit).walk_eq_of_lt
    fun x hx => ?_
  rw [unlink_numEntries]
  rcases List.mem_cons.mp hx with rfl | hx
  · exact he
  · exact hm.entry_lt x (List.mem_append_right _ hx)

open scoped List in
/-- The entry removed leaves the map. -/
theorem Inv.mapEntries_unlink :
    m.mapEntries.Perm (e :: (m.unlink c block P.getLast? e).mapEntries) := by
  have h := hm.mapEntries_perm_of_block (m.unlink_allClusters c block P.getLast? e) hc hb
    fun c' hc' b' hb' hne => by
      rw [hm.blockEntries_unlink hc hb hsplit hc' hb', if_neg fun h => hne (by rw [h.1, h.2])]
  rw [hm.blockEntries_unlink hc hb hsplit hc hb, if_pos ⟨rfl, rfl⟩, hsplit] at h
  refine (List.perm_append_right_iff (P ++ l₂)).mp ?_
  calc m.mapEntries ++ (P ++ l₂)
      _ ~ (m.unlink c block P.getLast? e).mapEntries ++ (P ++ e :: l₂) := h.symm
      _ ~ (m.unlink c block P.getLast? e).mapEntries ++ e :: (P ++ l₂) :=
        List.perm_middle.append_left _
      _ ~ e :: (m.unlink c block P.getLast? e).mapEntries ++ (P ++ l₂) := List.perm_middle

theorem Inv.entries_unlink : ((m.unlink c block P.getLast? e).mapEntries ++
    (m.unlink c block P.getLast? e).freeEntries).Perm (m.mapEntries ++ m.freeEntries) := by
  rw [hm.freeEntries_unlink hc hb hsplit]
  exact List.perm_middle.trans ((hm.mapEntries_unlink hc hb hsplit).append_right _).symm

/-- Removing an entry from its block keeps the invariant. -/
theorem Inv.unlink : Inv (m.unlink c block P.getLast? e) := by
  have hkey : ∀ x, ((m.unlink c block P.getLast? e).entries x).key = (m.entries x).key :=
    fun x => (m.unlink_entries c block P.getLast? e x).1
  have hid : ∀ c', ((m.unlink c block P.getLast? e).clusters c').id = (m.clusters c').id :=
    fun c' => (m.unlink_clusters c block P.getLast? e c').2
  have hsub : P ++ l₂ ⊆ m.blockEntries c block := fun x hx => by
    rw [hsplit]
    rcases List.mem_append.mp hx with hx | hx
    · exact List.mem_append_left _ hx
    · exact List.mem_append_right _ (List.mem_cons_of_mem _ hx)
  have hperm := hm.entries_unlink hc hb hsplit
  constructor
  · intro h hh
    rw [unlink_bucket, unlink_clusterNext, unlink_hashtable]
    exact hm.bucket_chain h hh
  · rw [unlink_allClusters, unlink_numClusters]
    exact hm.cluster_lt
  · intro h hh c' hc'
    rw [unlink_bucket] at hc'
    rw [hid]
    exact hm.cluster_hash h hh c' hc'
  · intro h hh
    rw [unlink_bucket, List.map_congr_left fun c' _ => hid c']
    exact hm.bucket_ids h hh
  · intro c' hc' b' hb'
    rw [unlink_allClusters] at hc'
    rw [hm.blockEntries_unlink hc hb hsplit hc' hb']
    exact hm.unlink_block_chain hc hb hsplit hc' hb'
  · intro c' hc' b' hb' x hx
    rw [unlink_allClusters] at hc'
    rw [hm.blockEntries_unlink hc hb hsplit hc' hb'] at hx
    rw [hid, hkey]
    split_ifs at hx with hcb
    · obtain ⟨rfl, rfl⟩ := hcb
      exact hm.block_key c' hc' b' hb' x (hsub hx)
    · exact hm.block_key c' hc' b' hb' x hx
  · intro c' hc' b' hb'
    rw [unlink_allClusters] at hc'
    rw [hm.blockEntries_unlink hc hb hsplit hc' hb', List.map_congr_left fun x _ => hkey x]
    split_ifs with hcb
    · obtain ⟨rfl, rfl⟩ := hcb
      have hkeys := hm.block_keys c' hc' b' hb'
      rw [hsplit] at hkeys
      exact hkeys.sublist (((List.sublist_cons_self e l₂).append_left P).map _)
    · exact hm.block_keys c' hc' b' hb'
  · rw [hm.freeEntries_unlink hc hb hsplit, unlink_free]
    exact hm.unlink_free_chain hc hb hsplit
  · intro x hx
    rw [unlink_numEntries]
    exact hm.entry_lt x (hperm.subset hx)
  · exact hperm.nodup_iff.mpr hm.entries_nodup

/-- What the map finds after removing the entry of a key: the key is gone,
    and every other key is kept. -/
theorem Inv.find_unlink {key : ℕ} (hkey : (m.entries e).key = key) :
    (m.unlink c block P.getLast? e).find = Function.update m.find key none := by
  have hm' := hm.unlink hc hb hsplit
  have hperm := hm.mapEntries_unlink hc hb hsplit
  have he : e ∈ m.mapEntries := (Inv.unlink_mem hc hb hsplit).1
  have hne : ∀ x ∈ (m.unlink c block P.getLast? e).mapEntries, x ≠ e := fun x hx hxe => by
    subst hxe
    exact (List.nodup_cons.mp (hperm.nodup_iff.mp hm.entries_nodup.of_append_left)).1 hx
  have hentry : ∀ x, ((m.unlink c block P.getLast? e).entries x).key = (m.entries x).key ∧
      ((m.unlink c block P.getLast? e).entries x).value = (m.entries x).value :=
    m.unlink_entries c block P.getLast? e
  funext k
  refine Option.ext fun v => ?_
  rw [hm'.find_eq_some_iff]
  by_cases hk : k = key
  · -- only `e` held the key
    subst hk
    rw [Function.update_self]
    refine ⟨fun ⟨x, hx, hkx, _⟩ => absurd ?_ (hne x hx), fun h => (Option.some_ne_none v h.symm).elim⟩
    have hx' : x ∈ m.mapEntries := hperm.symm.subset (List.mem_cons_of_mem e hx)
    have hkx' : (m.entries x).key = k := (hentry x).1.symm.trans hkx
    exact Option.some_inj.mp ((hm.entryOf_eq_some_iff.mpr ⟨hx', hkx'⟩).symm.trans
      (hm.entryOf_eq_some_iff.mpr ⟨he, hkey⟩))
  · rw [Function.update_of_ne hk, hm.find_eq_some_iff]
    constructor
    · rintro ⟨x, hx, hkx, hvx⟩
      have hx' : x ∈ m.mapEntries := hperm.symm.subset (List.mem_cons_of_mem e hx)
      exact ⟨x, hx', (hentry x).1.symm.trans hkx, (hentry x).2.symm.trans hvx⟩
    · rintro ⟨x, hx, hkx, hvx⟩
      have hxe : x ≠ e := fun hxe => hk (by rw [← hkx, hxe, hkey])
      refine ⟨x, ?_, (hentry x).1.trans hkx, (hentry x).2.trans hvx⟩
      exact (List.mem_cons.mp (hperm.mem_iff.mp hx)).resolve_left hxe

end UnlinkInv

/-! ## `FindAndRemove` -/

section Remove

variable {key c block : ℕ}

/-- Through a list that does not hold the key, the loop finds nothing. -/
theorem removeLoop_of_absent {p : Option ℕ} {l : List ℕ} (h : Chain m.entryNext p l)
    (habsent : ∀ x ∈ l, (m.entries x).key ≠ key) {fuel : ℕ} (hfuel : l.length ≤ fuel)
    (prev : Option ℕ) : removeLoop key c block fuel prev p m = (none, m) := by
  induction h generalizing fuel prev with
  | nil => cases fuel <;> rfl
  | @cons x l _ ih =>
    cases fuel with
    | zero => simp at hfuel
    | succ fuel =>
      rw [removeLoop, if_neg (habsent x List.mem_cons_self)]
      exact ih (fun y hy => habsent y (List.mem_cons_of_mem _ hy))
        (by simpa only [List.length_cons, Nat.add_le_add_iff_right] using hfuel) _

/-- The loop unlinks the first entry that holds the key, `prev` being the
    one before it. The induction is on the entries passed over, `P` those
    passed before the loop was entered. -/
theorem removeLoop_of_split {e : ℕ} {l₂ : List ℕ} (hkey : (m.entries e).key = key) {l₁ : List ℕ}
    (habsent : ∀ x ∈ l₁, (m.entries x).key ≠ key) :
    ∀ {P : List ℕ} {p : Option ℕ} {fuel : ℕ}, Chain m.entryNext p (l₁ ++ e :: l₂) →
      (l₁ ++ e :: l₂).length ≤ fuel →
      removeLoop key c block fuel P.getLast? p m =
        (some (m.entries e).value, m.unlink c block (P ++ l₁).getLast? e) := by
  induction l₁ with
  | nil =>
    rintro P p (_ | fuel) h hfuel
    · simp at hfuel
    rw [List.nil_append] at h
    rw [h.head_eq, List.head?_cons, removeLoop, if_pos hkey, List.append_nil]
  | cons x l₁ ih =>
    rintro P p (_ | fuel) h hfuel
    · simp at hfuel
    rw [List.cons_append] at h hfuel
    obtain ⟨_, hl, htail⟩ := Chain.some_iff.mp (h.head_eq ▸ h)
    obtain rfl := (List.cons.inj hl).2
    rw [h.head_eq, List.head?_cons, removeLoop, if_neg (habsent x List.mem_cons_self)]
    -- the entry passed over is the new `prev`
    have hstep := ih (fun y hy => habsent y (List.mem_cons_of_mem _ hy)) (P := P ++ [x]) htail
      (by simpa only [List.length_cons, Nat.add_le_add_iff_right] using hfuel)
    rwa [List.getLast?_concat, List.append_assoc, List.singleton_append] at hstep

end Remove

section RemoveInv

variable (hm : Inv m) (key : ℕ)
include hm

theorem Inv.find_eq : m.find key = (m.entryOf key).map fun e => (m.entries e).value := by
  rw [find, hm.findMutable_eq]

theorem Inv.findAndRemove_of_none (hnone : m.entryOf key = none) :
    m.findAndRemove key = (none, m) := by
  unfold findAndRemove
  rw [hm.findCluster_false]
  cases hc : m.clusterOf (clusterID key) with
  | none => rfl
  | some c =>
    have hc' := (clusterOf_spec hc).1
    have hfind : (m.blockEntries c (blockID key)).find? (fun e => (m.entries e).key == key) = none := by
      simpa only [entryOf, hc, Option.bind_some] using hnone
    refine removeLoop_of_absent (hm.block_chain c hc' _ (blockID_lt key)) (fun x hx hkey => ?_)
      (hm.block_length_le hc' (blockID_lt key)) none
    exact List.find?_eq_none.mp hfind x hx (by rw [hkey, beq_self_eq_true])

/-- `FindAndRemove` of a key the map has unlinks its entry, with the entries
    before it in its block as the prefix passed over. -/
theorem Inv.findAndRemove_of_some {e : ℕ} (hsome : m.entryOf key = some e) :
    ∃ c ∈ m.allClusters, ∃ P l₂, m.blockEntries c (blockID key) = P ++ e :: l₂ ∧
      m.findAndRemove key = (some (m.entries e).value, m.unlink c (blockID key) P.getLast? e) := by
  obtain ⟨c, hc, hfind⟩ := Option.bind_eq_some_iff.mp hsome
  have hc' := (clusterOf_spec hc).1
  obtain ⟨hkey, P, l₂, hsplit, habsent⟩ := List.find?_eq_some_iff_append.mp hfind
  refine ⟨c, hc', P, l₂, hsplit, ?_⟩
  have hchain := hm.block_chain c hc' _ (blockID_lt key)
  have hlen := hm.block_length_le hc' (blockID_lt key)
  rw [hsplit] at hchain hlen
  -- the loop starts with nothing passed over, at `&c->blocks[block]`
  have hloop : removeLoop key c (blockID key) m.numEntries ([] : List ℕ).getLast?
      ((m.clusters c).blocks (blockID key)) m =
        (some (m.entries e).value, m.unlink c (blockID key) ([] ++ P).getLast? e) :=
    removeLoop_of_split (beq_iff_eq.mp hkey) (fun x hx hkx => by simpa [hkx] using habsent x hx)
      hchain hlen
  rw [List.getLast?_nil, List.nil_append] at hloop
  unfold findAndRemove
  rw [hm.findCluster_false, hc]
  exact hloop

/-- `FindAndRemove(key)` returns what `Find(key)` returns, keeps the
    invariant, and removes the key and no other. -/
theorem Inv.findAndRemove : (m.findAndRemove key).1 = m.find key ∧ Inv (m.findAndRemove key).2 ∧
    (m.findAndRemove key).2.find = Function.update m.find key none := by
  cases hentry : m.entryOf key with
  | none =>
    have hfind : m.find key = none := by rw [hm.find_eq, hentry, Option.map_none]
    rw [hm.findAndRemove_of_none key hentry, ← hfind, Function.update_eq_self]
    exact ⟨rfl, hm, rfl⟩
  | some e =>
    obtain ⟨c, hc, P, l₂, hsplit, hremove⟩ := hm.findAndRemove_of_some key hentry
    rw [hremove]
    exact ⟨by rw [hm.find_eq, hentry, Option.map_some], hm.unlink hc (blockID_lt key) hsplit,
      hm.find_unlink hc (blockID_lt key) hsplit (hm.entryOf_eq_some_iff.mp hentry).2⟩

end RemoveInv

/-! ## Writes through value pointers -/

section Values

variable (m)

/-- The map with the value of each entry `x` changed by `f x`, the links and
    the keys kept: what writes through value pointers do. -/
def mapValues (f : ℕ → V → V) : AddressMap V :=
  { m with entries := fun x => { m.entries x with value := f x (m.entries x).value } }

theorem mapValues_mapValues (f g : ℕ → V → V) :
    (m.mapValues f).mapValues g = m.mapValues fun x v => g x (f x v) := rfl

theorem setValue_eq_mapValues (e : ℕ) (v : V) :
    m.setValue e v = m.mapValues fun x w => if x = e then v else w := by
  simp only [setValue, mapValues]
  congr 1
  funext x
  by_cases hx : x = e
  · subst hx
    simp
  · rw [Function.update_of_ne hx, if_neg hx]

variable {m}

/-- Writing values keeps the invariant: it reads only links and keys. -/
theorem Inv.mapValues (hm : Inv m) (f : ℕ → V → V) : Inv (m.mapValues f) where
  bucket_chain := hm.bucket_chain
  cluster_lt := hm.cluster_lt
  cluster_hash := hm.cluster_hash
  bucket_ids := hm.bucket_ids
  block_chain := hm.block_chain
  block_key := hm.block_key
  block_keys := hm.block_keys
  free_chain := hm.free_chain
  entry_lt := hm.entry_lt
  entries_nodup := hm.entries_nodup

theorem Inv.find_mapValues (hm : Inv m) (f : ℕ → V → V) (key : ℕ) :
    (m.mapValues f).find key = (m.entryOf key).map fun e => f e (m.entries e).value := by
  rw [find, (hm.mapValues f).findMutable_eq]
  rfl

theorem Inv.find_setValue (hm : Inv m) {e : ℕ} (he : e ∈ m.mapEntries) (v : V) :
    (m.setValue e v).find = Function.update m.find (m.entries e).key (some v) := by
  funext key
  rw [setValue_eq_mapValues, hm.find_mapValues]
  by_cases hkey : key = (m.entries e).key
  · -- the entry of the key is `e`
    rw [hkey, Function.update_self, hm.entryOf_eq_some_iff.mpr ⟨he, rfl⟩]
    simp
  · rw [Function.update_of_ne hkey, hm.find_eq]
    cases hentry : m.entryOf key with
    | none => rfl
    | some x =>
      have hxe : x ≠ e := fun hxe => hkey (by rw [← hxe, (hm.entryOf_eq_some_iff.mp hentry).2])
      simp [hxe]

end Values

/-! ## `Iterate` -/

section Iterate

variable (body : ℕ → V → V)

@[simp] theorem mapValues_key (f : ℕ → V → V) (x : ℕ) :
    ((m.mapValues f).entries x).key = (m.entries x).key := rfl

theorem mapValues_id : (m.mapValues fun _ v => v) = m := rfl

/-- Only the values the entries hold are written. -/
theorem mapValues_congr {f g : ℕ → V → V}
    (h : ∀ x, f x (m.entries x).value = g x (m.entries x).value) : m.mapValues f = m.mapValues g := by
  simp only [mapValues, h]

/-- The loops of `Iterate` visit the entries of the map, in the order of
    `mapEntries`. -/
theorem iterate_eq (m : AddressMap V) : m.iterate body =
    (m.mapEntries.map fun e => (m.entries e).key,
      m.mapEntries.foldl (fun m e => m.setValue e (body (m.entries e).key (m.entries e).value)) m) := by
  simp only [iterate, mapEntries, allClusters, bucket, List.flatMap_assoc]
  rfl

/-- Over entries visited once each, the loop writes the body's value into
    each of them: an entry is visited before any write to it. -/
theorem foldl_setValue {l : List ℕ} (hl : l.Nodup) (m : AddressMap V) :
    l.foldl (fun m e => m.setValue e (body (m.entries e).key (m.entries e).value)) m =
      m.mapValues fun x v => if x ∈ l then body (m.entries x).key v else v := by
  induction l generalizing m with
  | nil => simp only [List.foldl_nil, List.not_mem_nil, if_false, mapValues_id]
  | cons a l ih =>
    obtain ⟨ha, hl⟩ := List.nodup_cons.mp hl
    rw [List.foldl_cons, ih hl, setValue_eq_mapValues, mapValues_mapValues]
    refine mapValues_congr fun x => ?_
    by_cases hx : x = a
    · subst hx
      simp [ha]
    · simp [hx]

/-- `Iterate` calls the body once on each key of the map, keeps the
    invariant, and leaves each value as the body changed it. -/
theorem Inv.iterate (hm : Inv m) : (m.iterate body).1.Nodup ∧
    (∀ key, key ∈ (m.iterate body).1 ↔ (m.find key).isSome) ∧ Inv (m.iterate body).2 ∧
    (m.iterate body).2.find = fun key => (m.find key).map (body key) := by
  have hnodup : m.mapEntries.Nodup := hm.entries_nodup.of_append_left
  rw [iterate_eq, foldl_setValue body hnodup]
  dsimp only
  refine ⟨hm.keys_nodup, fun key => ?_, hm.mapValues _, ?_⟩
  · rw [List.mem_map, hm.find_eq, Option.isSome_map, Option.isSome_iff_exists]
    constructor
    · rintro ⟨e, he, hkey⟩
      exact ⟨e, hm.entryOf_eq_some_iff.mpr ⟨he, hkey⟩⟩
    · rintro ⟨e, he⟩
      exact ⟨e, hm.entryOf_eq_some_iff.mp he⟩
  · funext key
    rw [hm.find_mapValues, hm.find_eq]
    cases hentry : m.entryOf key with
    | none => rfl
    | some e =>
      obtain ⟨he, hkey⟩ := hm.entryOf_eq_some_iff.mp hentry
      simp [he, hkey]

end Iterate

/-! ## `Insert` -/

section Insert

/-- Two maps with the same entries, holding the same keys and values, find
    the same. -/
theorem Inv.find_congr {m' : AddressMap V} (hm : Inv m) (hm' : Inv m')
    (hmap : m'.mapEntries = m.mapEntries) (hent : ∀ x ∈ m.mapEntries, m'.entries x = m.entries x) :
    m'.find = m.find := by
  funext key
  refine Option.ext fun v => ?_
  rw [hm'.find_eq_some_iff, hm.find_eq_some_iff, hmap]
  constructor
  · rintro ⟨x, hx, hkey, hv⟩
    rw [hent x hx] at hkey hv
    exact ⟨x, hx, hkey, hv⟩
  · rintro ⟨x, hx, hkey, hv⟩
    refine ⟨x, hx, ?_, ?_⟩
    · rw [hent x hx, hkey]
    · rw [hent x hx, hv]

variable (hm : Inv m) (key : ℕ)
include hm

theorem Inv.findCluster_true : m.findCluster key true =
    match m.clusterOf (clusterID key) with
    | some c => (some c, m)
    | none => (some m.numClusters, m.newCluster (hashInt (clusterID key)) (clusterID key)) := by
  have hs : Chain.search m.clusterNext (fun c => (m.clusters c).id == clusterID key) m.numClusters
      (m.hashtable (hashInt (clusterID key))) = m.clusterOf (clusterID key) :=
    (hm.bucket_chain _ (hashInt_lt (clusterID key))).search_eq
      (hm.bucket_length_le (hashInt_lt _)) _
  unfold findCluster
  dsimp only
  rw [hs]
  cases m.clusterOf (clusterID key) <;> rfl

/-- `FindCluster(key, true)` gives the cluster of the key's id, made if it was
    missing, in a map that keeps the invariant and the entries. -/
theorem Inv.findCluster_true_spec : ∃ c m₁, m.findCluster key true = (some c, m₁) ∧ Inv m₁ ∧
    m₁.clusterOf (clusterID key) = some c ∧ m₁.mapEntries = m.mapEntries ∧
    m₁.entries = m.entries ∧ m₁.freeEntries = m.freeEntries := by
  rw [hm.findCluster_true]
  cases hc : m.clusterOf (clusterID key) with
  | some c => exact ⟨c, m, rfl, hm, hc, rfl, rfl, rfl⟩
  | none =>
    -- the new cluster goes first in the chain of the id's hash
    have hh := hashInt_lt (clusterID key)
    refine ⟨_, _, rfl, hm.newCluster hc, ?_, hm.mapEntries_newCluster hh _, rfl, rfl⟩
    unfold clusterOf
    rw [hm.bucket_newCluster hh _ hh, if_pos rfl, List.find?_cons, newCluster_clusters_self]
    simp

variable [Inhabited V] (value : V)

/-- `Insert(key, value)` keeps the invariant and sets the key to the value;
    on a key already there it adds no entry. -/
theorem Inv.insert : Inv (m.insert key value) ∧
    (m.insert key value).find = Function.update m.find key (some value) ∧
      ((m.find key).isSome → (m.insert key value).mapEntries = m.mapEntries ∧
        (m.insert key value).freeEntries = m.freeEntries) := by
  obtain ⟨c, m₁, hcluster, hm₁, hc₁, hmap₁, hent₁, hfree₁⟩ := hm.findCluster_true_spec key
  have hfind₁ : m₁.find = m.find := hm.find_congr hm₁ hmap₁ fun x _ => congrFun hent₁ x
  have hc := clusterOf_spec hc₁
  unfold AddressMap.insert
  rw [hcluster]
  dsimp only
  rw [hm₁.findEntry_eq hc.1 (blockID_lt key)]
  have hentry : (m₁.blockEntries c (blockID key)).find? (fun e => (m₁.entries e).key == key) =
      m₁.entryOf key := by
    simp only [entryOf, hc₁, Option.bind_some]
  rw [hentry, ← hfind₁, ← hmap₁, ← hfree₁]
  cases he : m₁.entryOf key with
  | some e =>
    -- the key is there: its entry takes the value
    obtain ⟨hemem, hekey⟩ := hm₁.entryOf_eq_some_iff.mp he
    dsimp only
    rw [hm₁.find_setValue hemem, hekey, setValue_eq_mapValues]
    exact ⟨hm₁.mapValues _, rfl, fun _ => ⟨rfl, rfl⟩⟩
  | none =>
    have hnone : m₁.find key = none := by rw [hm₁.find_eq, he, Option.map_none]
    have hnew : ¬(m₁.find key).isSome := by simp [hnone]
    dsimp only
    -- an entry from the free list, refilled with a new batch if it is empty
    by_cases hf : m₁.free = none
    · have hm₂ := hm₁.newEntries
      have hfind₂ : m₁.newEntries.find = m₁.find := hm₁.find_congr hm₂ hm₁.mapEntries_newEntries
        fun x hx => m₁.newEntries_entries_of_lt (hm₁.entry_lt x (List.mem_append_left _ hx))
      rw [if_pos hf, newEntries_free, ← hfind₂]
      rw [← hfind₂] at hnone hnew
      exact ⟨hm₂.push key value rfl hc.1 (blockID_lt key) hc.2.symm rfl fun x hx =>
          hm₂.key_ne_of_find_eq_none hnone (m₁.newEntries.mem_mapEntries_of_mem hc.1 (blockID_lt key) hx),
        hm₂.find_push key value rfl hc.1 (blockID_lt key) hc.2.symm rfl hnone, fun hsome => absurd hsome hnew⟩
    · obtain ⟨e, hfree⟩ := Option.ne_none_iff_exists'.mp hf
      rw [if_neg hf, hfree]
      exact ⟨hm₁.push key value hfree hc.1 (blockID_lt key) hc.2.symm rfl fun x hx =>
          hm₁.key_ne_of_find_eq_none hnone (m₁.mem_mapEntries_of_mem hc.1 (blockID_lt key) hx),
        hm₁.find_push key value hfree hc.1 (blockID_lt key) hc.2.symm rfl hnone, fun hsome => absurd hsome hnew⟩

end Insert

/-! ## The map as a list of pairs -/

section Pairs

variable (m) in
/-- The keys and the values of the entries of the map, one pair for each
    key it has. -/
def pairs : List (ℕ × V) := m.mapEntries.map fun e => ((m.entries e).key, (m.entries e).value)

theorem pairs_mapValues (f : ℕ → V → V) :
    (m.mapValues f).pairs = m.mapEntries.map fun e => ((m.entries e).key, f e (m.entries e).value) :=
  rfl

variable (hm : Inv m)
include hm

theorem Inv.mem_pairs_iff {key : ℕ} {v : V} : (key, v) ∈ m.pairs ↔ m.find key = some v := by
  rw [hm.find_eq_some_iff, pairs, List.mem_map]
  constructor
  · rintro ⟨e, he, heq⟩
    obtain ⟨rfl, rfl⟩ := Prod.mk.inj heq
    exact ⟨e, he, rfl, rfl⟩
  · rintro ⟨e, he, rfl, rfl⟩
    exact ⟨e, he, rfl⟩

theorem Inv.pairs_nodup : m.pairs.Nodup := by
  refine List.Nodup.of_map Prod.fst ?_
  rw [pairs, List.map_map]
  exact hm.keys_nodup

/-- The pairs of a map are, up to order, any list without repeats of the
    keys and values it finds. -/
theorem Inv.pairs_perm {L : List (ℕ × V)} (hL : L.Nodup)
    (h : ∀ key v, m.find key = some v ↔ (key, v) ∈ L) : m.pairs.Perm L := by
  refine (List.perm_ext_iff_of_nodup hm.pairs_nodup hL).mpr fun ⟨key, v⟩ => ?_
  rw [hm.mem_pairs_iff, h]

/-- A map that finds what `m` finds and `v` at a key that `m` lacks has one
    pair more. -/
theorem Inv.pairs_perm_cons {m' : AddressMap V} (hm' : Inv m') {key : ℕ} {v : V}
    (hnone : m.find key = none) (hfind : m'.find = Function.update m.find key (some v)) :
    m'.pairs.Perm ((key, v) :: m.pairs) := by
  have hnew : (key, v) ∉ m.pairs := fun hmem => by
    rw [hm.mem_pairs_iff, hnone] at hmem
    exact Option.some_ne_none v hmem.symm
  refine hm'.pairs_perm (List.nodup_cons.mpr ⟨hnew, hm.pairs_nodup⟩) fun k w => ?_
  rw [hfind, List.mem_cons, hm.mem_pairs_iff]
  by_cases hk : k = key
  · subst hk
    rw [Function.update_self, hnone]
    simp [eq_comm]
  · rw [Function.update_of_ne hk]
    simp [hk]

end Pairs

/-! ## Runs -/

/-- The calls that change an address map. `Find` and `FindMutable` change
    nothing; a write through the pointer that `FindMutable` returns is
    `update`, and the callback of `Iterate` writes through the value pointer
    it is given. -/
inductive Op (V : Type*)
  | insert (key : ℕ) (value : V)
  | findAndRemove (key : ℕ)
  | update (key : ℕ) (f : V → V)
  | iterate (body : ℕ → V → V)

variable [Inhabited V]

/-- The map after a call. -/
def step (m : AddressMap V) : Op V → AddressMap V
  | .insert key value => m.insert key value
  | .findAndRemove key => (m.findAndRemove key).2
  | .update key f =>
    match m.findMutable key with
    | none => m
    | some e => m.setValue e (f (m.entries e).value)
  | .iterate body => (m.iterate body).2

/-- The map after the calls, in order. -/
def run : AddressMap V → List (Op V) → AddressMap V
  | m, [] => m
  | m, op :: ops => run (m.step op) ops

/-- What a call does to a finite map from keys to values. -/
def Op.apply (a : ℕ → Option V) : Op V → ℕ → Option V
  | .insert key value => Function.update a key (some value)
  | .findAndRemove key => Function.update a key none
  | .update key f => Function.update a key ((a key).map f)
  | .iterate body => fun key => (a key).map (body key)

/-- The finite map after the calls. -/
def Op.applyAll : (ℕ → Option V) → List (Op V) → ℕ → Option V
  | a, [] => a
  | a, op :: ops => Op.applyAll (Op.apply a op) ops

theorem Inv.update (hm : Inv m) (key : ℕ) (f : V → V) :
    Inv (m.step (.update key f)) ∧ (m.step (.update key f)).find = (Op.update key f).apply m.find := by
  simp only [step, Op.apply, hm.findMutable_eq]
  cases hentry : m.entryOf key with
  | none =>
    have hnone : m.find key = none := by rw [hm.find_eq, hentry, Option.map_none]
    rw [hnone, Option.map_none, ← hnone, Function.update_eq_self]
    exact ⟨hm, rfl⟩
  | some e =>
    obtain ⟨he, hkey⟩ := hm.entryOf_eq_some_iff.mp hentry
    have hfind : m.find key = some (m.entries e).value := by rw [hm.find_eq, hentry, Option.map_some]
    dsimp only
    refine ⟨by rw [setValue_eq_mapValues]; exact hm.mapValues _, ?_⟩
    rw [hm.find_setValue he, hkey, hfind, Option.map_some]

/-- A call keeps the invariant and changes what the map finds as it changes
    a finite map. -/
theorem Inv.step (hm : Inv m) (op : Op V) : Inv (m.step op) ∧ (m.step op).find = op.apply m.find := by
  cases op with
  | insert key value => exact ⟨(hm.insert key value).1, (hm.insert key value).2.1⟩
  | findAndRemove key => exact ⟨(hm.findAndRemove key).2.1, (hm.findAndRemove key).2.2⟩
  | update key f => exact hm.update key f
  | iterate body => exact ⟨(hm.iterate body).2.2.1, (hm.iterate body).2.2.2⟩

/-- Along every run the invariant holds and the map finds what the finite
    map has: by induction on the calls, one `Inv.step` each. -/
theorem Inv.run (hm : Inv m) (ops : List (Op V)) :
    Inv (m.run ops) ∧ (m.run ops).find = Op.applyAll m.find ops := by
  induction ops generalizing m with
  | nil => exact ⟨hm, rfl⟩
  | cons op ops ih =>
    obtain ⟨hstep, hfind⟩ := hm.step op
    obtain ⟨hrun, hfind'⟩ := ih hstep
    refine ⟨hrun, ?_⟩
    rw [run, hfind', hfind]
    rfl

@[simp] theorem init_bucket : (init : AddressMap V).bucket = fun _ => [] := by
  funext h
  simp [bucket, init]

@[simp] theorem init_allClusters : (init : AddressMap V).allClusters = [] := by
  simp [allClusters]

@[simp] theorem init_mapEntries : (init : AddressMap V).mapEntries = [] := by
  simp [mapEntries]

@[simp] theorem init_freeEntries : (init : AddressMap V).freeEntries = [] := by
  simp [freeEntries, init]

/-- The empty map keeps the invariant: every chain is empty. -/
theorem init_inv : Inv (init : AddressMap V) where
  bucket_chain _ _ := by
    rw [init_bucket]
    exact Chain.nil
  cluster_lt := by simp
  cluster_hash := by simp
  bucket_ids := by simp
  block_chain := by simp
  block_key := by simp
  block_keys := by simp
  free_chain := by
    rw [init_freeEntries]
    exact Chain.nil
  entry_lt := by simp
  entries_nodup := by simp

theorem find_init (key : ℕ) : (init : AddressMap V).find key = none := by
  rw [init_inv.find_eq]
  simp [entryOf, clusterOf, bucket, init]

/-- From the empty map, along every sequence of calls: the map finds what a
    finite map given the same calls has; `Insert` on a key there adds no
    entry; `FindAndRemove` returns what `Find` does and removes that key
    alone; `Iterate` calls its body once on each key there; and no entry is
    on two lists at once. -/
theorem run_refines (ops : List (Op V)) :
    let m := (init : AddressMap V).run ops
    m.find = Op.applyAll (fun _ => none) ops ∧
    (∀ key value, (m.find key).isSome →
      (m.insert key value).mapEntries = m.mapEntries ∧
        (m.insert key value).freeEntries = m.freeEntries) ∧
    (∀ key, (m.findAndRemove key).1 = m.find key ∧
      (m.findAndRemove key).2.find = Function.update m.find key none) ∧
    (∀ body, (m.iterate body).1.Nodup ∧
      ∀ key, key ∈ (m.iterate body).1 ↔ (m.find key).isSome) ∧
    (m.mapEntries ++ m.freeEntries).Nodup := by
  intro m
  obtain ⟨hm, hfind⟩ := init_inv.run ops
  refine ⟨?_, fun key value => (hm.insert key value).2.2,
    fun key => ⟨(hm.findAndRemove key).1, (hm.findAndRemove key).2.2⟩,
    fun body => ⟨(hm.iterate body).1, (hm.iterate body).2.1⟩, hm.entries_nodup⟩
  rw [hfind, show (init : AddressMap V).find = fun _ => none from funext find_init]

end AddressMap

end Gperftools
