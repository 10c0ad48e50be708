import Gperftools.LowLevelAlloc
import Gperftools.Lib.Intervals
import Gperftools.Lib.List
import Mathlib.Data.List.Chain

/-!
# The free list of an arena

The free list is kept in address order, and `Next` checks, of any two
neighbours of a level, that the first ends before the second starts, with an
address between them (`Below`): no two free blocks touch, since
`AddToFreelist` coalesces a block it frees with the free blocks just after
and just before it. Level `0` links every node, so the order is the chain
`l.IsChain Below` of the model's list.

Each operation of the skiplist is read at a node, on the list cut there into
the nodes below the node's address and the others:

* `skiplistInsert_split`, `skiplistDelete_split`, `nodeAndNext_split`,
  `predecessor_split`: insertion puts the node at the cut, deletion takes it
  out, and the node's successor and predecessor are its neighbours there;
* `coalesce_spec`: `Coalesce` of a node that may touch its successor either
  leaves the list as it is or merges the two, and the node and those after it
  then form a chain covering what they covered;
* `addToFreelist_spec`: `AddToFreelist` of a block apart from every free
  block keeps the chain, and the free list then covers what it covered and
  the block. Its two `Coalesce`s make the block's neighbours at both ends
  apart from it, whatever the levels of the nodes.

On these, `Tiles l A U` says that the free list `l` and the allocated blocks
`A` tile the addresses `U`: the free list is a chain, the blocks are
nonempty and apart from each other, and they cover `U`. Freeing an allocated
block (`Tiles.free`), handing out a free node whole (`Tiles.take_whole`) or
its first bytes (`Tiles.take`), and freeing a region outside `U`
(`Tiles.insert`) keep a tiling.
-/

namespace Gperftools

namespace LowLevelAlloc

open Intervals

/-- The node `b` ends before `c` starts, with an address between them: what
    `Next` checks of two neighbours of a level. -/
def Below (b c : FreeBlock) : Prop := b.addr + b.size < c.addr

instance : Trans Below Below Below :=
  ⟨fun hbc hcd => by unfold Below at *; omega⟩

theorem Below.addr_lt {b c : FreeBlock} (h : Below b c) : b.addr < c.addr := by
  unfold Below at h
  omega

/-- In a chain, no two nodes share an address. -/
theorem pairwise_apart_of_isChain {l : List FreeBlock} (h : l.IsChain Below) :
    (l.map FreeBlock.toPair).Pairwise Apart :=
  List.pairwise_map.mpr ((List.isChain_iff_pairwise.mp h).imp fun hbc => Separated.apart (.inl hbc))

section Split

variable {pre post : List FreeBlock} {e a : FreeBlock} {x : ℕ}

/-- `LLA_SkiplistInsert` puts `e` after the nodes below its address. -/
theorem skiplistInsert_split (hpre : ∀ b ∈ pre, b.addr < e.addr)
    (hpost : ∀ c ∈ post.head?, e.addr ≤ c.addr) :
    skiplistInsert e (pre ++ post) = pre ++ e :: post := by
  induction pre with
  | nil =>
    cases post with
    | nil => rfl
    | cons c post => simp [skiplistInsert, not_lt.mpr (hpost c (by simp))]
  | cons b pre ih =>
    rw [List.forall_mem_cons] at hpre
    simp [skiplistInsert, hpre.1, ih hpre.2]

/-- `LLA_SkiplistDelete` of the node `a`, after the nodes below its address,
    finds it and takes it out. -/
theorem skiplistDelete_split (hpre : ∀ b ∈ pre, b.addr < a.addr) :
    skiplistDelete a.addr (pre ++ a :: post) = .ok (pre ++ post) := by
  induction pre with
  | nil => simp [skiplistDelete]
  | cons b pre ih =>
    rw [List.forall_mem_cons] at hpre
    simp [skiplistDelete, hpre.1, ih hpre.2]

/-- The successor of the node `a`, after the nodes below its address, is the
    node after it. -/
theorem nodeAndNext_split (hpre : ∀ b ∈ pre, b.addr < a.addr) :
    nodeAndNext a.addr (pre ++ a :: post) = some (a, post.head?) := by
  induction pre with
  | nil => simp [nodeAndNext]
  | cons b pre ih =>
    rw [List.forall_mem_cons] at hpre
    simp [nodeAndNext, hpre.1.ne, ih hpre.2]

/-- `prev[0]` at `x`, where the nodes below `x` come first, is the last of
    them. -/
theorem predecessor_split (hpre : ∀ b ∈ pre, b.addr < x) (hpost : ∀ c ∈ post.head?, x ≤ c.addr) :
    predecessor x (pre ++ post) = pre.getLast? := by
  induction pre with
  | nil =>
    cases post with
    | nil => rfl
    | cons c post => simp [predecessor, not_lt.mpr (hpost c (by simp))]
  | cons b pre ih =>
    rw [List.forall_mem_cons] at hpre
    rw [List.cons_append, predecessor, if_pos hpre.1, ih hpre.2, List.getLast?_cons]
    cases pre.getLast? <;> rfl

end Split

/-- `Coalesce` of the node `a`, with the nodes below its address before it,
    and after it a chain whose first node `a` may touch but does not overlap:
    either that node does not start where `a` ends and nothing changes, or
    `a` absorbs it. Either way the node at `a`'s address and the nodes after
    it form a chain of nonempty nodes, covering what `a` and the nodes after
    it covered. -/
theorem coalesce_spec {pre post l' : List FreeBlock} {a : FreeBlock} {r r' : UInt32}
    (hpre : ∀ b ∈ pre, b.addr < a.addr) (ha : 0 < a.size)
    (hnext : ∀ n ∈ post.head?, a.addr + a.size ≤ n.addr) (hpost : post.IsChain Below)
    (hpos : ∀ c ∈ post, 0 < c.size) (h : coalesce r a.addr (pre ++ a :: post) = .ok (l', r')) :
    ∃ a' post', l' = pre ++ a' :: post' ∧ a'.addr = a.addr ∧ (a' :: post').IsChain Below ∧
      (∀ c ∈ a' :: post', 0 < c.size) ∧
      ∀ x, Covered ((a' :: post').map FreeBlock.toPair) x ↔
        Covered ((a :: post).map FreeBlock.toPair) x := by
  rw [coalesce, nodeAndNext_split hpre] at h
  cases post with
  | nil =>
    -- no next node: nothing changes
    cases h
    exact ⟨a, [], rfl, rfl, .singleton a, by simpa using ha, fun x => Iff.rfl⟩
  | cons n post =>
    have hn : a.addr + a.size ≤ n.addr := hnext n (by simp)
    rw [List.isChain_cons] at hpost
    by_cases htouch : a.addr + a.size = n.addr
    · -- `a` absorbs `n`: both are deleted, and `a` grown by `n` is inserted
      simp only [List.head?_cons, if_pos htouch] at h
      have hdel : skiplistDelete n.addr ((pre ++ [a]) ++ n :: post) = .ok ((pre ++ [a]) ++ post) :=
        skiplistDelete_split fun b hb => by
          rcases List.mem_append.mp hb with hb | hb
          · exact (hpre b hb).trans (by omega)
          · rw [List.mem_singleton.mp hb]; omega
      simp only [List.append_assoc, List.singleton_append] at hdel
      obtain ⟨l1, hl1, h⟩ := Except.bind_eq_ok.mp h
      rw [hdel] at hl1
      cases hl1
      obtain ⟨l2, hl2, h⟩ := Except.bind_eq_ok.mp h
      rw [skiplistDelete_split hpre] at hl2
      cases hl2
      obtain ⟨p, -, h⟩ := Except.bind_eq_ok.mp h
      have hafter : ∀ c ∈ post.head?, a.addr ≤ c.addr := fun c hc => by
        have := hpost.1 c hc
        unfold Below at this
        omega
      rw [skiplistInsert_split (e := ⟨a.addr, a.size + n.size, p.1⟩) hpre hafter] at h
      cases h
      refine ⟨_, post, rfl, rfl, List.isChain_cons.mpr ⟨fun c hc => ?_, hpost.2⟩, ?_, fun x => ?_⟩
      · have := hpost.1 c hc
        unfold Below at this ⊢
        dsimp only
        omega
      · intro c hc
        rcases List.mem_cons.mp hc with rfl | hc
        · dsimp only
          omega
        · exact hpos c (List.mem_cons_of_mem _ hc)
      · have hjoin : In x (FreeBlock.toPair ⟨a.addr, a.size + n.size, p.1⟩) ↔
            In x a.toPair ∨ In x n.toPair := in_join (b := a.toPair) (c := n.toPair) htouch
        simp only [List.map_cons, covered_cons, hjoin, or_assoc]
    · -- `n` starts past the end of `a`: nothing changes
      simp only [List.head?_cons, if_neg htouch] at h
      cases h
      refine ⟨a, n :: post, rfl, rfl, ?_, ?_, fun x => Iff.rfl⟩
      · refine List.isChain_cons_cons.mpr ⟨?_, List.isChain_cons.mpr hpost⟩
        unfold Below
        omega
      · intro c hc
        rcases List.mem_cons.mp hc with rfl | hc
        · exact ha
        · exact hpos c hc


/-- `Below` reads only the address of its second node: a chain that ends in
    `b` still is one with `b` replaced by a node at the same address. -/
theorem isChain_concat_of_addr_eq {pre : List FreeBlock} {b b' : FreeBlock}
    (h : (pre ++ [b]).IsChain Below) (hb : b'.addr = b.addr) : (pre ++ [b']).IsChain Below := by
  rw [List.isChain_append] at h ⊢
  obtain ⟨hpre, -, hlast⟩ := h
  refine ⟨hpre, .singleton b', fun c hc d hd => ?_⟩
  rw [List.head?_singleton, Option.mem_some_iff] at hd
  subst hd
  have := hlast c hc b (by simp)
  unfold Below at this ⊢
  omega

/-- A block that `AddToFreelist` takes in got its levels from
    `LLA_SkiplistLevels`. -/
theorem levels_of_addToFreelist {l : List FreeBlock} {f : ℕ × ℕ} {r : UInt32}
    {q : List FreeBlock × UInt32} (h : addToFreelist r f l = .ok q) :
    ∃ p, skiplistLevels r f.2 minSize true = .ok p := by
  obtain ⟨p, hp, -⟩ := Except.bind_eq_ok.mp h
  exact ⟨p, hp⟩

/-- `AddToFreelist` of a block apart from every free node keeps the free list
    a chain of nonempty nodes, which then covers what it covered and the
    block. The block is inserted at its address, then `Coalesce` merges it
    with the node after it if they touch, then with the node before it. -/
theorem addToFreelist_spec {l l' : List FreeBlock} {f : ℕ × ℕ} {r r' : UInt32}
    (hl : l.IsChain Below) (hpos : ∀ b ∈ l, 0 < b.size) (hf : ∀ b ∈ l, Apart b.toPair f)
    (h : addToFreelist r f l = .ok (l', r')) :
    l'.IsChain Below ∧ (∀ b ∈ l', 0 < b.size) ∧
      ∀ x, Covered (l'.map FreeBlock.toPair) x ↔ In x f ∨ Covered (l.map FreeBlock.toPair) x := by
  obtain ⟨p, hp, h⟩ := Except.bind_eq_ok.mp h
  have hf2 : 0 < f.2 := by
    have := le_size_of_skiplistLevels hp
    omega
  -- cut the list at `f`: the nodes before it end at or before its start, the
  -- nodes after it start at or after its end
  obtain ⟨pre, post, rfl, hpre, hpost⟩ := List.exists_split_of_pairwise FreeBlock.addr f.1
    ((List.isChain_iff_pairwise.mp hl).imp Below.addr_lt)
  have hpreEnd : ∀ b ∈ pre, b.addr + b.size ≤ f.1 := fun b hb =>
    (hf b (List.mem_append_left _ hb)).end_le hf2 (hpre b hb).le
  have hpostStart : ∀ c ∈ post, f.1 + f.2 ≤ c.addr := fun c hc =>
    (hf c (List.mem_append_right _ hc)).symm.end_le (hpos c (List.mem_append_right _ hc)) (hpost c hc)
  set f' : FreeBlock := ⟨f.1, f.2, p.1⟩ with hf'
  have hins : skiplistInsert f' (pre ++ post) = pre ++ f' :: post :=
    skiplistInsert_split hpre fun c hc => hpost c (List.mem_of_mem_head? hc)
  have hpred : predecessor f.1 (pre ++ f' :: post) = pre.getLast? :=
    predecessor_split hpre (by simp [f'])
  simp only [hins, hpred] at h
  -- `Coalesce(f)`, with the node after it
  obtain ⟨q, hq, h⟩ := Except.bind_eq_ok.mp h
  obtain ⟨g, post1, hq1, hg, hchain1, hpos1, hcov1⟩ := coalesce_spec (a := f') hpre hf2
    (fun c hc => hpostStart c (List.mem_of_mem_head? hc)) (List.isChain_append.mp hl).2.1
    (fun c hc => hpos c (List.mem_append_right _ hc)) hq
  have hff : f'.toPair = f := rfl
  rcases List.eq_nil_or_concat' pre with rfl | ⟨pre', b, rfl⟩
  · -- no node before `f`: `prev[0]` is the head, which touches no block
    simp only [List.getLast?_nil, Except.pure_eq_ok] at h
    subst h
    simp only [List.nil_append] at hq1 ⊢
    refine ⟨hq1 ▸ hchain1, hq1 ▸ hpos1, fun x => ?_⟩
    rw [hq1, hcov1 x]
    simp [hff]
  · -- `Coalesce(prev[0])`, with `f` grown by its successor
    rw [List.getLast?_concat] at h
    simp only [hq1, List.append_assoc, List.singleton_append] at h
    have hsorted := (List.pairwise_append.mp (List.isChain_iff_pairwise.mp hl)).1
    have hpre' : ∀ c ∈ pre', c.addr < b.addr := fun c hc =>
      ((List.pairwise_append.mp hsorted).2.2 c hc b (List.mem_singleton_self b)).addr_lt
    have hnext : ∀ n ∈ (g :: post1).head?, b.addr + b.size ≤ n.addr := by
      intro n hn
      rw [List.head?_cons, Option.mem_some_iff] at hn
      subst hn
      rw [hg]
      exact hpreEnd b (by simp)
    obtain ⟨b', post2, rfl, hb', hchain2, hpos2, hcov2⟩ :=
      coalesce_spec (a := b) hpre' (hpos b (by simp)) hnext hchain1 hpos1 h
    refine ⟨List.isChain_split.mpr ⟨isChain_concat_of_addr_eq (List.isChain_append.mp hl).1 hb',
      hchain2⟩, ?_, fun x => ?_⟩
    · intro c hc
      rcases List.mem_append.mp hc with hc | hc
      · exact hpos c (by simp [hc])
      · exact hpos2 c hc
    · have h1 := hcov1 x
      have h2 := hcov2 x
      simp only [List.map_append, List.map_cons, List.map_nil, covered_append, covered_cons,
        covered_nil, or_false, hff] at h1 h2 ⊢
      rw [h2, h1]
      simp only [or_comm, or_left_comm, or_assoc]

/-- The free list `l` and the allocated blocks `A` tile the addresses `U`:
    the free list is a chain, every block is nonempty, no two blocks share an
    address, and together they cover `U`. -/
structure Tiles (l : List FreeBlock) (A : List (ℕ × ℕ)) (U : ℕ → Prop) : Prop where
  /-- The free list is in address order, and no two free nodes touch. -/
  chain : l.IsChain Below
  /-- Every block has an address. -/
  pos : ∀ b ∈ l.map FreeBlock.toPair ++ A, 0 < b.2
  /-- No two blocks share an address. -/
  apart : (l.map FreeBlock.toPair ++ A).Pairwise Apart
  /-- The blocks cover exactly `U`. -/
  cover : ∀ x, Covered (l.map FreeBlock.toPair ++ A) x ↔ U x

section Tiles

variable {l l' : List FreeBlock} {A : List (ℕ × ℕ)} {U : ℕ → Prop} {f : ℕ × ℕ} {r r' : UInt32}

/-- The nodes of a free list and the blocks of a list, all nonempty. -/
theorem pos_append {A' : List (ℕ × ℕ)} (hl : ∀ b ∈ l', 0 < b.size) (hA : ∀ b ∈ A', 0 < b.2) :
    ∀ b ∈ l'.map FreeBlock.toPair ++ A', 0 < b.2 := by
  intro b hb
  rcases List.mem_append.mp hb with hb | hb
  · obtain ⟨c, hc, rfl⟩ := List.mem_map.mp hb
    exact hl c hc
  · exact hA b hb

theorem Tiles.size_pos (ht : Tiles l A U) : ∀ b ∈ l, 0 < b.size := fun b hb =>
  ht.pos b.toPair (List.mem_append_left _ (List.mem_map_of_mem hb))

/-- A tiling depends on its blocks, not on the order they are listed in. -/
theorem Tiles.of_perm {A' : List (ℕ × ℕ)} (ht : Tiles l A U) (hchain : l'.IsChain Below)
    (hperm : (l.map FreeBlock.toPair ++ A).Perm (l'.map FreeBlock.toPair ++ A')) : Tiles l' A' U where
  chain := hchain
  pos b hb := ht.pos b (hperm.mem_iff.mpr hb)
  apart := ht.apart.perm hperm fun h => h.symm
  cover x := (covered_perm hperm).symm.trans (ht.cover x)

/-- No block tiles no address. -/
theorem Tiles.nil : Tiles [] [] fun _ => False where
  chain := .nil
  pos := by simp
  apart := .nil
  cover := by simp

/-- `AddToFreelist` of the allocated block `f` keeps the tiling. -/
theorem Tiles.free (ht : Tiles l A U) (hf : f ∈ A) (h : addToFreelist r f l = .ok (l', r')) :
    Tiles l' (A.erase f) U := by
  -- the blocks are `f`, the free list, and the other allocated blocks
  have hperm : (l.map FreeBlock.toPair ++ A).Perm ((f :: l.map FreeBlock.toPair) ++ A.erase f) :=
    ((List.perm_cons_erase hf).append_left _).trans List.perm_middle
  have hapart := ht.apart.perm hperm fun h => h.symm
  have hfl : ∀ b ∈ l, Apart b.toPair f := fun b hb =>
    ((List.pairwise_cons.mp hapart).1 b.toPair
      (List.mem_append_left _ (List.mem_map_of_mem hb))).symm
  obtain ⟨hchain, hpos, hcov⟩ := addToFreelist_spec ht.chain ht.size_pos hfl h
  refine ⟨hchain, pos_append hpos fun b hb => ht.pos b (List.mem_append_right _ (List.mem_of_mem_erase hb)),
    pairwise_apart_of_covered hapart (pairwise_apart_of_isChain hchain) fun x hx => ?_, fun x => ?_⟩
  · rw [hcov] at hx
    simpa using hx
  · rw [← ht.cover x, covered_perm hperm, covered_append, covered_append, hcov, covered_cons]

/-- `AddToFreelist` of a block `f` outside the tiled addresses tiles them
    and `f`. -/
theorem Tiles.insert {U' : ℕ → Prop} (ht : Tiles l A U) (hfU : ∀ x, In x f → ¬ U x)
    (hU' : ∀ x, U' x ↔ In x f ∨ U x) (h : addToFreelist r f l = .ok (l', r')) : Tiles l' A U' := by
  have hfb : ∀ b ∈ l.map FreeBlock.toPair ++ A, Apart f b := fun b hb x hxf hxb =>
    hfU x hxf ((ht.cover x).mp ⟨b, hb, hxb⟩)
  have hapart : ((f :: l.map FreeBlock.toPair) ++ A).Pairwise Apart :=
    List.pairwise_cons.mpr ⟨hfb, ht.apart⟩
  obtain ⟨hchain, hpos, hcov⟩ := addToFreelist_spec ht.chain ht.size_pos
    (fun b hb => (hfb b.toPair (List.mem_append_left _ (List.mem_map_of_mem hb))).symm) h
  refine ⟨hchain, pos_append hpos fun b hb => ht.pos b (List.mem_append_right _ hb),
    pairwise_apart_of_covered hapart (pairwise_apart_of_isChain hchain) fun x hx => ?_, fun x => ?_⟩
  · rw [hcov] at hx
    simpa using hx
  · rw [hU', ← ht.cover x, covered_append, covered_append, hcov, or_assoc]

/-- `LLA_SkiplistDelete` of a free node moves it to the allocated blocks. -/
theorem Tiles.take_whole {b : FreeBlock} {l1 : List FreeBlock} (ht : Tiles l A U) (hb : b ∈ l)
    (h : skiplistDelete b.addr l = .ok l1) : Tiles l1 (b.toPair :: A) U := by
  obtain ⟨pre, post, rfl⟩ := List.append_of_mem hb
  have hpre : ∀ c ∈ pre, c.addr < b.addr := fun c hc =>
    ((List.pairwise_append.mp (List.isChain_iff_pairwise.mp ht.chain)).2.2 c hc b
      List.mem_cons_self).addr_lt
  rw [skiplistDelete_split hpre] at h
  cases h
  refine ht.of_perm (ht.chain.sublist ((List.sublist_cons_self b post).append_left pre)) ?_
  simp only [List.map_append, List.map_cons, List.append_assoc]
  exact List.perm_middle.symm.append_left _

/-- Cutting the allocated block `c` in two, `k` bytes from its start, keeps
    the tiling. -/
theorem Tiles.cut {c : ℕ × ℕ} {k : ℕ} (ht : Tiles l (c :: A) U) (hk : 0 < k) (hkc : k < c.2) :
    Tiles l ((c.1 + k, c.2 - k) :: (c.1, k) :: A) U := by
  have hperm : (l.map FreeBlock.toPair ++ c :: A).Perm ([c] ++ (l.map FreeBlock.toPair ++ A)) :=
    List.perm_middle
  have hperm' : ([(c.1 + k, c.2 - k), (c.1, k)] ++ (l.map FreeBlock.toPair ++ A)).Perm
      (l.map FreeBlock.toPair ++ (c.1 + k, c.2 - k) :: (c.1, k) :: A) := by
    simp only [List.cons_append, List.nil_append]
    exact (List.perm_middle.trans (List.perm_middle.cons _)).symm
  have hcut : ∀ x, In x c ↔ In x (c.1, k) ∨ In x (c.1 + k, c.2 - k) := fun x => in_cut hkc.le
  refine ⟨ht.chain, fun b hb => ?_, ?_, fun x => ?_⟩
  · simp only [List.mem_append, List.mem_cons] at hb
    rcases hb with hb | rfl | rfl | hb
    · exact ht.pos b (List.mem_append_left _ hb)
    · exact Nat.sub_pos_of_lt hkc
    · exact hk
    · exact ht.pos b (List.mem_append_right _ (List.mem_cons_of_mem _ hb))
  · refine (pairwise_apart_of_covered (ht.apart.perm hperm fun h => h.symm) ?_ fun x hx => ?_).perm
      hperm' fun h => h.symm
    · refine List.pairwise_pair.mpr fun x hx hx' => ?_
      unfold In at hx hx'
      omega
    · simp only [covered_cons, covered_nil, or_false] at hx ⊢
      rw [hcut]
      tauto
  · rw [← ht.cover x]
    simp only [covered_append, covered_cons, hcut]
    tauto

/-- Handing out the first `k` bytes of the free node `b`, and freeing the
    rest, as `AllocWithArena` splits a block, keeps the tiling. -/
theorem Tiles.take {b : FreeBlock} {l1 : List FreeBlock} {k : ℕ} (ht : Tiles l A U) (hb : b ∈ l)
    (hk : 0 < k) (hkb : k < b.size) (hdel : skiplistDelete b.addr l = .ok l1)
    (h : addToFreelist r (b.addr + k, b.size - k) l1 = .ok (l', r')) :
    Tiles l' ((b.addr, k) :: A) U := by
  -- the node goes to the allocated blocks, is cut in two, and its tail is freed
  have ht' : Tiles l' (((b.addr + k, b.size - k) :: (b.addr, k) :: A).erase (b.addr + k, b.size - k)) U :=
    ((ht.take_whole hb hdel).cut hk hkb).free List.mem_cons_self h
  rwa [List.erase_cons_head] at ht'

/-- The free list covers what the blocks tile, less the allocated blocks. -/
theorem Tiles.covered_free_iff (ht : Tiles l A U) (x : ℕ) :
    Covered (l.map FreeBlock.toPair) x ↔ U x ∧ ¬ Covered A x := by
  constructor
  · intro hx
    refine ⟨(ht.cover x).mp (covered_append.mpr (.inl hx)), ?_⟩
    rintro ⟨c, hc, hxc⟩
    obtain ⟨b, hb, hxb⟩ := hx
    exact (List.pairwise_append.mp ht.apart).2.2 b hb c hc x hxb hxc
  · rintro ⟨hU, hA⟩
    exact ((covered_append.mp ((ht.cover x).mpr hU)).resolve_right hA)

/-- An allocated block lies in what the blocks tile, apart from every other
    block. -/
theorem Tiles.of_mem_allocated {c : ℕ × ℕ} {A' : List (ℕ × ℕ)} (ht : Tiles l (c :: A') U) :
    (∀ x, In x c → U x) ∧ ∀ b ∈ l.map FreeBlock.toPair ++ A', Apart c b := by
  have hperm : (l.map FreeBlock.toPair ++ c :: A').Perm (c :: (l.map FreeBlock.toPair ++ A')) :=
    List.perm_middle
  refine ⟨fun x hx => (ht.cover x).mp ⟨c, List.mem_append_right _ List.mem_cons_self, hx⟩, ?_⟩
  exact List.pairwise_cons.mp (ht.apart.perm hperm fun h => h.symm) |>.1

end Tiles

end LowLevelAlloc

end Gperftools
