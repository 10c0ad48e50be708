import Gperftools.LowLevelAlloc.Arena

/-!
# Arena teardown

`DeleteArena` walks level `0` of the free list of an arena with no allocated
block, unmaps every node but the one just after the `Arena` object, and
unmaps that one last, with the object, as one region of `size + sizeof(Arena)`
bytes. It returns every region `MapPages` returned, once each, when the free
list holds exactly one node per region, each spanning its region: the
coalescing of `AddToFreelist` has to be complete, whatever the order of the
calls to `Free` and the levels `Random()` drew.

That is what the invariant gives. With nothing allocated, the free list
tiles the regions less the `Arena` object; both are separated families of
nonempty blocks, since `Next` keeps free nodes from touching and no region
touches another; and such families covering the same addresses are the same
blocks (`Intervals.perm_of_covered_iff`).

* `deleteArena_of_inv`: from the invariant, `DeleteArena` unmaps the regions;
* `deleteArena_unmaps_regions`: for every run from a new arena.
-/

namespace Gperftools

namespace LowLevelAlloc

open Intervals

/-- The loop of `DeleteArena` over nodes not at the first region unmaps each
    of them. -/
theorem deleteLoop_of_forall_ne {x : ℕ} (seen : Option ℕ) :
    ∀ {l : List FreeBlock}, (∀ c ∈ l, c.addr ≠ x) →
      deleteLoop x seen l = .ok (seen, l.map FreeBlock.toPair)
  | [], _ => rfl
  | c :: l, h => by
    rw [List.forall_mem_cons] at h
    rw [deleteLoop, if_neg h.1, deleteLoop_of_forall_ne seen h.2]
    rfl

/-- Over a list with one node at the first region, the loop sees that node
    once and unmaps the others. -/
theorem deleteLoop_split {x : ℕ} {b : FreeBlock} {post : List FreeBlock} (hb : b.addr = x)
    (hpost : ∀ c ∈ post, c.addr ≠ x) :
    ∀ {pre : List FreeBlock}, (∀ c ∈ pre, c.addr ≠ x) →
      deleteLoop x none (pre ++ b :: post) = .ok (some b.size, (pre ++ post).map FreeBlock.toPair)
  | [], _ => by
    rw [List.nil_append, deleteLoop, if_pos hb, if_neg (by simp), deleteLoop_of_forall_ne _ hpost,
      List.nil_append]
  | c :: pre, h => by
    rw [List.forall_mem_cons] at h
    rw [List.cons_append, deleteLoop, if_neg h.1, deleteLoop_split hb hpost h.2]
    rfl

/-- An arena that keeps the invariant, whose blocks have all been freed and
    whose regions are separated: its free list is one node per region, the
    whole region less the `Arena` object for the first, and `DeleteArena`
    returns `true` and unmaps each region once, with the address and size
    `MapPages` gave it. -/
theorem deleteArena_of_inv {s : Arena} (hinv : Inv s) (hfreed : s.allocated = [])
    (hsep : s.regions.Pairwise Separated) (hlt : ∀ R ∈ s.regions, R.1 + R.2 < 2 ^ 64) :
    (s.freelist.map FreeBlock.toPair).Perm (usable s.regions) ∧
      ∃ unmapped, deleteArena s = .ok (true, unmapped) ∧ unmapped.Perm s.regions := by
  obtain ⟨got, hhead, hroom⟩ := hinv.first
  obtain ⟨rs, hregions⟩ : ∃ rs, s.regions = (s.self, got) :: rs := by
    cases hr : s.regions with
    | nil => simp [hr] at hhead
    | cons R rs =>
      rw [hr, List.head?_cons, Option.some_inj] at hhead
      exact ⟨rs, by rw [hhead]⟩
  -- the free nodes and the regions less the `Arena` object are separated
  -- families of nonempty blocks covering the same addresses: the same blocks
  have hperm : (s.freelist.map FreeBlock.toPair).Perm (usable s.regions) := by
    refine perm_of_covered_iff
      (List.pairwise_map.mpr ((List.isChain_iff_pairwise.mp hinv.tiles.chain).imp fun h => .inl h))
      (hregions ▸ usable_pairwise_separated (hregions ▸ hsep) hroom)
      (fun b hb => hinv.tiles.pos b (List.mem_append_left _ hb)) hinv.usable_pos fun x => ?_
    simpa [hfreed] using hinv.tiles.cover x
  -- so the first region's node is in the list, after the nodes below it
  obtain ⟨b, hb, hbpair⟩ := List.mem_map.mp
    (hperm.mem_iff.mpr (by rw [hregions]; exact List.mem_cons_self))
  obtain ⟨pre, post, hsplit⟩ := List.append_of_mem hb
  have hsorted := List.isChain_iff_pairwise.mp hinv.tiles.chain
  rw [hsplit, List.pairwise_append, List.pairwise_cons] at hsorted
  have hbaddr : b.addr = s.self + arenaSize := congrArg Prod.fst hbpair
  have hloop : deleteLoop (s.self + arenaSize) none s.freelist =
      .ok (some b.size, (pre ++ post).map FreeBlock.toPair) := by
    rw [hsplit]
    exact deleteLoop_split hbaddr (fun c hc => hbaddr ▸ (hsorted.2.1.1 c hc).addr_lt.ne')
      fun c hc => hbaddr ▸ (hsorted.2.2 c hc b List.mem_cons_self).addr_lt.ne
  have hgot : got < 2 ^ 64 := by
    have := hlt _ (by rw [hregions]; exact List.mem_cons_self)
    dsimp only at this
    omega
  have hadd : Word.add 64 b.size arenaSize = got := by
    have hbsize : b.size = got - arenaSize := congrArg Prod.snd hbpair
    rw [hbsize, Word.add_of_lt (by omega)]
    omega
  refine ⟨hperm, (pre ++ post).map FreeBlock.toPair ++ [(s.self, got)], ?_, ?_⟩
  · have hcount : ¬ s.allocationCount ≠ 0 := by
      rw [hinv.count, hfreed]
      simp
    rw [deleteArena, if_neg hcount, hloop, ← hadd]
    rfl
  · -- the other nodes are the other regions
    have hrest : ((pre ++ post).map FreeBlock.toPair).Perm rs := by
      have h := hperm
      rw [hsplit, hregions, usable, List.map_append, List.map_cons, ← hbpair] at h
      rw [List.map_append]
      exact (List.perm_middle.symm.trans h).cons_inv
    rw [hregions]
    exact (hrest.append_right _).trans (List.perm_append_singleton _ _)

/-- Arena teardown returns every region exactly. For an arena made by
    `NewArenaWithCustomAlloc(a)`, after any run of `AllocWithArena` and `Free`
    calls that leaves no block allocated, where no region `MapPages`
    returned touches another: the regions are the answers of `MapPages`,
    call by call; every region is again one free node spanning it, after the
    `Arena` object for the first; and `DeleteArena` returns `true` and calls
    `UnMapPages` once per region, with the pair `MapPages` returned. -/
theorem deleteArena_unmaps_regions (a : PagesAllocator) (r : UInt32) (rounds : ℕ) (calls : List Call)
    {s₀ s : Arena} (hnew : newArenaWithCustomAlloc a r = .ok s₀) (hrun : run a rounds s₀ calls = .ok s)
    (hsep : s.regions.Pairwise Separated) (hfreed : s.allocated = []) :
    (∀ k (hk : k < s.regions.length), ∃ n, s.regions[k] = a.mapPages k n) ∧
      (s.freelist.map FreeBlock.toPair).Perm (usable s.regions) ∧
      ∃ unmapped, deleteArena s = .ok (true, unmapped) ∧ unmapped.Perm s.regions := by
  have hlog : Logged a s.regions := (grows_run hrun).logged (logged_newArena hnew)
  have hlt : ∀ R ∈ s.regions, R.1 + R.2 < 2 ^ 64 := fun R hR => by
    obtain ⟨k, hk, rfl⟩ := List.mem_iff_getElem.mp hR
    obtain ⟨n, hn⟩ := hlog k hk
    rw [hn]
    exact a.lt k n
  exact ⟨hlog, deleteArena_of_inv ((Inv.newArena hnew).run hrun hsep) hfreed hsep hlt⟩

/-- A pages allocator that maps its `k`-th region, of `2 ^ 20` bytes, at
    `(k % 2 ^ 16 + 1) * 2 ^ 32`: its regions never touch. -/
def spacedPages : PagesAllocator where
  mapPages k _ := (2 ^ 32 * (k % 2 ^ 16 + 1), 2 ^ 20)
  lt k _ := by
    dsimp only
    omega

/-- The arena `NewArenaWithCustomAlloc(spacedPages)` makes, from `Random()`'s
    first `r`. -/
def spacedArena : Arena :=
  ⟨2 ^ 32, [⟨2 ^ 32 + 320, 2 ^ 20 - 320, 15⟩], [], 0, 1103527590, [(2 ^ 32, 2 ^ 20)]⟩

/-- The same arena after `100` bytes and then `1048300` bytes were allocated,
    the second in a new region, and both were freed. -/
def spacedArenaFreed : Arena :=
  ⟨2 ^ 32, [⟨2 ^ 32 + 320, 2 ^ 20 - 320, 15⟩, ⟨2 ^ 33, 2 ^ 20, 15⟩], [], 0, 3535774167,
    [(2 ^ 32, 2 ^ 20), (2 ^ 33, 2 ^ 20)]⟩

theorem deleteArena_unmaps_regions_spaced :
    newArenaWithCustomAlloc spacedPages 1 = .ok spacedArena ∧
      run spacedPages 1 spacedArena
          [.alloc 100, .alloc 1048300, .free (2 ^ 32 + 352), .free (2 ^ 33 + 32)] =
        .ok spacedArenaFreed ∧
      spacedArenaFreed.regions.Pairwise Separated ∧ spacedArenaFreed.allocated = [] ∧
      (∀ k (hk : k < spacedArenaFreed.regions.length),
        ∃ n, spacedArenaFreed.regions[k] = spacedPages.mapPages k n) ∧
      (spacedArenaFreed.freelist.map FreeBlock.toPair).Perm (usable spacedArenaFreed.regions) ∧
      ∃ unmapped, deleteArena spacedArenaFreed = .ok (true, unmapped) ∧
        unmapped.Perm spacedArenaFreed.regions := by
  have hnew : newArenaWithCustomAlloc spacedPages 1 = .ok spacedArena := by decide +kernel
  have hrun : run spacedPages 1 spacedArena
      [.alloc 100, .alloc 1048300, .free (2 ^ 32 + 352), .free (2 ^ 33 + 32)] =
      .ok spacedArenaFreed := by decide +kernel
  have hsep : spacedArenaFreed.regions.Pairwise Separated := by decide
  exact ⟨hnew, hrun, hsep, rfl, deleteArena_unmaps_regions spacedPages 1 1 _ hnew hrun hsep rfl⟩

end LowLevelAlloc

end Gperftools
