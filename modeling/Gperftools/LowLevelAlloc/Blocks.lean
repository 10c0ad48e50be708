import Gperftools.LowLevelAlloc.Teardown

/-!
# The blocks an arena hands out

What a caller of an arena is guaranteed, for every arena that a run of calls
reaches from `NewArenaWithCustomAlloc`, as long as no region `MapPages`
returned touches another:

* `allocWithArena_fresh`: `AllocWithArena(request)` returns the address after
  the header of a block that lies in the regions, outside the `Arena` object,
  shares no address with a free node or a block still allocated, and whose
  `UsableSize` is at least `request`. A request so large that
  `request + sizeof(header)` or its rounding wraps is refused by the
  `RAW_CHECK` of `LLA_SkiplistLevels` instead (`add_headerSize_le_of_roundUp`);
* `free_allocWithArena`: `Free` of that address puts the arena back as it
  was, but for the regions the call mapped: the same blocks are allocated, and
  the free nodes cover the same addresses and the new regions. Coalescing may
  leave other nodes, with other levels.

Both read the call once (`allocWithArena_block`, and for the release
`free_of_allocWithArena`) and take the rest from the invariant of `Inv.run`.
-/

namespace Gperftools

namespace LowLevelAlloc

open Intervals

/-- A rounded request given a level has room for the request and its header:
    where `request + sizeof(header)` or its rounding wraps, `req_rnd` is below
    `48` bytes. -/
theorem add_headerSize_le_of_roundUp {request : ℕ} (hreq : request < 2 ^ 64)
    (h : 48 ≤ roundUp (Word.add 64 request headerSize) roundup) :
    request + headerSize ≤ roundUp (Word.add 64 request headerSize) roundup := by
  unfold headerSize at h ⊢
  have hsum : Word.add 64 request 32 = (request + 32) % 2 ^ 64 := rfl
  -- the mask never raises the word it is applied to
  have hmask : roundUp (Word.add 64 request 32) roundup ≤ (Word.add 64 request 32 + 31) % 2 ^ 64 :=
    Nat.and_le_left
  by_cases hround : Word.add 64 request 32 + 31 < 2 ^ 64
  · have h32 : (2 : ℕ) ^ 5 = 32 := rfl
    rw [show roundup = 2 ^ 5 from rfl, roundUp_eq (by decide) (by omega), h32] at h ⊢
    -- the sum wraps only to below `32`, which rounds to at most `32`
    omega
  · -- the rounding wraps to below `31`
    omega

/-- What a successful `AllocWithArena(request)` of an arena with the invariant
    hands out: the address after the header of a block at least as large as
    the rounded request, which goes to the front of the allocated blocks. The
    arena after it keeps the invariant, when its regions are separated. -/
theorem allocWithArena_block {a : PagesAllocator} {rounds request p : ℕ} {s s' : Arena}
    (hinv : Inv s) (hreq : 0 < request) (halloc : allocWithArena a rounds request s = .ok (p, s'))
    (hsep : s'.regions.Pairwise Separated) :
    ∃ b k, p = b + headerSize ∧ s'.allocated = (b, k) :: s.allocated ∧
      roundUp (Word.add 64 request headerSize) roundup ≤ k ∧
      48 ≤ roundUp (Word.add 64 request headerSize) roundup ∧ Inv s' := by
  rcases allocWithArena_eq_ok halloc with ⟨h0, -, -⟩ | ⟨reqRnd, b, s₁, l, rfl, rfl, hloop, -, hs'⟩
  · omega
  · have hregions : s'.regions = s₁.regions := by
      rcases hs' with ⟨-, q, -, rfl⟩ | ⟨-, rfl⟩ <;> rfl
    obtain ⟨-, -, hfit, h48⟩ := allocLoop_spec hinv hloop (hregions ▸ hsep)
    have hallocated := (grows_allocLoop hloop).2
    -- the request rounded, split off the node, or the whole node
    have hblock : ∃ k, s'.allocated = (b.addr, k) :: s.allocated ∧
        roundUp (Word.add 64 request headerSize) roundup ≤ k := by
      rcases hs' with ⟨-, q, -, rfl⟩ | ⟨-, rfl⟩
      · exact ⟨_, by rw [← hallocated], le_refl _⟩
      · exact ⟨_, by rw [← hallocated], hfit⟩
    obtain ⟨k, hk, hreqk⟩ := hblock
    exact ⟨b.addr, k, rfl, hk, hreqk, h48, hinv.allocWithArena halloc hsep⟩

section Run

variable {a : PagesAllocator} {r : UInt32} {rounds request p : ℕ} {calls : List Call}
  {s₀ s s' : Arena}

/-- An arena that a run reaches keeps the invariant, and so does the arena
    after a further `AllocWithArena`, whose regions end below `2 ^ 64`. -/
theorem inv_of_run_alloc (hnew : newArenaWithCustomAlloc a r = .ok s₀)
    (hrun : run a rounds s₀ calls = .ok s) (halloc : allocWithArena a rounds request s = .ok (p, s'))
    (hsep : s'.regions.Pairwise Separated) :
    Inv s ∧ Grows a s.regions s'.regions ∧ ∀ R ∈ s'.regions, R.1 + R.2 < 2 ^ 64 := by
  have hstep : step a rounds s (.alloc request) = .ok s' := Except.map_eq_ok.mpr ⟨_, halloc, rfl⟩
  have hgrows := grows_step hstep
  refine ⟨(Inv.newArena hnew).run hrun (hsep.sublist hgrows.earlier.sublist), hgrows, ?_⟩
  exact ((grows_run hrun).trans hgrows).logged (logged_newArena hnew) |>.lt

/-- The header of a block that lies in the regions is just before the address
    handed out: the subtraction of `Free` and `UsableSize` does not wrap. -/
theorem sub_headerSize_of_block {b k : ℕ} (hinv : Inv s') (hk : (b, k) ∈ s'.allocated)
    (h48 : 48 ≤ k) (hlt : ∀ R ∈ s'.regions, R.1 + R.2 < 2 ^ 64) :
    Word.sub 64 (b + headerSize) headerSize = b := by
  have hU : Covered (usable s'.regions) (b + headerSize) :=
    (hinv.tiles.cover _).mp (covered_append.mpr (.inr ⟨(b, k), hk, by unfold In headerSize; omega⟩))
  obtain ⟨R, hR, hxR⟩ := exists_region_of_covered_usable hU
  have := hlt R hR
  unfold In at hxR
  rw [Word.sub_of_le (by omega) (by omega), Nat.add_sub_cancel]

/-- Allocation hands out fresh memory. For every run from a new arena, and a
    further successful `AllocWithArena(request)` with `0 < request < 2 ^ 64`,
    where no two regions `MapPages` returned touch: the pointer is the address
    after the header of a block, now the first allocated one, of at least
    `request + sizeof(header)` bytes; `UsableSize` of the pointer is its size
    less the header; every address of it lies in the regions, outside the
    `Arena` object; and it shares no address with a free node or a block
    allocated before. -/
theorem allocWithArena_fresh (hnew : newArenaWithCustomAlloc a r = .ok s₀)
    (hrun : run a rounds s₀ calls = .ok s) (hreq : 0 < request) (hreq' : request < 2 ^ 64)
    (halloc : allocWithArena a rounds request s = .ok (p, s'))
    (hsep : s'.regions.Pairwise Separated) :
    ∃ k, s'.allocated = (p - headerSize, k) :: s.allocated ∧ request + headerSize ≤ k ∧
      usableSize s' p = some (k - headerSize) ∧
      (∀ x, In x (p - headerSize, k) → Covered (usable s'.regions) x) ∧
      ∀ c ∈ s'.freelist.map FreeBlock.toPair ++ s.allocated, Apart (p - headerSize, k) c := by
  obtain ⟨hinv, -, hlt⟩ := inv_of_run_alloc hnew hrun halloc hsep
  obtain ⟨b, k, rfl, hk, hreqk, h48, hinv'⟩ := allocWithArena_block hinv hreq halloc hsep
  have hroom := add_headerSize_le_of_roundUp hreq' h48
  have hb : b + headerSize - headerSize = b := Nat.add_sub_cancel _ _
  have hsub := sub_headerSize_of_block hinv' (hk ▸ List.mem_cons_self) (by omega) hlt
  -- the block is allocated, so inside the tiling and apart from every other block
  have hwhole := (hk ▸ hinv'.tiles).of_mem_allocated
  refine ⟨k, by rw [hb, hk], by omega, ?_, by rw [hb]; exact hwhole.1, by rw [hb]; exact hwhole.2⟩
  simp [usableSize, hsub, hk]

end Run

/-- `spacedArena` after `AllocWithArena(100)`. -/
def spacedArenaOne : Arena :=
  ⟨2 ^ 32, [⟨2 ^ 32 + 480, 1048096, 17⟩], [(2 ^ 32 + 320, 160)], 1, 3295386429, [(2 ^ 32, 2 ^ 20)]⟩

/-- Then after `AllocWithArena(1048300)`, which maps a second region and takes
    the block at its start. -/
def spacedArenaTwo : Arena :=
  ⟨2 ^ 32, [⟨2 ^ 32 + 480, 1048096, 17⟩, ⟨2 ^ 33 + 1048352, 224, 4⟩],
    [(2 ^ 33, 1048352), (2 ^ 32 + 320, 160)], 2, 3655513600, [(2 ^ 32, 2 ^ 20), (2 ^ 33, 2 ^ 20)]⟩

theorem allocWithArena_fresh_spaced :
    newArenaWithCustomAlloc spacedPages 1 = .ok spacedArena ∧
      run spacedPages 1 spacedArena [.alloc 100] = .ok spacedArenaOne ∧ 0 < 1048300 ∧
      1048300 < 2 ^ 64 ∧
      allocWithArena spacedPages 1 1048300 spacedArenaOne = .ok (2 ^ 33 + 32, spacedArenaTwo) ∧
      spacedArenaTwo.regions.Pairwise Separated ∧
      ∃ k, spacedArenaTwo.allocated = (2 ^ 33 + 32 - headerSize, k) :: spacedArenaOne.allocated ∧
        1048300 + headerSize ≤ k ∧ usableSize spacedArenaTwo (2 ^ 33 + 32) = some (k - headerSize) ∧
        (∀ x, In x (2 ^ 33 + 32 - headerSize, k) → Covered (usable spacedArenaTwo.regions) x) ∧
        ∀ c ∈ spacedArenaTwo.freelist.map FreeBlock.toPair ++ spacedArenaOne.allocated,
          Apart (2 ^ 33 + 32 - headerSize, k) c := by
  have hnew : newArenaWithCustomAlloc spacedPages 1 = .ok spacedArena := by decide +kernel
  have hrun : run spacedPages 1 spacedArena [.alloc 100] = .ok spacedArenaOne := by decide +kernel
  have halloc : allocWithArena spacedPages 1 1048300 spacedArenaOne = .ok (2 ^ 33 + 32, spacedArenaTwo) := by
    decide +kernel
  have hsep : spacedArenaTwo.regions.Pairwise Separated := by decide
  exact ⟨hnew, hrun, by decide, by decide, halloc, hsep,
    allocWithArena_fresh hnew hrun (by decide) (by decide) halloc hsep⟩

section Run

variable {a : PagesAllocator} {r : UInt32} {rounds request p : ℕ} {calls : List Call}
  {s₀ s s' : Arena}

/-- `Free` of the pointer `AllocWithArena` returned takes back the block the
    allocation took, and its count. -/
theorem free_of_allocWithArena {s'' : Arena} (hinv : Inv s) (hlt : ∀ R ∈ s'.regions, R.1 + R.2 < 2 ^ 64)
    (halloc : allocWithArena a rounds request s = .ok (p, s')) (hsep : s'.regions.Pairwise Separated)
    (hfree : free s' p = .ok s'') :
    s''.allocated = s.allocated ∧ s''.allocationCount = s.allocationCount ∧ s''.regions = s'.regions := by
  rcases Nat.eq_zero_or_pos request with rfl | hreq
  · -- a request of `0` returns `nullptr`, which `Free` ignores
    have h0 : allocWithArena a rounds 0 s = .ok (0, s) := by rw [allocWithArena, if_pos rfl]
    obtain ⟨rfl, rfl⟩ := Prod.mk.inj (Except.ok.inj (h0.symm.trans halloc))
    have hnull : free s 0 = .ok s := by rw [free, if_pos rfl]
    obtain rfl := Except.ok.inj (hnull.symm.trans hfree)
    exact ⟨rfl, rfl, rfl⟩
  · obtain ⟨b, k, rfl, hk, hreqk, h48, hinv'⟩ := allocWithArena_block hinv hreq halloc hsep
    have hsub := sub_headerSize_of_block hinv' (hk ▸ List.mem_cons_self) (by omega) hlt
    rcases free_eq_ok hfree with ⟨hp, -⟩ | ⟨block, q, hfind, -, -, rfl⟩
    · unfold headerSize at hp
      omega
    · rw [hsub, hk, List.find?_cons_of_pos (by simp)] at hfind
      cases hfind
      refine ⟨by simp [hk], ?_, rfl⟩
      rw [hinv'.count, hinv.count, hk]
      rfl

/-- Allocation followed by release restores the arena. For every run from a
    new arena, a further successful `AllocWithArena(request)` with
    `request < 2 ^ 64`, where no two regions `MapPages` returned touch, and
    `Free` of the pointer it returns, when that succeeds: the allocated blocks
    and `allocation_count` are those before the allocation, the regions are
    those after it, and the free nodes cover the addresses they covered
    before, and the regions the allocation mapped. -/
theorem free_allocWithArena {s'' : Arena} (hnew : newArenaWithCustomAlloc a r = .ok s₀)
    (hrun : run a rounds s₀ calls = .ok s) (halloc : allocWithArena a rounds request s = .ok (p, s'))
    (hsep : s'.regions.Pairwise Separated) (hfree : free s' p = .ok s'') :
    s''.allocated = s.allocated ∧ s''.allocationCount = s.allocationCount ∧
      s''.regions = s'.regions ∧
      ∀ x, Covered (s''.freelist.map FreeBlock.toPair) x ↔
        Covered (s.freelist.map FreeBlock.toPair) x ∨ Covered (s'.regions.drop s.regions.length) x := by
  obtain ⟨hinv, hgrows, hlt⟩ := inv_of_run_alloc hnew hrun halloc hsep
  have hinv'' : Inv s'' := (Inv.free (hinv.allocWithArena halloc hsep) hfree)
  obtain ⟨hallocated, hcount, hregions⟩ := free_of_allocWithArena hinv hlt halloc hsep hfree
  refine ⟨hallocated, hcount, hregions, fun x => ?_⟩
  obtain ⟨got, hhead, -⟩ := hinv.first
  have hne : s.regions ≠ [] := fun hnil => by simp [hnil] at hhead
  have hsplit : s.regions ++ s'.regions.drop s.regions.length = s'.regions :=
    List.prefix_iff_eq_append.mp hgrows.earlier
  -- the allocated blocks lie in the earlier regions, which the new ones do not touch
  have hnew_free : Covered (s'.regions.drop s.regions.length) x → ¬ Covered s.allocated x := by
    rintro ⟨R', hR', hxR'⟩ hA
    obtain ⟨R, hR, hxR⟩ := exists_region_of_covered_usable
      ((hinv.tiles.cover x).mp (covered_append.mpr (.inr hA)))
    rw [← hsplit, List.pairwise_append] at hsep
    exact (hsep.2.2 R hR R' hR').apart x hxR hxR'
  have husable : usable s'.regions = usable s.regions ++ s'.regions.drop s.regions.length := by
    rw [← usable_append hne, hsplit]
  rw [hinv''.tiles.covered_free_iff, hinv.tiles.covered_free_iff, hregions, hallocated, husable,
    covered_append]
  constructor
  · rintro ⟨hU | hN, hA⟩
    · exact .inl ⟨hU, hA⟩
    · exact .inr hN
  · rintro (⟨hU, hA⟩ | hN)
    · exact ⟨.inl hU, hA⟩
    · exact ⟨.inr hN, hnew_free hN⟩

end Run

/-- Then after `Free` of the pointer `AllocWithArena(1048300)` returned: the
    second region is one free node again. -/
def spacedArenaBack : Arena :=
  ⟨2 ^ 32, [⟨2 ^ 32 + 480, 1048096, 17⟩, ⟨2 ^ 33, 2 ^ 20, 15⟩], [(2 ^ 32 + 320, 160)], 1, 3297241969,
    [(2 ^ 32, 2 ^ 20), (2 ^ 33, 2 ^ 20)]⟩

theorem free_allocWithArena_spaced :
    newArenaWithCustomAlloc spacedPages 1 = .ok spacedArena ∧
      run spacedPages 1 spacedArena [.alloc 100] = .ok spacedArenaOne ∧
      allocWithArena spacedPages 1 1048300 spacedArenaOne = .ok (2 ^ 33 + 32, spacedArenaTwo) ∧
      spacedArenaTwo.regions.Pairwise Separated ∧ free spacedArenaTwo (2 ^ 33 + 32) = .ok spacedArenaBack ∧
      spacedArenaBack.allocated = spacedArenaOne.allocated ∧
      spacedArenaBack.allocationCount = spacedArenaOne.allocationCount ∧
      spacedArenaBack.regions = spacedArenaTwo.regions ∧
      ∀ x, Covered (spacedArenaBack.freelist.map FreeBlock.toPair) x ↔
        Covered (spacedArenaOne.freelist.map FreeBlock.toPair) x ∨
          Covered (spacedArenaTwo.regions.drop spacedArenaOne.regions.length) x := by
  have hnew : newArenaWithCustomAlloc spacedPages 1 = .ok spacedArena := by decide +kernel
  have hrun : run spacedPages 1 spacedArena [.alloc 100] = .ok spacedArenaOne := by decide +kernel
  have halloc : allocWithArena spacedPages 1 1048300 spacedArenaOne = .ok (2 ^ 33 + 32, spacedArenaTwo) := by
    decide +kernel
  have hsep : spacedArenaTwo.regions.Pairwise Separated := by decide
  have hfree : free spacedArenaTwo (2 ^ 33 + 32) = .ok spacedArenaBack := by decide +kernel
  exact ⟨hnew, hrun, halloc, hsep, hfree, free_allocWithArena hnew hrun halloc hsep hfree⟩

end LowLevelAlloc

end Gperftools
