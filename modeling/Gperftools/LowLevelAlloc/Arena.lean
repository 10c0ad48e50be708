import Gperftools.LowLevelAlloc.FreeList

/-!
# The arena along a run

Each call into the arena is read back once as what it does to the arena
(`allocWithArena_eq_ok`, `free_eq_ok`, `mapRegion_eq_ok`, ...); the
invariant proofs then take it apart from there.

The invariant `Inv` says that the free list and the allocated blocks tile
`usable s.regions`: every region `MapPages` returned, less the `Arena`
object that `NewArenaWithCustomAlloc` places at the start of the first. It
holds of a new arena (`Inv.newArena`) and is kept by every call
(`Inv.step`), hence along a run (`Inv.run`), as long as no region touches
another: a region next to another would be coalesced with it, and a later
region that overlaps an earlier one would not be apart from its blocks. The
retry loop of `AllocWithArena` keeps it through `Retry.retry_inv`, round by
round.

The condition is on the regions a run leaves the arena with. `Grows` says
that a call only appends regions, each the answer of `MapPages` to the call
of its index (`grows_run`), so the condition on the final regions holds of
the regions at every step.
-/

namespace Gperftools

namespace LowLevelAlloc

open Intervals

/-! ## The calls, read back -/

/-- `InsertAllocatedMemoryLocked` frees the block into the list. -/
theorem insertAllocatedMemoryLocked_eq_ok {s s' : Arena} {x n : ℕ} :
    insertAllocatedMemoryLocked s x n = .ok s' ↔
      ∃ q, addToFreelist s.rnd (x, n) s.freelist = .ok q ∧
        s' = { s with freelist := q.1, rnd := q.2 } := by
  rw [insertAllocatedMemoryLocked, Except.bind_eq_ok]
  simp only [Except.pure_eq_ok]
  exact exists_congr fun q => and_congr_right fun _ => eq_comm

/-- `NewArenaWithCustomAlloc` places the arena at its first region and frees
    the rest of the region. -/
theorem newArenaWithCustomAlloc_eq_ok {a : PagesAllocator} {r : UInt32} {s : Arena}
    (h : newArenaWithCustomAlloc a r = .ok s) :
    ∃ q, addToFreelist r ((a.mapPages 0 kMinimalRegion).1 + arenaSize,
        Word.sub 64 (a.mapPages 0 kMinimalRegion).2 arenaSize) [] = .ok q ∧
      s = { self := (a.mapPages 0 kMinimalRegion).1, freelist := q.1, allocated := [],
            allocationCount := 0, rnd := q.2, regions := [a.mapPages 0 kMinimalRegion] } := by
  rw [newArenaWithCustomAlloc] at h
  obtain ⟨q, hq, rfl⟩ := insertAllocatedMemoryLocked_eq_ok.mp h
  exact ⟨q, hq, rfl⟩

/-- A round of `AllocWithArena`'s loop logs the region `MapPages` returns and
    frees it into the list. -/
theorem mapRegion_eq_ok {a : PagesAllocator} {reqRnd : ℕ} {s s' : Arena}
    (h : mapRegion a reqRnd s = .ok s') :
    ∃ n q, addToFreelist s.rnd (a.mapPages s.regions.length n) s.freelist = .ok q ∧
      s' = { s with regions := s.regions ++ [a.mapPages s.regions.length n], freelist := q.1,
                    rnd := q.2 } :=
  ⟨_, insertAllocatedMemoryLocked_eq_ok.mp h⟩

/-- `AllocWithArena` returns `nullptr` for a request of `0`, or takes a node
    the loop found off the list, returns the address after its header, and
    either splits it, freeing its tail, or hands it out whole. -/
theorem allocWithArena_eq_ok {a : PagesAllocator} {rounds request ptr : ℕ} {s s' : Arena}
    (h : allocWithArena a rounds request s = .ok (ptr, s')) :
    (request = 0 ∧ ptr = 0 ∧ s' = s) ∨ ∃ reqRnd b s₁ l,
      reqRnd = roundUp (Word.add 64 request headerSize) roundup ∧ ptr = b.addr + headerSize ∧
      allocLoop a reqRnd rounds s = .ok (b, s₁) ∧
      skiplistDelete b.addr s₁.freelist = .ok l ∧
      ((reqRnd + minSize ≤ b.size ∧ ∃ q, addToFreelist s₁.rnd (b.addr + reqRnd, b.size - reqRnd) l = .ok q ∧
          s' = { s₁ with freelist := q.1, rnd := q.2, allocated := (b.addr, reqRnd) :: s₁.allocated,
                         allocationCount := s₁.allocationCount + 1 }) ∨
        (b.size < reqRnd + minSize ∧
          s' = { s₁ with freelist := l, allocated := (b.addr, b.size) :: s₁.allocated,
                         allocationCount := s₁.allocationCount + 1 })) := by
  unfold allocWithArena at h
  split_ifs at h with h0
  · obtain ⟨hptr, hs'⟩ := Prod.mk.inj (Except.ok.inj h)
    exact .inl ⟨h0, hptr.symm, hs'.symm⟩
  · right
    obtain ⟨⟨b, s₁⟩, hloop, h⟩ := Except.bind_eq_ok.mp h
    obtain ⟨l, hdel, h⟩ := Except.bind_eq_ok.mp h
    split_ifs at h with hsplit
    · obtain ⟨q, hq, h⟩ := Except.bind_eq_ok.mp h
      obtain ⟨hptr, hs'⟩ := Prod.mk.inj (Except.pure_eq_ok.mp h)
      exact ⟨_, b, s₁, l, rfl, hptr.symm, hloop, hdel, .inl ⟨hsplit, q, hq, hs'.symm⟩⟩
    · obtain ⟨hptr, hs'⟩ := Prod.mk.inj (Except.pure_eq_ok.mp h)
      exact ⟨_, b, s₁, l, rfl, hptr.symm, hloop, hdel, .inr ⟨not_le.mp hsplit, hs'.symm⟩⟩

/-- `Free` ignores `nullptr`, or frees the first allocated block whose header
    is just before the pointer. -/
theorem free_eq_ok {s s' : Arena} {p : ℕ} (h : free s p = .ok s') :
    (p = 0 ∧ s' = s) ∨ ∃ block q, s.allocated.find? (·.1 = Word.sub 64 p headerSize) = some block ∧
      block ∈ s.allocated ∧ addToFreelist s.rnd block s.freelist = .ok q ∧
      s' = { s with freelist := q.1, rnd := q.2, allocated := s.allocated.erase block,
                    allocationCount := s.allocationCount - 1 } := by
  unfold free at h
  by_cases hp : p = 0
  · rw [if_pos hp] at h
    exact .inl ⟨hp, (Except.ok.inj h).symm⟩
  · rw [if_neg hp] at h
    right
    dsimp only at h
    split at h
    · cases h
    · rename_i block hfind
      obtain ⟨q, hq, h⟩ := Except.bind_eq_ok.mp h
      split_ifs at h with h0
      · cases h
      · exact ⟨block, q, hfind, List.mem_of_find?_eq_some hfind, hq, (Except.pure_eq_ok.mp h).symm⟩


/-- What the walk of a level finds is a node of the level with room for the
    request. -/
theorem walk_eq_some {reqRnd : ℕ} {b : FreeBlock} {before : Option FreeBlock} {l : List FreeBlock}
    (h : walk reqRnd before l = .ok (some b)) : b ∈ l ∧ reqRnd ≤ b.size := by
  induction l generalizing before with
  | nil => cases h
  | cons c l ih =>
    -- a node too small moves the walk on; one large enough ends it
    have hnext : walk reqRnd (some c) l = .ok (some b) → b ∈ c :: l ∧ reqRnd ≤ b.size :=
      fun hw => (ih hw).imp (List.mem_cons_of_mem c) id
    have hfound : ¬ c.size < reqRnd → Except.ok (some c) = (.ok (some b) : Except Failure _) →
        b ∈ c :: l ∧ reqRnd ≤ b.size := by
      intro hfit hc
      cases hc
      exact ⟨List.mem_cons_self, not_lt.mp hfit⟩
    rw [walk.eq_def] at h
    dsimp only at h
    split at h
    · -- after a node: where the order and spacing checks of `Next` fail, the
      -- walk ends in an error, which `split_ifs` discards
      split_ifs at h with h1 h2 h3
      · exact hnext h
      · exact hfound h3 h
    · split_ifs at h with h3
      · exact hnext h
      · exact hfound h3 h

/-- What a search finds is a free node with room for the request, which got
    its levels from `LLA_SkiplistLevels`. -/
theorem search_eq_some {reqRnd : ℕ} {s : Arena} {b : FreeBlock}
    (h : search reqRnd s = .ok (some b)) :
    (∃ p, skiplistLevels s.rnd reqRnd minSize false = .ok p) ∧ b ∈ s.freelist ∧ reqRnd ≤ b.size := by
  obtain ⟨p, hp, h⟩ := Except.bind_eq_ok.mp h
  dsimp only at h
  split_ifs at h
  · obtain ⟨hb, hfit⟩ := walk_eq_some h
    exact ⟨⟨p, hp⟩, List.mem_of_mem_filter hb, hfit⟩
  · cases h

/-! ## The invariant -/

/-- The addresses the blocks of an arena tile, given the regions its
    allocator mapped: the first region after the `Arena` object placed at its
    start, and every later region whole. -/
def usable : List (ℕ × ℕ) → List (ℕ × ℕ)
  | [] => []
  | R :: rs => (R.1 + arenaSize, R.2 - arenaSize) :: rs

/-- Regions mapped after the first are tiled whole. -/
theorem usable_append {rs : List (ℕ × ℕ)} (h : rs ≠ []) (ts : List (ℕ × ℕ)) :
    usable (rs ++ ts) = usable rs ++ ts := by
  cases rs with
  | nil => contradiction
  | cons R₀ rs => rfl

/-- A tiled address lies in a region. -/
theorem exists_region_of_covered_usable {rs : List (ℕ × ℕ)} {x : ℕ} (h : Covered (usable rs) x) :
    ∃ R ∈ rs, In x R := by
  cases rs with
  | nil => exact absurd h covered_nil
  | cons R₀ rs =>
    rcases covered_cons.mp h with h | ⟨R, hR, hx⟩
    · refine ⟨R₀, List.mem_cons_self, ?_⟩
      unfold In at h ⊢
      dsimp only at h
      omega
    · exact ⟨R, List.mem_cons_of_mem _ hR, hx⟩

/-- With room for the `Arena` object in the first region, what is tiled of
    separated regions is separated. -/
theorem usable_pairwise_separated {R₀ : ℕ × ℕ} {rs : List (ℕ × ℕ)}
    (h : (R₀ :: rs).Pairwise Separated) (h₀ : arenaSize ≤ R₀.2) :
    (usable (R₀ :: rs)).Pairwise Separated := by
  rw [usable, List.pairwise_cons]
  rw [List.pairwise_cons] at h
  exact ⟨fun R hR => (h.1 R hR).mono (by dsimp only; omega) (by dsimp only; omega), h.2⟩

/-- The invariant of an arena: its free list and allocated blocks tile the
    regions less the `Arena` object; `allocation_count` counts the allocated
    blocks; the first region starts at the `Arena` object and has room for
    it; and no tiled part of a region is empty. -/
structure Inv (s : Arena) : Prop where
  /-- The blocks tile the regions, less the `Arena` object. -/
  tiles : Tiles s.freelist s.allocated (Covered (usable s.regions))
  /-- `allocation_count` is the number of allocated blocks. -/
  count : s.allocationCount = s.allocated.length
  /-- The first region holds the `Arena` object at its start. -/
  first : ∃ got, s.regions.head? = some (s.self, got) ∧ arenaSize ≤ got
  /-- Every tiled part of a region has an address. -/
  usable_pos : ∀ R ∈ usable s.regions, 0 < R.2


/-! ## The regions -/

/-- The regions are the answers of `MapPages`, call by call: the `k`-th
    region is what the `k`-th call returned. -/
def Logged (a : PagesAllocator) (rs : List (ℕ × ℕ)) : Prop :=
  ∀ k (hk : k < rs.length), ∃ n, rs[k] = a.mapPages k n

/-- Regions that answer `MapPages` end below `2 ^ 64`. -/
theorem Logged.lt {a : PagesAllocator} {rs : List (ℕ × ℕ)} (h : Logged a rs) :
    ∀ R ∈ rs, R.1 + R.2 < 2 ^ 64 := fun R hR => by
  obtain ⟨k, hk, rfl⟩ := List.mem_iff_getElem.mp hR
  obtain ⟨n, hn⟩ := h k hk
  rw [hn]
  exact a.lt k n

/-- The regions `rs'` continue `rs` with further answers of `MapPages`. -/
structure Grows (a : PagesAllocator) (rs rs' : List (ℕ × ℕ)) : Prop where
  /-- The earlier regions come first. -/
  earlier : rs <+: rs'
  /-- The later ones answer the calls of their indices. -/
  logged : Logged a rs → Logged a rs'

section Grows

variable {a : PagesAllocator} {rs rs' rs'' : List (ℕ × ℕ)}

theorem Grows.refl (a : PagesAllocator) (rs : List (ℕ × ℕ)) : Grows a rs rs :=
  ⟨List.prefix_refl rs, id⟩

theorem Grows.trans (h₁ : Grows a rs rs') (h₂ : Grows a rs' rs'') : Grows a rs rs'' :=
  ⟨h₁.earlier.trans h₂.earlier, h₂.logged ∘ h₁.logged⟩

/-- The answer to the next call of `MapPages` continues the regions. -/
theorem grows_append (a : PagesAllocator) (rs : List (ℕ × ℕ)) (n : ℕ) :
    Grows a rs (rs ++ [a.mapPages rs.length n]) := by
  refine ⟨List.prefix_append _ _, fun hlog k hk => ?_⟩
  rw [List.length_append, List.length_singleton] at hk
  rcases Nat.lt_or_ge k rs.length with hlt | hge
  · rw [List.getElem_append_left hlt]
    exact hlog k hlt
  · obtain rfl : k = rs.length := by omega
    exact ⟨n, by simp⟩

end Grows

/-- A round of the retry loop appends the region `MapPages` returned. -/
theorem grows_mapRegion {a : PagesAllocator} {reqRnd : ℕ} {s s' : Arena}
    (h : mapRegion a reqRnd s = .ok s') : Grows a s.regions s'.regions := by
  obtain ⟨n, q, -, rfl⟩ := mapRegion_eq_ok h
  exact grows_append a s.regions n

/-- The retry loop of `AllocWithArena` maps one region per round, and
    allocates nothing. -/
theorem grows_allocLoop {a : PagesAllocator} {reqRnd rounds : ℕ} {s s₁ : Arena} {b : FreeBlock}
    (hloop : allocLoop a reqRnd rounds s = .ok (b, s₁)) :
    Grows a s.regions s₁.regions ∧ s₁.allocated = s.allocated :=
  (Retry.retry_inv (fun t => Grows a s.regions t.regions ∧ t.allocated = s.allocated)
    (fun t t' ht _ hmap => by
      obtain ⟨n, q, -, rfl⟩ := mapRegion_eq_ok hmap
      exact ⟨ht.1.trans (grows_append a t.regions n), ht.2⟩)
    rounds s ⟨Grows.refl _ _, rfl⟩ hloop).1

/-- A call only appends regions `MapPages` returned: the retry loop of
    `AllocWithArena` one per round. -/
theorem grows_step {a : PagesAllocator} {rounds : ℕ} {s s' : Arena} {c : Call}
    (h : step a rounds s c = .ok s') : Grows a s.regions s'.regions := by
  cases c with
  | alloc request =>
    obtain ⟨⟨ptr, s''⟩, halloc, rfl⟩ := Except.map_eq_ok.mp h
    rcases allocWithArena_eq_ok halloc with ⟨-, -, rfl⟩ | ⟨reqRnd, b, s₁, l, -, -, hloop, -, hs'⟩
    · exact Grows.refl _ _
    · rcases hs' with ⟨-, q, -, rfl⟩ | ⟨-, rfl⟩ <;> exact (grows_allocLoop hloop).1
  | free p =>
    rcases free_eq_ok h with ⟨-, rfl⟩ | ⟨block, q, -, -, -, rfl⟩ <;> exact Grows.refl _ _

/-- So does a sequence of calls. -/
theorem grows_run {a : PagesAllocator} {rounds : ℕ} :
    ∀ {s s' : Arena} {cs : List Call}, run a rounds s cs = .ok s' → Grows a s.regions s'.regions
  | s, s', [], h => by
    cases h
    exact Grows.refl _ _
  | s, s', c :: cs, h => by
    obtain ⟨s₁, hstep, hrest⟩ := Except.bind_eq_ok.mp h
    exact (grows_step hstep).trans (grows_run hrest)

/-- A new arena's one region is the answer to the first call of
    `MapPages`. -/
theorem logged_newArena {a : PagesAllocator} {r : UInt32} {s : Arena}
    (h : newArenaWithCustomAlloc a r = .ok s) : Logged a s.regions := by
  obtain ⟨q, -, rfl⟩ := newArenaWithCustomAlloc_eq_ok h
  intro k hk
  obtain rfl : k = 0 := by simpa using hk
  exact ⟨kMinimalRegion, rfl⟩


/-! ## The invariant along a run -/

/-- A new arena keeps the invariant: its first region has room for the
    `Arena` object, since otherwise the size of the rest wraps to a block
    with no level, and the rest of the region is its one free node. -/
theorem Inv.newArena {a : PagesAllocator} {r : UInt32} {s : Arena}
    (h : newArenaWithCustomAlloc a r = .ok s) : Inv s := by
  obtain ⟨q, hq, rfl⟩ := newArenaWithCustomAlloc_eq_ok h
  have hlt := a.lt 0 kMinimalRegion
  set R := a.mapPages 0 kMinimalRegion
  obtain ⟨p, hp⟩ := levels_of_addToFreelist hq
  have hRlt : R.2 < 2 ^ 64 := by omega
  -- the region has room for the `Arena` object: otherwise `got - sizeof(Arena)`
  -- wraps, and its block has no level
  have hroom : arenaSize ≤ R.2 := by
    by_contra hsmall
    have hsub : Word.sub 64 R.2 arenaSize = 2 ^ 64 - (arenaSize - R.2) :=
      Word.sub_of_lt (not_le.mp hsmall) (by decide)
    have h320 : arenaSize = 320 := rfl
    exact absurd (one_le_maxFit_of_skiplistLevels hp)
      (not_le.mpr (maxFit_lt_one_of_ge (by rw [hsub]; omega) (by rw [hsub]; omega)))
  have hsize : Word.sub 64 R.2 arenaSize = R.2 - arenaSize := Word.sub_of_le hroom hRlt
  rw [hsize] at hq hp
  refine ⟨Tiles.nil.insert (fun _ _ h => h) (fun x => ?_) hq, rfl, ⟨R.2, rfl, hroom⟩, ?_⟩
  · simp [usable]
  · simp only [usable, List.mem_singleton, forall_eq]
    have := le_size_of_skiplistLevels hp
    omega

/-- Mapping a region separated from the earlier ones keeps the invariant:
    the free list takes in the region whole. -/
theorem Inv.mapRegion {a : PagesAllocator} {reqRnd : ℕ} {s s' : Arena} (hinv : Inv s)
    (h : mapRegion a reqRnd s = .ok s') (hsep : s'.regions.Pairwise Separated) : Inv s' := by
  obtain ⟨n, q, hq, rfl⟩ := mapRegion_eq_ok h
  set R := a.mapPages s.regions.length n
  obtain ⟨got, hhead, hroom⟩ := hinv.first
  have hne : s.regions ≠ [] := by
    rintro hnil
    simp [hnil] at hhead
  -- the new region is separated from every earlier one, so it lies outside
  -- what the blocks tile
  have hout : ∀ x, In x R → ¬ Covered (usable s.regions) x := fun x hxR hx => by
    obtain ⟨R', hR', hxR'⟩ := exists_region_of_covered_usable hx
    exact (List.pairwise_append.mp hsep).2.2 R' hR' R (List.mem_singleton_self R) |>.apart x hxR' hxR
  obtain ⟨p, hp⟩ := levels_of_addToFreelist hq
  refine ⟨hinv.tiles.insert hout (fun x => ?_) hq, hinv.count, ⟨got, ?_, hroom⟩, ?_⟩
  · simp only [usable_append hne, covered_append, covered_cons, covered_nil, or_false]
    exact or_comm
  · simpa [List.head?_append_of_ne_nil _ hne] using hhead
  · simp only [usable_append hne, List.mem_append, List.mem_singleton]
    rintro u (hu | rfl)
    · exact hinv.usable_pos u hu
    · have := le_size_of_skiplistLevels hp
      omega

/-- `Free` keeps the invariant. -/
theorem Inv.free {s s' : Arena} {p : ℕ} (hinv : Inv s) (h : free s p = .ok s') : Inv s' := by
  rcases free_eq_ok h with ⟨-, rfl⟩ | ⟨block, q, -, hb, hq, rfl⟩
  · exact hinv
  · refine ⟨hinv.tiles.free hb hq, ?_, hinv.first, hinv.usable_pos⟩
    dsimp only
    rw [hinv.count, List.length_erase_of_mem hb]

/-- The retry loop of `AllocWithArena` keeps the invariant of the arenas it
    maps regions into, when the regions it ends with are separated, and ends
    at a free node with room for the request, of at least `48` bytes. -/
theorem allocLoop_spec {a : PagesAllocator} {reqRnd rounds : ℕ} {s s₁ : Arena} {b : FreeBlock}
    (hinv : Inv s) (hloop : allocLoop a reqRnd rounds s = .ok (b, s₁))
    (hsep : s₁.regions.Pairwise Separated) :
    Inv s₁ ∧ b ∈ s₁.freelist ∧ reqRnd ≤ b.size ∧ 48 ≤ reqRnd := by
  -- the regions of every round are among the final ones, so separated too
  have hloopInv := Retry.retry_inv (fun t => t.regions.Pairwise Separated → Inv t)
    (fun t t' hP _ hmap hsep' => (hP (hsep'.sublist (grows_mapRegion hmap).earlier.sublist)).mapRegion hmap hsep')
    rounds s (fun _ => hinv) hloop
  obtain ⟨⟨p, hp⟩, hb, hfit⟩ := search_eq_some hloopInv.2
  exact ⟨hloopInv.1 hsep, hb, hfit, le_size_of_skiplistLevels hp⟩

/-- `AllocWithArena` keeps the invariant, when the regions it leaves the
    arena with are separated. -/
theorem Inv.allocWithArena {a : PagesAllocator} {rounds request ptr : ℕ} {s s' : Arena}
    (hinv : Inv s) (h : allocWithArena a rounds request s = .ok (ptr, s'))
    (hsep : s'.regions.Pairwise Separated) : Inv s' := by
  rcases allocWithArena_eq_ok h with ⟨-, -, rfl⟩ | ⟨reqRnd, b, s₁, l, -, -, hloop, hdel, hs'⟩
  · exact hinv
  · have hregions : s'.regions = s₁.regions := by
      rcases hs' with ⟨-, q, -, rfl⟩ | ⟨-, rfl⟩ <;> rfl
    obtain ⟨hinv₁, hb, hfit, hreq⟩ := allocLoop_spec hinv hloop (hregions ▸ hsep)
    rcases hs' with ⟨hsplit, q, hq, rfl⟩ | ⟨-, rfl⟩
    · refine ⟨hinv₁.tiles.take hb (by omega) (by unfold minSize roundup at hsplit; omega) hdel hq,
        ?_, hinv₁.first, hinv₁.usable_pos⟩
      simp [hinv₁.count]
    · refine ⟨hinv₁.tiles.take_whole hb hdel, ?_, hinv₁.first, hinv₁.usable_pos⟩
      simp [hinv₁.count]

/-- One call keeps the invariant. -/
theorem Inv.step {a : PagesAllocator} {rounds : ℕ} {s s' : Arena} {c : Call} (hinv : Inv s)
    (h : step a rounds s c = .ok s') (hsep : s'.regions.Pairwise Separated) : Inv s' := by
  cases c with
  | alloc request =>
    obtain ⟨⟨ptr, s''⟩, halloc, rfl⟩ := Except.map_eq_ok.mp h
    exact hinv.allocWithArena halloc hsep
  | free p => exact hinv.free h

/-- A sequence of calls keeps the invariant, when the regions it leaves the
    arena with are separated. -/
theorem Inv.run {a : PagesAllocator} {rounds : ℕ} :
    ∀ {s s' : Arena} {cs : List Call}, Inv s → run a rounds s cs = .ok s' →
      s'.regions.Pairwise Separated → Inv s'
  | s, s', [], hinv, h, _ => by
    cases h
    exact hinv
  | s, s', c :: cs, hinv, h, hsep => by
    obtain ⟨s₁, hstep, hrest⟩ := Except.bind_eq_ok.mp h
    -- the regions mapped so far are among the final ones, so separated too
    have hsep₁ : s₁.regions.Pairwise Separated := hsep.sublist (grows_run hrest).earlier.sublist
    exact Inv.run (hinv.step hstep hsep₁) hrest hsep


end LowLevelAlloc

end Gperftools
